/-
The fields of a request body.

`do_request` finds the fields of a body by searching for their names; there is no parser behind it.
The functions are given the body as a C string.  `ofText` is the value that `strtof` returns for
the bytes it reads.

* `Gateway.afterKey` — the search that the three functions share;
* `Gateway.jsonGetString`, `Gateway.jsonGetInt`, `Gateway.jsonGetFloatArray` — the functions;
* `Gateway.quote_not_mem_jsonGetString` — a string that was found has no quote in it.
-/

import InferenceGateway.Task
import InferenceGateway.CNumber

set_option relaxedAutoImplicit false
set_option autoImplicit false

namespace Gateway

open CString (strstr strchr isdigit atol strtofLength)

/-! ### The search -/

/-- `skip_ws`. -/
def skipWs (p : Bytes) : Bytes := p.dropWhile fun b => b == 32 || b == 9 || b == 10 || b == 13

/-- `snprintf(search, sizeof(search), "\"%s\":", key)`. -/
def searchText (key : Bytes) : Bytes := (ascii "\"" ++ key ++ ascii "\":").take 127

/-- `strstr(json, search)`, and what stands behind the key, the colon and the blanks. -/
def afterKey (json key : Bytes) : Option Bytes :=
  (strstr json (searchText key)).map fun start =>
    skipWs (json.drop (start + (searchText key).length))

/-! ### The fields -/

/-- `json_get_string`. -/
def jsonGetString (json key : Bytes) : Bytes :=
  match afterKey json key with
  | some (34 :: start) =>
      match strchr start 34 with
      | some n => start.take n
      | none => []
  | _ => []

/-- `json_get_int`.  `strtol` stands at a digit; the conversion to `int` keeps the low 32 bits. -/
def jsonGetInt (json key : Bytes) (defaultVal : ℤ) : ℤ :=
  match afterKey json key with
  | some (b :: start) =>
      if isdigit b then Int.bmod (atol (b :: start)) (2 ^ 32) else defaultVal
  | _ => defaultVal

/-- The loop of `json_get_float_array`, cut off after `n` passes. -/
def floatLoop {F : Type} (ofText : Bytes → F) : ℕ → Bytes → List F
  | 0, _ => []
  | n + 1, start =>
      if start.head? = none ∨ start.head? = some 93 then []
      else
        let start := start.dropWhile fun b => b == 32 || b == 44
        if start.head? = none ∨ start.head? = some 93 then []
        else
          let stop := strtofLength start
          if stop = 0 then []
          else ofText (start.take stop) :: floatLoop ofText n (start.drop stop)

/-- `json_get_float_array`.  A pass that goes on has read at least one byte. -/
def jsonGetFloatArray {F : Type} (ofText : Bytes → F) (json key : Bytes) : List F :=
  match afterKey json key with
  | some (91 :: start) => floatLoop ofText start.length start
  | _ => []

/-! ### Quotes -/

/-- A string that was found has no quote in it. -/
theorem quote_not_mem_jsonGetString (json key : Bytes) : 34 ∉ jsonGetString json key := by
  unfold jsonGetString
  split
  · split
    · next n hn =>
        intro hmem
        obtain ⟨i, hi, hb⟩ := List.getElem_of_mem hmem
        rw [List.length_take] at hi
        rw [List.getElem_take] at hb
        obtain ⟨hlt, -, hbefore⟩ := List.findIdx?_eq_some_iff_getElem.1 hn
        have := hbefore i (by omega)
        simp [hb] at this
    · simp
  · simp

/-- A string that was found is a part of the body. -/
theorem mem_of_mem_jsonGetString {json key : Bytes} {b : UInt8} (h : b ∈ jsonGetString json key) :
    b ∈ json := by
  unfold jsonGetString at h
  split at h
  · next start hkey =>
      split at h
      · next n hn =>
          obtain ⟨i, -, hi⟩ := Option.map_eq_some_iff.1 hkey
          have hmem : b ∈ skipWs (json.drop (i + (searchText key).length)) := by
            rw [hi]
            exact List.mem_cons_of_mem _ (List.mem_of_mem_take h)
          exact List.mem_of_mem_drop ((List.dropWhile_suffix _).mem hmem)
      · cases h
  · cases h

/-- A key that stands twice: the first one counts, and an escaped quote ends the value. -/
example :
    jsonGetString (ascii "\x7b\"model\": \"a\\\"b\", \"model\":\"c\"\x7d") (ascii "model") =
      ascii "a\\" ∧
    jsonGetInt (ascii "\x7b\"priority\":4294967298\x7d") (ascii "priority") 1 = 2 ∧
    jsonGetFloatArray id (ascii "\x7b\"input\":[1 , 2.5e3,,-inf oops]") (ascii "input") =
      [ascii "1", ascii "2.5e3", ascii "-inf"] := by
  decide

end Gateway
