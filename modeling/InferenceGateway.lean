import InferenceGateway.EventSystem
import InferenceGateway.CString
import InferenceGateway.Task
import InferenceGateway.RowMajor
import InferenceGateway.OnnxEngine
import InferenceGateway.Scheduler
import InferenceGateway.SchedulerMoves
import InferenceGateway.SchedulerProgress
import InferenceGateway.SchedulerConserve
import InferenceGateway.SchedulerLimit
import InferenceGateway.SchedulerPlace
import InferenceGateway.SchedulerQueues
import InferenceGateway.SchedulerOutcome
import InferenceGateway.SchedulerLifetime
import InferenceGateway.SchedulerClock
import InferenceGateway.SchedulerVerdict
import InferenceGateway.SchedulerDeadline
import InferenceGateway.SchedulerShutdown
import InferenceGateway.SchedulerFailure
import InferenceGateway.SchedulerWakeup
import InferenceGateway.HttpConn
import InferenceGateway.HttpLine
import InferenceGateway.HttpParse
import InferenceGateway.HttpRequestLine
import InferenceGateway.HttpFragment
import InferenceGateway.HttpMalformed
import InferenceGateway.HttpSafety
import InferenceGateway.HttpResponse
import InferenceGateway.HttpWrite
import InferenceGateway.CNumber
import InferenceGateway.HttpJson
import InferenceGateway.HttpInference
import InferenceGateway.HttpBuffer
import InferenceGateway.HttpFraming
import InferenceGateway.HttpRead
import InferenceGateway.HttpCodes
import InferenceGateway.HttpIsolation
import InferenceGateway.HttpKeepAlive
import InferenceGateway.PrefixCode
import InferenceGateway.HttpClient
import InferenceGateway.HttpGrammar
import InferenceGateway.Json
import InferenceGateway.JsonNumber
import InferenceGateway.JsonLiteral
import InferenceGateway.JsonFlat
import InferenceGateway.HttpArray
import InferenceGateway.HttpFields
import InferenceGateway.HttpPriority
import InferenceGateway.HttpAnswer
import InferenceGateway.HttpRoundTrip
import InferenceGateway.Server
import InferenceGateway.ServerCore
import InferenceGateway.ServerCustody
import InferenceGateway.ServerResponse
import InferenceGateway.ServerReuse
import InferenceGateway.LinkedList
import InferenceGateway.TimerList
import InferenceGateway.TimerRun
import InferenceGateway.ThreadPool
import InferenceGateway.ServerAccounts
import InferenceGateway.ServerHandshake
import InferenceGateway.ServerEvents
import InferenceGateway.ServerDescriptors
import InferenceGateway.CircularArray
import InferenceGateway.BlockQueue
import InferenceGateway.BlockQueueFront
import InferenceGateway.Monitor
import InferenceGateway.BlockQueueThreads
import InferenceGateway.TaskWait
import InferenceGateway.AsyncLog
import InferenceGateway.LogFormat
import InferenceGateway.Ownership
import InferenceGateway.BufferPool
import InferenceGateway.HeapLedger
import InferenceGateway.HttpOwnership
import InferenceGateway.SymbolicShape
import InferenceGateway.OnnxShape
import InferenceGateway.OnnxReload
import InferenceGateway.ServerFlags
import InferenceGateway.SchedulerWaiting
import InferenceGateway.SignalLoop
import InferenceGateway.Heartbeat
import InferenceGateway.SchedulerDrain
import InferenceGateway.GetOpt
import InferenceGateway.CommandLine
import InferenceGateway.LogFiles
import InferenceGateway.ModelManager
import InferenceGateway.SchedulerFate
import InferenceGateway.HttpTask
import InferenceGateway.SchedulerAttend
import InferenceGateway.EndToEnd
import InferenceGateway.EndToEndProgress
