import Maock.Foundation.TransitionSystem
import Maock.Http1.Handler
import Maock.Matching.BestFit
import Maock.Http1.ResponseOrder
import Maock.Foundation.Fuel
import Maock.Http1.WriteSizes
import Maock.Http1.HeadBounds
import Maock.Http1.BodyDraining
import Maock.Http.PercentEncoding
import Maock.Http.UrlParser
import Maock.Http.PathJoin
import Maock.Http.ServeMux
import Maock.Http.RequestTarget
import Maock.Http1.Callbacks
import Maock.Http1.UrlPieces
import Maock.Http1.Assembly
import Maock.Http1.Connection
import Maock.Http1.Closing
import Maock.Foundation.Interleaving
import Maock.Http2.Handler
import Maock.Http2.Dispatch
import Maock.Json.ExtendedPointer
import Maock.Json.Lookup
import Maock.Worker.SendResponse
import Maock.Worker.Handlers
import Maock.Answering.Argument
import Maock.Answering.Template
import Maock.Answering.Script
import Maock.Answering.Throttle
import Maock.Worker.Isolation
import Maock.Http1.WakeUp
import Maock.Http1.HeadFields
import Maock.Worker.ContentLength
import Maock.Worker.SelfDelimiting
import Maock.Worker.HeaderLines
import Maock.Http1.ResponseBytes
import Maock.Http1.BatchBytes
import Maock.Http1.EmittedBytes
import Maock.Http1.Pipelining
import Maock.Http2.Output
import Maock.Answering.ResponseGroup
import Maock.Foundation.Ledger
import Maock.Foundation.RaggedTable
import Maock.Worker.Statistics
import Maock.Worker.Accounting
import Maock.Worker.ThreadRuns
import Maock.Matching.ConfigurationOrder
import Maock.Answering.WeightedSelection
import Maock.Answering.Placeholders
import Maock.Worker.ConfiguredHeaders
import Maock.Json.Scalars
import Maock.Json.DocumentMatching
import Maock.Json.Segments
import Maock.Listening.Acceptors
import Maock.Http.PathSegments
import Maock.Http.Redirect
import Maock.Worker.SentBatches
import Maock.Answering.ScriptStack
import Maock.Answering.Substring
import Maock.Answering.ScriptResults
import Maock.Worker.ScriptedRequests
import Maock.Response.Lifecycle
import Maock.Response.StartsOnce
import Maock.Response.Streaming
import Maock.Response.PayloadSize
import Maock.Foundation.ShardedMap
import Maock.Http.Registration
import Maock.Store.GlobalData
import Maock.Store.SingleMap
import Maock.Foundation.Narrowing
import Maock.Store.MalformedCalls
import Maock.Worker.StatisticsTotals
import Maock.Foundation.SearchTree
import Maock.Matching.Comparators
import Maock.Foundation.ClassNumbers
import Maock.Matching.RuleNumbers
import Maock.Foundation.StringPositions
import Maock.Json.PointerPieces
import Maock.Json.MemberLoops
import Maock.Connection.ServerConnection
import Maock.Connection.Lifecycle
import Maock.Connection.Deadline
import Maock.Http2.TimedOutput
import Maock.Http.UrlGrammar
import Maock.Http.UrlMarks
import Maock.Http.UrlComponents
import Maock.Config.Handlers
import Maock.Config.Decoding
import Maock.Config.Objects
import Maock.Config.Meaning
import Maock.Config.Schema
import Maock.Config.Configuration
import Maock.Foundation.LockedShards
import Maock.Store.Locking
import Maock.Foundation.Framing
import Maock.Worker.ClientReader
import Maock.Worker.ServedHandler
import Maock.Worker.ClientView
