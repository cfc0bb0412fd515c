import CuttleDB.Wire
import CuttleDB.Lib.Utf16
import CuttleDB.RowCodec
import CuttleDB.RowLists
import CuttleDB.ExecStrings
import CuttleDB.Lib.Binary64
import CuttleDB.Numerals
import CuttleDB.JsNumbers
import CuttleDB.GroupBy
import CuttleDB.GroupByScanner
import CuttleDB.FieldCipher
import CuttleDB.EncryptedColumns
import CuttleDB.SentStrings
import CuttleDB.MixedColumns
import CuttleDB.Lib.Framing
import CuttleDB.Lib.Utf8
import CuttleDB.PyText
import CuttleDB.ServerLines
import CuttleDB.PyConnection
import CuttleDB.PyReplies
import CuttleDB.PyDemultiplexing
import CuttleDB.PyLateReplies
import CuttleDB.PyReconnection
import CuttleDB.PyCommands
import CuttleDB.Lib.Joined
import CuttleDB.RequestLines
import CuttleDB.Schemas
import CuttleDB.Tokens
import CuttleDB.Predicates
import CuttleDB.Transactions
import CuttleDB.PyArrivals
import CuttleDB.PyBinaryCalls
import CuttleDB.PyPolling
import CuttleDB.PyStreaming
import CuttleDB.PyCluster
import CuttleDB.Lib.Word32
import CuttleDB.JsShards
import CuttleDB.Fanout
import CuttleDB.Lib.Pipeline
import CuttleDB.JsPipelining
import CuttleDB.JsLockStep
import CuttleDB.JsLines
import CuttleDB.JsSessions
import CuttleDB.JsDisconnection
import CuttleDB.JsFrames
import CuttleDB.JsListeners
import CuttleDB.LineReassembly
import CuttleDB.Lib.Interaction
import CuttleDB.Lib.SwapRemove
import CuttleDB.PyChangeLog
import CuttleDB.ResultLists
import CuttleDB.Table
import CuttleDB.Replicate
import CuttleDB.ReplicateCursor
import CuttleDB.ReplicateSync
import CuttleDB.ReplicateConvergence
import CuttleDB.ReplicateFold
import CuttleDB.ReplicateRestart
import CuttleDB.ReplicateBootstrap
import CuttleDB.ReplicateLockStep
import CuttleDB.ReplicateAgreement
import CuttleDB.Lib.Projection
import CuttleDB.ReplicateIndependence
import CuttleDB.Lib.Json
import CuttleDB.ReplicateCheckpoint
import CuttleDB.SearchClient
import CuttleDB.Lib.Mutex
import CuttleDB.PyThreads
import CuttleDB.Lib.Rotation
import CuttleDB.RoundRobin
import CuttleDB.WasmText
import CuttleDB.Wasm
import CuttleDB.Lib.Serving
import CuttleDB.SharedTable
import CuttleDB.Lib.FormUrl
import CuttleDB.SearchRequests
import CuttleDB.Lib.FailFast
import CuttleDB.PyBatches
import CuttleDB.Lib.Reservation
import CuttleDB.ConcurrentTransactions
import CuttleDB.Lib.Rounding
import CuttleDB.Datetimes
import CuttleDB.JsCluster
import CuttleDB.Lib.Clauses
import CuttleDB.QueryLines
