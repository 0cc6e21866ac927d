import Minihttpd.Library.Framing
import Minihttpd.WorkerTable
import Minihttpd.ResponseFraming
import Minihttpd.HeadSearch
import Minihttpd.Library.Framer
import Minihttpd.RequestStream
import Minihttpd.Confinement
import Minihttpd.ResponseSent
import Minihttpd.Persistence
import Minihttpd.HeadLimit
import Minihttpd.MainLoop
import Minihttpd.Library.Balance
import Minihttpd.LoadBalance
import Minihttpd.ReapedWorkers
import Minihttpd.FileBalance
import Minihttpd.CheckedRequest
import Minihttpd.CheckedResponse
import Minihttpd.TimerSweep
import Minihttpd.IdleStamps
import Minihttpd.EventDispatch
import Minihttpd.ChunkLinks
import Minihttpd.Library.SideBySide
import Minihttpd.LinkRefinement
import Minihttpd.QueueShape
import Minihttpd.SendWindow
import Minihttpd.WholeFile
import Minihttpd.DescriptorTransfer
import Minihttpd.DirectoryListing
import Minihttpd.WriteFailure
import Minihttpd.CallTermination
import Minihttpd.HeadContent
import Minihttpd.HeaderFields
import Minihttpd.Library.LineScan
import Minihttpd.KeyMap
import Minihttpd.ContentType
import Minihttpd.AlikeQueues
import Minihttpd.KeepAliveIsolation
import Minihttpd.WorkerPick
import Minihttpd.BufferMemory
import Minihttpd.MarkWritten
import Minihttpd.BufferStrings
import Minihttpd.MimeLines
import Minihttpd.Library.OpenTable
import Minihttpd.ServerSystem
import Minihttpd.ConnectionLedger
import Minihttpd.HandlerActs
import Minihttpd.AnsweredRuns
import Minihttpd.WorkerConnections
import Minihttpd.SystemParts
import Minihttpd.ServerShutdown
import Minihttpd.Library.MessageStream
import Minihttpd.ResponseStream
import Minihttpd.ClientStream
import Minihttpd.WorkerDrain
import Minihttpd.Library.DescriptorTable
import Minihttpd.ServerStart
import Minihttpd.OpenFiles
import Minihttpd.ConnectionLife
