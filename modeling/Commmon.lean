import Commmon.Lib.StepSystem
import Commmon.Lib.PatternSearch
import Commmon.Lib.Table
import Commmon.FilterLag
import Commmon.FilterReports
import Commmon.Draining
import Commmon.Replication
import Commmon.LogKeyword
import Commmon.Sockets
import Commmon.FirstPushes
import Commmon.Subscriptions
import Commmon.BufferReads
import Commmon.Chunking
import Commmon.PushOrder
import Commmon.RxWindows
import Commmon.Notices
import Commmon.Teardown
import Commmon.HitContexts
import Commmon.StopKeywords
import Commmon.EntryTexts
import Commmon.Parameters
import Commmon.FailedRuns
import Commmon.RxCommands
import Commmon.MonitorRefresh
import Commmon.MonitorPage
import Commmon.MonitorStop
import Commmon.Isolation
import Commmon.LockProgress
import Commmon.ReadTasks
import Commmon.ReplWrites
import Commmon.HexWrites
import Commmon.LogPaths
import Commmon.FilterSafety
import Commmon.SdkAgreement
import Commmon.Provenance
import Commmon.ReplSession
import Commmon.ReplReads
import Commmon.ToolRequests
import Commmon.ToolSession
import Commmon.Lib.JsonUtf16
import Commmon.Lib.PathNames
import Commmon.StartLogPath
