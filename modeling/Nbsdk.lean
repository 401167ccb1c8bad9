import Nbsdk.Memory.FifoRanges
import Nbsdk.Memory.BufferPrograms
import Nbsdk.Memory.Amortised
import Nbsdk.Memory.FifoOffsets
import Nbsdk.Messenger.SendLiveness
import Nbsdk.Messenger.Streaming
import Nbsdk.Messenger.WriteStarts
import Nbsdk.Messenger.Destruction
import Nbsdk.Messenger.Recovery
import Nbsdk.Messenger.Closing
import Nbsdk.Messenger.Notifications
import Nbsdk.Http.Components
import Nbsdk.Http.Canonical
import Nbsdk.Http.Accessors
import Nbsdk.Http.Influence
import Nbsdk.Http.QueryCalls
import Nbsdk.Http.PathSegments
import Nbsdk.Http.PathBuilding
import Nbsdk.Http.Ports
import Nbsdk.Http.Hosts
import Nbsdk.Http.Padding
import Nbsdk.Http.Rejection
import Nbsdk.Http.HttpRequest
import Nbsdk.Math.TransformLifecycle
import Nbsdk.Math.GccPhat
import Nbsdk.Lib.PhaseCorrelation
import Nbsdk.Math.Execute
import Nbsdk.Math.Delay
import Nbsdk.Base.EventLoop
import Nbsdk.Base.Exit
import Nbsdk.Messenger.Reconnection
import Nbsdk.Messenger.Readiness
import Nbsdk.Http.PathMeaning
import Nbsdk.Memory.FifoThreads
import Nbsdk.Memory.BufferElements
import Nbsdk.Memory.FreshMemory
import Nbsdk.Http.RequestHeaders
import Nbsdk.Lib.Monitor
import Nbsdk.Memory.FifoThreads
