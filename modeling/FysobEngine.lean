import FysobEngine.Foundation.Framing
import FysobEngine.Handler.LengthFieldReject
import FysobEngine.Handler.LengthFieldArithmetic
import FysobEngine.Net.AsioBufferInvariant
import FysobEngine.Net.SessionClose
import FysobEngine.Handler.LengthFieldFraming
import FysobEngine.Handler.WireValues
import FysobEngine.Handler.DelimiterDecoder
import FysobEngine.Handler.DelimiterTermination
import FysobEngine.Handler.DelimiterReference
import FysobEngine.Handler.DelimiterLimit
import FysobEngine.Common.Timer
import FysobEngine.Common.TimerSchedule
import FysobEngine.Common.TimerInvariant
import FysobEngine.Common.TimerTicks
import FysobEngine.Common.TimerDeadlines
import FysobEngine.Common.TimerOrder
import FysobEngine.Net.SessionInvariant
import FysobEngine.Net.AsioBufferViews
import FysobEngine.Net.AsioBufferReadBuffer
import FysobEngine.Net.QueueBuffer
import FysobEngine.Net.SessionWrite
import FysobEngine.Net.SessionWriteMask
import FysobEngine.Net.SessionFlush
import FysobEngine.Net.SessionRelease
import FysobEngine.Net.Server
import FysobEngine.Net.ServerRelease
import FysobEngine.Net.SessionReading
import FysobEngine.Net.SessionRearm
import FysobEngine.Net.SessionFraming
import FysobEngine.Foundation.Census
import FysobEngine.Common.WfirstRwLock
import FysobEngine.Common.WfirstRwLockWakeups
import FysobEngine.Common.RaiiRelease
import FysobEngine.Foundation.Logs
import FysobEngine.Foundation.Occurrences
import FysobEngine.Foundation.NarrowLoops
import FysobEngine.Common.LinkedTimerTicks
import FysobEngine.Common.LinkedTimerLedger
import FysobEngine.Common.LinkedTimerBooks
import FysobEngine.Common.LinkedTimerLog
import FysobEngine.Common.LinkedTimerCallbacks
import FysobEngine.Common.LinkedTimerBookkeeping
import FysobEngine.Common.TimerTermination
import FysobEngine.Net.AsioBufferPlaces
import FysobEngine.Net.AsioBufferInFlight
import FysobEngine.Net.AsioBufferShrink
import FysobEngine.Net.NetManager
import FysobEngine.Net.NetManagerLock
import FysobEngine.Net.NetManagerRegistry
import FysobEngine.Handler.Pipeline
import FysobEngine.Handler.PipelineOrder
import FysobEngine.Foundation.Networks
import FysobEngine.Net.SessionDelivery
import FysobEngine.Net.Connection
import FysobEngine.Handler.FrameDecoder
import FysobEngine.Net.SessionDecoding
import FysobEngine.Handler.PipelineMeaning
import FysobEngine.Net.SessionPipeline
import FysobEngine.Net.Replies
import FysobEngine.Net.SessionFrame
import FysobEngine.Net.IoServices
import FysobEngine.Net.IoServicePool
import FysobEngine.Common.WfirstRwLockDrain
import FysobEngine.Common.Any
import FysobEngine.Net.SessionLifecycle
import FysobEngine.Foundation.Sections
import FysobEngine.Net.ServerSections
import FysobEngine.Common.LinkedTimerDestructor
import FysobEngine.Net.AsioBufferMemory
import FysobEngine.Net.SessionHandles
import FysobEngine.Net.ServerIdle
import FysobEngine.Net.ServerBooks
