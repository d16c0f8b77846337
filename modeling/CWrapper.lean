import CWrapper.TimerStop
import CWrapper.TimerWait
import CWrapper.TimerList
import CWrapper.TimerFiring
import CWrapper.LoopWakeup
import CWrapper.ObserverRemoval
import CWrapper.ObserverSnapshot
import CWrapper.ObserverInvariant
import CWrapper.WorkerProgress
import CWrapper.PoolAllocator
import CWrapper.SyncQueueHistory
import CWrapper.SyncQueueWakeup
import CWrapper.ByteStream
import CWrapper.PostedFunctions
import CWrapper.ObserverAdd
import CWrapper.SyncQueueAnswers
import CWrapper.SyncQueuePutForce
import CWrapper.SyncQueueDeadline
import CWrapper.WorkerIdentity
import CWrapper.WorkerSleep
import CWrapper.FdBatch
import CWrapper.TimerPhaseRuns
import CWrapper.TimerThreadEarly
import CWrapper.TimerThreadSchedule
import CWrapper.BitOps
import CWrapper.LockConstruction
import CWrapper.PlatformCallbacks
import CWrapper.SimplifiedName
import CWrapper.LogDumpLines
import CWrapper.ObjectPool
import CWrapper.FunctionOwnership
import CWrapper.AsyncTask
import CWrapper.SampleServiceOrder
import CWrapper.WorkerDeadlock
import CWrapper.TimerThreadsHandler
import CWrapper.TimerThreadsStop
import CWrapper.ObserverDeadlock
import CWrapper.LoopContract
import CWrapper.AppCalls
import CWrapper.AppStarved
