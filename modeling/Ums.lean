import Ums.Lib.Machine
import Ums.Lib.Bins
import Ums.Lib.LockOrder
import Ums.Lib.Fifo
import Ums.Lib.Bits
import Ums.Lib.Lifetime
import Ums.Lib.Simulation
import Ums.Lib.Object
import Ums.Lib.Lock
import Ums.Lib.RwLock
import Ums.Lib.Owner
import Ums.Config
import Ums.Scheduler.Basic
import Ums.Scheduler.Partition
import Ums.Scheduler.Pass
import Ums.Scheduler.Placement
import Ums.Runtime.System
import Ums.Runtime.Steps
import Ums.Runtime.Local
import Ums.Runtime.Load
import Ums.Runtime.Ledger
import Ums.Runtime.Sleep
import Ums.Runtime.Strand
import Ums.Runtime.Exit
import Ums.Runtime.ExitWakeup
import Ums.Runtime.Pass
import Ums.Runtime.Fifo
import Ums.Runtime.Balance
import Ums.Runtime.Accounts
import Ums.Monitor.Basic
import Ums.Monitor.Steps
import Ums.Monitor.Discipline
import Ums.Monitor.LockOrder
import Ums.Monitor.Client
import Ums.Monitor.NotifyAll
import Ums.Monitor.NotifyOne
import Ums.Monitor.Wake
import Ums.Monitor.Relay
import Ums.Monitor.Announce
import Ums.Monitor.Section
import Ums.Monitor.WaiterNode
import Ums.Monitor.Elapsed
import Ums.SharedMutex.Word
import Ums.SharedMutex.Program
import Ums.SharedMutex.Exclusion
import Ums.SharedMutex.Gates
import Ums.SharedMutex.Admission
import Ums.Handoff.Basic
import Ums.Handoff.Active
import Ums.Mutex.Count
import Ums.Mutex.Spin
import Ums.Mutex.Exclusion
import Ums.Mutex.Recursive
import Ums.Mutex.Deadlock
import Ums.TimedMutex.Timed
import Ums.TimedMutex.Recursive
import Ums.TimedMutex.Elapsed
import Ums.Task.Basic
import Ums.Task.Completion
import Ums.Task.Outcome
import Ums.Task.Delivery
import Ums.Task.Lifetime
import Ums.Idle.Program
import Ums.Idle.LockOrder
import Ums.CondVarAny.Program
import Ums.CondVarAny.Atomic
import Ums.Io.Basic
import Ums.Io.Matching
import Ums.Monitor.Access
import Ums.Monitor.Atomic
import Ums.Monitor.Refinement
import Ums.SharedMutex.Access
import Ums.TimedMutex.Access
import Ums.Monitor.History
import Ums.Mutex.History
import Ums.TimedMutex.History
import Ums.SharedMutex.History
import Ums.Scheduler.Queue
import Ums.Teardown.Program
import Ums.Teardown.Joins
import Ums.Teardown.Bound
import Ums.Wakeup.Program
import Ums.Wakeup.Handover
import Ums.Wakeup.Startup
