import Uthreads.Sched.Fifo
import Uthreads.Result.Reaper
import Uthreads.Result.Park
import Uthreads.Result.Prio
import Uthreads.Result.Reject
import Uthreads.Result.Join
import Uthreads.Result.Create
import Uthreads.Result.Mask
import Uthreads.Result.Zombie
import Uthreads.Result.Handshake
import Uthreads.Result.Queues
import Uthreads.Result.Slots
import Uthreads.Result.Setprio
import Uthreads.Result.Recycle
import Uthreads.Result.Switch
import Uthreads.Result.Held
import Uthreads.Result.Alloc
import Uthreads.Result.Mutex
import Uthreads.Result.Signal
import Uthreads.Result.Progress
import Uthreads.Result.Ordered
import Uthreads.Result.Guards
import Uthreads.Result.Endings
import Uthreads.Result.Budget
import Uthreads.Result.Start
import Uthreads.Result.Memory
import Uthreads.Result.Stacks
import Uthreads.Result.Bypass
import Uthreads.Result.Schedule
import Uthreads.Result.Destroy
