import Fos.Runs.Placement
import Fos.Runs.Ceiling
import Fos.Runs.Semaphore
import Fos.Runs.Queue
import Fos.Runs.Sleep
import Fos.Runs.Expiry
import Fos.Runs.Restart
import Fos.Runs.Traversal
import Fos.Runs.Lock
import Fos.Runs.Blocking
import Fos.Runs.Dispatch
import Fos.Runs.Memory
import Fos.Runs.Fsm
import Fos.Runs.Masking
import Fos.Runs.Bounds
import Fos.Runs.Rotation
import Fos.Runs.WakeUp
import Fos.Runs.Rejection
import Fos.Runs.Payload
import Fos.Runs.Period
import Fos.Runs.Accounting
import Fos.Runs.Reuse
import Fos.Runs.Message
import Fos.Runs.Device
import Fos.Runs.Search
import Fos.Refinement.Sequences
import Fos.Runs.Unregister
import Fos.Runs.OpenCount
import Fos.Runs.Interleaving
import Fos.Libc.Format
import Fos.Libc.Rand
import Fos.Middleware.Commands
import Fos.Middleware.Lines
import Fos.Port.Resumption
import Fos.Lib.OnesComplement
import Fos.Net.Checksum
import Fos.Net.Stream
