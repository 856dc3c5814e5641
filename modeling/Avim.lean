import Avim.Lib.Octets
import Avim.Lib.Proto2
import Avim.Lib.Pieces
import Avim.Lib.Rsa
import Avim.Lib.Run
import Avim.Lib.Sort
import Avim.Lib.Budget
import Avim.Lib.Regex
import Avim.Proto
import Avim.Pool
import Avim.Serialization
import Avim.AvJackIf
import Avim.CoroQueue
import Avim.Rsa
import Avim.Avif
import Avim.Handshake
import Avim.Routing
import Avim.KeyStore
import Avim.Kernel
import Avim.KernelLaws
import Avim.Moves
import Avim.KeyHistory
import Avim.Keys
import Avim.Asking
import Avim.Delivery
import Avim.Ordering
import Avim.Interfaces
import Avim.Robustness
import Avim.Writing
import Avim.Outbox
import Avim.Pipes
import Avim.Shutdown
import Avim.Waiters
import Avim.Calls
import Avim.Blocking
import Avim.Network
import Avim.Stopping
import Avim.Addressing
import Avim.TimedQueue
import Avim.TimedPops
import Avim.Inbox
import Avim.Links
import Avim.Session
import Avim.Deadlines
import Avim.Tables
import Avim.FrontEnds
import Avim.Origins
import Avim.Internet
import Avim.Lifecycle
import Avim.Connection
import Avim.Uptime
