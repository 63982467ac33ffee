import Hiredispool.Lib.Buckets
import Hiredispool.Lib.CBuffer
import Hiredispool.Lib.CInt
import Hiredispool.Lib.Cycle
import Hiredispool.Lib.Decimal
import Hiredispool.Lib.EventLog
import Hiredispool.Lib.Handles
import Hiredispool.Lib.Incremental
import Hiredispool.Lib.InsertMap
import Hiredispool.Lib.LastSplit
import Hiredispool.Lib.LockProg
import Hiredispool.Lib.LockTable
import Hiredispool.Lib.Lts
import Hiredispool.Lib.Numeral
import Hiredispool.Lib.RefCount
import Hiredispool.Lib.Ring
import Hiredispool.Lib.Search
import Hiredispool.Pool.Ownership
import Hiredispool.Pool.Healing
import Hiredispool.Pool.Sweep
import Hiredispool.Pool.Options
import Hiredispool.Pool.ScanOrder
import Hiredispool.Pool.Index
import Hiredispool.Pool.Rota
import Hiredispool.Pool.Fairness
import Hiredispool.Pool.Creation
import Hiredispool.Threads.Exclusion
import Hiredispool.Threads.Ownership
import Hiredispool.Threads.Grace
import Hiredispool.Threads.Commands
import Hiredispool.Threads.Replies
import Hiredispool.Threads.Alone
import Hiredispool.Threads.Healing
import Hiredispool.Threads.Exhaustion
import Hiredispool.Threads.Fates
import Hiredispool.Threads.Retry
import Hiredispool.Threads.ScanOrder
import Hiredispool.Threads.Index
import Hiredispool.Lazy.Pool
import Hiredispool.Lazy.Simulation
import Hiredispool.Lazy.Reports
import Hiredispool.Config.Lifetime
import Hiredispool.Config.Freshness
import Hiredispool.Config.OnePool
import Hiredispool.Config.History
import Hiredispool.Config.Late
import Hiredispool.Config.Locks
import Hiredispool.Client.Commands
import Hiredispool.Client.Integers
import Hiredispool.Client.Batch
import Hiredispool.Client.ClientPtr
import Hiredispool.Client.MapValue
import Hiredispool.Client.Reads
import Hiredispool.Client.ReplyPtr
import Hiredispool.Hiredis.Reader
import Hiredispool.Hiredis.Stream
import Hiredispool.Hiredis.Feeding
import Hiredispool.Hiredis.Grammar
import Hiredispool.Hiredis.Wire
import Hiredispool.Hiredis.Command
import Hiredispool.Hiredis.Context
import Hiredispool.Hiredis.Session
import Hiredispool.Hiredis.Dict
import Hiredispool.Hiredis.DictRuns
import Hiredispool.Hiredis.Async
import Hiredispool.Hiredis.AsyncMachine
import Hiredispool.Hiredis.AsyncRuns
import Hiredispool.Hiredis.AsyncServer
import Hiredispool.Hiredis.AsyncTeardown
import Hiredispool.Client.OverWire
import Hiredispool.Log.Config
import Hiredispool.Log.Filename
import Hiredispool.Log.Vlog
import Hiredispool.Log.Bounds
import Hiredispool.Hiredis.Subscriptions
import Hiredispool.Hiredis.SplitArgs
