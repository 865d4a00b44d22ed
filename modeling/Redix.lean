import Redix.Base.FlatMap
import Redix.Base.BulkWrites
import Redix.Base.FlatSet
import Redix.Base.Members
import Redix.Base.Simulation
import Redix.Base.Service
import Redix.Base.Observation
import Redix.Base.Keyspace
import Redix.Base.Renaming
import Redix.Base.Relabel
import Redix.Base.Bytes
import Redix.Base.Decimal
import Redix.Base.Numbers
import Redix.Base.Framing
import Redix.Base.Deque
import Redix.Base.Timed
import Redix.Base.Glob
import Redix.Base.Register
import Redix.Base.Window
import Redix.Base.Sweep
import Redix.Base.Loop
import Redix.Base.Progress
import Redix.Base.Ownership
import Redix.Base.Checked
import Redix.Resp.Basic
import Redix.Resp.Grammar
import Redix.Resp.Codec
import Redix.Resp.Reserve
import Redix.Resp.Bounds
import Redix.Store.Basic
import Redix.Store.Operations
import Redix.Store.Live
import Redix.Store.Snapshots
import Redix.Store.Glob
import Redix.Store.Ranges
import Redix.Store.Sweep
import Redix.Store.GlobLoop
import Redix.Store.Bounds
import Redix.Command.Basic
import Redix.Command.Spec
import Redix.Command.Table
import Redix.Command.Refinement
import Redix.Command.Laws
import Redix.Command.Effects
import Redix.Command.Runs
import Redix.Command.Observation
import Redix.Command.Isolation
import Redix.Command.Tenants
import Redix.Command.Retries
import Redix.Command.Replay
import Redix.Command.Relabelled
import Redix.Command.Elapsed
import Redix.Command.Payloads
import Redix.Command.Strings
import Redix.Command.Leases
import Redix.Command.Rename
import Redix.Command.Replies
import Redix.Command.Types
import Redix.Command.WrongType
import Redix.Command.Deadlines
import Redix.Command.Amounts
import Redix.Command.TimeToLive
import Redix.Command.Lists
import Redix.Command.Hashes
import Redix.Command.Sets
import Redix.Command.Counters
import Redix.Command.Variadic
import Redix.Command.Accounts
import Redix.Command.FiniteSets
import Redix.Command.SetGrammar
import Redix.Command.Ranges
import Redix.Command.Bounds
import Redix.Server.Requests
import Redix.Server.Pipeline
import Redix.Server.Output
import Redix.Server.EventLoop
import Redix.Server.Server
import Redix.Server.Registry
import Redix.Server.Batches
import Redix.Server.Closing
import Redix.Server.Descriptors
import Redix.Server.Drain
import Redix.Server.Accounting
import Redix.Server.Serial
import Redix.Server.View
import Redix.Server.Tickets
import Redix.Server.Jobs
import Redix.Server.Isolation
import Redix.Server.Progress
import Redix.Server.Config
import Redix.Server.Lifecycle
