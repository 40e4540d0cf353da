import Gam.Basic
import Gam.Directory
import Gam.Cache
import Gam.BlockState
import Gam.Local
import Gam.Remote
import Gam.Reply
import Gam.Branches
import Gam.System
import Gam.Phase
import Gam.Protocol
import Gam.Invariant
import Gam.Mail
import Gam.Moves
import Gam.Rounds
import Gam.Preservation
import Gam.Agreement
import Gam.Relation
import Gam.Side
import Gam.Match
import Gam.Simulation.Entry
import Gam.Simulation.Worker
import Gam.Simulation.Home
import Gam.Simulation.Tell
import Gam.Simulation.Hear
import Gam.Simulation.Serve
import Gam.Simulation.Owner
import Gam.Simulation.Command
import Gam.Simulation.Answer
import Gam.Refinement
import Gam.Cluster
import Gam.Labels
import Gam.Queues
import Gam.Runs
import Gam.Todo
import Gam.Turns
import Gam.Described
import Gam.Fences
import Gam.Ledger
import Gam.Booked
import Gam.Play
import Gam.Properties.Forwarded
import Gam.Holds
import Gam.Properties.Entries
import Gam.Awaited
import Gam.Properties.Lines
import Gam.Properties.Coherence
import Gam.Memory
import Gam.Rdma.Context
import Gam.Ring
import Gam.Rdma.Link
import Gam.Rdma.Steady
import Gam.Rdma.Carried
import Gam.Rdma.Served
import Gam.Rdma.Run
import Gam.Properties.SendQueue
import Gam.Codec
import Gam.Wire.WorkRequest
import Gam.Properties.Delivery
import Gam.LinkedList
import Gam.Slab.Allocator
import Gam.Intervals
import Gam.Slab.Core
import Gam.Lock.Table
import Gam.Properties.LockTables
import Gam.Lock.Range
import Gam.Properties.RangeLocks
import Gam.Heap
import Gam.Properties.RangeExclusion
import Gam.Radix
import Gam.Database.GAddrArray
import Gam.Properties.AddrArray
import Gam.Database.HashIndex
import Gam.Database.IndexLayout
import Gam.Properties.HashIndex
import Gam.Serial
import Gam.Database.Storage
import Gam.Properties.Storage
import Gam.GArray
import Gam.GArray.Counts
import Gam.GArray.Tree
import Gam.GArray.Grow
import Gam.GArray.Shrink
import Gam.Properties.Array
import Gam.Decimal
import Gam.Properties.MemStats
import Gam.Properties.ReceiveSlots
import Gam.Database.ClusterSync
import Gam.Properties.ClusterSync
import Gam.Slab.Calls
import Gam.Slab.Runs
import Gam.Slab.Classes
import Gam.Properties.Alignment
import Gam.Properties.MessageSize
import Gam.Properties.SlabHeap
import Gam.Dht.Client
import Gam.Dht.Entries
import Gam.Pieces
import Gam.Dht.Table
import Gam.Dht.Find
import Gam.Dht.Put
import Gam.Dht.Get
import Gam.Dht.Del
import Gam.Dht.Runs
import Gam.Properties.HashTable
import Gam.Properties.AllocationFailure
import Gam.Lru.Cache
import Gam.Lru.Shape
import Gam.Lru.Valid
import Gam.Lru.Steps
import Gam.Lru.Events
import Gam.Properties.Lru
import Gam.Properties.Slices
import Gam.Database.Record
import Gam.Database.Keys
import Gam.Properties.Keys
import Gam.Properties.Record
import Gam.Properties.FunctionTable
import Gam.Properties.HTableBatches
import Gam.Logging
import Gam.Slab.Realloc
import Gam.Properties.Logging
import Gam.Properties.Realloc
