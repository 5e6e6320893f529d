import OsTransport.Lib.Transition
import OsTransport.Lib.Queue
import OsTransport.Lib.Handles
import OsTransport.Lib.Slots
import OsTransport.Lib.Linked
import OsTransport.Lib.Buckets
import OsTransport.Lib.Total
import OsTransport.Lib.Network
import OsTransport.Lib.Monitor
import OsTransport.UserData
import OsTransport.ReqHash
import OsTransport.Pool
import OsTransport.PoolSystem
import OsTransport.Lane
import OsTransport.PoolEffect
import OsTransport.AllOrNothing
import OsTransport.PoolBooks
import OsTransport.Conservation
import OsTransport.Destroy
import OsTransport.Binding
import OsTransport.ContextCount
import OsTransport.Tasks
import OsTransport.Chunks
import OsTransport.Sync
import OsTransport.Submit
import OsTransport.Transport
import OsTransport.RecvCtx
import OsTransport.Move
import OsTransport.Ledger
import OsTransport.RequestView
import OsTransport.Lifecycle
import OsTransport.Nodes
import OsTransport.Release
import OsTransport.Effects
import OsTransport.Isolation
import OsTransport.SubmitApi
import OsTransport.Solo
import OsTransport.Timeout
import OsTransport.Baton
import OsTransport.SendTags
import OsTransport.Line
import OsTransport.SendPipeline
import OsTransport.Returns
import OsTransport.Transfers
import OsTransport.Story
import OsTransport.Fifo
import OsTransport.Quiesce
import OsTransport.BatchCallback
import OsTransport.Dispatch
import OsTransport.Reuse
import OsTransport.Frame
import OsTransport.FirstFailure
import OsTransport.FailedWrite
import OsTransport.LogBackend
import OsTransport.Inject
import OsTransport.InjectClear
import OsTransport.WorkerLists
import OsTransport.HashChains
import OsTransport.Fabric
import OsTransport.Delivery
import OsTransport.Evidence
import OsTransport.EndToEnd
import OsTransport.Selection
import OsTransport.Arrival
import OsTransport.Together
import OsTransport.Sections
import OsTransport.SyncSections
