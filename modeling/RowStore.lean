import RowStore.Assoc
import RowStore.Ident
import RowStore.Error
import RowStore.Sizing
import RowStore.Layout
import RowStore.Bitmap
import RowStore.SlotPage
import RowStore.Page
import RowStore.EvictionOrder
import RowStore.Recency
import RowStore.Disk
import RowStore.PageFile
import RowStore.Lock.Mode
import RowStore.Lock.Holders
import RowStore.Lock.WaitGraph
import RowStore.Lock.Table
import RowStore.Cache
import RowStore.TableFile
import RowStore.Pool
import RowStore.Transaction
import RowStore.Cursor
import RowStore.Task
import RowStore.Engine
import RowStore.Text.Unprintable
import RowStore.Text.Quoted
import RowStore.File.Fingerprint
import RowStore.File.Path
import RowStore.File.Tree
import RowStore.Database
import RowStore.Session
import RowStore.Options
import RowStore.Random
import RowStore.Worker
import RowStore.Workload
import RowStore.Main
import RowStore.Proofs.FileBytes
import RowStore.Proofs.File.Places
import RowStore.Proofs.Lock.Search
import RowStore.Proofs.Lock.Accounts
import RowStore.Proofs.Lock.Waiting
import RowStore.Proofs.Lock.Attained
import RowStore.Proofs.Lock.Growth
import RowStore.Proofs.PageImage
import RowStore.Proofs.CacheFrames
import RowStore.Proofs.Coherence
import RowStore.Proofs.Endings
import RowStore.Proofs.Accesses
import RowStore.Proofs.Work
import RowStore.Proofs.Run
import RowStore.Proofs.Tracking
import RowStore.Proofs.Scan
import RowStore.Proofs.Durability
import RowStore.Proofs.Requests
import RowStore.Proofs.Orderly
import RowStore.Proofs.Verdicts
import RowStore.Proofs.Serial
import RowStore.Proofs.Alike
import RowStore.Proofs.Transparency
import RowStore.Proofs.Ownership
import RowStore.Proofs.Reachable
import RowStore.Proofs.PartialCommit
import RowStore.Proofs.RowMap
import RowStore.Proofs.RowCalls
import RowStore.Proofs.RowBooks
import RowStore.Proofs.Committed
import RowStore.Proofs.KnownTables
import RowStore.Proofs.Catalog
import RowStore.Proofs.Moves
import RowStore.Proofs.Capacity
import RowStore.Proofs.Writers
import RowStore.Proofs.Keeping
import RowStore.Proofs.Departures
import RowStore.Proofs.Footprints
import RowStore.Proofs.OneCopy
import RowStore.Proofs.Lasting
import RowStore.Proofs.Holding
import RowStore.Proofs.ScanInUse
import RowStore.Proofs.Rescan
import RowStore.Proofs.Insertions
import RowStore.Proofs.FirstFit
import RowStore.Proofs.Failures
import RowStore.Proofs.Upgrades
import RowStore.Proofs.File.PageWrites
import RowStore.Proofs.Rounds
import RowStore.Proofs.AnyOrder
import RowStore.Proofs.Retries
import RowStore.Proofs.Commits
import RowStore.Proofs.Rollbacks
import RowStore.Proofs.Table.Map
import RowStore.Proofs.Table.Alone
import RowStore.Proofs.Table.Points
import RowStore.Proofs.Table.OrderedMap
import RowStore.Proofs.SlotMap
import RowStore.Proofs.FailedCalls
import RowStore.Proofs.LeastRecent
import RowStore.Proofs.CursorCalls
import RowStore.Proofs.File.PageArray
import RowStore.Proofs.File.PageNumbers
import RowStore.Proofs.Lock.Admission
import RowStore.Proofs.Lock.Weakening
import RowStore.Proofs.MoveToBack
import RowStore.Proofs.Geometry
import RowStore.Proofs.PageReaders
import RowStore.Proofs.Registry
import RowStore.Proofs.OnRecord
