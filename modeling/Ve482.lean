import Ve482.Banker.Safety
import Ve482.Bufcache.LargerPool
import Ve482.Bufcache.Scattered
import Ve482.Bufcache.Batches
import Ve482.Bufcache.Clients
import Ve482.Bufcache.Coherence
import Ve482.Bufcache.Gets
import Ve482.Bufcache.Transfers
import Ve482.Bufcache.Transparent
import Ve482.Bufcache.Session
import Ve482.Counter
import Ve482.Cthread
import Ve482.Dadfs.AllOrNothing
import Ve482.Dadfs.Blocks
import Ve482.Dadfs.ByteFiles
import Ve482.Dadfs.Bounds
import Ve482.Dadfs.Crash
import Ve482.Dadfs.Image
import Ve482.Dadfs.Locks
import Ve482.Dadfs.Tree
import Ve482.Dadfs.FreeBlock
import Ve482.Dadfs.InodeSave
import Ve482.Dadfs.Iterate
import Ve482.Dadfs.Overwrite
import Ve482.Dadfs.Files
import Ve482.Dadfs.Listing
import Ve482.Dadfs.Read
import Ve482.Dadfs.Write
import Ve482.Dice.Bounds
import Ve482.Dice.Writes
import Ve482.Dice.Interleaving
import Ve482.Dice.ReadToEnd
import Ve482.Eviction
import Ve482.Children
import Ve482.Vm.Fork
import Ve482.Vm.Owner
import Ve482.KeyValue.CsvColumns
import Ve482.KeyValue.CsvRows
import Ve482.KeyValue.SortOrder
import Ve482.KeyValue.Driver
import Ve482.KeyValue.Dlist
import Ve482.KeyValue.PluginChoice
import Ve482.Vm.Reclaim
import Ve482.Vm.RegionInfo
import Ve482.Vm.Extend
import Ve482.Vm.Sanity
import Ve482.Vm.BlockStore
import Ve482.Vm.SlotSearch
import Ve482.Vm.UnmapTree
import Ve482.Vm.UnmapPages
import Ve482.Vm.MapRegion
