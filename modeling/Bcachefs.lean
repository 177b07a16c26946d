import Bcachefs.Bits.LeBytes
import Bcachefs.Data.VectorGet
import Bcachefs.Btree.Bkey
import Bcachefs.Btree.Pack
import Bcachefs.Bits.Fields
import Bcachefs.Bits.Shift
import Bcachefs.Proofs.Btree.PackStream
import Bcachefs.Proofs.Btree.Format
import Bcachefs.Proofs.Btree.PackKey
import Bcachefs.Btree.Cmp
import Bcachefs.Proofs.Btree.Unpack
import Bcachefs.Proofs.Btree.Consts
import Bcachefs.Proofs.Btree.Cmp
import Bcachefs.Proofs.Btree.FastPack
import Bcachefs.Proofs.Btree.Transform
import Bcachefs.Proofs.Btree.PackLossy
import Bcachefs.Btree.FormatState
import Bcachefs.Proofs.Btree.FormatDone
import Bcachefs.Loop.While
import Bcachefs.Util.Limits
import Bcachefs.Forest.Chain
import Bcachefs.Sorting.Heap
import Bcachefs.Btree.WriteBuffer
import Bcachefs.Proofs.Btree.WriteBufferOrder
import Bcachefs.Proofs.Btree.WriteBufferDedup
import Bcachefs.Proofs.Btree.WriteBuffer
import Bcachefs.Snapshots.Snapshot
import Bcachefs.Proofs.Snapshots.IsAncestor
import Bcachefs.Sorting.Bubble
import Bcachefs.Snapshots.Skiplist
import Bcachefs.Proofs.Snapshots.Skiplist
import Bcachefs.Alloc.Bucket
import Bcachefs.Proofs.Alloc.Trigger
import Bcachefs.Proofs.Alloc.Reuse
import Bcachefs.Btree.JournalKeys
import Bcachefs.Proofs.Btree.JournalKeys
import Bcachefs.Tree.Eytzinger
import Bcachefs.Util.Eytzinger
import Bcachefs.Proofs.Util.Eytzinger
import Bcachefs.Data.ExtentCrc
import Bcachefs.Proofs.Data.ExtentCrc
import Bcachefs.Crc.Linear
import Bcachefs.Data.Checksum
import Bcachefs.Proofs.Data.Checksum
import Bcachefs.Snapshots.TreeNext
import Bcachefs.Proofs.Snapshots.TreeNext
import Bcachefs.Util.Varint
import Bcachefs.Proofs.Util.Varint
import Bcachefs.Ring.Window
import Bcachefs.Util.Fifo
import Bcachefs.Proofs.Util.Fifo
import Bcachefs.Data.Rechecksum
import Bcachefs.Proofs.Data.Rechecksum
import Bcachefs.Loop.Ranking
import Bcachefs.Data.ReadDevice
import Bcachefs.Proofs.Data.ReadDevice
import Bcachefs.Bits.XorSum
import Bcachefs.Data.Ec
import Bcachefs.Proofs.Data.EcRaid
import Bcachefs.Proofs.Data.EcChecksum
import Bcachefs.Proofs.Data.Ec
import Bcachefs.Intervals.Holes
import Bcachefs.Commands.Migrate
import Bcachefs.Proofs.Commands.Migrate
import Bcachefs.Bits.Scan
import Bcachefs.Btree.KeyBits
import Bcachefs.Proofs.Btree.KeyBits
import Bcachefs.Tree.Inorder
import Bcachefs.Util.EytzingerInorder
import Bcachefs.Proofs.Util.EytzingerInorder
import Bcachefs.Loop.Except
import Bcachefs.Util.HumanReadable
import Bcachefs.Proofs.Util.HumanReadable
import Bcachefs.Proofs.Util.HumanReadablePrint
import Bcachefs.Sorting.HeapOne
import Bcachefs.Util.EytzingerSort
import Bcachefs.Proofs.Util.EytzingerSort
import Bcachefs.Intervals.Ordered
import Bcachefs.Journal.SeqBlacklist
import Bcachefs.Proofs.Journal.SeqBlacklist
import Bcachefs.Proofs.Journal.SeqBlacklistLookup
import Bcachefs.Proofs.Journal.SeqBlacklistRun
