import RecoveryQt.Argon2.Blake2b
import RecoveryQt.Argon2.Blake2bStream
import RecoveryQt.Argon2.Built
import RecoveryQt.Argon2.Fill
import RecoveryQt.Argon2.Hash
import RecoveryQt.Argon2.Lanes
import RecoveryQt.Argon2.Reference
import RecoveryQt.Argon2.Segment
import RecoveryQt.Backup.Accepted
import RecoveryQt.Backup.Clusters
import RecoveryQt.Backup.Compare
import RecoveryQt.Backup.Complete
import RecoveryQt.Backup.Diff
import RecoveryQt.Backup.Format
import RecoveryQt.Backup.Live
import RecoveryQt.Backup.Marks
import RecoveryQt.Backup.Model
import RecoveryQt.Backup.Restored
import RecoveryQt.Backup.RoundTrip
import RecoveryQt.Backup.Truncated
import RecoveryQt.Backup.Views
import RecoveryQt.Cache.Coherent
import RecoveryQt.Cache.Model
import RecoveryQt.Cache.Reports
import RecoveryQt.Carver.BestMatch
import RecoveryQt.Carver.Coverage
import RecoveryQt.Carver.Damage
import RecoveryQt.Carver.Disjoint
import RecoveryQt.Carver.Entries
import RecoveryQt.Carver.Examined
import RecoveryQt.Carver.Filter
import RecoveryQt.Carver.Footer
import RecoveryQt.Carver.FooterReads
import RecoveryQt.Carver.Geometry
import RecoveryQt.Carver.HeaderIndex
import RecoveryQt.Carver.HeaderReads
import RecoveryQt.Carver.Limits
import RecoveryQt.Carver.Lonely
import RecoveryQt.Carver.Model
import RecoveryQt.Carver.Resume
import RecoveryQt.Carver.SignatureFile
import RecoveryQt.Carver.SignatureLines
import RecoveryQt.Carver.Signatures
import RecoveryQt.Carver.Steps
import RecoveryQt.Carver.Trim
import RecoveryQt.Carver.Whole
import RecoveryQt.ClusterLists
import RecoveryQt.Crc
import RecoveryQt.Disk
import RecoveryQt.Disk.Chs
import RecoveryQt.Disk.DeviceSize
import RecoveryQt.Disk.EntryErrors
import RecoveryQt.Disk.Extended
import RecoveryQt.Disk.Gpt
import RecoveryQt.Disk.GptReadBack
import RecoveryQt.Disk.GptTable
import RecoveryQt.Disk.GptWritten
import RecoveryQt.Disk.ListSort
import RecoveryQt.Disk.ListSorted
import RecoveryQt.Disk.Mbr
import RecoveryQt.Disk.MbrEntries
import RecoveryQt.Disk.MbrReadBack
import RecoveryQt.Disk.MbrTable
import RecoveryQt.Disk.PartitionLinks
import RecoveryQt.Disk.PartitionList
import RecoveryQt.Disk.PartitionTwins
import RecoveryQt.Disk.PartitionValues
import RecoveryQt.Drivers
import RecoveryQt.Exfat.Agree
import RecoveryQt.Exfat.Directory
import RecoveryQt.Exfat.Listing
import RecoveryQt.Exfat.Model
import RecoveryQt.Exfat.Names
import RecoveryQt.Exfat.Sets
import RecoveryQt.Exfat.Sizes
import RecoveryQt.Ext2.DeepScan
import RecoveryQt.Ext2.Exact
import RecoveryQt.Ext2.Model
import RecoveryQt.Fat.Agree
import RecoveryQt.Fat.BootSector
import RecoveryQt.Fat.Chain
import RecoveryQt.Fat.CopyResult
import RecoveryQt.Fat.DirChain
import RecoveryQt.Fat.Directory
import RecoveryQt.Fat.DirectoryBounds
import RecoveryQt.Fat.DirectoryComplete
import RecoveryQt.Fat.DirectoryFormat
import RecoveryQt.Fat.DirectoryListing
import RecoveryQt.Fat.DirectoryNames
import RecoveryQt.Fat.DirectoryWalk
import RecoveryQt.Fat.Geometry
import RecoveryQt.Fat.Model
import RecoveryQt.Fat.Table
import RecoveryQt.Fat.WholeDirectory
import RecoveryQt.Iso.Exact
import RecoveryQt.Iso.Format
import RecoveryQt.Iso.Model
import RecoveryQt.Iso.Names
import RecoveryQt.Iso.Safe
import RecoveryQt.Lib.Attempts
import RecoveryQt.Lib.Batch
import RecoveryQt.Lib.BitSweep
import RecoveryQt.Lib.Blocks
import RecoveryQt.Lib.Chain
import RecoveryQt.Lib.Codec
import RecoveryQt.Lib.Crc
import RecoveryQt.Lib.Directory
import RecoveryQt.Lib.DoublyLinked
import RecoveryQt.Lib.Flushes
import RecoveryQt.Lib.Forest
import RecoveryQt.Lib.ForkJoin
import RecoveryQt.Lib.GraphWalk
import RecoveryQt.Lib.Halting
import RecoveryQt.Lib.Indices
import RecoveryQt.Lib.Intervals
import RecoveryQt.Lib.Json
import RecoveryQt.Lib.Lexical
import RecoveryQt.Lib.Locations
import RecoveryQt.Lib.MergeSort
import RecoveryQt.Lib.Nodes
import RecoveryQt.Lib.Paths
import RecoveryQt.Lib.Pieces
import RecoveryQt.Lib.Reading
import RecoveryQt.Lib.Rebuild
import RecoveryQt.Lib.Runs
import RecoveryQt.Lib.Search
import RecoveryQt.Lib.Siblings
import RecoveryQt.Lib.SortedInsert
import RecoveryQt.Lib.Stream
import RecoveryQt.Lib.Strides
import RecoveryQt.Lib.Sweep
import RecoveryQt.Lib.Threads
import RecoveryQt.Lib.Trace
import RecoveryQt.Lib.Utf16
import RecoveryQt.Luks.AfSplit
import RecoveryQt.Luks.Base64
import RecoveryQt.Luks.Cipher
import RecoveryQt.Luks.Json
import RecoveryQt.Luks.JsonAccepted
import RecoveryQt.Luks.JsonWritten
import RecoveryQt.Luks.Open
import RecoveryQt.Luks.Payload
import RecoveryQt.Luks.Sizes
import RecoveryQt.Luks.Unlock
import RecoveryQt.Luks.Vouched
import RecoveryQt.Ntfs.DeepScan
import RecoveryQt.Ntfs.Exact
import RecoveryQt.Ntfs.Indx
import RecoveryQt.Ntfs.IndxExact
import RecoveryQt.Ntfs.Listed
import RecoveryQt.Ntfs.Model
import RecoveryQt.Ntfs.Parents
import RecoveryQt.Ntfs.Percent
import RecoveryQt.Ntfs.Sorted
import RecoveryQt.Ntfs.Streams
import RecoveryQt.Ntfs.Undelete
import RecoveryQt.Operation.Context
import RecoveryQt.Operation.Luks
import RecoveryQt.Operation.Model
import RecoveryQt.Operation.Numbering
import RecoveryQt.Operation.Resumable
import RecoveryQt.Restore.Contained
import RecoveryQt.Restore.Copy
import RecoveryQt.Restore.Destination
import RecoveryQt.Restore.Distinct
import RecoveryQt.Restore.Harmless
import RecoveryQt.Restore.Host
import RecoveryQt.Restore.Length
import RecoveryQt.Restore.Marked
import RecoveryQt.Restore.Model
import RecoveryQt.Restore.Preview
import RecoveryQt.Restore.Readable
import RecoveryQt.Scan.Carried
import RecoveryQt.Scan.DeepExact
import RecoveryQt.Scan.DeepFat
import RecoveryQt.Scan.FreeDecision
import RecoveryQt.Scan.Model
import RecoveryQt.Scan.Resume
import RecoveryQt.Scan.Run
import RecoveryQt.Scan.Settled
import RecoveryQt.Scan.Twice
import RecoveryQt.Scan.Walks
import RecoveryQt.Session.Atomic
import RecoveryQt.Session.Format
import RecoveryQt.Session.Limits
import RecoveryQt.Session.Loaded
import RecoveryQt.Session.Model
import RecoveryQt.Session.RoundTrip
import RecoveryQt.Session.Truncated
import RecoveryQt.Tree.Arena
import RecoveryQt.Tree.Counters
import RecoveryQt.Tree.Invariant
import RecoveryQt.Tree.Lookup
import RecoveryQt.Tree.Model
import RecoveryQt.Tree.View
import RecoveryQt.Window.Ghosts
import RecoveryQt.Window.Model
import RecoveryQt.Window.Session
import RecoveryQt.Window.Volumes
