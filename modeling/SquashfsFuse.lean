import SquashfsFuse.Foundation.LinkedList
import SquashfsFuse.Foundation.Loop
import SquashfsFuse.Foundation.LruMap
import SquashfsFuse.Core.Superblock
import SquashfsFuse.Core.Metadata
import SquashfsFuse.Core.Cache
import SquashfsFuse.Cache.Representation
import SquashfsFuse.Cache.ListModel
import SquashfsFuse.Cache.Refinement
import SquashfsFuse.Cache.Simulation
import SquashfsFuse.Cache.Concurrency
import SquashfsFuse.Core.Context
import SquashfsFuse.Core.Inode
import SquashfsFuse.Core.Fragment
import SquashfsFuse.Core.Data
import SquashfsFuse.Data.Content
import SquashfsFuse.Data.Plain
import SquashfsFuse.Data.Reading
import SquashfsFuse.Data.Delivered
import SquashfsFuse.Data.Indeterminate
import SquashfsFuse.Data.FileReads
import SquashfsFuse.Data.Termination
import SquashfsFuse.Data.Transparency
import SquashfsFuse.Data.Genuine
import SquashfsFuse.Cache.Limits
import SquashfsFuse.Cache.Release
import SquashfsFuse.Data.InPlace
import SquashfsFuse.Metadata.Agreement
import SquashfsFuse.Data.Leaks
import SquashfsFuse.Inode.Layout
import SquashfsFuse.Inode.Decoding
import SquashfsFuse.Inode.Chunking
import SquashfsFuse.Inode.ByReference
import SquashfsFuse.Core.Directory
import SquashfsFuse.Directory.Layout
import SquashfsFuse.Directory.Acceptance
import SquashfsFuse.Data.BlockLayout
import SquashfsFuse.Data.Buffers
import SquashfsFuse.Data.Writes
import SquashfsFuse.Data.ShortBlocks
import SquashfsFuse.Directory.Data
import SquashfsFuse.Directory.Listing
import SquashfsFuse.Core.Xattr
import SquashfsFuse.Foundation.Tokens
import SquashfsFuse.Vfs.VfsOps
import SquashfsFuse.Vfs.PathWalk
import SquashfsFuse.Vfs.Absence
import SquashfsFuse.Vfs.Children
import SquashfsFuse.Vfs.XattrIndex
import SquashfsFuse.Xattr.Layout
import SquashfsFuse.Xattr.Pairs
import SquashfsFuse.Fuse.FuseMain
import SquashfsFuse.Fuse.ImageLayout
import SquashfsFuse.Fuse.Owners
import SquashfsFuse.Fuse.Attributes
import SquashfsFuse.Data.Untouched
import SquashfsFuse.Fuse.NoCache
import SquashfsFuse.Vfs.Requests
import SquashfsFuse.Foundation.Pages
import SquashfsFuse.Metadata.Lookup
import SquashfsFuse.Tables.Fragments
import SquashfsFuse.Core.FragmentTable
import SquashfsFuse.Tables.FragmentRuns
import SquashfsFuse.Tables.MissingFragments
import SquashfsFuse.Core.Export
import SquashfsFuse.Tables.Exports
import SquashfsFuse.Tables.ExportRuns
import SquashfsFuse.Tables.XattrIds
import SquashfsFuse.Xattr.Passes
import SquashfsFuse.Core.XattrBuffers
import SquashfsFuse.Xattr.Requests
import SquashfsFuse.Tables.Ids
import SquashfsFuse.Core.MetaRead
import SquashfsFuse.Metadata.Slices
import SquashfsFuse.Metadata.StreamReads
import SquashfsFuse.Fuse.BlockSize
import SquashfsFuse.Inode.Lengths
import SquashfsFuse.Metadata.Progress
import SquashfsFuse.Core.DirectoryBuffer
import SquashfsFuse.Directory.Bounds
import SquashfsFuse.Core.Pread
import SquashfsFuse.Core.Log
import SquashfsFuse.Cache.Counters
import SquashfsFuse.Cache.Invariant
import SquashfsFuse.Foundation.Services
import SquashfsFuse.Foundation.FileStore
import SquashfsFuse.Fuse.Operations
import SquashfsFuse.Fuse.StoredFiles
import SquashfsFuse.Fuse.Sessions
import SquashfsFuse.Fuse.DiskTree
import SquashfsFuse.Fuse.MountedTrees
import SquashfsFuse.Fuse.SequentialReads
import SquashfsFuse.Foundation.LruFetch
import SquashfsFuse.Cache.Fetching
import SquashfsFuse.Foundation.JsonTree
import SquashfsFuse.Core.LogFile
import SquashfsFuse.Logging.DataLines
import SquashfsFuse.Logging.LogRuns
import SquashfsFuse.Logging.LogSizes
import SquashfsFuse.Core.Stats
import SquashfsFuse.Logging.Statistics
import SquashfsFuse.Foundation.Custody
import SquashfsFuse.Core.Zstd
import SquashfsFuse.Compression.ZstdThreads
import SquashfsFuse.Fuse.Arguments
import SquashfsFuse.Data.Holes
import SquashfsFuse.Inode.Accepted
import SquashfsFuse.Data.Answering
import SquashfsFuse.Directory.Answering
import SquashfsFuse.Vfs.Answering
import SquashfsFuse.Fuse.AnyImage
import SquashfsFuse.Foundation.Interleaving
import SquashfsFuse.Core.SharedReads
import SquashfsFuse.Data.SharedEntries
import SquashfsFuse.Data.SharedPasses
import SquashfsFuse.Fuse.SharedReaders
