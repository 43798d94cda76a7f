import JvmAssembler.Assembler
import JvmAssembler.Cli
import JvmAssembler.Digest
import JvmAssembler.Disk.FileTree
import JvmAssembler.Launch.Script
import JvmAssembler.Listing
import JvmAssembler.Main
import JvmAssembler.Proofs.BuilderConsistency
import JvmAssembler.Proofs.BuilderHistory
import JvmAssembler.Proofs.BuilderLifeCycle
import JvmAssembler.Proofs.ClassFileRoundTrip
import JvmAssembler.Proofs.DisassemblyRoundTrip
import JvmAssembler.Proofs.PoolOrder
import JvmAssembler.Settings
import JvmAssembler.Store
import JvmAssembler.Proofs.LimitExactness
import JvmAssembler.Proofs.PoolSubstitution
import JvmAssembler.Proofs.ReaderInversion
import JvmAssembler.Proofs.ClassFileGrammar
import JvmAssembler.Proofs.FileTreeOperations
import JvmAssembler.Proofs.FileStoreHistory
import JvmAssembler.Proofs.ModifiedUtf8Normalization
import JvmAssembler.Proofs.FileBoundaries
import JvmAssembler.Proofs.DescriptorGrammar
import JvmAssembler.Proofs.AppendedCode
import JvmAssembler.Proofs.IntegerLoads
import JvmAssembler.Proofs.LocalSlots
import JvmAssembler.Proofs.CheckedWriting
import JvmAssembler.Proofs.StorePaths
import JvmAssembler.Proofs.ColumnLines
import JvmAssembler.Proofs.ListingLines
import JvmAssembler.Proofs.NestedFailures
import JvmAssembler.Proofs.PoolMemory
