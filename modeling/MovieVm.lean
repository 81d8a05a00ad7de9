import MovieVm.Value.Operators
import MovieVm.Bytecode.Assembly.Basic
import MovieVm.Bytecode.Catalog
import MovieVm.Bytecode.Codec
import MovieVm.Bytecode.Disassembly
import MovieVm.Bytecode.Verifier
import MovieVm.Domain.Bootstrap
import MovieVm.Domain.Execution
import MovieVm.Movie.Draft
import MovieVm.Movie.Extraction
import MovieVm.Movie.Loader
import MovieVm.Schedule.Run
import MovieVm.Player.Basic
import MovieVm.Shell.Basic
import MovieVm.Main
import MovieVm.Proofs.StackDepth
import MovieVm.Proofs.Execution
import MovieVm.Proofs.Frames
import MovieVm.Proofs.Codec
import MovieVm.Proofs.VerifiedRun
import MovieVm.Proofs.Alike
import MovieVm.Proofs.DoubleText
import MovieVm.Proofs.Drafts
import MovieVm.Proofs.Lockstep
import MovieVm.Proofs.StackDiscipline
import MovieVm.Proofs.Chunks
import MovieVm.Proofs.LoadEvents
import MovieVm.Proofs.DraftLoad
import MovieVm.Proofs.VirtualTime
import MovieVm.Proofs.Fates
import MovieVm.Proofs.UnitTests
import MovieVm.Proofs.SystemScope
import MovieVm.Proofs.ScopeStores
import MovieVm.Proofs.FunctionValues
import MovieVm.Proofs.FailedEntries
import MovieVm.Proofs.Slices
import MovieVm.Proofs.RunSummaries
import MovieVm.Proofs.ScriptTests
import MovieVm.Proofs.FrameOrder
import MovieVm.Proofs.ChunkSizes
import MovieVm.Proofs.FailedLoads
import MovieVm.Proofs.HeldBack
import MovieVm.Proofs.Twins
import MovieVm.Proofs.Transparency
import MovieVm.Proofs.Agreement
import MovieVm.Proofs.PlaybackTwins
import MovieVm.Proofs.ShellTwins
import MovieVm.Proofs.ExitStatus
import MovieVm.Proofs.SelfDelimiting
import MovieVm.Proofs.ModuleTable
import MovieVm.Proofs.TextForm
import MovieVm.Proofs.TrailingBytes
import MovieVm.Proofs.CallStack
import MovieVm.Proofs.StackTraces
import MovieVm.Proofs.Bootstrapping
import MovieVm.Proofs.ConsistentFiles
import MovieVm.Proofs.HeaderBounds
import MovieVm.Proofs.Truncation
import MovieVm.Proofs.Completion
import MovieVm.Proofs.EmbeddedModules
import MovieVm.Proofs.EagerSymbols
import MovieVm.Proofs.Announcements
import MovieVm.Proofs.AssembledModules
import MovieVm.Proofs.OperandLimits
import MovieVm.Proofs.FirstUses
import MovieVm.Proofs.CatalogLookup
import MovieVm.Proofs.FilteredAnalysis
import MovieVm.Proofs.LineNumbers
import MovieVm.Proofs.GuardedLoading
import MovieVm.Proofs.Comparisons
import MovieVm.Proofs.Compilation
import MovieVm.Proofs.WriterFamilies
import MovieVm.Proofs.Additions
import MovieVm.Proofs.IndependentFiles
import MovieVm.Proofs.WrittenTraces
import MovieVm.Proofs.IntegerRange
import MovieVm.Proofs.ItemSequences
import MovieVm.Proofs.Worklist
import MovieVm.Proofs.StringLiterals
