import TieredHart.Engine.Run
import TieredHart.Engine.Compiling
import TieredHart.Instruction.Assembly
import TieredHart.Probe
import TieredHart.Proofs.Frames
import TieredHart.Proofs.Outcome
import TieredHart.Proofs.Decoding
import TieredHart.Proofs.Extents
import TieredHart.Proofs.Scanning
import TieredHart.Proofs.Layout
import TieredHart.Proofs.Execution
import TieredHart.Proofs.BlockRun
import TieredHart.Proofs.BlockCorrectness
import TieredHart.Proofs.Snapshots
import TieredHart.Proofs.Holdings
import TieredHart.Proofs.Publication
import TieredHart.Proofs.Stores
import TieredHart.Proofs.Compilation
import TieredHart.Proofs.NoStaleCode
import TieredHart.Proofs.PlainMachine
import TieredHart.Proofs.Accesses
import TieredHart.Proofs.Interpretation
import TieredHart.Proofs.CompiledBlocks
import TieredHart.Proofs.Dispatch
import TieredHart.Proofs.Refinement
import TieredHart.Proofs.HostSafety
import TieredHart.Proofs.CacheSteps
import TieredHart.Proofs.Filing
import TieredHart.Proofs.Indexing
import TieredHart.Proofs.Histories
import TieredHart.Proofs.IndexAgreement
import TieredHart.Proofs.Tenancy
import TieredHart.Proofs.ArenaTiling
import TieredHart.Proofs.Commits
import TieredHart.Proofs.StoreCoverage
import TieredHart.Proofs.QueueProtocol
import TieredHart.Proofs.Chaining
import TieredHart.Proofs.Fuel
import TieredHart.Proofs.Watch
import TieredHart.Proofs.SplitRuns
import TieredHart.Proofs.BlockWrites
import TieredHart.Proofs.Chronicle
import TieredHart.Proofs.SelfModification
import TieredHart.Proofs.HeatLaw
import TieredHart.Proofs.Courses
import TieredHart.Proofs.StoreEffects
import TieredHart.Proofs.ShortcutTransparency
import TieredHart.Proofs.HartLaws
import TieredHart.Proofs.Boundaries
import TieredHart.Proofs.FreeGaps
import TieredHart.Proofs.VictimSearch
import TieredHart.Proofs.LeastRecentlyUsed
import TieredHart.Proofs.PollBound
import TieredHart.Proofs.BlockBytes
import TieredHart.Proofs.BlockBounds
import TieredHart.Proofs.Encoding
import TieredHart.Proofs.Compressed
import TieredHart.Proofs.Grammar
import TieredHart.Proofs.Reference
import TieredHart.Proofs.ReferenceWords
import TieredHart.Proofs.Attempts
import TieredHart.Proofs.Semantics
import TieredHart.Proofs.Refusals
import TieredHart.Proofs.Tallies
import TieredHart.Proofs.Retirements
import TieredHart.Proofs.Accounting
import TieredHart.Proofs.RecordStreams
import TieredHart.Proofs.EmittedShape
import TieredHart.Proofs.TrapReturn
