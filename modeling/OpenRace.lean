import OpenRace.Library.Worklist
import OpenRace.Library.CrossedChains
import OpenRace.IR.Builder
import OpenRace.Trace.Build.Contexts
import OpenRace.Trace.Build.TaskJoins
import OpenRace.Trace.Build.SingleTasks
import OpenRace.Analysis.JoinMatching
import OpenRace.Analysis.ConstructionEdges
import OpenRace.Analysis.BarrierSharing
import OpenRace.Trace.Build.MasterRegions
import OpenRace.Trace.Build.MasterRuns
import OpenRace.Trace.Build.Steady
import OpenRace.Trace.Build.Erasing
import OpenRace.Trace.Build.TwinSteps
import OpenRace.Trace.Build.TwinVisits
import OpenRace.Trace.Build.TwinRuns
import OpenRace.Trace.Build.Reached
import OpenRace.Trace.Build.TwinThreads
import OpenRace.Trace.Build.Termination
import OpenRace.Trace.ProgramTrace
import OpenRace.Trace.Build.RegionFlags
import OpenRace.Trace.Build.AdjacentForks
import OpenRace.Analysis.ParallelRegions
import OpenRace.Library.OrderedMap
import OpenRace.Analysis.SharedMemory
import OpenRace.Library.OrderedSet
import OpenRace.Reporter.Report
import OpenRace.Reporter.RacePairs
import OpenRace.PreProcessing.DuplicateOpenMPForks
import OpenRace.PreProcessing.ForkPairs
import OpenRace.PreProcessing.DuplicatedForks
import OpenRace.Analysis.SectionBodies
import OpenRace.Analysis.ArrayIndex
import OpenRace.Analysis.IndexOverlap
import OpenRace.Analysis.NonOverlap
import OpenRace.LLVM.IndexEvaluation
import OpenRace.Analysis.AlignedIndexes
import OpenRace.LLVM.GlobalValues
import OpenRace.PreProcessing.OMPConstantProp
import OpenRace.LLVM.GlobalMemory
import OpenRace.PreProcessing.ReplacedLoads
import OpenRace.Library.Dominance
import OpenRace.PreProcessing.InsertFakeCallForGuardBlocks
import OpenRace.Analysis.GuardedEdges
import OpenRace.Analysis.ConstantDistance
import OpenRace.Analysis.GapTest
import OpenRace.Library.Interning
import OpenRace.PointerAnalysis.Context.CtxTrait
import OpenRace.PointerAnalysis.Context.KOrigin
import OpenRace.PointerAnalysis.Context.HybridCtx
import OpenRace.LLVM.DataLayout
import OpenRace.PointerAnalysis.MemoryModel.Layouts
import OpenRace.PointerAnalysis.MemoryModel.MemLayoutManager
import OpenRace.PointerAnalysis.MemoryModel.FoldedOffsets
import OpenRace.PointerAnalysis.MemoryModel.IndexedArrays
import OpenRace.PointerAnalysis.MemoryModel.LayoutFolding
import OpenRace.PointerAnalysis.Program.CallGraphInvariant
import OpenRace.PointerAnalysis.Program.CallGraphRuns
import OpenRace.PointerAnalysis.Program.CallGraph
import OpenRace.LLVM.FunctionArguments
import OpenRace.PreProcessing.ArgumentPropagation
import OpenRace.PreProcessing.RunConstantProp
import OpenRace.PreProcessing.SettledFunctions
import OpenRace.PreProcessing.IntraRounds
import OpenRace.PreProcessing.SettledRounds
import OpenRace.PreProcessing.PassChanges
import OpenRace.PreProcessing.PassSteps
import OpenRace.PreProcessing.ArgumentSteps
import OpenRace.PreProcessing.SecondRun
import OpenRace.PreProcessing.RepeatedRun
import OpenRace.PreProcessing.ParallelRuns
import OpenRace.PreProcessing.PassCourse
import OpenRace.PreProcessing.PointeeReplacements
import OpenRace.PreProcessing.ReplacedPointees
import OpenRace.Analysis.CollapsedIndexes
import OpenRace.Analysis.PhiLoop
import OpenRace.Analysis.SimpleAlias
import OpenRace.Trace.Build.RecursiveSpawns
import OpenRace.Analysis.SectionBounds
import OpenRace.Analysis.LockSet
import OpenRace.Library.Nesting
import OpenRace.Trace.Build.CallNesting
import OpenRace.Reporter.Callstack
import OpenRace.Analysis.IndexAborts
import OpenRace.Analysis.AccessVerdicts
import OpenRace.LLVM.SCEVValues
import OpenRace.Analysis.PushedExtensions
import OpenRace.Analysis.ExtensionRewriting
import OpenRace.Analysis.RewrittenValues
import OpenRace.Trace.Build.OpenRegions
import OpenRace.Trace.Build.StandingRegions
import OpenRace.Trace.Build.MasterSafety
import OpenRace.Analysis.ThreadLocal
import OpenRace.PointerAnalysis.Solver.PointedByPts
import OpenRace.Reporter.AbsentLocations
import OpenRace.Analysis.LastprivateBlocks
import OpenRace.Analysis.GuardedThreads
import OpenRace.Analysis.ReduceBlocks
import OpenRace.Analysis.Reduces
import OpenRace.PointerAnalysis.MemoryModel.ArrayInstances
import OpenRace.PointerAnalysis.MemoryModel.FirstElements
import OpenRace.PointerAnalysis.MemoryModel.MarkedOffsets
import OpenRace.PointerAnalysis.MemoryModel.ArraySearch
import OpenRace.PointerAnalysis.MemoryModel.MemBlock
import OpenRace.PointerAnalysis.MemoryModel.TypeAtOffset
import OpenRace.PointerAnalysis.MemoryModel.IndexObject
import OpenRace.PointerAnalysis.MemoryModel.CanonicalValues
import OpenRace.PreProcessing.SplitVariableGEP
import OpenRace.PreProcessing.LoweringMemCpy
import OpenRace.PreProcessing.ExpandedFunctions
import OpenRace.PointerAnalysis.MemoryModel.AnonymousObjects
import OpenRace.PointerAnalysis.MemoryModel.Initializers
import OpenRace.PointerAnalysis.Graph.ConstraintEdges
import OpenRace.PointerAnalysis.Graph.CollapsedNodes
import OpenRace.PointerAnalysis.Graph.CollapsedSets
import OpenRace.PointerAnalysis.Graph.ConstraintRuns
import OpenRace.Library.ComponentSearch
import OpenRace.PointerAnalysis.Graph.SCCIterator
import OpenRace.PointerAnalysis.Graph.PoppedComponents
import OpenRace.PointerAnalysis.Graph.Components
import OpenRace.PointerAnalysis.Graph.EnumeratedComponents
import OpenRace.IR.CalledFunctions
import OpenRace.Reporter.NullCalls
import OpenRace.PointerAnalysis.MemoryModel.LargeArrays
import OpenRace.PointerAnalysis.MemoryModel.StackObjects
import OpenRace.Analysis.LoopRegions
import OpenRace.Analysis.InductionChains
import OpenRace.PointerAnalysis.MemoryModel.DefaultHeapModel
import OpenRace.PointerAnalysis.Util.TypeMetaData
import OpenRace.LLVM.BitVector
import OpenRace.Library.DoWhile
import OpenRace.Library.Inclusions
import OpenRace.PointerAnalysis.Graph.NodeKinds
import OpenRace.PointerAnalysis.Solver.AndersenWave
import OpenRace.PointerAnalysis.Solver.ClosedSets
import OpenRace.PointerAnalysis.Solver.CopyPhase
import OpenRace.PointerAnalysis.Solver.LeastSolution
import OpenRace.PointerAnalysis.Solver.Resolution
import OpenRace.Analysis.Interleavings
import OpenRace.RaceDetect
