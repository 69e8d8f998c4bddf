import JCUnit.Matching.MatcherVerdict
import JCUnit.Matching.Satisfiable
import JCUnit.Diff.EditScript
import JCUnit.Frontend.SuiteRuns
import JCUnit.Frontend.ContentBounds
import JCUnit.Compile.Expectations
import JCUnit.Cache.RoundTrip
import JCUnit.Application.CachedPath
import JCUnit.Application.ConcurrentEdits
import JCUnit.Runner.Pipes
import JCUnit.Runner.Enforcement
import JCUnit.Runner.GivenRemoval
import JCUnit.Cache.BufferReads
import JCUnit.Cache.InterruptedSave
import JCUnit.Compile.CompiledTests
import JCUnit.Compile.LinkedCompiler
import JCUnit.Diff.FinalNewline
import JCUnit.Foundation.Buffers
import JCUnit.Foundation.FilledTable
import JCUnit.Foundation.FillLevels
import JCUnit.Foundation.Loops
import JCUnit.Foundation.Projection
import JCUnit.Memory.Pool
import JCUnit.Memory.PoolBounds
import JCUnit.Runner.RunnerInput
import JCUnit.Runner.StaticStorage
import JCUnit.Suites.CapturedOutput
import JCUnit.Application.CollectedSources
import JCUnit.Frontend.LookAhead
import JCUnit.Foundation.SideBySide
import JCUnit.Compile.BadArguments
import JCUnit.Diff.ChangeBlocks
import JCUnit.Foundation.Replacement
import JCUnit.Foundation.Words
import JCUnit.Frontend.InsertedDirective
import JCUnit.Runner.ArgumentBuffers
import JCUnit.Runner.GivenFilename
import JCUnit.Runner.GivenPath
import JCUnit.Runner.SkippedTests
import JCUnit.Runner.StreamCapture
import JCUnit.Diff.LosslessLines
import JCUnit.Matching.LeastOccurrence
import JCUnit.Matching.TracedMatcher
import JCUnit.Suites.ProgressLayout
import JCUnit.Suites.DetailLayout
import JCUnit.Frontend.Consumption
import JCUnit.Memory.IntrusiveList
import JCUnit.Application.CompleteWalk
import JCUnit.Suites.ProblemLists
import JCUnit.Suites.SplitSessions
import JCUnit.Application.Convergence
import JCUnit.Application.Endings
import JCUnit.Frontend.Rendering
import JCUnit.Runner.DescriptorUse
import JCUnit.Foundation.LinkedChain
import JCUnit.Memory.SinglyLinkedList
import JCUnit.Application.LinkedSources
import JCUnit.Foundation.Mirroring
import JCUnit.Frontend.LinkedTree
import JCUnit.Frontend.LinkedParser
