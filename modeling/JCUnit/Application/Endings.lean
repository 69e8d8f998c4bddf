import JCUnit.Application.CollectedSources
import JCUnit.Application.History
import JCUnit.Compile.CompiledTests
import JCUnit.Compile.RequirementOrder
import JCUnit.Frontend.Consumption
import JCUnit.Runner.GivenFilename
import JCUnit.Runner.GivenRemoval

/-!
# How a run of the program ends

A run exits with 0 or 2, or it ends in a fatal error with a message. In the run of a test the
process can also be killed, when the program under test has gone before it is given its input, or
wait for ever. Once the cache file comes from earlier runs, with suites that fit the blocks of the
cache, there are four ways out of what C defines: a source behind the end of the table of sources,
a given file whose name is longer than its buffer, more tests than a blob of the memory pool has
room for, and a diff that does not fit a blob.
-/

namespace JCUnit

open StateError FirstOccurrences Projection

section Sources

variable {fs : FileSystem} {args : List CString} {halt : Halt}

end Sources

section Compiler

variable {path : CString} {file : Option Bytes} {suite : TestSuite} {halt : Halt}

end Compiler

section Runner

variable {host : Host} {test : ProgramRunnerTest} {events events' : List HostEvent} {halt : Halt}

end Runner

section Readings

variable {files : Files} {sources : List CString} {suites : List TestSuite} {halt : Halt}

end Readings

section Invocations

variable {invocation : Invocation} {context : ApplicationContext} {env : Surroundings}
  {suites : List TestSuite} {runMode : UInt32} {halt : Halt}

/-- The suites of an invocation, as they are compiled without the cache. -/
def Invocation.compiled (invocation : Invocation) : Except Halt (List TestSuite) :=
  (readSuites invocation.machine.files invocation.reading.sources true none).map Prod.fst

end Invocations

section Plans

variable {invocation : Invocation} {invocations : List Invocation} {found : Option Bytes}
  {halt : Halt}

end Plans

end JCUnit
