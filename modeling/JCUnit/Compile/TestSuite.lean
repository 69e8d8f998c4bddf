import JCUnit.Text.Bytes

/-!
# Compiled test suites

The records the compiler fills and the cache stores. A string field is absent
(`NULL`) or a string, which may be empty.
-/

namespace JCUnit

def testFlagHasGiven : UInt32 := 1
def testFlagHasWhen : UInt32 := 2
def testFlagHasThen : UInt32 := 4
def testFlagIncomplete : UInt32 := 8
def testFlagSkipped : UInt32 := 16

def testCompleteMask : UInt32 := testFlagHasGiven ||| testFlagHasWhen ||| testFlagHasThen

def testKindProgramRunner : UInt32 := 1

def givenTypeNone : UInt32 := 0
def givenTypeFile : UInt32 := 1
def givenTypeReference : UInt32 := 2
def givenTypeStdin : UInt32 := 3

/-- The output streams of a program. -/
inductive Stream
  | stdout
  | stderr
deriving DecidableEq

structure ProgramRunnerTest where
  name : Option Bytes
  kind : UInt32
  flags : UInt32
  givenType : UInt32
  givenFilename : Option Bytes
  givenFileContent : Option Bytes
  givenPath : Option Bytes
  programPath : Option Bytes
  programArgs : Option Bytes
  expectedStdout : Option Bytes
  expectedStderr : Option Bytes
deriving DecidableEq

/-- The output the test expects on a stream. -/
def ProgramRunnerTest.expected (test : ProgramRunnerTest) : Stream → Option Bytes
  | .stdout => test.expectedStdout
  | .stderr => test.expectedStderr

structure TestSuite where
  name : CString
  tests : List ProgramRunnerTest
deriving DecidableEq

end JCUnit
