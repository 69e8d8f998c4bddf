import JCUnit.Runner.Descriptors

/-!
# Descriptors of a session

What `program_runner_test_runner` opens while it runs a test, and what is left open when it
returns.
-/

namespace JCUnit

open Descriptors StateError

section Session

variable {F : Type}

end Session

section Needs

variable {F : Type} {files : Table F} {limit : Nat} {text message : Bytes}
  {s s' : DescriptorState F} {use : TestUse} {pipe : PipeName}

end Needs

end JCUnit
