import JCUnit.Text.Bytes

/-!
# How a run can stop early

`jcunit_fatal_error` formats its message into a buffer of 1024 bytes, writes it
to stderr and exits with status 1. The embedding keeps the message.
-/

namespace JCUnit

def errorBufferSize : Nat := 1024

/-- Why a function does not return: a fatal error with its message, a loop that is still
going after as many rounds as could consume the input, a read or a write outside of a block,
after which C does not say what happens, a signal that ends the process, or a wait for what
never comes. -/
inductive Halt
  | fatal (message : Bytes)
  | diverged
  | undefined
  | killed
  | blocked
deriving DecidableEq

/-- The formatted message as `vsnprintf` leaves it in the buffer. -/
def fatalError (message : Bytes) : Halt :=
  .fatal (message.take (errorBufferSize - 1))

end JCUnit
