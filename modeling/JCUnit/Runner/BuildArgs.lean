import JCUnit.Compile.Compiler
import Mathlib.Data.List.Infix

/-!
# The argument vector

How `try_to_run_program` fills `args`: the placeholders of the template are replaced
in a buffer of 1024 bytes, and `strtok` cuts the buffer at blanks.
-/

namespace JCUnit

def maxArgs : Nat := 32

/-- The size of `extra_args_buf`. -/
def extraArgsBufSize : Nat := 1024

/-- `strstr(haystack, needle) - haystack`. -/
def strstrIndex (haystack needle : Bytes) : Option Nat :=
  haystack.tails.findIdx? fun tail => needle.isPrefixOf tail

theorem strstrIndex_bound {haystack needle : Bytes} {found : Nat}
    (h : strstrIndex haystack needle = some found) : found + needle.length ≤ haystack.length := by
  obtain ⟨hlength, hprefix, _⟩ := List.findIdx?_eq_some_iff_getElem.mp h
  rw [List.getElem_tails] at hprefix
  have hle := (List.isPrefixOf_iff_prefix.mp hprefix).length_le
  rw [List.length_drop] at hle
  rw [List.length_tails] at hlength
  omega

/-- The `{{file}}` loop over what is left of the template, with the bytes in the buffer. -/
def substituteLoop (filename src dst : Bytes) : Except Halt Bytes :=
  match _hfound : strstrIndex src filePlaceholder with
  | some found =>
      if extraArgsBufSize ≤ dst.length + found + filename.length then
        testFatal (ascii "The args string is too long after " ++ filePlaceholder ++ ascii " substitution (max 1023 bytes)!")
      else
        substituteLoop filename (src.drop (found + filePlaceholder.length))
          (dst ++ src.take found ++ filename)
  | none =>
      if extraArgsBufSize ≤ dst.length + src.length then
        testFatal (ascii "The args string is too long after " ++ filePlaceholder ++ ascii " substitution (max 1023 bytes)!")
      else .ok (dst ++ src)
termination_by src.length
decreasing_by
  have hbound := strstrIndex_bound _hfound
  have hplaceholder : 0 < filePlaceholder.length := by decide
  rw [List.length_drop]
  omega

section Substitution

variable {filename src dst : Bytes}

theorem substituteLoop_of_some {found : Nat} (h : strstrIndex src filePlaceholder = some found) :
    substituteLoop filename src dst =
      if extraArgsBufSize ≤ dst.length + found + filename.length then
        testFatal (ascii "The args string is too long after " ++ filePlaceholder ++ ascii " substitution (max 1023 bytes)!")
      else
        substituteLoop filename (src.drop (found + filePlaceholder.length))
          (dst ++ src.take found ++ filename) := by
  rw [substituteLoop]
  split
  · rename_i other hother
    rw [h] at hother
    cases hother
    rfl
  · rename_i hnone
    rw [h] at hnone
    cases hnone

theorem substituteLoop_of_none (h : strstrIndex src filePlaceholder = none) :
    substituteLoop filename src dst =
      if extraArgsBufSize ≤ dst.length + src.length then
        testFatal (ascii "The args string is too long after " ++ filePlaceholder ++ ascii " substitution (max 1023 bytes)!")
      else .ok (dst ++ src) := by
  rw [substituteLoop]
  split
  · rename_i other hother
    rw [h] at hother
    cases hother
  · rfl

end Substitution

def isBlank (b : Byte) : Bool := b = 32 || b = 9

/-- The results of `strtok(buf, " \t")`, one after the other. -/
def strtokAll (buf : Bytes) : List Bytes :=
  match _hrest : buf.dropWhile isBlank with
  | [] => []
  | b :: rest =>
      (b :: rest).takeWhile (fun b => !isBlank b) ::
        strtokAll ((b :: rest).dropWhile fun b => !isBlank b)
termination_by buf.length
decreasing_by
  have hblank : isBlank b = false := by
    simpa [_hrest] using
      List.head_dropWhile_not isBlank (l := buf) (by rw [_hrest]; exact List.cons_ne_nil _ _)
  have hsub := (List.dropWhile_suffix isBlank (l := buf)).length_le
  rw [_hrest] at hsub
  rw [List.dropWhile_cons, if_pos (by rw [hblank]; rfl)]
  have hrest := (List.dropWhile_suffix (fun b => !isBlank b) (l := rest)).length_le
  rw [List.length_cons] at hsub
  omega

def addArg (args : List Bytes) (token : Bytes) : Except Halt (List Bytes) :=
  if maxArgs - 1 ≤ args.length then testFatal (ascii "Too many args (max 29)!")
  else .ok (args ++ [token])

theorem length_programAndFile (program : CString) (filename : Option CString) :
  (program.bytes :: (filename.map CString.bytes).toList).length < maxArgs := by
  have hone : 1 < maxArgs := by decide
  have htwo : 2 < maxArgs := by decide
  cases filename with
  | none => exact hone
  | some filename => exact htwo

/-- The entries of `args` before the `NULL`. -/
def buildArgs (program : CString) (filename extraArgs : Option CString) :
    Except Halt (List Bytes) := do
  match extraArgs with
  | none => return program.bytes :: (filename.map CString.bytes).toList
  | some extra =>
      if strstr extra.bytes filePlaceholder then
        let buf ← substituteLoop ((filename.map CString.bytes).getD []) extra.bytes []
        (strtokAll buf).foldlM addArg [program.bytes]
      else if extraArgsBufSize ≤ extra.bytes.length then
        testFatal (ascii "The args string is too long (max 1023 bytes)!")
      else
        (strtokAll extra.bytes).foldlM addArg
          (program.bytes :: (filename.map CString.bytes).toList)

end JCUnit
