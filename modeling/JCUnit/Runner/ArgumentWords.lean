import JCUnit.Foundation.Replacement
import JCUnit.Foundation.Words
import JCUnit.Runner.BuildArgs

/-!
# What the argument vector is made of

The loops of `try_to_run_program` replace the placeholders of the template and cut the result
into words. Their partial checks amount to one bound on the length of the result and one on the
number of arguments.
-/

namespace JCUnit

open Words Replacement

/-- The template with the file's name for each placeholder, or with nothing for it. -/
def expandedArgs (filename extraArgs : Option CString) : Bytes :=
  replaceAll filePlaceholder ((filename.map CString.bytes).getD [])
    ((extraArgs.map CString.bytes).getD [])

def hasFilePlaceholder (extraArgs : Option CString) : Bool :=
  extraArgs.any fun extra => strstr extra.bytes filePlaceholder

/-- The program, the file's name if no placeholder stands for it, and the words of the template. -/
def exactArgs (program : CString) (filename extraArgs : Option CString) : List Bytes :=
  program.bytes ::
    ((if hasFilePlaceholder extraArgs then [] else (filename.map CString.bytes).toList) ++
      words isBlank (expandedArgs filename extraArgs))

/-- The fatal error for a template that is too long. -/
def argsTooLong (extraArgs : Option CString) : Halt :=
  if hasFilePlaceholder extraArgs then
    fatalError (ascii "The args string is too long after " ++ filePlaceholder ++
      ascii " substitution (max 1023 bytes)!")
  else fatalError (ascii "The args string is too long (max 1023 bytes)!")

def tooManyArgs : Halt := fatalError (ascii "Too many args (max 29)!")

section Loops

variable {filename src dst : Bytes}

/-- The checks in front of each replacement and of the rest amount to one of the whole. -/
theorem substituteLoop_eq :
    substituteLoop filename src dst =
      if extraArgsBufSize ≤ (dst ++ replaceAll filePlaceholder filename src).length then
        testFatal (ascii "The args string is too long after " ++ filePlaceholder ++
          ascii " substitution (max 1023 bytes)!")
      else .ok (dst ++ replaceAll filePlaceholder filename src) := by
  have hneedle : filePlaceholder ≠ [] := by decide
  induction src, dst using substituteLoop.induct filename with
  | case1 src dst found hfound hlong =>
      have hwhole : extraArgsBufSize ≤ (dst ++ replaceAll filePlaceholder filename src).length := by
        have hbound := strstrIndex_bound hfound
        rw [replaceAll_of_found hneedle hfound]
        simp only [List.length_append, List.length_take]
        omega
      rw [substituteLoop_of_some hfound, if_pos hlong, if_pos hwhole]
  | case2 src dst found hfound hshort ih =>
      rw [substituteLoop_of_some hfound, if_neg hshort, ih, replaceAll_of_found hneedle hfound]
      simp only [List.append_assoc]
  | case3 src dst hfound hlong =>
      rw [substituteLoop_of_none hfound, replaceAll_of_not_found hfound, List.length_append]
  | case4 src dst hfound hshort =>
      rw [substituteLoop_of_none hfound, replaceAll_of_not_found hfound, List.length_append]

theorem strtokAll_eq (buf : Bytes) : strtokAll buf = words isBlank buf := by
  induction buf using strtokAll.induct with
  | case1 buf hnil =>
      rw [strtokAll, ← words_dropWhile buf]
      split
      · rw [hnil, words_nil]
      · rename_i hcons
        rw [hnil] at hcons
        cases hcons
  | case2 buf b rest hrest ih =>
      have hwords := (firstWord_of_dropWhile hrest).words_eq
      rw [strtokAll]
      split
      · rename_i hnil
        rw [hrest] at hnil
        cases hnil
      · rename_i b' rest' hcons
        rw [hrest] at hcons
        cases hcons
        rw [ih, hwords]

theorem foldlM_addArg_eq {tokens args : List Bytes} (hargs : args.length < maxArgs) :
    tokens.foldlM addArg args =
      if maxArgs ≤ (args ++ tokens).length then .error tooManyArgs else .ok (args ++ tokens) := by
  induction tokens generalizing args with
  | nil =>
      rw [List.append_nil, if_neg (Nat.not_le.mpr hargs)]
      rfl
  | cons token tokens ih =>
      have hmax : maxArgs = 32 := rfl
      have happend : args ++ token :: tokens = args ++ [token] ++ tokens := by
        rw [List.append_assoc, List.singleton_append]
      rw [List.foldlM_cons, addArg, happend]
      by_cases hfull : maxArgs - 1 ≤ args.length
      · have hlong : maxArgs ≤ (args ++ [token] ++ tokens).length := by
          simp only [List.length_append, List.length_singleton]
          omega
        rw [if_pos hfull, if_pos hlong]
        rfl
      · rw [if_neg hfull]
        apply ih
        rw [List.length_append, List.length_singleton]
        omega

end Loops

/-- `try_to_run_program` builds these arguments within its limits, and fails beyond them. -/
theorem buildArgs_eq (program : CString) (filename extraArgs : Option CString) :
    buildArgs program filename extraArgs =
      if extraArgsBufSize ≤ (expandedArgs filename extraArgs).length then
        .error (argsTooLong extraArgs)
      else if maxArgs ≤ (exactArgs program filename extraArgs).length then .error tooManyArgs
      else .ok (exactArgs program filename extraArgs) := by
  have hstart := length_programAndFile program filename
  cases extraArgs with
  | none =>
      have hexpanded : expandedArgs filename none = [] := replaceAll_nil
      have hexact : exactArgs program filename none =
          program.bytes :: (filename.map CString.bytes).toList := by
        rw [exactArgs, hexpanded, words_nil, List.append_nil]
        rfl
      rw [hexpanded, hexact, if_neg (by decide), if_neg (Nat.not_le.mpr hstart)]
      rfl
  | some extra =>
      unfold buildArgs
      dsimp only
      split
      · rename_i hplaceholder
        have hexact : exactArgs program filename (some extra) =
            [program.bytes] ++ words isBlank (expandedArgs filename (some extra)) := by
          rw [exactArgs, hasFilePlaceholder, Option.any_some, if_pos hplaceholder]
          rfl
        rw [substituteLoop_eq, hexact]
        change (if extraArgsBufSize ≤ (expandedArgs filename (some extra)).length then _ else _) >>= _
          = _
        split
        · rw [argsTooLong, hasFilePlaceholder, Option.any_some, if_pos hplaceholder]
          rfl
        · change (strtokAll (expandedArgs filename (some extra))).foldlM addArg _ = _
          rw [strtokAll_eq]
          exact foldlM_addArg_eq (length_programAndFile program none)
      · rename_i hplaceholder
        have hnone : strstrIndex extra.bytes filePlaceholder = none := by
          rw [strstr, Bool.not_eq_true, List.any_eq_false] at hplaceholder
          apply List.findIdx?_eq_none_iff.mpr
          intro tail htail
          exact (Bool.not_eq_true _).mp (hplaceholder tail htail)
        have hexpanded : expandedArgs filename (some extra) = extra.bytes :=
          replaceAll_of_not_found hnone
        have hexact : exactArgs program filename (some extra) =
            program.bytes :: (filename.map CString.bytes).toList ++ words isBlank extra.bytes := by
          rw [exactArgs, hasFilePlaceholder, Option.any_some, if_neg hplaceholder, hexpanded]
          rfl
        rw [hexpanded, hexact, argsTooLong, hasFilePlaceholder, Option.any_some,
          if_neg hplaceholder, strtokAll_eq, foldlM_addArg_eq hstart]
        rfl

theorem length_buildArgs {program : CString} {filename extraArgs : Option CString}
    {args : List Bytes} (h : buildArgs program filename extraArgs = .ok args) :
    args.length < maxArgs := by
  rw [buildArgs_eq] at h
  split at h
  · cases h
  split at h
  · cases h
  · rename_i hfits
    cases h
    exact Nat.not_le.mp hfits

end JCUnit
