import JCUnit.Compile.Expectations
import JCUnit.Frontend.DirectiveNames

/-!
# What a compiled test can be relied on for

The handlers of the requirements run in any order and any number of times. After
each of them the flags say which kinds of requirements the handlers have seen, and
the fields that belong to the type of the `given` are the ones its handler has checked.
-/

namespace JCUnit

open StateError

/-- The handler that the requirement resolves to is the one of this name. -/
def AstRequirement.isCalled (name : Bytes) (requirement : AstRequirement) : Bool :=
  strcmpEq name requirement.name

/-- The flags of a test that has requirements of these kinds. -/
def flagsOf (given whenRun expectOutput shouldBeSkipped : Bool) : UInt32 :=
  (if given then testFlagHasGiven else 0) ||| (if whenRun then testFlagHasWhen else 0) |||
    (if expectOutput then testFlagHasThen else 0) |||
    (if shouldBeSkipped then testFlagSkipped else 0)

/-- The fields of a `given` that belong to its type. -/
structure ProgramRunnerTest.GivenChecked (test : ProgramRunnerTest) : Prop where
  known : test.givenType = givenTypeNone ∨ test.givenType = givenTypeFile ∨
    test.givenType = givenTypeReference ∨ test.givenType = givenTypeStdin
  reference : test.givenType = givenTypeReference →
    ∃ path, path ≠ [] ∧ test.givenPath = some path
  file : test.givenType = givenTypeFile →
    ∀ filename ∈ test.givenFilename, filename ≠ [] ∧ 47 ∉ cstr filename

structure ProgramRunnerTest.ProgramChecked (test : ProgramRunnerTest) : Prop where
  program : ∃ program, program ≠ [] ∧ test.programPath = some program
  args : ∀ args ∈ test.programArgs, args ≠ []

variable {requirement : AstRequirement} {test test' : ProgramRunnerTest}

theorem given_checked (h : givenTestRequirementCompiler requirement test = .ok test') :
    test'.GivenChecked := by
  obtain ⟨given, -, hgiven⟩ := given_cases h
  cases hgiven with
  | none =>
      exact ⟨Or.inl rfl, by simp [givenTypeNone, givenTypeReference],
        by simp [givenTypeNone, givenTypeFile]⟩
  | reference hpath =>
      exact ⟨Or.inr (Or.inr (Or.inl rfl)), fun _ => ⟨_, hpath, rfl⟩,
        by simp [givenTypeReference, givenTypeFile]⟩
  | stdin =>
      exact ⟨Or.inr (Or.inr (Or.inr rfl)), by simp [givenTypeStdin, givenTypeReference],
        by simp [givenTypeStdin, givenTypeFile]⟩
  | file hfilename =>
      exact ⟨Or.inr (Or.inl rfl), by simp [givenTypeFile, givenTypeReference], fun _ => hfilename⟩

theorem whenRun_checked (h : whenRunRequirementCompiler requirement test = .ok test') :
    test'.ProgramChecked := by
  obtain ⟨-, h⟩ := testFatal_check_iff.mp h
  obtain ⟨found, -, h⟩ := except_bind_eq_ok h
  cases hprogram : found.program with
  | none =>
      rw [hprogram] at h
      cases h
  | some program =>
      rw [hprogram] at h
      obtain ⟨hlength, h⟩ := testFatal_check_iff.mp h
      obtain ⟨hargs, h⟩ := testFatal_check_iff.mp h
      cases h
      constructor
      · exact ⟨program, mt List.length_eq_zero_iff.mpr hlength, rfl⟩
      · rintro args hmem rfl
        exact hargs hmem

/-- A requirement is compiled by the handler of its name. -/
theorem compileRequirement_cases (h : compileRequirement test requirement = .ok test') :
    (requirement.isCalled (ascii "given") = true ∧
      givenTestRequirementCompiler requirement test = .ok test') ∨
    (requirement.isCalled (ascii "whenRun") = true ∧
      whenRunRequirementCompiler requirement test = .ok test') ∨
    (requirement.isCalled (ascii "expectOutput") = true ∧
      expectOutputRequirementCompiler requirement test = .ok test') ∨
    (requirement.isCalled (ascii "shouldBeSkipped") = true ∧
      test' = { test with flags := test.flags ||| testFlagSkipped }) := by
  unfold compileRequirement resolveTestRequirementCompiler at h
  split at h
  case isTrue hname => exact Or.inl ⟨hname, h⟩
  split at h
  case isTrue hname => exact Or.inr (Or.inl ⟨hname, h⟩)
  split at h
  case isTrue hname => exact Or.inr (Or.inr (Or.inl ⟨hname, h⟩))
  split at h
  case isTrue hname =>
    cases h
    exact Or.inr (Or.inr (Or.inr ⟨hname, rfl⟩))
  · cases h

theorem isCalled_unique {name : Bytes} (other : Bytes) (h : requirement.isCalled name = true)
    (hdiffers : name ≠ other) : requirement.isCalled other = false := by
  rw [← Bool.not_eq_true]
  intro hother
  exact hdiffers (strcmpEq_unique h hother)

/-- The state of a test after the handlers of these requirements. -/
structure ProgramRunnerTest.CompiledFrom (test : ProgramRunnerTest)
    (done : List AstRequirement) : Prop where
  name : ∃ name, name ≠ [] ∧ test.name = some name
  flags : test.flags = flagsOf (done.any (·.isCalled (ascii "given")))
    (done.any (·.isCalled (ascii "whenRun"))) (done.any (·.isCalled (ascii "expectOutput")))
    (done.any (·.isCalled (ascii "shouldBeSkipped")))
  given : test.GivenChecked
  program : done.any (·.isCalled (ascii "whenRun")) = true → test.ProgramChecked
  expected : ∀ stream, (test.expected stream).isSome = true →
    done.any (·.isCalled (ascii "expectOutput")) = true

theorem flagsOf_given (given whenRun expectOutput shouldBeSkipped : Bool) :
    flagsOf given whenRun expectOutput shouldBeSkipped ||| testFlagHasGiven
      = flagsOf true whenRun expectOutput shouldBeSkipped := by
  revert given whenRun expectOutput shouldBeSkipped
  decide

theorem flagsOf_whenRun (given whenRun expectOutput shouldBeSkipped : Bool) :
    flagsOf given whenRun expectOutput shouldBeSkipped ||| testFlagHasWhen
      = flagsOf given true expectOutput shouldBeSkipped := by
  revert given whenRun expectOutput shouldBeSkipped
  decide

theorem flagsOf_expectOutput (given whenRun expectOutput shouldBeSkipped : Bool) :
    flagsOf given whenRun expectOutput shouldBeSkipped ||| testFlagHasThen
      = flagsOf given whenRun true shouldBeSkipped := by
  revert given whenRun expectOutput shouldBeSkipped
  decide

theorem flagsOf_shouldBeSkipped (given whenRun expectOutput shouldBeSkipped : Bool) :
    flagsOf given whenRun expectOutput shouldBeSkipped ||| testFlagSkipped
      = flagsOf given whenRun expectOutput true := by
  revert given whenRun expectOutput shouldBeSkipped
  decide

/-- An `expectOutput` adds its flag, except for a stream that has an expectation. -/
theorem expectOutput_flags (h : expectOutputRequirementCompiler requirement test = .ok test') :
    test'.flags = test.flags ||| testFlagHasThen ∨
      (test' = test ∧ ∃ stream, (test.expected stream).isSome = true) := by
  obtain ⟨code, hcode, -⟩ := except_bind_eq_ok h
  obtain rfl | rfl := expectOutputStream_known hcode
  · rw [expectOutput_stdout hcode] at h
    cases h
    split
    · rename_i hexpected
      exact Or.inr ⟨rfl, .stdout, hexpected⟩
    · exact Or.inl rfl
  · rw [expectOutput_stderr hcode] at h
    cases h
    split
    · rename_i hexpected
      exact Or.inr ⟨rfl, .stderr, hexpected⟩
    · exact Or.inl rfl

/-- An expectation a handler leaves behind was there before, or its requirement sets one. -/
theorem compileRequirement_expected_isSome
    (h : compileRequirement test requirement = .ok test') {stream : Stream}
    (hsome : (test'.expected stream).isSome = true) :
    (test.expected stream).isSome = true ∨
      requirement.isCalled (ascii "expectOutput") = true := by
  rw [compileRequirement_expected h, Option.isSome_or, Bool.or_eq_true] at hsome
  apply hsome.imp_right
  intro hcontent
  split at hcontent
  · rename_i hexpects
    exact hexpects.1
  · cases hcontent

theorem compileRequirement_name (h : compileRequirement test requirement = .ok test') :
    test'.name = test.name := by
  rcases compileRequirement_cases h with ⟨-, hrun⟩ | ⟨-, hrun⟩ | ⟨-, hrun⟩ | ⟨-, rfl⟩
  · rw [given_changes hrun]
  · rw [whenRun_changes hrun]
  · rw [expectOutput_changes hrun]
  · rfl

theorem compileRequirement_given (hgiven : test.GivenChecked)
    (h : compileRequirement test requirement = .ok test') : test'.GivenChecked := by
  rcases compileRequirement_cases h with ⟨-, hrun⟩ | ⟨-, hrun⟩ | ⟨-, hrun⟩ | ⟨-, rfl⟩
  · exact given_checked hrun
  · rw [whenRun_changes hrun]
    exact ⟨hgiven.known, hgiven.reference, hgiven.file⟩
  · rw [expectOutput_changes hrun]
    exact ⟨hgiven.known, hgiven.reference, hgiven.file⟩
  · exact ⟨hgiven.known, hgiven.reference, hgiven.file⟩

/-- The program is set by `whenRun` alone. -/
theorem compileRequirement_program (h : compileRequirement test requirement = .ok test') :
    (requirement.isCalled (ascii "whenRun") = true ∧ test'.ProgramChecked) ∨
      (requirement.isCalled (ascii "whenRun") = false ∧ test'.programPath = test.programPath ∧
        test'.programArgs = test.programArgs) := by
  rcases compileRequirement_cases h with
    ⟨hcalled, hrun⟩ | ⟨hcalled, hrun⟩ | ⟨hcalled, hrun⟩ | ⟨hcalled, rfl⟩
  · refine Or.inr ⟨isCalled_unique _ hcalled (by decide), ?_⟩
    rw [given_changes hrun]
    exact ⟨rfl, rfl⟩
  · exact Or.inl ⟨hcalled, whenRun_checked hrun⟩
  · refine Or.inr ⟨isCalled_unique _ hcalled (by decide), ?_⟩
    rw [expectOutput_changes hrun]
    exact ⟨rfl, rfl⟩
  · exact Or.inr ⟨isCalled_unique _ hcalled (by decide), rfl, rfl⟩

/-- The flags of the handlers' kinds, with the kind of one more requirement. -/
theorem ProgramRunnerTest.CompiledFrom.flags_step {done : List AstRequirement}
    (h : test.CompiledFrom done) (hstep : compileRequirement test requirement = .ok test') :
    test'.flags = flagsOf ((done ++ [requirement]).any (·.isCalled (ascii "given")))
      ((done ++ [requirement]).any (·.isCalled (ascii "whenRun")))
      ((done ++ [requirement]).any (·.isCalled (ascii "expectOutput")))
      ((done ++ [requirement]).any (·.isCalled (ascii "shouldBeSkipped"))) := by
  simp only [List.any_append, List.any_cons, List.any_nil, Bool.or_false]
  rcases compileRequirement_cases hstep with
    ⟨hcalled, hrun⟩ | ⟨hcalled, hrun⟩ | ⟨hcalled, hrun⟩ | ⟨hcalled, rfl⟩
  · rw [given_changes hrun]
    dsimp only
    rw [h.flags, flagsOf_given]
    simp [hcalled, isCalled_unique (ascii "whenRun") hcalled (by decide),
      isCalled_unique (ascii "expectOutput") hcalled (by decide),
      isCalled_unique (ascii "shouldBeSkipped") hcalled (by decide)]
  · rw [whenRun_changes hrun]
    dsimp only
    rw [h.flags, flagsOf_whenRun]
    simp [hcalled, isCalled_unique (ascii "given") hcalled (by decide),
      isCalled_unique (ascii "expectOutput") hcalled (by decide),
      isCalled_unique (ascii "shouldBeSkipped") hcalled (by decide)]
  · have hadded : test'.flags = test.flags ||| testFlagHasThen := by
      rcases expectOutput_flags hrun with hadded | ⟨rfl, stream, hsome⟩
      · exact hadded
      · rw [h.flags, flagsOf_expectOutput, h.expected stream hsome]
    rw [hadded, h.flags, flagsOf_expectOutput]
    simp [hcalled, isCalled_unique (ascii "given") hcalled (by decide),
      isCalled_unique (ascii "whenRun") hcalled (by decide),
      isCalled_unique (ascii "shouldBeSkipped") hcalled (by decide)]
  · dsimp only
    rw [h.flags, flagsOf_shouldBeSkipped]
    simp [hcalled, isCalled_unique (ascii "given") hcalled (by decide),
      isCalled_unique (ascii "whenRun") hcalled (by decide),
      isCalled_unique (ascii "expectOutput") hcalled (by decide)]

/-- What a handler establishes. -/
theorem ProgramRunnerTest.CompiledFrom.step {done : List AstRequirement}
    (h : test.CompiledFrom done) (hstep : compileRequirement test requirement = .ok test') :
    test'.CompiledFrom (done ++ [requirement]) := by
  constructor
  · rw [compileRequirement_name hstep]
    exact h.name
  · exact h.flags_step hstep
  · exact compileRequirement_given h.given hstep
  · intro hdone
    rcases compileRequirement_program hstep with ⟨-, hchecked⟩ | ⟨hcalled, hpath, hargs⟩
    · exact hchecked
    · have hold : done.any (·.isCalled (ascii "whenRun")) = true := by simpa [hcalled] using hdone
      constructor
      · rw [hpath]
        exact (h.program hold).program
      · rw [hargs]
        exact (h.program hold).args
  · intro stream hsome
    rw [List.any_append, Bool.or_eq_true]
    apply Or.imp _ _ (compileRequirement_expected_isSome hstep hsome)
    · exact h.expected stream
    · intro hcalled
      rw [List.any_cons, hcalled, Bool.true_or]

theorem testArgumentsCompiler_name {astTest : AstTest}
    (h : testArgumentsCompiler test astTest = .ok test') :
    ∃ name, name ≠ [] ∧ test'.name = some name := by
  obtain ⟨name, -, h⟩ := except_bind_eq_ok h
  cases name with
  | none => cases h
  | some name =>
      obtain ⟨hlength, h⟩ := testFatal_check_iff.mp h
      cases h
      exact ⟨name, mt List.length_eq_zero_iff.mpr hlength, rfl⟩

theorem testArgumentsCompiler_compiledFrom {astTest : AstTest}
    (h : testArgumentsCompiler makeProgramRunnerTest astTest = .ok test) :
    test.CompiledFrom [] := by
  have hchanges := testArgumentsCompiler_changes h
  constructor
  · exact testArgumentsCompiler_name h
  · rw [hchanges]
    rfl
  · rw [hchanges]
    exact ⟨Or.inl rfl, by simp [makeProgramRunnerTest, givenTypeReference],
      by simp [makeProgramRunnerTest, givenTypeFile]⟩
  · intro hdone
    cases hdone
  · intro stream hsome
    rw [hchanges] at hsome
    cases stream <;> cases hsome

/-- The arguments of the program have a placeholder for the given file. -/
def ProgramRunnerTest.substitutesFile (test : ProgramRunnerTest) : Bool :=
  (test.programArgs.map fun args => strstr (cstr args) filePlaceholder) = some true

theorem findAstRequirementByName_eq_some {astTest : AstTest} {name : Bytes}
    (h : findAstRequirementByName astTest name = some requirement) :
    requirement ∈ astTest.requirements ∧ requirement.name = name := by
  refine ⟨List.mem_of_find?_eq_some h, ?_⟩
  have hequal := List.find?_some h
  rw [Bool.and_eq_true, beq_iff_eq, memcmpEq, beq_iff_eq] at hequal
  calc requirement.name
      = requirement.name.take requirement.name.length := List.take_length.symm
    _ = requirement.name.take name.length := by rw [hequal.1]
    _ = name.take name.length := hequal.2
    _ = name := List.take_length

/-- A compiled test is the one the handlers left behind, checked once more and marked if it
lacks a part. -/
theorem compileTest_compiledFrom {astTest : AstTest} (h : compileTest astTest = .ok test) :
    ∃ compiled : ProgramRunnerTest, compiled.CompiledFrom astTest.requirements ∧
      astTest.requirements.any (·.isCalled (ascii "whenRun")) = true ∧
      (compiled.substitutesFile = true →
        compiled.givenType ≠ givenTypeNone ∧ compiled.givenType ≠ givenTypeStdin) ∧
      test = { compiled with flags :=
        if compiled.flags &&& testCompleteMask ≠ testCompleteMask then
          compiled.flags ||| testFlagIncomplete
        else compiled.flags } := by
  obtain ⟨hfound, h⟩ := testFatal_check_iff.mp h
  obtain ⟨compiled, hcompiled, h⟩ := except_bind_eq_ok h
  obtain ⟨named, hnamed, hcompiled⟩ := except_bind_eq_ok hcompiled
  obtain ⟨handled, hhandled, hcompiled⟩ := except_bind_eq_ok hcompiled
  split at hcompiled
  · cases hcompiled
  rename_i hplaceholder
  cases hcompiled
  refine ⟨compiled, ?_, ?_, ?_, ?_⟩
  · have hall := foldlM_prefix (P := fun done test => test.CompiledFrom done)
      (fun done test requirement test' hdone hstep => hdone.step hstep)
      (testArgumentsCompiler_compiledFrom hnamed) hhandled
    rwa [List.nil_append] at hall
  · obtain ⟨requirement, hrequirement⟩ := Option.ne_none_iff_exists'.mp (by simpa using hfound)
    obtain ⟨hmem, hname⟩ := findAstRequirementByName_eq_some hrequirement
    apply List.any_eq_true.mpr
    refine ⟨requirement, hmem, ?_⟩
    rw [AstRequirement.isCalled, hname]
    decide
  · intro hsubstitutes
    rw [not_and, not_or] at hplaceholder
    exact hplaceholder (of_decide_eq_true hsubstitutes)
  · split at h
    · rename_i hmask
      cases h
      rw [if_pos hmask]
    · rename_i hmask
      cases h
      rw [if_neg hmask]

/-- The marked flags of a test with a `whenRun`. -/
theorem markedFlags_incomplete (given expectOutput shouldBeSkipped : Bool) :
    ((if flagsOf given true expectOutput shouldBeSkipped &&& testCompleteMask ≠ testCompleteMask
      then flagsOf given true expectOutput shouldBeSkipped ||| testFlagIncomplete
      else flagsOf given true expectOutput shouldBeSkipped) &&& testFlagIncomplete ≠ 0) ↔
    given = false ∨ expectOutput = false := by
  revert given expectOutput shouldBeSkipped
  decide

/-- A requirement with this name, as the parser has read it. -/
def AstTest.has (astTest : AstTest) (name : Bytes) : Prop :=
  ∃ requirement ∈ astTest.requirements, requirement.name = name

theorem AstTest.Named.any_isCalled {astTest : AstTest} (h : astTest.Named) {name : Bytes} :
    astTest.requirements.any (·.isCalled name) = true ↔ astTest.has name := by
  have hsame : ∀ requirement ∈ astTest.requirements,
      requirement.isCalled name = true ↔ requirement.name = name := by
    intro requirement hmem
    have hnul : 0 ∉ requirement.name := by
      intro hzero
      exact absurd (h requirement hmem 0 hzero) (by decide)
    rw [AstRequirement.isCalled, strcmpEq, beq_iff_eq, cstr_eq_self_iff.mpr hnul]
    exact eq_comm
  rw [List.any_eq_true]
  constructor
  · rintro ⟨requirement, hmem, hcalled⟩
    exact ⟨requirement, hmem, (hsame requirement hmem).mp hcalled⟩
  · rintro ⟨requirement, hmem, hname⟩
    exact ⟨requirement, hmem, (hsame requirement hmem).mpr hname⟩

end JCUnit
