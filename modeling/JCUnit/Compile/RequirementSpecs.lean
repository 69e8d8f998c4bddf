import JCUnit.Compile.Compiler
import JCUnit.Foundation.StateError

/-!
# What the handlers of the requirements change

One statement for each handler: the fields it may set, and the flag it adds. All
other fields of the test stay as they are.
-/

namespace JCUnit

open StateError

theorem stringEqualsWithCstring_iff {source dest : Bytes} :
    stringEqualsWithCstring source dest = true ↔ source = dest := by
  rw [stringEqualsWithCstring, memcmpEq, Bool.and_eq_true, beq_iff_eq, beq_iff_eq, List.take_length]
  constructor
  · rintro ⟨hlength, htake⟩
    rwa [← hlength, List.take_length] at htake
  · rintro rfl
    exact ⟨rfl, List.take_length⟩

/-- A compiler that ends well has passed each of its checks. -/
theorem testFatal_check_iff {α : Type} {p : Prop} [Decidable p] {message : Bytes}
    {x : Except Halt α} {a : α} :
    (if p then testFatal message else x) = .ok a ↔ ¬ p ∧ x = .ok a := by
  constructor
  · intro h
    split at h
    · cases h
    · rename_i hpassed
      exact ⟨hpassed, h⟩
  · rintro ⟨hpassed, h⟩
    rwa [if_neg hpassed]

variable {requirement : AstRequirement} {test test' : ProgramRunnerTest}

/-- The types of a `given`, what each asks of the arguments, and what the handler sets for it. -/
inductive GivenCompiled (requirement : AstRequirement) (test : ProgramRunnerTest) :
    GivenArguments → ProgramRunnerTest → Prop
  | none : GivenCompiled requirement test ⟨some (ascii "none"), none, none⟩
      { test with givenType := givenTypeNone, flags := test.flags ||| testFlagHasGiven }
  | reference {path : Bytes} (hpath : path ≠ []) :
      GivenCompiled requirement test ⟨some (ascii "reference"), none, some path⟩
        { test with
          givenType := givenTypeReference
          givenPath := some path
          flags := test.flags ||| testFlagHasGiven }
  | stdin : GivenCompiled requirement test ⟨some (ascii "stdin"), none, none⟩
      { test with
        givenType := givenTypeStdin
        givenFileContent := requirement.content
        flags := test.flags ||| testFlagHasGiven }
  | file {filename : Option Bytes} (hfilename : ∀ f ∈ filename, f ≠ [] ∧ 47 ∉ cstr f) :
      GivenCompiled requirement test ⟨some (ascii "file"), filename, none⟩
        { test with
          givenType := givenTypeFile
          givenFileContent := requirement.content
          givenFilename := filename
          flags := test.flags ||| testFlagHasGiven }

theorem given_cases (h : givenTestRequirementCompiler requirement test = .ok test') :
    ∃ given, givenArgumentsLoop requirement.arguments ⟨none, none, none⟩ = .ok given ∧
      GivenCompiled requirement test given test' := by
  obtain ⟨⟨givenType, filename, path⟩, hloop, h⟩ := except_bind_eq_ok h
  refine ⟨_, hloop, ?_⟩
  cases givenType with
  | none => cases h
  | some givenType =>
      simp only [stringEqualsWithCstring_iff] at h
      obtain ⟨-, htyped⟩ := testFatal_check_iff.mp h
      split at htyped
      case isTrue htype =>
        obtain rfl := htype
        simp only [testFatal_check_iff] at htyped
        obtain ⟨hfilename, hpath, -, htest⟩ := htyped
        obtain rfl := Option.not_isSome_iff_eq_none.mp hfilename
        obtain rfl := Option.not_isSome_iff_eq_none.mp hpath
        cases htest
        exact .none
      split at htyped
      case isTrue htype =>
        obtain rfl := htype
        simp only [testFatal_check_iff] at htyped
        obtain ⟨hpath, hfilename, -, htest⟩ := htyped
        obtain rfl := Option.not_isSome_iff_eq_none.mp hfilename
        cases htest
        cases path with
        | none => exact absurd rfl hpath
        | some path => exact .reference hpath
      split at htyped
      case isTrue htype =>
        obtain rfl := htype
        simp only [testFatal_check_iff] at htyped
        obtain ⟨hfilename, hpath, htest⟩ := htyped
        obtain rfl := Option.not_isSome_iff_eq_none.mp hfilename
        obtain rfl := Option.not_isSome_iff_eq_none.mp hpath
        cases htest
        exact .stdin
      simp only [testFatal_check_iff] at htyped
      obtain ⟨htype, hpath, hempty, hslash, htest⟩ := htyped
      rw [Bool.not_eq_true', Bool.not_eq_false, stringEqualsWithCstring_iff] at htype
      obtain rfl := htype
      obtain rfl := Option.not_isSome_iff_eq_none.mp hpath
      cases htest
      apply GivenCompiled.file
      rintro f hf
      obtain rfl := Option.mem_def.mp hf
      constructor
      · rintro rfl
        exact hempty rfl
      · simpa using hslash

theorem given_changes (h : givenTestRequirementCompiler requirement test = .ok test') :
    test' = { test with
      givenType := test'.givenType
      givenFilename := test'.givenFilename
      givenFileContent := test'.givenFileContent
      givenPath := test'.givenPath
      flags := test.flags ||| testFlagHasGiven } := by
  obtain ⟨given, -, hgiven⟩ := given_cases h
  cases hgiven with
  | none => rfl
  | reference hpath => rfl
  | stdin => rfl
  | file hfilename => rfl

theorem whenRun_changes (h : whenRunRequirementCompiler requirement test = .ok test') :
    test' = { test with
      programPath := test'.programPath
      programArgs := test'.programArgs
      flags := test.flags ||| testFlagHasWhen } := by
  obtain ⟨-, h⟩ := testFatal_check_iff.mp h
  obtain ⟨found, -, h⟩ := except_bind_eq_ok h
  cases hprogram : found.program with
  | none =>
      rw [hprogram] at h
      cases h
  | some program =>
      rw [hprogram] at h
      obtain ⟨-, h⟩ := testFatal_check_iff.mp h
      obtain ⟨-, h⟩ := testFatal_check_iff.mp h
      cases h
      rfl

theorem expectOutputStream_known {code : StreamCode}
    (h : expectOutputStream requirement = .ok code) : code = .stdout ∨ code = .stderr := by
  unfold expectOutputStream at h
  cases harguments : requirement.arguments with
  | nil =>
      rw [harguments] at h
      cases h
  | cons argument arguments =>
      rw [harguments] at h
      obtain ⟨-, h⟩ := testFatal_check_iff.mp h
      obtain ⟨-, h⟩ := testFatal_check_iff.mp h
      obtain ⟨hknown, h⟩ := testFatal_check_iff.mp h
      cases h
      cases hcode : resolveStreamCodeByName argument.value with
      | unknown => exact absurd hcode hknown
      | stdout => exact Or.inl rfl
      | stderr => exact Or.inr rfl

/-- An expectation is set only for a stream that has none. -/
theorem expectOutput_stdout (hstream : expectOutputStream requirement = .ok .stdout) :
    expectOutputRequirementCompiler requirement test =
      .ok (if test.expectedStdout.isSome then test else { test with
        expectedStdout := requirement.content
        flags := test.flags ||| testFlagHasThen }) := by
  unfold expectOutputRequirementCompiler
  rw [hstream]
  cases test.expectedStdout <;> rfl

theorem expectOutput_stderr (hstream : expectOutputStream requirement = .ok .stderr) :
    expectOutputRequirementCompiler requirement test =
      .ok (if test.expectedStderr.isSome then test else { test with
        expectedStderr := requirement.content
        flags := test.flags ||| testFlagHasThen }) := by
  unfold expectOutputRequirementCompiler
  rw [hstream]
  cases test.expectedStderr <;> rfl

theorem expectOutput_changes (h : expectOutputRequirementCompiler requirement test = .ok test') :
    test' = { test with
      expectedStdout := test'.expectedStdout
      expectedStderr := test'.expectedStderr
      flags := test'.flags } := by
  obtain ⟨code, hcode, -⟩ := except_bind_eq_ok h
  obtain rfl | rfl := expectOutputStream_known hcode
  · rw [expectOutput_stdout hcode] at h
    cases h
    split <;> rfl
  · rw [expectOutput_stderr hcode] at h
    cases h
    split <;> rfl

theorem compileRequirement_kind (h : compileRequirement test requirement = .ok test') :
    test'.kind = test.kind := by
  unfold compileRequirement resolveTestRequirementCompiler at h
  split at h
  · rw [given_changes h]
  split at h
  · rw [whenRun_changes h]
  split at h
  · rw [expectOutput_changes h]
  split at h
  · cases h
    rfl
  · cases h

theorem testArgumentsCompiler_changes {astTest : AstTest}
    (h : testArgumentsCompiler test astTest = .ok test') :
    test' = { test with name := test'.name } := by
  obtain ⟨name, -, h⟩ := except_bind_eq_ok h
  cases name with
  | none => cases h
  | some name =>
      obtain ⟨-, h⟩ := testFatal_check_iff.mp h
      cases h
      rfl

/-- Every compiled test is a program-runner test. -/
theorem compileTest_kind {astTest : AstTest} (h : compileTest astTest = .ok test) :
    test.kind = testKindProgramRunner := by
  obtain ⟨-, h⟩ := testFatal_check_iff.mp h
  obtain ⟨compiled, hcompiled, h⟩ := except_bind_eq_ok h
  have hsame : test.kind = compiled.kind := by
    split at h <;> cases h <;> rfl
  obtain ⟨named, hnamed, hcompiled⟩ := except_bind_eq_ok hcompiled
  obtain ⟨test₂, hrequirements, hcompiled⟩ := except_bind_eq_ok hcompiled
  have hkept : compiled.kind = test₂.kind := by
    split at hcompiled <;> cases hcompiled
    rfl
  calc test.kind
      = test₂.kind := hsame.trans hkept
    _ = named.kind := by
        apply foldlM_invariant (P := fun t => t.kind = named.kind) ?_ rfl hrequirements
        intro t requirement t' ht hstep
        exact (compileRequirement_kind hstep).trans ht
    _ = testKindProgramRunner := by
        rw [testArgumentsCompiler_changes hnamed]
        rfl

theorem compileTestSuite_kinds {filename : CString} {file : Option Bytes} {suite : TestSuite}
    (h : compileTestSuite filename file = .ok suite) :
    ∀ test ∈ suite.tests, test.kind = testKindProgramRunner := by
  cases file with
  | none => cases h
  | some contents =>
      obtain ⟨astTests, -, h⟩ := except_bind_eq_ok h
      obtain ⟨tests, hmap, h⟩ := except_bind_eq_ok h
      cases h
      exact mapM_results (fun _ _ => compileTest_kind) hmap

end JCUnit
