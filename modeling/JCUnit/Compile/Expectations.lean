import JCUnit.Compile.RequirementSpecs

/-!
# The expectations of a compiled test

A test expects on a stream what the first `expectOutput` with a content says. One
without a content leaves the stream without an expectation.
-/

namespace JCUnit

open StateError

def Stream.code : Stream → StreamCode
  | .stdout => .stdout
  | .stderr => .stderr

/-- An `expectOutput` for this stream. -/
def AstRequirement.expects (requirement : AstRequirement) (stream : Stream) : Prop :=
  strcmpEq (ascii "expectOutput") requirement.name = true ∧
    expectOutputStream requirement = .ok stream.code

instance (requirement : AstRequirement) (stream : Stream) : Decidable (requirement.expects stream) :=
  inferInstanceAs (Decidable (_ ∧ _))

/-- The contents of the test's `expectOutput` requirements for a stream, in order. -/
def AstTest.expectations (astTest : AstTest) (stream : Stream) : List (Option Bytes) :=
  (astTest.requirements.filter fun requirement => requirement.expects stream).map
    AstRequirement.content

/-- What the first `expectOutput` for the stream declares; without a content it is no output. -/
def AstTest.firstExpectation (astTest : AstTest) (stream : Stream) : Bytes :=
  (astTest.expectations stream).head?.join.getD []

variable {requirement : AstRequirement} {test test' : ProgramRunnerTest} {stream : Stream}

theorem expectOutput_expected (hstream : expectOutputStream requirement = .ok stream.code)
    (h : expectOutputRequirementCompiler requirement test = .ok test') :
    test'.expected stream = (test.expected stream).or requirement.content := by
  cases stream with
  | stdout =>
      rw [expectOutput_stdout hstream] at h
      cases h
      unfold ProgramRunnerTest.expected
      cases hexpected : test.expectedStdout <;> simp [hexpected]
  | stderr =>
      rw [expectOutput_stderr hstream] at h
      cases h
      unfold ProgramRunnerTest.expected
      cases hexpected : test.expectedStderr <;> simp [hexpected]

theorem expectOutput_other (hstream : expectOutputStream requirement ≠ .ok stream.code)
    (h : expectOutputRequirementCompiler requirement test = .ok test') :
    test'.expected stream = test.expected stream := by
  obtain ⟨code, hcode, -⟩ := except_bind_eq_ok h
  obtain rfl | rfl := expectOutputStream_known hcode
  · cases stream with
    | stdout => exact absurd hcode hstream
    | stderr =>
        rw [expectOutput_stdout hcode] at h
        cases h
        split <;> rfl
  · cases stream with
    | stderr => exact absurd hcode hstream
    | stdout =>
        rw [expectOutput_stderr hcode] at h
        cases h
        split <;> rfl

theorem strcmpEq_unique {name other value : Bytes} (h : strcmpEq name value = true)
    (hother : strcmpEq other value = true) : name = other :=
  (eq_of_beq h).trans (eq_of_beq hother).symm

/-- A requirement sets the expectation of its stream if there is none. -/
theorem compileRequirement_expected (h : compileRequirement test requirement = .ok test') :
    test'.expected stream =
      (test.expected stream).or (if requirement.expects stream then requirement.content else none) := by
  have hkept : ∀ other, other ≠ ascii "expectOutput" → strcmpEq other requirement.name = true →
      ¬ requirement.expects stream := by
    intro other hdiffers hname hexpects
    exact hdiffers (strcmpEq_unique hname hexpects.1)
  unfold compileRequirement resolveTestRequirementCompiler at h
  split at h
  case isTrue hname =>
    rw [if_neg (hkept _ (by decide) hname), given_changes h]
    cases stream <;> simp [ProgramRunnerTest.expected]
  split at h
  case isTrue hname =>
    rw [if_neg (hkept _ (by decide) hname), whenRun_changes h]
    cases stream <;> simp [ProgramRunnerTest.expected]
  split at h
  case isTrue hname =>
    by_cases hstream : expectOutputStream requirement = .ok stream.code
    · rw [if_pos ⟨hname, hstream⟩]
      exact expectOutput_expected hstream h
    · rw [if_neg fun hexpects => hstream hexpects.2, expectOutput_other hstream h]
      simp
  split at h
  case isTrue hname =>
    rw [if_neg (hkept _ (by decide) hname)]
    cases h
    cases stream <;> simp [ProgramRunnerTest.expected]
  · cases h

theorem foldlM_compileRequirement_expected {requirements : List AstRequirement}
    (h : requirements.foldlM compileRequirement test = .ok test') :
    test'.expected stream = (test.expected stream).or
      (((requirements.filter fun requirement => requirement.expects stream).map
        AstRequirement.content).findSome? id) := by
  induction requirements generalizing test with
  | nil =>
      cases h
      simp
  | cons requirement requirements ih =>
      rw [List.foldlM_cons] at h
      obtain ⟨next, hnext, h⟩ := except_bind_eq_ok h
      rw [ih h, compileRequirement_expected hnext, Option.or_assoc]
      congr 1
      by_cases hexpects : requirement.expects stream
      · cases hcontent : requirement.content <;> simp [hexpects, hcontent]
      · simp [hexpects]

/-- The expectation of a compiled test is the first content that is declared. -/
theorem compileTest_expected {astTest : AstTest} (h : compileTest astTest = .ok test)
    (stream : Stream) : test.expected stream = (astTest.expectations stream).findSome? id := by
  unfold compileTest at h
  split at h
  · cases h
  obtain ⟨compiled, hcompiled, h⟩ := except_bind_eq_ok h
  have hsame : test.expected stream = compiled.expected stream := by
    split at h <;> cases h <;> cases stream <;> rfl
  obtain ⟨named, hnamed, hcompiled⟩ := except_bind_eq_ok hcompiled
  obtain ⟨test₂, hrequirements, hcompiled⟩ := except_bind_eq_ok hcompiled
  have hchecked : compiled = test₂ := by
    split at hcompiled <;> cases hcompiled
    rfl
  have hnone : named.expected stream = none := by
    rw [testArgumentsCompiler_changes hnamed]
    cases stream <;> rfl
  rw [hsame, hchecked, foldlM_compileRequirement_expected hrequirements, hnone, Option.none_or]
  rfl

end JCUnit
