import JCUnit.Foundation.StateError
import JCUnit.Frontend.Parser

/-!
# The length of a content

Whatever the bytes of a file are, a content that is parsed has left room in the
buffer of `parse_requirement`.
-/

namespace JCUnit

open StateError

variable {s s' : TokenizerContext}

/-- Each round takes one place of the room and adds one character; the last one adds none. -/
theorem parseContentLoop_length {room : Nat} {buffer : Bytes} {lastCh : Byte}
    {result : Bytes × Byte} (h : parseContentLoop room buffer lastCh s = .ok result s') :
    result.1.length < buffer.length + room := by
  induction room generalizing buffer lastCh s with
  | zero => cases h
  | succ room ih =>
      unfold parseContentLoop at h
      obtain ⟨token, s₁, -, h⟩ := bind_eq_ok h
      split at h
      · cases h
      split at h
      · obtain ⟨_, s₂, -, h⟩ := bind_eq_ok h
        cases (pure_eq_ok.mp h).1
        dsimp only
        omega
      · have hshort := ih h
        rw [List.length_append, List.length_singleton] at hshort
        omega

/-- The content, if there is one, is shorter than the buffer of `parse_requirement`. -/
def AstRequirement.ContentFits (requirement : AstRequirement) : Prop :=
  ∀ content ∈ requirement.content, content.length < maxRequirementContentSize

/-- The newline at the end of a content may be dropped, which only makes it shorter. -/
theorem parseRequirement_contentFits {requirement : AstRequirement}
    (h : parseRequirement s = .ok requirement s') : requirement.ContentFits := by
  obtain ⟨directive, s₁, -, h⟩ := bind_eq_ok h
  obtain ⟨token, s₂, -, h⟩ := bind_eq_ok h
  intro content hcontent
  split at h
  · cases (pure_eq_ok.mp h).1
    cases hcontent
  · obtain ⟨context, s₃, -, h⟩ := bind_eq_ok h
    obtain ⟨_, s₄, -, h⟩ := bind_eq_ok h
    obtain ⟨⟨buffer, lastCh⟩, s₅, hloop, h⟩ := bind_eq_ok h
    obtain ⟨_, s₆, -, h⟩ := bind_eq_ok h
    cases (pure_eq_ok.mp h).1
    cases hcontent
    have hlength := parseContentLoop_length hloop
    rw [List.length_nil, Nat.zero_add] at hlength
    exact Nat.lt_of_le_of_lt (List.length_take_le' _ _) hlength

/-- The requirements found so far fit, and so does the next one. -/
theorem parseRequirementListLoop_contentFits {room : Nat} {requirements result : List AstRequirement}
    (hfits : ∀ requirement ∈ requirements, requirement.ContentFits)
    (h : parseRequirementListLoop room requirements s = .ok result s') :
    ∀ requirement ∈ result, requirement.ContentFits := by
  induction room generalizing requirements s with
  | zero =>
      unfold parseRequirementListLoop at h
      obtain ⟨token, s₁, -, h⟩ := bind_eq_ok h
      split at h
      · cases (pure_eq_ok.mp h).1
        exact hfits
      · cases h
  | succ room ih =>
      unfold parseRequirementListLoop at h
      obtain ⟨token, s₁, -, h⟩ := bind_eq_ok h
      split at h
      · cases (pure_eq_ok.mp h).1
        exact hfits
      · obtain ⟨requirement, s₂, hrequirement, h⟩ := bind_eq_ok h
        apply ih ?_ h
        intro other hother
        cases List.mem_append.mp hother with
        | inl hold => exact hfits other hold
        | inr hnew =>
            rw [List.mem_singleton.mp hnew]
            exact parseRequirement_contentFits hrequirement

theorem parseRequirementList_contentFits {requirements : List AstRequirement}
    (h : parseRequirementList s = .ok requirements s') :
    ∀ requirement ∈ requirements, requirement.ContentFits := by
  obtain ⟨token, s₁, -, h⟩ := bind_eq_ok h
  split at h
  · cases h
  · obtain ⟨_, s₂, -, h⟩ := bind_eq_ok h
    apply parseRequirementListLoop_contentFits ?_ h
    intro requirement hmem
    cases hmem

/-- The contents of all requirements fit. -/
def AstTest.ContentsFit (test : AstTest) : Prop :=
  ∀ requirement ∈ test.requirements, requirement.ContentFits

theorem parseTest_contentsFit {test : AstTest} (h : parseTest s = .ok test s') :
    test.ContentsFit := by
  obtain ⟨arguments, s₁, -, h⟩ := bind_eq_ok h
  obtain ⟨_, s₂, -, h⟩ := bind_eq_ok h
  obtain ⟨requirements, s₃, hrequirements, h⟩ := bind_eq_ok h
  obtain ⟨_, s₄, -, h⟩ := bind_eq_ok h
  obtain ⟨_, s₅, -, h⟩ := bind_eq_ok h
  cases (pure_eq_ok.mp h).1
  exact parseRequirementList_contentFits hrequirements

/-- By induction on the rounds; the tests found so far fit, and so does the next one. -/
theorem parseTestSuiteLoop_contentsFit {rounds : Nat} {token : Token} {tests result : List AstTest}
    (hfit : ∀ test ∈ tests, test.ContentsFit)
    (h : parseTestSuiteLoop rounds token tests s = .ok result s') :
    ∀ test ∈ result, test.ContentsFit := by
  induction rounds generalizing token tests s with
  | zero => cases h
  | succ rounds ih =>
      unfold parseTestSuiteLoop at h
      split at h
      · cases (pure_eq_ok.mp h).1
        exact hfit
      split at h
      · obtain ⟨context, s₁, -, h⟩ := bind_eq_ok h
        obtain ⟨next, s₂, -, h⟩ := bind_eq_ok h
        exact ih hfit h
      · obtain ⟨test, s₁, htest, h⟩ := bind_eq_ok h
        obtain ⟨next, s₂, -, h⟩ := bind_eq_ok h
        apply ih ?_ h
        intro other hother
        cases List.mem_append.mp hother with
        | inl hold => exact hfit other hold
        | inr hnew =>
            rw [List.mem_singleton.mp hnew]
            exact parseTest_contentsFit htest

/-- Every content of a parsed file is shorter than the buffer. -/
theorem parseTestSuite_contentsFit {source : Bytes} {tests : List AstTest}
    (h : parseTestSuite source = .ok tests) : ∀ test ∈ tests, test.ContentsFit := by
  unfold parseTestSuite at h
  cases hrun : parseTestSuiteM (initTokenizerContext source) with
  | error halt s' =>
      rw [hrun] at h
      cases h
  | ok result s' =>
      rw [hrun] at h
      cases h
      obtain ⟨token, s₁, -, hrun⟩ := bind_eq_ok hrun
      obtain ⟨context, s₂, -, hrun⟩ := bind_eq_ok hrun
      apply parseTestSuiteLoop_contentsFit ?_ hrun
      intro test hmem
      cases hmem

end JCUnit
