import JCUnit.Compile.RequirementEffects
import JCUnit.Foundation.ExchangedSteps

/-!
# The order of the requirements

Requirements that do not set the same part of a test have effects that can be exchanged, so
they may be written in any order.
-/

namespace JCUnit

open StateError

/-- The two requirements set the same part of a test. -/
def AstRequirement.Clashes (requirement other : AstRequirement) : Prop :=
  (requirement.isCalled (ascii "given") = true ∧ other.isCalled (ascii "given") = true) ∨
    (requirement.isCalled (ascii "whenRun") = true ∧ other.isCalled (ascii "whenRun") = true) ∨
    ∃ stream, requirement.expects stream ∧ other.expects stream

variable {requirement other : AstRequirement} {astTest : AstTest} {test : ProgramRunnerTest}

theorem AstRequirement.Clashes.symm (h : requirement.Clashes other) : other.Clashes requirement :=
  h.imp And.symm (Or.imp And.symm fun ⟨stream, hboth⟩ => ⟨stream, hboth.symm⟩)

theorem apart_of_not_clashes {e e' : RequirementEffect} (he : e.Of requirement)
    (he' : e'.Of other) (h : ¬requirement.Clashes other) : e.Apart e' := by
  cases e <;> cases e' <;> try exact trivial
  · exact h (.inl ⟨he, he'⟩)
  · exact h (.inr (.inl ⟨he, he'⟩))
  · rintro rfl
    exact h (.inr (.inr ⟨_, he, he'⟩))

/-- Requirements that do not clash can be exchanged. -/
theorem compileRequirement_exchange (h : ¬requirement.Clashes other) (test : ProgramRunnerTest) :
    SameValue (compileRequirement test requirement >>= fun test' => compileRequirement test' other)
      (compileRequirement test other >>= fun test' => compileRequirement test' requirement) := by
  cases compileRequirement_uniform test.name requirement with
  | fails message hfails =>
      cases compileRequirement_uniform test.name other with
      | fails message' hfails' =>
          rw [hfails test rfl, hfails' test rfl]
          exact .error _ _
      | applies e' _ happlies' =>
          rw [hfails test rfl, happlies' test rfl]
          change SameValue _ (compileRequirement (e'.apply test) requirement)
          rw [hfails _ e'.apply_name]
          exact .error _ _
  | applies e hof happlies =>
      cases compileRequirement_uniform test.name other with
      | fails message' hfails' =>
          rw [happlies test rfl, hfails' test rfl]
          change SameValue (compileRequirement (e.apply test) other) _
          rw [hfails' _ e.apply_name]
          exact .error _ _
      | applies e' hof' happlies' =>
          rw [happlies test rfl, happlies' test rfl]
          change SameValue (compileRequirement (e.apply test) other)
            (compileRequirement (e'.apply test) requirement)
          rw [happlies' _ e.apply_name, happlies _ e'.apply_name,
            (apart_of_not_clashes hof hof' h).comm test]
          exact .ok _

theorem compileRequirement_fatal {halt : Halt}
    (h : compileRequirement test requirement = .error halt) :
    ∃ message, halt = fatalError message := by
  cases compileRequirement_uniform test.name requirement with
  | fails message hfails =>
      rw [hfails test rfl] at h
      exact ⟨message, (Except.error.inj h).symm⟩
  | applies e _ happlies =>
      rw [happlies test rfl] at h
      cases h

theorem foldlM_compileRequirement_fatal {requirements : List AstRequirement} {halt : Halt}
    (h : requirements.foldlM compileRequirement test = .error halt) :
    ∃ message, halt = fatalError message := by
  induction requirements generalizing test with
  | nil => cases h
  | cons requirement requirements ih =>
      rw [List.foldlM_cons] at h
      cases hstep : compileRequirement test requirement with
      | error halt' =>
          rw [hstep] at h
          obtain rfl := Except.error.inj h
          exact compileRequirement_fatal hstep
      | ok test' =>
          rw [hstep] at h
          exact ih h

theorem testArgumentsLoop_fatal {arguments : List AstArgument} {name : Option Bytes} {halt : Halt}
    (h : testArgumentsLoop arguments name = .error halt) : ∃ message, halt = fatalError message := by
  induction arguments generalizing name with
  | nil => cases h
  | cons argument arguments ih =>
      rw [testArgumentsLoop] at h
      split at h
      · exact ih h
      split at h
      · split at h
        · exact ⟨_, (Except.error.inj h).symm⟩
        · exact ih h
      · exact ⟨_, (Except.error.inj h).symm⟩

theorem testArgumentsCompiler_fatal {halt : Halt}
    (h : testArgumentsCompiler test astTest = .error halt) :
    ∃ message, halt = fatalError message := by
  unfold testArgumentsCompiler at h
  cases hloop : testArgumentsLoop astTest.arguments none with
  | error halt' =>
      rw [hloop] at h
      obtain rfl := Except.error.inj h
      exact testArgumentsLoop_fatal hloop
  | ok name =>
      rw [hloop] at h
      cases name with
      | none => exact ⟨_, (Except.error.inj h).symm⟩
      | some name =>
          simp only [bind, Except.bind] at h
          split at h
          · exact ⟨_, (Except.error.inj h).symm⟩
          · cases h

/-- A test that is not compiled ends in a fatal error. -/
theorem compileTest_fatal {halt : Halt} (h : compileTest astTest = .error halt) :
    ∃ message, compileTest astTest = testFatal message := by
  rw [h]
  suffices hfatal : ∃ message, halt = fatalError message by
    obtain ⟨message, rfl⟩ := hfatal
    exact ⟨message, rfl⟩
  unfold compileTest programRunnerTestCompiler at h
  split at h
  · exact ⟨_, (Except.error.inj h).symm⟩
  cases harguments : testArgumentsCompiler makeProgramRunnerTest astTest with
  | error halt' =>
      rw [harguments] at h
      obtain rfl := Except.error.inj h
      exact testArgumentsCompiler_fatal harguments
  | ok named =>
      rw [harguments] at h
      simp only [bind, Except.bind] at h
      cases hfold : astTest.requirements.foldlM compileRequirement named with
      | error halt' =>
          rw [hfold] at h
          obtain rfl := Except.error.inj h
          exact foldlM_compileRequirement_fatal hfold
      | ok compiled =>
          rw [hfold] at h
          dsimp only at h
          by_cases hplaceholder : (compiled.programArgs.map fun args =>
              strstr (cstr args) filePlaceholder) = some true ∧
              (compiled.givenType = givenTypeNone ∨ compiled.givenType = givenTypeStdin)
          · rw [if_pos hplaceholder] at h
            exact ⟨_, (Except.error.inj h).symm⟩
          · rw [if_neg hplaceholder] at h
            dsimp only [pure, Except.pure] at h
            split at h <;> cases h

theorem findAstRequirementByName_perm {requirements : List AstRequirement}
    (hperm : astTest.requirements.Perm requirements) (name : Bytes) :
    (findAstRequirementByName { astTest with requirements } name).isNone =
      (findAstRequirementByName astTest name).isNone := by
  unfold findAstRequirementByName
  rw [Bool.eq_iff_iff, Option.isNone_iff_eq_none, Option.isNone_iff_eq_none,
    List.find?_eq_none, List.find?_eq_none]
  constructor
  · intro h requirement hmem
    exact h requirement (hperm.mem_iff.mp hmem)
  · intro h requirement hmem
    exact h requirement (hperm.mem_iff.mpr hmem)

theorem compileTest_perm {requirements : List AstRequirement}
    (hperm : astTest.requirements.Perm requirements)
    (hdistinct : astTest.requirements.Pairwise fun a b => ¬a.Clashes b) :
    SameValue (compileTest astTest) (compileTest { astTest with requirements }) := by
  unfold compileTest
  rw [findAstRequirementByName_perm hperm]
  split
  · exact .error _ _
  · apply SameValue.bind
    · apply (SameValue.refl (testArgumentsCompiler makeProgramRunnerTest astTest)).bind
      intro named
      have hfold : SameValue (astTest.requirements.foldlM compileRequirement named)
          (requirements.foldlM compileRequirement named) := by
        apply foldlM_perm _ _ hperm hdistinct
        · intro a b h hclash
          exact h hclash.symm
        · intro a b test h
          exact compileRequirement_exchange h test
      apply hfold.bind
      intro test
      exact .refl _
    · intro test
      exact .refl _

/-- The order of requirements that do not clash decides nothing about the compiled test. -/
theorem compileTest_order (astTest : AstTest) (requirements : List AstRequirement)
    (hperm : astTest.requirements.Perm requirements)
    (hdistinct : astTest.requirements.Pairwise fun a b => ¬a.Clashes b) :
    (∃ message message', compileTest astTest = testFatal message ∧
        compileTest { astTest with requirements } = testFatal message') ∨
      ∃ test, compileTest astTest = .ok test ∧
        compileTest { astTest with requirements } = .ok test := by
  have hsame := compileTest_perm hperm hdistinct
  cases hleft : compileTest astTest with
  | error halt =>
      rw [hleft] at hsame
      cases hright : compileTest { astTest with requirements } with
      | error halt' =>
          obtain ⟨message, hmessage⟩ := compileTest_fatal hleft
          obtain ⟨message', hmessage'⟩ := compileTest_fatal hright
          exact .inl ⟨message, message', hleft ▸ hmessage, hright ▸ hmessage'⟩
      | ok test =>
          rw [hright] at hsame
          cases hsame
  | ok test =>
      rw [hleft] at hsame
      cases hright : compileTest { astTest with requirements } with
      | error halt =>
          rw [hright] at hsame
          cases hsame
      | ok test' =>
          rw [hright] at hsame
          cases hsame
          exact .inr ⟨test, rfl, rfl⟩

instance (requirement other : AstRequirement) : Decidable (requirement.Clashes other) :=
  decidable_of_iff ((requirement.isCalled (ascii "given") = true ∧
      other.isCalled (ascii "given") = true) ∨
    (requirement.isCalled (ascii "whenRun") = true ∧ other.isCalled (ascii "whenRun") = true) ∨
    ((requirement.expects .stdout ∧ other.expects .stdout) ∨
      (requirement.expects .stderr ∧ other.expects .stderr))) <| by
    apply or_congr Iff.rfl
    apply or_congr Iff.rfl
    constructor
    · rintro (hboth | hboth)
      · exact ⟨.stdout, hboth⟩
      · exact ⟨.stderr, hboth⟩
    · rintro ⟨stream, hboth⟩
      cases stream with
      | stdout => exact .inl hboth
      | stderr => exact .inr hboth

/-- A test whose `whenRun` is written before or behind its `given`. -/
def reordered (requirements : List AstRequirement) : AstTest :=
  ⟨[⟨none, ascii "t"⟩], requirements⟩

theorem compileTest_order_given_last :
    (∃ message message',
      compileTest (reordered [⟨ascii "given", [⟨none, ascii "none"⟩], none⟩,
        ⟨ascii "whenRun", [⟨none, ascii "/bin/x"⟩], none⟩]) = testFatal message ∧
      compileTest (reordered [⟨ascii "whenRun", [⟨none, ascii "/bin/x"⟩], none⟩,
        ⟨ascii "given", [⟨none, ascii "none"⟩], none⟩]) = testFatal message') ∨
      ∃ test, compileTest (reordered [⟨ascii "given", [⟨none, ascii "none"⟩], none⟩,
        ⟨ascii "whenRun", [⟨none, ascii "/bin/x"⟩], none⟩]) = .ok test ∧
      compileTest (reordered [⟨ascii "whenRun", [⟨none, ascii "/bin/x"⟩], none⟩,
        ⟨ascii "given", [⟨none, ascii "none"⟩], none⟩]) = .ok test :=
  compileTest_order (reordered [⟨ascii "given", [⟨none, ascii "none"⟩], none⟩,
      ⟨ascii "whenRun", [⟨none, ascii "/bin/x"⟩], none⟩]) _ (.swap _ _ _) (by decide +kernel)

end JCUnit
