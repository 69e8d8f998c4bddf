import JCUnit.Compile.CompiledTests

/-!
# What a requirement does to any test

A handler looks at its requirement and at the name of the test. What it does to the test, or
that it fails, is the same for every test with this name: it is the effect of the requirement.
Effects on different parts of a test can be exchanged.
-/

namespace JCUnit

open StateError

/-- What a requirement can do to a test. A field that is not given is left as it is. -/
inductive RequirementEffect
  | given (type : UInt32) (filename content path : Option (Option Bytes))
  | whenRun (program : Bytes) (args : Option Bytes)
  | expectOutput (stream : Stream) (content : Option Bytes)
  | shouldBeSkipped

def ProgramRunnerTest.withExpected (test : ProgramRunnerTest) (content : Option Bytes) :
    Stream → ProgramRunnerTest
  | .stdout => { test with expectedStdout := content, flags := test.flags ||| testFlagHasThen }
  | .stderr => { test with expectedStderr := content, flags := test.flags ||| testFlagHasThen }

def RequirementEffect.apply (test : ProgramRunnerTest) : RequirementEffect → ProgramRunnerTest
  | .given type filename content path =>
      { test with
        givenType := type
        givenFilename := filename.getD test.givenFilename
        givenFileContent := content.getD test.givenFileContent
        givenPath := path.getD test.givenPath
        flags := test.flags ||| testFlagHasGiven }
  | .whenRun program args =>
      { test with
        programPath := some program
        programArgs := args
        flags := test.flags ||| testFlagHasWhen }
  | .expectOutput stream content =>
      if (test.expected stream).isSome then test else test.withExpected content stream
  | .shouldBeSkipped => { test with flags := test.flags ||| testFlagSkipped }

/-- The effect is one that this requirement can have. -/
def RequirementEffect.Of (requirement : AstRequirement) : RequirementEffect → Prop
  | .given _ _ _ _ => requirement.isCalled (ascii "given") = true
  | .whenRun _ _ => requirement.isCalled (ascii "whenRun") = true
  | .expectOutput stream _ => requirement.expects stream
  | .shouldBeSkipped => requirement.isCalled (ascii "shouldBeSkipped") = true

/-- The handler does the same to every test with this name, or fails for all of them alike. -/
inductive Uniform (name : Option Bytes) (P : RequirementEffect → Prop)
    (handler : ProgramRunnerTest → Except Halt ProgramRunnerTest) : Prop
  | fails (message : Bytes) (hfails : ∀ test, test.name = name → handler test = testFatal message)
  | applies (e : RequirementEffect) (hP : P e)
      (happlies : ∀ test, test.name = name → handler test = .ok (e.apply test))

section Rules

variable {name : Option Bytes} {P : RequirementEffect → Prop}
  {x y : ProgramRunnerTest → Except Halt ProgramRunnerTest}

/-- A condition that does not look at the test. -/
theorem Uniform.ite {c : Prop} [Decidable c] (hx : c → Uniform name P x)
    (hy : ¬c → Uniform name P y) : Uniform name P fun test => if c then x test else y test := by
  by_cases hc : c
  · simpa only [if_pos hc] using hx hc
  · simpa only [if_neg hc] using hy hc

end Rules

section Handlers

variable {name : Option Bytes} {requirement : AstRequirement}

theorem givenArgumentsLoop_fatal {arguments : List AstArgument} {given : GivenArguments}
    {halt : Halt} (h : givenArgumentsLoop arguments given = .error halt) :
    ∃ message, halt = fatalError message := by
  induction arguments generalizing given with
  | nil => cases h
  | cons argument arguments ih =>
      rw [givenArgumentsLoop] at h
      split at h
      · exact ih h
      iterate 3
        split at h
        · split at h
          · exact ⟨_, (Except.error.inj h).symm⟩
          · exact ih h
      exact ⟨_, (Except.error.inj h).symm⟩

theorem whenRunArgumentsLoop_fatal {arguments : List AstArgument} {found : WhenRunArguments}
    {halt : Halt} (h : whenRunArgumentsLoop arguments found = .error halt) :
    ∃ message, halt = fatalError message := by
  induction arguments generalizing found with
  | nil => cases h
  | cons argument arguments ih =>
      rw [whenRunArgumentsLoop] at h
      split at h
      · exact ih h
      split at h
      · split at h
        · exact ⟨_, (Except.error.inj h).symm⟩
        · exact ih h
      split at h
      · exact ih h
      · exact ⟨_, (Except.error.inj h).symm⟩

theorem expectOutputStream_fatal {halt : Halt} (h : expectOutputStream requirement = .error halt) :
    ∃ message, halt = fatalError message := by
  unfold expectOutputStream at h
  split at h
  · exact ⟨_, (Except.error.inj h).symm⟩
  iterate 3
    split at h
    · exact ⟨_, (Except.error.inj h).symm⟩
  cases h

theorem given_uniform (hcalled : requirement.isCalled (ascii "given") = true) :
    Uniform name (RequirementEffect.Of requirement) (givenTestRequirementCompiler requirement) := by
  unfold givenTestRequirementCompiler
  cases hloop : givenArgumentsLoop requirement.arguments ⟨none, none, none⟩ with
  | error halt =>
      obtain ⟨message, rfl⟩ := givenArgumentsLoop_fatal hloop
      exact .fails message fun _ _ => rfl
  | ok given =>
      cases htype : given.givenType with
      | none =>
          apply Uniform.fails
          intro test _
          simp only [bind, Except.bind, htype]
          rfl
      | some givenType =>
          simp only [bind, Except.bind, htype]
          refine .ite (fun _ => .fails _ fun _ _ => rfl) fun _ => ?_
          refine .ite (fun _ => ?_) fun _ => .ite (fun _ => ?_) fun _ => .ite (fun _ => ?_) fun _ => ?_
          · refine .ite (fun _ => .fails _ fun _ _ => rfl) fun _ => ?_
            refine .ite (fun _ => .fails _ fun _ _ => rfl) fun _ => ?_
            refine .ite (fun _ => .fails _ fun _ _ => rfl) fun _ => ?_
            exact .applies (.given givenTypeNone none none none) hcalled fun _ _ => rfl
          · refine .ite (fun _ => .fails _ fun _ _ => rfl) fun _ => ?_
            refine .ite (fun _ => .fails _ fun _ _ => rfl) fun _ => ?_
            refine .ite (fun _ => .fails _ fun _ _ => rfl) fun _ => ?_
            exact .applies (.given givenTypeReference none none (some given.givenPath)) hcalled
              fun _ _ => rfl
          · refine .ite (fun _ => .fails _ fun _ _ => rfl) fun _ => ?_
            refine .ite (fun _ => .fails _ fun _ _ => rfl) fun _ => ?_
            exact .applies (.given givenTypeStdin none (some requirement.content) none) hcalled
              fun _ _ => rfl
          · refine .ite (fun _ => .fails _ fun _ _ => rfl) fun _ => ?_
            refine .ite (fun _ => .fails _ fun _ _ => rfl) fun _ => ?_
            refine .ite (fun _ => .fails _ fun _ _ => rfl) fun _ => ?_
            refine .ite (fun _ => .fails _ fun _ _ => rfl) fun _ => ?_
            exact .applies (.given givenTypeFile (some given.givenFilename)
              (some requirement.content) none) hcalled fun _ _ => rfl

theorem whenRun_uniform (hcalled : requirement.isCalled (ascii "whenRun") = true) :
    Uniform name (RequirementEffect.Of requirement) (whenRunRequirementCompiler requirement) := by
  unfold whenRunRequirementCompiler
  refine .ite (fun _ => .fails _ fun _ _ => rfl) fun _ => ?_
  cases hloop : whenRunArgumentsLoop requirement.arguments ⟨none, none⟩ with
  | error halt =>
      obtain ⟨message, rfl⟩ := whenRunArgumentsLoop_fatal hloop
      exact .fails message fun _ _ => rfl
  | ok found =>
      cases hprogram : found.program with
      | none =>
          apply Uniform.fails
          intro test _
          simp only [bind, Except.bind, hprogram]
          rfl
      | some program =>
          simp only [bind, Except.bind, hprogram]
          refine .ite (fun _ => .fails _ fun _ _ => rfl) fun _ => ?_
          refine .ite (fun _ => .fails _ fun _ _ => rfl) fun _ => ?_
          exact .applies (.whenRun program found.args) hcalled fun _ _ => rfl

theorem expectOutput_uniform (hcalled : strcmpEq (ascii "expectOutput") requirement.name = true) :
    Uniform name (RequirementEffect.Of requirement)
      (expectOutputRequirementCompiler requirement) := by
  cases hstream : expectOutputStream requirement with
  | error halt =>
      obtain ⟨message, rfl⟩ := expectOutputStream_fatal hstream
      apply Uniform.fails message
      intro test _
      rw [expectOutputRequirementCompiler, hstream]
      rfl
  | ok code =>
      obtain rfl | rfl := expectOutputStream_known hstream
      · apply Uniform.applies (.expectOutput .stdout requirement.content) ⟨hcalled, hstream⟩
        intro test _
        exact expectOutput_stdout hstream
      · apply Uniform.applies (.expectOutput .stderr requirement.content) ⟨hcalled, hstream⟩
        intro test _
        exact expectOutput_stderr hstream

theorem compileRequirement_uniform (name : Option Bytes) (requirement : AstRequirement) :
    Uniform name (RequirementEffect.Of requirement) fun test =>
      compileRequirement test requirement := by
  unfold compileRequirement resolveTestRequirementCompiler
  split
  case isTrue hcalled => exact given_uniform hcalled
  split
  case isTrue hcalled => exact whenRun_uniform hcalled
  split
  case isTrue hcalled => exact expectOutput_uniform hcalled
  split
  case isTrue hcalled => exact .applies .shouldBeSkipped hcalled fun _ _ => rfl
  · apply Uniform.fails
    intro test hname
    rw [unknownTestRequirementCompiler, hname]

end Handlers

section Exchange

/-- The two effects are on different parts of a test. -/
def RequirementEffect.Apart : RequirementEffect → RequirementEffect → Prop
  | .given _ _ _ _, .given _ _ _ _ => False
  | .whenRun _ _, .whenRun _ _ => False
  | .expectOutput stream _, .expectOutput other _ => stream ≠ other
  | _, _ => True

variable {e e' : RequirementEffect} {test : ProgramRunnerTest}

theorem flags_right_comm (flags first second : UInt32) :
    flags ||| first ||| second = flags ||| second ||| first := by
  rw [UInt32.or_assoc, UInt32.or_comm first second, ← UInt32.or_assoc]

theorem RequirementEffect.apply_name : (e.apply test).name = test.name := by
  cases e with
  | expectOutput stream content =>
      rw [RequirementEffect.apply]
      split
      · rfl
      · cases stream <;> rfl
  | _ => rfl

/-- An expectation is set on its stream or left out, whatever is done to the rest of the test. -/
theorem RequirementEffect.expectOutput_comm (stream : Stream) (content : Option Bytes)
    (h : e.Apart (.expectOutput stream content)) :
    (RequirementEffect.expectOutput stream content).apply (e.apply test) =
      e.apply ((RequirementEffect.expectOutput stream content).apply test) := by
  cases e with
  | expectOutput other content' =>
      cases stream <;> cases other
      · exact absurd rfl h
      · cases hout : test.expectedStdout <;> cases herr : test.expectedStderr <;>
          simp [apply, ProgramRunnerTest.expected, ProgramRunnerTest.withExpected, hout, herr]
      · cases hout : test.expectedStdout <;> cases herr : test.expectedStderr <;>
          simp [apply, ProgramRunnerTest.expected, ProgramRunnerTest.withExpected, hout, herr]
      · exact absurd rfl h
  | _ =>
      cases stream with
      | stdout =>
          cases hout : test.expectedStdout <;>
            simp [apply, ProgramRunnerTest.expected, ProgramRunnerTest.withExpected, hout,
              flags_right_comm]
      | stderr =>
          cases herr : test.expectedStderr <;>
            simp [apply, ProgramRunnerTest.expected, ProgramRunnerTest.withExpected, herr,
              flags_right_comm]

theorem RequirementEffect.Apart.symm (h : e.Apart e') : e'.Apart e := by
  cases e <;> cases e' <;> first | exact h | exact trivial | exact Ne.symm h

/-- Effects on different parts of a test can be exchanged. -/
theorem RequirementEffect.Apart.comm (h : e.Apart e') (test : ProgramRunnerTest) :
    e'.apply (e.apply test) = e.apply (e'.apply test) := by
  cases e' with
  | expectOutput stream content => exact expectOutput_comm stream content h
  | given type filename content path =>
      cases e with
      | given => exact h.elim
      | expectOutput stream content => exact (expectOutput_comm stream content h.symm).symm
      | whenRun => simp [RequirementEffect.apply, flags_right_comm]
      | shouldBeSkipped => simp [RequirementEffect.apply, flags_right_comm]
  | whenRun program args =>
      cases e with
      | whenRun => exact h.elim
      | expectOutput stream content => exact (expectOutput_comm stream content h.symm).symm
      | given => simp [RequirementEffect.apply, flags_right_comm]
      | shouldBeSkipped => simp [RequirementEffect.apply, flags_right_comm]
  | shouldBeSkipped =>
      cases e with
      | expectOutput stream content => exact (expectOutput_comm stream content h.symm).symm
      | given => simp [RequirementEffect.apply, flags_right_comm]
      | whenRun => simp [RequirementEffect.apply, flags_right_comm]
      | shouldBeSkipped => rfl

end Exchange

end JCUnit
