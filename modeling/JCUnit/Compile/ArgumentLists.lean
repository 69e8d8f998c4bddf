import JCUnit.Compile.RequirementSpecs
import JCUnit.Foundation.StoppedScan
import Mathlib.Logic.Function.Basic

/-!
# Argument lists of the directives

Each directive has its parameters, and a handler with a loop of its own that collects what the
arguments give for them. Which lists a handler accepts is stated here for all of them alike: no
argument clashes with those before it, and the values that count are allowed.
-/

namespace JCUnit

open StateError StoppedScan

/-- The directives that have arguments. -/
inductive Directive
  | test
  | given
  | whenRun
  | expectOutput
deriving DecidableEq

namespace Directive

def name : Directive → Bytes
  | .test => ascii "test"
  | .given => ascii "given"
  | .whenRun => ascii "whenRun"
  | .expectOutput => ascii "expectOutput"

def parameters : Directive → List Bytes
  | .test => [ascii "name"]
  | .given => [ascii "type", ascii "filename", ascii "path"]
  | .whenRun => [ascii "program", ascii "args"]
  | .expectOutput => [ascii "stream"]

/-- The parameter that an argument without a name is for. -/
def unnamed : Directive → Bytes
  | .test => ascii "name"
  | .given => ascii "type"
  | .whenRun => ascii "program"
  | .expectOutput => ascii "stream"

/-- The parameters for which a handler looks whether they have been defined before. -/
def checked : Directive → List Bytes
  | .test => [ascii "name"]
  | .given => [ascii "type", ascii "filename", ascii "path"]
  | .whenRun => [ascii "program"]
  | .expectOutput => []

/-- The parameter an argument is for, its name as `strcmp` sees it. -/
def parameter (directive : Directive) (argument : AstArgument) : Bytes :=
  match argument.name with
  | none => directive.unnamed
  | some name => cstr name

/-- The arguments a handler looks at. -/
def scanned : Directive → List AstArgument → List AstArgument
  | .expectOutput, arguments => arguments.take 1
  | _, arguments => arguments

/-- A handler stops at a name the directive does not have, and at the name of a checked
parameter that an earlier argument is for. It never stops at an argument without a name. -/
def Clashes (directive : Directive) (earlier : List AstArgument) (argument : AstArgument) : Prop :=
  argument.name.isSome = true ∧ (directive.parameter argument ∉ directive.parameters ∨
    directive.parameter argument ∈ directive.checked ∧
      directive.parameter argument ∈ earlier.map directive.parameter)

def Caught (directive : Directive) (arguments : List AstArgument) : Prop :=
  Stopped directive.Clashes (directive.scanned arguments)

/-- The value of the last argument for a parameter. -/
def lastValue (directive : Directive) (arguments : List AstArgument) (parameter : Bytes) :
    Option Bytes :=
  (arguments.reverse.find? fun argument => directive.parameter argument = parameter).map
    AstArgument.value

/-- The values a `given` can have: its type, filename and path. -/
inductive GivenAllowed : Option Bytes → Option Bytes → Option Bytes → Prop
  | none : GivenAllowed (some (ascii "none")) .none .none
  | stdin : GivenAllowed (some (ascii "stdin")) .none .none
  | reference {path : Bytes} (hpath : path ≠ []) :
      GivenAllowed (some (ascii "reference")) .none (some path)
  | file {filename : Option Bytes} (hfilename : ∀ f ∈ filename, f ≠ [] ∧ 47 ∉ cstr f) :
      GivenAllowed (some (ascii "file")) filename .none

/-- The values that count are allowed, whatever the rest of the list is. -/
def Allows (directive : Directive) (values : Bytes → Option Bytes) : Prop :=
  match directive with
  | .test => ∃ name, values (ascii "name") = some name ∧ name ≠ []
  | .given => GivenAllowed (values (ascii "type")) (values (ascii "filename")) (values (ascii "path"))
  | .whenRun => (∃ program, values (ascii "program") = some program ∧ program ≠ []) ∧
      values (ascii "args") ≠ some []
  | .expectOutput => ∃ stream, values (ascii "stream") = some stream ∧
      resolveStreamCodeByName stream ≠ .unknown

/-- The handler has nothing against the list. -/
structure Accepts (directive : Directive) (arguments : List AstArgument) : Prop where
  passed : ¬directive.Caught arguments
  allowed : directive.Allows (directive.lastValue (directive.scanned arguments))

variable {directive : Directive} {arguments before : List AstArgument} {argument : AstArgument}
  {parameter : Bytes}

theorem lastValue_isSome :
    (directive.lastValue arguments parameter).isSome = true ↔
      parameter ∈ arguments.map directive.parameter := by
  simp [lastValue]

/-- The argument behind the list decides the value of its parameter. -/
theorem lastValue_append :
    directive.lastValue (before ++ [argument]) = Function.update (directive.lastValue before)
      (directive.parameter argument) (some argument.value) := by
  funext parameter
  unfold lastValue
  rw [List.reverse_append, List.reverse_singleton, List.singleton_append, List.find?_cons]
  by_cases hparameter : directive.parameter argument = parameter
  · rw [← hparameter, Function.update_self, decide_eq_true rfl]
    rfl
  · rw [Function.update_of_ne (Ne.symm hparameter), decide_eq_false hparameter]

end Directive

section Loops

variable {directive : Directive} {before : List AstArgument} {name value : Bytes}

theorem Directive.clashes_named :
    directive.Clashes before ⟨some name, value⟩ ↔ cstr name ∉ directive.parameters ∨
      cstr name ∈ directive.checked ∧ (directive.lastValue before (cstr name)).isSome = true := by
  rw [Directive.lastValue_isSome]
  exact and_iff_right rfl

theorem Directive.not_clashes_unnamed : ¬directive.Clashes before ⟨none, value⟩ := by
  rintro ⟨hname, -⟩
  cases hname

/-- An argument with the name of a parameter clashes if the parameter is checked and has a
value. -/
theorem Directive.clashes_parameter {parameter : Bytes} (hname : parameter = cstr name)
    (hparameter : parameter ∈ directive.parameters) :
    directive.Clashes before ⟨some name, value⟩ ↔
      parameter ∈ directive.checked ∧ (directive.lastValue before parameter).isSome = true := by
  rw [clashes_named, ← hname, or_iff_right (not_not_intro hparameter)]

theorem Directive.parameter_named {parameter : Bytes} (hname : parameter = cstr name) :
    directive.parameter ⟨some name, value⟩ = parameter :=
  hname.symm

/-- What the loop of `test` has found. -/
def Directive.foundName (values : Bytes → Option Bytes) : Option Bytes := values (ascii "name")

def Directive.foundGiven (values : Bytes → Option Bytes) : GivenArguments :=
  ⟨values (ascii "type"), values (ascii "filename"), values (ascii "path")⟩

def Directive.foundProgram (values : Bytes → Option Bytes) : WhenRunArguments :=
  ⟨values (ascii "program"), values (ascii "args")⟩

theorem testArgumentsLoop_scans :
    Scans Directive.test.Clashes
      (fun arguments => Directive.foundName (Directive.test.lastValue arguments))
      testArgumentsLoop := by
  constructor
  · intro name
    rfl
  · rintro before ⟨name | name, value⟩ rest hclash
    · exact absurd hclash Directive.not_clashes_unnamed
    · simp only [testArgumentsLoop, strcmpEq, beq_iff_eq]
      split
      case isTrue hname =>
        rw [Directive.clashes_parameter hname (by decide)] at hclash
        exact ⟨_, if_pos hclash.2⟩
      case isFalse => exact ⟨_, rfl⟩
  · rintro before ⟨name | name, value⟩ rest hclash
    · rw [Directive.lastValue_append]
      rfl
    · simp only [testArgumentsLoop, strcmpEq, beq_iff_eq]
      rw [Directive.lastValue_append]
      split
      case isTrue hname =>
        rw [Directive.clashes_parameter hname (by decide)] at hclash
        rw [Directive.parameter_named hname]
        exact if_neg (not_and.mp hclash (by decide))
      case isFalse hname =>
        refine absurd (Directive.clashes_named.mpr (.inl ?_)) hclash
        exact mt List.mem_singleton.mp (Ne.symm hname)

theorem givenArgumentsLoop_scans :
    Scans Directive.given.Clashes
      (fun arguments => Directive.foundGiven (Directive.given.lastValue arguments))
      givenArgumentsLoop := by
  constructor
  · intro given
    rfl
  · rintro before ⟨name | name, value⟩ rest hclash
    · exact absurd hclash Directive.not_clashes_unnamed
    · simp only [givenArgumentsLoop, strcmpEq, beq_iff_eq]
      iterate 3
        split
        case isTrue hname =>
          rw [Directive.clashes_parameter hname (by decide)] at hclash
          exact ⟨_, if_pos hclash.2⟩
      exact ⟨_, rfl⟩
  · rintro before ⟨name | name, value⟩ rest hclash
    · rw [Directive.lastValue_append]
      rfl
    · simp only [givenArgumentsLoop, strcmpEq, beq_iff_eq]
      rw [Directive.lastValue_append]
      iterate 3
        split
        case isTrue hname =>
          rw [Directive.clashes_parameter hname (by decide)] at hclash
          rw [Directive.parameter_named hname]
          exact if_neg (not_and.mp hclash (by decide))
      rename_i htype hfilename hpath
      refine absurd (Directive.clashes_named.mpr (.inl ?_)) hclash
      simp [Directive.parameters, Ne.symm htype, Ne.symm hfilename, Ne.symm hpath]

theorem whenRunArgumentsLoop_scans :
    Scans Directive.whenRun.Clashes
      (fun arguments => Directive.foundProgram (Directive.whenRun.lastValue arguments))
      whenRunArgumentsLoop := by
  constructor
  · intro found
    rfl
  · rintro before ⟨name | name, value⟩ rest hclash
    · exact absurd hclash Directive.not_clashes_unnamed
    · simp only [whenRunArgumentsLoop, strcmpEq, beq_iff_eq]
      split
      case isTrue hname =>
        rw [Directive.clashes_parameter hname (by decide)] at hclash
        exact ⟨_, if_pos hclash.2⟩
      split
      case isTrue hname =>
        rw [Directive.clashes_parameter hname (by decide)] at hclash
        exact absurd hclash.1 (by decide)
      exact ⟨_, rfl⟩
  · rintro before ⟨name | name, value⟩ rest hclash
    · rw [Directive.lastValue_append]
      rfl
    · simp only [whenRunArgumentsLoop, strcmpEq, beq_iff_eq]
      rw [Directive.lastValue_append]
      split
      case isTrue hname =>
        rw [Directive.clashes_parameter hname (by decide)] at hclash
        rw [Directive.parameter_named hname]
        exact if_neg (not_and.mp hclash (by decide))
      split
      case isTrue hname =>
        rw [Directive.parameter_named hname]
        rfl
      rename_i hprogram hargs
      refine absurd (Directive.clashes_named.mpr (.inl ?_)) hclash
      simp [Directive.parameters, Ne.symm hprogram, Ne.symm hargs]

end Loops

section Handlers

variable {requirement : AstRequirement} {test test' : ProgramRunnerTest}

theorem testArgumentsCompiler_ok_iff {astTest : AstTest} :
    (∃ test', testArgumentsCompiler test astTest = .ok test') ↔
      Directive.test.Accepts astTest.arguments := by
  constructor
  · rintro ⟨test', h⟩
    obtain ⟨name, hloop, h⟩ := except_bind_eq_ok h
    obtain ⟨hpassed, rfl⟩ := testArgumentsLoop_scans.eq_ok_iff.mp hloop
    refine ⟨hpassed, ?_⟩
    cases hname : Directive.test.lastValue astTest.arguments (ascii "name") with
    | none =>
        simp only [Directive.foundName, hname] at h
        cases h
    | some name =>
        simp only [Directive.foundName, hname] at h
        obtain ⟨hlength, -⟩ := testFatal_check_iff.mp h
        exact ⟨name, hname, mt List.length_eq_zero_iff.mpr hlength⟩
  · rintro ⟨hpassed, name, hname, hne⟩
    have hloop : testArgumentsLoop astTest.arguments none = .ok (some name) :=
      testArgumentsLoop_scans.eq_ok_iff.mpr ⟨hpassed, hname⟩
    refine ⟨{ test with name := some name }, ?_⟩
    unfold testArgumentsCompiler
    rw [hloop]
    exact if_neg (mt List.length_eq_zero_iff.mp hne)

theorem given_accepts (h : givenTestRequirementCompiler requirement test = .ok test') :
    Directive.given.Accepts requirement.arguments := by
  obtain ⟨given, hloop, hgiven⟩ := given_cases h
  obtain ⟨hpassed, hfound⟩ := givenArgumentsLoop_scans.eq_ok_iff.mp hloop
  refine ⟨hpassed, ?_⟩
  change Directive.GivenAllowed (Directive.given.lastValue requirement.arguments _)
    (Directive.given.lastValue requirement.arguments _)
    (Directive.given.lastValue requirement.arguments _)
  unfold Directive.foundGiven at hfound
  generalize Directive.given.lastValue requirement.arguments (ascii "type") = givenType at hfound ⊢
  generalize Directive.given.lastValue requirement.arguments (ascii "filename") = filename
    at hfound ⊢
  generalize Directive.given.lastValue requirement.arguments (ascii "path") = path at hfound ⊢
  obtain rfl := hfound
  cases hgiven with
  | none => exact .none
  | reference hpath => exact .reference hpath
  | stdin => exact .stdin
  | file hfilename => exact .file hfilename

theorem given_of_accepts (hcontent : requirement.content = none)
    (h : Directive.given.Accepts requirement.arguments) (test : ProgramRunnerTest) :
    ∃ test', givenTestRequirementCompiler requirement test = .ok test' := by
  have hloop : givenArgumentsLoop requirement.arguments ⟨none, none, none⟩ =
      .ok (Directive.foundGiven (Directive.given.lastValue requirement.arguments)) :=
    givenArgumentsLoop_scans.eq_ok_iff.mpr ⟨h.passed, rfl⟩
  have hallowed : Directive.GivenAllowed (Directive.given.lastValue requirement.arguments _)
    (Directive.given.lastValue requirement.arguments _)
    (Directive.given.lastValue requirement.arguments _) := h.allowed
  unfold givenTestRequirementCompiler
  rw [hloop, hcontent]
  unfold Directive.foundGiven
  generalize Directive.given.lastValue requirement.arguments (ascii "type") = givenType at hallowed ⊢
  generalize Directive.given.lastValue requirement.arguments (ascii "filename") = filename
    at hallowed ⊢
  generalize Directive.given.lastValue requirement.arguments (ascii "path") = path at hallowed ⊢
  cases hallowed with
  | none => exact ⟨_, rfl⟩
  | stdin => exact ⟨_, rfl⟩
  | reference hpath => exact ⟨_, if_neg hpath⟩
  | file hfilename =>
      cases filename with
      | none => exact ⟨_, rfl⟩
      | some filename =>
          obtain ⟨hne, hslash⟩ := hfilename filename rfl
          refine ⟨_, (if_neg ?_).trans (if_neg ?_)⟩
          · simpa using hne
          · simpa using hslash

theorem whenRun_accepts (h : whenRunRequirementCompiler requirement test = .ok test') :
    Directive.whenRun.Accepts requirement.arguments := by
  obtain ⟨-, h⟩ := testFatal_check_iff.mp h
  obtain ⟨found, hloop, h⟩ := except_bind_eq_ok h
  obtain ⟨hpassed, rfl⟩ := whenRunArgumentsLoop_scans.eq_ok_iff.mp hloop
  refine ⟨hpassed, ?_⟩
  cases hprogram : Directive.whenRun.lastValue requirement.arguments (ascii "program") with
  | none =>
      simp only [Directive.foundProgram, hprogram] at h
      cases h
  | some program =>
      simp only [Directive.foundProgram, hprogram] at h
      obtain ⟨hlength, h⟩ := testFatal_check_iff.mp h
      obtain ⟨hargs, -⟩ := testFatal_check_iff.mp h
      exact ⟨⟨program, hprogram, mt List.length_eq_zero_iff.mpr hlength⟩, hargs⟩

theorem whenRun_of_accepts (hcontent : requirement.content = none)
    (h : Directive.whenRun.Accepts requirement.arguments) (test : ProgramRunnerTest) :
    ∃ test', whenRunRequirementCompiler requirement test = .ok test' := by
  have hloop : whenRunArgumentsLoop requirement.arguments ⟨none, none⟩ =
      .ok (Directive.foundProgram (Directive.whenRun.lastValue requirement.arguments)) :=
    whenRunArgumentsLoop_scans.eq_ok_iff.mpr ⟨h.passed, rfl⟩
  obtain ⟨⟨program, hprogram, hne⟩, hargs⟩ := h.allowed
  change Directive.whenRun.lastValue requirement.arguments _ = _ at hprogram
  unfold whenRunRequirementCompiler
  rw [hloop, hcontent]
  unfold Directive.foundProgram
  rw [hprogram]
  exact ⟨_, (if_neg (mt List.length_eq_zero_iff.mp hne)).trans (if_neg hargs)⟩

/-- Only the first argument of an `expectOutput` matters. -/
theorem expectOutput_accepts_cons {argument : AstArgument} {arguments : List AstArgument} :
    Directive.expectOutput.Accepts (argument :: arguments) ↔
      Directive.expectOutput.parameter argument = ascii "stream" ∧
        resolveStreamCodeByName argument.value ≠ .unknown := by
  have hscanned : Directive.expectOutput.scanned (argument :: arguments) = [argument] := rfl
  constructor
  · rintro ⟨-, stream, hstream, hknown⟩
    rw [hscanned] at hstream
    have hparameter := Directive.lastValue_isSome.mp (Option.isSome_of_eq_some hstream)
    rw [List.map_singleton, List.mem_singleton] at hparameter
    have hvalue : Directive.expectOutput.lastValue ([] ++ [argument]) (ascii "stream") =
        some argument.value := by
      rw [Directive.lastValue_append, ← hparameter, Function.update_self]
    obtain rfl : argument.value = stream := Option.some.inj (hvalue.symm.trans hstream)
    exact ⟨hparameter.symm, hknown⟩
  · rintro ⟨hparameter, hknown⟩
    constructor
    · rw [Directive.Caught, hscanned, stopped_cons]
      rintro (⟨-, hunknown | ⟨hchecked, -⟩⟩ | hrest)
      · exact hunknown (List.mem_singleton.mpr hparameter)
      · cases hchecked
      · exact not_stopped_nil hrest
    · refine ⟨argument.value, ?_, hknown⟩
      rw [hscanned]
      change Directive.expectOutput.lastValue ([] ++ [argument]) (ascii "stream") = _
      rw [Directive.lastValue_append, hparameter, Function.update_self]

theorem expectOutputStream_ok_iff :
    (∃ code, expectOutputStream requirement = .ok code) ↔
      Directive.expectOutput.Accepts requirement.arguments := by
  unfold expectOutputStream
  cases harguments : requirement.arguments with
  | nil =>
      constructor
      · rintro ⟨code, h⟩
        cases h
      · rintro ⟨-, stream, hstream, -⟩
        cases hstream
  | cons argument arguments =>
      have hname : (argument.name.map fun name => !strcmpEq (ascii "stream") name) = some true ↔
          Directive.expectOutput.parameter argument ≠ ascii "stream" := by
        obtain ⟨name | name, value⟩ := argument
        · simp [Directive.parameter, Directive.unnamed]
        · change some (!(ascii "stream" == cstr name)) = some true ↔ cstr name ≠ ascii "stream"
          rw [Option.some.injEq, Bool.not_eq_true', beq_eq_false_iff_ne]
          exact ne_comm
      rw [expectOutput_accepts_cons]
      dsimp only
      simp only [hname]
      constructor
      · rintro ⟨code, h⟩
        obtain ⟨hparameter, h⟩ := testFatal_check_iff.mp h
        obtain ⟨-, h⟩ := testFatal_check_iff.mp h
        obtain ⟨hknown, -⟩ := testFatal_check_iff.mp h
        exact ⟨not_not.mp hparameter, hknown⟩
      · rintro ⟨hparameter, hknown⟩
        have hlength : argument.value.length ≠ 0 := by
          intro hzero
          rw [List.length_eq_zero_iff.mp hzero] at hknown
          exact hknown rfl
        rw [if_neg (not_not_intro hparameter), if_neg hlength, if_neg hknown]
        exact ⟨_, rfl⟩

end Handlers

end JCUnit
