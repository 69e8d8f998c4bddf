import JCUnit.Compile.ArgumentLists
import JCUnit.Compile.RequirementOrder
import JCUnit.Frontend.InsertedDirective

/-!
# Bad argument lists

A list is bad if it defines a parameter twice or has a name its directive does not have. Whether
every test with such a list is rejected depends on where in the list the bad argument stands.
-/

namespace JCUnit

open StateError StoppedScan

/-- The list defines a parameter twice, or has a name the directive does not have. -/
def Directive.Bad (directive : Directive) (arguments : List AstArgument) : Prop :=
  ¬(arguments.map directive.parameter).Nodup ∨
    ∃ argument ∈ arguments, directive.parameter argument ∉ directive.parameters

/-- A directive of this kind has the list in the test. -/
def AstTest.HasArguments (astTest : AstTest) (directive : Directive)
    (arguments : List AstArgument) : Prop :=
  match directive with
  | .test => astTest.arguments = arguments
  | directive => ∃ requirement ∈ astTest.requirements,
      requirement.name = directive.name ∧ requirement.arguments = arguments

/-- A file is parsed into tests one of which is the test. -/
def Parsed (astTest : AstTest) : Prop :=
  ∃ source tests, parseTestSuite source = .ok tests ∧ astTest ∈ tests

/-- The parser can produce the list for the directive. -/
def Directive.Produces (directive : Directive) (arguments : List AstArgument) : Prop :=
  ∃ astTest, Parsed astTest ∧ astTest.HasArguments directive arguments

/-- Compiling any test with the list ends in a fatal error. -/
def Directive.Rejects (directive : Directive) (arguments : List AstArgument) : Prop :=
  ∀ astTest, Parsed astTest → astTest.HasArguments directive arguments →
    ∃ message, compileTest astTest = testFatal message

section Accepted

variable {directive : Directive} {arguments : List AstArgument} {astTest : AstTest}
  {requirement : AstRequirement} {test test' : ProgramRunnerTest}

/-- A compiled test has been through the handlers of all its requirements. -/
theorem compileTest_handled (h : compileTest astTest = .ok test) :
    (∃ named, testArgumentsCompiler makeProgramRunnerTest astTest = .ok named) ∧
      ∀ requirement ∈ astTest.requirements,
        ∃ before after, compileRequirement before requirement = .ok after := by
  unfold compileTest at h
  split at h
  · cases h
  obtain ⟨compiled, hcompiled, -⟩ := except_bind_eq_ok h
  obtain ⟨named, hnamed, hcompiled⟩ := except_bind_eq_ok hcompiled
  obtain ⟨handled, hhandled, -⟩ := except_bind_eq_ok hcompiled
  refine ⟨⟨named, hnamed⟩, ?_⟩
  have hall := foldlM_prefix (P := fun done _ => ∀ requirement ∈ done,
      ∃ before after, compileRequirement before requirement = .ok after)
    ?_ (List.forall_mem_nil _) hhandled
  · rwa [List.nil_append] at hall
  · intro done before requirement after hdone hstep
    rw [List.forall_mem_append, List.forall_mem_singleton]
    exact ⟨hdone, before, after, hstep⟩

/-- What a handler has compiled, it has nothing against. -/
theorem compileRequirement_accepts (hname : requirement.name = directive.name)
    (htest : directive ≠ .test) (h : compileRequirement test requirement = .ok test') :
    directive.Accepts requirement.arguments := by
  obtain ⟨name, arguments, content⟩ := requirement
  obtain rfl : name = directive.name := hname
  cases directive with
  | test => exact absurd rfl htest
  | given => exact given_accepts h
  | whenRun => exact whenRun_accepts h
  | expectOutput =>
      obtain ⟨code, hcode, -⟩ := except_bind_eq_ok h
      exact expectOutputStream_ok_iff.mp ⟨code, hcode⟩

theorem compileTest_accepts (h : compileTest astTest = .ok test)
    (harguments : astTest.HasArguments directive arguments) : directive.Accepts arguments := by
  obtain ⟨hnamed, hhandled⟩ := compileTest_handled h
  cases directive with
  | test =>
      obtain rfl : astTest.arguments = arguments := harguments
      exact testArgumentsCompiler_ok_iff.mp hnamed
  | _ =>
      obtain ⟨requirement, hmem, hname, rfl⟩ := harguments
      obtain ⟨before, after, hstep⟩ := hhandled requirement hmem
      exact compileRequirement_accepts hname Directive.noConfusion hstep

end Accepted

section PlainTest

variable {directive : Directive} {arguments : List AstArgument}

def fileGiven : AstRequirement := ⟨ascii "given", [⟨none, ascii "file"⟩], none⟩

def plainRun : AstRequirement := ⟨ascii "whenRun", [⟨none, ascii "p"⟩], none⟩

/-- A test that has nothing to be rejected for but the list. -/
def Directive.plainTest (directive : Directive) (arguments : List AstArgument) : AstTest :=
  match directive with
  | .test => ⟨arguments, [fileGiven, plainRun]⟩
  | directive => ⟨[⟨none, ascii "t"⟩],
      [fileGiven, plainRun, ⟨directive.name, arguments, none⟩]⟩

theorem Directive.plainTest_eq (htest : directive ≠ .test) :
    directive.plainTest arguments = ⟨[⟨none, ascii "t"⟩],
      [fileGiven, plainRun, ⟨directive.name, arguments, none⟩]⟩ := by
  cases directive with
  | test => exact absurd rfl htest
  | _ => rfl

theorem AstTest.HasArguments.of_mem {astTest : AstTest} {content : Option Bytes}
    (hmem : ⟨directive.name, arguments, content⟩ ∈ astTest.requirements)
    (htest : directive ≠ .test) : astTest.HasArguments directive arguments := by
  cases directive with
  | test => exact absurd rfl htest
  | _ => exact ⟨_, hmem, rfl, rfl⟩

theorem Directive.plainTest_hasArguments :
    (directive.plainTest arguments).HasArguments directive arguments := by
  by_cases htest : directive = .test
  · rw [htest]
    rfl
  · rw [plainTest_eq htest]
    exact .of_mem (List.mem_cons_of_mem _ (List.mem_cons_of_mem _ List.mem_cons_self)) htest

/-- Without arguments of the program, or with a given file, no placeholder is missing a file. -/
theorem compileTest_of_handled {astTest : AstTest} {named handled : ProgramRunnerTest}
    (hfound : (findAstRequirementByName astTest (ascii "whenRun")).isNone = false)
    (hnamed : testArgumentsCompiler makeProgramRunnerTest astTest = .ok named)
    (hhandled : astTest.requirements.foldlM compileRequirement named = .ok handled)
    (hplain : handled.programArgs = none ∨ handled.givenType = givenTypeFile) :
    ∃ test, compileTest astTest = .ok test := by
  have hno : ¬((handled.programArgs.map fun args => strstr (cstr args) filePlaceholder) = some true ∧
      (handled.givenType = givenTypeNone ∨ handled.givenType = givenTypeStdin)) := by
    rintro ⟨hsubstitutes, htype⟩
    obtain hargs | hfile := hplain
    · rw [hargs] at hsubstitutes
      cases hsubstitutes
    · rw [hfile] at htype
      exact absurd htype (by decide)
  have hcompiled : programRunnerTestCompiler astTest = .ok handled := by
    unfold programRunnerTestCompiler
    rw [hnamed]
    change (astTest.requirements.foldlM compileRequirement named >>= _) = _
    rw [hhandled]
    exact if_neg hno
  unfold compileTest
  rw [hfound, hcompiled]
  by_cases hmask : handled.flags &&& testCompleteMask ≠ testCompleteMask
  · exact ⟨_, if_pos hmask⟩
  · exact ⟨_, if_neg hmask⟩

theorem expectOutput_of_stream {requirement : AstRequirement} {code : StreamCode}
    (hcode : expectOutputStream requirement = .ok code) (test : ProgramRunnerTest) :
    ∃ test', expectOutputRequirementCompiler requirement test = .ok test' := by
  obtain rfl | rfl := expectOutputStream_known hcode
  · exact ⟨_, expectOutput_stdout hcode⟩
  · exact ⟨_, expectOutput_stderr hcode⟩

/-- The handler of an accepted list compiles a requirement without content. -/
theorem compileRequirement_of_accepts (htest : directive ≠ .test)
    (h : directive.Accepts arguments) (test : ProgramRunnerTest) :
    ∃ test', compileRequirement test ⟨directive.name, arguments, none⟩ = .ok test' ∧
      (test'.programArgs = test.programArgs ∨ test'.givenType = test.givenType) := by
  have hcontent : (⟨directive.name, arguments, none⟩ : AstRequirement).content = none := rfl
  cases directive with
  | test => exact absurd rfl htest
  | given =>
      obtain ⟨test', hrun⟩ := given_of_accepts hcontent h test
      refine ⟨test', hrun, .inl ?_⟩
      rw [given_changes hrun]
  | whenRun =>
      obtain ⟨test', hrun⟩ := whenRun_of_accepts hcontent h test
      refine ⟨test', hrun, .inr ?_⟩
      rw [whenRun_changes hrun]
  | expectOutput =>
      have hstream : ∃ code, expectOutputStream
          ⟨Directive.expectOutput.name, arguments, none⟩ = .ok code :=
        expectOutputStream_ok_iff.mpr h
      obtain ⟨code, hcode⟩ := hstream
      obtain ⟨test', hrun⟩ := expectOutput_of_stream hcode test
      refine ⟨test', hrun, .inl ?_⟩
      rw [expectOutput_changes hrun]

/-- A list that its handler has nothing against can be compiled. -/
theorem Directive.plainTest_compiled (h : directive.Accepts arguments) :
    ∃ test, compileTest (directive.plainTest arguments) = .ok test := by
  have hprepared (named : ProgramRunnerTest) : ∃ prepared,
      [fileGiven, plainRun].foldlM compileRequirement named = .ok prepared ∧
      prepared.programArgs = none ∧ prepared.givenType = givenTypeFile := ⟨_, rfl, rfl, rfl⟩
  by_cases htest : directive = .test
  · subst htest
    obtain ⟨named, hnamed⟩ : ∃ named, testArgumentsCompiler makeProgramRunnerTest
        (Directive.test.plainTest arguments) = .ok named := testArgumentsCompiler_ok_iff.mpr h
    obtain ⟨prepared, hrun, hargs, -⟩ := hprepared named
    exact compileTest_of_handled rfl hnamed hrun (.inl hargs)
  · rw [plainTest_eq htest]
    obtain ⟨named, hnamed⟩ : ∃ named, testArgumentsCompiler makeProgramRunnerTest
        ⟨[⟨none, ascii "t"⟩], [fileGiven, plainRun, ⟨directive.name, arguments, none⟩]⟩ =
          .ok named := ⟨_, rfl⟩
    obtain ⟨prepared, hrun, hargs, htype⟩ := hprepared named
    obtain ⟨handled, hlast, hkept⟩ := compileRequirement_of_accepts htest h prepared
    have hhandled : ([fileGiven, plainRun] ++
        [(⟨directive.name, arguments, none⟩ : AstRequirement)]).foldlM compileRequirement named =
          .ok handled := by
      rw [List.foldlM_append, hrun]
      change (compileRequirement prepared _ >>= pure) = _
      rw [hlast]
      rfl
    refine compileTest_of_handled rfl hnamed hhandled (hkept.imp ?_ ?_)
    · exact fun h => h.trans hargs
    · exact fun h => h.trans htype

end PlainTest

section Files

variable {directive : Directive} {arguments : List AstArgument} {astTest : AstTest}

/-- A laid out line is read in front of any text. -/
theorem DirectiveLayout.line_of_ne_nil {name body rest : Bytes}
    (h : DirectiveLayout name arguments body) (clean : 255 ∉ body) (hrest : rest ≠ []) :
    ∃ parsed, DirectiveLine (body ++ rest) parsed rest ∧ parsed.directive = name ∧
      parsed.arguments = arguments := by
  have hclean : 255 ∉ body ++ [chAt] := by
    intro hmem
    rcases List.mem_append.mp hmem with hbody | hat
    · exact clean hbody
    · exact absurd (List.mem_singleton.mp hat) (by decide)
  obtain ⟨parsed, hline, hparsed⟩ := h.line hclean
  exact ⟨parsed, hline.carried (fun hempty => absurd hempty (List.cons_ne_nil _ _))
    (List.length_pos_iff.mpr hrest), hparsed⟩

/-- The line of a directive with one argument, which has no name. -/
def unnamedLine (name value : Bytes) : Bytes :=
  chAt :: (name ++ ((chLeftParen :: (([] ++ quoted value) ++ [chRightParen])) ++ [chNewline]))

theorem unnamedLine_layout {name value : Bytes} (hname : IsName name) (hvalue : IsString value) :
    DirectiveLayout name [⟨none, value⟩] (unnamedLine name value) :=
  .mk hname (.present (.last (List.forall_mem_nil _) (.unnamed hvalue)) (Nat.le_refl 1))

def testLine : Bytes := unnamedLine (ascii "test") (ascii "t")

def givenLine : Bytes := unnamedLine (ascii "given") (ascii "file")

def runLine : Bytes := unnamedLine (ascii "whenRun") (ascii "p")

def endtestLine : Bytes := chAt :: (ascii "endtest" ++ ([] ++ [chNewline]))

theorem DirectiveLayout.requirementText {name body rest : Bytes}
    (h : DirectiveLayout name arguments body) (clean : 255 ∉ body) (hrest : rest ≠ []) :
    RequirementText (body ++ rest) ⟨name, arguments, none⟩ rest := by
  obtain ⟨parsed, hline, rfl, rfl⟩ := h.line_of_ne_nil clean hrest
  exact .bare hline

theorem testLine_text {rest : Bytes} (hrest : rest ≠ []) :
    PrologText (testLine ++ rest) [⟨none, ascii "t"⟩] rest := by
  have hlayout : DirectiveLayout (ascii "test") [⟨none, ascii "t"⟩] testLine :=
    unnamedLine_layout (by decide) (by decide)
  obtain ⟨parsed, hline, hparsed, harguments⟩ := hlayout.line_of_ne_nil (by decide) hrest
  exact harguments ▸ .mk hline hparsed

theorem givenLine_text {rest : Bytes} (hrest : rest ≠ []) :
    RequirementText (givenLine ++ rest) fileGiven rest := by
  have hlayout : DirectiveLayout (ascii "given") [⟨none, ascii "file"⟩] givenLine :=
    unnamedLine_layout (by decide) (by decide)
  exact hlayout.requirementText (by decide) hrest

theorem runLine_text {rest : Bytes} (hrest : rest ≠ []) :
    RequirementText (runLine ++ rest) plainRun rest := by
  have hlayout : DirectiveLayout (ascii "whenRun") [⟨none, ascii "p"⟩] runLine :=
    unnamedLine_layout (by decide) (by decide)
  exact hlayout.requirementText (by decide) hrest

theorem endtestLine_text {rest : Bytes} (hrest : rest ≠ []) :
    EpilogText (endtestLine ++ rest) rest := by
  have hlayout : DirectiveLayout (ascii "endtest") [] endtestLine := .mk (by decide) .absent
  obtain ⟨parsed, hline, hparsed, harguments⟩ := hlayout.line_of_ne_nil (by decide) hrest
  exact .mk hline hparsed harguments

theorem newlines_text (count : Nat) : TestsText (List.replicate count chNewline) [] [] := by
  induction count with
  | zero => exact .nil []
  | succ count ih => exact .newline ih

theorem Lexes.ne_nil {mode : TokenizerMode} {text name following : Bytes}
    (h : Lexes mode text (.directive name) following) : text ≠ [] := by
  rintro rfl
  cases h.head_directive

/-- A list that the parser can produce stands in a line that is not the last of its file. -/
theorem Directive.Produces.line (h : directive.Produces arguments) :
    ∃ front rest parsed, DirectiveLine (front ++ rest) parsed rest ∧ rest ≠ [] ∧
      parsed.directive = directive.name ∧ parsed.arguments = arguments := by
  obtain ⟨⟨_, requirements⟩, ⟨source, tests, hparse, hmem⟩, harguments⟩ := h
  have htests := (parseTestSuite_iff_testsText source tests).mp hparse
  obtain ⟨earlier, later, rfl⟩ := List.append_of_mem hmem
  obtain ⟨start, next, -, htest, -⟩ := htests.split
  cases htest with
  | mk hprolog hbody hpositive hlimit hepilog =>
      obtain ⟨_, hlexes⟩ := hepilog.lexes .none
      by_cases htest : directive = .test
      · subst htest
        obtain rfl : _ = arguments := harguments
        obtain ⟨_, _, hbodyLexes, -⟩ := hbody.lexes hlexes
        cases hprolog with
        | mk hline hname =>
            obtain ⟨front, rfl⟩ := hline.suffix
            exact ⟨front, _, _, hline, hbodyLexes.ne_nil, hname, rfl⟩
      · have hhas : ∃ requirement ∈ requirements,
            requirement.name = directive.name ∧ requirement.arguments = arguments := by
          cases directive with
          | test => exact absurd rfl htest
          | _ => exact harguments
        obtain ⟨requirement, hrequirement, hname, rfl⟩ := hhas
        obtain ⟨done, others, rfl⟩ := List.append_of_mem hrequirement
        obtain ⟨middle, -, hrest⟩ := hbody.split
        cases hrest with
        | cons hrequirement _ hothers =>
            obtain ⟨_, _, hothersLexes, -⟩ := hothers.lexes hlexes
            cases hrequirement with
            | bare hline =>
                obtain ⟨front, rfl⟩ := hline.suffix
                exact ⟨front, _, _, hline, hothersLexes.ne_nil, hname, rfl⟩
            | withContent hline hcontent _ _ =>
                obtain ⟨front, rfl⟩ := hline.suffix
                refine ⟨front, _, _, hline, ?_, hname, rfl⟩
                rintro rfl
                exact hothersLexes.ne_nil (List.suffix_nil.mp hcontent.carries.suffix)

/-- The requirements of the plain test in front of others. -/
theorem plainRequirements_text {text rest : Bytes} {requirements : List AstRequirement}
    (h : RequirementsText text requirements rest) (htext : text ≠ []) :
    RequirementsText (givenLine ++ (runLine ++ text)) (fileGiven :: plainRun :: requirements)
      rest := by
  have hgivenName : fileGiven.name ≠ ascii "endtest" := by decide
  have hrunName : plainRun.name ≠ ascii "endtest" := by decide
  have hrest : runLine ++ text ≠ [] := List.append_ne_nil_of_right_ne_nil _ htext
  exact .cons (givenLine_text hrest) hgivenName (.cons (runLine_text htext) hrunName h)

theorem Directive.name_ne_endtest : directive.name ≠ ascii "endtest" := by
  cases directive <;> decide

/-- A file with the plain test has the line of the list and as many newlines as were behind it. -/
theorem Directive.plainTest_parsed (h : directive.Produces arguments) :
    Parsed (directive.plainTest arguments) := by
  obtain ⟨front, rest, parsed, hline, hrest, hname, rfl⟩ := h.line
  have hnewlines : List.replicate rest.length chNewline ≠ [] := by
    intro hnil
    exact hrest (List.length_eq_zero_iff.mp (List.replicate_eq_nil_iff _ |>.mp hnil))
  generalize hlast : endtestLine ++ List.replicate rest.length chNewline = last
  have hepilog : EpilogText last (List.replicate rest.length chNewline) := by
    rw [← hlast]
    exact endtestLine_text hnewlines
  have hlastNe : last ≠ [] := by
    rw [← hlast]
    exact List.append_ne_nil_of_right_ne_nil _ hnewlines
  have hlength : rest.length ≤ last.length := by
    rw [← hlast, List.length_append, List.length_replicate]
    exact Nat.le_add_left _ _
  have hparse {source : Bytes}
      (htest : TestText source (directive.plainTest parsed.arguments)
        (List.replicate rest.length chNewline)) : Parsed (directive.plainTest parsed.arguments) :=
    ⟨source, _, (parseTestSuite_iff_testsText _ _).mpr (.test htest (newlines_text _)),
      List.mem_singleton.mpr rfl⟩
  have hcarried (text : Bytes) : DirectiveLine (front ++ (text ++ last)) parsed (text ++ last) := by
    apply hline.carried (fun hempty => absurd hempty hrest)
    rw [List.length_append]
    exact Nat.le_add_left_of_le hlength
  by_cases htest : directive = .test
  · subst htest
    have hbody := plainRequirements_text (.nil last) hlastNe
    have hprolog := hcarried (givenLine ++ runLine)
    rw [List.append_assoc] at hprolog
    exact hparse (.mk (.mk hprolog hname) hbody (by decide) (by decide) hepilog)
  · rw [plainTest_eq htest] at hparse ⊢
    rw [← hname] at hparse ⊢
    have hlisted : RequirementsText (front ++ last) [⟨parsed.directive, parsed.arguments, none⟩]
        last := .cons (.bare (hcarried [])) (hname ▸ name_ne_endtest) (.nil last)
    have hbody := plainRequirements_text hlisted (List.append_ne_nil_of_right_ne_nil _ hlastNe)
    refine hparse (.mk (testLine_text ?_) hbody (by simp) (by simp [maxRequirementCount]) hepilog)
    exact List.append_ne_nil_of_right_ne_nil _ (List.append_ne_nil_of_right_ne_nil _
      (List.append_ne_nil_of_right_ne_nil _ hlastNe))

end Files

section Rejected

variable {directive : Directive} {arguments : List AstArgument}

theorem Directive.rejects_iff (h : directive.Produces arguments) :
    directive.Rejects arguments ↔ ¬directive.Accepts arguments := by
  constructor
  · intro hrejects haccepts
    obtain ⟨test, hcompiled⟩ := plainTest_compiled haccepts
    obtain ⟨message, hfatal⟩ := hrejects _ (plainTest_parsed h) plainTest_hasArguments
    rw [hcompiled] at hfatal
    cases hfatal
  · intro haccepts astTest _ harguments
    cases hcompiled : compileTest astTest with
    | ok test => exact absurd (compileTest_accepts hcompiled harguments) haccepts
    | error halt =>
        obtain ⟨message, hfatal⟩ := compileTest_fatal hcompiled
        exact ⟨message, hcompiled ▸ hfatal⟩

/-- Bad lists are rejected where their handler stops at an argument, and where the last values
of the parameters it looks at are not allowed. -/
theorem badArguments_rejected_iff (directive : Directive) (arguments : List AstArgument)
    (hproduced : directive.Produces arguments) :
    (directive.Bad arguments → directive.Rejects arguments) ↔
      (directive.Bad arguments → directive.Caught arguments ∨
        ¬directive.Allows (directive.lastValue (directive.scanned arguments))) := by
  apply imp_congr_right
  intro _
  rw [Directive.rejects_iff hproduced]
  constructor
  · intro haccepts
    by_contra hneither
    rw [not_or, not_not] at hneither
    exact haccepts ⟨hneither.1, hneither.2⟩
  · rintro (hcaught | hrefused) haccepts
    · exact haccepts.passed hcaught
    · exact hrefused haccepts.allowed

/-- A test whose name is given by name and then without a name. -/
def overriddenName : List AstArgument := [⟨some (ascii "name"), ascii "a"⟩, ⟨none, ascii "b"⟩]

/-- A test whose name is given twice by name. -/
def repeatedName : List AstArgument :=
  [⟨some (ascii "name"), ascii "a"⟩, ⟨some (ascii "name"), ascii "b"⟩]

theorem overriddenName_parsed : Parsed (Directive.test.plainTest overriddenName) :=
  ⟨ascii "@test(name=\"a\",\"b\")\n@given(\"file\")\n@whenRun(\"p\")\n@endtest\n", [_],
    by decide +kernel, List.mem_singleton_self _⟩

theorem repeatedName_parsed : Parsed (Directive.test.plainTest repeatedName) :=
  ⟨ascii "@test(name=\"a\",name=\"b\")\n@given(\"file\")\n@whenRun(\"p\")\n@endtest\n", [_],
    by decide +kernel, List.mem_singleton_self _⟩

theorem badArguments_rejected_repeatedName : Directive.test.Rejects repeatedName := by
  have hbad : Directive.test.Bad repeatedName := .inl (by decide)
  have hcaught : Directive.test.Caught repeatedName :=
    ⟨[⟨some (ascii "name"), ascii "a"⟩], ⟨some (ascii "name"), ascii "b"⟩, [], rfl, rfl,
      .inr (by decide)⟩
  exact (badArguments_rejected_iff .test repeatedName ⟨_, repeatedName_parsed, rfl⟩).mpr
    (fun _ => .inl hcaught) hbad

/-- The handler of `test` has no check for an argument without a name. -/
theorem overriddenName_compiled : Directive.test.Produces overriddenName ∧
    Directive.test.Bad overriddenName ∧ ¬Directive.test.Rejects overriddenName := by
  refine ⟨⟨_, overriddenName_parsed, rfl⟩, .inl (by decide), ?_⟩
  intro hrejects
  obtain ⟨message, hfatal⟩ := hrejects _ overriddenName_parsed rfl
  have hcompiled : (compileTest (Directive.test.plainTest overriddenName)).isOk = true := by
    decide +kernel
  rw [hfatal] at hcompiled
  cases hcompiled

end Rejected

end JCUnit
