import JCUnit.Frontend.DirectiveLines
import JCUnit.Frontend.Layout

/-!
# The pieces of a file

Each predicate relates the text in front of a piece of the tree to the text behind it. Other
than a layout it is about the bytes of any file, and what counts as the line of a directive is
left to `parse_directive`.
-/

namespace JCUnit

/-- The characters of a content. A byte 255 behind a lone at sign is pushed back and then reads
as the end of the file, so no content goes on with it. -/
inductive ContentText : Bytes → Bytes → Bytes → Prop
  | nil (rest : Bytes) : ContentText rest [] rest
  | cons {text chars middle rest : Bytes} {b : Byte}
      (hlexes : Lexes .directiveAndText text (.character b) middle)
      (hkept : lookAhead .directiveAndText text ≠ some 255)
      (hcontent : ContentText middle chars rest) : ContentText text (b :: chars) rest

inductive RequirementText : Bytes → AstRequirement → Bytes → Prop
  | bare {text rest : Bytes} {directive : DirectiveParseContext}
      (hline : DirectiveLine text directive rest) :
      RequirementText text ⟨directive.directive, directive.arguments, none⟩ rest
  | withContent {text middle chars rest : Bytes} {directive : DirectiveParseContext}
      (hline : DirectiveLine text directive middle) (hcontent : ContentText middle chars rest)
      (hpositive : 1 ≤ chars.length) (hlimit : chars.length < maxRequirementContentSize) :
      RequirementText text
        ⟨directive.directive, directive.arguments, some (dropFinalNewline chars)⟩ rest

inductive RequirementsText : Bytes → List AstRequirement → Bytes → Prop
  | nil (rest : Bytes) : RequirementsText rest [] rest
  | cons {text middle rest : Bytes} {requirement : AstRequirement}
      {requirements : List AstRequirement} (hrequirement : RequirementText text requirement middle)
      (hname : requirement.name ≠ ascii "endtest")
      (hrequirements : RequirementsText middle requirements rest) :
      RequirementsText text (requirement :: requirements) rest

inductive PrologText : Bytes → List AstArgument → Bytes → Prop
  | mk {text rest : Bytes} {directive : DirectiveParseContext}
      (hline : DirectiveLine text directive rest) (hname : directive.directive = ascii "test") :
      PrologText text directive.arguments rest

inductive EpilogText : Bytes → Bytes → Prop
  | mk {text rest : Bytes} {directive : DirectiveParseContext}
      (hline : DirectiveLine text directive rest) (hname : directive.directive = ascii "endtest")
      (harguments : directive.arguments = []) : EpilogText text rest

inductive TestText : Bytes → AstTest → Bytes → Prop
  | mk {text body last rest : Bytes} {arguments : List AstArgument}
      {requirements : List AstRequirement} (hprolog : PrologText text arguments body)
      (hbody : RequirementsText body requirements last) (hpositive : 1 ≤ requirements.length)
      (hlimit : requirements.length ≤ maxRequirementCount) (hepilog : EpilogText last rest) :
      TestText text ⟨arguments, requirements⟩ rest

/-- Tests in order, with newlines in front of them and between them. -/
inductive TestsText : Bytes → List AstTest → Bytes → Prop
  | nil (rest : Bytes) : TestsText rest [] rest
  | newline {text rest : Bytes} {tests : List AstTest} (htests : TestsText text tests rest) :
      TestsText (chNewline :: text) tests rest
  | test {text middle rest : Bytes} {test : AstTest} {tests : List AstTest}
      (htest : TestText text test middle) (htests : TestsText middle tests rest) :
      TestsText text (test :: tests) rest

section Carried

variable {text rest rest' : Bytes}

theorem AtStandsAlone.of_head (h : AtStandsAlone rest) (hhead : rest.head? = rest'.head?) :
    AtStandsAlone rest' := by
  intro b hb
  exact h b (hhead ▸ hb)

/-- The byte behind a lone at sign is read and pushed back. -/
theorem lookAhead_lone (mode : TokenizerMode) (h : AtStandsAlone rest) :
    lookAhead mode (chAt :: rest) = rest.head? := by
  cases rest with
  | nil => rfl
  | cons b rest =>
      obtain ⟨hname, hat⟩ := h b rfl
      simp [lookAhead, hname, hat]

theorem lookAhead_text {b : Byte} (hb : b ≠ chAt) (rest : Bytes) :
    lookAhead .directiveAndText (b :: rest) = none := by
  simp [lookAhead, hb]

theorem ContentText.carries {chars : Bytes} (h : ContentText text chars rest) :
    Carries (fun text rest => ContentText text chars rest) text rest := by
  induction h with
  | nil => exact .refl .nil _
  | @cons text chars middle rest b hlexes hkept _ ih =>
      obtain ⟨front, rfl, hcarried⟩ := ih
      cases hlexes with
      | escapedAt =>
          refine ⟨chAt :: chAt :: front, rfl, ?_⟩
          intro rest' hahead
          exact .cons (.escapedAt _ (front ++ rest')) hkept (hcarried rest' hahead)
      | loneAt _ halone =>
          refine ⟨chAt :: front, rfl, ?_⟩
          intro rest' hahead
          have hhead := (hahead.append front).1
          have halone' := halone.of_head hhead
          rw [lookAhead_lone _ halone, hhead, ← lookAhead_lone _ halone'] at hkept
          exact .cons (.loneAt _ halone') hkept (hcarried rest' hahead)
      | text _ hb =>
          refine ⟨b :: front, rfl, ?_⟩
          intro rest' hahead
          rw [lookAhead_text hb, ← lookAhead_text hb (front ++ rest')] at hkept
          exact .cons (.text _ hb) hkept (hcarried rest' hahead)

theorem RequirementText.carries {requirement : AstRequirement}
    (h : RequirementText text requirement rest) :
    Carries (fun text rest => RequirementText text requirement rest) text rest := by
  cases h with
  | bare hline => exact hline.carries.mono fun _ _ hline => .bare hline
  | withContent hline hcontent hpositive hlimit =>
      apply (hline.carries.trans hcontent.carries).mono
      rintro text rest ⟨middle, hline, hcontent⟩
      exact .withContent hline hcontent hpositive hlimit

theorem RequirementsText.carries {requirements : List AstRequirement}
    (h : RequirementsText text requirements rest) :
    Carries (fun text rest => RequirementsText text requirements rest) text rest := by
  induction h with
  | nil => exact .refl .nil _
  | cons hrequirement hname _ ih =>
      apply (hrequirement.carries.trans ih).mono
      rintro text rest ⟨middle, hrequirement, hrequirements⟩
      exact .cons hrequirement hname hrequirements

theorem PrologText.carries {arguments : List AstArgument} (h : PrologText text arguments rest) :
    Carries (fun text rest => PrologText text arguments rest) text rest := by
  cases h with
  | mk hline hname => exact hline.carries.mono fun _ _ hline => .mk hline hname

theorem EpilogText.carries (h : EpilogText text rest) : Carries EpilogText text rest := by
  cases h with
  | mk hline hname harguments =>
      exact hline.carries.mono fun _ _ hline => .mk hline hname harguments

theorem TestText.carries {test : AstTest} (h : TestText text test rest) :
    Carries (fun text rest => TestText text test rest) text rest := by
  cases h with
  | mk hprolog hbody hpositive hlimit hepilog =>
      apply (hprolog.carries.trans (hbody.carries.trans hepilog.carries)).mono
      rintro text rest ⟨body, hprolog, last, hbody, hepilog⟩
      exact .mk hprolog hbody hpositive hlimit hepilog

theorem TestsText.carries {tests : List AstTest} (h : TestsText text tests rest) :
    Carries (fun text rest => TestsText text tests rest) text rest := by
  induction h with
  | nil => exact .refl .nil _
  | newline _ ih =>
      obtain ⟨front, rfl, hcarried⟩ := ih
      exact ⟨chNewline :: front, rfl, fun rest' hahead => .newline (hcarried rest' hahead)⟩
  | test htest _ ih =>
      apply (htest.carries.trans ih).mono
      rintro text rest ⟨middle, htest, htests⟩
      exact .test htest htests

end Carried

section Composed

variable {text middle rest : Bytes}

theorem RequirementsText.append {requirements later : List AstRequirement}
    (h : RequirementsText text requirements middle) (hlater : RequirementsText middle later rest) :
    RequirementsText text (requirements ++ later) rest := by
  induction h with
  | nil => exact hlater
  | cons hrequirement hname _ ih => exact .cons hrequirement hname (ih hlater)

theorem TestsText.append {tests later : List AstTest} (h : TestsText text tests middle)
    (hlater : TestsText middle later rest) : TestsText text (tests ++ later) rest := by
  induction h with
  | nil => exact hlater
  | newline _ ih => exact .newline (ih hlater)
  | test htest _ ih => exact .test htest (ih hlater)

theorem RequirementsText.split {requirements later : List AstRequirement}
    (h : RequirementsText text (requirements ++ later) rest) :
    ∃ middle, RequirementsText text requirements middle ∧ RequirementsText middle later rest := by
  induction requirements generalizing text with
  | nil => exact ⟨text, .nil text, h⟩
  | cons requirement requirements ih =>
      cases h with
      | cons hrequirement hname hrequirements =>
          obtain ⟨middle, hfirst, hlater⟩ := ih hrequirements
          exact ⟨middle, .cons hrequirement hname hfirst, hlater⟩

/-- The newlines in front of a test belong to what comes before it. -/
theorem TestsText.split {tests later : List AstTest} {test : AstTest}
    (h : TestsText text (tests ++ test :: later) rest) :
    ∃ start next, TestsText text tests start ∧ TestText start test next ∧
      TestsText next later rest := by
  generalize hall : tests ++ test :: later = all at h
  induction h generalizing tests with
  | nil => cases List.append_eq_nil_iff.mp hall |>.2
  | newline _ ih =>
      obtain ⟨start, next, htests, htest, hlater⟩ := ih hall
      exact ⟨start, next, .newline htests, htest, hlater⟩
  | @test text middle rest first others htest htests ih =>
      cases tests with
      | nil =>
          obtain ⟨rfl, rfl⟩ := List.cons.inj hall
          exact ⟨text, middle, .nil text, htest, htests⟩
      | cons _ tests =>
          obtain ⟨rfl, hothers⟩ := List.cons.inj hall
          obtain ⟨start, next, hbefore, htest', hlater⟩ := ih hothers
          exact ⟨start, next, .test htest hbefore, htest', hlater⟩

end Composed

section Starts

variable {text rest : Bytes} {mode : TokenizerMode}

theorem PrologText.lexes {arguments : List AstArgument} (h : PrologText text arguments rest)
    (mode : TokenizerMode) :
    ∃ following, Lexes mode text (.directive (ascii "test")) following := by
  cases h with
  | mk hline hname => exact hname ▸ hline.lexes mode

theorem EpilogText.lexes (h : EpilogText text rest) (mode : TokenizerMode) :
    ∃ following, Lexes mode text (.directive (ascii "endtest")) following := by
  cases h with
  | mk hline hname _ => exact hname ▸ hline.lexes mode

theorem RequirementText.lexes {requirement : AstRequirement}
    (h : RequirementText text requirement rest) (mode : TokenizerMode) :
    ∃ following, Lexes mode text (.directive requirement.name) following := by
  cases h with
  | bare hline => exact hline.lexes mode
  | withContent hline _ _ _ => exact hline.lexes mode

theorem TestText.lexes {test : AstTest} (h : TestText text test rest) (mode : TokenizerMode) :
    ∃ following, Lexes mode text (.directive (ascii "test")) following := by
  cases h with
  | mk hprolog _ _ _ _ => exact hprolog.lexes mode

/-- The directive behind the requirements is the one in front of the first, if there is one. -/
theorem RequirementsText.lexes {requirements : List AstRequirement} {following : Bytes}
    (h : RequirementsText text requirements rest)
    (hrest : Lexes mode rest (.directive (ascii "endtest")) following) :
    ∃ name following, Lexes mode text (.directive name) following ∧
      (name = ascii "endtest" → requirements = []) := by
  cases h with
  | nil => exact ⟨_, following, hrest, fun _ => rfl⟩
  | cons hrequirement hname _ =>
      obtain ⟨following', hlexes⟩ := hrequirement.lexes mode
      exact ⟨_, following', hlexes, fun heq => absurd heq hname⟩

/-- A directive begins with an at sign. -/
theorem Lexes.head_directive {name following : Bytes}
    (h : Lexes mode text (.directive name) following) : text.head? = some chAt := by
  cases h
  rfl

theorem DirectiveLine.length_lt {directive : DirectiveParseContext}
    (h : DirectiveLine text directive rest) : rest.length < text.length := by
  obtain ⟨front, rfl, hcarried⟩ := h.carries
  cases front with
  | cons b front =>
      rw [List.length_append]
      exact Nat.lt_add_of_pos_left (Nat.succ_pos _)
  | nil =>
      -- a line of no length would stand in front of an escaped at sign
      obtain ⟨_, hlexes⟩ := h.lexes .none
      have hahead : SameAhead rest (chAt :: chAt :: rest) :=
        ⟨hlexes.head_directive, Nat.le_add_right rest.length 2⟩
      obtain ⟨_, hlexes'⟩ := DirectiveLine.lexes (hcarried _ hahead) .none
      cases (hlexes'.unique (.escapedAt .none rest)).1

theorem TestText.length_lt {test : AstTest} (h : TestText text test rest) :
    rest.length < text.length := by
  cases h with
  | mk hprolog hbody _ _ hepilog =>
      cases hprolog with
      | mk hline _ =>
          calc rest.length
              ≤ _ := hepilog.carries.suffix.length_le
            _ ≤ _ := hbody.carries.suffix.length_le
            _ < text.length := hline.length_lt

theorem TestsText.lexes {tests : List AstTest} (h : TestsText text tests []) :
    ∃ token following, Lexes .none text token following := by
  generalize hrest : ([] : Bytes) = rest at h
  cases h with
  | nil =>
      obtain rfl := hrest
      exact ⟨.eof, [], .eof .none⟩
  | newline _ => exact ⟨_, _, .newline _⟩
  | test htest _ =>
      obtain ⟨following, hlexes⟩ := htest.lexes .none
      exact ⟨_, following, hlexes⟩

/-- The newlines at the start are followed by a token that is none. -/
theorem TestsText.newlines_split {tests : List AstTest} (h : TestsText text tests []) :
    ∃ count rest token following, text = List.replicate count chNewline ++ rest ∧
      TestsText rest tests [] ∧ Lexes .none rest token following ∧ token ≠ .newline := by
  generalize hend : ([] : Bytes) = last at h
  induction h with
  | nil =>
      obtain rfl := hend
      exact ⟨0, [], .eof, [], rfl, .nil [], .eof .none, Token.noConfusion⟩
  | newline _ ih =>
      obtain ⟨count, rest, token, following, htext, hrest, hlexes, hother⟩ := ih hend
      refine ⟨count + 1, rest, token, following, ?_, hrest, hlexes, hother⟩
      rw [htext]
      rfl
  | test htest htests _ =>
      obtain ⟨following, hlexes⟩ := htest.lexes .none
      exact ⟨0, _, _, following, rfl, .test htest htests, hlexes, Token.noConfusion⟩

end Starts

end JCUnit
