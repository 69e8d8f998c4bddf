import JCUnit.Frontend.DirectiveRuns
import JCUnit.Frontend.SuiteParsing

/-!
# Runs of the suite parser

Without a byte 255 the pieces of a file are the layouts of the tree. Together with what
`parse_test_suite` accepts of any file this says that it accepts the layouts of a suite and
nothing else.
-/

namespace JCUnit

open StateError

section Pieces

variable {text body rest chars : Bytes}

theorem Raw.fresh_eq {mode : TokenizerMode} (h : Raw (JCUnit.fresh text mode) rest mode) :
    rest = text :=
  h.text_eq.symm

theorem DirectiveLine.layout {directive : DirectiveParseContext} (clean : 255 ∉ text)
    (h : DirectiveLine text directive rest) :
    ∃ body, DirectiveLayout directive.directive directive.arguments body ∧ text = body ++ rest := by
  obtain ⟨body, rest', hlayout, htext, hraw⟩ := parseDirective_sound (.raw (.fresh clean)) (h .none)
  rw [hraw.fresh_eq] at htext
  exact ⟨body, hlayout, htext⟩

theorem DirectiveLayout.line {name : Bytes} {arguments : List AstArgument}
    (h : DirectiveLayout name arguments body) (clean : 255 ∉ body ++ rest) :
    ∃ directive, DirectiveLine (body ++ rest) directive rest ∧ directive.directive = name ∧
      directive.arguments = arguments := by
  have hstart : Unread (fresh (body ++ rest) .none) (body ++ rest) .none := .raw (.fresh clean)
  obtain ⟨directive, after, hrun, hname, harguments, hraw⟩ := parseDirective_complete h hstart
  obtain ⟨rest', rfl, hline⟩ := parseDirective_line hrun
  rw [← hraw.fresh_eq] at hline
  exact ⟨directive, hline, hname, harguments⟩

/-- An at sign that stands alone stays one when the content goes on behind it. -/
theorem ContentLayout.lone_of_alone {name following : Bytes} (hbody : ContentLayout chars body)
    (hrest : Lexes .directiveAndText rest (.directive name) following)
    (halone : AtStandsAlone (body ++ rest)) : ContentLayout (chAt :: chars) (chAt :: body) := by
  cases body with
  | nil =>
      cases hrest with
      | directive _ _ _ => exact absurd rfl (halone chAt rfl).2
  | cons b body =>
      obtain ⟨hname, hat⟩ := halone b rfl
      exact .lone hat hname hbody

theorem ContentText.layout {name following : Bytes} (h : ContentText text chars rest)
    (hrest : Lexes .directiveAndText rest (.directive name) following) :
    ∃ body, ContentLayout chars body ∧ text = body ++ rest := by
  induction h with
  | nil => exact ⟨[], .nil, rfl⟩
  | cons hlexes _ _ ih =>
      obtain ⟨body, hbody, rfl⟩ := ih hrest
      cases hlexes with
      | escapedAt => exact ⟨_, .escaped hbody, rfl⟩
      | loneAt _ halone => exact ⟨_, hbody.lone_of_alone hrest halone, rfl⟩
      | text _ hb => exact ⟨_, .plain hb hbody, rfl⟩

theorem ContentLayout.piece (h : ContentLayout chars body) (clean : 255 ∉ body ++ rest) :
    ContentText (body ++ rest) chars rest := by
  induction h with
  | nil => exact .nil rest
  | plain hb _ ih =>
      refine .cons (.text _ hb) ?_ (ih (clean_tail clean))
      rw [List.cons_append, lookAhead_text hb]
      exact nofun
  | escaped _ ih => exact .cons (.escapedAt _ _) nofun (ih (clean_tail (clean_tail clean)))
  | @lone b chars body hat hname _ ih =>
      have halone : AtStandsAlone (b :: body ++ rest) := .cons hname hat
      refine .cons (.loneAt _ halone) ?_ (ih (clean_tail clean))
      rw [List.cons_append, lookAhead_lone _ halone]
      intro hbad
      apply clean_tail clean
      exact List.mem_of_mem_head? hbad

theorem RequirementText.layout {requirement : AstRequirement} {name following : Bytes}
    (clean : 255 ∉ text) (h : RequirementText text requirement rest)
    (hrest : Lexes .directiveAndText rest (.directive name) following) :
    ∃ body, RequirementLayout requirement body ∧ text = body ++ rest := by
  cases h with
  | bare hline =>
      obtain ⟨body, hlayout, rfl⟩ := hline.layout clean
      exact ⟨body, .bare hlayout, rfl⟩
  | withContent hline hcontent hpositive hlimit =>
      obtain ⟨body, hlayout, rfl⟩ := hline.layout clean
      obtain ⟨content, hcontentLayout, rfl⟩ := hcontent.layout hrest
      exact ⟨body ++ content,
        .withContent hlayout hcontentLayout hpositive (Nat.le_of_lt_succ hlimit), by simp⟩

theorem RequirementLayout.piece {requirement : AstRequirement}
    (h : RequirementLayout requirement body) (clean : 255 ∉ body ++ rest) :
    RequirementText (body ++ rest) requirement rest := by
  cases h with
  | bare hlayout =>
      obtain ⟨directive, hline, rfl, rfl⟩ := hlayout.line clean
      exact .bare hline
  | withContent hlayout hcontent hpositive hlimit =>
      rw [List.append_assoc] at clean ⊢
      obtain ⟨directive, hline, rfl, rfl⟩ := hlayout.line clean
      exact .withContent hline (hcontent.piece (clean_of_append clean)) hpositive
        (Nat.lt_succ_of_le hlimit)

theorem RequirementsText.layout {requirements : List AstRequirement} {following : Bytes}
    (clean : 255 ∉ text) (h : RequirementsText text requirements rest)
    (hrest : Lexes .directiveAndText rest (.directive (ascii "endtest")) following) :
    ∃ body, RequirementListLayout requirements body ∧ text = body ++ rest := by
  induction h with
  | nil => exact ⟨[], .nil, rfl⟩
  | cons hrequirement hname hrequirements ih =>
      have clean' := fun hmem => clean (hrequirement.carries.suffix.mem hmem)
      obtain ⟨_, _, hnext, -⟩ := hrequirements.lexes hrest
      obtain ⟨first, hfirst, rfl⟩ := hrequirement.layout clean hnext
      obtain ⟨body, hbody, rfl⟩ := ih clean' hrest
      exact ⟨first ++ body, .cons hfirst hname hbody, by simp⟩

theorem RequirementListLayout.piece {requirements : List AstRequirement}
    (h : RequirementListLayout requirements body) (clean : 255 ∉ body ++ rest) :
    RequirementsText (body ++ rest) requirements rest := by
  induction h with
  | nil => exact .nil rest
  | cons hrequirement hname _ ih =>
      rw [List.append_assoc] at clean ⊢
      exact .cons (hrequirement.piece clean) hname (ih (clean_of_append clean))

theorem TestText.layout {test : AstTest} (clean : 255 ∉ text) (h : TestText text test rest) :
    ∃ body, TestLayout test body ∧ text = body ++ rest := by
  cases h with
  | mk hprolog hbody hpositive hlimit hepilog =>
      have hend := hepilog.lexes .directiveAndText
      cases hprolog with
      | mk hline hname =>
          obtain ⟨prolog, hprolog, rfl⟩ := hline.layout clean
          have clean := clean_of_append clean
          obtain ⟨_, hend⟩ := hend
          obtain ⟨body, hbodyLayout, rfl⟩ := hbody.layout clean hend
          have clean := clean_of_append clean
          cases hepilog with
          | mk hline hendName harguments =>
              obtain ⟨epilog, hepilog, rfl⟩ := hline.layout clean
              rw [hendName, harguments] at hepilog
              rw [hname] at hprolog
              exact ⟨prolog ++ (body ++ epilog),
                .mk hprolog hbodyLayout hpositive hlimit hepilog, by simp⟩

theorem TestLayout.piece {test : AstTest} (h : TestLayout test body) (clean : 255 ∉ body ++ rest) :
    TestText (body ++ rest) test rest := by
  cases h with
  | mk hprolog hbody hpositive hlimit hepilog =>
      rw [List.append_assoc, List.append_assoc] at clean ⊢
      obtain ⟨first, hfirst, hname, rfl⟩ := hprolog.line clean
      have clean := clean_of_append clean
      obtain ⟨last, hlast, hend, harguments⟩ := hepilog.line (clean_of_append clean)
      exact .mk (.mk hfirst hname) (hbody.piece clean) hpositive hlimit (.mk hlast hend harguments)

theorem TestsText.layout {tests : List AstTest} (clean : 255 ∉ text)
    (h : TestsText text tests []) : SuiteLayout tests text := by
  generalize hlast : ([] : Bytes) = last at h
  induction h with
  | nil =>
      obtain rfl := hlast
      exact .nil
  | newline _ ih => exact .newline (ih (clean_tail clean) hlast)
  | test htest _ ih =>
      obtain ⟨body, hbody, rfl⟩ := htest.layout clean
      exact .test hbody (ih (clean_of_append clean) hlast)

theorem SuiteLayout.piece {tests : List AstTest} (h : SuiteLayout tests body)
    (clean : 255 ∉ body) : TestsText body tests [] := by
  induction h with
  | nil => exact .nil []
  | newline _ ih => exact .newline (ih (clean_tail clean))
  | test htest _ ih => exact .test (htest.piece clean) (ih (clean_of_append clean))

end Pieces

/-- `parse_test_suite` accepts the layouts of a suite, with their tests, and nothing else. -/
theorem parseTestSuite_eq_ok_iff (source : Bytes) (clean : 255 ∉ source) (tests : List AstTest) :
    parseTestSuite source = .ok tests ↔ SuiteLayout tests source := by
  rw [parseTestSuite_iff_testsText]
  constructor
  · intro htests
    exact htests.layout clean
  · intro hlayout
    exact hlayout.piece clean

/-- A test with one requirement, whose content is an at sign. -/
theorem parseTestSuite_eq_ok_iff_at_sign :
    SuiteLayout [⟨[], [⟨ascii "given", [], some (ascii "@")⟩]⟩]
      (ascii "\n@test\n@given\n@@\n@endtest\n") :=
  (parseTestSuite_eq_ok_iff _ (by decide) _).mp (by decide +kernel)

end JCUnit
