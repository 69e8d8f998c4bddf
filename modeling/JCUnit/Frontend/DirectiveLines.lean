import JCUnit.Frontend.DirectiveNames
import JCUnit.Frontend.Locality
import JCUnit.Frontend.LookAhead

/-!
# The line of a directive

`parse_directive` is stated as a relation between the text in front of a directive and the text
behind its line, in whichever mode the tokenizer is. What comes behind the line does not matter
to it, and nothing of it is read.
-/

namespace JCUnit

open StateError

/-- Both texts start alike or both are empty, and the second one is no shorter. -/
def SameAhead (rest rest' : Bytes) : Prop := rest.head? = rest'.head? ∧ rest.length ≤ rest'.length

/-- What stands in front of `rest` may as well stand in front of other texts. -/
def Carries (R : Bytes → Bytes → Prop) (text rest : Bytes) : Prop :=
  ∃ front, text = front ++ rest ∧ ∀ rest', SameAhead rest rest' → R (front ++ rest') rest'

section Carries

variable {R Q : Bytes → Bytes → Prop} {text middle rest rest' : Bytes}

theorem SameAhead.append (h : SameAhead rest rest') (front : Bytes) :
    SameAhead (front ++ rest) (front ++ rest') := by
  constructor
  · cases front with
    | nil => exact h.1
    | cons b front => rfl
  · rw [List.length_append, List.length_append]
    exact Nat.add_le_add_left h.2 front.length

theorem SameAhead.eq_nil (h : SameAhead rest rest') (hrest : rest = []) : rest' = [] := by
  apply List.head?_eq_none_iff.mp
  rw [← h.1, hrest, List.head?_nil]

theorem Carries.refl (h : ∀ rest, R rest rest) (rest : Bytes) : Carries R rest rest :=
  ⟨[], rfl, fun rest' _ => h rest'⟩

theorem Carries.trans (h : Carries R text middle) (h' : Carries Q middle rest) :
    Carries (fun text rest => ∃ middle, R text middle ∧ Q middle rest) text rest := by
  obtain ⟨front, rfl, hR⟩ := h
  obtain ⟨front', rfl, hQ⟩ := h'
  refine ⟨front ++ front', (List.append_assoc _ _ _).symm, ?_⟩
  intro rest' hahead
  rw [List.append_assoc]
  exact ⟨front' ++ rest', hR _ (hahead.append front'), hQ rest' hahead⟩

theorem Carries.mono (h : Carries R text rest) (hRQ : ∀ text rest, R text rest → Q text rest) :
    Carries Q text rest := by
  obtain ⟨front, rfl, hR⟩ := h
  exact ⟨front, rfl, fun rest' hahead => hRQ _ rest' (hR rest' hahead)⟩

theorem Carries.suffix (h : Carries R text rest) : rest <:+ text := by
  obtain ⟨front, rfl, -⟩ := h
  exact List.suffix_append front rest

end Carries

/-- The directive that a text begins with, and the text behind its line. -/
def DirectiveLine (text : Bytes) (directive : DirectiveParseContext) (rest : Bytes) : Prop :=
  ∀ mode, parseDirective (fresh text mode) = .ok directive (fresh rest mode)

section Lines

variable {s t : TokenizerContext} {text following rest name : Bytes}
  {mode : TokenizerMode} {directive : DirectiveParseContext} {after : TokenizerContext}

theorem Local.buffered {α : Type} {x y : TokM α} {tokens chars tokens' chars' : Nat} {a : α}
    (h : Local [] [] tokens chars x y tokens' chars') (hs : Buffered tokens chars s)
    (hrun : x s = .ok a t) : Buffered tokens' chars' t := by
  have hbeside : Beside [] [] tokens chars s s := ⟨hs, s.source, by simp⟩
  obtain ⟨-, -, ht, -⟩ := h.run s s a t hbeside hrun fun hbeyond => hbeyond List.nil_suffix
  exact ht

/-- Nothing is pushed back behind a newline. -/
theorem Buffered.newline (hs : Buffered 0 1 s) (hrun : JCUnit.lexToken s = .ok .newline t) :
    t = fresh t.source t.mode := by
  have hleaves : ∀ text, JCUnit.lexToken (fresh text s.mode) = .ok .newline t →
      t = fresh t.source t.mode := by
    intro text hfresh
    obtain ⟨rest, hlexes, hleft⟩ := lexToken_leaves hfresh
    generalize s.mode = mode at hlexes hleft
    cases hlexes with
    | newline =>
        have hnone : lookAhead .none (chNewline :: rest) = none := rfl
        rw [hnone] at hleft
        cases rest with
        | nil => cases hleft <;> rfl
        | cons b rest =>
            cases hleft
            rfl
  by_cases hbad : 255 ∈ s.charBuffer
  · obtain ⟨source, tokenBuffer, charBuffer, mode⟩ := s
    obtain rfl := hs.tokenBuffer_eq
    obtain ⟨b, rfl⟩ := List.length_eq_one_iff.mp
      (Nat.le_antisymm hs.2 (List.length_pos_of_mem hbad))
    rw [← List.mem_singleton.mp hbad] at hrun
    cases hrun
  · have hclean : Clean s := ⟨hbad, hs.2, by simp [hs.tokenBuffer_eq]⟩
    rw [hclean.lexToken_eq hs.tokenBuffer_eq] at hrun
    exact hleaves s.undelivered hrun

theorem Lexes.directive_mode (h : Lexes mode text (.directive name) following)
    (mode' : TokenizerMode) : Lexes mode' text (.directive name) following := by
  cases h with
  | directive _ hname hends => exact .directive mode' hname hends

theorem lexToken_directive (h : Lexes mode text (.directive name) following) :
    lexToken (fresh text mode) = .ok (.directive name) (pushedBack following mode) := by
  cases h with
  | directive _ hname hends => exact (lexToken_at _ mode).trans (afterAt_directive hname hends)

theorem parseDirective_begins (hrun : parseDirective (fresh text mode) = .ok directive after) :
    ∃ name following, Lexes mode text (.directive name) following := by
  unfold parseDirective at hrun
  obtain ⟨token, context, hget, hrun⟩ := bind_eq_ok hrun
  obtain ⟨following, hlexes, -⟩ := lexToken_leaves hget
  cases token with
  | directive name => exact ⟨name, following, hlexes⟩
  | _ => cases hrun

/-- Behind the name, `parse_directive` runs in the mode `none`, whatever the mode was. -/
theorem parseDirective_eq_ok (hlexes : Lexes mode text (.directive name) following) :
    parseDirective (fresh text mode) = .ok directive after ↔
      ∃ context context', parseOptionalArguments ⟨name, [], false⟩ (pushedBack following .none) =
          .ok directive context ∧ getOneToken context = .ok .newline context' ∧
        after = { context' with mode } := by
  have hget : getOneToken (fresh text mode) =
      .ok (.directive name) (pushedBack following mode) := lexToken_directive hlexes
  have hmode : (pushedBack following mode).mode = mode := by cases following <;> rfl
  have hset : setMode .none (pushedBack following mode) = .ok () (pushedBack following .none) := by
    cases following <;> rfl
  have hcontext : (get : TokM TokenizerContext) (pushedBack following mode) =
      .ok (pushedBack following mode) (pushedBack following mode) := rfl
  unfold parseDirective
  rw [bind_of_ok hget]
  simp only [bind_of_ok hcontext, bind_of_ok hset, hmode]
  constructor
  · intro hrun
    obtain ⟨directive', context, hoptional, hrun⟩ := bind_eq_ok hrun
    obtain ⟨token, context', htoken, hrun⟩ := bind_eq_ok hrun
    split at hrun
    · cases hrun
    · rename_i hnewline
      rw [not_not.mp hnewline] at htoken
      cases hrun
      exact ⟨context, context', hoptional, htoken, rfl⟩
  · rintro ⟨context, context', hoptional, htoken, rfl⟩
    rw [bind_of_ok hoptional, bind_of_ok htoken]
    rfl

/-- The line ends with nothing pushed back, and the mode decides nothing. -/
theorem parseDirective_line (hrun : parseDirective (fresh text mode) = .ok directive after) :
    ∃ rest, after = fresh rest mode ∧ DirectiveLine text directive rest := by
  obtain ⟨name, following, hlexes⟩ := parseDirective_begins hrun
  obtain ⟨context, context', hoptional, htoken, rfl⟩ := (parseDirective_eq_ok hlexes).mp hrun
  have hstart : Buffered 0 1 (pushedBack following .none) := by
    cases following with
    | nil => exact ⟨Nat.le_refl 0, Nat.zero_le 1⟩
    | cons b following => exact ⟨Nat.le_refl 0, Nat.le_refl 1⟩
  have hbuffered : Buffered 0 1 context :=
    (local_parseOptionalArguments id (Nat.le_refl _) _).buffered hstart hoptional
  have hlex := htoken
  rw [getOneToken_nil hbuffered.tokenBuffer_eq] at hlex
  have hfresh := hbuffered.newline hlex
  have hafter (mode : TokenizerMode) :
      { context' with mode } = fresh context'.source mode := by rw [hfresh]; rfl
  refine ⟨context'.source, hafter mode, ?_⟩
  intro mode'
  rw [← hafter mode']
  exact (parseDirective_eq_ok (hlexes.directive_mode mode')).mpr
    ⟨context, context', hoptional, htoken, rfl⟩

/-- A line begins with the name of its directive. -/
theorem DirectiveLine.lexes (h : DirectiveLine text directive rest) (mode : TokenizerMode) :
    ∃ following, Lexes mode text (.directive directive.directive) following := by
  obtain ⟨name, following, hlexes⟩ := parseDirective_begins (h mode)
  obtain ⟨context, _, hoptional, -, -⟩ := (parseDirective_eq_ok hlexes).mp (h mode)
  have hspelled : (pushedBack following .none).BufferSpelled := by
    cases following <;> simp [pushedBack, fresh, TokenizerContext.BufferSpelled]
  have hof : DirectiveParseContext.Of name ⟨name, [], false⟩ := rfl
  have hname : directive.directive = name :=
    (parseOptionalArguments_spells hof _ directive context hspelled hoptional).2
  rw [hname]
  exact ⟨following, hlexes⟩

/-- Nothing behind its line matters to a directive, unless the file ends there. -/
theorem DirectiveLine.carried {front rest' : Bytes} (h : DirectiveLine (front ++ rest) directive rest)
    (hempty : rest = [] → rest' = []) (hlength : rest.length ≤ rest'.length) :
    DirectiveLine (front ++ rest') directive rest' := by
  intro mode
  have hlocal := local_parseDirective hempty hlength
  have hbeside : Beside rest rest' 1 1 (fresh (front ++ rest) mode) (fresh (front ++ rest') mode) :=
    ⟨⟨Nat.zero_le 1, Nat.zero_le 1⟩, front, rfl, rfl⟩
  obtain ⟨after, hrun, -, between, hbetween, rfl⟩ :=
    hlocal.run _ _ directive _ hbeside (h mode) fun hbeyond => hbeyond List.suffix_rfl
  have hnil : between = [] := by
    have hlength := congrArg List.length hbetween
    rw [List.length_append] at hlength
    exact List.length_eq_zero_iff.mp (by simpa [fresh] using hlength)
  rw [hnil] at hrun
  exact hrun

theorem DirectiveLine.suffix (h : DirectiveLine text directive rest) : rest <:+ text := by
  by_contra hbeyond
  have hlocal := local_parseDirective (r := rest) id (Nat.le_refl rest.length)
  exact hlocal.past (fresh text .none) directive (fresh rest .none) hbeyond (h .none)
    List.suffix_rfl

theorem DirectiveLine.carries (h : DirectiveLine text directive rest) :
    Carries (fun text rest => DirectiveLine text directive rest) text rest := by
  obtain ⟨front, rfl⟩ := h.suffix
  exact ⟨front, rfl, fun rest' hahead => h.carried hahead.eq_nil hahead.2⟩

end Lines

end JCUnit
