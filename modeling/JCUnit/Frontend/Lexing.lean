import JCUnit.Foundation.StateError
import JCUnit.Frontend.Tokenizer

/-!
# Tokens of the unread text

`Unread` reads a tokenizer context as the text it has still to deliver, and
`Lexes` says which token stands at the start of a text. `get_one_token` delivers
that token and leaves the rest of the text, wherever its bytes are kept.
Byte 255 is left out: it reads as the end of the file once it is pushed back.
-/

namespace JCUnit

open StateError

/-- A name as the source limits it: a letter, then letters and underscores. -/
def IsName : Bytes → Prop
  | [] => False
  | b :: rest =>
      isStartNameChar b = true ∧ (∀ c ∈ rest, isNameChar c = true) ∧ rest.length < 255

/-- The bytes between the quotes of a string. -/
def IsString (value : Bytes) : Prop :=
  (∀ b ∈ value, b ≠ chQuote ∧ b ≠ chNewline) ∧ value.length ≤ 1023

theorem isName_iff {name : Bytes} :
    IsName name ↔ (name.head?.any isStartNameChar && name.tail.all isNameChar &&
      decide (name.tail.length < 255)) = true := by
  cases name with
  | nil => simp [IsName]
  | cons b rest =>
      change _ ∧ _ ∧ _ ↔ (isStartNameChar b && rest.all isNameChar &&
        decide (rest.length < 255)) = true
      rw [Bool.and_eq_true, Bool.and_eq_true, List.all_eq_true, decide_eq_true_iff, and_assoc]

instance : DecidablePred IsName := fun _ => decidable_of_iff _ isName_iff.symm

theorem isString_iff {value : Bytes} :
    IsString value ↔ (value.all (fun b => b != chQuote && b != chNewline) &&
      decide (value.length ≤ 1023)) = true := by
  simp [IsString]

instance : DecidablePred IsString := fun _ => decidable_of_iff _ isString_iff.symm

/-- The next byte, if there is one, does not continue a name. -/
def NameEnds (rest : Bytes) : Prop := ∀ b ∈ rest.head?, isNameChar b = false

/-- The next byte, if there is one, leaves an at sign before it as it is. -/
def AtStandsAlone (rest : Bytes) : Prop :=
  ∀ b ∈ rest.head?, isStartNameChar b = false ∧ b ≠ chAt

def isPunctuator (b : Byte) : Bool :=
  b == chComma || b == chLeftParen || b == chRightParen || b == chEquals

/-- `Lexes mode text token rest`: in this mode `text` is the token and then `rest`. -/
inductive Lexes : TokenizerMode → Bytes → Token → Bytes → Prop
  | eof (mode : TokenizerMode) : Lexes mode [] .eof []
  | directive (mode : TokenizerMode) {name rest : Bytes} (hname : IsName name)
      (hrest : NameEnds rest) : Lexes mode (chAt :: (name ++ rest)) (.directive name) rest
  | escapedAt (mode : TokenizerMode) (rest : Bytes) :
      Lexes mode (chAt :: chAt :: rest) (.character chAt) rest
  | loneAt (mode : TokenizerMode) {rest : Bytes} (hrest : AtStandsAlone rest) :
      Lexes mode (chAt :: rest) (.character chAt) rest
  | text {b : Byte} (rest : Bytes) (hb : b ≠ chAt) :
      Lexes .directiveAndText (b :: rest) (.character b) rest
  | newline (rest : Bytes) : Lexes .none (chNewline :: rest) .newline rest
  | punctuator {b : Byte} (rest : Bytes) (hb : isPunctuator b = true) :
      Lexes .none (b :: rest) (.punctuator b) rest
  | string {value : Bytes} (rest : Bytes) (hvalue : IsString value) :
      Lexes .none (chQuote :: (value ++ chQuote :: rest)) (.string value) rest
  | name {name rest : Bytes} (hname : IsName name) (hrest : NameEnds rest) :
      Lexes .none (name ++ rest) (.name name) rest
  | other {b : Byte} (rest : Bytes) (hat : b ≠ chAt) (hnewline : b ≠ chNewline)
      (hpunctuator : isPunctuator b = false) (hquote : b ≠ chQuote)
      (hname : isStartNameChar b = false) : Lexes .none (b :: rest) (.character b) rest

/-- The context with every unread byte still in the file. -/
def fresh (text : Bytes) (mode : TokenizerMode) : TokenizerContext := ⟨text, [], [], mode⟩

/-- The context whose next byte has been pushed back. -/
def pushedBack : Bytes → TokenizerMode → TokenizerContext
  | [], mode => fresh [] mode
  | b :: rest, mode => ⟨rest, [], [b], mode⟩

/-- Where a token leaves the tokenizer in front of `rest`: with no byte read ahead, or with
the one behind the token read and pushed back. -/
inductive LeftAt : TokenizerContext → Bytes → TokenizerMode → Option Byte → Prop
  | fresh (rest : Bytes) (mode : TokenizerMode) : LeftAt (fresh rest mode) rest mode none
  | pushedBack (rest : Bytes) (mode : TokenizerMode) :
      LeftAt (pushedBack rest mode) rest mode rest.head?

/-- The byte that `get_one_token` reads behind the first token of a text and pushes back: the
one behind a name, a directive or an at sign that stands alone. -/
def lookAhead : TokenizerMode → Bytes → Option Byte
  | _, [] => none
  | mode, b :: rest =>
      if b = chAt then
        match rest with
        | [] => none
        | next :: rest =>
            if isStartNameChar next then (rest.dropWhile isNameChar).head?
            else if next = chAt then none
            else some next
      else if mode = .none ∧ isStartNameChar b then (rest.dropWhile isNameChar).head?
      else none

/-- No token is buffered, and the characters still to come are those of `text`. -/
inductive Raw : TokenizerContext → Bytes → TokenizerMode → Prop
  | fresh {text : Bytes} {mode : TokenizerMode} (clean : 255 ∉ text) :
      Raw (fresh text mode) text mode
  | pushedBack {text : Bytes} {mode : TokenizerMode} (clean : 255 ∉ text) :
      Raw (pushedBack text mode) text mode

/-- The text still to come, a buffered token counted as the text it was read from. -/
inductive Unread : TokenizerContext → Bytes → TokenizerMode → Prop
  | raw {context : TokenizerContext} {text : Bytes} {mode : TokenizerMode}
      (hraw : Raw context text mode) : Unread context text mode
  | buffered {context : TokenizerContext} {text rest : Bytes} {mode : TokenizerMode}
      {token : Token} (hraw : Raw context rest mode) (hlexes : Lexes mode text token rest)
      (clean : 255 ∉ text) :
      Unread { context with tokenBuffer := [token] } text mode

section Characters

variable {context : TokenizerContext} {text rest : Bytes} {mode : TokenizerMode}

theorem Raw.clean (h : Raw context text mode) : 255 ∉ text := by
  cases h <;> assumption

theorem Raw.mode_eq (h : Raw context text mode) : context.mode = mode := by
  cases h with
  | fresh clean => rfl
  | pushedBack clean => cases text <;> rfl

theorem Raw.tokenBuffer_eq (h : Raw context text mode) : context.tokenBuffer = [] := by
  cases h with
  | fresh clean => rfl
  | pushedBack clean => cases text <;> rfl

theorem Raw.text_eq (h : Raw context text mode) : context.charBuffer ++ context.source = text := by
  cases h with
  | fresh clean => rfl
  | pushedBack clean => cases text <;> rfl

theorem Raw.unread_eq (h : Raw context text mode) : context.unread = text.length := by
  calc context.unread
      = context.charBuffer.length + context.source.length := by
        simp [TokenizerContext.unread, h.tokenBuffer_eq]
    _ = (context.charBuffer ++ context.source).length := List.length_append.symm
    _ = text.length := by rw [h.text_eq]

theorem clean_of_append {first second : Bytes} (clean : 255 ∉ first ++ second) :
    255 ∉ second := by
  intro hmem
  exact clean (List.mem_append_right first hmem)

theorem clean_tail (clean : 255 ∉ text) : 255 ∉ text.tail := by
  intro hmem
  exact clean (List.mem_of_mem_tail hmem)

@[simp] theorem getOneChar_fresh (text : Bytes) (mode : TokenizerMode) :
    getOneChar (fresh text mode) = .ok text.head? (fresh text.tail mode) := by
  cases text <;> rfl

theorem getOneChar_of_raw (h : Raw context text mode) :
    getOneChar context = .ok text.head? (fresh text.tail mode) := by
  cases h with
  | fresh clean => exact getOneChar_fresh text mode
  | pushedBack clean =>
      cases text with
      | nil => rfl
      | cons b rest =>
          have hb : b ≠ 255 := by
            intro hb
            apply clean
            simp [hb]
          simp [getOneChar, JCUnit.pushedBack, ofCharBuffer, hb, JCUnit.fresh]

theorem ungetOneChar_fresh (text : Bytes) (mode : TokenizerMode) :
    ungetOneChar text.head? (fresh text.tail mode) = .ok () (pushedBack text mode) := by
  cases text <;> rfl

theorem peekOneChar_of_raw (h : Raw context text mode) :
    peekOneChar context = .ok text.head? (pushedBack text mode) := by
  unfold peekOneChar
  rw [bind_of_ok (getOneChar_of_raw h), bind_of_ok (ungetOneChar_fresh text mode)]
  rfl

end Characters

section Names

variable {text rest run buffer : Bytes} {mode : TokenizerMode} {ch b : Byte} {room : Nat}

theorem getOneNameLoop_ends (hends : NameEnds rest) :
    getOneNameLoop (room + 1) buffer ch (fresh rest mode) =
      .ok (buffer ++ [ch], rest.head?) (fresh rest.tail mode) := by
  rw [getOneNameLoop, bind_of_ok (getOneChar_fresh rest mode)]
  cases rest with
  | nil => rfl
  | cons b rest =>
      have hb : isNameChar b = false := hends b rfl
      simp only [List.head?_cons, hb, Bool.false_eq_true, if_false]
      rfl

theorem getOneNameLoop_continues (hb : isNameChar b = true) :
    getOneNameLoop (room + 1) buffer ch (fresh (b :: rest) mode) =
      getOneNameLoop room (buffer ++ [ch]) b (fresh rest mode) := by
  rw [getOneNameLoop, bind_of_ok (getOneChar_fresh (b :: rest) mode)]
  simp only [List.head?_cons, hb, if_true, List.tail_cons]

theorem getOneNameLoop_sound {result : Bytes × Option Byte} {after : TokenizerContext}
    (h : getOneNameLoop room buffer ch (fresh text mode) = .ok result after) :
    ∃ run rest, text = run ++ rest ∧ (∀ b ∈ run, isNameChar b = true) ∧ run.length < room ∧
      NameEnds rest ∧ result = (buffer ++ ch :: run, rest.head?) ∧
      after = fresh rest.tail mode := by
  induction room generalizing text buffer ch with
  | zero => cases h
  | succ room ih =>
      by_cases hends : NameEnds text
      · rw [getOneNameLoop_ends hends] at h
        cases h
        exact ⟨[], text, rfl, by simp, Nat.succ_pos _, hends, rfl, rfl⟩
      · cases text with
        | nil => exact absurd (by simp [NameEnds]) hends
        | cons b text =>
            have hb : isNameChar b = true := by simpa [NameEnds] using hends
            rw [getOneNameLoop_continues hb] at h
            obtain ⟨run, rest, htext, hrun, hlen, hends, hresult, hafter⟩ := ih h
            refine ⟨b :: run, rest, by rw [htext]; rfl, ?_, Nat.succ_lt_succ hlen, hends, ?_, hafter⟩
            · exact List.forall_mem_cons.mpr ⟨hb, hrun⟩
            · rw [hresult, List.append_assoc]
              rfl

theorem getOneNameLoop_complete (hrun : ∀ b ∈ run, isNameChar b = true)
    (hlen : run.length < room) (hends : NameEnds rest) :
    getOneNameLoop room buffer ch (fresh (run ++ rest) mode) =
      .ok (buffer ++ ch :: run, rest.head?) (fresh rest.tail mode) := by
  induction run generalizing buffer ch room with
  | nil =>
      cases room with
      | zero => cases hlen
      | succ room => exact getOneNameLoop_ends hends
  | cons b run ih =>
      cases room with
      | zero => cases hlen
      | succ room =>
          obtain ⟨hb, hrun⟩ := List.forall_mem_cons.mp hrun
          rw [List.cons_append, getOneNameLoop_continues hb,
            ih hrun (Nat.lt_of_succ_lt_succ hlen), List.append_assoc]
          rfl

theorem getOneName_sound {kind : Bytes → Token} {token : Token} {after : TokenizerContext}
    (hch : isStartNameChar ch = true)
    (h : getOneName ch kind (fresh text mode) = .ok token after) :
    ∃ name rest, ch :: text = name ++ rest ∧ IsName name ∧ NameEnds rest ∧ token = kind name ∧
      after = pushedBack rest mode := by
  unfold getOneName at h
  obtain ⟨⟨buffer, next⟩, context, hloop, h⟩ := bind_eq_ok h
  obtain ⟨run, rest, htext, hrun, hlen, hends, hresult, rfl⟩ := getOneNameLoop_sound hloop
  obtain ⟨rfl, rfl⟩ := Prod.mk.inj hresult
  simp only [bind_of_ok (ungetOneChar_fresh rest mode), pure_eq_ok] at h
  exact ⟨ch :: run, rest, by rw [htext]; rfl, ⟨hch, hrun, hlen⟩, hends, h.1.symm, h.2.symm⟩

theorem getOneName_complete (mode : TokenizerMode) (kind : Bytes → Token) {name : Bytes}
    (hname : IsName name) (hends : NameEnds rest) :
    ∃ ch text, name ++ rest = ch :: text ∧ isStartNameChar ch = true ∧
      getOneName ch kind (fresh text mode) = .ok (kind name) (pushedBack rest mode) := by
  cases name with
  | nil => exact hname.elim
  | cons ch run =>
      obtain ⟨hch, hrun, hlen⟩ := hname
      refine ⟨ch, run ++ rest, rfl, hch, ?_⟩
      have hroom : run.length < maxNameLen - 1 := hlen
      unfold getOneName
      rw [bind_of_ok (getOneNameLoop_complete hrun hroom hends)]
      simp only [bind_of_ok (ungetOneChar_fresh rest mode)]
      rfl

end Names

section Strings

variable {text rest value buffer : Bytes} {mode : TokenizerMode} {b : Byte} {room : Nat}

theorem getOneStringLoop_quote :
    getOneStringLoop (room + 1) buffer (some chQuote) (fresh text mode) =
      .ok buffer (fresh text mode) := by
  rw [getOneStringLoop, if_pos rfl]
  rfl

theorem getOneStringLoop_continues (hquote : b ≠ chQuote) (hnewline : b ≠ chNewline) :
    getOneStringLoop (room + 1) buffer (some b) (fresh text mode) =
      getOneStringLoop room (buffer ++ [b]) text.head? (fresh text.tail mode) := by
  rw [getOneStringLoop, if_neg hquote, if_neg hnewline, bind_of_ok (getOneChar_fresh text mode)]

theorem getOneStringLoop_sound {result : Bytes} {after : TokenizerContext}
    (h : getOneStringLoop room buffer text.head? (fresh text.tail mode) = .ok result after) :
    ∃ value rest, text = value ++ chQuote :: rest ∧
      (∀ b ∈ value, b ≠ chQuote ∧ b ≠ chNewline) ∧ value.length < room ∧
      result = buffer ++ value ∧ after = fresh rest mode := by
  induction room generalizing text buffer with
  | zero => cases h
  | succ room ih =>
      cases text with
      | nil => cases h
      | cons b text =>
          rw [List.head?_cons, List.tail_cons] at h
          by_cases hquote : b = chQuote
          · rw [hquote, getOneStringLoop_quote] at h
            cases h
            exact ⟨[], text, by rw [hquote]; rfl, by simp, Nat.succ_pos _, by simp, rfl⟩
          · by_cases hnewline : b = chNewline
            · rw [getOneStringLoop, if_neg hquote, if_pos hnewline] at h
              cases h
            · rw [getOneStringLoop_continues hquote hnewline] at h
              obtain ⟨value, rest, htext, hvalue, hlen, hresult, hafter⟩ := ih h
              refine ⟨b :: value, rest, by rw [htext]; rfl, ?_, Nat.succ_lt_succ hlen, ?_, hafter⟩
              · exact List.forall_mem_cons.mpr ⟨⟨hquote, hnewline⟩, hvalue⟩
              · rw [hresult, List.append_assoc]
                rfl

theorem getOneStringLoop_complete (hvalue : ∀ b ∈ value, b ≠ chQuote ∧ b ≠ chNewline)
    (hlen : value.length < room) :
    getOneStringLoop room buffer (value ++ chQuote :: rest).head?
        (fresh (value ++ chQuote :: rest).tail mode) = .ok (buffer ++ value) (fresh rest mode) := by
  induction value generalizing buffer room with
  | nil =>
      cases room with
      | zero => cases hlen
      | succ room =>
          rw [List.append_nil]
          exact getOneStringLoop_quote
  | cons b value ih =>
      cases room with
      | zero => cases hlen
      | succ room =>
          obtain ⟨⟨hquote, hnewline⟩, hvalue⟩ := List.forall_mem_cons.mp hvalue
          rw [List.cons_append, List.head?_cons, List.tail_cons,
            getOneStringLoop_continues hquote hnewline,
            ih hvalue (Nat.lt_of_succ_lt_succ hlen), List.append_assoc]
          rfl

theorem getOneString_sound {token : Token} {after : TokenizerContext}
    (h : getOneString (fresh text mode) = .ok token after) :
    ∃ value rest, text = value ++ chQuote :: rest ∧ IsString value ∧ token = .string value ∧
      after = fresh rest mode := by
  unfold getOneString at h
  rw [bind_of_ok (getOneChar_fresh text mode)] at h
  obtain ⟨result, context, hloop, h⟩ := bind_eq_ok h
  obtain ⟨value, rest, htext, hvalue, hlen, hresult, rfl⟩ := getOneStringLoop_sound hloop
  obtain ⟨rfl, rfl⟩ := pure_eq_ok.mp h
  exact ⟨value, rest, htext, ⟨hvalue, Nat.le_of_lt_succ hlen⟩, by rw [hresult]; rfl, rfl⟩

theorem getOneString_complete (hvalue : IsString value) :
    getOneString (fresh (value ++ chQuote :: rest) mode) =
      .ok (.string value) (fresh rest mode) := by
  have hroom : value.length < maxStringLen := Nat.lt_succ_of_le hvalue.2
  unfold getOneString
  rw [bind_of_ok (getOneChar_fresh _ mode), bind_of_ok (getOneStringLoop_complete hvalue.1 hroom)]
  rfl

end Strings

section Tokens

variable {context after : TokenizerContext} {text rest : Bytes} {mode : TokenizerMode}
  {token : Token} {b : Byte}

theorem Lexes.suffix (h : Lexes mode text token rest) : rest <:+ text := by
  cases h with
  | eof => exact List.suffix_rfl
  | directive _ hname hends => exact (List.suffix_append _ rest).trans (List.suffix_cons _ _)
  | escapedAt => exact (List.suffix_cons _ rest).trans (List.suffix_cons _ _)
  | loneAt => exact List.suffix_cons _ rest
  | text => exact List.suffix_cons _ rest
  | newline => exact List.suffix_cons _ rest
  | punctuator => exact List.suffix_cons _ rest
  | string =>
      exact ((List.suffix_cons _ rest).trans (List.suffix_append _ _)).trans (List.suffix_cons _ _)
  | name => exact List.suffix_append _ rest
  | other => exact List.suffix_cons _ rest

theorem LeftAt.raw {ahead : Option Byte} (h : LeftAt after rest mode ahead) (clean : 255 ∉ rest) :
    Raw after rest mode := by
  cases h with
  | fresh => exact .fresh clean
  | pushedBack => exact .pushedBack clean

theorem isStartNameChar_ne (hb : isStartNameChar b = true) {c : Byte}
    (hc : isStartNameChar c = false) : b ≠ c := by
  intro heq
  rw [heq, hc] at hb
  cases hb

theorem AtStandsAlone.nil : AtStandsAlone [] := by
  simp [AtStandsAlone]

theorem AtStandsAlone.cons (hname : isStartNameChar b = false) (hat : b ≠ chAt) :
    AtStandsAlone (b :: rest) := by
  intro c hc
  cases hc
  exact ⟨hname, hat⟩

theorem dropWhile_name {run : Bytes} (hrun : ∀ c ∈ run, isNameChar c = true)
    (hends : NameEnds rest) : (run ++ rest).dropWhile isNameChar = rest := by
  have hrest : rest.dropWhile isNameChar = rest := by
    cases rest with
    | nil => rfl
    | cons c rest => exact List.dropWhile_cons_of_neg (by simp [hends c rfl])
  rw [List.dropWhile_append_of_pos hrun, hrest]

/-- What a name leaves behind is pushed back, and it is the byte behind the name. -/
theorem LeftAt.of_name {name : Bytes} (htext : b :: text = name ++ rest) (hname : IsName name)
    (hends : NameEnds rest) (mode : TokenizerMode) :
    LeftAt (JCUnit.pushedBack rest mode) rest mode (text.dropWhile isNameChar).head? := by
  cases name with
  | nil => exact hname.elim
  | cons c run =>
      have hrun : text = run ++ rest := (List.cons.inj htext).2
      rw [hrun, dropWhile_name hname.2.1 hends]
      exact .pushedBack rest mode

theorem afterAt_leaves (h : afterAt (fresh text mode) = .ok token after) :
    ∃ rest, Lexes mode (chAt :: text) token rest ∧
      LeftAt after rest mode (lookAhead mode (chAt :: text)) := by
  unfold afterAt at h
  rw [bind_of_ok (getOneChar_fresh text mode)] at h
  cases text with
  | nil =>
      cases h
      exact ⟨[], .loneAt mode .nil, .fresh [] mode⟩
  | cons b text =>
      simp only [List.head?_cons, List.tail_cons] at h
      simp only [lookAhead, if_true]
      by_cases hname : isStartNameChar b = true
      · rw [if_pos hname] at h ⊢
        obtain ⟨name, rest, htext, hisname, hends, rfl, rfl⟩ := getOneName_sound hname h
        have hleft := LeftAt.of_name htext hisname hends mode
        rw [htext]
        exact ⟨rest, .directive mode hisname hends, hleft⟩
      · rw [if_neg hname] at h ⊢
        by_cases hat : b = chAt
        · rw [if_pos hat] at h ⊢
          cases h
          rw [hat]
          exact ⟨text, .escapedAt mode text, .fresh text mode⟩
        · rw [if_neg hat] at h ⊢
          cases h
          have halone : AtStandsAlone (b :: text) :=
            .cons (Bool.eq_false_iff.mpr hname) hat
          exact ⟨b :: text, .loneAt mode halone, .pushedBack (b :: text) mode⟩

theorem otherToken_punctuator (hb : isPunctuator b = true) (context : TokenizerContext) :
    otherToken b context = .ok (.punctuator b) context := by
  simp only [isPunctuator, Bool.or_eq_true, beq_iff_eq] at hb
  obtain ((rfl | rfl) | rfl) | rfl := hb <;> rfl

theorem otherToken_not_punctuator (hnewline : b ≠ chNewline) (hb : isPunctuator b = false) :
    otherToken b = if b = chQuote then getOneString
      else if isStartNameChar b then getOneName b .name else return .character b := by
  simp only [isPunctuator, Bool.or_eq_false_iff, beq_eq_false_iff_ne] at hb
  obtain ⟨⟨⟨hcomma, hleft⟩, hright⟩, hequals⟩ := hb
  unfold otherToken
  rw [if_neg hnewline, if_neg hcomma, if_neg hleft, if_neg hright, if_neg hequals]

theorem otherToken_leaves (hat : b ≠ chAt) (h : otherToken b (fresh text .none) = .ok token after) :
    ∃ rest, Lexes .none (b :: text) token rest ∧
      LeftAt after rest .none (lookAhead .none (b :: text)) := by
  simp only [lookAhead, if_neg hat, true_and]
  by_cases hnewline : b = chNewline
  · rw [hnewline] at h ⊢
    cases h
    exact ⟨text, .newline text, .fresh text .none⟩
  cases hpunctuator : isPunctuator b with
  | true =>
      have hname : ¬isStartNameChar b = true := by
        intro hname
        simp [isPunctuator, isStartNameChar_ne hname (c := chComma) rfl,
          isStartNameChar_ne hname (c := chLeftParen) rfl,
          isStartNameChar_ne hname (c := chRightParen) rfl,
          isStartNameChar_ne hname (c := chEquals) rfl] at hpunctuator
      rw [otherToken_punctuator hpunctuator] at h
      cases h
      rw [if_neg hname]
      exact ⟨text, .punctuator text hpunctuator, .fresh text .none⟩
  | false =>
      rw [otherToken_not_punctuator hnewline hpunctuator] at h
      by_cases hquote : b = chQuote
      · rw [if_pos hquote] at h
        obtain ⟨value, rest, rfl, hvalue, rfl, rfl⟩ := getOneString_sound h
        rw [hquote]
        exact ⟨rest, .string rest hvalue, .fresh rest .none⟩
      · rw [if_neg hquote] at h
        by_cases hname : isStartNameChar b = true
        · rw [if_pos hname] at h ⊢
          obtain ⟨name, rest, htext, hisname, hends, rfl, rfl⟩ := getOneName_sound hname h
          have hleft := LeftAt.of_name htext hisname hends .none
          rw [htext]
          exact ⟨rest, .name hisname hends, hleft⟩
        · rw [if_neg hname] at h ⊢
          cases h
          have hother := Bool.eq_false_iff.mpr hname
          exact ⟨text, .other text hat hnewline hpunctuator hquote hother, .fresh text .none⟩

theorem lexToken_at (text : Bytes) (mode : TokenizerMode) :
    lexToken (fresh (chAt :: text) mode) = afterAt (fresh text mode) := rfl

theorem lexToken_cons (text : Bytes) (mode : TokenizerMode) (hat : b ≠ chAt) :
    lexToken (fresh (b :: text) mode) = match mode with
      | .directiveAndText => .ok (.character b) (fresh text mode)
      | .none => otherToken b (fresh text mode) := by
  unfold lexToken
  rw [bind_of_ok (getOneChar_fresh (b :: text) mode)]
  simp only [List.head?_cons, List.tail_cons, if_neg hat]
  cases mode <;> rfl

theorem getOneToken_of_raw (h : Raw context text mode) : getOneToken context = lexToken context := by
  unfold getOneToken
  rw [h.tokenBuffer_eq]

/-- A token is read from the start of the text, and at most the byte behind it is pushed back. -/
theorem lexToken_leaves (hrun : lexToken (fresh text mode) = .ok token after) :
    ∃ rest, Lexes mode text token rest ∧ LeftAt after rest mode (lookAhead mode text) := by
  unfold lexToken at hrun
  rw [bind_of_ok (getOneChar_fresh text mode)] at hrun
  cases text with
  | nil =>
      cases hrun
      exact ⟨[], .eof mode, .fresh [] mode⟩
  | cons b text =>
      simp only [List.head?_cons, List.tail_cons] at hrun
      by_cases hat : b = chAt
      · rw [if_pos hat] at hrun
        rw [hat]
        exact afterAt_leaves hrun
      · rw [if_neg hat] at hrun
        cases mode with
        | directiveAndText =>
            cases hrun
            have hahead : lookAhead .directiveAndText (b :: text) = none := by
              simp [lookAhead, hat]
            rw [hahead]
            exact ⟨text, .text text hat, .fresh text .directiveAndText⟩
        | none => exact otherToken_leaves hat hrun

theorem lexToken_of_raw (h : Raw context text mode) :
    lexToken context = lexToken (fresh text mode) := by
  unfold lexToken
  rw [bind_of_ok (getOneChar_of_raw h), bind_of_ok (getOneChar_fresh text mode)]

theorem lexToken_sound (h : Raw context text mode) (hrun : lexToken context = .ok token after) :
    ∃ rest, Lexes mode text token rest ∧ Raw after rest mode := by
  rw [lexToken_of_raw h] at hrun
  obtain ⟨rest, hlexes, hleft⟩ := lexToken_leaves hrun
  have clean : 255 ∉ rest := fun hmem => h.clean (hlexes.suffix.mem hmem)
  exact ⟨rest, hlexes, hleft.raw clean⟩

theorem afterAt_directive {name : Bytes} (hname : IsName name) (hends : NameEnds rest) :
    afterAt (fresh (name ++ rest) mode) = .ok (.directive name) (pushedBack rest mode) := by
  obtain ⟨b, text, htext, hb, hrun⟩ := getOneName_complete mode .directive hname hends
  rw [htext]
  unfold afterAt
  rw [bind_of_ok (getOneChar_fresh _ mode)]
  simp only [List.head?_cons, List.tail_cons, hb, if_true]
  exact hrun

theorem afterAt_alone (halone : AtStandsAlone rest) :
    afterAt (fresh rest mode) = .ok (.character chAt) (pushedBack rest mode) := by
  unfold afterAt
  rw [bind_of_ok (getOneChar_fresh rest mode)]
  cases rest with
  | nil => rfl
  | cons b rest =>
      obtain ⟨hname, hat⟩ := halone b rfl
      simp only [List.head?_cons, hname, Bool.false_eq_true, if_false, if_neg hat]
      rfl

/-- The token that a text begins with is read. -/
theorem lexToken_reads (hlexes : Lexes mode text token rest) :
    ∃ after ahead, lexToken (fresh text mode) = .ok token after ∧ LeftAt after rest mode ahead := by
  cases hlexes with
  | eof => exact ⟨_, _, rfl, .fresh [] mode⟩
  | directive _ hname hends =>
      exact ⟨_, _, (lexToken_at _ mode).trans (afterAt_directive hname hends), .pushedBack rest mode⟩
  | escapedAt => exact ⟨_, _, rfl, .fresh rest mode⟩
  | loneAt _ halone =>
      exact ⟨_, _, (lexToken_at _ mode).trans (afterAt_alone halone), .pushedBack rest mode⟩
  | text _ hat => exact ⟨_, _, lexToken_cons rest _ hat, .fresh rest _⟩
  | newline => exact ⟨_, _, rfl, .fresh rest .none⟩
  | punctuator _ hb =>
      have hat : ∀ {b}, isPunctuator b = true → b ≠ chAt := by
        intro b hb heq
        rw [heq] at hb
        cases hb
      exact ⟨_, _, (lexToken_cons rest .none (hat hb)).trans (otherToken_punctuator hb _),
        .fresh rest .none⟩
  | string _ hvalue =>
      have hat : chQuote ≠ chAt := by decide
      have hother : otherToken chQuote = getOneString := rfl
      refine ⟨_, _, (lexToken_cons _ .none hat).trans ?_, .fresh rest .none⟩
      rw [hother]
      exact getOneString_complete hvalue
  | name hname hends =>
      obtain ⟨b, text, htext, hb, hrun⟩ := getOneName_complete .none .name hname hends
      have hpunctuator : isPunctuator b = false := by
        simp [isPunctuator, isStartNameChar_ne hb (c := chComma) rfl,
          isStartNameChar_ne hb (c := chLeftParen) rfl,
          isStartNameChar_ne hb (c := chRightParen) rfl, isStartNameChar_ne hb (c := chEquals) rfl]
      rw [htext]
      refine ⟨_, _, (lexToken_cons text .none (isStartNameChar_ne hb rfl)).trans ?_,
        .pushedBack rest .none⟩
      rw [otherToken_not_punctuator (isStartNameChar_ne hb rfl) hpunctuator,
        if_neg (isStartNameChar_ne hb rfl), if_pos hb]
      exact hrun
  | other _ hat hnewline hpunctuator hquote hname =>
      refine ⟨_, _, (lexToken_cons rest .none hat).trans ?_, .fresh rest .none⟩
      rw [otherToken_not_punctuator hnewline hpunctuator, if_neg hquote, hname]
      rfl

theorem lexToken_complete (h : Raw context text mode) (hlexes : Lexes mode text token rest) :
    ∃ after, lexToken context = .ok token after ∧ Raw after rest mode := by
  obtain ⟨after, ahead, hrun, hleft⟩ := lexToken_reads hlexes
  have clean : 255 ∉ rest := fun hmem => h.clean (hlexes.suffix.mem hmem)
  exact ⟨after, (lexToken_of_raw h).trans hrun, hleft.raw clean⟩

theorem LeftAt.text_eq {ahead : Option Byte} (h : LeftAt context rest mode ahead) :
    context.charBuffer ++ context.source = rest := by
  cases h with
  | fresh => rfl
  | pushedBack => cases rest <;> rfl

/-- The next token and the rest of a text are determined by the text. -/
theorem Lexes.unique {first second : Token} {rest rest' : Bytes}
    (h : Lexes mode text first rest) (h' : Lexes mode text second rest') :
    first = second ∧ rest = rest' := by
  obtain ⟨after, _, hrun, hleft⟩ := lexToken_reads h
  obtain ⟨after', _, hrun', hleft'⟩ := lexToken_reads h'
  rw [hrun] at hrun'
  cases hrun'
  exact ⟨rfl, hleft.text_eq.symm.trans hleft'.text_eq⟩

theorem Lexes.length_le (h : Lexes mode text token rest) :
    text.length ≤ token.text.length + 2 + rest.length := by
  cases h <;> simp [Token.text] <;> omega

theorem Unread.clean (h : Unread context text mode) : 255 ∉ text := by
  cases h with
  | raw hraw => exact hraw.clean
  | buffered _ _ clean => exact clean

theorem Raw.with_tokenBuffer (h : Raw context text mode) :
    Raw { context with tokenBuffer := [] } text mode := by
  have heq := h.tokenBuffer_eq
  obtain ⟨source, tokenBuffer, charBuffer, ctxMode⟩ := context
  cases heq
  exact h

/-- A token that is delivered is the next one of the unread text. -/
theorem getOneToken_sound (h : Unread context text mode)
    (hrun : getOneToken context = .ok token after) :
    ∃ rest, Lexes mode text token rest ∧ Raw after rest mode := by
  cases h with
  | raw hraw =>
      rw [getOneToken_of_raw hraw] at hrun
      exact lexToken_sound hraw hrun
  | buffered hraw hlexes clean =>
      cases hrun
      exact ⟨_, hlexes, hraw.with_tokenBuffer⟩

/-- The next token of the unread text is delivered. -/
theorem getOneToken_complete (h : Unread context text mode) (hlexes : Lexes mode text token rest) :
    ∃ after, getOneToken context = .ok token after ∧ Raw after rest mode := by
  cases h with
  | raw hraw =>
      rw [getOneToken_of_raw hraw]
      exact lexToken_complete hraw hlexes
  | buffered hraw hlexes' clean =>
      obtain ⟨rfl, rfl⟩ := hlexes.unique hlexes'
      exact ⟨_, rfl, hraw.with_tokenBuffer⟩

theorem ungetOneToken_run (h : Raw context rest mode) (hlexes : Lexes mode text token rest)
    (clean : 255 ∉ text) :
    ∃ after, ungetOneToken token context = .ok () after ∧ Unread after text mode := by
  have hroom : ¬context.tokenBuffer.length ≥ maxTokenBufferSize := by
    rw [h.tokenBuffer_eq]
    decide
  unfold ungetOneToken
  rw [if_neg hroom]
  by_cases heof : token = .eof
  · rw [if_pos heof]
    rw [heof] at hlexes
    cases hlexes
    exact ⟨context, rfl, .raw h⟩
  · rw [if_neg heof, h.tokenBuffer_eq]
    exact ⟨_, rfl, .buffered h hlexes clean⟩

theorem peekOneToken_sound (h : Unread context text mode)
    (hrun : peekOneToken context = .ok token after) :
    (∃ rest, Lexes mode text token rest) ∧ Unread after text mode := by
  unfold peekOneToken at hrun
  obtain ⟨token', context', hget, hrun⟩ := bind_eq_ok hrun
  obtain ⟨rest, hlexes, hraw⟩ := getOneToken_sound h hget
  obtain ⟨after', hunget, hunread⟩ := ungetOneToken_run hraw hlexes h.clean
  rw [bind_of_ok hunget] at hrun
  obtain ⟨rfl, rfl⟩ := pure_eq_ok.mp hrun
  exact ⟨⟨rest, hlexes⟩, hunread⟩

theorem peekOneToken_complete (h : Unread context text mode) (hlexes : Lexes mode text token rest) :
    ∃ after, peekOneToken context = .ok token after ∧ Unread after text mode := by
  obtain ⟨context', hget, hraw⟩ := getOneToken_complete h hlexes
  obtain ⟨after, hunget, hunread⟩ := ungetOneToken_run hraw hlexes h.clean
  refine ⟨after, ?_, hunread⟩
  unfold peekOneToken
  rw [bind_of_ok hget, bind_of_ok hunget]
  rfl

theorem Raw.setMode (h : Raw context text mode) (mode' : TokenizerMode) :
    Raw { context with mode := mode' } text mode' := by
  cases h with
  | fresh clean => exact .fresh clean
  | pushedBack clean =>
      cases text with
      | nil => exact .fresh clean
      | cons b rest => exact Raw.pushedBack clean

end Tokens

end JCUnit
