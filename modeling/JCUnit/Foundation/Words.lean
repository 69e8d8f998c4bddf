import Mathlib.Data.List.Infix
import Mathlib.Data.List.TakeWhile

/-!
# The words of a text

The words of a text are the maximal runs without a separator.
-/

namespace Words

variable {α : Type} {sep : α → Bool} {a : α} {word text rest : List α}

/-- What is between the separators and not empty. -/
def words (sep : α → Bool) (text : List α) : List (List α) :=
  (text.splitOnP sep).filter fun word => !word.isEmpty

theorem words_nil : words sep [] = [] := rfl

/-- A separator ends the words in front of it. -/
theorem words_append_cons (h : sep a = true) :
    words sep (text ++ a :: rest) = words sep text ++ words sep rest := by
  unfold words
  rw [List.splitOnP_append_cons _ _ h, List.filter_append]

theorem words_cons (h : sep a = true) : words sep (a :: rest) = words sep rest := by
  change words sep ([] ++ a :: rest) = _
  rw [words_append_cons h]
  rfl

theorem words_dropWhile (text : List α) : words sep (text.dropWhile sep) = words sep text := by
  induction text with
  | nil => rfl
  | cons a rest ih =>
      rw [List.dropWhile_cons]
      split
      · rename_i hsep
        rw [ih, words_cons hsep]
      · rfl

theorem words_eq_singleton (hnonempty : word ≠ []) (hword : ∀ a ∈ word, sep a = false) :
    words sep word = [word] := by
  unfold words
  rw [List.splitOnP_eq_singleton hword]
  cases word with
  | nil => exact absurd rfl hnonempty
  | cons a word => rfl

/-- A run that a separator or the end follows is a word. -/
theorem words_append (hnonempty : word ≠ []) (hword : ∀ a ∈ word, sep a = false)
    (hrest : ∀ a ∈ rest.head?, sep a = true) : words sep (word ++ rest) = word :: words sep rest := by
  cases rest with
  | nil =>
      rw [List.append_nil]
      exact words_eq_singleton hnonempty hword
  | cons a rest =>
      have hsep := hrest a rfl
      rw [words_append_cons hsep, words_eq_singleton hnonempty hword, words_cons hsep]
      rfl

theorem head_dropWhile_cons {p : α → Bool} (h : text.dropWhile p = a :: rest) : p a = false := by
  have hhead := List.head?_dropWhile_not p text
  rw [h] at hhead
  exact hhead

/-- What a scan for separators takes behind those in front, and where it goes on. -/
structure FirstWord (sep : α → Bool) (text word rest : List α) : Prop where
  nonempty : word ≠ []
  clean : ∀ a ∈ word, sep a = false
  ends : ∀ a ∈ rest.head?, sep a = true
  dropped_eq : text.dropWhile sep = word ++ rest

theorem firstWord_of_dropWhile (h : text.dropWhile sep = a :: rest) :
    FirstWord sep text ((a :: rest).takeWhile fun a => !sep a)
      ((a :: rest).dropWhile fun a => !sep a) where
  nonempty := by
    rw [List.takeWhile_cons, if_pos (by rw [head_dropWhile_cons h]; rfl)]
    exact List.cons_ne_nil _ _
  clean b hb := by
    simpa using List.mem_takeWhile_imp hb
  ends b hb := by
    obtain ⟨behind, hbehind⟩ := List.head?_eq_some_iff.mp (Option.mem_def.mp hb)
    simpa using head_dropWhile_cons hbehind
  dropped_eq := by
    rw [h, List.takeWhile_append_dropWhile]

theorem FirstWord.words_eq (h : FirstWord sep text word rest) :
    words sep text = word :: words sep rest := by
  rw [← words_dropWhile text, h.dropped_eq, words_append h.nonempty h.clean h.ends]

/-- The separator behind a word ends no other word. -/
theorem FirstWord.words_tail (h : FirstWord sep text word rest) :
    words sep rest.tail = words sep rest := by
  cases rest with
  | nil => rfl
  | cons a rest => exact (words_cons (h.ends a rfl)).symm

/-- The scan to the next separator takes the word. -/
theorem FirstWord.takeWhile_eq (h : FirstWord sep text word rest) :
    (word ++ rest).takeWhile (fun a => !sep a) = word := by
  have hclean : ∀ a ∈ word, (!sep a) = true := fun a ha => by rw [h.clean a ha]; rfl
  rw [List.takeWhile_append_of_pos hclean]
  cases rest with
  | nil => exact List.append_nil word
  | cons a rest =>
      have hends : (!sep a) = false := by
        rw [h.ends a rfl]
        rfl
      rw [List.takeWhile_cons, hends]
      exact List.append_nil word

theorem FirstWord.dropWhile_eq (h : FirstWord sep text word rest) :
    (word ++ rest).dropWhile (fun a => !sep a) = rest := by
  have hsplit := List.takeWhile_append_dropWhile (p := fun a => !sep a) (l := word ++ rest)
  rw [h.takeWhile_eq] at hsplit
  exact List.append_cancel_left hsplit

theorem exists_firstWord {others : List (List α)} (h : words sep text = word :: others) :
    ∃ rest, FirstWord sep text word rest ∧ words sep rest.tail = others := by
  cases hdropped : text.dropWhile sep with
  | nil =>
      rw [← words_dropWhile, hdropped] at h
      cases h
  | cons a rest =>
      have hfirst := firstWord_of_dropWhile hdropped
      rw [hfirst.words_eq] at h
      obtain ⟨rfl, rfl⟩ := List.cons.inj h
      exact ⟨_, hfirst, hfirst.words_tail⟩

theorem dropWhile_of_words_nil (h : words sep text = []) : text.dropWhile sep = [] := by
  cases hdropped : text.dropWhile sep with
  | nil => rfl
  | cons a rest =>
      rw [(firstWord_of_dropWhile hdropped).words_eq] at h
      cases h

/-- A text is either without a separator or a run without one, a separator and another text. -/
theorem separator_induction (sep : α → Bool) {motive : List α → Prop}
    (clean : ∀ word, (∀ a ∈ word, sep a = false) → motive word)
    (split : ∀ word a rest, (∀ b ∈ word, sep b = false) → sep a = true → motive rest →
      motive (word ++ a :: rest)) (text : List α) : motive text := by
  induction hlength : text.length using Nat.strongRecOn generalizing text with
  | ind n ih =>
      have hword : ∀ a ∈ text.takeWhile fun a => !sep a, sep a = false := fun a ha => by
        simpa using List.mem_takeWhile_imp ha
      have hsplit := List.takeWhile_append_dropWhile (p := fun a => !sep a) (l := text)
      cases hrest : text.dropWhile fun a => !sep a with
      | nil =>
          rw [hrest, List.append_nil] at hsplit
          rw [← hsplit]
          exact clean _ hword
      | cons a rest =>
          rw [hrest] at hsplit
          have hsep : sep a = true := by simpa using head_dropWhile_cons hrest
          have hshorter : rest.length < n := by
            rw [← hlength, ← hsplit, List.length_append, List.length_cons]
            omega
          rw [← hsplit]
          exact split _ a rest hword hsep (ih _ hshorter rest rfl)

/-- A run without a separator is its only word, unless it is empty. -/
theorem words_of_clean (hword : ∀ a ∈ word, sep a = false) :
    words sep word = [word].filter fun word => !word.isEmpty := by
  unfold words
  rw [List.splitOnP_eq_singleton hword]

theorem mem_words (h : word ∈ words sep text) : word ≠ [] ∧ ∀ a ∈ word, sep a = false := by
  induction text using separator_induction sep with
  | clean run hrun =>
      rw [words_of_clean hrun, List.mem_filter, List.mem_singleton] at h
      obtain ⟨rfl, hnonempty⟩ := h
      refine ⟨?_, hrun⟩
      rintro rfl
      cases hnonempty
  | split run a rest hrun hsep ih =>
      rw [words_append_cons hsep, List.mem_append, words_of_clean hrun, List.mem_filter,
        List.mem_singleton] at h
      rcases h with ⟨rfl, hnonempty⟩ | h
      · refine ⟨?_, hrun⟩
        rintro rfl
        cases hnonempty
      · exact ih h

/-- The words are made of the text. -/
theorem mem_of_mem_words (h : word ∈ words sep text) (ha : a ∈ word) : a ∈ text := by
  induction text using separator_induction sep with
  | clean run hrun =>
      rw [words_of_clean hrun, List.mem_filter, List.mem_singleton] at h
      rwa [h.1] at ha
  | split run b rest hrun hsep ih =>
      rw [words_append_cons hsep, List.mem_append, words_of_clean hrun, List.mem_filter,
        List.mem_singleton] at h
      rcases h with h | h
      · rw [h.1] at ha
        exact List.mem_append_left _ ha
      · exact List.mem_append_right _ (List.mem_cons_of_mem b (ih h))

/-- What has no separator in it does not stand across one. -/
theorem infix_append_cons {needle : List α} (hneedle : ∀ b ∈ needle, sep b = false)
    (hsep : sep a = true) (h : needle <:+: text ++ a :: rest) :
    needle <:+: text ∨ needle <:+: rest := by
  have hfront : ∀ front, front <+: a :: rest → (∀ b ∈ front, b ∈ needle) → front = [] := by
    intro front hprefix hmem
    cases front with
    | nil => rfl
    | cons b front =>
        obtain ⟨rfl, -⟩ := List.cons_prefix_cons.mp hprefix
        rw [hneedle b (hmem b List.mem_cons_self)] at hsep
        cases hsep
  rcases List.infix_append_iff_ne_nil.mp h with
    htext | hrest | ⟨front, back, -, hback, hsplit, -, hprefix⟩
  · exact .inl htext
  · rcases List.infix_cons_iff.mp hrest with hprefix | hrest
    · rw [hfront needle hprefix fun b hb => hb]
      exact .inl List.nil_infix
    · exact .inr hrest
  · refine absurd (hfront back hprefix ?_) hback
    intro b hb
    rw [hsplit]
    exact List.mem_append_right front hb

/-- What has no separator in it stands within one of the words. -/
theorem exists_word_infix {needle : List α} (hnonempty : needle ≠ [])
    (hneedle : ∀ b ∈ needle, sep b = false) (h : needle <:+: text) :
    ∃ word ∈ words sep text, needle <:+: word := by
  induction text using separator_induction sep with
  | clean run hrun =>
      rw [words_eq_singleton (h.ne_nil hnonempty) hrun]
      exact ⟨run, List.mem_singleton_self run, h⟩
  | split run a rest hrun hsep ih =>
      rw [words_append_cons hsep]
      rcases infix_append_cons hneedle hsep h with h | h
      · refine ⟨run, List.mem_append_left _ ?_, h⟩
        rw [words_eq_singleton (h.ne_nil hnonempty) hrun]
        exact List.mem_singleton_self run
      · obtain ⟨word, hword, hinfix⟩ := ih h
        exact ⟨word, List.mem_append_right _ hword, hinfix⟩

/-- A function that keeps the separators, and puts in none, works word by word. -/
theorem words_map {f : List α → List α}
    (hsplit : ∀ u a v, sep a = true → f (u ++ a :: v) = f u ++ a :: f v)
    (hnil : f [] = []) (hclean : ∀ u, (∀ a ∈ u, sep a = false) → ∀ a ∈ f u, sep a = false) :
    words sep (f text) = ((words sep text).map f).filter fun word => !word.isEmpty := by
  have hrun : ∀ run, (∀ a ∈ run, sep a = false) →
      words sep (f run) = ((words sep run).map f).filter fun word => !word.isEmpty := by
    intro run hrun
    rw [words_of_clean (hclean run hrun), words_of_clean hrun]
    cases run with
    | nil =>
        rw [hnil]
        rfl
    | cons a run => rfl
  induction text using separator_induction sep with
  | clean run hclean => exact hrun run hclean
  | split run a rest hclean hsep ih =>
      rw [hsplit run a rest hsep, words_append_cons hsep, words_append_cons hsep, List.map_append,
        List.filter_append, hrun run hclean, ih]

end Words
