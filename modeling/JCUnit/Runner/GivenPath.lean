import JCUnit.Runner.ArgumentWords

/-!
# The path of the given file among the arguments

The placeholders are replaced before the result is cut into words. A path with a blank is
therefore cut with it, and a word that was nothing but placeholders for an empty path is gone.
-/

namespace JCUnit

open Words Replacement

/-- The path is an argument as it is, or stands as it is for each placeholder of the words of
the template. -/
def PathUnbroken (path : Bytes) (template : Option Bytes) (argv : List Bytes) : Prop :=
  if template.any fun t => strstr t filePlaceholder then
    argv.tail = (words isBlank (template.getD [])).map (replaceAll filePlaceholder path)
  else argv[1]? = some path

/-- The path has no NUL. Where there is a placeholder for it, the template has none either, the
path has no blank, and if it is empty, every word of the template has more than placeholders. -/
def PathFits (path : Bytes) (template : Option Bytes) : Prop :=
  0 ∉ path ∧ ∀ t ∈ template, strstr t filePlaceholder = true →
    0 ∉ t ∧ (∀ b ∈ path, isBlank b = false) ∧
      (path = [] → ∀ word ∈ words isBlank t, replaceAll filePlaceholder [] word ≠ [])

theorem strstr_iff {haystack needle : Bytes} :
    strstr haystack needle = true ↔ needle <:+: haystack := by
  rw [strstr, List.any_eq_true, List.infix_iff_prefix_suffix]
  constructor
  · rintro ⟨tail, htail, hprefix⟩
    exact ⟨tail, List.isPrefixOf_iff_prefix.mp hprefix, (List.mem_tails tail haystack).mp htail⟩
  · rintro ⟨tail, hprefix, hsuffix⟩
    exact ⟨tail, (List.mem_tails tail haystack).mpr hsuffix, List.isPrefixOf_iff_prefix.mpr hprefix⟩

theorem filePlaceholder_ne_nil : filePlaceholder ≠ [] := by decide

theorem not_isBlank_of_mem_filePlaceholder : ∀ b ∈ filePlaceholder, isBlank b = false := by
  decide +kernel

/-- With a path without blanks, the words are those of the template with the path put in. -/
theorem words_replaceAll {path t : Bytes} (hpath : ∀ b ∈ path, isBlank b = false) :
    words isBlank (replaceAll filePlaceholder path t) =
      ((words isBlank t).map (replaceAll filePlaceholder path)).filter fun word => !word.isEmpty := by
  apply words_map
  · intro u a v ha
    apply replaceAll_append_cons filePlaceholder_ne_nil
    intro hmem
    rw [not_isBlank_of_mem_filePlaceholder a hmem] at ha
    cases ha
  · exact replaceAll_nil
  · intro u hu b hb
    exact (mem_replaceAll hb).elim (hpath b) (hu b)

section Arguments

variable {program : CString} {path t : Bytes} {template : Option Bytes} {argv : List Bytes}

theorem strstr_cstr (h : strstr (cstr t) filePlaceholder = true) :
    strstr t filePlaceholder = true := by
  rw [strstr_iff] at h ⊢
  exact h.trans (List.takeWhile_prefix _).isInfix

theorem nulFree_expandedArgs (filename extraArgs : Option CString) :
    0 ∉ expandedArgs filename extraArgs := by
  intro h
  rcases mem_replaceAll h with hmem | hmem
  · cases filename with
    | none => cases hmem
    | some filename => exact filename.nulFree hmem
  · cases extraArgs with
    | none => cases hmem
    | some extra => exact extra.nulFree hmem

/-- A template's own words with the path put in have no NUL only if the path and the template
have none. -/
theorem nulFree_of_words (h : strstr t filePlaceholder = true)
    (hwords : ∀ word ∈ words isBlank t, 0 ∉ replaceAll filePlaceholder path word) :
    0 ∉ path ∧ 0 ∉ t := by
  have hplaceholder : (0 : Byte) ∉ filePlaceholder := by decide
  constructor
  · intro hpath
    obtain ⟨word, hword, hinfix⟩ :=
      exists_word_infix filePlaceholder_ne_nil not_isBlank_of_mem_filePlaceholder (strstr_iff.mp h)
    exact hwords word hword ((infix_replaceAll filePlaceholder_ne_nil hinfix).mem hpath)
  · intro ht
    have hnul : ∀ b ∈ ([0] : Bytes), isBlank b = false := by decide +kernel
    obtain ⟨word, hword, hinfix⟩ :=
      exists_word_infix (List.cons_ne_nil 0 []) hnul ((List.singleton_infix_iff 0 t).mpr ht)
    apply hwords word hword
    exact mem_replaceAll_of_mem filePlaceholder_ne_nil hplaceholder
      ((List.singleton_infix_iff 0 word).mp hinfix)

/-- Without a placeholder the path is the first argument. -/
theorem pathUnbroken_of_none (h : template.any (fun t => strstr t filePlaceholder) = false) :
    PathUnbroken path template
      (exactArgs program (some (CString.ofBuffer path)) (template.map CString.ofBuffer)) ↔
      PathFits path template := by
  have hcut : hasFilePlaceholder (template.map CString.ofBuffer) = false := by
    cases template with
    | none => rfl
    | some t =>
        apply eq_false_of_ne_true
        intro hplaceholder
        rw [Option.any_some, strstr_cstr hplaceholder] at h
        cases h
  have hvacuous : ∀ t ∈ template, strstr t filePlaceholder ≠ true := by
    intro t ht hplaceholder
    obtain rfl := Option.mem_def.mp ht
    rw [Option.any_some, hplaceholder] at h
    cases h
  have hfirst : (exactArgs program (some (CString.ofBuffer path))
      (template.map CString.ofBuffer))[1]? = some (cstr path) := by
    unfold exactArgs
    rw [hcut]
    rfl
  unfold PathUnbroken PathFits
  rw [h, if_neg Bool.false_ne_true, hfirst, Option.some.injEq, cstr_eq_self_iff]
  exact (and_iff_left fun t ht hplaceholder => absurd hplaceholder (hvacuous t ht)).symm

/-- The words of the expanded template. -/
theorem tail_exactArgs (h : strstr (cstr t) filePlaceholder = true) :
    (exactArgs program (some (CString.ofBuffer path)) (some (CString.ofBuffer t))).tail =
      words isBlank (replaceAll filePlaceholder (cstr path) (cstr t)) := by
  have hplaceholder : hasFilePlaceholder (some (CString.ofBuffer t)) = true := h
  unfold exactArgs
  rw [hplaceholder]
  rfl

/-- The arguments behind the program are C strings, as it is. -/
theorem nulFree_tail_exactArgs (filename extraArgs : Option CString) :
    ∀ arg ∈ (exactArgs program filename extraArgs).tail, 0 ∉ arg := by
  intro arg harg
  rcases List.mem_append.mp harg with hname | hword
  · split at hname
    · cases hname
    · obtain ⟨filename, -, rfl⟩ := Option.map_eq_some_iff.mp (Option.mem_toList.mp hname)
      exact filename.nulFree
  · intro hzero
    exact nulFree_expandedArgs filename extraArgs (mem_of_mem_words hword hzero)

theorem pathUnbroken_of_placeholder (h : strstr t filePlaceholder = true) :
    PathUnbroken path (some t)
      (exactArgs program (some (CString.ofBuffer path)) (some (CString.ofBuffer t))) ↔
      PathFits path (some t) := by
  have hcut : 0 ∉ t → strstr (cstr t) filePlaceholder = true := fun ht => by
    rwa [cstr_eq_self_iff.mpr ht]
  unfold PathUnbroken PathFits
  rw [Option.any_some, if_pos h, Option.getD_some]
  constructor
  · intro htail
    have hmem : ∀ word ∈ words isBlank t, replaceAll filePlaceholder path word ∈
        (exactArgs program (some (CString.ofBuffer path)) (some (CString.ofBuffer t))).tail := by
      intro word hword
      rw [htail]
      exact List.mem_map_of_mem hword
    obtain ⟨hpath, ht⟩ := nulFree_of_words h fun word hword =>
      nulFree_tail_exactArgs _ _ _ (hmem word hword)
    rw [tail_exactArgs (hcut ht)] at hmem
    refine ⟨hpath, ?_⟩
    intro t' ht' _
    obtain rfl := Option.some.inj ht'
    refine ⟨ht, ?_, ?_⟩
    · obtain ⟨word, hword, hinfix⟩ :=
        exists_word_infix filePlaceholder_ne_nil not_isBlank_of_mem_filePlaceholder (strstr_iff.mp h)
      intro b hb
      apply (mem_words (hmem word hword)).2
      exact (infix_replaceAll filePlaceholder_ne_nil hinfix).mem hb
    · rintro rfl word hword
      exact (mem_words (hmem word hword)).1
  · rintro ⟨hpath, hfits⟩
    obtain ⟨ht, hblanks, hempty⟩ := hfits t rfl h
    rw [tail_exactArgs (hcut ht), cstr_eq_self_iff.mpr hpath, cstr_eq_self_iff.mpr ht,
      words_replaceAll hblanks, List.filter_eq_self]
    intro arg harg
    obtain ⟨word, hword, rfl⟩ := List.mem_map.mp harg
    have hnonempty : replaceAll filePlaceholder path word ≠ [] := by
      by_cases hnil : path = []
      · rw [hnil]
        exact hempty hnil word hword
      · exact replaceAll_ne_nil filePlaceholder_ne_nil hnil (mem_words hword).1
    rw [Bool.not_eq_true', List.isEmpty_eq_false_iff]
    exact hnonempty

end Arguments

/-- Within the limits, the path reaches the program unbroken exactly if it fits the template. -/
theorem buildArgs_path_iff {program : CString} {path : Bytes} {template : Option Bytes}
    {argv : List Bytes}
    (hargs : buildArgs program (some (CString.ofBuffer path)) (template.map CString.ofBuffer) =
      .ok argv) : PathUnbroken path template argv ↔ PathFits path template := by
  rw [buildArgs_eq] at hargs
  split at hargs
  · cases hargs
  split at hargs
  · cases hargs
  cases hargs
  cases h : template.any fun t => strstr t filePlaceholder with
  | false => exact pathUnbroken_of_none h
  | true =>
      cases template with
      | none => cases h
      | some t => exact pathUnbroken_of_placeholder h

theorem buildArgs_path_plain :
    PathUnbroken (ascii "/tmp/f") (some (ascii "-i " ++ filePlaceholder))
      [ascii "cat", ascii "-i", ascii "/tmp/f"] := by
  have hargs : buildArgs ⟨ascii "cat", by decide⟩ (some (CString.ofBuffer (ascii "/tmp/f")))
      ((some (ascii "-i " ++ filePlaceholder)).map CString.ofBuffer) =
      .ok [ascii "cat", ascii "-i", ascii "/tmp/f"] := by decide +kernel
  apply (buildArgs_path_iff hargs).mpr
  refine ⟨by decide, ?_⟩
  intro t ht _
  obtain rfl := Option.some.inj ht
  refine ⟨by decide, by decide +kernel, ?_⟩
  intro hempty
  cases hempty

/-- A path with a blank comes in two arguments. -/
theorem path_with_blank_broken :
    buildArgs ⟨ascii "cat", by decide⟩ (some (CString.ofBuffer (ascii "/tmp/a b")))
        ((some filePlaceholder).map CString.ofBuffer) =
        .ok [ascii "cat", ascii "/tmp/a", ascii "b"] ∧
      ¬ PathUnbroken (ascii "/tmp/a b") (some filePlaceholder)
        [ascii "cat", ascii "/tmp/a", ascii "b"] := by
  refine ⟨by decide +kernel, ?_⟩
  intro h
  have hplaceholder : (some filePlaceholder).any (fun t => strstr t filePlaceholder) = true := by
    decide
  rw [PathUnbroken, if_pos hplaceholder] at h
  have hlength := congrArg List.length h
  rw [List.length_map] at hlength
  revert hlength
  decide

end JCUnit
