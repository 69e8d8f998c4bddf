import JCUnit.Diff.PrintDiff
import Mathlib.Data.List.Forall2

/-!
# The printed diff is a smallest edit script

The fill loops leave the largest pairing of every two prefixes in the table, for
any relation between lines. The walk back follows these values, so the lines it
keeps are as many as any order-preserving pairing has pairs.
-/

namespace JCUnit
open OrderedPairing

section Table
variable {equal : Nat → Nat → Bool} {m n : Nat}

theorem tableIndex_of_le (hbound : (m + 1) * (n + 1) < 2 ^ 32) {a b : Nat} (ha : a ≤ m)
    (hb : b ≤ n) : tableIndex (n + 1) a b = a * (n + 1) + b := by
  have hrow : a * (n + 1) ≤ m * (n + 1) := Nat.mul_le_mul_right _ ha
  have hall : (m + 1) * (n + 1) = m * (n + 1) + (n + 1) := Nat.succ_mul _ _
  exact u32_of_lt (by omega)

theorem tableIndex_inj (hbound : (m + 1) * (n + 1) < 2 ^ 32) {a b a' b' : Nat} (ha : a ≤ m)
    (hb : b ≤ n) (ha' : a' ≤ m) (hb' : b' ≤ n)
    (h : tableIndex (n + 1) a b = tableIndex (n + 1) a' b') : a = a' ∧ b = b' := by
  rw [tableIndex_of_le hbound ha hb, tableIndex_of_le hbound ha' hb'] at h
  have hdiv := congrArg (· / (n + 1)) h
  have hmod := congrArg (· % (n + 1)) h
  simp only [Nat.mul_add_mod_self_right, Nat.mod_eq_of_lt (Nat.lt_succ_of_le hb),
    Nat.mod_eq_of_lt (Nat.lt_succ_of_le hb')] at hmod
  simp only [Nat.mul_comm _ (n + 1), Nat.mul_add_div (Nat.succ_pos n),
    Nat.div_eq_of_lt (Nat.lt_succ_of_le hb), Nat.div_eq_of_lt (Nat.lt_succ_of_le hb')] at hdiv
  exact ⟨by omega, hmod⟩

/-- Rows up to `r` and the first `c` columns of the next row hold their final values. -/
def CellsFilled (equal : Nat → Nat → Bool) (m n : Nat) (table : Nat → Nat) (r c : Nat) : Prop :=
  ∀ a b, a ≤ m → b ≤ n → table (tableIndex (n + 1) a b) =
    if a ≤ r ∨ (a = r + 1 ∧ b ≤ c) then best equal a b else 0

theorem fillCell_filled (hbound : (m + 1) * (n + 1) < 2 ^ 32) {table : Nat → Nat} {r c : Nat}
    (hr : r < m) (hc : c < n) (h : CellsFilled equal m n table r c) :
    CellsFilled equal m n (fillCell equal (n + 1) (r + 1) table (c + 1)) r (c + 1) := by
  have hdiag := h r c (by omega) (by omega)
  have hup := h r (c + 1) (by omega) (by omega)
  have hleft := h (r + 1) c (by omega) (by omega)
  rw [if_pos (by omega)] at hdiag hup hleft
  have hcell : fillCell equal (n + 1) (r + 1) table (c + 1) =
      Function.update table (tableIndex (n + 1) (r + 1) (c + 1)) (best equal (r + 1) (c + 1)) := by
    simp only [fillCell, Nat.add_sub_cancel, hdiag, hup, hleft, best_succ_succ]
    by_cases heq : equal r c = true
    · simp [heq]
    · rw [if_neg heq, if_neg heq, max_comm, Nat.max_def]
      congr 1
      split <;> split <;> omega
  intro a b ha hb
  rw [hcell]
  by_cases hsame : a = r + 1 ∧ b = c + 1
  · obtain ⟨rfl, rfl⟩ := hsame
    rw [Function.update_self, if_pos (by omega)]
  · have hne : tableIndex (n + 1) a b ≠ tableIndex (n + 1) (r + 1) (c + 1) :=
      fun hindex => hsame (tableIndex_inj hbound ha hb (by omega) (by omega) hindex)
    rw [Function.update_of_ne hne, h a b ha hb]
    by_cases hdone : a ≤ r ∨ (a = r + 1 ∧ b ≤ c)
    · rw [if_pos hdone, if_pos (by omega)]
    · rw [if_neg hdone, if_neg (by omega)]

theorem fillRow_filled (hbound : (m + 1) * (n + 1) < 2 ^ 32) {table : Nat → Nat} {r c : Nat}
    (hr : r < m) (hc : c ≤ n) (h : CellsFilled equal m n table r 0) :
    CellsFilled equal m n (fillRow equal (n + 1) (r + 1) c table) r c := by
  induction c with
  | zero => exact h
  | succ c ih =>
      have hloop : fillRow equal (n + 1) (r + 1) (c + 1) table =
          fillCell equal (n + 1) (r + 1) (fillRow equal (n + 1) (r + 1) c table) (c + 1) := by
        simp [fillRow, List.range_succ]
      rw [hloop]
      exact fillCell_filled hbound hr hc (ih (by omega))

/-- A full row is the start of the next one: column zero is final from the beginning. -/
theorem CellsFilled.next_row {table : Nat → Nat} {r : Nat} (h : CellsFilled equal m n table r n) :
    CellsFilled equal m n table (r + 1) 0 := by
  intro a b ha hb
  rw [h a b ha hb]
  by_cases hdone : a ≤ r ∨ (a = r + 1 ∧ b ≤ n)
  · rw [if_pos hdone, if_pos (by omega)]
  · by_cases hzero : a = r + 1 + 1 ∧ b = 0
    · rw [if_neg hdone, if_pos (by omega), hzero.2, best_zero_right]
    · rw [if_neg hdone, if_neg (by omega)]

theorem fillTable_filled (hbound : (m + 1) * (n + 1) < 2 ^ 32) {r : Nat} (hr : r ≤ m) :
    CellsFilled equal m n (fillTable equal (n + 1) r) r 0 := by
  induction r with
  | zero =>
      intro a b _ _
      by_cases ha : a = 0
      · simp [fillTable, ha]
      · by_cases hb : b = 0 <;> simp [fillTable, ha, hb]
  | succ r ih =>
      have hloop : fillTable equal (n + 1) (r + 1) =
          fillRow equal (n + 1) (r + 1) n (fillTable equal (n + 1) r) := by
        simp [fillTable, List.range_succ]
      rw [hloop]
      exact (fillRow_filled hbound hr (Nat.le_refl n) (ih (by omega))).next_row

/-- After the fill loops every cell holds the largest pairing of its two prefixes. -/
theorem fillTable_eq_best (hbound : (m + 1) * (n + 1) < 2 ^ 32) {a b : Nat} (ha : a ≤ m)
    (hb : b ≤ n) : fillTable equal (n + 1) m (tableIndex (n + 1) a b) = best equal a b := by
  rw [fillTable_filled hbound (Nat.le_refl m) a b ha hb, if_pos (Or.inl ha)]

/-- The walk back pushes a script that keeps as many positions as the table says. -/
theorem walkBack_script {table : Nat → Nat}
    (htable : ∀ a b, a ≤ m → b ≤ n → table (tableIndex (n + 1) a b) = best equal a b)
    (i j : Nat) (hi : i ≤ m) (hj : j ≤ n) (stack : List (EditAction × Nat)) :
    ∃ s ps, walkBack equal (n + 1) table i j stack = s ++ stack ∧ Script equal i j s ps ∧
      ps.length = best equal i j := by
  induction hsize : i + j using Nat.strong_induction_on generalizing i j stack with
  | _ size ih =>
      rw [walkBack]
      by_cases hmore : i > 0 ∨ j > 0
      · rw [if_pos hmore]
        by_cases hkeep : i > 0 ∧ j > 0 ∧ equal (i - 1) (j - 1)
        · obtain ⟨hi0, hj0, heq⟩ := hkeep
          obtain ⟨i, rfl⟩ := Nat.exists_eq_succ_of_ne_zero (Nat.ne_of_gt hi0)
          obtain ⟨j, rfl⟩ := Nat.exists_eq_succ_of_ne_zero (Nat.ne_of_gt hj0)
          simp only [Nat.succ_eq_add_one, Nat.add_sub_cancel] at heq ⊢
          obtain ⟨s, ps, hwalk, hs, hlen⟩ :=
            ih (i + j) (by omega) i j (by omega) (by omega) ((.keep, i) :: stack) rfl
          refine ⟨s ++ [(.keep, i)], ps ++ [j], ?_, .keep heq hs, ?_⟩
          · simp [heq, hwalk]
          · simp [hlen, best_succ_succ, heq]
        · rw [if_neg hkeep]
          by_cases hadd : j > 0 ∧ (i = 0 ∨
              table (tableIndex (n + 1) i (j - 1)) ≥ table (tableIndex (n + 1) (i - 1) j))
          · rw [if_pos hadd]
            obtain ⟨hj0, hside⟩ := hadd
            obtain ⟨j, rfl⟩ := Nat.exists_eq_succ_of_ne_zero (Nat.ne_of_gt hj0)
            obtain ⟨s, ps, hwalk, hs, hlen⟩ :=
              ih (i + j) (by omega) i j hi (by omega) ((.add, j) :: stack) rfl
            refine ⟨s ++ [(.add, j)], ps, by simpa using hwalk, .add hs, ?_⟩
            rw [hlen]
            cases i with
            | zero => simp
            | succ i =>
                have hne : equal i j = false := by simpa using hkeep
                rw [htable (i + 1) _ hi (by omega), htable _ (j + 1) (by omega) hj] at hside
                simp at hside
                simp [best_succ_succ i j, hne, hside]
          · rw [if_neg hadd]
            have hi0 : i > 0 := by omega
            obtain ⟨i, rfl⟩ := Nat.exists_eq_succ_of_ne_zero (Nat.ne_of_gt hi0)
            obtain ⟨s, ps, hwalk, hs, hlen⟩ :=
              ih (i + j) (by omega) i j (by omega) hj ((.remove, i) :: stack) rfl
            refine ⟨s ++ [(.remove, i)], ps, by simpa using hwalk, .remove hs, ?_⟩
            rw [hlen]
            cases j with
            | zero => simp
            | succ j =>
                have hne : equal i j = false := by simpa using hkeep
                rw [htable (i + 1) _ hi (by omega), htable _ (j + 1) (by omega) hj] at hadd
                simp at hadd
                simp [best_succ_succ i j, hne, Nat.le_of_lt hadd]
      · have hi0 : i = 0 := by omega
        have hj0 : j = 0 := by omega
        subst hi0 hj0
        rw [if_neg hmore]
        exact ⟨[], [], rfl, .nil, by simp⟩

end Table

theorem lineAt_splitLines (str : Bytes) (i : Nat) :
    (splitLines str).lineAt str i = (textLines str).getD i [] := by
  rw [List.getD_eq_getElem?_getD, ← (splitLines_spec str).2 i, DiffLines.lineAt]
  cases (splitLines str).lines i <;> rfl

theorem map_getD_range {α : Type*} (l : List α) (d : α) :
    (List.range l.length).map (fun i => l.getD i d) = l := by
  refine List.ext_getElem (by simp) fun i h₁ h₂ => ?_
  simp [List.getElem?_eq_getElem h₂]

/-- Looking up the indices that a test on positions selects is selecting the entries. -/
theorem map_getD_filter_range {α : Type*} (l : List α) (d : α) (keep : Nat → Bool) :
    ((List.range l.length).filter keep).map (fun i => l.getD i d) =
      (l.zipIdx.filter fun e => keep e.2).map Prod.fst := by
  have hzip : l.zipIdx = (List.range l.length).map fun i => (l.getD i d, i) := by
    refine List.ext_getElem (by simp) fun i h₁ h₂ => ?_
    have hi : i < l.length := by simpa using h₁
    simp [List.getElem?_eq_getElem hi]
  rw [hzip, List.filter_map, List.map_map]
  rfl

/-- The match relation between expected and actual lines, by their positions. -/
def lineMatches (expLines actLines : List Bytes) (i j : Nat) : Bool :=
  patternMatch (expLines.getD i []) (actLines.getD j [])

/-- The line an action prints, read from the list of lines its index belongs to. -/
def scriptLine (expLines actLines : List Bytes) (e : EditAction × Nat) : EditAction × Bytes :=
  (e.1, if e.1 = .add then actLines.getD e.2 [] else expLines.getD e.2 [])

/-- The emitted lines are what the walk back through the filled table pushes. -/
theorem walkedLines_eq_walk (expected actual : Option Bytes)
    (hbound : ((textLines (expected.getD [])).length + 1) *
      ((textLines (actual.getD [])).length + 1) < 2 ^ 32) :
    let expLines := textLines (expected.getD [])
    let actLines := textLines (actual.getD [])
    ∃ table : Nat → Nat, (∀ a b, a ≤ expLines.length → b ≤ actLines.length →
        table (tableIndex (actLines.length + 1) a b) =
          best (lineMatches expLines actLines) a b) ∧
      walkedLines expected actual = (walkBack (lineMatches expLines actLines) (actLines.length + 1)
        table expLines.length actLines.length []).map (scriptLine expLines actLines) := by
  intro expLines actLines
  have hm : expLines.length + 1 < 2 ^ 32 :=
    Nat.lt_of_le_of_lt (Nat.le_mul_of_pos_right _ (Nat.succ_pos _)) hbound
  have hn : actLines.length + 1 < 2 ^ 32 :=
    Nat.lt_of_le_of_lt (Nat.le_mul_of_pos_left _ (Nat.succ_pos _)) hbound
  refine ⟨fillTable (lineMatches expLines actLines) (actLines.length + 1) expLines.length,
    fun a b ha hb => fillTable_eq_best hbound ha hb, ?_⟩
  have hequal : (fun i j => linesEqual ((splitLines (expected.getD [])).lineAt (expected.getD []) i)
      ((splitLines (actual.getD [])).lineAt (actual.getD []) j)) = lineMatches expLines actLines := by
    funext i j
    rw [lineAt_splitLines, lineAt_splitLines]
    rfl
  simp only [walkedLines, (splitLines_spec _).1, hequal]
  rw [u32_of_lt hm, u32_of_lt hn, Nat.add_sub_cancel]
  refine List.map_congr_left fun e _ => ?_
  obtain ⟨action, idx⟩ := e
  cases action <;> simp [scriptLine, lineAt_splitLines, expLines, actLines]

/-- The emitted lines are a script on the positions of the two lists of lines. -/
theorem walkedLines_eq_script (expected actual : Option Bytes)
    (hbound : ((textLines (expected.getD [])).length + 1) *
      ((textLines (actual.getD [])).length + 1) < 2 ^ 32) :
    let expLines := textLines (expected.getD [])
    let actLines := textLines (actual.getD [])
    ∃ s ps, walkedLines expected actual = s.map (scriptLine expLines actLines) ∧
      Script (lineMatches expLines actLines) expLines.length actLines.length s ps ∧
      ps.length = best (lineMatches expLines actLines) expLines.length actLines.length := by
  intro expLines actLines
  obtain ⟨table, htable, hemitted⟩ := walkedLines_eq_walk expected actual hbound
  obtain ⟨s, ps, hwalk, hs, hlen⟩ := walkBack_script htable expLines.length actLines.length
    (Nat.le_refl _) (Nat.le_refl _) []
  refine ⟨s, ps, ?_, hs, hlen⟩
  rw [hemitted, hwalk, List.append_nil]

/-- Kept and removed lines are the expected text; the kept lines match distinct actual lines
in order, and the added lines are the actual lines left; no pairing keeps more. -/
def SmallestScript (expected actual : Bytes) (emitted : List (EditAction × Bytes)) : Prop :=
  let expLines := textLines expected
  let actLines := textLines actual
  let kept := (emitted.filter fun e => e.1 = .keep).map Prod.snd
  (emitted.filter fun e => e.1 ≠ .add).map Prod.snd = expLines ∧
    (∃ partners : List Nat, partners.Pairwise (· < ·) ∧
      List.Forall₂ (fun line j => ∃ a, actLines[j]? = some a ∧ patternMatch line a = true)
        kept partners ∧
      (emitted.filter fun e => e.1 = .add).map Prod.snd =
        (actLines.zipIdx.filter fun e => e.2 ∉ partners).map Prod.fst) ∧
    ∀ ps, IsPairing (lineMatches expLines actLines) expLines.length actLines.length ps →
      ps.length ≤ kept.length

theorem walkedLines_smallestScript (expected actual : Option Bytes)
    (hbound : ((textLines (expected.getD [])).length + 1) *
      ((textLines (actual.getD [])).length + 1) < 2 ^ 32) :
    SmallestScript (expected.getD []) (actual.getD []) (walkedLines expected actual) := by
  unfold SmallestScript
  intro expLines actLines kept
  obtain ⟨s, ps, hemitted, hs, hlen⟩ := walkedLines_eq_script expected actual hbound
  have hfilter (p : EditAction → Bool) : ((walkedLines expected actual).filter fun e => p e.1) =
      (s.filter fun e => p e.1).map (scriptLine expLines actLines) := by
    rw [hemitted, List.filter_map]
    rfl
  have hkeptEq : kept = ((s.filter fun e => e.1 = .keep).map Prod.snd).map
      (fun i => expLines.getD i []) := by
    simp only [kept, hfilter fun a => decide (a = .keep), List.map_map]
    refine List.map_congr_left fun e he => ?_
    have haction : e.1 = .keep := by simpa using (List.mem_filter.mp he).2
    simp [scriptLine, haction]
  refine ⟨?_, ⟨ps, hs.partners_increasing, ?_, ?_⟩, ?_⟩
  · have hsource := congrArg (List.map fun i => expLines.getD i []) hs.source_eq
    rw [map_getD_range, List.map_map] at hsource
    rw [hfilter fun a => decide (a ≠ .add), List.map_map]
    refine Eq.trans ?_ hsource
    refine List.map_congr_left fun e he => ?_
    have haction : e.1 ≠ .add := by simpa using (List.mem_filter.mp he).2
    simp [scriptLine, haction]
  · have hpaired := ((List.forall₂_and_left _ _).mpr ⟨hs.partners_lt, hs.kept_related.flip⟩).flip
    rw [hkeptEq, List.forall₂_map_left_iff]
    refine hpaired.imp fun i j hij => ?_
    obtain ⟨hj, hrel⟩ := hij
    exact ⟨actLines[j], List.getElem?_eq_getElem hj,
      by simpa [lineMatches, List.getElem?_eq_getElem hj] using hrel⟩
  · have hadded := congrArg (List.map fun j => actLines.getD j []) hs.added_eq
    rw [map_getD_filter_range, List.map_map] at hadded
    rw [hfilter fun a => decide (a = .add), List.map_map]
    refine Eq.trans ?_ hadded
    refine List.map_congr_left fun e he => ?_
    have haction : e.1 = .add := by simpa using (List.mem_filter.mp he).2
    simp [scriptLine, haction]
  · intro pairs hpairs
    rw [hkeptEq, List.length_map, List.length_map, hs.length_kept, hlen]
    exact hpairs.length_le_best

/-- What `print_diff` emits is a smallest edit script for exactly the texts whose table and lines
fit a blob of the memory pool. -/
theorem diffLines_smallest_script_iff (expected actual : Option Bytes) :
    (∃ emitted, diffLines expected actual = .ok emitted ∧
        SmallestScript (expected.getD []) (actual.getD []) emitted) ↔
      DiffFits (expected.getD []) (actual.getD []) := by
  rw [exists_diffLines_iff]
  constructor
  · rintro ⟨hfits, -⟩
    exact hfits
  · intro hfits
    exact ⟨hfits, walkedLines_smallestScript expected actual hfits.bound⟩

/-- So many lines of this byte in front of a text. -/
def repeatedLine (b : Byte) (count : Nat) (rest : Bytes) : Bytes :=
  (List.replicate count [b, newline]).flatten ++ rest

theorem length_textLines_repeatedLine {b : Byte} (hb : b ≠ newline) (count : Nat) (rest : Bytes) :
    (textLines (repeatedLine b count rest)).length = count + (textLines rest).length := by
  have hline : newline ∉ [b] := fun hmem => hb (List.mem_singleton.mp hmem).symm
  induction count with
  | zero => exact (Nat.zero_add _).symm
  | succ count ih =>
      have hnext : repeatedLine b (count + 1) rest = [b] ++ newline :: repeatedLine b count rest := rfl
      rw [hnext, textLines_line_append hline, List.length_cons, ih]
      omega

theorem length_textLines_512 :
    (textLines (repeatedLine 97 511 [97])).length = 512 ∧
      (textLines (repeatedLine 98 512 [])).length = 512 :=
  ⟨length_textLines_repeatedLine (by decide) 511 [97],
    length_textLines_repeatedLine (by decide) 512 []⟩

/-- The table for 512 lines against 512 lines has 513 * 513 * 4 bytes, 4100 more than a blob. -/
theorem not_diffFits_512 :
    ¬DiffFits (repeatedLine 97 511 [97]) (repeatedLine 98 512 []) := by
  rintro ⟨htable, -⟩
  rw [length_textLines_512.1, length_textLines_512.2] at htable
  revert htable
  decide

theorem diffLines_overrun_512 :
    ¬∀ expected actual : Option Bytes, ((textLines (expected.getD [])).length + 1) *
        ((textLines (actual.getD [])).length + 1) < 2 ^ 32 →
      ∃ emitted, diffLines expected actual = .ok emitted ∧
        SmallestScript (expected.getD []) (actual.getD []) emitted := by
  intro h
  have hemitted := h (some (repeatedLine 97 511 [97])) (some (repeatedLine 98 512 [])) (by
    rw [Option.getD_some, Option.getD_some, length_textLines_512.1, length_textLines_512.2]
    decide)
  exact not_diffFits_512 (exists_diffLines_iff.mp hemitted).1

end JCUnit
