import JCUnit.Diff.LosslessLines
import JCUnit.Suites.EveryTestOnce

/-!
# The layout of the progress marks

What passthrough mode has printed after a number of results, as lines of up to fifty
marks with a percentage behind each of them.
-/

namespace JCUnit

open StateError Loops

/-- The marks of a line and the percentage behind them. -/
structure ProgressLine where
  marks : Bytes
  percent : Nat
deriving DecidableEq

/-- The marks are filled up with blanks to fifty columns. -/
def ProgressLine.text (line : ProgressLine) : Bytes :=
  line.marks ++ List.replicate (50 - line.marks.length) 32 ++ ascii " (" ++
    padLeft 3 32 (decimal line.percent) ++ ascii "%)"

/-- The line with this number, counted from zero, of `total` results. -/
def progressLine (total : Nat) (marks : Bytes) (k : Nat) : ProgressLine where
  marks := (marks.drop (50 * k)).take 50
  percent := 100 * min (50 * (k + 1)) total / total

def progressLines (total : Nat) (marks : Bytes) (count : Nat) : List ProgressLine :=
  (List.range count).map (progressLine total marks)

/-- Lines that are all ended. -/
def endedLines (lines : List ProgressLine) : Bytes :=
  lines.flatMap fun line => line.text ++ [newline]

/-- The text behind these marks: the full lines, and the marks of the open one. -/
def progressText (total : Nat) (marks : Bytes) : Bytes :=
  endedLines (progressLines total marks (marks.length / 50)) ++ marks.drop (50 * (marks.length / 50))

section Lines

variable {total : Nat} {marks : Bytes}

theorem joinLines_concat (lines : List Bytes) (last : Bytes) :
    joinLines (lines ++ [last]) = (lines.flatMap fun line => line ++ [newline]) ++ last := by
  induction lines with
  | nil => simp [joinLines]
  | cons line lines ih =>
      rw [joinLines] at ih
      rw [joinLines, List.cons_append, List.intercalate_cons_of_ne_nil (by simp), ih]
      simp

theorem progressLines_succ (count : Nat) : progressLines total marks (count + 1) =
    progressLines total marks count ++ [progressLine total marks count] := by
  rw [progressLines, progressLines, List.range_succ, List.map_append]
  rfl

/-- A further mark changes no full line. -/
theorem progressLines_concat (mark : Byte) {count : Nat} (h : 50 * count ≤ marks.length) :
    progressLines total (marks ++ [mark]) count = progressLines total marks count := by
  apply List.map_congr_left
  intro k hk
  have hlt := List.mem_range.mp hk
  rw [progressLine, progressLine, List.drop_append_of_le_length (by omega),
    List.take_append_of_le_length (by rw [List.length_drop]; omega)]

theorem progressText_nil (total : Nat) : progressText total [] = [] := by
  rw [progressText, List.length_nil, Nat.zero_div]
  rfl

theorem length_marks_progressLine {k : Nat} :
    (progressLine total marks k).marks.length = min 50 (marks.length - 50 * k) := by
  rw [progressLine, List.length_take, List.length_drop]

/-- A mark that leaves its line open. -/
theorem progressText_concat_open {mark : Byte} (h : (marks.length + 1) % 50 ≠ 0) :
    progressText total (marks ++ [mark]) = progressText total marks ++ [mark] := by
  have hquot : (marks ++ [mark]).length / 50 = marks.length / 50 := by
    rw [List.length_append, List.length_singleton]
    omega
  have hfull : 50 * (marks.length / 50) ≤ marks.length := Nat.mul_div_le _ _
  rw [progressText, progressText, hquot, progressLines_concat mark hfull,
    List.drop_append_of_le_length hfull, List.append_assoc]

/-- The mark that fills its line, with the percentage behind it. -/
theorem progressText_concat_full {mark : Byte} (h : (marks.length + 1) % 50 = 0)
    (htotal : marks.length + 1 ≤ total) :
    progressText total (marks ++ [mark]) = progressText total marks ++ [mark] ++
      (ascii " (" ++ padLeft 3 32 (decimal ((marks.length + 1) * 100 / total)) ++ ascii "%)\n") := by
  have hlen : (marks ++ [mark]).length = marks.length + 1 := List.length_append
  have hquot : (marks ++ [mark]).length / 50 = marks.length / 50 + 1 := by
    rw [hlen]
    omega
  have hfull : 50 * (marks.length / 50) ≤ marks.length := Nat.mul_div_le _ _
  have hall : 50 * (marks.length / 50 + 1) = marks.length + 1 := by omega
  have hline : (progressLine total (marks ++ [mark]) (marks.length / 50)).marks =
      marks.drop (50 * (marks.length / 50)) ++ [mark] := by
    rw [progressLine, List.take_of_length_le (by rw [List.length_drop, hlen]; omega),
      List.drop_append_of_le_length hfull]
  have hpercent : (progressLine total (marks ++ [mark]) (marks.length / 50)).percent =
      (marks.length + 1) * 100 / total := by
    change 100 * min (50 * (marks.length / 50 + 1)) total / total = _
    rw [hall, Nat.min_eq_left htotal, Nat.mul_comm]
  have hfilled : 50 - (marks.drop (50 * (marks.length / 50)) ++ [mark]).length = 0 := by
    rw [List.length_append, List.length_drop, List.length_singleton]
    omega
  have hend : (marks ++ [mark]).drop (50 * (marks.length / 50 + 1)) = [] :=
    List.drop_of_length_le (by omega)
  rw [progressText, progressText, hquot, hend, progressLines_succ, progressLines_concat mark hfull,
    endedLines, List.flatMap_append, List.flatMap_singleton, ProgressLine.text, hline, hpercent,
    hfilled, ← endedLines]
  have hclose : ascii "%)\n" = ascii "%)" ++ [newline] := by decide
  rw [hclose]
  simp only [List.replicate_zero, List.append_nil, List.append_assoc]

/-- With the open line filled, the text is the lines, one to every fifty results. -/
theorem progressText_fillLine {inLine : UInt32} (hpos : 1 ≤ marks.length)
    (hline : inLine.toNat = marks.length % 50) :
    progressText marks.length marks ++ fillLine inLine =
      joinLines ((progressLines marks.length marks ((marks.length + 49) / 50)).map
        ProgressLine.text) ++ if marks.length % 50 = 0 then [newline] else [] := by
  have hended : ∀ lines : List ProgressLine, endedLines lines =
      (lines.map ProgressLine.text).flatMap fun line => line ++ [newline] := by
    intro lines
    rw [endedLines, List.flatMap_map]
  by_cases hfull : marks.length % 50 = 0
  · obtain ⟨count, hcount⟩ : ∃ count, marks.length / 50 = count + 1 :=
      Nat.exists_eq_succ_of_ne_zero (by omega)
    have hnotopen : ¬ inLine > 0 := by
      rw [gt_iff_lt, UInt32.lt_iff_toNat_lt, hline, hfull]
      exact Nat.lt_irrefl 0
    have hlines : (marks.length + 49) / 50 = count + 1 := by omega
    have hend : marks.drop (50 * (count + 1)) = [] := List.drop_of_length_le (by omega)
    rw [progressText, hcount, hend, hlines, fillLine, if_neg hnotopen, if_pos hfull,
      progressLines_succ, hended, List.map_append, List.flatMap_append, List.map_singleton,
      List.flatMap_singleton, joinLines_concat]
    simp only [List.append_nil, List.append_assoc]
  · have hopen : inLine > 0 := by
      rw [gt_iff_lt, UInt32.lt_iff_toNat_lt, hline]
      exact Nat.pos_of_ne_zero hfull
    have hlines : (marks.length + 49) / 50 = marks.length / 50 + 1 := by omega
    have hrest : (progressLine marks.length marks (marks.length / 50)).marks =
        marks.drop (50 * (marks.length / 50)) := by
      rw [progressLine, List.take_of_length_le (by rw [List.length_drop]; omega)]
    have hpercent : (progressLine marks.length marks (marks.length / 50)).percent = 100 := by
      change 100 * min (50 * (marks.length / 50 + 1)) marks.length / marks.length = 100
      rw [Nat.min_eq_right (by omega)]
      exact Nat.mul_div_cancel _ hpos
    have hblanks : (testResultPerLine - inLine).toNat =
        50 - (marks.drop (50 * (marks.length / 50))).length := by
      have hper : testResultPerLine.toNat = 50 := rfl
      have hle : inLine ≤ testResultPerLine := by
        rw [UInt32.le_iff_toNat_le, hline, hper]
        omega
      rw [UInt32.toNat_sub_of_le _ _ hle, hline, hper, List.length_drop]
      omega
    have hhundred : ascii " (100%)" = ascii " (" ++ padLeft 3 32 (decimal 100) ++ ascii "%)" := by
      decide
    rw [progressText, hlines, fillLine, if_pos hopen, if_neg hfull, progressLines_succ, hended,
      List.map_append, List.map_singleton, joinLines_concat, ProgressLine.text, hrest, hpercent,
      hblanks, hhundred]
    simp only [List.append_nil, List.append_assoc]

end Lines

section Runs

variable {env : Surroundings} {s s' : TestSession} {tests : List SuiteTest}

/-- The marks of the results, in the order of the calls. -/
def statusMarks (calls : List TestCall) : Bytes :=
  calls.flatMap fun call => stringifyTestStatus call.result.status true

theorem exists_mark (status : TestResultStatus) :
    ∃ mark, stringifyTestStatus status true = [mark] := by
  cases status <;> exact ⟨_, rfl⟩

@[simp] theorem length_statusMarks (calls : List TestCall) :
    (statusMarks calls).length = calls.length := by
  induction calls with
  | nil => rfl
  | cons call calls ih =>
      obtain ⟨mark, hmark⟩ := exists_mark call.result.status
      rw [statusMarks, List.flatMap_cons, hmark, List.length_append, List.length_singleton,
        List.length_cons, Nat.add_comm, ← ih, statusMarks]

theorem fprintf_eq_ok {text : Bytes} {u : Unit} (h : fprintf env text s = .ok u s') :
    s' = s.withOut (s.out.print env.buffering text) := by
  cases h
  rfl

/-- What is printed for a result, and the number of marks that the line then has. -/
theorem showInPassthrough_eq_ok {inLine inLine' : UInt32} {record : TestRecord}
    (h : showInPassthrough env inLine record s = .ok inLine' s') :
    s'.iterator = s.iterator ∧
      inLine' = (if inLine + 1 = testResultPerLine then 0 else inLine + 1) ∧
      s'.out.printed = s.out.printed ++ stringifyTestStatus record.result.status true ++
        if inLine + 1 = testResultPerLine then
          ascii " (" ++ padLeft 3 32
            (decimal (s.iterator.cursor * 100 / s.iterator.testsCount).toNat) ++ ascii "%)\n"
        else [] := by
  obtain ⟨_, s₁, hmark, h₁⟩ := bind_eq_ok h
  obtain rfl := fprintf_eq_ok hmark
  dsimp only at h₁
  split at h₁
  · rename_i hfull
    obtain ⟨_, _, hget, h₂⟩ := bind_eq_ok h₁
    cases hget
    obtain ⟨_, s₂, hpercent, h₃⟩ := bind_eq_ok h₂
    obtain rfl := fprintf_eq_ok hpercent
    obtain ⟨rfl, rfl⟩ := pure_eq_ok.mp h₃
    rw [if_pos hfull, if_pos hfull]
    simp only [TestSession.withOut, Stdout.printed_print, showTestResultInPassthroughMode, and_self]
  · rename_i hopen
    obtain ⟨rfl, rfl⟩ := pure_eq_ok.mp h₁
    rw [if_neg hopen, if_neg hopen, List.append_nil]
    simp only [TestSession.withOut, Stdout.printed_print, showTestResultInPassthroughMode, and_self]

/-- A round that goes on visits a test and shows its result. -/
theorem passthroughRound_eq_some {inLine inLine' : UInt32}
    (h : passthroughRound env inLine s = .ok (some inLine') s') :
    ∃ s₁ record, Visit env s s₁ record ∧
      showInPassthrough env inLine record s₁ = .ok inLine' s' := by
  obtain ⟨_, _, hget, h₁⟩ := bind_eq_ok h
  cases hget
  split at h₁
  · obtain ⟨hnone, -⟩ := pure_eq_ok.mp h₁
    cases hnone
  · obtain ⟨found, s₁, hvisit, h₂⟩ := bind_eq_ok h₁
    rcases testIteratorVisit_eq_ok hvisit with ⟨-, rfl, -⟩ | ⟨record, rfl, hvisited⟩
    · obtain ⟨hnone, -⟩ := pure_eq_ok.mp h₂
      cases hnone
    · obtain ⟨shown, s₂, hshow, h₃⟩ := bind_eq_ok h₂
      obtain ⟨hsome, rfl⟩ := pure_eq_ok.mp h₃
      cases hsome
      exact ⟨s₁, record, hvisited, hshow⟩

/-- To show a result is never the end of the process. -/
theorem showInPassthrough_ne_error (inLine : UInt32) (record : TestRecord) {halt : Halt} :
    showInPassthrough env inLine record s ≠ .error halt s' := by
  intro h
  rcases bind_eq_error h with hmark | ⟨_, _, _, h₁⟩
  · cases hmark
  dsimp only at h₁
  split at h₁
  · cases h₁
  · cases h₁

/-- What is printed behind the results so far, and the marks in the line that is open. -/
structure Progress (env : Surroundings) (tests : List SuiteTest) (inLine : UInt32)
    (s : TestSession) : Prop where
  visited : Visited env tests s
  inLine : inLine.toNat = s.calls.length % 50
  printed : s.out.printed = progressText tests.length (statusMarks s.calls)

theorem Progress.round {inLine inLine' : UInt32} (htotal : 100 * tests.length < 2 ^ 32)
    (h : Progress env tests inLine s)
    (hrun : passthroughRound env inLine s = .ok (some inLine') s') :
    Progress env tests inLine' s' := by
  obtain ⟨s₁, record, hvisit, hshow⟩ := passthroughRound_eq_some hrun
  obtain ⟨hvisited, hlength⟩ := h.visited.visit (by omega) hvisit
  obtain ⟨-, call, storage, results, -, -, -, rfl, -, rfl⟩ := hvisit
  obtain ⟨-, hinLine, hprinted⟩ := showInPassthrough_eq_ok hshow
  obtain ⟨hsame, -⟩ := keeps_showInPassthrough inLine _ _ _ _ (.refl _) hshow
  obtain ⟨hvisited', hcalls⟩ := hvisited.of_sameButOut hsame
  obtain ⟨mark, hmark⟩ := exists_mark call.result.status
  have hnext : (inLine + 1).toNat = s.calls.length % 50 + 1 := by
    have hone : (1 : UInt32).toNat = 1 := rfl
    rw [UInt32.toNat_add, hone, h.inLine]
    omega
  have hfull : inLine + 1 = testResultPerLine ↔ (s.calls.length + 1) % 50 = 0 := by
    have hper : testResultPerLine.toNat = 50 := rfl
    rw [← UInt32.toNat_inj, hnext, hper]
    omega
  have hmarks : statusMarks s'.calls = statusMarks s.calls ++ [mark] := by
    rw [hcalls, statusMarks, List.flatMap_append, List.flatMap_singleton, hmark, ← statusMarks]
  have hroom : (statusMarks s.calls).length + 1 ≤ tests.length := by
    rw [length_statusMarks, ← hlength]
    exact hvisited.length_le
  refine ⟨hvisited', ?_, ?_⟩
  · have hcount : s'.calls.length = s.calls.length + 1 := by rw [hcalls, hlength]
    rw [hinLine, hcount]
    by_cases hline : (s.calls.length + 1) % 50 = 0
    · rw [if_pos (hfull.mpr hline), hline]
      rfl
    · rw [if_neg (mt hfull.mp hline), hnext]
      omega
  · change s'.out.printed =
      s.out.printed ++ stringifyTestStatus call.result.status true ++ _ at hprinted
    rw [hmarks, hprinted, hmark, h.printed]
    by_cases hline : (s.calls.length + 1) % 50 = 0
    · have hcursor := hvisited.cursor
      have hpercent : (s.iterator.next.cursor * 100 / s.iterator.next.testsCount).toNat =
          ((statusMarks s.calls).length + 1) * 100 / tests.length := by
        have hhundred : (100 : UInt32).toNat = 100 := rfl
        have hfits : s.iterator.next.cursor.toNat * 100 < 2 ^ 32 := by
          rw [hcursor, hlength]
          rw [length_statusMarks] at hroom
          omega
        rw [UInt32.toNat_div, UInt32.toNat_mul, hhundred, Nat.mod_eq_of_lt hfits, hcursor, hlength,
          hvisited.testsCount, length_statusMarks]
      rw [if_pos (hfull.mpr hline), hpercent,
        progressText_concat_full (by rw [length_statusMarks]; exact hline) hroom]
    · rw [if_neg (mt hfull.mp hline), List.append_nil,
        progressText_concat_open (by rw [length_statusMarks]; exact hline)]

theorem progress_init {suites : List TestSuite}
    (htotal : (suites.flatMap TestSuite.tests).length < 2 ^ 32) :
    Progress env (testIteratorInitBySuites suites).tests 0 (TestSession.init suites .start) :=
  ⟨visited_init htotal, rfl, (progressText_nil _).symm⟩

/-- When the loop is left, every test has been called and every mark printed. -/
theorem Progress.visitAll {inLine inLine' : UInt32} (htotal : 100 * tests.length < 2 ^ 32)
    (h : Progress env tests inLine s)
    (hrun : visitAll (passthroughRound env) inLine s = .ok inLine' s') :
    Progress env tests inLine' s' ∧ s'.calls.length = tests.length := by
  obtain ⟨_, _, hget, hloop⟩ := bind_eq_ok hrun
  cases hget
  obtain ⟨k, t, hrounds, hbreak⟩ := loop_eq_ok hloop
  have hend : Progress env tests inLine' t :=
    hrounds.invariant (I := fun _ b s => Progress env tests b s) h
      fun _ _ _ _ _ hprogress hround => hprogress.round htotal hround
  rcases passthroughRound_visitsOnce inLine' t none s' hbreak with
    ⟨hfinished, -, rfl⟩ | ⟨_, _, _, hsome, -⟩
  · exact ⟨hend, Nat.le_antisymm hend.visited.length_le (hend.visited.finished_iff.mp hfinished)⟩
  · cases hsome

end Runs

/-- The lines of marks and percentages for these results. -/
structure ProgressLayout (calls : List TestCall) (lines : List ProgressLine) : Prop where
  count : lines.length = (calls.length + 49) / 50
  marks : lines.flatMap ProgressLine.marks = statusMarks calls
  columns : ∀ k line, lines[k]? = some line →
    line.marks.length = if k + 1 < lines.length then 50 else calls.length - 50 * k
  percent : ∀ k line, lines[k]? = some line →
    line.percent = 100 * min (50 * (k + 1)) calls.length / calls.length
  hundred : ∀ k line, lines[k]? = some line → (line.percent = 100 ↔ k + 1 = lines.length)

theorem flatMap_marks_progressLines (total : Nat) (marks : Bytes) (count : Nat) :
    (progressLines total marks count).flatMap ProgressLine.marks = marks.take (50 * count) := by
  induction count with
  | zero => rfl
  | succ count ih =>
      rw [progressLines_succ, List.flatMap_append, ih, List.flatMap_singleton, Nat.mul_succ,
        List.take_add]
      rfl

/-- Only when all results are in does the quotient reach a hundred. -/
theorem percent_eq_hundred_iff {k n : Nat} (hn : 1 ≤ n) :
    100 * min (50 * (k + 1)) n / n = 100 ↔ n ≤ 50 * (k + 1) := by
  constructor
  · intro h
    by_contra hlt
    have hless : 100 * min (50 * (k + 1)) n / n < 100 := by
      rw [Nat.div_lt_iff_lt_mul hn]
      omega
    omega
  · intro hall
    rw [Nat.min_eq_right hall]
    exact Nat.mul_div_cancel _ hn

theorem progressLayout_progressLines {calls : List TestCall} (hpos : 1 ≤ calls.length) :
    ProgressLayout calls
      (progressLines calls.length (statusMarks calls) ((calls.length + 49) / 50)) := by
  have hlength :
      (progressLines calls.length (statusMarks calls) ((calls.length + 49) / 50)).length =
        (calls.length + 49) / 50 := by
    rw [progressLines, List.length_map, List.length_range]
  have hget : ∀ k line,
      (progressLines calls.length (statusMarks calls) ((calls.length + 49) / 50))[k]? = some line →
      k < (calls.length + 49) / 50 ∧ line = progressLine calls.length (statusMarks calls) k := by
    intro k line hline
    have hlt := (List.getElem?_eq_some_iff.mp hline).1
    rw [hlength] at hlt
    rw [progressLines, List.getElem?_map, List.getElem?_range hlt] at hline
    exact ⟨hlt, (Option.some.inj hline).symm⟩
  refine ⟨hlength, ?_, ?_, ?_, ?_⟩
  · rw [flatMap_marks_progressLines, List.take_of_length_le]
    rw [length_statusMarks]
    omega
  · intro k line hline
    obtain ⟨hlt, rfl⟩ := hget k line hline
    rw [length_marks_progressLine, length_statusMarks, hlength]
    split
    · omega
    · omega
  · intro k line hline
    obtain ⟨-, rfl⟩ := hget k line hline
    rfl
  · intro k line hline
    obtain ⟨hlt, rfl⟩ := hget k line hline
    rw [hlength, progressLine, percent_eq_hundred_iff hpos]
    omega

/-- The block of lines, with the newline that a full last line is ended with. -/
def progressBlock (total : Nat) (lines : List ProgressLine) : Bytes :=
  joinLines (lines.map ProgressLine.text) ++ if total % 50 = 0 then [newline] else []

/-- What has been printed when the loop is left and the open line is filled. -/
theorem Progress.filled {env : Surroundings} {tests : List SuiteTest} {inLine : UInt32}
    {s : TestSession} (h : Progress env tests inLine s) (hpos : 1 ≤ tests.length)
    (hcalls : s.calls.length = tests.length) :
    s.out.printed ++ fillLine inLine =
      progressBlock tests.length
        (progressLines tests.length (statusMarks s.calls) ((tests.length + 49) / 50)) := by
  have hmarks : (statusMarks s.calls).length = tests.length := by
    rw [length_statusMarks, hcalls]
  have hinLine : inLine.toNat = (statusMarks s.calls).length % 50 := by
    rw [length_statusMarks]
    exact h.inLine
  have hfilled := progressText_fillLine (by rwa [hmarks]) hinLine
  rw [hmarks] at hfilled
  rw [h.printed, hfilled]
  rfl

end JCUnit
