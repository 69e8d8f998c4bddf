import JCUnit.Runner.StaticStorage
import JCUnit.Runner.Verdict

/-!
# The length of a given file's name

The guard of `resolve_given_filename` takes the length of the directory off the length of the
name instead of adding it, in `size_t`. A short name wraps around and is refused, and a name a
little longer than the buffer has room for is written all the same.
-/

namespace JCUnit

open StateError Projection Buffers Static

/-- The name with its directory and its NUL. -/
def givenFilenameSize (filename : Bytes) : Nat :=
  givenFilenamePrefix.length + filename.length + 1

/-- The state after bytes have been put into `given_filename`. -/
def RunState.withGivenFilename (s : RunState) (text : Bytes)
    (h : 0 + text.length ≤ maxTestGivenFilenameLen) : RunState :=
  { s with storage := { s.storage with givenFilename := s.storage.givenFilename.write 0 text h } }

/-- The names that fit the buffer are written to it with their directory, and the others are
refused before anything is written. -/
structure GivenFilenameLimit (host : Host) (test : ProgramRunnerTest) (filename : Bytes)
    (s : RunState) : Prop where
  succeeds_iff : (∃ path s', Static.resolveGivenFilename host test s = .ok path s') ↔
    givenFilenameSize filename ≤ maxTestGivenFilenameLen
  written : ∀ path s', Static.resolveGivenFilename host test s = .ok path s' →
    path.bytes = givenFilenamePrefix ++ filename ∧
      ∃ h, s' = s.withGivenFilename (givenFilenamePrefix ++ filename ++ [0]) h
  refused : ∀ halt s', Static.resolveGivenFilename host test s = .error halt s' →
    (∃ message, halt = fatalError message) ∧ s' = s

/-- The guard lets through what is 250 bytes away from being too short. -/
theorem guard_iff {n : Nat} (hn : n < 2 ^ 32) :
    maxTestGivenFilenameLen ≤ sizeSub (sizeSub n givenFilenamePrefix.length) 1 ↔
      n < 6 ∨ 261 ≤ n := by
  have hprefix : givenFilenamePrefix.length = 5 := by decide
  have hmax : maxTestGivenFilenameLen = 255 := rfl
  unfold sizeSub
  omega

section Cases

variable {host : Host} {test : ProgramRunnerTest} {filename : Bytes} {s : RunState}

theorem resolveGivenFilename_refuses (hname : test.givenFilename = some filename)
    (hguard : maxTestGivenFilenameLen ≤
      sizeSub (sizeSub filename.length givenFilenamePrefix.length) 1) :
    Static.resolveGivenFilename host test s =
      .error (fatalError (ascii "Too long 'filename' of the 'given' requirement!")) s := by
  unfold Static.resolveGivenFilename JCUnit.resolveGivenFilename
  rw [hname]
  dsimp only
  rw [if_pos hguard]
  rfl

theorem resolveGivenFilename_overflows (hname : test.givenFilename = some filename)
    (hguard : ¬ maxTestGivenFilenameLen ≤
      sizeSub (sizeSub filename.length givenFilenamePrefix.length) 1)
    (hlong : maxTestGivenFilenameLen < givenFilenameSize (cstr filename)) :
    Static.resolveGivenFilename host test s = .error .undefined s := by
  unfold Static.resolveGivenFilename JCUnit.resolveGivenFilename
  rw [hname]
  dsimp only
  rw [givenFilenameSize] at hlong
  rw [if_neg hguard, if_pos hlong]
  rfl

/-- What is written is what is read back. -/
theorem throughGivenFilename_writes {path : CString}
    (hroom : 0 + (path.bytes ++ [0]).length ≤ maxTestGivenFilenameLen) :
    throughGivenFilename path [] s = .ok path (s.withGivenFilename (path.bytes ++ [0]) hroom) := by
  have hsize : path.bytes.length + 1 + ([] : Bytes).length ≤ maxTestGivenFilenameLen := by
    rw [Nat.zero_add, List.length_append] at hroom
    exact hroom
  obtain ⟨stored, hstore, hload⟩ := loadCString_store s.storage.givenFilename [] path.nulFree hsize
  have hget : (get : StaticM RunState) s = .ok s s := rfl
  have hbuffer : onEvents (ofExcept (storeCString s.storage.givenFilename path.bytes [])) s =
      .ok stored s := by
    rw [hstore]
    rfl
  rw [throughGivenFilename, bind_of_ok hget, bind_of_ok hbuffer, CString.ext hload]
  rw [storeCString, dif_pos hroom] at hstore
  obtain rfl := Except.ok.inj hstore
  rfl

theorem resolveGivenFilename_writes (hname : test.givenFilename = some filename)
    (hguard : ¬ maxTestGivenFilenameLen ≤
      sizeSub (sizeSub filename.length givenFilenamePrefix.length) 1)
    (hfits : givenFilenameSize (cstr filename) ≤ maxTestGivenFilenameLen) :
    ∃ path h, path.bytes = givenFilenamePrefix ++ cstr filename ∧
      Static.resolveGivenFilename host test s =
        .ok path (s.withGivenFilename (path.bytes ++ [0]) h) := by
  have hpath : (CString.ofBuffer (givenFilenamePrefix ++ filename)).bytes =
      givenFilenamePrefix ++ cstr filename := cstr_append (by decide) _
  have hroom : 0 + ((CString.ofBuffer (givenFilenamePrefix ++ filename)).bytes ++ [0]).length ≤
      maxTestGivenFilenameLen := by
    rw [hpath, Nat.zero_add, List.length_append, List.length_append]
    exact hfits
  have hresolve : onEvents (JCUnit.resolveGivenFilename host test) s =
      .ok (CString.ofBuffer (givenFilenamePrefix ++ filename)) s := by
    unfold JCUnit.resolveGivenFilename
    rw [hname]
    dsimp only
    rw [givenFilenameSize] at hfits
    rw [if_neg hguard, if_neg (Nat.not_lt.mpr hfits)]
    rfl
  refine ⟨CString.ofBuffer (givenFilenamePrefix ++ filename), hroom, hpath, ?_⟩
  rw [Static.resolveGivenFilename, bind_of_ok hresolve, hname]
  exact throughGivenFilename_writes hroom

theorem givenFilenameLimit_of_error {halt : Halt}
    (hrun : Static.resolveGivenFilename host test s = .error halt s) :
    GivenFilenameLimit host test filename s ↔
      maxTestGivenFilenameLen < givenFilenameSize filename ∧ ∃ message, halt = fatalError message := by
  have hfails : ¬ ∃ path s', Static.resolveGivenFilename host test s = .ok path s' := by
    rintro ⟨path, s', hok⟩
    rw [hrun] at hok
    cases hok
  constructor
  · intro h
    constructor
    · rw [← Nat.not_le, ← h.succeeds_iff]
      exact hfails
    · exact (h.refused halt s hrun).1
  · rintro ⟨hlong, hfatal⟩
    constructor
    · exact iff_of_false hfails (Nat.not_le.mpr hlong)
    · intro path s' hok
      exact absurd ⟨path, s', hok⟩ hfails
    · intro halt' s' herror
      rw [hrun] at herror
      cases herror
      exact ⟨hfatal, rfl⟩

theorem givenFilenameLimit_of_ok {path : CString} {s' : RunState}
    (hrun : Static.resolveGivenFilename host test s = .ok path s') :
    GivenFilenameLimit host test filename s ↔
      givenFilenameSize filename ≤ maxTestGivenFilenameLen ∧
        path.bytes = givenFilenamePrefix ++ filename ∧
        ∃ h, s' = s.withGivenFilename (givenFilenamePrefix ++ filename ++ [0]) h := by
  constructor
  · intro h
    exact ⟨h.succeeds_iff.mp ⟨path, s', hrun⟩, h.written path s' hrun⟩
  · rintro ⟨hfits, hwritten⟩
    constructor
    · exact iff_of_true ⟨path, s', hrun⟩ hfits
    · intro path' s'' hok
      rw [hrun] at hok
      cases hok
      exact hwritten
    · intro halt s'' herror
      rw [hrun] at herror
      cases herror

/-- The limit holds for the names of 6 to 249 bytes without a NUL, and for those that the guard
is right to refuse. -/
theorem givenFilenameLimit_iff (hname : test.givenFilename = some filename)
    (hlen : filename.length < 2 ^ 32) :
    GivenFilenameLimit host test filename s ↔
      (6 ≤ filename.length ∧ filename.length ≤ 249 ∧ 0 ∉ filename) ∨ 261 ≤ filename.length := by
  have hprefix : givenFilenamePrefix.length = 5 := by decide
  have hmax : maxTestGivenFilenameLen = 255 := rfl
  have hguard := guard_iff hlen
  by_cases hrefused : maxTestGivenFilenameLen ≤
      sizeSub (sizeSub filename.length givenFilenamePrefix.length) 1
  · have hrun : Static.resolveGivenFilename host test s = _ :=
      resolveGivenFilename_refuses hname hrefused
    have hlengths := hguard.mp hrefused
    rw [givenFilenameLimit_of_error hrun, givenFilenameSize]
    constructor
    · rintro ⟨hlong, -⟩
      omega
    · intro h
      exact ⟨by omega, _, rfl⟩
  rw [hguard] at hrefused
  by_cases hlong : maxTestGivenFilenameLen < givenFilenameSize (cstr filename)
  · have hrun : Static.resolveGivenFilename host test s = _ :=
      resolveGivenFilename_overflows hname (fun h => hrefused (hguard.mp h)) hlong
    rw [givenFilenameLimit_of_error hrun]
    constructor
    · rintro ⟨-, message, hfatal⟩
      cases hfatal
    · rintro (⟨-, hle, hnul⟩ | hge)
      · rw [cstr_eq_self_iff.mpr hnul, givenFilenameSize] at hlong
        omega
      · omega
  · obtain ⟨path, hroom, hpath, hrun : Static.resolveGivenFilename host test s = _⟩ :=
      resolveGivenFilename_writes hname (fun h => hrefused (hguard.mp h)) (Nat.not_lt.mp hlong)
    rw [givenFilenameLimit_of_ok hrun, givenFilenameSize]
    constructor
    · rintro ⟨hfits, hexact, -⟩
      have hnul := cstr_eq_self_iff.mp (List.append_cancel_left (hpath.symm.trans hexact))
      exact .inl ⟨by omega, by omega, hnul⟩
    · rintro (⟨-, hle, hnul⟩ | hge)
      · rw [cstr_eq_self_iff.mpr hnul] at hpath
        rw [← hpath]
        exact ⟨by omega, rfl, hroom, rfl⟩
      · omega

end Cases

/-- A test with a given file of this name. -/
def givenFileTest (filename : Bytes) : ProgramRunnerTest :=
  { anythingTest with givenType := givenTypeFile, givenFilename := some filename }

theorem givenFilenameLimit_iff_input :
    GivenFilenameLimit (Host.obliging someSuffix ⟨false, some 0, fun _ => []⟩)
        (givenFileTest (ascii "input.txt")) (ascii "input.txt") ⟨.zeroed, [], none⟩ ↔
      (6 ≤ (ascii "input.txt").length ∧ (ascii "input.txt").length ≤ 249 ∧
        0 ∉ ascii "input.txt") ∨ 261 ≤ (ascii "input.txt").length :=
  givenFilenameLimit_iff rfl (by decide)

/-- A name of one byte would fit, and is refused as too long. -/
theorem short_filename_refused :
    compileTestSuite ⟨ascii "a.test", by decide⟩ (some (ascii
      "@test(\"t\")\n@given(\"file\", filename=\"a\")\n@whenRun(\"./tool\")\n@expectOutput(\"stdout\")\n{{any}}\n@endtest\n")) =
      .ok ⟨⟨ascii "a.test", by decide⟩, [givenFileTest (ascii "a")]⟩ ∧
    givenFilenameSize (ascii "a") ≤ maxTestGivenFilenameLen ∧
    Static.resolveGivenFilename (Host.obliging someSuffix ⟨false, some 0, fun _ => []⟩)
        (givenFileTest (ascii "a")) ⟨.zeroed, [], none⟩ =
      .error (fatalError (ascii "Too long 'filename' of the 'given' requirement!"))
        ⟨.zeroed, [], none⟩ ∧
    ¬ GivenFilenameLimit (Host.obliging someSuffix ⟨false, some 0, fun _ => []⟩)
        (givenFileTest (ascii "a")) (ascii "a") ⟨.zeroed, [], none⟩ := by
  have hrun : Static.resolveGivenFilename (Host.obliging someSuffix ⟨false, some 0, fun _ => []⟩)
      (givenFileTest (ascii "a")) ⟨.zeroed, [], none⟩ = _ :=
    resolveGivenFilename_refuses rfl (by decide : maxTestGivenFilenameLen ≤
      sizeSub (sizeSub (ascii "a").length givenFilenamePrefix.length) 1)
  refine ⟨by decide +kernel, by decide, hrun, ?_⟩
  rw [givenFilenameLimit_of_error hrun]
  rintro ⟨hlong, -⟩
  exact absurd hlong (by decide)

end JCUnit
