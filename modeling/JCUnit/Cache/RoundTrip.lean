import Mathlib.Data.List.Forall2
import JCUnit.Cache.Encoding
import JCUnit.Foundation.ReadBack

/-!
# The cache file is read back

Each reader reads back what its writer appends. The reader of a buffer does so
while the buffer is shorter than `2 ^ 32` bytes: its positions do not wrap then.
-/

namespace JCUnit

open StateError

section Buffers

/-- What is left of a buffer that fits its 32-bit positions. -/
def BufRemaining (buf : ReadBuffer) (rest : Bytes) : Prop :=
  buf.data.length < 2 ^ 32 ∧ buf.len = UInt32.ofNat buf.data.length ∧
    ∃ before, buf.data = before ++ rest ∧ buf.pos = UInt32.ofNat before.length

theorem toNat_ofNat_length {bytes : Bytes} (h : bytes.length < 2 ^ 32) :
    (UInt32.ofNat bytes.length).toNat = bytes.length := by
  rw [UInt32.toNat_ofNat']
  exact Nat.mod_eq_of_lt h

variable {buf : ReadBuffer} {piece rest : Bytes} {size : UInt32}

theorem BufRemaining.pos_eq (h : BufRemaining buf rest) :
    buf.pos.toNat + rest.length = buf.data.length := by
  obtain ⟨hlen, -, before, hdata, hpos⟩ := h
  rw [hdata, List.length_append] at hlen ⊢
  rw [hpos, toNat_ofNat_length (Nat.lt_of_le_of_lt (Nat.le_add_right _ _) hlen)]

theorem BufRemaining.drop_eq (h : BufRemaining buf rest) :
    buf.data.drop buf.pos.toNat = rest := by
  have hpos := h.pos_eq
  obtain ⟨-, -, before, hdata, -⟩ := h
  rw [hdata, List.length_append, Nat.add_right_cancel_iff] at hpos
  rw [hdata, hpos, List.drop_left]

/-- A piece that is there does not exceed the buffer. -/
theorem BufRemaining.exceeds_eq (h : BufRemaining buf (piece ++ rest))
    (hsize : size.toNat = piece.length) : exceeds buf size = false := by
  have hpos := h.pos_eq
  obtain ⟨hlen, hlenEq, -⟩ := h
  rw [List.length_append, ← hsize] at hpos
  have hsum : (buf.pos + size).toNat = buf.pos.toNat + size.toNat := by
    rw [UInt32.toNat_add]
    apply Nat.mod_eq_of_lt
    omega
  unfold exceeds
  apply decide_eq_false
  apply UInt32.not_lt.mpr
  apply UInt32.le_iff_toNat_le.mpr
  rw [hsum, hlenEq, toNat_ofNat_length hlen]
  omega

theorem bufTake_readsBack (hsize : size.toNat = piece.length) :
    ReadsBack BufRemaining (bufTake size) piece piece := by
  intro buf rest h
  have hpos := h.pos_eq
  have hdrop := h.drop_eq
  obtain ⟨hlen, hlenEq, before, hdata, hbefore⟩ := h
  rw [List.length_append, ← hsize] at hpos
  refine ⟨{ buf with pos := buf.pos + size }, ?_, hlen, hlenEq, before ++ piece, ?_, ?_⟩
  · unfold bufTake
    rw [if_pos (by omega), hdrop, hsize, List.take_left]
  · rw [hdata, List.append_assoc]
  · change buf.pos + size = _
    rw [hbefore, List.length_append, ← hsize, UInt32.ofNat_add, UInt32.ofNat_toNat]

theorem bufRead_readsBack (hsize : size.toNat = piece.length) :
    ReadsBack BufRemaining (bufRead size) piece (some piece) := by
  intro buf rest h
  have hget : (get : BufM ReadBuffer) buf = .ok buf buf := rfl
  obtain ⟨buf', htake, h'⟩ := bufTake_readsBack hsize buf rest h
  refine ⟨buf', ?_, h'⟩
  unfold bufRead
  rw [bind_of_ok hget, h.exceeds_eq hsize, if_neg Bool.false_ne_true, bind_of_ok htake]
  rfl

theorem decode_encodeUint32 (v : UInt32) :
    UInt32.ofNat (LittleEndian.decode (encodeUint32 v)) = v := by
  unfold encodeUint32
  rw [LittleEndian.decode_encode v.toNat_lt, UInt32.ofNat_toNat]

theorem bufReadUint32_readsBack (v : UInt32) :
    ReadsBack BufRemaining bufReadUint32 (encodeUint32 v) (some v) := by
  have hsize : (4 : UInt32).toNat = (encodeUint32 v).length :=
    (LittleEndian.length_encode 4 v.toNat).symm
  have hread := (bufRead_readsBack hsize).map fun bytes : Option Bytes =>
    bytes.map fun bytes => UInt32.ofNat (LittleEndian.decode bytes)
  rw [Option.map_some, decode_encodeUint32] at hread
  exact hread

theorem orNull_readsBack {α : Type} {read : BufM (Option α)} {a : α}
    (hread : ReadsBack BufRemaining read piece (some a)) :
    ReadsBack BufRemaining (orNull read) piece a := by
  intro buf rest h
  obtain ⟨buf', hrun, h'⟩ := hread buf rest h
  refine ⟨buf', ?_, h'⟩
  unfold orNull
  rw [bind_of_ok hrun]
  rfl

/-- A string that its length does not make look absent. -/
def FieldFits (field : Option Bytes) : Prop := ∀ s ∈ field, s.length < 2 ^ 32 - 1

theorem bufReadStringField_readsBack {field : Option Bytes} (hfits : FieldFits field) :
    ReadsBack BufRemaining bufReadStringField (encodeStringField field) field := by
  cases field with
  | none =>
      intro buf rest h
      obtain ⟨buf', hlen, h'⟩ := bufReadUint32_readsBack 0xFFFFFFFF buf rest h
      refine ⟨buf', ?_, h'⟩
      unfold bufReadStringField
      rw [bind_of_ok hlen]
      rfl
  | some s =>
      have hs : s.length < 2 ^ 32 - 1 := hfits s rfl
      have htoNat : (UInt32.ofNat s.length).toNat = s.length := toNat_ofNat_length (by omega)
      have hpresent : ¬UInt32.ofNat s.length = 0xFFFFFFFF := by
        intro heq
        have habsent := congrArg UInt32.toNat heq
        rw [htoNat] at habsent
        rw [habsent] at hs
        exact absurd hs (by decide)
      intro buf rest h
      change BufRemaining buf (encodeUint32 (UInt32.ofNat s.length) ++ s ++ rest) at h
      rw [List.append_assoc] at h
      obtain ⟨buf₁, hlen, h₁⟩ := bufReadUint32_readsBack _ buf _ h
      have hget : (get : BufM ReadBuffer) buf₁ = .ok buf₁ buf₁ := rfl
      unfold bufReadStringField
      rw [bind_of_ok hlen]
      by_cases hzero : UInt32.ofNat s.length = 0
      · have hnil : s = [] := by
          apply List.eq_nil_of_length_eq_zero
          rw [← htoNat, hzero]
          rfl
        refine ⟨buf₁, ?_, by rw [hnil] at h₁; exact h₁⟩
        simp only [hnil]
        rfl
      · obtain ⟨buf₂, htake, h₂⟩ := bufTake_readsBack htoNat buf₁ rest h₁
        refine ⟨buf₂, ?_, h₂⟩
        simp only [if_neg hpresent, if_neg hzero, bind_of_ok hget, h₁.exceeds_eq htoNat,
          Bool.false_eq_true, if_false, bind_of_ok htake]
        rfl

end Buffers

section Suites

theorem fieldFits_of_length {field : Option Bytes}
    (h : (encodeStringField field).length < 2 ^ 32) : FieldFits field := by
  intro s hs
  cases hs
  have hlength : (encodeUint32 (UInt32.ofNat s.length)).length = 4 := LittleEndian.length_encode 4 _
  rw [encodeStringField, List.length_append, hlength] at h
  omega

theorem length_le_flatMap {α : Type} (encode : α → Bytes) {items : List α} {item : α}
    (h : item ∈ items) : (encode item).length ≤ (items.flatMap encode).length := by
  obtain ⟨before, after, rfl⟩ := List.append_of_mem h
  simp only [List.flatMap_append, List.flatMap_cons, List.length_append]
  omega

theorem deserializeTest_readsBack {test : ProgramRunnerTest}
    (hkind : test.kind = testKindProgramRunner) (hlength : (encodeTest test).length < 2 ^ 32) :
    ReadsBack BufRemaining deserializeTest (encodeTest test) test := by
  unfold encodeTest at hlength ⊢
  rw [if_pos hkind] at hlength ⊢
  simp only [List.length_append] at hlength
  have hname : FieldFits test.name := fieldFits_of_length (by omega)
  have hfields : ∀ field ∈ test.fields, FieldFits field := by
    intro field hfield
    have hle := length_le_flatMap encodeStringField hfield
    apply fieldFits_of_length
    unfold encodeFields at hlength
    omega
  have hread : ∀ field ∈ test.fields,
      ReadsBack BufRemaining bufReadStringField (encodeStringField field) field :=
    fun field hfield => bufReadStringField_readsBack (hfields field hfield)
  simp only [ProgramRunnerTest.fields, List.forall_mem_cons] at hread
  obtain ⟨hfilename, hcontent, hpath, hprogram, hargs, hstdout, hstderr, -⟩ := hread
  unfold deserializeTest
  apply ReadsBack.bind (orNull_readsBack (bufReadUint32_readsBack test.kind))
  apply ReadsBack.bind (orNull_readsBack (bufReadUint32_readsBack test.flags))
  rw [if_pos hkind]
  apply ReadsBack.bind (bufReadStringField_readsBack hname)
  apply ReadsBack.bind (orNull_readsBack (bufReadUint32_readsBack test.givenType))
  apply ReadsBack.bind hfilename
  apply ReadsBack.bind hcontent
  apply ReadsBack.bind hpath
  apply ReadsBack.bind hprogram
  apply ReadsBack.bind hargs
  apply ReadsBack.bind hstdout
  apply ReadsBack.bind hstderr
  exact ReadsBack.pure test

theorem deserializeTests_readsBack {tests : List ProgramRunnerTest}
    (hkinds : ∀ test ∈ tests, test.kind = testKindProgramRunner)
    (hlength : (tests.flatMap encodeTest).length < 2 ^ 32) :
    ReadsBack BufRemaining (deserializeTests tests.length) (tests.flatMap encodeTest) tests := by
  induction tests with
  | nil => exact ReadsBack.pure []
  | cons test tests ih =>
      obtain ⟨hkind, hkinds⟩ := List.forall_mem_cons.mp hkinds
      rw [List.flatMap_cons, List.length_append] at hlength
      have hhead := deserializeTest_readsBack hkind (by omega)
      have htail := ih hkinds (by omega)
      exact hhead.bind (htail.map fun tests => test :: tests)

theorem deserializeName_readsBack {name : CString} (hlength : name.bytes.length < 2 ^ 32) :
    ReadsBack BufRemaining deserializeName
      (encodeUint32 (UInt32.ofNat name.bytes.length) ++ name.bytes) name := by
  have hsize := toNat_ofNat_length hlength
  apply ReadsBack.bind (orNull_readsBack (bufReadUint32_readsBack _))
  intro buf rest h
  have hget : (get : BufM ReadBuffer) buf = .ok buf buf := rfl
  obtain ⟨buf', htake, h'⟩ := bufTake_readsBack hsize buf rest h
  refine ⟨buf', ?_, h'⟩
  rw [bind_of_ok hget, h.exceeds_eq hsize, if_neg Bool.false_ne_true, bind_of_ok htake,
    CString.ofBuffer_bytes]
  rfl

theorem length_tests_le (tests : List ProgramRunnerTest) :
    tests.length ≤ (tests.flatMap encodeTest).length := by
  induction tests with
  | nil => exact Nat.le_refl 0
  | cons test tests ih =>
      have hkind : (encodeUint32 test.kind).length = 4 := LittleEndian.length_encode 4 _
      simp only [List.flatMap_cons, List.length_cons, List.length_append, encodeTest, hkind]
      omega

/-- The decoder gives back a suite of program-runner tests from its serialized bytes. -/
theorem deserializeTestSuite_encode {suite : TestSuite}
    (hkinds : ∀ test ∈ suite.tests, test.kind = testKindProgramRunner)
    (hlength : (encodeTestSuite suite).length < 2 ^ 32) :
    deserializeTestSuite (encodeTestSuite suite) = .ok suite := by
  have hparts := hlength
  simp only [encodeTestSuite, List.length_append] at hparts
  have hcount : (UInt32.ofNat suite.tests.length).toNat = suite.tests.length := by
    have hle := length_tests_le suite.tests
    rw [UInt32.toNat_ofNat']
    exact Nat.mod_eq_of_lt (by omega)
  have htests := deserializeTests_readsBack hkinds (by omega)
  rw [← hcount] at htests
  have hread : ReadsBack BufRemaining deserializeTestSuiteM
      ((encodeUint32 (UInt32.ofNat suite.name.bytes.length) ++ suite.name.bytes) ++
        (encodeUint32 (UInt32.ofNat suite.tests.length) ++ suite.tests.flatMap encodeTest))
      suite := by
    apply ReadsBack.bind (deserializeName_readsBack (by omega))
    apply ReadsBack.bind (orNull_readsBack (bufReadUint32_readsBack _))
    exact htests.map fun tests => (⟨suite.name, tests⟩ : TestSuite)
  have hstart : BufRemaining ⟨encodeTestSuite suite, UInt32.ofNat (encodeTestSuite suite).length, 0⟩
      (encodeTestSuite suite ++ []) :=
    ⟨hlength, rfl, [], (List.append_nil _).symm, rfl⟩
  have hpiece : encodeTestSuite suite =
      (encodeUint32 (UInt32.ofNat suite.name.bytes.length) ++ suite.name.bytes) ++
        (encodeUint32 (UInt32.ofNat suite.tests.length) ++ suite.tests.flatMap encodeTest) :=
    (List.append_assoc _ _ _).symm
  rw [← hpiece] at hread
  obtain ⟨buf, hrun, -⟩ := hread _ _ hstart
  unfold deserializeTestSuite
  rw [hrun]

end Suites

section Files

/-- What is left of a file that is read. -/
def FileRemaining (file rest : Bytes) : Prop := file = rest

theorem fread_readsBack {size : Nat} {piece : Bytes} (hsize : size = piece.length) :
    ReadsBack FileRemaining (fread size) piece piece := by
  intro file rest h
  refine ⟨rest, ?_, rfl⟩
  unfold fread
  rw [h, hsize, if_pos (by rw [List.length_append]; exact Nat.le_add_right _ _), List.take_left,
    List.drop_left]

theorem readUint16_readsBack (v : UInt16) :
    ReadsBack FileRemaining readUint16 (LittleEndian.encode 2 v.toNat) v := by
  have hread := (fread_readsBack (LittleEndian.length_encode 2 v.toNat).symm).map fun bytes =>
    UInt16.ofNat (LittleEndian.decode bytes)
  rw [LittleEndian.decode_encode v.toNat_lt, UInt16.ofNat_toNat] at hread
  exact hread

theorem readUint32_readsBack (v : UInt32) :
    ReadsBack FileRemaining readUint32 (encodeUint32 v) v := by
  have hread := (fread_readsBack (LittleEndian.length_encode 4 v.toNat).symm).map fun bytes =>
    UInt32.ofNat (LittleEndian.decode bytes)
  rw [LittleEndian.decode_encode v.toNat_lt, UInt32.ofNat_toNat] at hread
  exact hread

theorem readInt64_readsBack (v : Int64) :
    ReadsBack FileRemaining readInt64 (LittleEndian.encode 8 v.toUInt64.toNat) v := by
  have hread := (fread_readsBack (LittleEndian.length_encode 8 v.toUInt64.toNat).symm).map
    fun bytes => (UInt64.ofNat (LittleEndian.decode bytes)).toInt64
  rw [LittleEndian.decode_encode v.toUInt64.toNat_lt, UInt64.ofNat_toNat,
    Int64.toInt64_toUInt64] at hread
  exact hread

/-- An entry as it is loaded: not decoded, with the data that was saved. -/
def CacheEntry.loaded (entry : CacheEntry) : CacheEntry :=
  { entry with suite := none, data := some entry.savedData }

/-- The path and the data of an entry fit the widths of their lengths. -/
structure EntryFits (entry : CacheEntry) : Prop where
  path : entry.path.bytes.length < 2 ^ 16
  data : entry.savedData.length < 2 ^ 32

theorem EntryFits.pathLen_eq {entry : CacheEntry} (h : EntryFits entry) :
    (UInt16.ofNat entry.path.bytes.length).toNat = entry.path.bytes.length := by
  rw [UInt16.toNat_ofNat']
  exact Nat.mod_eq_of_lt h.path

theorem EntryFits.savedPath_eq {entry : CacheEntry} (h : EntryFits entry) :
    entry.savedPath = entry.path.bytes := by
  unfold CacheEntry.savedPath
  rw [h.pathLen_eq, List.take_length]

theorem loadEntry_readsBack {entry : CacheEntry} (h : EntryFits entry) :
    ReadsBack FileRemaining loadEntry (encodeEntry entry) entry.loaded := by
  have hpath := fread_readsBack h.pathLen_eq
  have hdata := fread_readsBack (toNat_ofNat_length h.data)
  unfold encodeEntry
  rw [h.savedPath_eq]
  apply ReadsBack.bind (readUint16_readsBack _)
  apply ReadsBack.bind hpath
  apply ReadsBack.bind (readInt64_readsBack entry.mtime)
  apply ReadsBack.bind (readInt64_readsBack entry.fileSize)
  apply ReadsBack.bind (readUint32_readsBack entry.contentHash)
  apply ReadsBack.bind (readUint32_readsBack _)
  have hlast := hdata.map fun data => (⟨CString.ofBuffer entry.path.bytes, entry.mtime,
    entry.fileSize, entry.contentHash, none, some data⟩ : CacheEntry)
  rw [CString.ofBuffer_bytes] at hlast ⊢
  exact hlast

theorem loadEntries_encode {entries : List CacheEntry} (h : ∀ entry ∈ entries, EntryFits entry) :
    loadEntries entries.length (entries.flatMap encodeEntry) = entries.map CacheEntry.loaded := by
  induction entries with
  | nil => rfl
  | cons entry entries ih =>
      obtain ⟨hentry, hentries⟩ := List.forall_mem_cons.mp h
      obtain ⟨file, hload, rfl⟩ := loadEntry_readsBack hentry _ (entries.flatMap encodeEntry) rfl
      rw [List.length_cons, List.flatMap_cons, loadEntries, hload, List.map_cons]
      exact congrArg (entry.loaded :: ·) (ih hentries)

theorem readHeader_encode (count : UInt32) (rest : Bytes) :
    readHeader (cacheMagic ++ (encodeUint32 cacheVersion ++ (encodeUint32 count ++ rest))) =
      .ok count rest := by
  have hread : ReadsBack FileRemaining readHeader
      (cacheMagic ++ (encodeUint32 cacheVersion ++ encodeUint32 count)) count := by
    apply ReadsBack.bind (fread_readsBack rfl)
    rw [if_neg (not_not_intro rfl)]
    apply ReadsBack.bind (readUint32_readsBack _)
    rw [if_neg (not_not_intro rfl)]
    exact readUint32_readsBack count
  obtain ⟨file, hrun, rfl⟩ := hread _ rest rfl
  rw [List.append_assoc, List.append_assoc] at hrun
  exact hrun

/-- A saved store is loaded entry by entry. -/
theorem cacheLoad_savedFile {store : CacheStore} (h : ∀ entry ∈ store.entries, EntryFits entry) :
    (cacheLoad (some (savedFile store))).entries = store.entries.map CacheEntry.loaded := by
  have hbound : store.entries.length < 2 ^ 32 :=
    Nat.lt_of_le_of_lt store.bounded (by decide)
  have hcount : (UInt32.ofNat store.entries.length).toNat = store.entries.length := by
    rw [UInt32.toNat_ofNat']
    exact Nat.mod_eq_of_lt hbound
  unfold cacheLoad
  simp only [savedFile_eq, readHeader_encode, hcount, Nat.min_eq_left store.bounded]
  exact loadEntries_encode h

/-- Loading what was saved gives the same entries and the same suites in their data, and
saving that again gives the same file. -/
theorem cacheLoad_cacheSave (store : CacheStore)
    (hpaths : ∀ entry ∈ store.entries, entry.path.bytes.length < 65536)
    (hsuites : ∀ entry ∈ store.entries, ∃ suite, entry.suite = some suite ∧
      (∀ test ∈ suite.tests, test.kind = testKindProgramRunner) ∧
      (serialized suite).length < 2 ^ 32) :
    let loaded := cacheLoad (some (savedFile store))
    List.Forall₂ (fun saved entry : CacheEntry => entry.path = saved.path ∧
        entry.mtime = saved.mtime ∧ entry.fileSize = saved.fileSize ∧
        entry.contentHash = saved.contentHash ∧ entry.suite = none ∧
        ∃ suite data, saved.suite = some suite ∧ entry.data = some data ∧
          deserializeTestSuite data = .ok suite) store.entries loaded.entries ∧
      savedFile loaded = savedFile store := by
  intro loaded
  have hdata : ∀ entry ∈ store.entries, ∃ suite, entry.suite = some suite ∧
      entry.savedData = encodeTestSuite suite ∧
      (∀ test ∈ suite.tests, test.kind = testKindProgramRunner) ∧
      (encodeTestSuite suite).length < 2 ^ 32 := by
    intro entry hentry
    obtain ⟨suite, hsuite, hkinds, hlength⟩ := hsuites entry hentry
    rw [serialized_eq] at hlength
    refine ⟨suite, hsuite, ?_, hkinds, hlength⟩
    unfold CacheEntry.savedData
    rw [hsuite]
  have hfits : ∀ entry ∈ store.entries, EntryFits entry := by
    intro entry hentry
    obtain ⟨suite, -, hsaved, -, hlength⟩ := hdata entry hentry
    exact ⟨hpaths entry hentry, by rw [hsaved]; exact hlength⟩
  have hloaded : loaded.entries = store.entries.map CacheEntry.loaded := cacheLoad_savedFile hfits
  constructor
  · rw [hloaded, List.forall₂_map_right_iff, List.forall₂_same]
    intro entry hentry
    obtain ⟨suite, hsuite, hsaved, hkinds, hlength⟩ := hdata entry hentry
    refine ⟨rfl, rfl, rfl, rfl, rfl, suite, entry.savedData, hsuite, rfl, ?_⟩
    rw [hsaved]
    exact deserializeTestSuite_encode hkinds hlength
  · have hsame : ∀ entry : CacheEntry, encodeEntry entry.loaded = encodeEntry entry := by
      intro entry
      rfl
    rw [savedFile_eq, savedFile_eq, hloaded, List.length_map, List.flatMap_map]
    simp only [hsame]

/-- A store with one suite, in which one string is empty and others are absent. -/
theorem cacheLoad_cacheSave_one_suite :
    let suite : TestSuite := ⟨⟨ascii "a.test", by decide⟩, [⟨some (ascii "t"), testKindProgramRunner,
      testCompleteMask, givenTypeStdin, none, some [], none, some (ascii "x"), none,
      some (ascii "y"), none⟩]⟩
    let store : CacheStore := ⟨[⟨⟨ascii "tests/a.test", by decide⟩, 5, 80, 12345, some suite, none⟩],
      by decide⟩
    savedFile (cacheLoad (some (savedFile store))) = savedFile store := by
  intro suite store
  have hsuites : ∀ entry ∈ store.entries, ∃ suite, entry.suite = some suite ∧
      (∀ test ∈ suite.tests, test.kind = testKindProgramRunner) ∧
      (serialized suite).length < 2 ^ 32 := by
    intro entry hentry
    obtain rfl := List.mem_singleton.mp hentry
    exact ⟨suite, rfl, by decide, by decide +kernel⟩
  exact (cacheLoad_cacheSave store (by decide) hsuites).2

end Files

end JCUnit
