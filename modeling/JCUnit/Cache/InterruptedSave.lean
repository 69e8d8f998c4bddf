import JCUnit.Cache.RoundTrip
import JCUnit.Compile.Compiler
import JCUnit.Foundation.Prefixes

/-!
# A cache file that is only partly written

Saving is cut off after any of its calls, and the file is loaded as it stands. The
length in front of a serialized suite is zero until the suite is complete, so the
loader takes the bytes of an incomplete suite for the next entry.
-/

namespace JCUnit

open StateError Prefixes

/-! ## What the writers append -/

/-- The bytes a call writes behind the others. -/
def FileOp.written : FileOp → Bytes
  | .fwrite bytes => bytes
  | .fseek _ => []

/-- The bytes these calls write one behind the other. -/
def written (steps : List FileOp) : Bytes := steps.flatMap FileOp.written

/-- The calls that a writer adds do not depend on the stream and only write. -/
structure OnlyWrites (write : OutStream → OutStream) : Prop where
  eq : ∀ stream, write stream = stream ++ write []
  fwrite : ∀ op ∈ write [], ∃ bytes, op = .fwrite bytes

theorem OnlyWrites.id : OnlyWrites fun stream => stream where
  eq stream := (List.append_nil stream).symm
  fwrite op hop := by cases hop

theorem OnlyWrites.comp {first second : OutStream → OutStream} (hfirst : OnlyWrites first)
    (hsecond : OnlyWrites second) : OnlyWrites fun stream => second (first stream) where
  eq stream := by
    rw [hsecond.eq (first stream), hfirst.eq stream, hsecond.eq (first []), List.append_assoc]
  fwrite op hop := by
    rw [hsecond.eq (first [])] at hop
    rcases List.mem_append.mp hop with hmem | hmem
    · exact hfirst.fwrite op hmem
    · exact hsecond.fwrite op hmem

theorem onlyWrites_fwrite (bytes : Bytes) : OnlyWrites fun stream => fwrite stream bytes where
  eq _ := rfl
  fwrite _ hop := ⟨bytes, List.mem_singleton.mp hop⟩

theorem onlyWrites_writeUint32 (v : UInt32) : OnlyWrites fun stream => writeUint32 stream v :=
  onlyWrites_fwrite _

theorem onlyWrites_writeStringField (field : Option Bytes) :
    OnlyWrites fun stream => writeStringField stream field := by
  cases field with
  | none => exact onlyWrites_writeUint32 _
  | some s =>
      by_cases hs : s.length > 0
      · simpa [writeStringField, hs] using
          (onlyWrites_writeUint32 (UInt32.ofNat s.length)).comp (onlyWrites_fwrite s)
      · simpa [writeStringField, hs] using onlyWrites_writeUint32 (UInt32.ofNat s.length)

theorem onlyWrites_serializeTest (test : ProgramRunnerTest) :
    OnlyWrites fun stream => serializeTest stream test := by
  have hbase := ((onlyWrites_writeUint32 test.kind).comp (onlyWrites_writeUint32 test.flags)).comp
    (onlyWrites_writeStringField test.name)
  by_cases hkind : test.kind = testKindProgramRunner
  · have hfields := (((((((hbase.comp (onlyWrites_writeUint32 test.givenType)).comp
      (onlyWrites_writeStringField test.givenFilename)).comp
      (onlyWrites_writeStringField test.givenFileContent)).comp
      (onlyWrites_writeStringField test.givenPath)).comp
      (onlyWrites_writeStringField test.programPath)).comp
      (onlyWrites_writeStringField test.programArgs)).comp
      (onlyWrites_writeStringField test.expectedStdout)).comp
      (onlyWrites_writeStringField test.expectedStderr)
    simpa [serializeTest, hkind] using hfields
  · simpa [serializeTest, hkind] using hbase

theorem onlyWrites_foldl {α : Type} {write : OutStream → α → OutStream}
    (hwrite : ∀ item, OnlyWrites fun stream => write stream item) (items : List α) :
    OnlyWrites fun stream => items.foldl write stream := by
  induction items with
  | nil => exact OnlyWrites.id
  | cons item items ih => exact (hwrite item).comp ih

theorem onlyWrites_serializeTestSuite (suite : TestSuite) :
    OnlyWrites fun stream => serializeTestSuite stream suite := by
  have hname := (onlyWrites_writeUint32 (UInt32.ofNat suite.name.bytes.length)).comp
    (onlyWrites_fwrite suite.name.bytes)
  have hcount := hname.comp (onlyWrites_writeUint32 (UInt32.ofNat suite.tests.length))
  exact hcount.comp (onlyWrites_foldl onlyWrites_serializeTest suite.tests)

/-- Calls that only write append their bytes. -/
theorem Holds.append_writes {stream : OutStream} {contents : Bytes} {steps : List FileOp}
    (h : Holds stream contents) (hsteps : ∀ op ∈ steps, ∃ bytes, op = .fwrite bytes) :
    Holds (stream ++ steps) (contents ++ written steps) := by
  induction steps generalizing stream contents with
  | nil =>
      rw [List.append_nil, written, List.flatMap_nil, List.append_nil]
      exact h
  | cons op steps ih =>
      obtain ⟨bytes, rfl⟩ := hsteps op List.mem_cons_self
      have hrest := ih (h.fwrite bytes) fun op hop => hsteps op (List.mem_cons_of_mem _ hop)
      rw [JCUnit.fwrite, List.append_assoc, List.append_assoc] at hrest
      exact hrest

theorem Holds.bytes_eq {stream : OutStream} {contents : Bytes} (h : Holds stream contents) :
    (OutStream.file stream).bytes = contents := by
  rw [h]

/-- Moving the position leaves the bytes as they are. -/
theorem file_fseek_bytes (stream : OutStream) (position : Nat) :
    (OutStream.file (stream ++ [.fseek position])).bytes = (OutStream.file stream).bytes := by
  rw [OutStream.file_append]
  rfl

/-! ## What the loader takes for an entry -/

/-- The path length at the start of these bytes. -/
def entryPathLen (file : Bytes) : Nat := LittleEndian.decode (file.take 2)

/-- The data length at its place behind a path of that length. -/
def entryDataLen (file : Bytes) : Nat :=
  LittleEndian.decode ((file.drop (22 + entryPathLen file)).take 4)

/-- The bytes are long enough for the two lengths that stand in them. -/
def ReadsAsEntry (file : Bytes) : Prop :=
  26 + entryPathLen file + entryDataLen file ≤ file.length

instance (file : Bytes) : Decidable (ReadsAsEntry file) :=
  inferInstanceAs (Decidable (_ ≤ _))

theorem fread_eq_ok {size : Nat} {file bytes rest : Bytes} (h : fread size file = .ok bytes rest) :
    size ≤ file.length ∧ bytes = file.take size ∧ rest = file.drop size := by
  unfold fread at h
  split at h
  · rename_i hsize
    cases h
    exact ⟨hsize, rfl, rfl⟩
  · cases h

theorem fread_of_le {size : Nat} {file : Bytes} (h : size ≤ file.length) :
    fread size file = .ok (file.take size) (file.drop size) := by
  rw [fread, if_pos h]

theorem decode_take_lt (width : Nat) (file : Bytes) :
    LittleEndian.decode (file.take width) < 256 ^ width := by
  apply Nat.lt_of_lt_of_le (LittleEndian.decode_lt _)
  exact Nat.pow_le_pow_right (by decide) (List.length_take_le _ _)

theorem readUint16_eq_ok {file rest : Bytes} {v : UInt16} (h : readUint16 file = .ok v rest) :
    2 ≤ file.length ∧ v.toNat = LittleEndian.decode (file.take 2) ∧ rest = file.drop 2 := by
  obtain ⟨bytes, f, hread, h⟩ := bind_eq_ok h
  obtain ⟨hsize, rfl, rfl⟩ := fread_eq_ok hread
  obtain ⟨rfl, rfl⟩ := pure_eq_ok.mp h
  refine ⟨hsize, ?_, rfl⟩
  rw [UInt16.toNat_ofNat']
  exact Nat.mod_eq_of_lt (decode_take_lt 2 file)

theorem readUint32_eq_ok {file rest : Bytes} {v : UInt32} (h : readUint32 file = .ok v rest) :
    4 ≤ file.length ∧ v.toNat = LittleEndian.decode (file.take 4) ∧ rest = file.drop 4 := by
  obtain ⟨bytes, f, hread, h⟩ := bind_eq_ok h
  obtain ⟨hsize, rfl, rfl⟩ := fread_eq_ok hread
  obtain ⟨rfl, rfl⟩ := pure_eq_ok.mp h
  refine ⟨hsize, ?_, rfl⟩
  rw [UInt32.toNat_ofNat']
  exact Nat.mod_eq_of_lt (decode_take_lt 4 file)

theorem readInt64_eq_ok {file rest : Bytes} {v : Int64} (h : readInt64 file = .ok v rest) :
    8 ≤ file.length ∧ rest = file.drop 8 := by
  obtain ⟨bytes, f, hread, h⟩ := bind_eq_ok h
  obtain ⟨hsize, rfl, rfl⟩ := fread_eq_ok hread
  obtain ⟨-, rfl⟩ := pure_eq_ok.mp h
  exact ⟨hsize, rfl⟩

theorem exists_readUint16 (file : Bytes) (h : 2 ≤ file.length) :
    ∃ v, readUint16 file = .ok v (file.drop 2) := by
  refine ⟨UInt16.ofNat (LittleEndian.decode (file.take 2)), ?_⟩
  rw [readUint16, bind_of_ok (fread_of_le h)]
  rfl

theorem exists_readUint32 (file : Bytes) (h : 4 ≤ file.length) :
    ∃ v, readUint32 file = .ok v (file.drop 4) := by
  refine ⟨UInt32.ofNat (LittleEndian.decode (file.take 4)), ?_⟩
  rw [readUint32, bind_of_ok (fread_of_le h)]
  rfl

theorem exists_readInt64 (file : Bytes) (h : 8 ≤ file.length) :
    ∃ v, readInt64 file = .ok v (file.drop 8) := by
  refine ⟨(UInt64.ofNat (LittleEndian.decode (file.take 8))).toInt64, ?_⟩
  rw [readInt64, bind_of_ok (fread_of_le h)]
  rfl

/-- What the loader takes for an entry reads as one, and its path is the one in the bytes. -/
theorem readsAsEntry_of_loadEntry {file rest : Bytes} {entry : CacheEntry}
    (h : loadEntry file = .ok entry rest) :
    ReadsAsEntry file ∧ entry.path = CString.ofBuffer ((file.drop 2).take (entryPathLen file)) := by
  obtain ⟨pathLen, f₁, hpathLen, h⟩ := bind_eq_ok h
  obtain ⟨path, f₂, hpath, h⟩ := bind_eq_ok h
  obtain ⟨mtime, f₃, hmtime, h⟩ := bind_eq_ok h
  obtain ⟨size, f₄, hsize, h⟩ := bind_eq_ok h
  obtain ⟨hash, f₅, hhash, h⟩ := bind_eq_ok h
  obtain ⟨dataLen, f₆, hdataLen, h⟩ := bind_eq_ok h
  obtain ⟨data, f₇, hdata, h⟩ := bind_eq_ok h
  obtain ⟨rfl, -⟩ := pure_eq_ok.mp h
  obtain ⟨-, hpathEq, rfl⟩ := readUint16_eq_ok hpathLen
  obtain ⟨-, rfl, rfl⟩ := fread_eq_ok hpath
  obtain ⟨-, rfl⟩ := readInt64_eq_ok hmtime
  obtain ⟨-, rfl⟩ := readInt64_eq_ok hsize
  obtain ⟨-, -, rfl⟩ := readUint32_eq_ok hhash
  obtain ⟨hroom, hdataEq, rfl⟩ := readUint32_eq_ok hdataLen
  obtain ⟨hroom', -, -⟩ := fread_eq_ok hdata
  simp only [List.drop_drop, List.length_drop] at hroom hroom' hdataEq
  rw [hpathEq] at hroom hroom' hdataEq
  have hplace : 2 + LittleEndian.decode (file.take 2) + 8 + 8 + 4 = 22 + entryPathLen file := by
    rw [entryPathLen]
    omega
  rw [hplace] at hroom hroom' hdataEq
  constructor
  · rw [ReadsAsEntry, entryDataLen, ← hdataEq]
    omega
  · rw [hpathEq]
    rfl

/-- Bytes that read as an entry are loaded. -/
theorem exists_loadEntry {file : Bytes} (h : ReadsAsEntry file) :
    ∃ entry rest, loadEntry file = .ok entry rest := by
  rw [ReadsAsEntry] at h
  obtain ⟨pathLen, hpathLen⟩ := exists_readUint16 file (by omega)
  have hpathEq := (readUint16_eq_ok hpathLen).2.1
  rw [← entryPathLen] at hpathEq
  have hlength : ∀ n, (file.drop n).length = file.length - n := fun n => List.length_drop
  rw [loadEntry, bind_of_ok hpathLen, bind_of_ok (fread_of_le (by rw [hlength, hpathEq]; omega)),
    List.drop_drop, hpathEq]
  obtain ⟨mtime, hmtime⟩ := exists_readInt64 (file.drop (2 + entryPathLen file))
    (by rw [hlength]; omega)
  rw [bind_of_ok hmtime, List.drop_drop]
  obtain ⟨size, hsize⟩ := exists_readInt64 (file.drop (2 + entryPathLen file + 8))
    (by rw [hlength]; omega)
  rw [bind_of_ok hsize, List.drop_drop]
  obtain ⟨hash, hhash⟩ := exists_readUint32 (file.drop (2 + entryPathLen file + 8 + 8))
    (by rw [hlength]; omega)
  rw [bind_of_ok hhash, List.drop_drop]
  obtain ⟨dataLen, hdataLen⟩ :=
    exists_readUint32 (file.drop (2 + entryPathLen file + 8 + 8 + 4))
      (by rw [hlength]; omega)
  have hdataEq := (readUint32_eq_ok hdataLen).2.1
  have hplace : 2 + entryPathLen file + 8 + 8 + 4 = 22 + entryPathLen file := by omega
  rw [hplace] at hdataLen hdataEq ⊢
  rw [← entryDataLen] at hdataEq
  rw [bind_of_ok hdataLen, List.drop_drop,
    bind_of_ok (fread_of_le (by rw [hlength, hdataEq]; omega))]
  exact ⟨_, _, rfl⟩

/-- Bytes that do not read as an entry end the loading. -/
theorem loadEntries_of_not_reads {file : Bytes} (h : ¬ ReadsAsEntry file) (count : Nat) :
    loadEntries count file = [] := by
  cases count with
  | zero => rfl
  | succ count =>
      rw [loadEntries]
      cases hload : loadEntry file with
      | ok entry rest => exact absurd (readsAsEntry_of_loadEntry hload).1 h
      | error _ _ => rfl

/-! ## Where the saving can stop -/

/-- The calls that write the header. -/
def saveHeader (store : CacheStore) : OutStream :=
  writeUint32 (writeUint32 (fwrite [] cacheMagic) cacheVersion)
    (UInt32.ofNat store.entries.length)

/-- The calls up to the length of an entry's data. -/
def entryHead (stream : OutStream) (entry : CacheEntry) : OutStream :=
  let pathLen := UInt16.ofNat entry.path.bytes.length
  let stream := writeUint16 stream pathLen
  let stream := fwrite stream (entry.path.bytes.take pathLen.toNat)
  let stream := writeInt64 stream entry.mtime
  let stream := writeInt64 stream entry.fileSize
  writeUint32 stream entry.contentHash

theorem cacheSave_eq (store : CacheStore) :
    cacheSave store = store.entries.foldl saveEntry (saveHeader store) := rfl

theorem saveEntry_eq (stream : OutStream) (entry : CacheEntry) :
    saveEntry stream entry = saveEntryData (entryHead stream entry) entry := rfl

/-- The bytes of an entry up to the length of its data. -/
def encodeHead (entry : CacheEntry) : Bytes :=
  LittleEndian.encode 2 (UInt16.ofNat entry.path.bytes.length).toNat ++ (entry.savedPath ++
    (LittleEndian.encode 8 entry.mtime.toUInt64.toNat ++
      (LittleEndian.encode 8 entry.fileSize.toUInt64.toNat ++ encodeUint32 entry.contentHash)))

theorem encodeEntry_eq (entry : CacheEntry) : encodeEntry entry =
    encodeHead entry ++ (encodeUint32 (UInt32.ofNat entry.savedData.length) ++ entry.savedData) := by
  simp only [encodeEntry, encodeHead, List.append_assoc]

theorem onlyWrites_entryHead (entry : CacheEntry) :
    OnlyWrites fun stream => entryHead stream entry :=
  ((((onlyWrites_fwrite _).comp (onlyWrites_fwrite _)).comp (onlyWrites_fwrite _)).comp
    (onlyWrites_fwrite _)).comp (onlyWrites_fwrite _)

theorem Holds.entryHead {stream : OutStream} {contents : Bytes} (h : Holds stream contents)
    (entry : CacheEntry) : Holds (entryHead stream entry) (contents ++ encodeHead entry) := by
  have hpath := (h.fwrite (LittleEndian.encode 2
    (UInt16.ofNat entry.path.bytes.length).toNat)).fwrite entry.savedPath
  have htimes := (hpath.fwrite (LittleEndian.encode 8 entry.mtime.toUInt64.toNat)).fwrite
    (LittleEndian.encode 8 entry.fileSize.toUInt64.toNat)
  have hhash := htimes.writeUint32 entry.contentHash
  simp only [List.append_assoc] at hhash
  exact hhash

theorem written_append (first second : List FileOp) :
    written (first ++ second) = written first ++ written second := by
  rw [written, List.flatMap_append]
  rfl

theorem written_prefix {first second : List FileOp} (h : first <+: second) :
    written first <+: written second := by
  obtain ⟨rest, rfl⟩ := h
  rw [written_append]
  exact List.prefix_append _ _

/-- What a writer that only writes appends, told by its calls on an empty stream. -/
theorem OnlyWrites.written_eq {write : OutStream → OutStream} (hwrite : OnlyWrites write)
    {stream : OutStream} {contents bytes : Bytes} (h : Holds stream contents)
    (hbytes : Holds (write stream) (contents ++ bytes)) : written (write []) = bytes := by
  have hwritten := h.append_writes hwrite.fwrite
  rw [← hwrite.eq stream] at hwritten
  have hsame := hwritten.bytes_eq.symm.trans hbytes.bytes_eq
  exact List.append_cancel_left hsame

/-- Where a writer only writes, stopping it leaves a prefix of its bytes. -/
theorem OnlyWrites.stopped {write : OutStream → OutStream} (hwrite : OnlyWrites write)
    {stream steps : OutStream} {contents bytes : Bytes} (h : Holds stream contents)
    (hbytes : Holds (write stream) (contents ++ bytes)) (hstart : stream <+: steps)
    (hend : steps <+: write stream) :
    ∃ p, p <+: bytes ∧ (OutStream.file steps).bytes = contents ++ p := by
  obtain ⟨inner, rfl⟩ := hstart
  rw [hwrite.eq stream, List.prefix_append_right_inj] at hend
  have hinner : ∀ op ∈ inner, ∃ bytes, op = .fwrite bytes := by
    intro op hop
    exact hwrite.fwrite op (hend.subset hop)
  refine ⟨written inner, ?_, (h.append_writes hinner).bytes_eq⟩
  rw [← hwrite.written_eq h hbytes]
  exact written_prefix hend

/-! ## Incomplete entries -/

theorem length_encodeHead {entry : CacheEntry} (h : EntryFits entry) :
    (encodeHead entry).length = 22 + entry.path.bytes.length := by
  simp only [encodeHead, List.length_append, LittleEndian.length_encode, h.savedPath_eq,
    encodeUint32]
  omega

theorem length_encodeEntry {entry : CacheEntry} (h : EntryFits entry) :
    (encodeEntry entry).length = 26 + entry.path.bytes.length + entry.savedData.length := by
  simp only [encodeEntry_eq, List.length_append, length_encodeHead h, encodeUint32,
    LittleEndian.length_encode]
  omega

theorem entryPathLen_of_prefix {entry : CacheEntry} (h : EntryFits entry) {p : Bytes}
    (hp : p <+: encodeEntry entry) (hlong : 2 ≤ p.length) :
    entryPathLen p = entry.path.bytes.length := by
  obtain ⟨rest, hrest⟩ := hp
  have hfirst : (encodeEntry entry).take 2 =
      LittleEndian.encode 2 (UInt16.ofNat entry.path.bytes.length).toNat :=
    List.take_left' (LittleEndian.length_encode 2 _)
  rw [entryPathLen, ← List.take_append_of_le_length hlong, hrest, hfirst,
    LittleEndian.decode_encode (UInt16.toNat_lt _), h.pathLen_eq]

theorem entryDataLen_of_prefix {entry : CacheEntry} (h : EntryFits entry) {p : Bytes}
    (hp : p <+: encodeEntry entry) (hlong : 26 + entry.path.bytes.length ≤ p.length) :
    entryDataLen p = entry.savedData.length := by
  have hpathLen := entryPathLen_of_prefix h hp (by omega)
  obtain ⟨rest, hrest⟩ := hp
  have hbehind : p.drop (22 + entry.path.bytes.length) ++ rest =
      encodeUint32 (UInt32.ofNat entry.savedData.length) ++ entry.savedData := by
    rw [← List.drop_append_of_le_length (by omega), hrest, encodeEntry_eq,
      List.drop_left' (length_encodeHead h)]
  have hroom : 4 ≤ (p.drop (22 + entry.path.bytes.length)).length := by
    rw [List.length_drop]
    omega
  have htake : (p.drop (22 + entry.path.bytes.length)).take 4 =
      encodeUint32 (UInt32.ofNat entry.savedData.length) := by
    rw [← List.take_append_of_le_length hroom, hbehind]
    exact List.take_left' (LittleEndian.length_encode 4 _)
  rw [entryDataLen, hpathLen, htake, encodeUint32, LittleEndian.decode_encode (UInt32.toNat_lt _),
    toNat_ofNat_length h.data]

/-- The first bytes of an entry do not read as one. -/
theorem not_readsAsEntry_of_part {entry : CacheEntry} (h : EntryFits entry) {p : Bytes}
    (hp : p <+: encodeEntry entry) (hshort : p.length < (encodeEntry entry).length) :
    ¬ ReadsAsEntry p := by
  intro hreads
  rw [ReadsAsEntry] at hreads
  rw [length_encodeEntry h] at hshort
  have hpathLen := entryPathLen_of_prefix h hp (by omega)
  have hdataLen := entryDataLen_of_prefix h hp (by omega)
  omega

/-! ## Loading what was saved so far -/

theorem loadEntries_append {before : List CacheEntry} (h : ∀ entry ∈ before, EntryFits entry)
    (count : Nat) (rest : Bytes) :
    loadEntries (before.length + count) (before.flatMap encodeEntry ++ rest) =
      before.map CacheEntry.loaded ++ loadEntries count rest := by
  induction before with
  | nil => simp
  | cons entry before ih =>
      obtain ⟨hentry, hbefore⟩ := List.forall_mem_cons.mp h
      obtain ⟨file, hload, rfl⟩ := loadEntry_readsBack hentry _
        (before.flatMap encodeEntry ++ rest) rfl
      rw [List.length_cons, Nat.add_right_comm, loadEntries, List.flatMap_cons, List.append_assoc,
        hload]
      exact congrArg (entry.loaded :: ·) (ih hbefore)

/-- The bytes of the header. -/
def encodeHeader (store : CacheStore) : Bytes :=
  cacheMagic ++ (encodeUint32 cacheVersion ++ encodeUint32 (UInt32.ofNat store.entries.length))

theorem holds_saveHeader (store : CacheStore) : Holds (saveHeader store) (encodeHeader store) := by
  have hheader := ((holds_nil.fwrite cacheMagic).writeUint32 cacheVersion).writeUint32
    (UInt32.ofNat store.entries.length)
  simp only [List.nil_append, List.append_assoc] at hheader
  exact hheader

theorem cacheLoad_header_append (store : CacheStore) (body : Bytes) :
    (cacheLoad (some (encodeHeader store ++ body))).entries =
      loadEntries store.entries.length body := by
  have hcount : (UInt32.ofNat store.entries.length).toNat = store.entries.length := by
    rw [UInt32.toNat_ofNat']
    exact Nat.mod_eq_of_lt (Nat.lt_of_le_of_lt store.bounded (by decide))
  unfold cacheLoad
  simp only [encodeHeader, List.append_assoc, readHeader_encode, hcount,
    Nat.min_eq_left store.bounded]

theorem not_readsAsEntry_nil : ¬ ReadsAsEntry [] := by
  simp [ReadsAsEntry]

/-- A header that is cut off announces no entries, and one without entries behind it gives none. -/
theorem cacheLoad_header_prefix {store : CacheStore} {p : Bytes} (h : p <+: encodeHeader store) :
    (cacheLoad (some p)).entries = [] := by
  have hlength : p.length ≤ 16 := by
    apply h.length_le.trans
    simp [encodeHeader, encodeUint32, cacheMagic, ascii]
  unfold cacheLoad
  cases hheader : readHeader p with
  | error _ _ => simp only [hheader]; rfl
  | ok count rest =>
      obtain ⟨magic, f₁, hmagic, hrest⟩ := bind_eq_ok hheader
      obtain ⟨-, -, rfl⟩ := fread_eq_ok hmagic
      split at hrest
      · cases hrest
      obtain ⟨version, f₂, hversion, hrest⟩ := bind_eq_ok hrest
      obtain ⟨-, -, rfl⟩ := readUint32_eq_ok hversion
      split at hrest
      · cases hrest
      obtain ⟨-, -, rfl⟩ := readUint32_eq_ok hrest
      have hnil : ((p.drop cacheMagicSize).drop 4).drop 4 = [] := by
        rw [List.drop_drop, List.drop_drop]
        exact List.drop_eq_nil_of_le hlength
      simp only [hheader]
      rw [hnil]
      exact loadEntries_of_not_reads not_readsAsEntry_nil _

/-- A loaded entry belongs to this saved one: the same file in the same state, with the data
that was saved or with data that the decoder rejects. -/
structure CacheEntry.Recovers (saved loaded : CacheEntry) : Prop where
  path : loaded.path = saved.path
  mtime : loaded.mtime = saved.mtime
  fileSize : loaded.fileSize = saved.fileSize
  contentHash : loaded.contentHash = saved.contentHash
  data : ∃ data, loaded.data = some data ∧
    (data = saved.savedData ∨ deserializeTestSuite data = .error .null)

/-- The loaded entries belong to distinct saved ones, in order. -/
def OnlySaved (store loaded : CacheStore) : Prop :=
  ∃ saved : List CacheEntry, saved.Sublist store.entries ∧
    List.Forall₂ CacheEntry.Recovers saved loaded.entries

theorem recovers_loaded (entry : CacheEntry) : entry.Recovers entry.loaded where
  path := rfl
  mtime := rfl
  fileSize := rfl
  contentHash := rfl
  data := ⟨entry.savedData, rfl, Or.inl rfl⟩

/-- The entry as it stands in the file while its suite is being written. -/
def CacheEntry.zeroed (entry : CacheEntry) : CacheEntry :=
  { entry with suite := none, data := some [] }

theorem recovers_zeroed (entry : CacheEntry) : entry.Recovers entry.zeroed.loaded where
  path := rfl
  mtime := rfl
  fileSize := rfl
  contentHash := rfl
  data := ⟨[], rfl, Or.inr (by decide)⟩

theorem onlySaved_before {store loaded : CacheStore} {before after : List CacheEntry}
    (hentries : store.entries = before ++ after)
    (hloaded : loaded.entries = before.map CacheEntry.loaded) : OnlySaved store loaded := by
  refine ⟨before, ?_, ?_⟩
  · rw [hentries]
    exact List.sublist_append_left before after
  · rw [hloaded, List.forall₂_map_right_iff, List.forall₂_same]
    intro entry _
    exact recovers_loaded entry

theorem onlySaved_through {store loaded : CacheStore} {before after : List CacheEntry}
    {entry last : CacheEntry} (hentries : store.entries = before ++ entry :: after)
    (hlast : entry.Recovers last)
    (hloaded : loaded.entries = before.map CacheEntry.loaded ++ [last]) :
    OnlySaved store loaded := by
  refine ⟨before ++ [entry], ?_, ?_⟩
  · rw [hentries]
    apply List.Sublist.append_left
    exact List.singleton_sublist.mpr List.mem_cons_self
  · rw [hloaded]
    apply List.rel_append
    · rw [List.forall₂_map_right_iff, List.forall₂_same]
      intro other _
      exact recovers_loaded other
    · exact List.Forall₂.cons hlast List.Forall₂.nil

theorem fits_zeroed {entry : CacheEntry} (h : EntryFits entry) : EntryFits entry.zeroed where
  path := h.path
  data := Nat.two_pow_pos 32

/-! ## Every place to stop -/

/-- The bytes of the file after these calls. -/
def fileAfter (steps : OutStream) : Bytes := (OutStream.file steps).bytes

/-- The stream when the entries `before` are saved. -/
def savedUpTo (store : CacheStore) (before : List CacheEntry) : OutStream :=
  before.foldl saveEntry (saveHeader store)

/-- The calls stop inside the data of a suite behind which entries follow, and the bytes of the
suite that are written read as an entry. -/
def StopsInReadableData (store : CacheStore) (steps : OutStream) : Prop :=
  ∃ (before : List CacheEntry) (entry : CacheEntry) (after : List CacheEntry) (suite : TestSuite)
    (inner : List FileOp), store.entries = before ++ entry :: after ∧ after ≠ [] ∧
    entry.suite = some suite ∧
    inner <+: serializeTestSuite [] suite ++
      [.fseek (ftell (entryHead (savedUpTo store before) entry))] ∧
    steps = writeUint32 (entryHead (savedUpTo store before) entry) 0 ++ inner ∧
    ReadsAsEntry (written inner)

section Stopping

variable {store : CacheStore} {before after : List CacheEntry} {entry : CacheEntry}
  {suite : TestSuite} {steps : OutStream} {inner : List FileOp}

theorem holds_savedUpTo (store : CacheStore) (before : List CacheEntry) :
    Holds (savedUpTo store before) (encodeHeader store ++ before.flatMap encodeEntry) :=
  (holds_saveHeader store).foldl Holds.saveEntry before

/-- The saved entries are loaded, then what is written behind them. -/
theorem cacheLoad_behind (hfits : ∀ entry ∈ store.entries, EntryFits entry)
    (hentries : store.entries = before ++ entry :: after) {rest : Bytes}
    (hfile : fileAfter steps = encodeHeader store ++ before.flatMap encodeEntry ++ rest) :
    (cacheLoad (some (fileAfter steps))).entries =
      before.map CacheEntry.loaded ++ loadEntries (after.length + 1) rest := by
  have hlength : store.entries.length = before.length + (after.length + 1) := by
    rw [hentries, List.length_append, List.length_cons]
  rw [hfile, List.append_assoc, cacheLoad_header_append, hlength]
  apply loadEntries_append
  intro other hother
  apply hfits
  rw [hentries]
  exact List.mem_append_left _ hother

/-- Stopping in the bytes of an entry leaves the entries before it, or it as well. -/
theorem onlySaved_of_prefix (hfits : ∀ entry ∈ store.entries, EntryFits entry)
    (hentries : store.entries = before ++ entry :: after) {last : CacheEntry}
    (hlast : EntryFits last) (hrecovers : entry.Recovers last.loaded) {p : Bytes}
    (hp : p <+: encodeEntry last)
    (hfile : fileAfter steps = encodeHeader store ++ before.flatMap encodeEntry ++ p) :
    OnlySaved store (cacheLoad (some (fileAfter steps))) := by
  have hload := cacheLoad_behind hfits hentries hfile
  by_cases hwhole : p.length < (encodeEntry last).length
  · rw [loadEntries_of_not_reads (not_readsAsEntry_of_part hlast hp hwhole),
      List.append_nil] at hload
    exact onlySaved_before hentries hload
  · obtain rfl := hp.eq_of_length (Nat.le_antisymm hp.length_le (not_lt.mp hwhole))
    obtain ⟨rest, hrun, rfl⟩ := loadEntry_readsBack hlast _ [] rfl
    rw [List.append_nil] at hrun
    have hone : loadEntries (after.length + 1) (encodeEntry last) = [last.loaded] := by
      simp only [loadEntries, hrun, loadEntries_of_not_reads not_readsAsEntry_nil]
    rw [hone] at hload
    exact onlySaved_through hentries hrecovers hload

theorem onlyWrites_saveEntry (hsuite : entry.suite = none) :
    OnlyWrites fun stream => saveEntry stream entry := by
  have hdata : OnlyWrites fun stream => saveEntryData stream entry := by
    cases hraw : entry.data with
    | none => simpa only [saveEntryData, hsuite, hraw] using onlyWrites_writeUint32 0
    | some data =>
        simpa only [saveEntryData, hsuite, hraw] using
          (onlyWrites_writeUint32 (UInt32.ofNat data.length)).comp (onlyWrites_fwrite data)
  exact (onlyWrites_entryHead entry).comp hdata

/-- The calls for an entry with a suite: the length zero, the suite, and then the length again. -/
theorem saveEntry_suite (hsuite : entry.suite = some suite) (stream : OutStream) :
    ∃ (len : Bytes) (position : Nat), saveEntry stream entry =
      writeUint32 (entryHead stream entry) 0 ++
        (serializeTestSuite [] suite ++ [.fseek (ftell (entryHead stream entry))]) ++
        [.fwrite len, .fseek position] := by
  have hser := (onlyWrites_serializeTestSuite suite).eq (writeUint32 (entryHead stream entry) 0)
  refine ⟨LittleEndian.encode 4 (UInt32.ofNat
      (ftell (serializeTestSuite (writeUint32 (entryHead stream entry) 0) suite) -
        ftell (writeUint32 (entryHead stream entry) 0))).toNat,
    ftell (serializeTestSuite (writeUint32 (entryHead stream entry) 0) suite), ?_⟩
  rw [saveEntry_eq]
  simp only [saveEntryData, hsuite, hser, fseek]
  rw [writeUint32, fwrite]
  simp only [List.append_assoc, List.cons_append, List.nil_append]

theorem holds_zeroed {stream : OutStream} {contents : Bytes} (h : Holds stream contents)
    (entry : CacheEntry) :
    Holds (writeUint32 (entryHead stream entry) 0) (contents ++ encodeEntry entry.zeroed) := by
  have hzero := (h.entryHead entry).writeUint32 0
  have hencode : encodeEntry entry.zeroed = encodeHead entry ++ encodeUint32 0 := by
    rw [encodeEntry_eq]
    exact congrArg (encodeHead entry ++ ·) (List.append_nil _)
  rw [hencode, ← List.append_assoc]
  exact hzero

/-- The bytes of a suite follow its entry as long as only the suite and the way back are called. -/
theorem fileAfter_inner {position : Nat}
    (hinner : inner <+: serializeTestSuite [] suite ++ [.fseek position]) :
    fileAfter (writeUint32 (entryHead (savedUpTo store before) entry) 0 ++ inner) =
      encodeHeader store ++ before.flatMap encodeEntry ++
        (encodeEntry entry.zeroed ++ written inner) := by
  have hzeroed := holds_zeroed (holds_savedUpTo store before) entry
  have hwrites := (onlyWrites_serializeTestSuite suite).fwrite
  rw [← List.append_assoc, fileAfter]
  rcases prefix_append_cases hinner with hin | ⟨last, hlast, rfl⟩
  · exact (hzeroed.append_writes fun op hop => hwrites op (hin.subset hop)).bytes_eq
  · have hsuite := (hzeroed.append_writes hwrites).bytes_eq
    rcases List.prefix_cons_iff.mp hlast with rfl | ⟨tail, rfl, htail⟩
    · rw [List.append_nil]
      exact hsuite
    · obtain rfl := List.prefix_nil.mp htail
      have hseek : written [FileOp.fseek position] = [] := rfl
      rw [← List.append_assoc, file_fseek_bytes, hsuite, written_append, hseek, List.append_nil]

/-- The entry is loaded without data, then what is taken for entries in the bytes behind it. -/
theorem cacheLoad_inner (hfits : ∀ entry ∈ store.entries, EntryFits entry)
    (hentries : store.entries = before ++ entry :: after)
    (hfile : fileAfter steps = encodeHeader store ++ before.flatMap encodeEntry ++
      (encodeEntry entry.zeroed ++ written inner)) :
    (cacheLoad (some (fileAfter steps))).entries =
      before.map CacheEntry.loaded ++ entry.zeroed.loaded ::
        loadEntries after.length (written inner) := by
  have hzeroed := fits_zeroed (hfits entry (by simp [hentries]))
  obtain ⟨rest, hrun, rfl⟩ := loadEntry_readsBack hzeroed _ (written inner) rfl
  rw [cacheLoad_behind hfits hentries hfile]
  simp only [loadEntries, hrun]

/-- The calls that end an entry with a suite leave its complete bytes. -/
theorem fileAfter_patched {stream : OutStream} {contents : Bytes} {op : FileOp} {position : Nat}
    {tail : List FileOp} (h : Holds stream contents)
    (hsave : saveEntry stream entry = steps ++ [op, .fseek position])
    (htail : tail <+: [.fseek position]) :
    fileAfter (steps ++ op :: tail) = contents ++ encodeEntry entry := by
  have hentry := (h.saveEntry entry).bytes_eq
  rw [hsave, List.append_cons, file_fseek_bytes] at hentry
  rw [fileAfter, List.append_cons]
  rcases List.prefix_cons_iff.mp htail with rfl | ⟨last, rfl, hlast⟩
  · rw [List.append_nil]
    exact hentry
  · obtain rfl := List.prefix_nil.mp hlast
    rw [file_fseek_bytes]
    exact hentry

/-- Stopping in the data of a suite leaves the entry without data, unless the bytes of the suite
read as another entry. -/
theorem onlySaved_of_inner (hfits : ∀ entry ∈ store.entries, EntryFits entry)
    (hentries : store.entries = before ++ entry :: after) (hsuite : entry.suite = some suite)
    (hinner : inner <+: serializeTestSuite [] suite ++
      [.fseek (ftell (entryHead (savedUpTo store before) entry))])
    (hsteps : steps = writeUint32 (entryHead (savedUpTo store before) entry) 0 ++ inner)
    (hstop : ¬ StopsInReadableData store steps) :
    OnlySaved store (cacheLoad (some (fileAfter steps))) := by
  have hload := cacheLoad_inner hfits hentries (hsteps ▸ fileAfter_inner hinner)
  have hbehind : loadEntries after.length (written inner) = [] := by
    by_cases hafter : after = []
    · rw [hafter]
      rfl
    · apply loadEntries_of_not_reads
      intro hreads
      exact hstop ⟨before, entry, after, suite, inner, hentries, hafter, hsuite, hinner, hsteps,
        hreads⟩
  rw [hbehind] at hload
  exact onlySaved_through hentries (recovers_zeroed entry) hload

/-- Stopping while an entry with a suite is saved: in its head, in its data, or behind it. -/
theorem onlySaved_of_suite (hfits : ∀ entry ∈ store.entries, EntryFits entry)
    (hentries : store.entries = before ++ entry :: after) (hsuite : entry.suite = some suite)
    (hstart : savedUpTo store before <+: steps)
    (hend : steps <+: saveEntry (savedUpTo store before) entry)
    (hstop : ¬ StopsInReadableData store steps) :
    OnlySaved store (cacheLoad (some (fileAfter steps))) := by
  have hentry : EntryFits entry := hfits entry (by simp [hentries])
  have hsaved := holds_savedUpTo store before
  obtain ⟨len, position, hsave⟩ := saveEntry_suite hsuite (savedUpTo store before)
  rw [hsave, List.append_assoc] at hend
  rcases prefix_append_cases hend with hhead | ⟨inner, hinner, rfl⟩
  · have hwrites := (onlyWrites_entryHead entry).comp (onlyWrites_writeUint32 0)
    obtain ⟨p, hp, hfile⟩ := hwrites.stopped hsaved (holds_zeroed hsaved entry) hstart hhead
    exact onlySaved_of_prefix hfits hentries (fits_zeroed hentry) (recovers_zeroed entry) hp hfile
  · rcases prefix_append_cases hinner with hin | ⟨last, hlast, rfl⟩
    · exact onlySaved_of_inner hfits hentries hsuite hin rfl hstop
    · rcases List.prefix_cons_iff.mp hlast with rfl | ⟨tail, rfl, htail⟩
      · rw [List.append_nil] at hstop ⊢
        exact onlySaved_of_inner hfits hentries hsuite (List.prefix_refl _) rfl hstop
      · have hfile := fileAfter_patched hsaved hsave htail
        rw [List.append_assoc] at hfile
        exact onlySaved_of_prefix hfits hentries hentry (recovers_loaded entry)
          (List.prefix_refl _) hfile

theorem saveEntry_prefix (stream : OutStream) (entry : CacheEntry) :
    stream <+: saveEntry stream entry := by
  cases hsuite : entry.suite with
  | none =>
      rw [(onlyWrites_saveEntry hsuite).eq stream]
      exact List.prefix_append _ _
  | some suite =>
      obtain ⟨len, position, hsave⟩ := saveEntry_suite hsuite stream
      have hwrites := (onlyWrites_entryHead entry).comp (onlyWrites_writeUint32 0)
      rw [hsave, hwrites.eq stream, List.append_assoc, List.append_assoc]
      exact List.prefix_append _ _

/-- Wherever else the saving stops, only entries of the store are loaded. -/
theorem onlySaved_of_not_stops (hfits : ∀ entry ∈ store.entries, EntryFits entry)
    (hsteps : steps <+: cacheSave store) (hstop : ¬ StopsInReadableData store steps) :
    OnlySaved store (cacheLoad (some (fileAfter steps))) := by
  rw [cacheSave_eq] at hsteps
  rcases prefix_foldl_cases saveEntry_prefix hsteps with
    hheader | ⟨before, entry, after, hentries, hstart, hend⟩
  · have hwrites := ((onlyWrites_fwrite cacheMagic).comp (onlyWrites_writeUint32 cacheVersion)).comp
      (onlyWrites_writeUint32 (UInt32.ofNat store.entries.length))
    have hbytes : Holds (saveHeader store) ([] ++ encodeHeader store) := holds_saveHeader store
    obtain ⟨p, hp, hfile⟩ := hwrites.stopped holds_nil hbytes List.nil_prefix hheader
    apply onlySaved_before (List.nil_append store.entries).symm
    rw [fileAfter, hfile]
    exact cacheLoad_header_prefix hp
  · cases hsuite : entry.suite with
    | some suite => exact onlySaved_of_suite hfits hentries hsuite hstart hend hstop
    | none =>
        have hsaved := holds_savedUpTo store before
        obtain ⟨p, hp, hfile⟩ := (onlyWrites_saveEntry hsuite).stopped hsaved
          (hsaved.saveEntry entry) hstart hend
        exact onlySaved_of_prefix hfits hentries (hfits entry (by simp [hentries]))
          (recovers_loaded entry) hp hfile

/-- The bytes of a suite start with the length of its name, of which the loader takes the low half
for the length of a path and finds the zero high half in the path. -/
theorem path_of_suite_prefix {p rest : Bytes} {loaded : CacheEntry}
    (hname : suite.name.bytes.length < 2 ^ 16) (hp : p <+: encodeTestSuite suite)
    (hload : loadEntry p = .ok loaded rest) : loaded.path.bytes = [] := by
  obtain ⟨hreads, hpath⟩ := readsAsEntry_of_loadEntry hload
  rw [ReadsAsEntry] at hreads
  have hhigh : suite.name.bytes.length / 256 / 256 = 0 := by omega
  have hsuite : ∃ b₀ b₁ bytes, encodeTestSuite suite = b₀ :: b₁ :: 0 :: bytes := by
    have hlength : suite.name.bytes.length < 2 ^ 32 := by omega
    rw [encodeTestSuite, encodeUint32, toNat_ofNat_length hlength]
    simp only [LittleEndian.encode, hhigh, List.cons_append]
    exact ⟨_, _, _, rfl⟩
  obtain ⟨b₀, b₁, bytes, hsuite⟩ := hsuite
  obtain ⟨behind, hbehind⟩ := hp
  have hfirst : p.take 3 = [b₀, b₁, 0] := by
    have hlong : 3 ≤ p.length := by omega
    rw [← List.take_append_of_le_length hlong, hbehind, hsuite]
    rfl
  have hp : p = b₀ :: b₁ :: 0 :: p.drop 3 := by
    calc p = p.take 3 ++ p.drop 3 := (List.take_append_drop 3 p).symm
      _ = b₀ :: b₁ :: 0 :: p.drop 3 := by rw [hfirst]; rfl
  rw [hpath, hp]
  cases entryPathLen (b₀ :: b₁ :: 0 :: p.drop 3) with
  | zero => rfl
  | succ n => rfl

theorem exists_recovers {saved loaded : List CacheEntry} {other : CacheEntry}
    (h : List.Forall₂ CacheEntry.Recovers saved loaded) (hother : other ∈ loaded) :
    ∃ entry ∈ saved, entry.Recovers other := by
  induction h with
  | nil => cases hother
  | cons hhead _ ih =>
      rcases List.mem_cons.mp hother with rfl | htail
      · exact ⟨_, List.mem_cons_self, hhead⟩
      · obtain ⟨entry, hentry, hrecovers⟩ := ih htail
        exact ⟨entry, List.mem_cons_of_mem _ hentry, hrecovers⟩

/-- Where the bytes of a suite read as an entry, the loader takes them for an entry without path. -/
theorem not_onlySaved_of_stops (hfits : ∀ entry ∈ store.entries, EntryFits entry)
    (hpaths : ∀ entry ∈ store.entries, entry.path.bytes ≠ [])
    (hnames : ∀ entry ∈ store.entries, ∀ suite, entry.suite = some suite →
      suite.name.bytes.length < 2 ^ 16)
    (hstop : StopsInReadableData store steps) :
    ¬ OnlySaved store (cacheLoad (some (fileAfter steps))) := by
  rintro ⟨recovered, hsub, honly⟩
  obtain ⟨before, entry, after, suite, inner, hentries, hafter, hsuite, hinner, rfl, hreads⟩ := hstop
  obtain ⟨other, rest, hload⟩ := exists_loadEntry hreads
  have hwritten : written inner <+: encodeTestSuite suite := by
    have hserialized := (onlyWrites_serializeTestSuite suite).written_eq holds_nil
      (holds_nil.serializeTestSuite suite)
    have hwhole := written_prefix hinner
    rw [written_append, hserialized] at hwhole
    exact hwhole.trans (List.append_nil _ ▸ List.prefix_refl _)
  have hmem : other ∈ (cacheLoad (some (fileAfter
      (writeUint32 (entryHead (savedUpTo store before) entry) 0 ++ inner)))).entries := by
    obtain ⟨following, after, rfl⟩ := List.exists_cons_of_ne_nil hafter
    rw [cacheLoad_inner hfits hentries (fileAfter_inner hinner), List.length_cons, loadEntries]
    simp only [hload]
    simp
  obtain ⟨saved, hsaved, hrecovers⟩ := exists_recovers honly hmem
  apply hpaths saved (hsub.subset hsaved)
  rw [← hrecovers.path]
  exact path_of_suite_prefix (hnames entry (by simp [hentries]) suite hsuite) hwritten hload

end Stopping

/-- The lengths in the cache file are wide enough, the data of an entry has room in a block of the
cache's memory pool, and no entry is without path. -/
structure CacheStore.Saveable (store : CacheStore) : Prop where
  fits : ∀ entry ∈ store.entries, EntryFits entry
  block : ∀ entry ∈ store.entries, entry.savedData.length ≤ defaultMemoryBlobSize
  path : ∀ entry ∈ store.entries, entry.path.bytes ≠ []
  name : ∀ entry ∈ store.entries, ∀ suite, entry.suite = some suite →
    suite.name.bytes.length < 2 ^ 16

/-- What is loaded from a file whose saving was stopped are entries of the saved store, unless it
was stopped in the data of a suite whose bytes read as an entry. -/
theorem interrupted_save_iff (store : CacheStore) (hstore : store.Saveable) (steps : List FileOp)
    (hsteps : steps <+: cacheSave store) :
    OnlySaved store (cacheLoad (some (fileAfter steps))) ↔ ¬ StopsInReadableData store steps := by
  constructor
  · intro honly hstop
    exact not_onlySaved_of_stops hstore.fits hstore.path hstore.name hstop honly
  · exact onlySaved_of_not_stops hstore.fits hsteps

/-- With one suite there is nothing behind it that could be taken for an entry. -/
theorem interrupted_save_iff_one_suite :
    let suite : TestSuite := ⟨⟨ascii "a.test", by decide⟩, [{ makeProgramRunnerTest with
      name := some (ascii "ab"), flags := testCompleteMask, programPath := some (ascii "x"),
      expectedStdout := some (ascii "y") }]⟩
    let store : CacheStore := ⟨[⟨⟨ascii "/a.test", by decide⟩, 5, 80, 12345, some suite, none⟩],
      by decide⟩
    OnlySaved store (cacheLoad (some (fileAfter ((cacheSave store).take 17)))) := by
  intro suite store
  have hstore : store.Saveable := by
    constructor
    · intro entry hentry
      obtain rfl := List.mem_singleton.mp hentry
      exact ⟨by decide, by decide +kernel⟩
    · intro entry hentry
      obtain rfl := List.mem_singleton.mp hentry
      decide +kernel
    · intro entry hentry
      obtain rfl := List.mem_singleton.mp hentry
      decide
    · intro entry hentry other hother
      obtain rfl := List.mem_singleton.mp hentry
      obtain rfl := Option.some_inj.mp hother
      decide
  apply (interrupted_save_iff store hstore _ (List.take_prefix 17 (cacheSave store))).mpr
  rintro ⟨before, entry, after, _, _, hentries, hafter, _⟩
  have hlength : 1 = (before ++ entry :: after).length := congrArg List.length hentries
  have hpos := List.length_pos_of_ne_nil hafter
  rw [List.length_append, List.length_cons] at hlength
  omega

/-- Saving stops after the `given_type` of the first of two suites: the 32 bytes of the suite that
are written are loaded as an entry with an empty path. -/
theorem interrupted_save_loads_stray_entry :
    let suite : TestSuite := ⟨⟨ascii "a.test", by decide⟩, [{ makeProgramRunnerTest with
      name := some (ascii "ab"), flags := testCompleteMask, programPath := some (ascii "x"),
      expectedStdout := some (ascii "y") }]⟩
    let store : CacheStore := ⟨[⟨⟨ascii "/a.test", by decide⟩, 5, 80, 12345, some suite, none⟩,
      ⟨⟨ascii "/b.test", by decide⟩, 6, 80, 54321, some suite, none⟩], by decide⟩
    ¬ (∀ steps, steps <+: cacheSave store →
      OnlySaved store (cacheLoad (some (fileAfter steps)))) := by
  intro suite store hsafe
  obtain ⟨saved, hsub, hrecovers⟩ := hsafe _ (List.take_prefix 17 (cacheSave store))
  have hstray : ∃ entry ∈ (cacheLoad (some (fileAfter ((cacheSave store).take 17)))).entries,
      entry.path.bytes = [] := by decide +kernel
  obtain ⟨stray, hstray, hpath⟩ := hstray
  obtain ⟨entry, hentry, hentryRecovers⟩ := exists_recovers hrecovers hstray
  have hnone : ∀ entry ∈ store.entries, entry.path.bytes ≠ [] := by decide
  apply hnone entry (hsub.subset hentry)
  rw [← hentryRecovers.path]
  exact hpath

end JCUnit
