import JCUnit.Cache.CacheFile

/-!
# The bytes of a cache file

What the writers leave in the file, as bytes appended to what it held. The one
exception to appending is the length in front of a serialized suite, which is
written again once the suite is; the two writes together append as well.
-/

namespace JCUnit

def encodeUint32 (v : UInt32) : Bytes := LittleEndian.encode 4 v.toNat

def encodeStringField : Option Bytes → Bytes
  | none => encodeUint32 0xFFFFFFFF
  | some s => encodeUint32 (UInt32.ofNat s.length) ++ s

def encodeFields (fields : List (Option Bytes)) : Bytes := fields.flatMap encodeStringField

/-- The string fields of a test behind `given_type`, in the order of the file. -/
def ProgramRunnerTest.fields (test : ProgramRunnerTest) : List (Option Bytes) :=
  [test.givenFilename, test.givenFileContent, test.givenPath, test.programPath, test.programArgs,
    test.expectedStdout, test.expectedStderr]

def encodeTest (test : ProgramRunnerTest) : Bytes :=
  encodeUint32 test.kind ++ (encodeUint32 test.flags ++ (encodeStringField test.name ++
    if test.kind = testKindProgramRunner then
      encodeUint32 test.givenType ++ encodeFields test.fields
    else []))

def encodeTestSuite (suite : TestSuite) : Bytes :=
  encodeUint32 (UInt32.ofNat suite.name.bytes.length) ++ (suite.name.bytes ++
    (encodeUint32 (UInt32.ofNat suite.tests.length) ++ suite.tests.flatMap encodeTest))

/-- The data `cache_save` writes for an entry: its live suite, else what it was loaded from. -/
def CacheEntry.savedData (entry : CacheEntry) : Bytes :=
  match entry.suite, entry.data with
  | some suite, _ => encodeTestSuite suite
  | none, some data => data
  | none, none => []

def CacheEntry.savedPath (entry : CacheEntry) : Bytes :=
  entry.path.bytes.take (UInt16.ofNat entry.path.bytes.length).toNat

def encodeEntry (entry : CacheEntry) : Bytes :=
  LittleEndian.encode 2 (UInt16.ofNat entry.path.bytes.length).toNat ++ (entry.savedPath ++
    (LittleEndian.encode 8 entry.mtime.toUInt64.toNat ++
      (LittleEndian.encode 8 entry.fileSize.toUInt64.toNat ++ (encodeUint32 entry.contentHash ++
        (encodeUint32 (UInt32.ofNat entry.savedData.length) ++ entry.savedData)))))

/-- The file holds these bytes, and the next write goes behind them. -/
def Holds (stream : OutStream) (contents : Bytes) : Prop :=
  OutStream.file stream = ⟨contents, contents.length⟩

section Appending

variable {stream : OutStream} {contents : Bytes}

theorem OutStream.file_append (stream : OutStream) (op : FileOp) :
    OutStream.file (stream ++ [op]) = (OutStream.file stream).step op := by
  simp only [OutStream.file, List.foldl_append, List.foldl_cons, List.foldl_nil]

theorem holds_nil : Holds [] [] := rfl

theorem Holds.ftell_eq (h : Holds stream contents) : ftell stream = contents.length := by
  unfold ftell
  rw [h]

theorem Holds.fwrite (h : Holds stream contents) (bytes : Bytes) :
    Holds (fwrite stream bytes) (contents ++ bytes) := by
  unfold Holds JCUnit.fwrite
  rw [OutStream.file_append, h]
  simp [OutFile.step]

theorem Holds.writeUint32 (h : Holds stream contents) (v : UInt32) :
    Holds (writeUint32 stream v) (contents ++ encodeUint32 v) :=
  h.fwrite _

theorem Holds.writeStringField (h : Holds stream contents) (field : Option Bytes) :
    Holds (writeStringField stream field) (contents ++ encodeStringField field) := by
  cases field with
  | none => exact h.writeUint32 _
  | some s =>
      have hlen := h.writeUint32 (UInt32.ofNat s.length)
      cases s with
      | nil => simpa [JCUnit.writeStringField, encodeStringField] using hlen
      | cons b s => simpa [JCUnit.writeStringField, encodeStringField] using hlen.fwrite (b :: s)

theorem Holds.serializeTest (h : Holds stream contents) (test : ProgramRunnerTest) :
    Holds (serializeTest stream test) (contents ++ encodeTest test) := by
  have hbase := ((h.writeUint32 test.kind).writeUint32 test.flags).writeStringField test.name
  by_cases hkind : test.kind = testKindProgramRunner
  · have hfields := (((((((hbase.writeUint32 test.givenType).writeStringField
      test.givenFilename).writeStringField test.givenFileContent).writeStringField
      test.givenPath).writeStringField test.programPath).writeStringField
      test.programArgs).writeStringField test.expectedStdout).writeStringField test.expectedStderr
    simpa [JCUnit.serializeTest, encodeTest, hkind, encodeFields, ProgramRunnerTest.fields]
      using hfields
  · simpa [JCUnit.serializeTest, encodeTest, hkind] using hbase

/-- A loop of writers that each append appends what they append. -/
theorem Holds.foldl {α : Type} {write : OutStream → α → OutStream} {encode : α → Bytes}
    (hwrite : ∀ {stream contents}, Holds stream contents → ∀ item,
      Holds (write stream item) (contents ++ encode item))
    (items : List α) (h : Holds stream contents) :
    Holds (items.foldl write stream) (contents ++ items.flatMap encode) := by
  induction items generalizing stream contents with
  | nil =>
      rw [List.flatMap_nil, List.append_nil]
      exact h
  | cons item items ih =>
      rw [List.flatMap_cons, ← List.append_assoc]
      exact ih (hwrite h item)

theorem Holds.serializeTestSuite (h : Holds stream contents) (suite : TestSuite) :
    Holds (serializeTestSuite stream suite) (contents ++ encodeTestSuite suite) := by
  have hname := (h.writeUint32 (UInt32.ofNat suite.name.bytes.length)).fwrite suite.name.bytes
  have hcount := hname.writeUint32 (UInt32.ofNat suite.tests.length)
  have htests := hcount.foldl Holds.serializeTest suite.tests
  simpa [JCUnit.serializeTestSuite, encodeTestSuite] using htests

/-- A length written again in front of data that has grown behind it. -/
theorem Holds.patchLength {data : Bytes} (v w : UInt32)
    (h : Holds stream (contents ++ encodeUint32 v ++ data)) :
    Holds (JCUnit.fseek (JCUnit.writeUint32 (JCUnit.fseek stream contents.length) w)
      (contents.length + 4 + data.length)) (contents ++ (encodeUint32 w ++ data)) := by
  have hv : (encodeUint32 v).length = 4 := LittleEndian.length_encode 4 _
  have hw : (encodeUint32 w).length = 4 := LittleEndian.length_encode 4 _
  have htake : (contents ++ encodeUint32 v ++ data).take contents.length = contents := by
    rw [List.append_assoc, List.take_left]
  have hdrop : (contents ++ encodeUint32 v ++ data).drop (contents.length + 4) = data :=
    List.drop_left' (by rw [List.length_append, hv])
  unfold Holds JCUnit.fseek JCUnit.writeUint32 JCUnit.fwrite
  rw [OutStream.file_append, OutStream.file_append, OutStream.file_append, h]
  simp only [OutFile.step]
  rw [← encodeUint32, hw, htake, hdrop]
  simp [hw, Nat.add_assoc]

theorem Holds.saveEntryData (h : Holds stream contents) (entry : CacheEntry) :
    Holds (saveEntryData stream entry) (contents ++
      (encodeUint32 (UInt32.ofNat entry.savedData.length) ++ entry.savedData)) := by
  unfold JCUnit.saveEntryData CacheEntry.savedData
  cases entry.suite with
  | some suite =>
      have hlength : (encodeUint32 0).length = 4 := LittleEndian.length_encode 4 _
      have hzero := h.writeUint32 0
      have hsuite := hzero.serializeTestSuite suite
      have hpatched := hsuite.patchLength 0 (UInt32.ofNat (encodeTestSuite suite).length)
      simp only [h.ftell_eq, hzero.ftell_eq, hsuite.ftell_eq, List.length_append, hlength,
        Nat.add_sub_cancel_left]
      exact hpatched
  | none =>
      cases entry.data with
      | some data =>
          rw [← List.append_assoc]
          exact (h.writeUint32 (UInt32.ofNat data.length)).fwrite data
      | none =>
          rw [List.append_nil]
          exact h.writeUint32 0

theorem Holds.saveEntry (h : Holds stream contents) (entry : CacheEntry) :
    Holds (saveEntry stream entry) (contents ++ encodeEntry entry) := by
  have hpath := (h.fwrite (LittleEndian.encode 2
    (UInt16.ofNat entry.path.bytes.length).toNat)).fwrite entry.savedPath
  have htimes := (hpath.fwrite (LittleEndian.encode 8 entry.mtime.toUInt64.toNat)).fwrite
    (LittleEndian.encode 8 entry.fileSize.toUInt64.toNat)
  have hdata := (htimes.writeUint32 entry.contentHash).saveEntryData entry
  simp only [List.append_assoc] at hdata
  exact hdata

/-- The whole file: the header and the entries in order. -/
theorem savedFile_eq (store : CacheStore) :
    savedFile store = cacheMagic ++ (encodeUint32 cacheVersion ++
      (encodeUint32 (UInt32.ofNat store.entries.length) ++ store.entries.flatMap encodeEntry)) := by
  have hheader := ((holds_nil.fwrite cacheMagic).writeUint32 cacheVersion).writeUint32
    (UInt32.ofNat store.entries.length)
  have hentries := hheader.foldl Holds.saveEntry store.entries
  unfold savedFile cacheSave
  rw [hentries]
  simp

/-- The bytes of a serialized suite, as they stand alone. -/
def serialized (suite : TestSuite) : Bytes :=
  (OutStream.file (serializeTestSuite [] suite)).bytes

theorem serialized_eq (suite : TestSuite) : serialized suite = encodeTestSuite suite := by
  unfold serialized
  rw [holds_nil.serializeTestSuite suite]
  rfl

end Appending

end JCUnit
