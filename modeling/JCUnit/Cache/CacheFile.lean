import JCUnit.Compile.TestSuite
import JCUnit.Foundation.LittleEndian
import JCUnit.Foundation.StateError

/-!
# The cache file

The two writers and the two readers of the cache. A stream that is written to
is the list of calls made on it, which fixes the bytes of the file and the
position. Every write succeeds. A reader of the file consumes the bytes that
are left; a reader of a buffer keeps its position in 32-bit arithmetic.
-/

namespace JCUnit

def cacheMagic : Bytes := ascii "JCUNIT" ++ [0, 0]
def cacheMagicSize : Nat := 8
def cacheVersion : UInt32 := 7
def cacheMaxEntries : Nat := 1024

/-- The size of a block of the cache's memory pool. -/
def defaultMemoryBlobSize : Nat := 1024 * 1024

/-- `suite` is `NULL` until the entry is decoded or updated; `data` with `dataLen` are the
bytes it was loaded from, and `NULL` once it is updated. -/
structure CacheEntry where
  path : CString
  mtime : Int64
  fileSize : Int64
  contentHash : UInt32
  suite : Option TestSuite
  data : Option Bytes
deriving DecidableEq

structure CacheStore where
  entries : List CacheEntry
  bounded : entries.length ≤ cacheMaxEntries
deriving DecidableEq

section Writing

inductive FileOp
  | fwrite (bytes : Bytes)
  | fseek (position : Nat)
deriving DecidableEq

structure OutFile where
  bytes : Bytes
  position : Nat
deriving DecidableEq

def OutFile.step (file : OutFile) : FileOp → OutFile
  | .fwrite bytes =>
      { bytes := file.bytes.take file.position ++ bytes ++
          file.bytes.drop (file.position + bytes.length)
        position := file.position + bytes.length }
  | .fseek position => { file with position }

abbrev OutStream := List FileOp

/-- The file that `fopen(path, "wb")` has emptied, after the calls of the stream. -/
def OutStream.file (stream : OutStream) : OutFile :=
  stream.foldl OutFile.step ⟨[], 0⟩

def ftell (stream : OutStream) : Nat := (OutStream.file stream).position

def fwrite (stream : OutStream) (bytes : Bytes) : OutStream := stream ++ [.fwrite bytes]

def fseek (stream : OutStream) (position : Nat) : OutStream := stream ++ [.fseek position]

def writeUint16 (stream : OutStream) (v : UInt16) : OutStream :=
  fwrite stream (LittleEndian.encode 2 v.toNat)

def writeUint32 (stream : OutStream) (v : UInt32) : OutStream :=
  fwrite stream (LittleEndian.encode 4 v.toNat)

def writeInt64 (stream : OutStream) (v : Int64) : OutStream :=
  fwrite stream (LittleEndian.encode 8 v.toUInt64.toNat)

def writeStringField (stream : OutStream) : Option Bytes → OutStream
  | none => writeUint32 stream 0xFFFFFFFF
  | some s =>
      let stream := writeUint32 stream (UInt32.ofNat s.length)
      if s.length > 0 then fwrite stream s else stream

def serializeTest (stream : OutStream) (test : ProgramRunnerTest) : OutStream :=
  let stream := writeUint32 stream test.kind
  let stream := writeUint32 stream test.flags
  let stream := writeStringField stream test.name
  if test.kind = testKindProgramRunner then
    let stream := writeUint32 stream test.givenType
    let stream := writeStringField stream test.givenFilename
    let stream := writeStringField stream test.givenFileContent
    let stream := writeStringField stream test.givenPath
    let stream := writeStringField stream test.programPath
    let stream := writeStringField stream test.programArgs
    let stream := writeStringField stream test.expectedStdout
    writeStringField stream test.expectedStderr
  else stream

def serializeTestSuite (stream : OutStream) (suite : TestSuite) : OutStream :=
  let stream := writeUint32 stream (UInt32.ofNat suite.name.bytes.length)
  let stream := fwrite stream suite.name.bytes
  let stream := writeUint32 stream (UInt32.ofNat suite.tests.length)
  suite.tests.foldl serializeTest stream

/-- The part of `cache_save` that writes the data of an entry behind its length. -/
def saveEntryData (stream : OutStream) (entry : CacheEntry) : OutStream :=
  match entry.suite, entry.data with
  | some suite, _ =>
      let dataLenPos := ftell stream
      let stream := writeUint32 stream 0
      let dataStart := ftell stream
      let stream := serializeTestSuite stream suite
      let dataEnd := ftell stream
      let dataLen := UInt32.ofNat (dataEnd - dataStart)
      let stream := fseek stream dataLenPos
      let stream := writeUint32 stream dataLen
      fseek stream dataEnd
  | none, some data =>
      let stream := writeUint32 stream (UInt32.ofNat data.length)
      fwrite stream data
  | none, none => writeUint32 stream 0

def saveEntry (stream : OutStream) (entry : CacheEntry) : OutStream :=
  let pathLen := UInt16.ofNat entry.path.bytes.length
  let stream := writeUint16 stream pathLen
  let stream := fwrite stream (entry.path.bytes.take pathLen.toNat)
  let stream := writeInt64 stream entry.mtime
  let stream := writeInt64 stream entry.fileSize
  let stream := writeUint32 stream entry.contentHash
  saveEntryData stream entry

def cacheSave (store : CacheStore) : OutStream :=
  let stream := fwrite [] cacheMagic
  let stream := writeUint32 stream cacheVersion
  let stream := writeUint32 stream (UInt32.ofNat store.entries.length)
  store.entries.foldl saveEntry stream

/-- The bytes `cache_save` leaves in the file. -/
def savedFile (store : CacheStore) : Bytes := (OutStream.file (cacheSave store)).bytes

end Writing

section Decoding

/-- Why the decoder gives no suite: it returns `NULL`, or it has read outside its buffer and
C does not say what it does. -/
inductive DecodeStop
  | null
  | outOfBounds
deriving DecidableEq

structure ReadBuffer where
  data : Bytes
  len : UInt32
  pos : UInt32
deriving DecidableEq

abbrev BufM := EStateM DecodeStop ReadBuffer

/-- `memcpy` of `size` bytes at the position, which moves behind them. -/
def bufTake (size : UInt32) : BufM Bytes := fun buf =>
  if buf.pos.toNat + size.toNat ≤ buf.data.length then
    .ok ((buf.data.drop buf.pos.toNat).take size.toNat) { buf with pos := buf.pos + size }
  else .error .outOfBounds buf

/-- `buf->pos + size > buf->len`, which is computed in `uint32_t`. -/
def exceeds (buf : ReadBuffer) (size : UInt32) : Bool := buf.pos + size > buf.len

def bufRead (size : UInt32) : BufM (Option Bytes) := do
  let buf ← get
  if exceeds buf size then return none
  else
    let bytes ← bufTake size
    return some bytes

def bufReadUint32 : BufM (Option UInt32) := do
  let bytes ← bufRead 4
  return bytes.map fun bytes => UInt32.ofNat (LittleEndian.decode bytes)

/-- A field the buffer has no room for is `NULL`, as an absent one. -/
def bufReadStringField : BufM (Option Bytes) := do
  let len ← bufReadUint32
  match len with
  | none => return none
  | some len =>
      if len = 0xFFFFFFFF then return none
      else if len = 0 then return some []
      else
        let buf ← get
        if exceeds buf len then return none
        else
          let bytes ← bufTake len
          return some bytes

/-- A read after whose failure the decoder returns `NULL`. -/
def orNull {α : Type} (read : BufM (Option α)) : BufM α := do
  let value ← read
  match value with
  | some value => return value
  | none => throw .null

def deserializeTest : BufM ProgramRunnerTest := do
  let kind ← orNull bufReadUint32
  let flags ← orNull bufReadUint32
  if kind = testKindProgramRunner then
    let name ← bufReadStringField
    let givenType ← orNull bufReadUint32
    let givenFilename ← bufReadStringField
    let givenFileContent ← bufReadStringField
    let givenPath ← bufReadStringField
    let programPath ← bufReadStringField
    let programArgs ← bufReadStringField
    let expectedStdout ← bufReadStringField
    let expectedStderr ← bufReadStringField
    return ⟨name, kind, flags, givenType, givenFilename, givenFileContent, givenPath, programPath,
      programArgs, expectedStdout, expectedStderr⟩
  else throw .null

def deserializeTests : Nat → BufM (List ProgramRunnerTest)
  | 0 => return []
  | count + 1 => do
      let test ← deserializeTest
      let tests ← deserializeTests count
      return test :: tests

def deserializeName : BufM CString := do
  let nameLen ← orNull bufReadUint32
  let buf ← get
  if exceeds buf nameLen then throw .null
  else
    let name ← bufTake nameLen
    return CString.ofBuffer name

def deserializeTestSuiteM : BufM TestSuite := do
  let name ← deserializeName
  let testsCount ← orNull bufReadUint32
  let tests ← deserializeTests testsCount.toNat
  return ⟨name, tests⟩

/-- `deserialize_test_suite` on the data of an entry. -/
def deserializeTestSuite (data : Bytes) : Except DecodeStop TestSuite :=
  match deserializeTestSuiteM ⟨data, UInt32.ofNat data.length, 0⟩ with
  | .ok suite _ => .ok suite
  | .error stop _ => .error stop

end Decoding

section Loading

/-- Readers of a file, whose state is the bytes that are left. A short read ends the loading. -/
abbrev FileM := EStateM Unit Bytes

def fread (size : Nat) : FileM Bytes := fun file =>
  if size ≤ file.length then .ok (file.take size) (file.drop size) else .error () file

def readUint16 : FileM UInt16 := do
  let bytes ← fread 2
  return UInt16.ofNat (LittleEndian.decode bytes)

def readUint32 : FileM UInt32 := do
  let bytes ← fread 4
  return UInt32.ofNat (LittleEndian.decode bytes)

def readInt64 : FileM Int64 := do
  let bytes ← fread 8
  return (UInt64.ofNat (LittleEndian.decode bytes)).toInt64

def loadEntry : FileM CacheEntry := do
  let pathLen ← readUint16
  let entryPath ← fread pathLen.toNat
  let mtimeVal ← readInt64
  let sizeVal ← readInt64
  let contentHash ← readUint32
  let dataLen ← readUint32
  let data ← fread dataLen.toNat
  return ⟨CString.ofBuffer entryPath, mtimeVal, sizeVal, contentHash, none, some data⟩

/-- The entries up to the first that cannot be read. -/
def loadEntries : Nat → Bytes → List CacheEntry
  | 0, _ => []
  | count + 1, file =>
      match loadEntry file with
      | .ok entry file => entry :: loadEntries count file
      | .error _ _ => []

/-- The number of entries the header announces, if there is a valid header. -/
def readHeader : FileM UInt32 := do
  let magic ← fread cacheMagicSize
  if magic ≠ cacheMagic then throw ()
  else
    let version ← readUint32
    if version ≠ cacheVersion then throw () else readUint32

theorem length_loadEntries (count : Nat) (file : Bytes) : (loadEntries count file).length ≤ count := by
  induction count generalizing file with
  | zero => exact Nat.le_refl 0
  | succ count ih =>
      rw [loadEntries]
      cases loadEntry file with
      | ok entry rest => exact Nat.succ_le_succ (ih rest)
      | error _ _ => exact Nat.zero_le _

def CacheStore.empty : CacheStore := ⟨[], Nat.zero_le _⟩

/-- `cache_load` of a file with these contents, or of a path that cannot be opened. -/
def cacheLoad : Option Bytes → CacheStore
  | none => .empty
  | some contents =>
      match readHeader contents with
      | .ok entryCount file =>
          { entries := loadEntries (min entryCount.toNat cacheMaxEntries) file
            bounded := (length_loadEntries _ file).trans (Nat.min_le_right _ _) }
      | .error _ _ => .empty

end Loading

end JCUnit
