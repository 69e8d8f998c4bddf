import JCUnit.Cache.Decoding
import JCUnit.Foundation.Projection
import JCUnit.Foundation.Transitions

/-!
# Where the decoder reads

The decoder over a buffer that also lists the reads that have been made of it, in order, each
with the buffer before it, its size and the buffer behind it. The check in front of a read is
computed in 32 bits: it keeps the read inside the buffer exactly as long as its sum does not
wrap.
-/

namespace JCUnit

open StateError Projection Transitions

/-- A read: the buffer, the number of bytes, and the buffer with its position moved on. -/
abbrev ReadRecord := Record ReadBuffer UInt32

structure TracedBuffer where
  buf : ReadBuffer
  reads : List ReadRecord

namespace TracedBuffer

abbrev TracedM := EStateM DecodeStop TracedBuffer

/-- A read that is listed when it is made, also if it goes out of bounds. -/
def bufTake (size : UInt32) : TracedM Bytes := fun s =>
  let reads := s.reads ++ [⟨s.buf, size, { s.buf with pos := s.buf.pos + size }⟩]
  match JCUnit.bufTake size s.buf with
  | .ok bytes buf => .ok bytes ⟨buf, reads⟩
  | .error stop buf => .error stop ⟨buf, reads⟩

def getBuf : TracedM ReadBuffer := fun s => .ok s.buf s

def bufRead (size : UInt32) : TracedM (Option Bytes) := do
  let buf ← getBuf
  if exceeds buf size then return none
  else
    let bytes ← bufTake size
    return some bytes

def bufReadUint32 : TracedM (Option UInt32) := do
  let bytes ← bufRead 4
  return bytes.map fun bytes => UInt32.ofNat (LittleEndian.decode bytes)

def bufReadStringField : TracedM (Option Bytes) := do
  let len ← bufReadUint32
  match len with
  | none => return none
  | some len =>
      if len = 0xFFFFFFFF then return none
      else if len = 0 then return some []
      else
        let buf ← getBuf
        if exceeds buf len then return none
        else
          let bytes ← bufTake len
          return some bytes

def orNull {α : Type} (read : TracedM (Option α)) : TracedM α := do
  let value ← read
  match value with
  | some value => return value
  | none => throw .null

def deserializeTest : TracedM ProgramRunnerTest := do
  let kind ← orNull bufReadUint32
  let flags ← orNull bufReadUint32
  if kind = testKindProgramRunner then
    let name ← bufReadStringField
    let givenType ← orNull bufReadUint32
    let givenFilename ← bufReadStringField
    let givenFileContent ← bufReadStringField
    let givenPath ← bufReadStringField
    let programPath ← bufReadStringField
    let programArgs ← bufReadStringField
    let expectedStdout ← bufReadStringField
    let expectedStderr ← bufReadStringField
    return ⟨name, kind, flags, givenType, givenFilename, givenFileContent, givenPath, programPath,
      programArgs, expectedStdout, expectedStderr⟩
  else throw .null

def deserializeTests : Nat → TracedM (List ProgramRunnerTest)
  | 0 => return []
  | count + 1 => do
      let test ← deserializeTest
      let tests ← deserializeTests count
      return test :: tests

def deserializeName : TracedM CString := do
  let nameLen ← orNull bufReadUint32
  let buf ← getBuf
  if exceeds buf nameLen then throw .null
  else
    let name ← bufTake nameLen
    return CString.ofBuffer name

def deserializeTestSuiteM : TracedM TestSuite := do
  let name ← deserializeName
  let testsCount ← orNull bufReadUint32
  let tests ← deserializeTests testsCount.toNat
  return ⟨name, tests⟩

section Projections

/-- The two programs do the same to the buffer. -/
abbrev Follows {α : Type} (x : TracedM α) (y : BufM α) : Prop :=
  Projects TracedBuffer.buf x y

theorem follows_bufTake (size : UInt32) : Follows (bufTake size) (JCUnit.bufTake size) := by
  intro s
  unfold bufTake
  cases JCUnit.bufTake size s.buf <;> rfl

theorem follows_getBuf : Follows getBuf get :=
  fun _ => rfl

theorem follows_bufRead (size : UInt32) : Follows (bufRead size) (JCUnit.bufRead size) := by
  apply follows_getBuf.bind
  intro buf
  split
  · exact Projects.pure _
  · exact (follows_bufTake size).bind fun _ => Projects.pure _

theorem follows_bufReadUint32 : Follows bufReadUint32 JCUnit.bufReadUint32 :=
  (follows_bufRead 4).bind fun _ => Projects.pure _

theorem follows_bufReadStringField : Follows bufReadStringField JCUnit.bufReadStringField := by
  apply follows_bufReadUint32.bind
  intro len
  cases len with
  | none => exact Projects.pure _
  | some len =>
      dsimp only
      split
      · exact Projects.pure _
      split
      · exact Projects.pure _
      · apply follows_getBuf.bind
        intro buf
        split
        · exact Projects.pure _
        · exact (follows_bufTake len).bind fun _ => Projects.pure _

theorem follows_orNull {α : Type} {x : TracedM (Option α)} {y : BufM (Option α)}
    (h : Follows x y) : Follows (orNull x) (JCUnit.orNull y) := by
  apply h.bind
  intro value
  cases value with
  | none => exact Projects.throw _
  | some value => exact Projects.pure _

theorem follows_deserializeTest : Follows deserializeTest JCUnit.deserializeTest := by
  have hfield := follows_bufReadStringField
  have hnumber := follows_orNull follows_bufReadUint32
  apply hnumber.bind
  intro kind
  apply hnumber.bind
  intro flags
  split
  · exact hfield.bind fun _ => hnumber.bind fun _ => hfield.bind fun _ => hfield.bind fun _ =>
      hfield.bind fun _ => hfield.bind fun _ => hfield.bind fun _ => hfield.bind fun _ =>
      hfield.bind fun _ => Projects.pure _
  · exact Projects.throw _

theorem follows_deserializeTests (count : Nat) :
    Follows (deserializeTests count) (JCUnit.deserializeTests count) := by
  induction count with
  | zero => exact Projects.pure _
  | succ count ih =>
      apply follows_deserializeTest.bind
      intro test
      exact ih.bind fun _ => Projects.pure _

theorem follows_deserializeName : Follows deserializeName JCUnit.deserializeName := by
  apply (follows_orNull follows_bufReadUint32).bind
  intro nameLen
  apply follows_getBuf.bind
  intro buf
  split
  · exact Projects.throw _
  · exact (follows_bufTake nameLen).bind fun _ => Projects.pure _

/-- The listing decoder is the decoder. -/
theorem follows_deserializeTestSuiteM :
    Follows deserializeTestSuiteM JCUnit.deserializeTestSuiteM := by
  apply follows_deserializeName.bind
  intro name
  apply (follows_orNull follows_bufReadUint32).bind
  intro testsCount
  exact (follows_deserializeTests _).bind fun _ => Projects.pure _

end Projections

/-- A read as the decoder makes it: the check lets it through, and the position moves on. -/
def Reads (s : ReadBuffer) (size : UInt32) (t : ReadBuffer) : Prop :=
  exceeds s size = false ∧ t = { s with pos := s.pos + size }

/-- The program's reads go on where the listed ones have ended. -/
abbrev Steps {α : Type} (start : ReadBuffer) (x : TracedM α) : Prop :=
  Yields (fun _ s => ∃ last, Trail Reads start s.reads last)
    (fun s => Trail Reads start s.reads s.buf) x fun _ s => Trail Reads start s.reads s.buf

section Steps

variable {start : ReadBuffer} {α : Type}

theorem steps_pure (a : α) : Steps start (pure a) :=
  Yields.pure fun _ hs => hs

theorem steps_null : Steps start (throw .null : TracedM α) :=
  Yields.throw fun s hs => ⟨s.buf, hs⟩

/-- A read behind its check. -/
theorem steps_checked (size : UInt32) {other : TracedM α} {next : Bytes → TracedM α}
    (hother : Steps start other) (hnext : ∀ bytes, Steps start (next bytes)) :
    Steps start (do
      let buf ← getBuf
      if exceeds buf size then other else bufTake size >>= next) := by
  intro s hs
  have hget : getBuf s = .ok s.buf s := rfl
  rw [bind_of_ok hget]
  by_cases hexceeds : exceeds s.buf size = true
  · rw [if_pos hexceeds]
    exact hother s hs
  · rw [if_neg hexceeds]
    have htaken := hs.next ⟨eq_false_of_ne_true hexceeds, rfl⟩
    cases hrun : JCUnit.bufTake size s.buf with
    | ok bytes buf =>
        have hbuf : buf = { s.buf with pos := s.buf.pos + size } := by
          unfold JCUnit.bufTake at hrun
          split at hrun
          · cases hrun
            rfl
          · cases hrun
        have htraced : bufTake size s = .ok bytes
            ⟨buf, s.reads ++ [⟨s.buf, size, { s.buf with pos := s.buf.pos + size }⟩]⟩ := by
          unfold bufTake
          rw [hrun]
        rw [bind_of_ok htraced]
        apply hnext bytes
        rw [hbuf]
        exact htaken
    | error stop buf =>
        have htraced : bufTake size s = .error stop
            ⟨buf, s.reads ++ [⟨s.buf, size, { s.buf with pos := s.buf.pos + size }⟩]⟩ := by
          unfold bufTake
          rw [hrun]
        rw [bind_of_error htraced]
        exact ⟨_, htaken⟩

theorem steps_bufReadUint32 : Steps start bufReadUint32 := by
  have hread : Steps start (bufRead 4) :=
    steps_checked 4 (steps_pure none) fun bytes => steps_pure (some bytes)
  exact hread.bind fun _ => steps_pure _

theorem steps_bufReadStringField : Steps start bufReadStringField := by
  apply steps_bufReadUint32.bind
  intro len
  cases len with
  | none => exact steps_pure none
  | some len =>
      dsimp only
      split
      · exact steps_pure none
      split
      · exact steps_pure _
      · exact steps_checked len (steps_pure none) fun bytes => steps_pure (some bytes)

theorem steps_number : Steps start (orNull bufReadUint32) := by
  apply steps_bufReadUint32.bind
  intro value
  cases value with
  | none => exact steps_null
  | some value => exact steps_pure value

theorem steps_deserializeTest : Steps start deserializeTest := by
  have hfield : Steps start bufReadStringField := steps_bufReadStringField
  apply steps_number.bind
  intro kind
  apply steps_number.bind
  intro flags
  split
  · exact hfield.bind fun _ => steps_number.bind fun _ => hfield.bind fun _ => hfield.bind fun _ =>
      hfield.bind fun _ => hfield.bind fun _ => hfield.bind fun _ => hfield.bind fun _ =>
      hfield.bind fun _ => steps_pure _
  · exact steps_null

theorem steps_deserializeTests (count : Nat) : Steps start (deserializeTests count) := by
  induction count with
  | zero => exact steps_pure _
  | succ count ih =>
      apply steps_deserializeTest.bind
      intro test
      exact ih.bind fun _ => steps_pure _

theorem steps_deserializeTestSuiteM : Steps start deserializeTestSuiteM := by
  have hname : Steps start deserializeName := steps_number.bind fun len =>
    steps_checked len steps_null fun name => steps_pure (CString.ofBuffer name)
  apply hname.bind
  intro name
  apply steps_number.bind
  intro testsCount
  exact (steps_deserializeTests _).bind fun _ => steps_pure _

end Steps

end TracedBuffer

/-- The buffer that `cache_lookup` hands to the decoder. -/
def startBuffer (data : Bytes) : ReadBuffer := ⟨data, UInt32.ofNat data.length, 0⟩

/-- The reads that `deserialize_test_suite` makes of the data of an entry, up to its end or to
the first one that goes out of bounds. -/
def decoderReads (data : Bytes) : List ReadRecord :=
  match TracedBuffer.deserializeTestSuiteM ⟨startBuffer data, []⟩ with
  | .ok _ s => s.reads
  | .error _ s => s.reads

theorem decoderReads_trail (data : Bytes) :
    ∃ last, Trail TracedBuffer.Reads (startBuffer data) (decoderReads data) last := by
  have hrun := TracedBuffer.steps_deserializeTestSuiteM ⟨startBuffer data, []⟩ .start
  unfold decoderReads
  cases hdecode : TracedBuffer.deserializeTestSuiteM ⟨startBuffer data, []⟩ with
  | ok suite s =>
      rw [hdecode] at hrun
      exact ⟨s.buf, hrun⟩
  | error stop s =>
      rw [hdecode] at hrun
      exact hrun

/-- The read stays within the buffer of these data, and the position within its length; it does
not go back. -/
def ReadsInside (data : Bytes) (read : ReadRecord) : Prop :=
  read.before.data = data ∧ read.before.len.toNat = data.length ∧
    read.before.pos.toNat + read.action.toNat ≤ data.length ∧
    read.before.pos ≤ read.after.pos ∧ read.after.pos ≤ read.after.len

/-- Position and size add up to no more than 32 bits. -/
def SumFits (read : ReadRecord) : Prop :=
  read.before.pos.toNat + read.action.toNat < 2 ^ 32

/-- Every read of the decoder is inside the buffer and moves the position forward within it,
exactly if no sum of a position and a size wraps. -/
theorem decoder_reads_inside_iff {data : Bytes} (hdata : data.length < 2 ^ 32) :
    (∀ read ∈ decoderReads data, ReadsInside data read) ↔
      ∀ read ∈ decoderReads data, SumFits read := by
  obtain ⟨last, trail⟩ := decoderReads_trail data
  have hlen : (UInt32.ofNat data.length).toNat = data.length := toNat_ofNat_length hdata
  apply trail.forall_iff (I := fun buf => buf.data = data ∧ buf.len = UInt32.ofNat data.length ∧
    buf.pos.toNat ≤ data.length) _ _ ⟨rfl, rfl, Nat.zero_le _⟩
  · rintro buf size _ ⟨hbuf, hbuflen, hpos⟩ ⟨hfits, rfl⟩
    unfold exceeds at hfits
    have hfits := of_decide_eq_false hfits
    rw [gt_iff_lt, UInt32.lt_iff_toNat_lt, UInt32.toNat_add, hbuflen, hlen] at hfits
    have hbuflen' : buf.len.toNat = data.length := by rw [hbuflen, hlen]
    unfold ReadsInside SumFits
    simp only [UInt32.le_iff_toNat_le, UInt32.toNat_add, hbuf, hbuflen', true_and]
    omega
  · rintro buf size _ ⟨hbuf, hbuflen, hpos⟩ ⟨hfits, rfl⟩ hsum
    unfold exceeds at hfits
    have hfits := of_decide_eq_false hfits
    rw [gt_iff_lt, UInt32.lt_iff_toNat_lt, hbuflen, hlen] at hfits
    exact ⟨hbuf, hbuflen, Nat.le_of_not_lt hfits⟩

theorem decoder_reads_inside_greeting :
    decoderReads (serialized greetingSuite) ≠ [] ∧
      ∀ read ∈ decoderReads (serialized greetingSuite),
        ReadsInside (serialized greetingSuite) read := by
  constructor
  · decide +kernel
  · apply (decoder_reads_inside_iff (by decide +kernel)).mpr
    unfold SumFits
    decide +kernel

/-- A length of `2 ^ 32 - 1` for the name takes the sum back to 3. -/
theorem wrapped_length_read :
    ¬ ∀ read ∈ decoderReads [255, 255, 255, 255], ReadsInside [255, 255, 255, 255] read := by
  intro hall
  have hmem : ⟨⟨[255, 255, 255, 255], 4, 4⟩, 0xFFFFFFFF, ⟨[255, 255, 255, 255], 4, 3⟩⟩ ∈
      decoderReads [255, 255, 255, 255] := by decide +kernel
  obtain ⟨-, -, hinside, -⟩ := hall _ hmem
  revert hinside
  decide

end JCUnit
