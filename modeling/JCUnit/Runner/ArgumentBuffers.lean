import JCUnit.Foundation.Buffers
import JCUnit.Foundation.StateError
import JCUnit.Runner.ArgumentWords
import JCUnit.Runner.StaticStorage
import Mathlib.Data.List.Forall2

/-!
# The writes of the argument vector

`try_to_run_program` puts pointers into `args`, most of them into `extra_args_buf`, which it
fills piece by piece and which `strtok` then cuts in place. Here every write is one of its own,
and one that does not fit its array ends the program. Each of them fits.
-/

namespace JCUnit

open StateError Buffers Words Replacement

/-- What an entry of `args` points to. -/
inductive ArgPointer
  | program
  | filename
  | extra (offset : Nat)
deriving DecidableEq

structure ArgumentStorage where
  args : Buffer (Option ArgPointer) maxArgs
  extraArgsBuf : Buffer Byte extraArgsBufSize
deriving DecidableEq

abbrev ArgumentM := EStateM Halt ArgumentStorage

/-- `args[argc] = pointer`. -/
def setArg (argc : Nat) (pointer : Option ArgPointer) : ArgumentM Unit := do
  let s ← get
  if h : argc + [pointer].length ≤ maxArgs then
    set { s with args := s.args.write argc [pointer] h }
  else throw .undefined

/-- `memcpy(extra_args_buf + pos, bytes, n)`. -/
def copyTo (pos : Nat) (bytes : Bytes) : ArgumentM Unit := do
  let s ← get
  if h : pos + bytes.length ≤ extraArgsBufSize then
    set { s with extraArgsBuf := s.extraArgsBuf.write pos bytes h }
  else throw .undefined

/-- The copy of the file's name, if there is one. -/
def copyFilename (filename : Option CString) (pos : Nat) : ArgumentM Unit :=
  match filename with
  | some name => copyTo pos name.bytes
  | none => return ()

/-- The `{{file}}` loop and the copy of the tail, with the position `dst_pos` in the buffer. -/
def substitute (filename : Option CString) (src : Bytes) (dstPos : Nat) : ArgumentM Unit :=
  match _hfound : strstrIndex src filePlaceholder with
  | some found =>
      let filenameLen := ((filename.map CString.bytes).getD []).length
      if extraArgsBufSize ≤ dstPos + found + filenameLen then
        throw (fatalError (ascii "The args string is too long after " ++ filePlaceholder ++
          ascii " substitution (max 1023 bytes)!"))
      else do
        copyTo dstPos (src.take found)
        copyFilename filename (dstPos + found)
        substitute filename (src.drop (found + filePlaceholder.length))
          (dstPos + found + filenameLen)
  | none =>
      if extraArgsBufSize ≤ dstPos + src.length then
        throw (fatalError (ascii "The args string is too long after " ++ filePlaceholder ++
          ascii " substitution (max 1023 bytes)!"))
      else do
        copyTo dstPos src
        copyTo (dstPos + src.length) [0]
termination_by src.length
decreasing_by
  have hbound := strstrIndex_bound _hfound
  have hplaceholder : 0 < filePlaceholder.length := by decide
  rw [List.length_drop]
  omega

/-- `strtok` from a position in the buffer: where the token begins, and where the next call goes
on. A string that does not end in the buffer would be read beyond it. -/
def strtok (pos : Nat) : ArgumentM (Option (Nat × Nat)) := do
  let s ← get
  let behind := s.extraArgsBuf.contents.drop pos
  if 0 ∈ behind then
    let text := cstr behind
    let start := pos + (text.takeWhile isBlank).length
    match text.dropWhile isBlank with
    | [] => return none
    | b :: rest =>
        let stop := start + ((b :: rest).takeWhile fun b => !isBlank b).length
        match (b :: rest).dropWhile fun b => !isBlank b with
        | [] => return some (start, stop)
        | _ :: _ => do
            copyTo stop [0]
            return some (start, stop + 1)
  else throw .undefined

/-- The loop over the tokens, with the number of arguments so far. -/
def splitArgs (argc pos : Nat) : ArgumentM Nat := do
  match ← strtok pos with
  | none => return argc
  | some (token, next) =>
      if _hfull : maxArgs - 1 ≤ argc then throw tooManyArgs
      else do
        setArg argc (some (.extra token))
        splitArgs (argc + 1) next
termination_by maxArgs - argc

/-- The file's name as an argument of its own. -/
def passFilename (filename : Option CString) (argc : Nat) : ArgumentM Nat := do
  match filename with
  | some _ =>
      setArg argc (some .filename)
      return argc + 1
  | none => return argc

/-- The arguments behind the program; the result is their number with it. -/
def passArgs (filename extraArgs : Option CString) : ArgumentM Nat := do
  match extraArgs with
  | none => passFilename filename 1
  | some extra =>
      if strstr extra.bytes filePlaceholder then
        substitute filename extra.bytes 0
        splitArgs 1 0
      else
        let argc ← passFilename filename 1
        if extraArgsBufSize ≤ extra.bytes.length then
          throw (fatalError (ascii "The args string is too long (max 1023 bytes)!"))
        else
          copyTo 0 extra.bytes
          copyTo extra.bytes.length [0]
          splitArgs argc 0

def fillArgs (filename extraArgs : Option CString) : ArgumentM Unit := do
  setArg 0 (some .program)
  let argc ← passArgs filename extraArgs
  setArg argc none

section Reading

/-- The string that a pointer points to. -/
def ArgumentStorage.pointed (program : CString) (filename : Option CString)
    (s : ArgumentStorage) : ArgPointer → Bytes
  | .program => program.bytes
  | .filename => (filename.map CString.bytes).getD []
  | .extra offset => cstr (s.extraArgsBuf.contents.drop offset)

/-- The vector as `execv` reads it: the strings of the entries before the first `NULL`. -/
def ArgumentStorage.argv (program : CString) (filename : Option CString) (s : ArgumentStorage) :
    List Bytes :=
  ((s.args.contents.takeWhile Option.isSome).filterMap id).map (s.pointed program filename)

/-- A string in the buffer that is not empty and ends at `pos` at the latest. -/
structure EndsBy (s : ArgumentStorage) (pos offset : Nat) (word : Bytes) : Prop where
  nulFree : 0 ∉ word
  nonempty : word ≠ []
  ends : offset + word.length ≤ pos
  stored : (s.extraArgsBuf.contents.take (offset + word.length + 1)).drop offset = word ++ [0]

/-- An entry that is not `NULL` and points to a string, which is not in the part of the buffer
still to be cut. -/
def PointsTo (program : CString) (filename : Option CString) (s : ArgumentStorage) (pos : Nat)
    (entry : Option ArgPointer) (word : Bytes) : Prop :=
  (entry = some .program ∧ word = program.bytes) ∨
    (entry = some .filename ∧ filename.map CString.bytes = some word) ∨
    ∃ offset, entry = some (.extra offset) ∧ EndsBy s pos offset word

/-- The entries so far point to these strings. -/
def Entered (program : CString) (filename : Option CString) (s : ArgumentStorage) (pos : Nat)
    (args : List Bytes) : Prop :=
  List.Forall₂ (PointsTo program filename s pos) (s.args.contents.take args.length) args

variable {program : CString} {filename : Option CString} {s s' : ArgumentStorage} {pos pos' : Nat}

/-- What is written behind a string does not change it. -/
theorem EndsBy.kept {offset : Nat} {word : Bytes} (h : EndsBy s pos offset word) (hpos : pos ≤ pos')
    (hkept : s'.extraArgsBuf.contents.take (pos + 1) = s.extraArgsBuf.contents.take (pos + 1)) :
    EndsBy s' pos' offset word := by
  refine ⟨h.nulFree, h.nonempty, h.ends.trans hpos, ?_⟩
  have hshorter : ∀ contents : Bytes, contents.take (offset + word.length + 1) =
      (contents.take (pos + 1)).take (offset + word.length + 1) := by
    intro contents
    rw [List.take_take, Nat.min_eq_left (Nat.succ_le_succ h.ends)]
  rw [hshorter, hkept, ← hshorter, h.stored]

theorem EndsBy.cstr_eq {offset : Nat} {word : Bytes} (h : EndsBy s pos offset word) :
    cstr (s.extraArgsBuf.contents.drop offset) = word := by
  have hsplit : s.extraArgsBuf.contents.drop offset =
      word ++ 0 :: s.extraArgsBuf.contents.drop (offset + word.length + 1) := by
    rw [← List.take_append_drop (word.length + 1) (s.extraArgsBuf.contents.drop offset),
      List.take_drop, ← Nat.add_assoc, h.stored, List.drop_drop, ← Nat.add_assoc, List.append_assoc]
    rfl
  rw [hsplit, cstr, cstr_append h.nulFree]
  exact List.append_nil word

theorem PointsTo.kept {entry : Option ArgPointer} {word : Bytes}
    (h : PointsTo program filename s pos entry word) (hpos : pos ≤ pos')
    (hkept : s'.extraArgsBuf.contents.take (pos + 1) = s.extraArgsBuf.contents.take (pos + 1)) :
    PointsTo program filename s' pos' entry word := by
  obtain hprogram | hfilename | ⟨offset, hentry, hends⟩ := h
  · exact .inl hprogram
  · exact .inr (.inl hfilename)
  · exact .inr (.inr ⟨offset, hentry, hends.kept hpos hkept⟩)

theorem PointsTo.pointed_eq {entry : Option ArgPointer} {word : Bytes}
    (h : PointsTo program filename s pos entry word) :
    ∃ pointer, entry = some pointer ∧ s.pointed program filename pointer = word := by
  obtain ⟨rfl, rfl⟩ | ⟨rfl, hfilename⟩ | ⟨offset, rfl, hends⟩ := h
  · exact ⟨.program, rfl, rfl⟩
  · refine ⟨.filename, rfl, ?_⟩
    rw [ArgumentStorage.pointed, hfilename]
    rfl
  · exact ⟨.extra offset, rfl, hends.cstr_eq⟩

/-- As long as nothing has been cut, no entry points into the buffer. -/
theorem PointsTo.refilled {entry : Option ArgPointer} {word : Bytes}
    (h : PointsTo program filename s 0 entry word) : PointsTo program filename s' 0 entry word := by
  obtain hprogram | hfilename | ⟨offset, -, hends⟩ := h
  · exact .inl hprogram
  · exact .inr (.inl hfilename)
  · have hlength := Nat.eq_zero_of_le_zero (Nat.le_of_add_left_le hends.ends)
    exact absurd (List.length_eq_zero_iff.mp hlength) hends.nonempty

theorem forall₂_pointsTo_strings {entries : List (Option ArgPointer)} {args : List Bytes}
    (h : List.Forall₂ (PointsTo program filename s pos) entries args) :
    (∀ entry ∈ entries, entry.isSome = true) ∧
      (entries.filterMap id).map (s.pointed program filename) = args := by
  induction h with
  | nil => exact ⟨nofun, rfl⟩
  | cons hentry _ ih =>
      obtain ⟨pointer, rfl, hpointed⟩ := hentry.pointed_eq
      constructor
      · exact List.forall_mem_cons.mpr ⟨rfl, ih.1⟩
      · rw [← hpointed, ← ih.2]
        rfl

/-- With its `NULL` behind them, the vector has the strings of its entries. -/
theorem Entered.argv_eq {args : List Bytes} (h : Entered program filename s pos args)
    (hnull : s.args.contents[args.length]? = some none) : s.argv program filename = args := by
  obtain ⟨hsome, hstrings⟩ := forall₂_pointsTo_strings h
  have htaken : s.args.contents.takeWhile Option.isSome = s.args.contents.take args.length := by
    obtain ⟨hlength, hnone⟩ := List.getElem?_eq_some_iff.mp hnull
    conv_lhs => rw [← List.take_append_drop args.length s.args.contents,
      List.drop_eq_getElem_cons hlength, hnone]
    rw [List.takeWhile_append_of_pos hsome, List.takeWhile_cons_of_neg Bool.false_ne_true,
      List.append_nil]
  rw [ArgumentStorage.argv, htaken, hstrings]

end Reading

section Writing

variable {program : CString} {filename : Option CString} {s : ArgumentStorage} {pos : Nat}

theorem setArg_run {argc : Nat} {pointer : Option ArgPointer} (h : argc + [pointer].length ≤ maxArgs) :
    setArg argc pointer s = .ok () { s with args := s.args.write argc [pointer] h } := by
  have hget : (get : ArgumentM ArgumentStorage) s = .ok s s := rfl
  rw [setArg, bind_of_ok hget, dif_pos h]
  rfl

theorem copyTo_run {bytes : Bytes} (h : pos + bytes.length ≤ extraArgsBufSize) :
    copyTo pos bytes s =
      .ok () { s with extraArgsBuf := s.extraArgsBuf.write pos bytes h } := by
  have hget : (get : ArgumentM ArgumentStorage) s = .ok s s := rfl
  rw [copyTo, bind_of_ok hget, dif_pos h]
  rfl

/-- A pointer to a string is entered behind the others. -/
theorem Entered.push {args : List Bytes} (h : Entered program filename s pos args)
    (hroom : args.length < maxArgs) {pointer : ArgPointer} {word : Bytes}
    (hpoints : PointsTo program filename s pos (some pointer) word) :
    ∃ s', setArg args.length (some pointer) s = .ok () s' ∧ s'.extraArgsBuf = s.extraArgsBuf ∧
      Entered program filename s' pos (args ++ [word]) := by
  have hfits : args.length + [some pointer].length ≤ maxArgs := hroom
  have hlength : (args ++ [word]).length = args.length + [some pointer].length := by
    rw [List.length_append]
    rfl
  refine ⟨_, setArg_run hfits, rfl, ?_⟩
  unfold Entered
  rw [hlength, s.args.take_write hfits]
  apply List.rel_append
  · exact h.imp fun entry word hentry => hentry.kept (Nat.le_refl _) rfl
  · exact .cons (hpoints.kept (Nat.le_refl _) rfl) .nil

/-- The text that is still to be cut. -/
def Uncut (s : ArgumentStorage) (pos : Nat) (rest : Bytes) : Prop :=
  0 ∉ rest ∧ ∃ behind, s.extraArgsBuf.contents.drop pos = rest ++ 0 :: behind

theorem Uncut.cstr_eq {rest : Bytes} (h : Uncut s pos rest) :
    0 ∈ s.extraArgsBuf.contents.drop pos ∧ cstr (s.extraArgsBuf.contents.drop pos) = rest := by
  obtain ⟨hnul, behind, hbehind⟩ := h
  rw [hbehind]
  constructor
  · exact List.mem_append_right rest List.mem_cons_self
  · rw [cstr, cstr_append hnul]
    exact List.append_nil rest

theorem strtok_none {rest : Bytes} (h : Uncut s pos rest) (hwords : words isBlank rest = []) :
    strtok pos s = .ok none s := by
  obtain ⟨hends, htext⟩ := h.cstr_eq
  have hget : (get : ArgumentM ArgumentStorage) s = .ok s s := rfl
  rw [strtok, bind_of_ok hget]
  dsimp only
  rw [if_pos hends, htext, dropWhile_of_words_nil hwords]
  rfl

/-- Where `strtok` finds the first word, and that it cuts the text if there is more behind it. -/
theorem strtok_run {rest word after : Bytes} (h : Uncut s pos rest)
    (hfirst : FirstWord isBlank rest word after) :
    strtok pos s =
      (if after = [] then
        pure (some (pos + (rest.takeWhile isBlank).length,
          pos + (rest.takeWhile isBlank).length + word.length))
      else do
        copyTo (pos + (rest.takeWhile isBlank).length + word.length) [0]
        return some (pos + (rest.takeWhile isBlank).length,
          pos + (rest.takeWhile isBlank).length + word.length + 1) : ArgumentM _) s := by
  obtain ⟨hends, htext⟩ := h.cstr_eq
  obtain ⟨b, word, rfl⟩ := List.exists_cons_of_ne_nil hfirst.nonempty
  have htaken := hfirst.takeWhile_eq
  have hdropped := hfirst.dropWhile_eq
  have hget : (get : ArgumentM ArgumentStorage) s = .ok s s := rfl
  rw [strtok, bind_of_ok hget]
  dsimp only
  rw [if_pos hends, htext, hfirst.dropped_eq, List.cons_append]
  dsimp only
  rw [List.cons_append] at htaken hdropped
  rw [htaken, hdropped]
  cases after with
  | nil => rfl
  | cons c after => rfl

theorem take_drop_front (contents : Bytes) (start : Nat) {front behind : Bytes}
    (h : contents.drop start = front ++ behind) :
    (contents.take (start + front.length)).drop start = front := by
  rw [← List.take_drop, h, List.take_left]

/-- A call of `strtok` gives the first word, with its end where the next call goes on. -/
theorem strtok_some {rest word : Bytes} {others : List Bytes} (h : Uncut s pos rest)
    (hwords : words isBlank rest = word :: others) :
    ∃ token next s', strtok pos s = .ok (some (token, next)) s' ∧ s'.args = s.args ∧
      s'.extraArgsBuf.contents.take (pos + 1) = s.extraArgsBuf.contents.take (pos + 1) ∧
      pos ≤ next ∧ EndsBy s' next token word ∧
      ∃ rest', Uncut s' next rest' ∧ words isBlank rest' = others := by
  obtain ⟨after, hfirst, hothers⟩ := exists_firstWord hwords
  have hrun := strtok_run h hfirst
  obtain ⟨hnul, behind, hbehind⟩ := h
  have hrest : rest = rest.takeWhile isBlank ++ (word ++ after) := by
    rw [← hfirst.dropped_eq, List.takeWhile_append_dropWhile]
  generalize rest.takeWhile isBlank = front at hrun hrest
  subst hrest
  generalize hstart : pos + front.length = start at hrun
  have hpositive : 0 < word.length := List.length_pos_iff.mpr hfirst.nonempty
  have hword : s.extraArgsBuf.contents.drop start = word ++ (after ++ 0 :: behind) := by
    rw [← hstart, ← List.drop_drop, hbehind, List.append_assoc, List.append_assoc, List.drop_left]
  have hafter : s.extraArgsBuf.contents.drop (start + word.length) = after ++ 0 :: behind := by
    rw [← List.drop_drop, hword, List.drop_left]
  rw [List.mem_append, List.mem_append, not_or, not_or] at hnul
  obtain ⟨-, hnulWord, hnulAfter⟩ := hnul
  cases after with
  | nil =>
      refine ⟨start, start + word.length, s, hrun, rfl, rfl, by omega, ?_, [], ?_, hothers⟩
      · refine ⟨hnulWord, hfirst.nonempty, Nat.le_refl _, ?_⟩
        have hwhole : s.extraArgsBuf.contents.drop start = (word ++ [0]) ++ behind := by
          rw [hword, List.append_assoc]
          rfl
        have hends := take_drop_front s.extraArgsBuf.contents start hwhole
        rwa [List.length_append] at hends
      · exact ⟨List.not_mem_nil, behind, hafter⟩
  | cons c after =>
      have hlength := congrArg List.length hafter
      rw [List.length_drop, s.extraArgsBuf.length_eq, List.cons_append, List.length_cons] at hlength
      have hroom : start + word.length + [(0 : Byte)].length ≤ extraArgsBufSize := by
        rw [List.length_singleton]
        omega
      rw [if_neg (List.cons_ne_nil c after), bind_of_ok (copyTo_run hroom)] at hrun
      refine ⟨start, start + word.length + 1, _, hrun, rfl, ?_, by omega, ?_, after, ?_, hothers⟩
      · exact Buffer.take_write_of_le hroom (by omega)
      · refine ⟨hnulWord, hfirst.nonempty, Nat.le_succ _, ?_⟩
        have hwritten := s.extraArgsBuf.take_write hroom
        rw [List.length_singleton] at hwritten
        dsimp only
        rw [hwritten, List.drop_append_of_le_length, take_drop_front _ _ hword]
        rw [List.length_take, s.extraArgsBuf.length_eq]
        omega
      · refine ⟨fun hmem => hnulAfter (List.mem_cons_of_mem c hmem), behind, ?_⟩
        have hkept := s.extraArgsBuf.drop_write hroom
        rw [List.length_singleton] at hkept
        dsimp only
        rw [hkept, ← List.drop_drop, hafter]
        rfl

/-- The loop ends as `addArg` for the words of the text does, with a pointer to each of them. -/
theorem splitArgs_endsAs {tokens args : List Bytes} {rest : Bytes}
    (hargs : args.length < maxArgs) (h : Entered program filename s pos args)
    (huncut : Uncut s pos rest) (hwords : words isBlank rest = tokens) :
    EndsAs (splitArgs args.length pos) s (tokens.foldlM addArg args) fun args' argc s' =>
      argc = args'.length ∧ ∃ pos', Entered program filename s' pos' args' := by
  induction tokens generalizing args s pos rest with
  | nil =>
      have hrun : splitArgs args.length pos s = .ok args.length s := by
        rw [splitArgs, bind_of_ok (strtok_none huncut hwords)]
        rfl
      exact .ok hrun ⟨rfl, pos, h⟩
  | cons word tokens ih =>
      obtain ⟨token, next, s₁, hstrtok, hsame, hkept, hnext, hends, rest', huncut', hwords'⟩ :=
        strtok_some huncut hwords
      have hentered : Entered program filename s₁ next args := by
        unfold Entered
        rw [hsame]
        exact h.imp fun entry word hpoints => hpoints.kept hnext hkept
      rw [splitArgs, List.foldlM_cons, addArg]
      apply EndsAs.after hstrtok
      dsimp only
      by_cases hfull : maxArgs - 1 ≤ args.length
      · rw [dif_pos hfull, if_pos hfull]
        exact .error rfl
      · rw [dif_neg hfull, if_neg hfull]
        obtain ⟨s₂, hset, hbuffer, hpushed⟩ :=
          hentered.push hargs (.inr (.inr ⟨token, rfl, hends⟩))
        apply EndsAs.after hset
        have hroom : (args ++ [word]).length < maxArgs := by
          rw [List.length_append, List.length_singleton]
          omega
        have huncut₂ : Uncut s₂ next rest' := by
          unfold Uncut
          rw [hbuffer]
          exact huncut'
        have hrun := ih hroom hpushed huncut₂ hwords'
        rw [List.length_append, List.length_singleton] at hrun
        exact hrun

/-- The buffer begins with these bytes. -/
def BeginsWith (s : ArgumentStorage) (front : Bytes) : Prop :=
  s.extraArgsBuf.contents.take front.length = front

theorem copyTo_appends {front bytes : Bytes} (h : BeginsWith s front)
    (hroom : front.length + bytes.length ≤ extraArgsBufSize) :
    ∃ s', copyTo front.length bytes s = .ok () s' ∧ s'.args = s.args ∧
      BeginsWith s' (front ++ bytes) := by
  refine ⟨_, copyTo_run hroom, rfl, ?_⟩
  unfold BeginsWith
  rw [List.length_append, s.extraArgsBuf.take_write hroom, h]

theorem substitute_of_some {src : Bytes} {found : Nat}
    (h : strstrIndex src filePlaceholder = some found) :
    substitute filename src pos =
      if extraArgsBufSize ≤ pos + found + ((filename.map CString.bytes).getD []).length then
        throw (fatalError (ascii "The args string is too long after " ++ filePlaceholder ++
          ascii " substitution (max 1023 bytes)!"))
      else (do
        copyTo pos (src.take found)
        copyFilename filename (pos + found)
        substitute filename (src.drop (found + filePlaceholder.length))
          (pos + found + ((filename.map CString.bytes).getD []).length)) := by
  rw [substitute]
  split
  · rename_i other hother
    rw [h] at hother
    cases hother
    rfl
  · rename_i hnone
    rw [h] at hnone
    cases hnone

theorem substitute_of_none {src : Bytes} (h : strstrIndex src filePlaceholder = none) :
    substitute filename src pos =
      if extraArgsBufSize ≤ pos + src.length then
        throw (fatalError (ascii "The args string is too long after " ++ filePlaceholder ++
          ascii " substitution (max 1023 bytes)!"))
      else (do
        copyTo pos src
        copyTo (pos + src.length) [0]) := by
  rw [substitute]
  split
  · rename_i other hother
    rw [h] at hother
    cases hother
  · rfl

/-- What is in front of a placeholder is copied, and the file's name behind it. -/
theorem copyTo_placeholder (filename : Option CString) {src dst : Bytes} {found : Nat}
    (h : BeginsWith s dst) (hfound : found ≤ src.length)
    (hroom : dst.length + found + ((filename.map CString.bytes).getD []).length < extraArgsBufSize) :
    ∃ s₁ s₂, copyTo dst.length (src.take found) s = .ok () s₁ ∧
      copyFilename filename (dst.length + found) s₁ = .ok () s₂ ∧ s₂.args = s.args ∧
      BeginsWith s₂ (dst ++ src.take found ++ (filename.map CString.bytes).getD []) := by
  have hlength : (dst ++ src.take found).length = dst.length + found := by
    rw [List.length_append, List.length_take, Nat.min_eq_left hfound]
  have hfirst : dst.length + (src.take found).length ≤ extraArgsBufSize := by
    rw [← List.length_append, hlength]
    omega
  obtain ⟨s₁, hrun₁, hargs₁, hbegins₁⟩ := copyTo_appends h hfirst
  cases filename with
  | none =>
      refine ⟨s₁, s₁, hrun₁, rfl, hargs₁, ?_⟩
      rw [Option.map_none, Option.getD_none, List.append_nil]
      exact hbegins₁
  | some name =>
      have hsecond : (dst ++ src.take found).length + name.bytes.length ≤ extraArgsBufSize := by
        rw [hlength]
        exact Nat.le_of_lt hroom
      obtain ⟨s₂, hrun₂, hargs₂, hbegins₂⟩ := copyTo_appends hbegins₁ hsecond
      rw [hlength] at hrun₂
      exact ⟨s₁, s₂, hrun₁, hrun₂, hargs₂.trans hargs₁, hbegins₂⟩

/-- A text and its NUL are copied behind what the buffer begins with. -/
theorem copyTo_terminated {src dst : Bytes} (h : BeginsWith s dst)
    (hroom : dst.length + src.length < extraArgsBufSize) :
    ∃ s₁ s₂, copyTo dst.length src s = .ok () s₁ ∧
      copyTo (dst.length + src.length) [0] s₁ = .ok () s₂ ∧ s₂.args = s.args ∧
      BeginsWith s₂ (dst ++ src ++ [0]) := by
  obtain ⟨s₁, hrun₁, hargs₁, hbegins₁⟩ := copyTo_appends h (Nat.le_of_lt hroom)
  have hlast : (dst ++ src).length + [(0 : Byte)].length ≤ extraArgsBufSize := by
    rw [List.length_append]
    exact hroom
  obtain ⟨s₂, hrun₂, hargs₂, hbegins₂⟩ := copyTo_appends hbegins₁ hlast
  rw [List.length_append] at hrun₂
  exact ⟨s₁, s₂, hrun₁, hrun₂, hargs₂.trans hargs₁, hbegins₂⟩

/-- The loop ends as the one on lists does, with its result and a NUL in the buffer. -/
theorem substitute_endsAs (filename : Option CString) {src dst : Bytes} (h : BeginsWith s dst) :
    EndsAs (substitute filename src dst.length) s
      (substituteLoop ((filename.map CString.bytes).getD []) src dst) fun text _ s' =>
        s'.args = s.args ∧ BeginsWith s' (text ++ [0]) := by
  induction src, dst using substituteLoop.induct ((filename.map CString.bytes).getD [])
    generalizing s with
  | case1 src dst found hfound hlong =>
      rw [substituteLoop_of_some hfound, substitute_of_some hfound, if_pos hlong, if_pos hlong]
      exact .error rfl
  | case2 src dst found hfound hshort ih =>
      rw [substituteLoop_of_some hfound, substitute_of_some hfound, if_neg hshort, if_neg hshort]
      have hbound := Nat.le_of_add_right_le (strstrIndex_bound hfound)
      obtain ⟨s₁, s₂, hfirst, hsecond, hargs, hbegins⟩ :=
        copyTo_placeholder filename h hbound (Nat.not_le.mp hshort)
      apply EndsAs.after hfirst
      apply EndsAs.after hsecond
      have hrun := ih hbegins
      rw [List.length_append, List.length_append, List.length_take, Nat.min_eq_left hbound,
        hargs] at hrun
      exact hrun
  | case3 src dst hfound hlong =>
      rw [substituteLoop_of_none hfound, substitute_of_none hfound, if_pos hlong, if_pos hlong]
      exact .error rfl
  | case4 src dst hfound hshort =>
      rw [substituteLoop_of_none hfound, substitute_of_none hfound, if_neg hshort, if_neg hshort]
      obtain ⟨s₁, s₂, hfirst, hsecond, hargs, hbegins⟩ := copyTo_terminated h (Nat.not_le.mp hshort)
      apply EndsAs.after hfirst
      exact .ok hsecond ⟨hargs, hbegins⟩

theorem BeginsWith.uncut {text : Bytes} (h : BeginsWith s (text ++ [0])) (hnul : 0 ∉ text) :
    Uncut s 0 text := by
  refine ⟨hnul, s.extraArgsBuf.contents.drop (text ++ [0]).length, ?_⟩
  have hsplit := List.take_append_drop (text ++ [0]).length s.extraArgsBuf.contents
  rw [h, List.append_assoc] at hsplit
  exact hsplit.symm

theorem passFilename_run {args : List Bytes} (h : Entered program filename s pos args)
    (hroom : args.length < maxArgs) :
    ∃ s', passFilename filename args.length s =
        .ok (args ++ (filename.map CString.bytes).toList).length s' ∧
      s'.extraArgsBuf = s.extraArgsBuf ∧
      Entered program filename s' pos (args ++ (filename.map CString.bytes).toList) := by
  cases filename with
  | none =>
      rw [Option.map_none, Option.toList_none, List.append_nil]
      exact ⟨s, rfl, rfl, h⟩
  | some name =>
      obtain ⟨s', hset, hbuffer, hentered⟩ := h.push hroom (.inr (.inl ⟨rfl, rfl⟩))
      refine ⟨s', ?_, hbuffer, hentered⟩
      rw [passFilename, bind_of_ok hset, List.length_append]
      rfl

/-- The `NULL` is put behind the last pointer. -/
theorem Entered.finish {args : List Bytes} (h : Entered program filename s pos args)
    (hroom : args.length < maxArgs) :
    ∃ s', setArg args.length none s = .ok () s' ∧
      s'.args.contents[args.length]? = some none ∧ s'.argv program filename = args := by
  have hfits : args.length + [(none : Option ArgPointer)].length ≤ maxArgs := hroom
  have hnull : (s.args.write args.length [none] hfits).contents[args.length]? = some none := by
    have htaken := s.args.take_write hfits
    have hlength : (s.args.contents.take args.length).length = args.length := by
      rw [List.length_take, s.args.length_eq, Nat.min_eq_left (Nat.le_of_lt hroom)]
    rw [← List.getElem?_take_of_lt (Nat.lt_succ_self args.length)]
    change (List.take (args.length + [(none : Option ArgPointer)].length) _)[args.length]? = _
    rw [htaken, List.getElem?_append_right (Nat.le_of_eq hlength), hlength, Nat.sub_self]
    rfl
  refine ⟨_, setArg_run hfits, hnull, ?_⟩
  have hentered : Entered program filename
      { s with args := s.args.write args.length [none] hfits } pos args := by
    unfold Entered
    rw [s.args.take_write_of_le hfits (Nat.le_refl _)]
    exact h.imp fun entry word hentry => hentry.kept (Nat.le_refl _) rfl
  exact hentered.argv_eq hnull

/-- A text that has been put into the buffer is split into the arguments behind the first. -/
theorem splitArgs_filled {args : List Bytes} {text : Bytes} {s₁ : ArgumentStorage}
    (hargs : args.length < maxArgs) (h : Entered program filename s 0 args)
    (hsame : s₁.args = s.args) (hwritten : BeginsWith s₁ (text ++ [0])) (hnul : 0 ∉ text) :
    EndsAs (splitArgs args.length 0) s₁ ((strtokAll text).foldlM addArg args) fun args' argc s' =>
      argc = args'.length ∧ ∃ pos, Entered program filename s' pos args' := by
  have hentered : Entered program filename s₁ 0 args := by
    unfold Entered
    rw [hsame]
    exact h.imp fun entry word hpoints => hpoints.refilled
  rw [strtokAll_eq]
  exact splitArgs_endsAs hargs hentered (hwritten.uncut hnul) rfl

/-- Each of the branches ends as `buildArgs` does, with pointers to its arguments. -/
theorem passArgs_endsAs (filename extraArgs : Option CString)
    (h : Entered program filename s 0 [program.bytes]) :
    EndsAs (passArgs filename extraArgs) s (buildArgs program filename extraArgs)
      fun args argc s' => argc = args.length ∧ ∃ pos, Entered program filename s' pos args := by
  have hone : [program.bytes].length < maxArgs := length_programAndFile program none
  cases extraArgs with
  | none =>
      obtain ⟨s', hpass, -, hentered⟩ := passFilename_run h hone
      exact .ok hpass ⟨rfl, 0, hentered⟩
  | some extra =>
      have hbegins : ∀ s : ArgumentStorage, BeginsWith s [] := fun _ => rfl
      unfold passArgs buildArgs
      dsimp only
      split
      · apply EndsAs.bind (substitute_endsAs filename (hbegins s))
        rintro text _ s₁ htext ⟨hsame, hwritten⟩
        have hfilename : 0 ∉ (filename.map CString.bytes).getD [] := by
          cases filename with
          | none => exact List.not_mem_nil
          | some name => exact name.nulFree
        obtain ⟨hnul, -⟩ :=
          Static.substituteLoop_fits hfilename extra.nulFree List.not_mem_nil htext
        exact splitArgs_filled hone h hsame hwritten hnul
      · obtain ⟨s₁, hpass, -, hentered⟩ := passFilename_run h hone
        apply EndsAs.after hpass
        split
        · exact .error rfl
        · rename_i hshort
          have hroom : ([] : Bytes).length + extra.bytes.length < extraArgsBufSize := by
            rw [List.length_nil, Nat.zero_add]
            exact Nat.not_le.mp hshort
          obtain ⟨s₂, s₃, hcopy, hnul, hsame, hwritten⟩ := copyTo_terminated (hbegins s₁) hroom
          rw [List.length_nil, Nat.zero_add] at hnul
          apply EndsAs.after hcopy
          apply EndsAs.after hnul
          have hstart := length_programAndFile program filename
          exact splitArgs_filled hstart hentered hsame hwritten extra.nulFree

/-- `fillArgs` ends as `buildArgs` does, and leaves its arguments in the two arrays. -/
theorem fillArgs_endsAs (program : CString) (filename extraArgs : Option CString)
    (s : ArgumentStorage) :
    EndsAs (fillArgs filename extraArgs) s (buildArgs program filename extraArgs) fun args _ s' =>
      s'.args.contents[args.length]? = some none ∧ s'.argv program filename = args := by
  have hempty : Entered program filename s 0 [] := .nil
  obtain ⟨s₁, hset, -, hprogram⟩ := hempty.push (by decide) (.inl ⟨rfl, rfl⟩)
  apply EndsAs.after hset
  rw [← bind_pure (buildArgs program filename extraArgs)]
  apply EndsAs.bind (passArgs_endsAs filename extraArgs hprogram)
  rintro args argc s₂ hargs ⟨rfl, pos, hentered⟩
  have hroom : args.length < maxArgs := length_buildArgs hargs
  obtain ⟨s₃, hnull, hstored, hargv⟩ := hentered.finish hroom
  exact .ok hnull ⟨hstored, hargv⟩

end Writing

theorem argsTooLong_ne_tooManyArgs (extraArgs : Option CString) :
    argsTooLong extraArgs ≠ tooManyArgs := by
  unfold argsTooLong
  split
  · decide
  · decide

theorem argsTooLong_ne_undefined (extraArgs : Option CString) :
    argsTooLong extraArgs ≠ .undefined := by
  unfold argsTooLong fatalError
  split
  · exact nofun
  · exact nofun

/-- The two fatal errors, the vector that is built otherwise, and that no write is out of
bounds. -/
theorem fillArgs_exact (program : CString) (filename extraArgs : Option CString)
    (s : ArgumentStorage) :
    ((∃ s', fillArgs filename extraArgs s = .error (argsTooLong extraArgs) s') ↔
      extraArgsBufSize ≤ (expandedArgs filename extraArgs).length) ∧
    ((∃ s', fillArgs filename extraArgs s = .error tooManyArgs s') ↔
      (expandedArgs filename extraArgs).length < extraArgsBufSize ∧
        maxArgs - 1 < (exactArgs program filename extraArgs).length) ∧
    ((expandedArgs filename extraArgs).length < extraArgsBufSize →
      (exactArgs program filename extraArgs).length ≤ maxArgs - 1 →
        ∃ s', fillArgs filename extraArgs s = .ok () s' ∧
          s'.argv program filename = exactArgs program filename extraArgs ∧
          s'.args.contents[(exactArgs program filename extraArgs).length]? = some none) ∧
    ∀ s', fillArgs filename extraArgs s ≠ .error .undefined s' := by
  have hmax : maxArgs = 32 := rfl
  have hdifferent := argsTooLong_ne_tooManyArgs extraArgs
  have hends := fillArgs_endsAs program filename extraArgs s
  rw [buildArgs_eq] at hends
  by_cases hlong : extraArgsBufSize ≤ (expandedArgs filename extraArgs).length
  · rw [if_pos hlong] at hends
    obtain ⟨s', hrun⟩ := hends.1 _ rfl
    rw [hrun]
    refine ⟨iff_of_true ⟨s', rfl⟩ hlong, iff_of_false ?_ ?_, ?_, ?_⟩
    · rintro ⟨s'', h⟩
      exact hdifferent (EStateM.Result.error.inj h).1
    · rintro ⟨hshort, -⟩
      exact Nat.not_lt.mpr hlong hshort
    · intro hshort
      exact absurd hshort (Nat.not_lt.mpr hlong)
    · intro s'' h
      exact argsTooLong_ne_undefined extraArgs (EStateM.Result.error.inj h).1
  rw [if_neg hlong] at hends
  by_cases hmany : maxArgs ≤ (exactArgs program filename extraArgs).length
  · rw [if_pos hmany] at hends
    obtain ⟨s', hrun⟩ := hends.1 _ rfl
    rw [hrun]
    refine ⟨iff_of_false ?_ hlong, iff_of_true ⟨s', rfl⟩ ⟨Nat.not_le.mp hlong, by omega⟩, ?_, ?_⟩
    · rintro ⟨s'', h⟩
      exact hdifferent (EStateM.Result.error.inj h).1.symm
    · intro _ hfew
      omega
    · intro s'' h
      cases h
  · rw [if_neg hmany] at hends
    obtain ⟨_, s', hrun, hnull, hargv⟩ := hends.2 _ rfl
    rw [hrun]
    refine ⟨iff_of_false nofun hlong, iff_of_false nofun ?_, ?_, nofun⟩
    · rintro ⟨-, hlarge⟩
      omega
    · intro _ _
      exact ⟨s', rfl, hargv, hnull⟩

end JCUnit
