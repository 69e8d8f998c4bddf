import JCUnit.Foundation.LevelOrder
import JCUnit.Text.FatalError

/-!
# Paths, directories and the file system below them

A file system is what the calls of the program can see of one: a tree of directories, which does
not change while the program looks for its sources, and the answers of `realpath`. Everything
that is listed can be reached by its path, and every directory can be read.
-/

namespace JCUnit

open LevelOrder

def pathSeparator : Byte := 47

/-- A name in a directory. -/
@[ext] structure FileName where
  bytes : Bytes
  nulFree : 0 ∉ bytes
  unbroken : pathSeparator ∉ bytes
  nonempty : bytes ≠ []

instance : DecidableEq FileName := fun a b =>
  decidable_of_iff (a.bytes = b.bytes) FileName.ext_iff.symm

/-- `d_type`, as far as the program tells the types apart. -/
inductive EntryType
  | directory
  | regular
  | other
deriving DecidableEq

structure Dirent where
  name : FileName
  type : EntryType
deriving DecidableEq

/-- The entries `.` and `..` of a directory. -/
def Dirent.isDots (entry : Dirent) : Bool :=
  entry.name.bytes == ascii "." || entry.name.bytes == ascii ".."

/-- The entry is a directory to go down into. -/
def Dirent.isSubdirectory (entry : Dirent) : Bool :=
  entry.type = .directory && !entry.isDots

def Dirent.isRegular (entry : Dirent) : Bool :=
  entry.type = .regular

/-- Where something is: the names on the way from the root directory. -/
abbrev Location := List FileName

/-- `get_entry_path`, with the separator between the two. -/
def getEntryPath (path : CString) (name : FileName) : CString where
  bytes := path.bytes ++ pathSeparator :: name.bytes
  nulFree := by
    have hseparator : (0 : Byte) ≠ pathSeparator := by decide
    simp [path.nulFree, name.nulFree, hseparator]

/-- The path that `realpath` gives for a location. -/
def pathOf (location : Location) : CString :=
  if location = [] then ⟨[pathSeparator], by decide⟩
  else location.foldl getEntryPath ⟨[], List.not_mem_nil⟩

/-- The path that a walk from one location has for what it finds this far below. -/
def walkPath (start below : Location) : CString :=
  below.foldl getEntryPath (pathOf start)

def FileName.ofBytes (bytes : Bytes) : Option FileName :=
  if h : 0 ∉ bytes ∧ pathSeparator ∉ bytes ∧ bytes ≠ [] then some ⟨bytes, h.1, h.2.1, h.2.2⟩
  else none

/-- The location of an absolute path without symbolic links and dots. Separators that follow
one another count as one. -/
def locate (path : CString) : Location :=
  (path.bytes.splitOn pathSeparator).filterMap FileName.ofBytes

inductive Node
  | directory (entries : List Dirent)
  | file

def Node.entries : Node → List Dirent
  | .directory entries => entries
  | .file => []

structure FileSystem where
  node : Location → Option Node
  realpath : CString → Option CString
  depth : Nat
  /-- The tree is finite. -/
  bounded : ∀ location, (node location).isSome → location.length ≤ depth
  /-- `d_type` is right, and what is listed is there. -/
  subdirectory : ∀ location entries entry, node location = some (.directory entries) →
    entry ∈ entries → entry.isSubdirectory →
      ∃ below, node (location ++ [entry.name]) = some (.directory below)
  regular : ∀ location entries entry, node location = some (.directory entries) →
    entry ∈ entries → entry.isRegular → node (location ++ [entry.name]) = some .file
  /-- No entry is listed twice. -/
  once : ∀ location entries, node location = some (.directory entries) →
    (entries.map Dirent.name).Nodup
  /-- `realpath` gives the path of something that is there. -/
  resolved : ∀ path resolved, realpath path = some resolved →
    ∃ location, resolved = pathOf location ∧ (node location).isSome

section Calls

variable (fs : FileSystem)

def FileSystem.stat (path : CString) : Option Node :=
  fs.node (locate path)

/-- `opendir`, and what `readdir` gives up to its `NULL`. -/
def FileSystem.opendir (path : CString) : Option (List Dirent) :=
  match fs.stat path with
  | some (.directory entries) => some entries
  | _ => none

def fsIsDir (path : CString) : Bool :=
  (fs.opendir path).isSome

def fsIsFileExists (path : CString) : Bool :=
  (fs.stat path).isSome

end Calls

/-- `strrchr`: the string from the last occurrence of the byte on. -/
def strrchr (c : Byte) : Bytes → Option Bytes
  | [] => none
  | b :: rest =>
      match strrchr c rest with
      | some found => some found
      | none => if b = c then some (b :: rest) else none

def chPoint : Byte := 46

/-- `extension` is `NULL`, or the extension with its point. -/
def fsCheckExtension (path : CString) (extension : Option CString) : Bool :=
  match strrchr chPoint path.bytes, extension with
  | none, none => true
  | some point, some extension => extension.bytes == point
  | _, _ => false

/-- A callback of `fs_read_dir` over its context. It says whether to go on. The flag that it
gives back decides about a local pointer of the caller only. -/
abbrev FsReadDirFunc (σ : Type) := CString → σ → Except Halt (Bool × σ)

structure ReadDirState (σ : Type) where
  queue : List CString
  requestToQuit : Bool
  context : σ

variable {σ : Type}

/-- A round of the loop over the entries of one directory. -/
def readEntry (readDirFunc : FsReadDirFunc σ) (path : CString) (state : ReadDirState σ)
    (entry : Dirent) : Except Halt (ReadDirState σ) :=
  if state.requestToQuit then .ok state
  else
    match entry.type with
    | .directory =>
        if entry.isDots then .ok state
        else .ok { state with queue := state.queue ++ [getEntryPath path entry.name] }
    | .regular => do
        let (continues, context) ← readDirFunc (getEntryPath path entry.name) state.context
        return { state with requestToQuit := !continues, context }
    | .other => .ok state

/-- The loop of `fs_read_dir` over its queue of directories. -/
def readDirLoop (fs : FileSystem) (readDirFunc : FsReadDirFunc σ) :
    Nat → ReadDirState σ → Except Halt (ReadDirState σ)
  | rounds, state =>
      if state.requestToQuit then .ok state
      else
        match state.queue, rounds with
        | [], _ => .ok state
        | _ :: _, 0 => .error .diverged
        | path :: queue, rounds + 1 =>
            match fs.opendir path with
            | none =>
                .error (fatalError
                  (ascii "Can't open directory \"" ++ path.bytes ++ ascii "\"!"))
            | some entries => do
                let state ← entries.foldlM (readEntry readDirFunc path) { state with queue }
                readDirLoop fs readDirFunc rounds state

section Subdirectories

variable (fs : FileSystem)

/-- The paths that reading a directory puts into the queue. -/
def subdirectories (path : CString) : List CString :=
  (((fs.opendir path).getD []).filter Dirent.isSubdirectory).map fun entry =>
    getEntryPath path entry.name

/-- The paths that reading a directory gives to the callback. -/
def regularFiles (path : CString) : List CString :=
  (((fs.opendir path).getD []).filter Dirent.isRegular).map fun entry =>
    getEntryPath path entry.name

/-- The directories below a path, level by level. -/
def directories (path : CString) : List CString :=
  levels (subdirectories fs) (fs.depth + 1) [path]

end Subdirectories

/-- `fs_read_dir`, with as many rounds as there are directories. -/
def fsReadDir (fs : FileSystem) (path : CString) (readDirFunc : FsReadDirFunc σ) (context : σ) :
    Except Halt σ := do
  let state ← readDirLoop fs readDirFunc (directories fs path).length ⟨[path], false, context⟩
  return state.context

end JCUnit
