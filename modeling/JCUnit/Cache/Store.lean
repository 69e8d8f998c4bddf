import JCUnit.Cache.CacheFile

/-!
# The cache store

Lookup and update of the entries of a store. Both take what `stat` said about the
file and, separately, the bytes that were hashed: the program reads them one after
the other, and the file may have changed in between.
-/

namespace JCUnit

/-- FNV-1a over the bytes of a file. -/
def hashContents (contents : Bytes) : UInt32 :=
  contents.foldl (fun hash b => (hash ^^^ b.toUInt32) * 16777619) 2166136261

/-- `hash_file_content`, which gives 0 for a file that cannot be opened. -/
def hashFileContent (contents : Option Bytes) : UInt32 :=
  (contents.map hashContents).getD 0

/-- The fields of `struct stat` the cache compares. -/
structure Stat where
  mtime : Int64
  size : Int64
deriving DecidableEq

/-- A state of a test file. -/
structure FileVersion where
  mtime : Int64
  contents : Bytes
deriving DecidableEq

def FileVersion.stat (version : FileVersion) : Stat :=
  ⟨version.mtime, Int64.ofNat version.contents.length⟩

def CacheStore.find (store : CacheStore) (path : CString) : Option CacheEntry :=
  store.entries.find? fun entry => entry.path = path

/-- Overwrite the first entry with this path. -/
def CacheStore.overwrite (store : CacheStore) (path : CString) (entry : CacheEntry) : CacheStore where
  entries := store.entries.set (store.entries.findIdx fun entry => entry.path = path) entry
  bounded := by
    rw [List.length_set]
    exact store.bounded

def CacheEntry.Matches (entry : CacheEntry) (st : Stat) (hash : UInt32) : Prop :=
  entry.mtime = st.mtime ∧ entry.fileSize = st.size ∧ entry.contentHash = hash

instance (entry : CacheEntry) (st : Stat) (hash : UInt32) : Decidable (entry.Matches st hash) :=
  inferInstanceAs (Decidable (_ ∧ _ ∧ _))

/-- The suite of a matching entry, decoded and kept on its first hit. -/
def entrySuite (store : CacheStore) (entry : CacheEntry) :
    Except DecodeStop (Option TestSuite × CacheStore) :=
  match entry.suite, entry.data with
  | none, some data =>
      match deserializeTestSuite data with
      | .ok suite => .ok (some suite, store.overwrite entry.path { entry with suite := some suite })
      -- corrupted data is treated as a miss
      | .error .null => .ok (none, store)
      | .error .outOfBounds => .error .outOfBounds
  | suite, _ => .ok (suite, store)

/-- The suite found, if there is one, and the store with what the lookup has decoded. -/
def cacheLookup (store : CacheStore) (filename : CString) (st : Option Stat)
    (contents : Option Bytes) : Except DecodeStop (Option TestSuite × CacheStore) :=
  match st, store.find filename with
  | some st, some entry =>
      if entry.Matches st (hashFileContent contents) then entrySuite store entry
      else .ok (none, store)
  | _, _ => .ok (none, store)

def cacheUpdate (store : CacheStore) (sourcePath : CString) (st : Option Stat)
    (contents : Option Bytes) (suite : TestSuite) : CacheStore :=
  match st with
  | none => store
  | some st =>
      let entry : CacheEntry :=
        ⟨sourcePath, st.mtime, st.size, hashFileContent contents, some suite, none⟩
      if (store.find sourcePath).isSome then store.overwrite sourcePath entry
      else if h : store.entries.length < cacheMaxEntries then
        { entries := store.entries ++ [entry]
          bounded := by
            rw [List.length_append]
            exact h }
      else store

section Entries

variable {store : CacheStore} {path : CString} {entry : CacheEntry}

theorem CacheStore.find_mem (h : store.find path = some entry) :
    entry ∈ store.entries ∧ entry.path = path :=
  ⟨List.mem_of_find?_eq_some h, by simpa using List.find?_some h⟩

theorem CacheStore.mem_overwrite {other : CacheEntry}
    (h : other ∈ (store.overwrite path entry).entries) : other ∈ store.entries ∨ other = entry :=
  List.mem_or_eq_of_mem_set h

/-- The entry of an update is new or overwrites one; all others stay. -/
theorem mem_cacheUpdate {st : Option Stat} {contents : Option Bytes} {suite : TestSuite}
    (h : entry ∈ (cacheUpdate store path st contents suite).entries) :
    entry ∈ store.entries ∨ ∃ st', st = some st' ∧
      entry = ⟨path, st'.mtime, st'.size, hashFileContent contents, some suite, none⟩ := by
  unfold cacheUpdate at h
  cases st with
  | none => exact Or.inl h
  | some st =>
      simp only at h
      split at h
      · apply (CacheStore.mem_overwrite h).imp_right
        intro heq
        exact ⟨st, rfl, heq⟩
      · split at h
        · apply (List.mem_append.mp h).imp_right
          intro hmem
          exact ⟨st, rfl, List.mem_singleton.mp hmem⟩
        · exact Or.inl h

end Entries

end JCUnit
