import JCUnit.Cache.RoundTrip
import JCUnit.Cache.Store
import JCUnit.Compile.RequirementSpecs

/-!
# Sound stores

An entry is sound when its fingerprint is that of a version of its file that has
been seen, and its suite, live or serialized, is what the compiler makes of that
version. Lookup and update, saving and loading all keep a store sound; what keeps
an entry apart from other versions of its file is that no two of their contents
agree on the whole fingerprint.
-/

namespace JCUnit

/-- Two contents of one path never agree on mtime, size and hash. -/
def NoCollisions (seen : CString → FileVersion → Prop) : Prop :=
  ∀ path v w, seen path v → seen path w → v.stat = w.stat →
    hashContents v.contents = hashContents w.contents → v.contents = w.contents

/-- The suite is compiled from a version that has been seen with this fingerprint. The path
and the suite fit the widths of their lengths in the cache file. -/
structure Compiled (seen : CString → FileVersion → Prop) (path : CString) (st : Stat)
    (hash : UInt32) (suite : TestSuite) : Prop where
  short : path.bytes.length < 65536
  fits : (serialized suite).length < 2 ^ 32
  version : ∃ v, seen path v ∧ st = v.stat ∧ hash = hashContents v.contents ∧
    compileTestSuite path (some v.contents) = .ok suite

/-- An entry stands for a compiled suite, live or serialized. -/
def EntrySound (seen : CString → FileVersion → Prop) (entry : CacheEntry) : Prop :=
  ∃ suite, Compiled seen entry.path ⟨entry.mtime, entry.fileSize⟩ entry.contentHash suite ∧
    (entry.suite = some suite ∨ (entry.suite = none ∧ entry.data = some (serialized suite)))

def StoreSound (seen : CString → FileVersion → Prop) (store : CacheStore) : Prop :=
  ∀ entry ∈ store.entries, EntrySound seen entry

def CacheFileSound (seen : CString → FileVersion → Prop) (cacheFile : Option Bytes) : Prop :=
  ∀ contents ∈ cacheFile, ∃ store, contents = savedFile store ∧ StoreSound seen store

variable {seen : CString → FileVersion → Prop} {store : CacheStore} {path : CString}
  {entry : CacheEntry} {suite : TestSuite} {v : FileVersion}

theorem storeSound_empty : StoreSound seen .empty := by
  intro entry hentry
  cases hentry

theorem cacheFileSound_none : CacheFileSound seen none := by
  intro contents hcontents
  cases hcontents

theorem Compiled.decodes {st : Stat} {hash : UInt32} (h : Compiled seen path st hash suite) :
    deserializeTestSuite (serialized suite) = .ok suite := by
  obtain ⟨v, -, -, -, hcompile⟩ := h.version
  have hfits := h.fits
  rw [serialized_eq] at hfits ⊢
  exact deserializeTestSuite_encode (compileTestSuite_kinds hcompile) hfits

/-- A file with the fingerprint of a compiled suite compiles to it. -/
theorem Compiled.compile_eq (h : Compiled seen path v.stat (hashContents v.contents) suite)
    (hcollisions : NoCollisions seen) (hv : seen path v) :
    compileTestSuite path (some v.contents) = .ok suite := by
  obtain ⟨w, hw, hstat, hhash, hcompile⟩ := h.version
  rw [hcollisions path v w hv hw hstat hhash]
  exact hcompile

theorem EntrySound.savedData_eq (h : EntrySound seen entry) :
    ∃ suite, Compiled seen entry.path ⟨entry.mtime, entry.fileSize⟩ entry.contentHash suite ∧
      entry.savedData = serialized suite := by
  obtain ⟨suite, hcompiled, hdata⟩ := h
  refine ⟨suite, hcompiled, ?_⟩
  unfold CacheEntry.savedData
  cases hdata with
  | inl hlive => rw [hlive, serialized_eq]
  | inr hloaded => rw [hloaded.1, hloaded.2]

theorem EntrySound.fits (h : EntrySound seen entry) : EntryFits entry := by
  obtain ⟨suite, hcompiled, hsaved⟩ := h.savedData_eq
  constructor
  · exact hcompiled.short
  · rw [hsaved]
    exact hcompiled.fits

/-- Loading what was saved from a sound store gives a sound store. -/
theorem storeSound_cacheLoad {cacheFile : Option Bytes} (h : CacheFileSound seen cacheFile) :
    StoreSound seen (cacheLoad cacheFile) := by
  cases cacheFile with
  | none => exact storeSound_empty
  | some contents =>
      obtain ⟨store, rfl, hstore⟩ := h contents rfl
      have hfits : ∀ entry ∈ store.entries, EntryFits entry := by
        intro entry hentry
        exact (hstore entry hentry).fits
      intro entry hentry
      rw [cacheLoad_savedFile hfits] at hentry
      obtain ⟨saved, hsaved, rfl⟩ := List.mem_map.mp hentry
      obtain ⟨suite, hcompiled, hdata⟩ := (hstore saved hsaved).savedData_eq
      exact ⟨suite, hcompiled, Or.inr ⟨rfl, congrArg some hdata⟩⟩

theorem storeSound_overwrite (h : StoreSound seen store) (hentry : EntrySound seen entry) :
    StoreSound seen (store.overwrite path entry) := by
  intro other hother
  cases CacheStore.mem_overwrite hother with
  | inl hmem => exact h other hmem
  | inr heq =>
      rw [heq]
      exact hentry

/-- The suite of a sound entry is found, and the store stays sound. -/
theorem entrySuite_sound (h : StoreSound seen store) (hentry : entry ∈ store.entries) :
    ∃ suite store', entrySuite store entry = .ok (some suite, store') ∧ StoreSound seen store' ∧
      Compiled seen entry.path ⟨entry.mtime, entry.fileSize⟩ entry.contentHash suite := by
  obtain ⟨suite, hcompiled, hdata⟩ := h entry hentry
  cases hdata with
  | inl hlive =>
      refine ⟨suite, store, ?_, h, hcompiled⟩
      unfold entrySuite
      rw [hlive]
  | inr hloaded =>
      have hentry' : EntrySound seen { entry with suite := some suite } :=
        ⟨suite, hcompiled, Or.inl rfl⟩
      refine ⟨suite, store.overwrite entry.path { entry with suite := some suite }, ?_,
        storeSound_overwrite h hentry', hcompiled⟩
      unfold entrySuite
      rw [hloaded.1, hloaded.2]
      simp only [hcompiled.decodes]

/-- A lookup finds nothing, or a suite compiled from the fingerprint it was asked for. -/
theorem cacheLookup_sound (h : StoreSound seen store) (path : CString) (st : Option Stat)
    (contents : Option Bytes) :
    ∃ found store', cacheLookup store path st contents = .ok (found, store') ∧
      StoreSound seen store' ∧ ∀ suite ∈ found, ∃ st', st = some st' ∧
        Compiled seen path st' (hashFileContent contents) suite := by
  have hmiss : ∃ found store', (.ok (none, store) : Except DecodeStop _) = .ok (found, store') ∧
      StoreSound seen store' ∧ ∀ suite ∈ found, ∃ st', st = some st' ∧
        Compiled seen path st' (hashFileContent contents) suite :=
    ⟨none, store, rfl, h, by simp⟩
  unfold cacheLookup
  cases st with
  | none => exact hmiss
  | some st =>
      cases hfind : store.find path with
      | none => exact hmiss
      | some entry =>
          obtain ⟨hmem, hpath⟩ := CacheStore.find_mem hfind
          by_cases hmatch : entry.Matches st (hashFileContent contents)
          · obtain ⟨suite, store', hentry, hstore', hcompiled⟩ := entrySuite_sound h hmem
            refine ⟨some suite, store', ?_, hstore', ?_⟩
            · simp only [if_pos hmatch]
              exact hentry
            · intro found hfound
              cases hfound
              rw [hpath, hmatch.1, hmatch.2.1, hmatch.2.2] at hcompiled
              exact ⟨st, rfl, hcompiled⟩
          · simp only [if_neg hmatch]
            exact hmiss

theorem cacheUpdate_sound (h : StoreSound seen store)
    (hcompiled : Compiled seen path v.stat (hashContents v.contents) suite) :
    StoreSound seen (cacheUpdate store path (some v.stat) (some v.contents) suite) := by
  intro entry hentry
  cases mem_cacheUpdate hentry with
  | inl hmem => exact h entry hmem
  | inr hnew =>
      obtain ⟨st, hst, rfl⟩ := hnew
      cases hst
      exact ⟨suite, hcompiled, Or.inl rfl⟩

end JCUnit
