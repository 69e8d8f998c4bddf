import JCUnit.Application.CollectedSources
import JCUnit.Application.LinkedWalk

/-!
# Every file of a walk once

A walk whose callback always goes on ends, and calls it for every regular file at any depth,
once for each and for nothing else. The files of a directory come before those of all
directories that lie deeper.
-/

namespace JCUnit

open StateError LevelOrder

section Files

variable {fs : FileSystem} {path : CString} {start below : Location}

def regularFilesBelow (fs : FileSystem) (start : Location) : List Location :=
  (directoriesBelow fs start).flatMap (listedIn fs Dirent.isRegular start)

/-- This far below the start is a regular file, in a directory at or below the start. -/
def RegularFileUnder (fs : FileSystem) (start below : Location) : Prop :=
  ∃ directory entry, DirectoryUnder fs start (start ++ directory) ∧
    entry ∈ fs.listing (start ++ directory) ∧ entry.isRegular = true ∧
    below = directory ++ [entry.name]

/-- The files for which a walk is to call its callback, by how far below the path they are: all
regular files, each once, and none before one that lies higher. -/
structure CompleteWalk (fs : FileSystem) (path : CString) (files : List Location) : Prop where
  mem_iff : ∀ below, below ∈ files ↔ RegularFileUnder fs (locate path) below
  nodup : files.Nodup
  level_order : files.Pairwise fun a b => a.length ≤ b.length

theorem walkFiles_eq (fs : FileSystem) (path : CString) :
    walkFiles fs path = (regularFilesBelow fs (locate path)).map (entryPath path) := by
  rw [walkFiles, directories_eq, regularFilesBelow, List.flatMap_map, List.map_flatMap]
  congr 1
  funext below
  exact entryPaths_eq fs Dirent.isRegular path below

theorem mem_regularFilesBelow (hdir : fsIsDir fs (pathOf start) = true) :
    below ∈ regularFilesBelow fs start ↔ RegularFileUnder fs start below := by
  rw [regularFilesBelow, List.mem_flatMap]
  constructor
  · rintro ⟨directory, hdirectory, hlisted⟩
    obtain ⟨entry, hentry, hregular, hbelow⟩ := mem_listedIn.mp hlisted
    exact ⟨directory, entry, (mem_directoriesBelow hdir).mp hdirectory, hentry, hregular, hbelow⟩
  · rintro ⟨directory, entry, hdirectory, hentry, hregular, hbelow⟩
    exact ⟨directory, (mem_directoriesBelow hdir).mpr hdirectory,
      mem_listedIn.mpr ⟨entry, hentry, hregular, hbelow⟩⟩

theorem length_subLocations (fs : FileSystem) (start : Location) :
    ∀ a, ∀ b ∈ subLocations fs start a, b.length = a.length + 1 :=
  fun _ _ hb => length_of_mem_listedIn hb

theorem length_of_mem_root : ∀ below ∈ [([] : Location)], below.length = 0 := by
  intro below hroot
  rw [List.mem_singleton.mp hroot]
  rfl

theorem directoriesBelow_nodup (fs : FileSystem) (start : Location) :
    (directoriesBelow fs start).Nodup := by
  apply levels_nodup (length_subLocations fs start) _ _ length_of_mem_root
  · exact List.nodup_singleton []
  · intro a b c ha hb
    exact listedIn_parent ha hb
  · intro below
    exact listedIn_nodup fs Dirent.isSubdirectory start below

theorem directoriesBelow_level_order (fs : FileSystem) (start : Location) :
    (directoriesBelow fs start).Pairwise fun a b => a.length ≤ b.length :=
  levels_pairwise_rank (length_subLocations fs start) length_of_mem_root _

theorem regularFilesBelow_complete (hdir : fsIsDir fs path = true) :
    CompleteWalk fs path (regularFilesBelow fs (locate path)) := by
  have hstart : fsIsDir fs (pathOf (locate path)) = true := by
    unfold fsIsDir FileSystem.opendir FileSystem.stat at hdir ⊢
    rwa [locate_pathOf]
  constructor
  · intro below
    exact mem_regularFilesBelow hstart
  · refine List.nodup_flatMap.mpr ⟨fun below _ => listedIn_nodup _ _ _ below, ?_⟩
    apply (directoriesBelow_nodup fs (locate path)).imp
    intro a b hne c ha hb
    exact hne (listedIn_parent ha hb)
  · refine List.pairwise_flatMap.mpr ⟨?_, ?_⟩
    · intro below _
      apply List.pairwise_of_forall_mem_list
      intro a ha b hb
      rw [length_of_mem_listedIn ha, length_of_mem_listedIn hb]
    · apply (directoriesBelow_level_order fs (locate path)).imp
      intro a b hle c hc d hd
      rw [length_of_mem_listedIn hc, length_of_mem_listedIn hd]
      exact Nat.succ_le_succ hle

end Files

section Rounds

variable {fs : FileSystem} {σ : Type} {readDirFunc : FsReadDirFunc σ} {rounds : Nat}
  {s s' : ReadDirState σ}

/-- A walk that ends does so with more rounds as well. -/
theorem readDirLoop_succ (h : readDirLoop fs readDirFunc rounds s = .ok s') :
    readDirLoop fs readDirFunc (rounds + 1) s = .ok s' := by
  induction rounds generalizing s with
  | zero =>
      unfold readDirLoop at h ⊢
      split
      case isTrue hquit => rwa [if_pos hquit] at h
      case isFalse hcontinue =>
        rw [if_neg hcontinue] at h
        cases hqueue : s.queue with
        | nil => rwa [hqueue] at h
        | cons path queue =>
            rw [hqueue] at h
            cases h
  | succ rounds ih =>
      unfold readDirLoop at h ⊢
      split
      case isTrue hquit => rwa [if_pos hquit] at h
      case isFalse hcontinue =>
        rw [if_neg hcontinue] at h
        cases hqueue : s.queue with
        | nil => rwa [hqueue] at h
        | cons path queue =>
            rw [hqueue] at h
            dsimp only at h ⊢
            cases hopen : fs.opendir path with
            | none =>
                rw [hopen] at h
                cases h
            | some entries =>
                rw [hopen] at h
                obtain ⟨t, hentries, hrest⟩ := except_bind_eq_ok h
                dsimp only
                rw [hentries]
                exact ih hrest

theorem readDirLoop_le {more : Nat} (h : readDirLoop fs readDirFunc rounds s = .ok s')
    (hle : rounds ≤ more) : readDirLoop fs readDirFunc more s = .ok s' := by
  induction more, hle using Nat.le_induction with
  | base => exact h
  | succ more _ ih => exact readDirLoop_succ ih

end Rounds

/-- Whatever the callback does with its context, and whatever is in the memory, a walk that is not
told to stop calls it for these files in this order, and ends. -/
theorem fsReadDir_complete {fs : FileSystem} {path : CString} (hdir : fsIsDir fs path = true) :
    ∃ files, CompleteWalk fs path files ∧ ∃ enough, ∀ {σ : Type} (readDirFunc : FsReadDirFunc σ)
      (visit : σ → CString → σ),
      (∀ file context, readDirFunc file context = .ok (true, visit context file)) →
      ∀ (memory : WalkMemory) (context : σ) (rounds : Nat), enough ≤ rounds →
        Linked.fsReadDir fs rounds memory path readDirFunc context =
          .ok ((files.map (entryPath path)).foldl visit context) := by
  refine ⟨regularFilesBelow fs (locate path), regularFilesBelow_complete hdir,
    (directories fs path).length, ?_⟩
  intro σ readDirFunc visit hcontinues memory context rounds henough
  have hwalk : fsReadDir fs path readDirFunc context =
      .ok ((walkFiles fs path).foldl visit context) := by
    have hvisit : ∀ file s, readDirFunc file s =
        (Except.ok (visit s file) : Except Halt σ).map fun s' => (true, s') := hcontinues
    rw [fsReadDir_eq hdir hvisit]
    exact List.foldlM_pure
  obtain ⟨state, hloop, hcontext⟩ := except_bind_eq_ok hwalk
  have hrun := Linked.fsReadDir_corresponds fs rounds memory path readDirFunc context
  rw [readDirLoop_le hloop henough] at hrun
  obtain ⟨context', hlinked, heq⟩ := hrun.eq_ok rfl
  rw [hlinked, heq, ← walkFiles_eq]
  exact hcontext

/-- A walk from the root directory down to two files, with a callback that notes its calls,
the last one first. -/
theorem fsReadDir_complete_crowded :
    ∃ files, CompleteWalk (crowded 2 (by decide)) (pathOf []) files ∧ ∃ enough,
      ∀ (memory : WalkMemory) (rounds : Nat), enough ≤ rounds →
        Linked.fsReadDir (crowded 2 (by decide)) rounds memory (pathOf [])
          (fun file calls => .ok (true, file :: calls)) [] =
            .ok (files.map (entryPath (pathOf []))).reverse := by
  have hdir : fsIsDir (crowded 2 (by decide)) (pathOf []) = true := rfl
  obtain ⟨files, hcomplete, enough, hrun⟩ := fsReadDir_complete hdir
  refine ⟨files, hcomplete, enough, ?_⟩
  intro memory rounds henough
  rw [hrun _ (fun calls file => file :: calls) (fun _ _ => rfl) memory [] rounds henough,
    List.foldl_flip_cons_eq_append', List.append_nil]

end JCUnit
