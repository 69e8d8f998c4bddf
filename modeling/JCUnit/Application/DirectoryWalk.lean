import JCUnit.Application.FileSystem
import Mathlib.Data.List.Induction
import Mathlib.Data.List.Nodup

/-!
# The walk through a directory

A walk whose callback always goes on gives it the regular files level by level. The paths of
the walk are those of the files, except that a walk from the root directory doubles the first
separator.
-/

namespace JCUnit

open LevelOrder StateError

section Paths

variable {fs : FileSystem} {start below location : Location} {name : FileName} {path : CString}

@[simp] theorem FileName.ofBytes_bytes (name : FileName) : FileName.ofBytes name.bytes = some name :=
  dif_pos ⟨name.nulFree, name.unbroken, name.nonempty⟩

theorem locate_getEntryPath (path : CString) (name : FileName) :
    locate (getEntryPath path name) = locate path ++ [name] := by
  unfold locate getEntryPath
  rw [List.splitOn_append_cons_self, List.splitOn_eq_singleton name.unbroken,
    List.filterMap_append, List.filterMap_cons, FileName.ofBytes_bytes]
  rfl

/-- The path that a walk from any path has for what it finds this far below: the path of the
parent, a separator and the name. -/
def entryPath (path : CString) (below : Location) : CString :=
  below.foldl getEntryPath path

theorem entryPath_concat (path : CString) (below : Location) (name : FileName) :
    entryPath path (below ++ [name]) = getEntryPath (entryPath path below) name := by
  rw [entryPath, List.foldl_append]
  rfl

theorem locate_entryPath (path : CString) (below : Location) :
    locate (entryPath path below) = locate path ++ below := by
  induction below using List.reverseRecOn with
  | nil => exact (List.append_nil _).symm
  | append_singleton below name ih =>
      rw [entryPath_concat, locate_getEntryPath, ih, List.append_assoc]

@[simp] theorem locate_pathOf (location : Location) : locate (pathOf location) = location := by
  unfold pathOf
  split
  · rename_i hroot
    rw [hroot]
    rfl
  · exact locate_entryPath ⟨[], List.not_mem_nil⟩ location

theorem walkPath_eq_entryPath (start below : Location) :
    walkPath start below = entryPath (pathOf start) below := rfl

@[simp] theorem locate_walkPath (start below : Location) :
    locate (walkPath start below) = start ++ below := by
  rw [walkPath_eq_entryPath, locate_entryPath, locate_pathOf]

theorem walkPath_concat (start below : Location) (name : FileName) :
    walkPath start (below ++ [name]) = getEntryPath (walkPath start below) name :=
  entryPath_concat (pathOf start) below name

/-- Only a walk from the root directory spells a path in another way than `realpath`. -/
theorem walkPath_eq_pathOf (hstart : start ≠ []) : walkPath start below = pathOf (start ++ below) := by
  have happend : start ++ below ≠ [] := List.append_ne_nil_of_left_ne_nil hstart below
  rw [walkPath, pathOf, pathOf, if_neg hstart, if_neg happend, List.foldl_append]

theorem foldl_getEntryPath_length (path : CString) (below : Location) :
    (below.foldl getEntryPath path).bytes.length =
      path.bytes.length + (below.map fun name => name.bytes.length + 1).sum := by
  induction below generalizing path with
  | nil => rfl
  | cons name below ih =>
      rw [List.foldl_cons, ih, List.map_cons, List.sum_cons]
      simp only [getEntryPath, List.length_append, List.length_cons]
      omega

/-- It never does so in the way of `realpath`. -/
theorem walkPath_root_ne (hbelow : below ≠ []) (location : Location) :
    walkPath [] below ≠ pathOf location := by
  intro heq
  have hlocation : below = location := by
    have hlocate := congrArg locate heq
    rwa [locate_walkPath, locate_pathOf, List.nil_append] at hlocate
  have hlength := congrArg (fun path => path.bytes.length) heq
  rw [← hlocation, walkPath, pathOf, pathOf, if_pos rfl, if_neg hbelow] at hlength
  simp only [foldl_getEntryPath_length, List.length_cons, List.length_nil] at hlength
  omega

theorem opendir_of_node {entries : List Dirent}
    (h : fs.node (locate path) = some (.directory entries)) : fs.opendir path = some entries := by
  unfold FileSystem.opendir FileSystem.stat
  rw [h]

theorem node_of_opendir {entries : List Dirent} (h : fs.opendir path = some entries) :
    fs.node (locate path) = some (.directory entries) := by
  unfold FileSystem.opendir FileSystem.stat at h
  split at h
  · rename_i heq
    cases h
    exact heq
  · cases h

theorem mem_entryPaths {p : Dirent → Bool} {found : CString} :
    found ∈ (((fs.opendir path).getD []).filter p).map (fun entry => getEntryPath path entry.name) ↔
      ∃ entries entry, fs.opendir path = some entries ∧ entry ∈ entries ∧ p entry = true ∧
        found = getEntryPath path entry.name := by
  rw [List.mem_map]
  constructor
  · rintro ⟨entry, hentry, rfl⟩
    obtain ⟨hmem, hp⟩ := List.mem_filter.mp hentry
    cases hopen : fs.opendir path with
    | none =>
        rw [hopen] at hmem
        cases hmem
    | some entries =>
        rw [hopen] at hmem
        exact ⟨entries, entry, rfl, hmem, hp, rfl⟩
  · rintro ⟨entries, entry, hopen, hmem, hp, rfl⟩
    refine ⟨entry, List.mem_filter.mpr ⟨?_, hp⟩, rfl⟩
    rw [hopen]
    exact hmem

theorem isDir_subdirectory {sub : CString} (h : sub ∈ subdirectories fs path) :
    fsIsDir fs sub = true := by
  obtain ⟨entries, entry, hopen, hentry, hsub, rfl⟩ := mem_entryPaths.mp h
  obtain ⟨below, hbelow⟩ := fs.subdirectory _ _ _ (node_of_opendir hopen) hentry hsub
  rw [← locate_getEntryPath] at hbelow
  unfold fsIsDir
  rw [opendir_of_node hbelow]
  rfl

theorem exists_regularFile {file : CString} (h : file ∈ regularFiles fs path) :
    fsIsFileExists fs file = true := by
  obtain ⟨entries, entry, hopen, hentry, hregular, rfl⟩ := mem_entryPaths.mp h
  have hnode := fs.regular _ _ _ (node_of_opendir hopen) hentry hregular
  rw [← locate_getEntryPath] at hnode
  unfold fsIsFileExists FileSystem.stat
  rw [hnode]
  rfl

end Paths

section Walk

variable {fs : FileSystem} {path : CString} {σ : Type} {readDirFunc : FsReadDirFunc σ}
  {visit : σ → CString → Except Halt σ}

/-- Nothing lies deeper than the tree is deep. -/
theorem directories_bottom (fs : FileSystem) (hdir : fsIsDir fs path = true) :
    level (subdirectories fs) (fs.depth + 1) [path] = [] := by
  apply List.eq_nil_iff_forall_not_mem.mpr
  intro deep hdeep
  have hroots : ∀ sub ∈ [path], fsIsDir fs sub = true ∧ 0 ≤ (locate sub).length := by
    intro sub hroot
    rw [List.mem_singleton.mp hroot]
    exact ⟨hdir, Nat.zero_le _⟩
  have hdepth : fsIsDir fs deep = true ∧ 0 + (fs.depth + 1) ≤ (locate deep).length := by
    apply forall_mem_level (P := fun k sub => fsIsDir fs sub = true ∧ k ≤ (locate sub).length) ?_
      hroots (fs.depth + 1) deep hdeep
    rintro k dir ⟨-, hlength⟩ sub hsub
    refine ⟨isDir_subdirectory hsub, ?_⟩
    obtain ⟨entries, entry, -, -, -, rfl⟩ := mem_entryPaths.mp hsub
    rw [locate_getEntryPath, List.length_append]
    exact Nat.succ_le_succ hlength
  obtain ⟨hisDir, hlength⟩ := hdepth
  obtain ⟨entries, hopen⟩ := Option.isSome_iff_exists.mp hisDir
  have hbounded := fs.bounded (locate deep) (by rw [node_of_opendir hopen]; rfl)
  omega

/-- The files of a directory go to the callback, its directories to the end of the queue. -/
theorem readEntry_foldlM
    (hfunc : ∀ file s, readDirFunc file s = (visit s file).map fun s' => (true, s'))
    (entries : List Dirent) (queue : List CString) (s : σ) :
    entries.foldlM (readEntry readDirFunc path) ⟨queue, false, s⟩ =
      (((entries.filter Dirent.isRegular).map fun entry => getEntryPath path entry.name).foldlM
        visit s).map fun s' => ⟨queue ++ (entries.filter Dirent.isSubdirectory).map fun entry =>
          getEntryPath path entry.name, false, s'⟩ := by
  induction entries generalizing queue s with
  | nil =>
      rw [List.filter_nil, List.filter_nil, List.map_nil, List.append_nil]
      rfl
  | cons entry entries ih =>
      rw [List.foldlM_cons, readEntry, if_neg Bool.false_ne_true]
      cases htype : entry.type with
      | directory =>
          have hregular : ¬entry.isRegular = true := by simp [Dirent.isRegular, htype]
          rw [List.filter_cons_of_neg hregular]
          by_cases hdots : entry.isDots = true
          · have hsub : ¬entry.isSubdirectory = true := by simp [Dirent.isSubdirectory, hdots]
            rw [List.filter_cons_of_neg hsub]
            simp only [if_pos hdots]
            exact ih queue s
          · have hsub : entry.isSubdirectory = true := by
              simp [Dirent.isSubdirectory, htype, hdots]
            have hnext := ih (queue ++ [getEntryPath path entry.name]) s
            rw [List.append_assoc, List.singleton_append] at hnext
            rw [List.filter_cons_of_pos hsub, List.map_cons]
            simp only [if_neg hdots]
            exact hnext
      | regular =>
          have hregular : entry.isRegular = true := by simp [Dirent.isRegular, htype]
          have hsub : ¬entry.isSubdirectory = true := by simp [Dirent.isSubdirectory, htype]
          rw [List.filter_cons_of_pos hregular, List.filter_cons_of_neg hsub, List.map_cons,
            List.foldlM_cons]
          simp only [hfunc]
          cases visit s (getEntryPath path entry.name) with
          | error halt => rfl
          | ok s' => exact ih queue s'
      | other =>
          have hregular : ¬entry.isRegular = true := by simp [Dirent.isRegular, htype]
          have hsub : ¬entry.isSubdirectory = true := by simp [Dirent.isSubdirectory, htype]
          rw [List.filter_cons_of_neg hregular, List.filter_cons_of_neg hsub]
          exact ih queue s

/-- The loop over the queue takes a directory off the front, gives its files to the callback
and puts the directories in it at the end. -/
theorem readDirLoop_eq_queueWalk
    (hfunc : ∀ file s, readDirFunc file s = (visit s file).map fun s' => (true, s'))
    (rounds : Nat) (queue : List CString) (s : σ)
    (hqueue : ∀ dir ∈ queue, fsIsDir fs dir = true) :
    readDirLoop fs readDirFunc rounds ⟨queue, false, s⟩ =
      (queueWalk (subdirectories fs) (fun s dir => (regularFiles fs dir).foldlM visit s) .diverged
        rounds queue s).map fun s' => ⟨[], false, s'⟩ := by
  induction rounds generalizing queue s with
  | zero =>
      cases queue with
      | nil => rfl
      | cons dir queue => rfl
  | succ rounds ih =>
      cases queue with
      | nil => rfl
      | cons dir queue =>
          obtain ⟨entries, hopen⟩ := Option.isSome_iff_exists.mp (hqueue dir List.mem_cons_self)
          have hround : readDirLoop fs readDirFunc (rounds + 1) ⟨dir :: queue, false, s⟩ =
              entries.foldlM (readEntry readDirFunc dir) ⟨queue, false, s⟩ >>=
                readDirLoop fs readDirFunc rounds := by
            unfold readDirLoop
            simp only [Bool.false_eq_true, if_false, hopen]
          rw [hround, queueWalk, readEntry_foldlM hfunc]
          have hsubs : subdirectories fs dir = (entries.filter Dirent.isSubdirectory).map fun entry =>
              getEntryPath dir entry.name := by
            rw [subdirectories, hopen]
            rfl
          have hfiles : regularFiles fs dir = (entries.filter Dirent.isRegular).map fun entry =>
              getEntryPath dir entry.name := by
            rw [regularFiles, hopen]
            rfl
          rw [hfiles]
          cases List.foldlM visit s ((entries.filter Dirent.isRegular).map fun entry =>
              getEntryPath dir entry.name) with
          | error halt => rfl
          | ok s' =>
              rw [← hsubs]
              apply ih
              intro sub hsub
              rcases List.mem_append.mp hsub with hsub | hsub
              · exact hqueue sub (List.mem_cons_of_mem _ hsub)
              · exact isDir_subdirectory hsub

/-- The files that a walk from this path finds, in its order. -/
def walkFiles (fs : FileSystem) (path : CString) : List CString :=
  (directories fs path).flatMap (regularFiles fs)

/-- A walk that always goes on ends, and gives the callback every file that it finds. -/
theorem fsReadDir_eq (hdir : fsIsDir fs path = true)
    (hfunc : ∀ file s, readDirFunc file s = (visit s file).map fun s' => (true, s')) (s : σ) :
    fsReadDir fs path readDirFunc s = (walkFiles fs path).foldlM visit s := by
  have hqueue : ∀ dir ∈ [path], fsIsDir fs dir = true := by
    intro dir hroot
    rwa [List.mem_singleton.mp hroot]
  have hwalk : queueWalk (subdirectories fs) (fun s dir => (regularFiles fs dir).foldlM visit s)
      .diverged (directories fs path).length [path] s = (walkFiles fs path).foldlM visit s := by
    rw [directories, queueWalk_eq_foldlM (directories_bottom fs hdir), foldlM_flatMap]
    rfl
  rw [fsReadDir, readDirLoop_eq_queueWalk hfunc _ _ _ hqueue, hwalk]
  cases (walkFiles fs path).foldlM visit s <;> rfl

end Walk

section Locations

variable {fs : FileSystem} {start below location : Location}

/-- What is listed at a location. -/
def FileSystem.listing (fs : FileSystem) (location : Location) : List Dirent :=
  match fs.node location with
  | some node => node.entries
  | none => []

/-- The directories at or below a location. -/
inductive DirectoryUnder (fs : FileSystem) (start : Location) : Location → Prop
  | start : DirectoryUnder fs start start
  | entry {location : Location} {entry : Dirent} (h : DirectoryUnder fs start location)
      (hentry : entry ∈ fs.listing location) (hsub : entry.isSubdirectory = true) :
      DirectoryUnder fs start (location ++ [entry.name])

theorem opendir_getD (fs : FileSystem) (path : CString) :
    (fs.opendir path).getD [] = fs.listing (locate path) := by
  unfold FileSystem.opendir FileSystem.listing FileSystem.stat
  cases fs.node (locate path) with
  | none => rfl
  | some node => cases node <;> rfl

/-- The names from the start of a walk to entries of the directory that lies this far below it. -/
def listedIn (fs : FileSystem) (p : Dirent → Bool) (start below : Location) : List Location :=
  ((fs.listing (start ++ below)).filter p).map fun entry => below ++ [entry.name]

section Listed

variable {a b c : Location} {p q : Dirent → Bool}

theorem mem_listedIn : c ∈ listedIn fs p start below ↔
    ∃ entry, entry ∈ fs.listing (start ++ below) ∧ p entry = true ∧ c = below ++ [entry.name] := by
  unfold listedIn
  rw [List.mem_map]
  constructor
  · rintro ⟨entry, hentry, rfl⟩
    obtain ⟨hlisted, hp⟩ := List.mem_filter.mp hentry
    exact ⟨entry, hlisted, hp, rfl⟩
  · rintro ⟨entry, hlisted, hp, rfl⟩
    exact ⟨entry, List.mem_filter.mpr ⟨hlisted, hp⟩, rfl⟩

theorem length_of_mem_listedIn (h : c ∈ listedIn fs p start below) :
    c.length = below.length + 1 := by
  obtain ⟨entry, -, -, rfl⟩ := mem_listedIn.mp h
  rw [List.length_append, List.length_singleton]

/-- What is listed in two directories lies in the same one. -/
theorem listedIn_parent (ha : c ∈ listedIn fs p start a) (hb : c ∈ listedIn fs q start b) :
    a = b := by
  obtain ⟨entry, -, -, rfl⟩ := mem_listedIn.mp ha
  obtain ⟨entry', -, -, heq⟩ := mem_listedIn.mp hb
  exact List.append_inj_left' heq rfl

theorem listedIn_nodup (fs : FileSystem) (p : Dirent → Bool) (start below : Location) :
    (listedIn fs p start below).Nodup := by
  have hnames : ((fs.listing (start ++ below)).map Dirent.name).Nodup := by
    unfold FileSystem.listing
    cases hnode : fs.node (start ++ below) with
    | none => exact .nil
    | some node =>
        cases node with
        | directory entries => exact fs.once (start ++ below) entries hnode
        | file => exact .nil
  have hkept : (((fs.listing (start ++ below)).filter p).map Dirent.name).Nodup :=
    hnames.sublist (List.filter_sublist.map Dirent.name)
  have hinjective : Function.Injective fun name => below ++ [name] := fun m n heq =>
    List.singleton_injective (List.append_cancel_left heq)
  have hlisted := hkept.map hinjective
  rwa [List.map_map] at hlisted

/-- The paths that a walk makes of the entries of a directory. -/
theorem entryPaths_eq (fs : FileSystem) (p : Dirent → Bool) (path : CString) (below : Location) :
    (((fs.opendir (entryPath path below)).getD []).filter p).map
        (fun entry => getEntryPath (entryPath path below) entry.name) =
      (listedIn fs p (locate path) below).map (entryPath path) := by
  rw [listedIn, opendir_getD, locate_entryPath, List.map_map]
  apply List.map_congr_left
  intro entry _
  exact (entryPath_concat path below entry.name).symm

end Listed

/-- The directories in the one that lies this far below the start, named by how far they lie
below it themselves. -/
def subLocations (fs : FileSystem) (start below : Location) : List Location :=
  ((fs.listing (start ++ below)).filter Dirent.isSubdirectory).map fun entry =>
    below ++ [entry.name]

/-- The directories at or below the start, level by level. -/
def directoriesBelow (fs : FileSystem) (start : Location) : List Location :=
  levels (subLocations fs start) (fs.depth + 1) [[]]

theorem subdirectories_entryPath (fs : FileSystem) (path : CString) (below : Location) :
    subdirectories fs (entryPath path below) =
      (subLocations fs (locate path) below).map (entryPath path) :=
  entryPaths_eq fs Dirent.isSubdirectory path below

theorem directories_eq (fs : FileSystem) (path : CString) :
    directories fs path = (directoriesBelow fs (locate path)).map (entryPath path) :=
  levels_map (subdirectories_entryPath fs path) (fs.depth + 1) [[]]

theorem directories_pathOf (fs : FileSystem) (start : Location) :
    directories fs (pathOf start) = (directoriesBelow fs start).map (walkPath start) := by
  rw [directories_eq, locate_pathOf]
  rfl

theorem directoryUnder_iff_reaches : DirectoryUnder fs start location ↔
    ∃ below, Relation.ReflTransGen (fun b c => c ∈ subLocations fs start b) [] below ∧
      location = start ++ below := by
  constructor
  · intro h
    induction h with
    | start => exact ⟨[], .refl, (List.append_nil start).symm⟩
    | @entry location entry _ hentry hsub ih =>
        obtain ⟨below, hreach, rfl⟩ := ih
        refine ⟨below ++ [entry.name], hreach.tail ?_, List.append_assoc _ _ _⟩
        exact mem_listedIn.mpr ⟨entry, hentry, hsub, rfl⟩
  · rintro ⟨below, hreach, rfl⟩
    induction hreach with
    | refl =>
        rw [List.append_nil]
        exact .start
    | @tail b c _ hstep ih =>
        obtain ⟨entry, hentry, hsub, rfl⟩ := mem_listedIn.mp hstep
        rw [← List.append_assoc]
        exact ih.entry hentry hsub

/-- Level by level, every directory below the start and nothing else is come to. -/
theorem mem_directoriesBelow (hdir : fsIsDir fs (pathOf start) = true) :
    below ∈ directoriesBelow fs start ↔ DirectoryUnder fs start (start ++ below) := by
  have hbottom : level (subLocations fs start) (fs.depth + 1) [[]] = [] := by
    have hpaths := directories_bottom fs hdir
    have hmap := level_map (subdirectories_entryPath fs (pathOf start)) (fs.depth + 1) [[]]
    rw [List.map_singleton, locate_pathOf] at hmap
    exact List.map_eq_nil_iff.mp (hmap.symm.trans hpaths)
  rw [directoriesBelow, mem_levels hbottom, directoryUnder_iff_reaches]
  constructor
  · rintro ⟨root, hroot, hreach⟩
    rw [List.mem_singleton.mp hroot] at hreach
    exact ⟨below, hreach, rfl⟩
  · rintro ⟨below', hreach, heq⟩
    rw [List.append_cancel_left heq]
    exact ⟨[], List.mem_singleton_self [], hreach⟩

end Locations

end JCUnit
