import BackupSync.SafetyBaseline
import BackupSync.Interruptible

/-!
# Copying a storage folder

copy_and_verify_store walks the old folder with a stack of directories, refuses
symbolic links, and copies and hashes one regular file after the other into an
empty new folder. The old folder is a tree of entries in listing order with
distinct paths; it is only read. The new folder is a map from paths to contents,
and each copy that lands there is one step.

The walk meets every regular file of the tree, so a copy that returns has put a
content with the same hash at the path of each of them.
-/
namespace BackupSync
open Checks Interruptible Interruptible.Action ContentHash

inductive FolderTree where
  | nil
  | file (name : Str) (content : Bytes) (rest : FolderTree)
  | link (name : Str) (rest : FolderTree)
  | other (name : Str) (rest : FolderTree)
  | dir (name : Str) (inside rest : FolderTree)
  deriving DecidableEq

namespace FolderTree

/-- The regular files below a path. -/
def files (path : List Str) : FolderTree → List (List Str × Bytes)
  | nil => []
  | file name content rest => (path++[name],content)::rest.files path
  | link _ rest => rest.files path
  | other _ rest => rest.files path
  | dir name inside rest => inside.files (path++[name])++rest.files path

def dirCount : FolderTree → Nat
  | nil => 0
  | file _ _ rest => rest.dirCount
  | link _ rest => rest.dirCount
  | other _ rest => rest.dirCount
  | dir _ inside rest => inside.dirCount+rest.dirCount+1

end FolderTree

/-- A folder in which every file has its own path. -/
structure StorageFolder where
  tree : FolderTree
  distinct : ((tree.files []).map Prod.fst).Nodup
  deriving DecidableEq

def StorageFolder.files (folder : StorageFolder) : List (List Str × Bytes) := folder.tree.files []

structure NewFolder where
  files : Map (List Str) Bytes
  /-- There is something besides regular files. -/
  occupied : Bool
  deriving DecidableEq

def NewFolder.empty : NewFolder := ⟨∅,false⟩

structure CopyStats where
  files : Nat
  bytes : Nat
  deriving DecidableEq, Repr

inductive CopyError where
  | oldMissing
  | newIsFile
  | createNew
  | inspectNew
  | newNotEmpty
  | resolveOld
  | resolveNew
  | nested
  | readDirectory (path : List Str)
  | readEntry (path : List Str)
  | inspectEntry (path : List Str)
  | symbolicLink
  | freeSpaceQuery
  | insufficientSpace (required available : Nat)
  | createDirectory (path : List Str)
  | copyFile (path : List Str)
  | flushCopy (path : List Str)
  | hashSource (path : List Str)
  | hashCopy (path : List Str)
  | verification (path : List Str)
  deriving DecidableEq, Repr

/-- The outcomes of the file system calls of one copy. -/
structure CopyEnv where
  newIsFile : Bool
  newCreated : Bool
  newListed : Bool
  oldResolved : Bool
  newResolved : Bool
  /-- The resolved folders are the same or one is inside the other. -/
  nested : Bool
  dirReadable : List Str → Bool
  entryReadable : List Str → Bool
  inspected : List Str → Bool
  freeSpace : Option Nat
  parentCreated : List Str → Bool
  /-- What a copy leaves at its path, with an error or without. -/
  landed : List Str → Except (Option Bytes) Bytes
  flushed : List Str → Bool
  sourceHashed : List Str → Bool
  copyHashed : List Str → Bool

namespace StoreCopy

abbrev Op (α : Type) := Action (Option NewFolder) CopyError α

structure WalkState where
  pending : List (List Str × FolderTree)
  files : List (List Str × Bytes)
  totalBytes : Nat

/-- The entries of one directory. -/
def listEntries (env : CopyEnv) (path : List Str) :
    FolderTree → WalkState → Except CopyError WalkState
  | .nil,w => .ok w
  | .file name content rest,w => do
      require (env.entryReadable (path++[name])) (.readEntry (path++[name]))
      require (env.inspected (path++[name])) (.inspectEntry (path++[name]))
      listEntries env path rest {w with
        files := w.files++[(path++[name],content)]
        totalBytes := SafetyBaseline.saturatingAdd w.totalBytes content.length}
  | .link name _,_ => do
      require (env.entryReadable (path++[name])) (.readEntry (path++[name]))
      require (env.inspected (path++[name])) (.inspectEntry (path++[name]))
      .error .symbolicLink
  | .other name rest,w => do
      require (env.entryReadable (path++[name])) (.readEntry (path++[name]))
      require (env.inspected (path++[name])) (.inspectEntry (path++[name]))
      listEntries env path rest w
  | .dir name inside rest,w => do
      require (env.entryReadable (path++[name])) (.readEntry (path++[name]))
      require (env.inspected (path++[name])) (.inspectEntry (path++[name]))
      listEntries env path rest {w with pending := (path++[name],inside)::w.pending}

/-- The loop over the stack of directories. -/
def walkFolders (env : CopyEnv) : Nat → WalkState → Except CopyError WalkState
  | 0,w => .ok w
  | fuel+1,w => match w.pending with
    | [] => .ok w
    | (path,tree)::pending => do
        require (env.dirReadable path) (.readDirectory path)
        let w ← listEntries env path tree {w with pending := pending}
        walkFolders env fuel w

def collectFiles (env : CopyEnv) (tree : FolderTree) : Except CopyError WalkState :=
  walkFolders env (tree.dirCount+1) ⟨[([],tree)],[],0⟩

def putFile (path : List Str) (content : Bytes) (folder : Option NewFolder) : Option NewFolder :=
  folder.map fun f => {f with files := f.files.insert path content}

/-- fs::copy, which can leave a part of the file behind. -/
def copyFile (env : CopyEnv) (path : List Str) : Op Bytes :=
  match env.landed path with
  | .ok content => do
      step (putFile path content)
      return content
  | .error none => fail (.copyFile path)
  | .error (some part) => stepThenFail (putFile path part) (.copyFile path)

def copyOne (sha : Sha256) (env : CopyEnv) (source : List Str × Bytes) : Op Unit := do
  check (env.parentCreated source.1) (.createDirectory source.1)
  let copy ← copyFile env source.1
  check (env.flushed source.1) (.flushCopy source.1)
  check (env.sourceHashed source.1) (.hashSource source.1)
  check (env.copyHashed source.1) (.hashCopy source.1)
  check (sha256Hex sha source.2 == sha256Hex sha copy) (.verification source.1)

/-- create_dir_all of the new folder. -/
def createNew (env : CopyEnv) : Op Unit := do
  check env.newCreated .createNew
  step fun folder => some (folder.getD .empty)

def newIsEmpty (folder : Option NewFolder) : Bool :=
  folder.all fun f => f.files.isEmpty && !f.occupied

def copyAndVerifyStore (sha : Sha256) (env : CopyEnv) (old : Option StorageFolder)
    (safetyBuffer : Nat) : Op CopyStats := do
  let old ← lift (orElse old .oldMissing)
  check (!env.newIsFile) .newIsFile
  createNew env
  check env.newListed .inspectNew
  let folder ← read
  check (newIsEmpty folder) .newNotEmpty
  check env.oldResolved .resolveOld
  check env.newResolved .resolveNew
  check (!env.nested) .nested
  let walked ← lift (collectFiles env old.tree)
  let available ← lift (orElse env.freeSpace .freeSpaceQuery)
  let required := SafetyBaseline.saturatingAdd walked.totalBytes safetyBuffer
  check (required ≤ available) (.insufficientSpace required available)
  walked.files.foldlM (fun _ source => copyOne sha env source) ()
  return ⟨walked.files.length,walked.totalBytes⟩

/-- The directories still to be read, those inside pending ones included. -/
def WalkState.work (w : WalkState) : Nat := (w.pending.map fun p => p.2.dirCount+1).sum

/-- The files found and those below pending directories. -/
def WalkState.known (w : WalkState) : Multiset (List Str × Bytes) :=
  w.files+(w.pending.map fun p => (p.2.files p.1 : Multiset (List Str × Bytes))).sum

variable {env : CopyEnv}

theorem listEntries_spec {path : List Str} {tree : FolderTree} {w u : WalkState}
    (h : listEntries env path tree w = .ok u) :
    u.work = w.work+tree.dirCount ∧ u.known = tree.files path+w.known := by
  induction tree generalizing w with
  | nil =>
      cases h
      exact ⟨rfl,by simp [FolderTree.files]⟩
  | file name content rest ih =>
      obtain ⟨-,h⟩ := then_eq_ok.mp h
      obtain ⟨-,h⟩ := then_eq_ok.mp h
      obtain ⟨hwork,hknown⟩ := ih h
      refine ⟨hwork,?_⟩
      rw [hknown]
      simp only [FolderTree.files,WalkState.known,← Multiset.coe_add,← Multiset.cons_coe,
        ← Multiset.singleton_add,Multiset.coe_nil]
      abel
  | link name rest ih =>
      obtain ⟨-,h⟩ := then_eq_ok.mp h
      obtain ⟨-,h⟩ := then_eq_ok.mp h
      cases h
  | other name rest ih =>
      obtain ⟨-,h⟩ := then_eq_ok.mp h
      obtain ⟨-,h⟩ := then_eq_ok.mp h
      exact ih h
  | dir name inside rest ihi ihr =>
      obtain ⟨-,h⟩ := then_eq_ok.mp h
      obtain ⟨-,h⟩ := then_eq_ok.mp h
      obtain ⟨hwork,hknown⟩ := ihr h
      constructor
      · simp only [WalkState.work,List.map_cons,List.sum_cons,FolderTree.dirCount] at hwork ⊢
        omega
      · rw [hknown]
        simp only [FolderTree.files,WalkState.known,List.map_cons,List.sum_cons,← Multiset.coe_add]
        abel

/-- With a fuel for every directory nothing stays pending, and what was known is found. -/
theorem walkFolders_spec {fuel : Nat} {w u : WalkState} (hfuel : w.work ≤ fuel)
    (h : walkFolders env fuel w = .ok u) : (u.files : Multiset (List Str × Bytes)) = w.known := by
  have hdone : ∀ w : WalkState, w.pending = [] → (w.files : Multiset (List Str × Bytes)) = w.known := by
    intro w hw
    simp [WalkState.known,hw]
  induction fuel generalizing w with
  | zero =>
      cases h
      apply hdone
      cases hp : u.pending with
      | nil => rfl
      | cons p pending => simp [WalkState.work,hp] at hfuel
  | succ fuel ih =>
      rw [walkFolders] at h
      split at h
      · rename_i hp
        cases h
        exact hdone u hp
      · rename_i path tree pending hp
        obtain ⟨-,h⟩ := then_eq_ok.mp h
        obtain ⟨v,hv,h⟩ := bind_eq_ok.mp h
        obtain ⟨hwork,hknown⟩ := listEntries_spec hv
        rw [ih ?_ h,hknown]
        · simp only [WalkState.known,hp,List.map_cons,List.sum_cons]
          abel
        · simp only [WalkState.work,hp,List.map_cons,List.sum_cons] at hfuel hwork ⊢
          omega

/-- The walk finds the regular files of the folder, each once. -/
theorem collectFiles_perm {tree : FolderTree} {w : WalkState} (h : collectFiles env tree = .ok w) :
    w.files.Perm (tree.files []) := by
  have hfiles := walkFolders_spec (by simp [WalkState.work]) h
  apply Multiset.coe_eq_coe.mp
  rw [hfiles]
  simp [WalkState.known]

/-- A content with the hash of the file is at its path. -/
def Verified (sha : Sha256) (folder : Option NewFolder) (source : List Str × Bytes) : Prop :=
  ∃ f copy, folder = some f ∧ f.files[source.1]? = some copy ∧
    sha256Hex sha copy = sha256Hex sha source.2

theorem Verified.putFile {sha : Sha256} {folder : Option NewFolder} {source : List Str × Bytes}
    (h : Verified sha folder source) {path : List Str} (hne : source.1 ≠ path) (content : Bytes) :
    Verified sha (putFile path content folder) source := by
  obtain ⟨f,copy,rfl,hcopy,hhash⟩ := h
  refine ⟨_,copy,rfl,?_,hhash⟩
  rw [getElem?_insert]
  simpa [Ne.symm hne] using hcopy

/-- One copy that returns is verified, and the copies at other paths stay so. -/
theorem returns_copyOne {sha : Sha256} {source : List Str × Bytes} {u : Unit}
    {s t : Option NewFolder} (hs : s.isSome) (h : Returns (copyOne sha env source) s u t) :
    t.isSome ∧ Verified sha t source ∧
      ∀ other, other.1 ≠ source.1 → Verified sha s other → Verified sha t other := by
  obtain ⟨-,h⟩ := returns_check_bind.mp h
  obtain ⟨copy,v,hcopy,h⟩ := returns_bind.mp h
  obtain ⟨-,h⟩ := returns_check_bind.mp h
  obtain ⟨-,h⟩ := returns_check_bind.mp h
  obtain ⟨-,h⟩ := returns_check_bind.mp h
  obtain ⟨hsame,rfl⟩ := returns_check.mp h
  obtain ⟨f,rfl⟩ := Option.isSome_iff_exists.mp hs
  unfold copyFile at hcopy
  split at hcopy
  · rename_i content hland
    obtain ⟨_,_,hstep,hret⟩ := returns_bind.mp hcopy
    obtain rfl := returns_step.mp hstep
    obtain ⟨rfl,rfl⟩ := returns_pure.mp hret
    refine ⟨rfl,⟨_,copy,rfl,by simp,(by simpa using hsame : _ = _).symm⟩,?_⟩
    intro other hne hother
    exact hother.putFile hne copy
  · exact absurd hcopy returns_fail
  · exact absurd hcopy returns_stepThenFail

/-- The loop verifies each of its files, as long as no path comes twice. -/
theorem verified_foldlM {sha : Sha256} {files : List (List Str × Bytes)} {u u' : Unit}
    {s t : Option NewFolder} (hs : s.isSome) (hnodup : (files.map Prod.fst).Nodup)
    (h : Returns (files.foldlM (fun _ source => copyOne sha env source) u) s u' t) :
    (∀ source ∈ files, Verified sha t source) ∧
      ∀ other, other.1 ∉ files.map Prod.fst → Verified sha s other → Verified sha t other := by
  induction files generalizing s u with
  | nil =>
      obtain ⟨-,rfl⟩ := returns_pure.mp h
      exact ⟨by simp,fun _ _ hother => hother⟩
  | cons source files ih =>
      rw [List.foldlM_cons,returns_bind] at h
      obtain ⟨_,v,hone,h⟩ := h
      rw [List.map_cons,List.nodup_cons] at hnodup
      obtain ⟨hv,hsource,hkeep⟩ := returns_copyOne hs hone
      obtain ⟨hall,hrest⟩ := ih hv hnodup.2 h
      constructor
      · intro x hx
        rcases List.mem_cons.mp hx with rfl | hx
        · exact hrest x hnodup.1 hsource
        · exact hall x hx
      · intro other hnot hother
        rw [List.map_cons,List.mem_cons,not_or] at hnot
        exact hrest other hnot.2 (hkeep other hnot.1 hother)

/-- A copy that returns has verified every regular file of the old folder. -/
theorem verified_copyAndVerifyStore {sha : Sha256} {old : Option StorageFolder} {safetyBuffer : Nat}
    {stats : CopyStats} {s t : Option NewFolder}
    (h : Returns (copyAndVerifyStore sha env old safetyBuffer) s stats t) :
    ∃ folder, old = some folder ∧ ∀ source ∈ folder.files, Verified sha t source := by
  obtain ⟨folder,hold,h⟩ := returns_lift_bind.mp h
  obtain ⟨-,h⟩ := returns_check_bind.mp h
  obtain ⟨_,s₁,hnew,h⟩ := returns_bind.mp h
  obtain ⟨-,hnew⟩ := returns_check_bind.mp hnew
  obtain rfl := returns_step.mp hnew
  obtain ⟨-,h⟩ := returns_check_bind.mp h
  have h := returns_read_bind.mp h
  obtain ⟨-,h⟩ := returns_check_bind.mp h
  obtain ⟨-,h⟩ := returns_check_bind.mp h
  obtain ⟨-,h⟩ := returns_check_bind.mp h
  obtain ⟨-,h⟩ := returns_check_bind.mp h
  obtain ⟨walked,hwalk,h⟩ := returns_lift_bind.mp h
  obtain ⟨available,-,h⟩ := returns_lift_bind.mp h
  obtain ⟨-,h⟩ := returns_check_bind.mp h
  obtain ⟨_,t',hcopies,h⟩ := returns_bind.mp h
  obtain ⟨-,rfl⟩ := returns_pure.mp h
  refine ⟨folder,orElse_eq_ok.mp hold,?_⟩
  have hperm := collectFiles_perm hwalk
  have hnodup : (walked.files.map Prod.fst).Nodup :=
    (hperm.map Prod.fst).nodup_iff.mpr folder.distinct
  intro source hsource
  exact (verified_foldlM rfl hnodup hcopies).1 source (hperm.mem_iff.mpr hsource)

end StoreCopy
end BackupSync
