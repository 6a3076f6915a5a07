import BackupSync.BackupFolder

/-!
# Taking versions out of a store

remove_kept_safety_version drops the version that is kept beyond retention: the
index first, then its manifest, then the blobs no manifest mentions.
remove_source_history_with_commit removes the directory of a source from every
destination, each once however often it is configured, and runs the caller's
commit last.

Destinations are a map from the resolved path to the store below it.
-/
namespace BackupSync
open Interruptible Interruptible.Action ContentHash SafetyBaseline BackupFolder GarbageCollection

variable {Text : Type} [StoreText Text]

abbrev Disk (Text : Type) := Map Str (Store Text)

def Disk.store (disk : Disk Text) (root : Str) : Store Text := disk[root]?.getD .empty

def Disk.setStore (root : Str) (st : Store Text) (disk : Disk Text) : Disk Text :=
  disk.insert root st

omit [StoreText Text] in
@[simp] theorem Disk.store_setStore_self (root : Str) (st : Store Text) (disk : Disk Text) :
    (disk.setStore root st).store root = st := by
  simp [Disk.store,Disk.setStore]

omit [StoreText Text] in
theorem Disk.store_setStore_of_ne {root root' : Str} (h : root' ≠ root) (st : Store Text)
    (disk : Disk Text) : (disk.setStore root st).store root' = disk.store root' := by
  rw [Disk.store,Disk.setStore,getElem?_insert,if_neg]
  · rfl
  · simpa using Ne.symm h

/-- An operation on the store of one destination. -/
def Disk.at (root : Str) {ε α : Type} (op : Action (Store Text) ε α) : Action (Disk Text) ε α :=
  zoom (Disk.store · root) (Disk.setStore root) op

structure RemoveKeptEnv where
  indexAccess : Access
  indexWrite : Publication
  manifestRemovable : Bool
  gc : GcEnv

structure RemoveHistoryEnv (Text : Type) where
  /-- The look at the directory of the source. -/
  sourceSeen : Bool
  /-- The readable view below a destination could be removed. -/
  viewRemovable : Bool
  /-- The directory was removed, or what was left of it when a removal failed. -/
  removal : Except (SourceDir Text) Unit
  gc : GcEnv

namespace HistoryRemoval

variable (sha : Sha256)

def clearSafety (index : VersionIndex) : VersionIndex :=
  {index with
    safetyPinnedVersionId := none
    safetyPendingVersionId := none
    safetyPendingFirstSeenUnix := none}

def withoutVersion (kept : Str) (index : VersionIndex) : VersionIndex :=
  {index with versions := index.versions.filter fun v => v.id ≠ kept}

def removeManifestFile (sid id : Str) (removable : Bool) : Store.Op Text Unit := do
  let st ← read
  check (removable && (st.dir sid).manifests.contains (manifestName id)) .removeKeptManifest
  step (Store.eraseManifest sid (manifestName id))

/-- The branch for a kept version that the index lists. -/
def removeListedVersion (sid kept : Str) (index : VersionIndex) (env : RemoveKeptEnv) :
    Store.Op Text (Option Str) := do
  writeIndex sid env.indexWrite (clearSafety (withoutVersion kept index))
  removeManifestFile sid kept env.manifestRemovable
  gcUnreferencedBlobs env.gc
  return some kept

def forgetStaleVersion (sid : Str) (index : VersionIndex) (env : RemoveKeptEnv) :
    Store.Op Text (Option Str) := do
  writeIndex sid env.indexWrite (clearSafety index)
  return none

def removeKeptSafetyVersion (sourcePath : Str) (env : RemoveKeptEnv) :
    Store.Op Text (Option Str) := do
  let sid := sourceId sha sourcePath
  let st ← read
  let index ← lift (loadIndex env.indexAccess sourcePath (st.dir sid))
  match index.safetyPinnedVersionId.or index.safetyPendingVersionId with
  | none => return none
  | some kept =>
      if isListed index kept then removeListedVersion sid kept index env
      else forgetStaleVersion sid index env

/-- fs::remove_dir_all on the directory of a source. -/
def removeSourceDir (sid : Str) (removal : Except (SourceDir Text) Unit) : Store.Op Text Unit :=
  match removal with
  | .ok () => step (Store.removeDir sid)
  | .error left => stepThenFail (Store.setDir sid left) .removeSourceDirectory

/-- The body of the loop over the destinations. -/
def removeHistoryAt (sid : Str) (env : RemoveHistoryEnv Text) : Store.Op Text Unit := do
  check env.viewRemovable .removeReadableView
  let st ← read
  if env.sourceSeen && st.sources.contains sid then do
    removeSourceDir sid env.removal
    gcUnreferencedBlobs env.gc
  else gcUnreferencedBlobs env.gc

/-- The loop over the configured destinations; a resolved path is visited once. -/
def removeHistoryLoop {σ : Type} (canonical : Str → Except StoreError Str)
    (body : Str → Action σ StoreError Unit) : List Str → List Str → Action σ StoreError Unit
  | _,[] => pure ()
  | visited,path::paths => do
      let root ← lift (canonical path)
      if root ∈ visited then removeHistoryLoop canonical body visited paths
      else do
        body root
        removeHistoryLoop canonical body (root::visited) paths

theorem returns_removeHistoryLoop {σ : Type} {I : σ → Prop}
    {canonical : Str → Except StoreError Str} {body : Str → Action σ StoreError Unit}
    {visited paths : List Str} {s t : σ}
    (h : ∀ root s t, I s → Returns (body root) s () t → I t) (hs : I s)
    (hr : Returns (removeHistoryLoop canonical body visited paths) s () t) : I t := by
  induction paths generalizing visited s with
  | nil =>
      obtain ⟨-,rfl⟩ := returns_pure.mp hr
      exact hs
  | cons path paths ih =>
      obtain ⟨root,-,hr⟩ := returns_lift_bind.mp hr
      split at hr
      · exact ih hs hr
      · obtain ⟨_,u,hbody,hr⟩ := returns_bind.mp hr
        exact ih (h root s u hs hbody) hr

/-- What every round keeps, the loop keeps. -/
theorem keeps_removeHistoryLoop {σ : Type} {I : σ → Prop} {canonical : Str → Except StoreError Str}
    {body : Str → Action σ StoreError Unit} (h : ∀ root, Keeps I (body root))
    (visited paths : List Str) : Keeps I (removeHistoryLoop canonical body visited paths) := by
  induction paths generalizing visited with
  | nil => exact keeps_pure _
  | cons path paths ih =>
      refine keeps_lift_bind fun root _ => ?_
      split
      · exact ih visited
      · exact keeps_bind (h root) fun _ => ih (root::visited)

def removeSourceHistoryWithCommit {α : Type} (destinations : List Str)
    (canonical : Str → Except StoreError Str) (leases : Except StoreError Unit) (sourcePath : Str)
    (env : Str → RemoveHistoryEnv Text) (commit : Except StoreError α) :
    Action (Disk Text) StoreError α := do
  lift leases
  removeHistoryLoop canonical
    (fun root => Disk.at root (removeHistoryAt (sourceId sha sourcePath) (env root))) [] destinations
  lift commit

end HistoryRemoval
end BackupSync
