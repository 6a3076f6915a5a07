import BackupSync.Interruptible
import BackupSync.Manifest
import BackupSync.BlobCodec

/-!
# The versioned store on disk

A store holds one directory for each source, with the index, the manifests by
file name and the last scan report, and one tree of blobs that all sources
share. Only regular files are modelled; temporary files have names no reader
looks for and are left out.

Every change of the store is one atomic step: the rename that publishes a file,
the removal of one file, or the creation or removal of a directory. The reads of
the index and of the latest manifest come with their error cases.
-/
namespace BackupSync
open Checks Interruptible ContentHash

structure SourceDir (Text : Type) where
  index : Option Text
  manifests : Map Str Text
  report : Option Text

structure Store (Text : Type) where
  /-- The sources directory itself exists. -/
  sourcesExist : Bool
  sources : Map Str (SourceDir Text)
  blobs : Map BlobPath Bytes

/-- The calls that can end an operation on a store with an error. -/
inductive StoreError where
  | loadIndexRead
  | loadIndexParse
  | loadIndexUnsafe (reason : VersionIndex.UnsafeId)
  | createBlobDirectory
  | createManifestDirectory
  | latestManifestRead
  | latestManifestParse
  | prepareSourceView (message : Str)
  | buildIgnoreSet (message : Str)
  | invalidExpectedHash (hash : Str)
  | blobNameMismatch (hash : Str)
  | createBlobParent
  | blobAttempt
  | blobTimeout
  | encodeBlob (error : CodecError)
  | verifyBlob (error : CodecError)
  | blobIntegrity (expected actual : Str)
  | persistBlob
  | writeManifest
  | writeIndex
  | writeScanReport
  | removeKeptManifest
  | removeReadableView
  | removeSourceDirectory
  | resolveDestination
  | acquireLeases
  | commitProtectionChange
  | gcListSources
  | gcReadManifest
  | gcParseManifest
  | gcListBlobs
  deriving DecidableEq, Repr

variable {Text : Type}

def SourceDir.empty : SourceDir Text := ⟨none,∅,none⟩

namespace Store

abbrev Op (Text α : Type) := Action (Store Text) StoreError α

def empty : Store Text := ⟨false,∅,∅⟩

/-- The directory of a source; a missing one has no files. -/
def dir (st : Store Text) (sid : Str) : SourceDir Text := st.sources[sid]?.getD .empty

@[simp] theorem dir_empty (sid : Str) : (empty : Store Text).dir sid = .empty := by
  simp [dir,empty]

def setDir (sid : Str) (d : SourceDir Text) (st : Store Text) : Store Text :=
  {st with sourcesExist := true, sources := st.sources.insert sid d}

def ensureDir (sid : Str) (st : Store Text) : Store Text := st.setDir sid (st.dir sid)

def putIndex (sid : Str) (text : Text) (st : Store Text) : Store Text :=
  st.setDir sid {st.dir sid with index := some text}

def putManifest (sid name : Str) (text : Text) (st : Store Text) : Store Text :=
  st.setDir sid {st.dir sid with manifests := (st.dir sid).manifests.insert name text}

def eraseManifest (sid name : Str) (st : Store Text) : Store Text :=
  st.setDir sid {st.dir sid with manifests := (st.dir sid).manifests.erase name}

def putReport (sid : Str) (text : Text) (st : Store Text) : Store Text :=
  st.setDir sid {st.dir sid with report := some text}

def removeDir (sid : Str) (st : Store Text) : Store Text :=
  {st with sources := st.sources.erase sid}

def putBlob (path : BlobPath) (blob : Bytes) (st : Store Text) : Store Text :=
  {st with blobs := st.blobs.insert path blob}

def eraseBlob (path : BlobPath) (st : Store Text) : Store Text :=
  {st with blobs := st.blobs.erase path}

@[simp] theorem dir_setDir_self (sid : Str) (d : SourceDir Text) (st : Store Text) :
    (st.setDir sid d).dir sid = d := by
  simp [dir,setDir]

theorem dir_setDir_of_ne {sid sid' : Str} (h : sid' ≠ sid) (d : SourceDir Text)
    (st : Store Text) : (st.setDir sid d).dir sid' = st.dir sid' := by
  simp [dir,setDir,getElem?_insert,Ne.symm h]

@[simp] theorem blobs_setDir (sid : Str) (d : SourceDir Text) (st : Store Text) :
    (st.setDir sid d).blobs = st.blobs := rfl

@[simp] theorem dir_ensureDir (sid sid' : Str) (st : Store Text) :
    (st.ensureDir sid).dir sid' = st.dir sid' := by
  by_cases h : sid' = sid
  · subst h
    exact dir_setDir_self _ _ _
  · exact dir_setDir_of_ne h _ _

@[simp] theorem dir_putBlob (path : BlobPath) (blob : Bytes) (st : Store Text) (sid : Str) :
    (st.putBlob path blob).dir sid = st.dir sid := rfl

@[simp] theorem dir_eraseBlob (path : BlobPath) (st : Store Text) (sid : Str) :
    (st.eraseBlob path).dir sid = st.dir sid := rfl

@[simp] theorem dir_removeDir_self (sid : Str) (st : Store Text) :
    (st.removeDir sid).dir sid = .empty := by
  simp [dir,removeDir]

theorem dir_removeDir_of_ne {sid sid' : Str} (h : sid' ≠ sid) (st : Store Text) :
    (st.removeDir sid).dir sid' = st.dir sid' := by
  simp [dir,removeDir,getElem?_erase,Ne.symm h]

end Store

/-- A directory listing in any order: what the hint names comes first. -/
def listed {α : Type} [DecidableEq α] (hint keys : List α) : List α :=
  hint.dedup.filter (· ∈ keys)++keys.filter (· ∉ hint)

theorem mem_listed {α : Type} [DecidableEq α] {hint keys : List α} {x : α} :
    x ∈ listed hint keys ↔ x ∈ keys := by
  simp only [listed,List.mem_append,List.mem_filter,List.mem_dedup,decide_eq_true_eq]
  tauto

theorem mem_listed_keys {β : Type} {hint : List Str} {m : Map Str β} {x : Str} :
    x ∈ listed hint m.keys ↔ ∃ v, m[x]? = some v := by
  rw [mem_listed,mem_keys]
  exact ⟨exists_of_mem,fun ⟨_,hv⟩ => mem_of_getElem? hv⟩

theorem nodup_listed {α : Type} [DecidableEq α] {hint keys : List α} (h : keys.Nodup) :
    (listed hint keys).Nodup := by
  apply List.Nodup.append
  · exact (List.nodup_dedup hint).filter _
  · exact h.filter _
  · intro x hx hy
    simp only [List.mem_filter,List.mem_dedup,decide_eq_true_eq] at hx hy
    exact hy.2 hx.1

def manifestName (id : Str) : Str := id++".json".toList

/-- Path::extension is json. -/
def hasJsonExtension (name : Str) : Bool := ".json".toList.isSuffixOf name && 5 < name.length

theorem manifestName_injective {id id' : Str} (h : manifestName id = manifestName id') :
    id = id' := List.append_cancel_right h

/-- How the look at a file that is there and the read after it went. Path::exists says no
after any failure, so a file that is not seen passes for one that is not there. -/
inductive Access where
  | unseen | unreadable | readable
  deriving DecidableEq, Repr

def Access.read {ε : Type} (access : Access) (file : Option Text) (e : ε) :
    Except ε (Option Text) :=
  match file,access with
  | none,_ | some _,.unseen => .ok none
  | some _,.unreadable => .error e
  | some text,.readable => .ok (some text)

variable {access : Access}

theorem Access.read_eq_none {ε : Type} {file : Option Text} {e : ε} :
    access.read file e = .ok none ↔ file = none ∨ access = .unseen := by
  cases file <;> cases access <;> simp [Access.read]

theorem Access.read_eq_some {ε : Type} {file : Option Text} {e : ε} {text : Text} :
    access.read file e = .ok (some text) ↔ file = some text ∧ access = .readable := by
  cases file <;> cases access <;> simp [Access.read]

variable [StoreText Text]

/-- The index file of a source, read back and checked. -/
def loadIndex (access : Access) (sourcePath : Str) (d : SourceDir Text) :
    Except StoreError VersionIndex := do
  match ← access.read d.index .loadIndexRead with
  | none => return .fresh sourcePath
  | some text =>
      let index ← orElse (StoreText.readIndex text) .loadIndexParse
      index.validateVersionIndex.mapError .loadIndexUnsafe
      return index

def latestManifest (access : Access) (d : SourceDir Text) (index : VersionIndex) :
    Except StoreError (Option Manifest) :=
  match index.versions.getLast? with
  | none => .ok none
  | some v => do
      match ← access.read d.manifests[manifestName v.id]? .latestManifestRead with
      | none => return none
      | some text =>
          let m ← orElse (StoreText.readManifest text) .latestManifestParse
          return some m

variable {d : SourceDir Text} {index : VersionIndex}

theorem loadIndex_eq_ok {sourcePath : Str} (h : loadIndex access sourcePath d = .ok index) :
    ((d.index = none ∨ access = .unseen) ∧ index = .fresh sourcePath) ∨
      ∃ text, d.index = some text ∧ StoreText.readIndex text = some index ∧
        index.validateVersionIndex = .ok () := by
  obtain ⟨file,hfile,h⟩ := bind_eq_ok.mp h
  cases file with
  | none =>
      cases h
      exact .inl ⟨Access.read_eq_none.mp hfile,rfl⟩
  | some text =>
      obtain ⟨index',hr,h⟩ := bind_eq_ok.mp h
      obtain ⟨hv,h⟩ := then_eq_ok.mp h
      cases h
      exact .inr ⟨text,(Access.read_eq_some.mp hfile).1,orElse_eq_ok.mp hr,mapError_eq_ok.mp hv⟩

/-- The latest manifest is the file of the last listed version. -/
theorem latestManifest_eq_some {m : Manifest} (h : latestManifest access d index = .ok (some m)) :
    access = .readable ∧ ∃ v text, index.versions.getLast? = some v ∧
      d.manifests[manifestName v.id]? = some text ∧ StoreText.readManifest text = some m := by
  unfold latestManifest at h
  cases hl : index.versions.getLast? with
  | none =>
      rw [hl] at h
      cases h
  | some v =>
      rw [hl] at h
      obtain ⟨file,hfile,h⟩ := bind_eq_ok.mp h
      cases file with
      | none => cases h
      | some text =>
          obtain ⟨m',hr,h⟩ := bind_eq_ok.mp h
          cases h
          obtain ⟨hfile,haccess⟩ := Access.read_eq_some.mp hfile
          exact ⟨haccess,v,text,rfl,hfile,orElse_eq_ok.mp hr⟩

/-- Whether a file that is seen can be read decides only between a result and an error. -/
theorem loadIndex_readable {sourcePath : Str} (hseen : access ≠ .unseen)
    (h : loadIndex access sourcePath d = .ok index) :
    loadIndex .readable sourcePath d = .ok index := by
  cases access with
  | unseen => exact absurd rfl hseen
  | readable => exact h
  | unreadable =>
      unfold loadIndex at h ⊢
      revert h
      cases d.index with
      | none => exact fun h => h
      | some text => exact nofun

theorem latestManifest_readable {prev : Option Manifest} (hseen : access ≠ .unseen)
    (h : latestManifest access d index = .ok prev) :
    latestManifest .readable d index = .ok prev := by
  cases access with
  | unseen => exact absurd rfl hseen
  | readable => exact h
  | unreadable =>
      unfold latestManifest at h ⊢
      revert h
      cases index.versions.getLast? with
      | none => exact fun h => h
      | some v =>
          dsimp only
          cases d.manifests[manifestName v.id]? with
          | none => exact fun h => h
          | some text => exact nofun

theorem latestManifest_of_file {v : VersionInfo} {text : Text} {m : Manifest}
    (hl : index.versions.getLast? = some v) (hm : d.manifests[manifestName v.id]? = some text)
    (hr : StoreText.readManifest text = some m) :
    latestManifest .readable d index = .ok (some m) := by
  unfold latestManifest
  rw [hl]
  dsimp only
  rw [hm]
  exact bind_eq_ok.mpr ⟨some text,rfl,bind_eq_ok.mpr ⟨m,orElse_eq_ok.mpr hr,rfl⟩⟩

end BackupSync
