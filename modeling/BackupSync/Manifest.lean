import BackupSync.Checks
import BackupSync.ContentHash

/-!
# Version indexes and manifests

These are the records the versioned store keeps for one source, the checks an
index passes when it is loaded, the checks a manifest passes before it is
restored, and the test that decides whether a scan differs from the last
committed manifest.

Entries are an ordered map from the relative path, as the source has it. The
contents of a JSON file are left abstract: a type of texts with a writer and a
reader for indexes and manifests, where the reader undoes the writer.
-/
namespace BackupSync
open Checks RelativePath ContentHash

structure VersionInfo where
  id : Str
  createdAtUnix : Int
  deriving DecidableEq, Repr

structure VersionIndex where
  schemaVersion : Nat
  sourcePath : Str
  versions : List VersionInfo
  safetyPinnedVersionId : Option Str
  safetyPendingVersionId : Option Str
  safetyPendingFirstSeenUnix : Option Int
  deriving DecidableEq, Repr

inductive ReadFailurePhase where
  | walk | metadata | hash | blobWrite
  deriving DecidableEq, Repr

structure ReadFailure where
  relPath : Str
  phase : ReadFailurePhase
  attempts : Nat
  message : Str
  deriving DecidableEq, Repr

inductive ManifestEntryKind where
  | file | dir
  deriving DecidableEq, Repr

structure ManifestEntry where
  kind : ManifestEntryKind
  relPath : Str
  len : Nat
  mtimeUnix : Int
  mtimeNanos : Nat
  sha256 : Option Str
  deriving DecidableEq, Repr

structure SourceSnapshotInfo where
  provider : Str
  id : Option Str
  createdAtUnix : Int
  deriving DecidableEq, Repr

abbrev Entries := Map Str ManifestEntry

structure Manifest where
  schemaVersion : Nat
  sourcePath : Str
  createdAtUnix : Int
  sourceSnapshot : Option SourceSnapshotInfo
  sourceSnapshotError : Option Str
  readFailures : List ReadFailure
  entries : Entries
  deriving DecidableEq

/-- The record write_scan_report serialises. -/
structure LastScanReport where
  schemaVersion : Nat
  sourcePath : Str
  createdAtUnix : Int
  committedVersionId : Option Str
  sourceSnapshot : Option SourceSnapshotInfo
  sourceSnapshotError : Option Str
  readFailures : List ReadFailure
  deriving DecidableEq, Repr

def storeSchemaVersion : Nat := 1

/-- Contents of the JSON files of a store. Only the two laws are assumed of the
serialiser. -/
class StoreText (Text : Type) where
  writeIndex : VersionIndex → Text
  readIndex : Text → Option VersionIndex
  writeManifest : Manifest → Text
  readManifest : Text → Option Manifest
  writeReport : LastScanReport → Text
  readIndex_writeIndex : ∀ index, readIndex (writeIndex index) = some index
  readManifest_writeManifest : ∀ m, readManifest (writeManifest m) = some m

attribute [simp] StoreText.readIndex_writeIndex StoreText.readManifest_writeManifest

/-- Texts as the values they serialise, with one more for damaged files. -/
inductive PlainText where
  | index (value : VersionIndex)
  | manifest (value : Manifest)
  | report (value : LastScanReport)
  | damaged (raw : Str)
  deriving DecidableEq

instance : StoreText PlainText where
  writeIndex := .index
  readIndex
    | .index value => some value
    | _ => none
  writeManifest := .manifest
  readManifest
    | .manifest value => some value
    | _ => none
  writeReport := .report
  readIndex_writeIndex _ := rfl
  readManifest_writeManifest _ := rfl

namespace VersionIndex

def isIdByte (c : Char) : Bool := c.isAlphanum || c == '-' || c == '_'

def validateVersionId (id : Str) : Bool :=
  !id.isEmpty && id.length ≤ 255 && id.all isIdByte

/-- The field of an index whose identifier was refused. -/
inductive UnsafeId where
  | version (position : Nat)
  | pinned
  | pending
  deriving DecidableEq, Repr

/-- The loop over the listed versions, which stops at the first unsafe one. -/
def validateListedIds (versions : List VersionInfo) : Except UnsafeId Unit :=
  match versions.findIdx? fun v => !validateVersionId v.id with
  | some position => .error (.version position)
  | none => .ok ()

def validateVersionIndex (index : VersionIndex) : Except UnsafeId Unit := do
  validateListedIds index.versions
  require (index.safetyPinnedVersionId.all validateVersionId) .pinned
  require (index.safetyPendingVersionId.all validateVersionId) .pending

theorem validateVersionIndex_eq_ok {index : VersionIndex} :
    validateVersionIndex index = .ok () ↔
      (∀ v ∈ index.versions, validateVersionId v.id = true) ∧
      (∀ id ∈ index.safetyPinnedVersionId, validateVersionId id = true) ∧
      (∀ id ∈ index.safetyPendingVersionId, validateVersionId id = true) := by
  have hfind : (index.versions.findIdx? fun v => !validateVersionId v.id) = none ↔
      ∀ v ∈ index.versions, validateVersionId v.id = true := by
    simp [List.findIdx?_eq_none_iff]
  unfold validateVersionIndex validateListedIds
  rw [then_eq_ok,then_eq_ok,require_eq_ok,require_eq_ok,Option.all_eq_true,Option.all_eq_true,← hfind]
  cases index.versions.findIdx? fun v => !validateVersionId v.id <;> simp

/-- The index load_index returns for a source without an index file. -/
def fresh (sourcePath : Str) : VersionIndex :=
  ⟨storeSchemaVersion,sourcePath,[],none,none,none⟩

def ids (index : VersionIndex) : List Str := index.versions.map (·.id)

end VersionIndex

namespace Manifest

/-- An entry is filed under its own relative path. -/
def Keyed (m : Manifest) : Prop := ∀ (k : Str) (e : ManifestEntry), m.entries[k]? = some e → e.relPath = k

instance (m : Manifest) : Decidable m.Keyed :=
  decidable_of_iff (∀ item ∈ m.entries.toList, item.2.relPath = item.1)
    ⟨fun h k e he => h (k,e) (mem_toList_iff_getElem?_eq_some.mpr he),
      fun h _ hi => h _ _ (mem_toList_iff_getElem?_eq_some.mp hi)⟩

/-- The entries in the order of their paths. -/
def entryValues (m : Manifest) : List ManifestEntry := m.entries.toList.map Prod.snd

theorem mem_entryValues {m : Manifest} {e : ManifestEntry} :
    e ∈ m.entryValues ↔ ∃ k : Str, m.entries[k]? = some e := by
  unfold entryValues
  rw [List.mem_map]
  constructor
  · rintro ⟨⟨k,e'⟩,hk,rfl⟩
    exact ⟨k,mem_toList_iff_getElem?_eq_some.mp hk⟩
  · rintro ⟨k,hk⟩
    exact ⟨(k,e),mem_toList_iff_getElem?_eq_some.mpr hk,rfl⟩

def entryUnchanged (prev : Manifest) (item : Str × ManifestEntry) : Bool :=
  match prev.entries[item.1]? with
  | none => false
  | some e =>
      e.kind = item.2.kind && (item.2.kind ≠ .file || e.sha256 = item.2.sha256)

def manifestsEquivalent (prev next : Manifest) : Bool :=
  prev.entries.size == next.entries.size && next.entries.toList.all (entryUnchanged prev)

def validateContentHash (hash relPath : Str) : Except Refusal Unit :=
  require (isLowerHexSha256 hash) (.invalidHash relPath)

def validateEntry (item : Str × ManifestEntry) : Except Refusal Unit := do
  validateRelativePath item.1
  validateRelativePath item.2.relPath
  require (item.1 == item.2.relPath) (.keyMismatch item.1 item.2.relPath)
  match item.2.sha256 with
  | some hash => validateContentHash hash item.2.relPath
  | none => .ok ()

def validateManifest (m : Manifest) : Except Refusal Unit :=
  m.entries.toList.forM validateEntry

theorem entryUnchanged_iff {prev : Manifest} {k : Str} {v : ManifestEntry} :
    entryUnchanged prev (k,v) = true ↔
      ∃ e, prev.entries[k]? = some e ∧ e.kind = v.kind ∧ (v.kind = .file → e.sha256 = v.sha256) := by
  unfold entryUnchanged
  cases prev.entries[k]? with
  | none => simp
  | some e => simp [imp_iff_not_or]

theorem manifestsEquivalent_iff {prev next : Manifest} :
    manifestsEquivalent prev next = true ↔ prev.entries.size = next.entries.size ∧
      ∀ (k : Str) (v : ManifestEntry), next.entries[k]? = some v → ∃ e, prev.entries[k]? = some e ∧
        e.kind = v.kind ∧ (v.kind = .file → e.sha256 = v.sha256) := by
  unfold manifestsEquivalent
  rw [Bool.and_eq_true,beq_iff_eq,List.all_eq_true]
  refine and_congr_right fun _ => ⟨?_,?_⟩
  · intro h k v hv
    exact entryUnchanged_iff.mp (h (k,v) (mem_toList_iff_getElem?_eq_some.mpr hv))
  · intro h item hi
    exact entryUnchanged_iff.mpr (h _ _ (mem_toList_iff_getElem?_eq_some.mp hi))

theorem manifestsEquivalent_of_entries {prev next : Manifest} (h : prev.entries = next.entries) :
    manifestsEquivalent prev next = true := by
  rw [manifestsEquivalent_iff,h]
  exact ⟨rfl,fun k v hv => ⟨v,hv,rfl,fun _ => rfl⟩⟩

/-- Equivalent manifests have the same paths. -/
theorem getElem?_of_manifestsEquivalent {prev next : Manifest}
    (h : manifestsEquivalent prev next = true) {k : Str} {e : ManifestEntry}
    (he : prev.entries[k]? = some e) : ∃ v, next.entries[k]? = some v ∧
      e.kind = v.kind ∧ (v.kind = .file → e.sha256 = v.sha256) := by
  obtain ⟨hsize,hall⟩ := manifestsEquivalent_iff.mp h
  have hsub : next.entries.keys ⊆ prev.entries.keys := by
    intro j hj
    rw [mem_keys] at hj ⊢
    obtain ⟨v,hv⟩ := exists_of_mem hj
    obtain ⟨e',he',-⟩ := hall j v hv
    exact mem_of_getElem? he'
  have hperm : next.entries.keys.Perm prev.entries.keys := by
    refine (List.subperm_of_subset nodup_keys hsub).perm_of_length_le
      (Nat.le_of_eq ?_)
    rw [length_keys,length_keys,hsize]
  have hk : k ∈ next.entries := by
    rw [← mem_keys,hperm.mem_iff,mem_keys]
    exact mem_of_getElem? he
  obtain ⟨v,hv⟩ := exists_of_mem hk
  obtain ⟨e',he',hkind,hhash⟩ := hall k v hv
  rw [he] at he'
  obtain rfl := Option.some.inj he'
  exact ⟨v,hv,hkind,hhash⟩

theorem validateEntry_eq_ok {k : Str} {e : ManifestEntry} :
    validateEntry (k,e) = .ok () ↔ validateRelativePath k = .ok () ∧ e.relPath = k ∧
      ∀ hash ∈ e.sha256, isLowerHexSha256 hash = true := by
  unfold validateEntry
  rw [then_eq_ok,then_eq_ok,then_eq_ok,require_eq_ok,beq_iff_eq]
  constructor
  · rintro ⟨hk,-,he,hh⟩
    refine ⟨hk,he.symm,?_⟩
    intro hash hhash
    dsimp only at hh
    rw [Option.mem_def.mp hhash] at hh
    exact require_eq_ok.mp hh
  · rintro ⟨hk,rfl,hh⟩
    refine ⟨hk,hk,rfl,?_⟩
    dsimp only
    cases hhash : e.sha256 with
    | none => rfl
    | some hash => exact require_eq_ok.mpr (hh hash hhash)

/-- What the restore side requires of a manifest. -/
theorem validateManifest_eq_ok {m : Manifest} : validateManifest m = .ok () ↔
    ∀ (k : Str) (e : ManifestEntry), m.entries[k]? = some e → validateRelativePath k = .ok () ∧
      e.relPath = k ∧ ∀ hash ∈ e.sha256, isLowerHexSha256 hash = true := by
  unfold validateManifest
  rw [forM_eq_ok]
  constructor
  · intro h k e he
    exact validateEntry_eq_ok.mp (h (k,e) (mem_toList_iff_getElem?_eq_some.mpr he))
  · intro h item hi
    exact validateEntry_eq_ok.mpr (h _ _ (mem_toList_iff_getElem?_eq_some.mp hi))

end Manifest
end BackupSync
