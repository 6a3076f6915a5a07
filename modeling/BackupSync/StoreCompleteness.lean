import BackupSync.StoreInvariant

/-!
# Committed versions stay complete

A store is complete when every version an index lists has its manifest and every
file entry of that manifest has its blob. The store invariant implies it, so
every store that backups and removals of kept versions can leave behind is
complete, whatever failed in them and after whichever step they were cut, as long
as no collection takes the manifests directory of a source for missing.
-/
namespace BackupSync
open Interruptible ContentHash ScanSnapshot GarbageCollection BackupFolder HistoryRemoval
  StoreInvariant

namespace StoreCompleteness

variable {Text : Type} [StoreText Text]

/-- Every listed version has a manifest whose files have their blobs. -/
def Complete (sha : Sha256) (st : Store Text) : Prop :=
  ∀ sid text, (st.dir sid).index = some text → ∃ index, StoreText.readIndex text = some index ∧
    ∀ v ∈ index.versions, ∃ mtext m, (st.dir sid).manifests[manifestName v.id]? = some mtext ∧
      StoreText.readManifest mtext = some m ∧
      ∀ (k : Str) (e : ManifestEntry), m.entries[k]? = some e → e.kind = .file →
        ∃ hash, e.sha256 = some hash ∧ blobPath sha hash ∈ st.blobs

theorem complete_of_allBacked {sha : Sha256} {st : Store Text} (h : AllBacked sha .all st) :
    Complete sha st := by
  intro sid text ht
  obtain ⟨index,hi,hb⟩ := h sid text ht
  refine ⟨index,hi,?_⟩
  intro v hv
  obtain ⟨-,mtext,m,hm,hr,hback⟩ := hb.backed v hv
  refine ⟨mtext,m,hm,hr,?_⟩
  intro k e he hk
  obtain ⟨hash,hh,-⟩ := (hback.wellFormed k e he).file hk
  exact ⟨hash,hh,hback.blob k e he trivial hk hash hh⟩

theorem complete_of_reachable {sha : Sha256} {prim : Primitives} {st : Store Text}
    (h : ReachableBy sha prim StoreCall.Sighted st) : Complete sha st :=
  complete_of_allBacked (allBacked_of_sighted (fun _ hcall => hcall) h)

/-- The manifest of a listed version has a file with this hash. -/
def Needed (st : Store Text) (hash : Str) : Prop :=
  ∃ (sid : Str) (text : Text) (index : VersionIndex) (v : VersionInfo) (mtext : Text) (m : Manifest)
    (k : Str) (e : ManifestEntry), (st.dir sid).index = some text ∧
    StoreText.readIndex text = some index ∧ v ∈ index.versions ∧
    (st.dir sid).manifests[manifestName v.id]? = some mtext ∧
    StoreText.readManifest mtext = some m ∧ m.entries[k]? = some e ∧ e.kind = .file ∧
    e.sha256 = some hash

theorem isLowerHexSha256_of_needed {sha : Sha256} {K : Scope} {st : Store Text} (h : AllBacked sha K st)
    {hash : Str} (hn : Needed st hash) : isLowerHexSha256 hash = true := by
  obtain ⟨sid,text,index,v,mtext,m,k,e,ht,hi,hv,hm,hr,he,hk,hh⟩ := hn
  obtain ⟨index',hi',hb⟩ := h sid text ht
  obtain rfl : index' = index := Option.some.inj (hi'.symm.trans hi)
  obtain ⟨-,mtext',m',hm',hr',hback⟩ := hb.backed v hv
  obtain rfl : mtext' = mtext := Option.some.inj (hm'.symm.trans hm)
  obtain rfl : m' = m := Option.some.inj (hr'.symm.trans hr)
  obtain ⟨hash',hh',hlow⟩ := (hback.wellFormed k e he).file hk
  obtain rfl : hash = hash' := Option.some.inj (hh.symm.trans hh')
  exact hlow

/-- A collection that comes to its end with all removals leaves a complete store complete exactly
if the manifests it sees mention every blob that is needed. -/
theorem complete_gc_iff {sha : Sha256} {st t : Store Text} {env : GcEnv}
    (h : AllBacked sha .all st) (hexist : st.sourcesExist = true)
    (hsources : env.sourcesSeen = true) (hblobs : env.blobsSeen = true)
    (hrem : ∀ p, env.removable p = true) (hr : Returns (gcUnreferencedBlobs env) st () t) :
    Complete sha t ↔ ∀ hash, Needed st hash → Mentioned env st hash := by
  have hdir : ∀ sid, t.dir sid = st.dir sid := by
    obtain ⟨-,rfl⟩ := hr
    exact dir_gc env st
  constructor
  · intro ht hash hn
    have hlow := isLowerHexSha256_of_needed h hn
    obtain ⟨sid,text,index,v,mtext,m,k,e,htext,hi,hv,hm,hread,he,hk,hh⟩ := hn
    rw [← hdir] at htext hm
    obtain ⟨index',hi',hall⟩ := ht sid text htext
    obtain rfl : index' = index := Option.some.inj (hi'.symm.trans hi)
    obtain ⟨mtext',m',hm',hread',hfiles⟩ := hall v hv
    obtain rfl : mtext' = mtext := Option.some.inj (hm'.symm.trans hm)
    obtain rfl : m' = m := Option.some.inj (hread'.symm.trans hread)
    obtain ⟨hash',hh',hmem⟩ := hfiles k e he hk
    obtain rfl : hash = hash' := Option.some.inj (hh.symm.trans hh')
    rw [blobPath_of_lowerHex hlow] at hmem
    exact returns_gc_swept hrem hexist hsources hblobs hr _ _ hmem
  · intro hall sid text htext
    rw [hdir] at htext
    obtain ⟨index,hi,hversions⟩ := complete_of_allBacked h sid text htext
    refine ⟨index,hi,?_⟩
    intro v hv
    obtain ⟨mtext,m,hm,hread,hfiles⟩ := hversions v hv
    refine ⟨mtext,m,by rw [hdir]; exact hm,hread,?_⟩
    intro k e he hk
    obtain ⟨hash,hh,hmem⟩ := hfiles k e he hk
    have hn : Needed st hash := ⟨sid,text,index,v,mtext,m,k,e,htext,hi,hv,hm,hread,he,hk,hh⟩
    refine ⟨hash,hh,?_⟩
    rw [blobPath_of_lowerHex (isLowerHexSha256_of_needed h hn)] at hmem ⊢
    obtain ⟨-,rfl⟩ := hr
    exact mem_gc_of_mentioned hmem (hall hash hn)

/-- Every store that calls whose collections see every source can leave is complete, and so is
each destination after such a removal of a source; a single collection keeps a store complete
exactly if it sees a mention of every blob that a listed version needs. -/
theorem reachable_store_complete (sha : Sha256) (prim : Primitives) :
    (∀ st : Store Text, ReachableBy sha prim StoreCall.Sighted st → Complete sha st) ∧
    (∀ (α : Type) (destinations : List Str) (canonical : Str → Except StoreError Str)
      (leases : Except StoreError Unit) (sourcePath : Str) (env : Str → RemoveHistoryEnv Text)
      (commit : Except StoreError α) (disk disk' : Disk Text) (a : α),
      (∀ root, ReachableBy sha prim StoreCall.Sighted (disk.store root)) →
      (∀ root sid, (env root).gc.manifestsSeen sid = true) →
      Returns (removeSourceHistoryWithCommit sha destinations canonical leases sourcePath env
        commit) disk a disk' → ∀ root, Complete sha (disk'.store root)) ∧
    ∀ (st t : Store Text) (env : GcEnv), ReachableBy sha prim StoreCall.Sighted st →
      st.sourcesExist = true → env.sourcesSeen = true → env.blobsSeen = true →
      (∀ p, env.removable p = true) → Returns (gcUnreferencedBlobs env) st () t →
      (Complete sha t ↔ ∀ hash, Needed st hash → Mentioned env st hash) := by
  have hbacked : ∀ {st : Store Text}, ReachableBy sha prim StoreCall.Sighted st →
      AllBacked sha .all st := allBacked_of_sighted fun _ hcall => hcall
  refine ⟨fun st h => complete_of_reachable h,?_,?_⟩
  · intro α destinations canonical leases sourcePath env commit disk disk' a h hsee hr root
    exact complete_of_allBacked (allBacked_removeSourceHistory (fun _ => hsee)
      (fun root => hbacked (h root)) hr root)
  · intro st t env h hexist hsources hblobs hrem hr
    exact complete_gc_iff (hbacked h) hexist hsources hblobs hrem hr

def ascii (text : String) : Bytes := text.toList.map fun c => UInt8.ofNat c.toNat

/-- SHA-256 on the inputs of the runs below. -/
def notesSha : Sha256 := .ofTable
  [(ascii "/home/notes",#v[46,74,207,56,71,122,30,37,227,7,59,133,247,159,15,227,53,112,196,147,
      209,253,178,42,144,51,200,137,91,254,79,86]),
    (ascii "hi",#v[143,67,67,70,100,143,107,150,223,137,221,169,1,197,23,107,16,166,216,57,97,
      221,60,26,200,139,89,178,220,50,122,164]),
    (ascii "ho",#v[168,33,198,46,129,4,248,81,157,99,155,76,9,72,174,206,100,27,20,63,102,1,250,
      20,89,147,187,46,44,114,153,212])]

/-- A watched directory that keeps one version, stored plain. -/
def notesJob : FolderJob where
  watched := ⟨"/home/notes".toList,.directory,true,"main".toList,none⟩
  keepVersions := 1
  scan := ⟨false,.ok fun _ => false,2⟩
  threshold := 0
  codec := ⟨none,false,1,3⟩

/-- A source of one file with the given text and modification time. -/
def oneFile (text : String) (mtime : Nat) : SourceContents :=
  ⟨[.dir [],.file ["a".toList] ⟨.ok ⟨(ascii text).length,some (mtime,0)⟩,.ok (ascii text)⟩],
    ⟨.error [],.error []⟩⟩

def calmGc : GcEnv :=
  ⟨true,true,fun _ => true,fun _ _ => true,true,true,[],fun _ => true,fun _ => true⟩

/-- A call in which nothing fails. -/
def calmEnv (text : String) (mtime : Nat) (scannedAt : Int) (stamp : VersionStamp) : BackupEnv where
  indexAccess := .readable
  blobDirectory := true
  manifestDirectory := .done
  latestAccess := .readable
  view := .ok (none,none)
  source := oneFile text mtime
  scannedAt := scannedAt
  stamp := stamp
  blobWrites _ := ⟨true,[some ⟨some (ascii text),[],Vector.replicate _ 0,.done⟩],[]⟩
  safety := ⟨true,scannedAt,scannedAt⟩
  manifestWrite := .done
  indexWrite := .done
  reportWrite := .done
  prunedRemovable _ := true
  gc := calmGc

def notesId : Str := sourceId notesSha "/home/notes".toList

def morning : VersionStamp := ⟨"20260102-030405-000000000".toList,by decide⟩

def firstEnv : BackupEnv := calmEnv "hi" 7 1767323045 morning

def firstBackup : StoreCall := .backup notesJob firstEnv

def firstStore : Store PlainText := (firstBackup.run notesSha .transparent .empty).store

/-- The index the first backup leaves. -/
def notesIndex : VersionIndex :=
  ⟨1,"/home/notes".toList,[⟨morning.text,1767323045⟩],none,none,none⟩

theorem index_firstStore : (firstStore.dir notesId).index = some (.index notesIndex) := by
  decide +kernel

theorem readFailures_firstStore {mtext : PlainText} {m : Manifest}
    (hf : (firstStore.dir notesId).manifests[manifestName morning.text]? = some mtext)
    (hread : StoreText.readManifest mtext = some m) : m.readFailures = [] := by
  have h : ((firstStore.dir notesId).manifests[manifestName morning.text]?.bind
      StoreText.readManifest).map (·.readFailures) = some [] := by decide +kernel
  rw [hf,Option.bind_some,hread] at h
  exact Option.some.inj h

def oneDisk : Disk PlainText := Disk.setStore "/mnt/main".toList firstStore ∅

def removeNotes : Action (Disk PlainText) StoreError Unit :=
  removeSourceHistoryWithCommit notesSha ["/mnt/main".toList] .ok (.ok ()) "/home/notes".toList
    (fun _ => ⟨true,true,.ok (),calmGc⟩) (.ok ())

theorem reachable_firstStore {A : StoreCall → Prop} (h : A firstBackup) :
    ReachableBy notesSha .transparent A firstStore :=
  .call ⟨firstBackup,h⟩ .start (List.mem_append_right _ (List.mem_singleton_self _))

theorem returns_firstBackup : Returns (backupOneFolder notesSha .transparent notesJob firstEnv)
    .empty ⟨true,some morning.text,1,2,none⟩ firstStore := ⟨by decide +kernel,rfl⟩

/-- One backup lists one version, and the store is complete before and after its removal. -/
theorem reachable_store_complete_first_backup :
    (firstStore.dir notesId).index = some (.index notesIndex) ∧
    Complete notesSha firstStore ∧
    Returns removeNotes oneDisk () (removeNotes oneDisk).store ∧
    ∀ root, Complete notesSha ((removeNotes oneDisk).store.store root) := by
  have hfirst : ReachableBy notesSha .transparent StoreCall.Sighted firstStore :=
    reachable_firstStore fun _ => rfl
  have hreach : ∀ root, ReachableBy notesSha .transparent StoreCall.Sighted (oneDisk.store root) := by
    intro root
    by_cases he : root = "/mnt/main".toList
    · rw [he,oneDisk,Disk.store_setStore_self]
      exact hfirst
    · rw [oneDisk,Disk.store_setStore_of_ne he]
      exact .start
  have hr : Returns removeNotes oneDisk () (removeNotes oneDisk).store := ⟨by decide +kernel,rfl⟩
  obtain ⟨hstore,hremove,-⟩ := @reachable_store_complete PlainText _ notesSha .transparent
  exact ⟨index_firstStore,hstore firstStore hfirst,hr,
    hremove Unit _ _ _ _ _ _ oneDisk _ () hreach (fun _ _ => rfl) hr⟩

def afternoon : VersionStamp := ⟨"20260102-150000-000000000".toList,by decide⟩

/-- The file has changed; the call prunes the first version. -/
def secondEnv : BackupEnv := calmEnv "ho" 8 1767366000 afternoon

/-- The same call, with a collection for which the manifests directory is not there. -/
def blindEnv : BackupEnv := {secondEnv with gc := {calmGc with manifestsSeen := fun _ => false}}

def blindStore : Store PlainText :=
  (backupOneFolder notesSha .transparent notesJob blindEnv firstStore).store

/-- A failed look at its manifests directory makes a backup remove the blob it has just written,
and the call returns. -/
theorem unseen_manifests_lose_blob :
    ReachableStore notesSha .transparent firstStore ∧
    Returns (backupOneFolder notesSha .transparent notesJob blindEnv) firstStore
      ⟨true,some afternoon.text,1,2,none⟩ blindStore ∧
    ¬ Complete notesSha blindStore := by
  refine ⟨reachable_firstStore trivial,⟨by decide +kernel,rfl⟩,?_⟩
  intro h
  have hindex : (blindStore.dir notesId).index = some (.index
      ⟨1,"/home/notes".toList,[⟨afternoon.text,1767366000⟩],none,none,none⟩) := by decide +kernel
  have hfile : ((blindStore.dir notesId).manifests[manifestName
      afternoon.text]?.bind StoreText.readManifest).any fun m =>
        m.entries["a".toList]?.any fun e => e.kind = .file := by decide +kernel
  have hblobs : blindStore.blobs.keys = [] := by decide +kernel
  obtain ⟨index,hi,hall⟩ := h _ _ hindex
  cases hi
  obtain ⟨mtext,m,hm,hr,hfiles⟩ := hall _ (List.mem_singleton_self _)
  rw [hm,Option.bind_some,hr,Option.any_some] at hfile
  obtain ⟨e,he,hkind⟩ := (Option.any_eq_true _ _).mp hfile
  obtain ⟨hash,-,hmem⟩ := hfiles _ _ he (of_decide_eq_true hkind)
  exact List.not_mem_nil (hblobs ▸ mem_keys.mpr hmem)

end StoreCompleteness
end BackupSync
