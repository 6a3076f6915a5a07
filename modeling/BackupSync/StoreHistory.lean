import BackupSync.BackupRestore
import BackupSync.KeptVersions

/-!
# A version lasts as long as it is listed

A store records a version while an index lists it and its manifest file is the one it
was committed with. No later call changes that file: a backup files its manifest under
a name that is free, and only what is no longer listed is removed. So a version that
every later call leaves listed is restored to the tree it was made from, whatever those
calls did, wherever they failed and after whichever step they were cut. The same holds
of a replica: replication returns only after it has compared the manifests and decoded
every blob, so the main store is not needed for the restore.
-/
namespace BackupSync
open Interruptible Interruptible.Action ContentHash BackupFolder StoreInvariant BlobInvariant
  SafetyScans Replication ReplicaContents BackupRestore StoreCompleteness

namespace StoreHistory

variable {Text : Type} [StoreText Text] {sha : Sha256} {prim : Primitives} {job : FolderJob}
  {env : BackupEnv} {tree : SourceTree} {r : FolderBackupResult} {sid id : Str} {m : Manifest}
  {st t u : Store Text}

/-- Calls of the given kind, complete or cut, each of which leaves the version listed. -/
inductive Lasts (sha : Sha256) (prim : Primitives) (A : StoreCall → Prop) (sid id : Str)
    (st : Store Text) : Store Text → Prop
  | start : Lasts sha prim A sid id st st
  | call {t u : Store Text} (call : StoreCall) : A call → Lasts sha prim A sid id st t →
      u ∈ (call.run sha prim t).states → IndexLists u sid id → Lasts sha prim A sid id st u

theorem manifest_of_replaced {index : VersionIndex} (h : Replaced sid index st t)
    (hlisted : IndexLists t sid id) {text : Text}
    (hm : (st.dir sid).manifests[manifestName id]? = some text) :
    (t.dir sid).manifests[manifestName id]? = some text := by
  obtain ⟨itext,index',hitext,hread,hid⟩ := hlisted
  rw [h.index_eq] at hitext
  obtain rfl := Option.some.inj hitext
  rw [StoreText.readIndex_writeIndex] at hread
  obtain rfl := Option.some.inj hread
  exact h.manifest id hid text hm

/-- A step on another source leaves the directory alone; on the same one, what is still listed
keeps its manifest file. -/
theorem manifest_of_moves (h : Moves sha prim job env st t) (hlisted : IndexLists t sid id)
    {text : Text} (hm : (st.dir sid).manifests[manifestName id]? = some text) :
    (t.dir sid).manifests[manifestName id]? = some text := by
  by_cases hsid : sid = sourceId sha job.watched.path
  · subst hsid
    cases h with
    | stays h => exact h.manifest _ text hm
    | adjusts _ h => exact manifest_of_replaced h hlisted hm
    | commits _ h => exact manifest_of_replaced h hlisted hm
  · rw [h.others_eq hsid]
    exact hm

theorem manifest_of_clears {source : Str} (h : Clears source st t) (hlisted : IndexLists t sid id)
    {text : Text} (hm : (st.dir sid).manifests[manifestName id]? = some text) :
    (t.dir sid).manifests[manifestName id]? = some text := by
  by_cases hsid : sid = source
  · subst hsid
    cases h with
    | stays h => exact h.manifest _ text hm
    | clears h => exact manifest_of_replaced h hlisted hm
  · have hdir : t.dir sid = st.dir sid := by
      cases h with
      | stays h => exact h.others sid hsid
      | clears h => exact h.others sid hsid
    rw [hdir]
    exact hm

/-- No call changes the manifest of a version it leaves listed. -/
theorem records_run {call : StoreCall} (h : Records sid id m st)
    (ht : t ∈ (call.run sha prim st).states) (hlisted : IndexLists t sid id) :
    Records sid id m t := by
  obtain ⟨text,hfile,hread⟩ := h.manifest
  refine ⟨hlisted,text,?_,hread⟩
  cases call with
  | backup job env => exact manifest_of_moves (moves_backup ht) hlisted hfile
  | removeKept sourcePath env =>
      have hclears : Clears (sourceId sha sourcePath) st t :=
        (triple_index_removeKept sourcePath env).states (fun _ _ h => h) rfl ht
      exact manifest_of_clears hclears hlisted hfile

theorem records_lasts {A : StoreCall → Prop} (h : Records sid id m st)
    (hlasts : Lasts sha prim A sid id st t) : Records sid id m t := by
  induction hlasts with
  | start => exact h
  | call call _ _ hu hlisted ih => exact records_run ih hu hlisted

theorem reachable_lasts {A : StoreCall → Prop} (h : ReachableBy sha prim A st)
    (hlasts : Lasts sha prim A sid id st t) : ReachableBy sha prim A t := by
  induction hlasts with
  | start => exact h
  | call call hA _ hu _ ih => exact .call ⟨call,hA⟩ ih hu

/-- Replication copies the record of a version, with blobs that decode. -/
theorem records_replica [DecidableEq Text] {codec : BlobCodec} {penv : PairEnv} {cfg : Config}
    {srcId : Str} {pair : PairCounters} (h : Records sid id m st) (hseen : penv.storeSeen = true)
    (hsources : st.sourcesExist = true)
    (hr : Returns (replicateOnePair sha prim codec st penv cfg srcId) t pair u) :
    Records sid id m u ∧ BlobsGood sha prim codec m u := by
  obtain ⟨itext,index,hindex,hread,hid⟩ := h.listed
  obtain ⟨text,hfile,hmanifest⟩ := h.manifest
  obtain ⟨index',hread',hmirrors⟩ := returns_replicateOnePair hr hseen hsources sid itext hindex
  obtain rfl := Option.some.inj (hread.symm.trans hread')
  obtain ⟨v,hv,rfl⟩ := List.mem_map.mp hid
  obtain ⟨mtext,m',hours,htheirs,hmread,hblobs⟩ := hmirrors.version v hv
  obtain rfl := Option.some.inj (hfile.symm.trans hours)
  obtain rfl := Option.some.inj (hmanifest.symm.trans hmread)
  exact ⟨⟨⟨itext,index,hmirrors.index_eq,hread,hid⟩,text,htheirs,hmread⟩,hblobs⟩

/-- A readable, unchanging tree that was backed up is what a restore gives back, not only at once
but after any further calls on the store that leave the version listed, as long as they encrypt with
the same key or not at all and their collections see every source. -/
theorem restored_while_listed (h : CleanBackup sha prim job env tree st r t)
    (hreach : ReachableBy sha prim (CleanCall job.codec.cipher) st) :
    ∃ id m, CurrentVersion (t.dir (sourceId sha job.watched.path)) id m ∧ ∀ u,
      Lasts sha prim (CleanCall job.codec.cipher) (sourceId sha job.watched.path) id t u →
      Set.InjOn (sha256Hex sha) (involved prim job.codec tree u) →
      GivesBack sha prim job.codec.cipher tree job.watched.path id m u := by
  obtain ⟨id,m,hcur,hvalid,hd⟩ := h.current (allBacked_of_reachable hreach)
  refine ⟨id,m,hcur,?_⟩
  intro u hlasts hinj
  have hrec := records_lasts (records_of_current hcur) hlasts
  have hlater := reachable_lasts (h.reachable hreach) hlasts
  exact givesBack_of_records hrec hvalid hd
    (good_of_records (allBacked_of_sighted (fun _ hc => hc.sighted) hlater)
      (readable_of_reachable (fun _ hc => hc.readable) hlater) hrec hd) hinj

/-- What a replica is for: once a replication has returned, the tree is restored from the replica
alone, whatever calls with whatever keys came between the backup and the replication, as long as the
version was listed then. -/
theorem restored_from_replica [DecidableEq Text] {A : StoreCall → Prop}
    (h : CleanBackup sha prim job env tree st r t) (hreach : ReachableBy sha prim A st) :
    ∃ id m, CurrentVersion (t.dir (sourceId sha job.watched.path)) id m ∧
      ∀ u, Lasts sha prim A (sourceId sha job.watched.path) id t u → u.sourcesExist = true →
      ∀ (codec : BlobCodec) (penv : PairEnv) (cfg : Config) (srcId : Str) (before replica : Store Text)
        (pair : PairCounters), penv.storeSeen = true →
        Returns (replicateOnePair sha prim codec u penv cfg srcId) before pair replica →
        Set.InjOn (sha256Hex sha) (involved prim codec tree replica) →
        GivesBack sha prim codec.cipher tree job.watched.path id m replica := by
  obtain ⟨id,m,hcur,hvalid,hd⟩ := h.current (allBacked_of_reachable hreach)
  refine ⟨id,m,hcur,?_⟩
  intro u hlasts hsources codec penv cfg srcId before replica pair hseen hreplicate hinj
  obtain ⟨hrec,hgood⟩ :=
    records_replica (records_lasts (records_of_current hcur) hlasts) hseen hsources hreplicate
  exact givesBack_of_records hrec hvalid hd hgood hinj

section Notes
variable {m : Manifest} {st : Store PlainText} {id : Str}

theorem cleanBackup_notes : CleanBackup notesSha .transparent notesJob firstEnv notesTree .empty
    ⟨true,some morning.text,1,2,none⟩ firstStore where
  kind := rfl
  keep := by decide
  bounded := ⟨(by intro c hc; cases hc),by decide⟩
  walks := walks_notesTree 7
  calm := calmBlobs_notesTree 7 _ _
  sighted _ := rfl
  hashes index prev hi hp := by
    rw [Store.dir_empty] at hi hp
    obtain rfl := Except.ok.inj hi
    obtain rfl := Except.ok.inj hp
    intro names read found content _ _ _ p hash h
    cases h
  clock _ index hi := by
    rw [Store.dir_empty] at hi
    obtain rfl := Except.ok.inj hi
    exact ⟨by decide +kernel,nofun⟩
  returned := returns_firstBackup

theorem current_firstStore
    (h : CurrentVersion (firstStore.dir notesId) id m) :
    id = morning.text := by
  obtain ⟨itext,index,v,mtext,hindex,hread,hlast,rfl,-,-⟩ := h
  obtain rfl := Option.some.inj (index_firstStore.symm.trans hindex)
  obtain rfl := Option.some.inj hread
  obtain rfl := Option.some.inj hlast
  rfl

/-- Two contents with different hashes. -/
theorem injOn_notes (hst : ∀ b ∈ st.blobs.toList, b.2 = ascii "hi" ∨ b.2 = ascii "ho") :
    Set.InjOn (sha256Hex notesSha) (involved .transparent notesJob.codec notesTree st) := by
  have hall : ∀ c ∈ involved .transparent notesJob.codec notesTree st,
      c = ascii "hi" ∨ c = ascii "ho" := by
    rintro c (⟨names,h⟩ | ⟨path,blob,h,hdecode⟩)
    · rcases notesNodes_eq h with ⟨-,⟨⟩⟩ | ⟨-,heq⟩
      cases heq
      exact .inl rfl
    · have hblob : blob = ascii "hi" ∨ blob = ascii "ho" :=
        hst _ (mem_toList_iff_getElem?_eq_some.mpr h)
      rcases hblob with rfl | rfl
      · exact .inl (Except.ok.inj hdecode).symm
      · exact .inr (Except.ok.inj hdecode).symm
  have hdiffer : sha256Hex notesSha (ascii "hi") ≠ sha256Hex notesSha (ascii "ho") := by
    decide +kernel
  intro a ha b hb hab
  rcases hall a ha with rfl | rfl <;> rcases hall b hb with rfl | rfl
  · rfl
  · exact absurd hab hdiffer
  · exact absurd hab.symm hdiffer
  · rfl

/-- The file was edited a minute after the first backup, and two versions may be kept. -/
def keepTwoJob : FolderJob := {notesJob with keepVersions := 2}

def editedEnv : BackupEnv :=
  calmEnv "ho" 8 1767323112 ⟨"20260102-030512-000000000".toList,by decide⟩

def editedStore : Store PlainText :=
  (backupOneFolder notesSha .transparent keepTwoJob editedEnv firstStore).store

theorem lasts_editedStore : Lasts notesSha .transparent (CleanCall notesJob.codec.cipher)
    notesId morning.text firstStore editedStore := by
  refine .call (.backup keepTwoJob editedEnv) ⟨fun c hc => ⟨c,hc,rfl⟩,fun _ => rfl⟩ .start ?_ ?_
  · exact List.mem_append_right _ (List.mem_singleton_self _)
  · refine ⟨_,_,(by decide +kernel : _ = some (.index ⟨1,"/home/notes".toList,
      [⟨morning.text,1767323045⟩,⟨"20260102-030512-000000000".toList,1767323112⟩],none,none,
      none⟩)),rfl,?_⟩
    decide

/-- After the file was edited and backed up again, the first version is still restored. -/
theorem restored_while_listed_after_edit : ∃ result area',
    Returns (restoreNotes notesJob.codec editedStore morning.text) emptyArea result area' ∧
      area'.target.nodes = notesTree.nodes := by
  obtain ⟨id,m,hcurrent,hrestore⟩ := restored_while_listed cleanBackup_notes .start
  obtain rfl := current_firstStore hcurrent
  exact (hrestore editedStore lasts_editedStore (injOn_notes (by decide +kernel))).notes

/-- The replica was damaged before the replication. -/
theorem restored_from_replica_damaged : ∃ result area',
    Returns (restoreNotes notesJob.codec (replicateFirst damagedReplica).store morning.text) emptyArea
      result area' ∧ area'.target.nodes = notesTree.nodes := by
  have hr : Returns replicateFirst damagedReplica ⟨1,1,4,1⟩ (replicateFirst damagedReplica).store :=
    ⟨by decide +kernel,rfl⟩
  obtain ⟨id,m,hcurrent,hrestore⟩ :=
    @restored_from_replica _ _ _ _ _ _ _ _ _ _ _ (fun _ => True) cleanBackup_notes .start
  obtain rfl := current_firstStore hcurrent
  exact (hrestore firstStore .start (by decide +kernel) _ _ _ _ _ _ _ rfl hr
    (injOn_notes (by decide +kernel))).notes

end Notes

end StoreHistory
end BackupSync
