import BackupSync.BlobInvariant
import BackupSync.ReplicaInterruption
import BackupSync.SafetyScans

/-!
# What a store keeps while retention has nothing to do

A version is kept while the index lists it, its manifest file has the text it
had, and given blobs decode to their hashes. A backup whose source lists fewer
versions than its limit keeps every version of the store after each of its
steps: it adds blobs, files one manifest under a new name and publishes an index
with one version more. A pair of destinations keeps it if the source store lists
the version with the same manifest.
-/
namespace BackupSync
open Interruptible ContentHash SafetyBaseline Retention BackupFolder BackupOutcome StoreInvariant
  SafetyScans BlobInvariant ReplicaContents

namespace KeptVersions

variable {Text : Type} [StoreText Text] {sha : Sha256} {prim : Primitives} {codec : BlobCodec}
  {job : FolderJob} {env : BackupEnv} {sid id : Str} {mtext : Text} {hashes : List Str}
  {st s t : Store Text}

/-- The version is listed, with this manifest file and these blobs. -/
structure Kept (sha : Sha256) (prim : Primitives) (codec : BlobCodec) (sid id : Str) (mtext : Text)
    (hashes : List Str) (st : Store Text) : Prop where
  listed : IndexLists st sid id
  manifest : (st.dir sid).manifests[manifestName id]? = some mtext
  good : ∀ hash ∈ hashes, GoodBlob sha prim codec st hash

/-- The versions the index of a source lists; without a readable index there are none. -/
def listedVersions (st : Store Text) (sid : Str) : List VersionInfo :=
  (((st.dir sid).index.bind StoreText.readIndex).map VersionIndex.versions).getD []

/-- The call sees the index of the source, and one more version does not exceed its limit. -/
structure BelowLimit (sha : Sha256) (job : FolderJob) (env : BackupEnv) (st : Store Text) : Prop where
  seen : env.indexAccess ≠ .unseen
  room : (listedVersions st (sourceId sha job.watched.path)).length < job.keepVersions

theorem prunedBy_eq_nil {index : VersionIndex} (h : index.versions.length ≤ job.keepVersions)
    (hadReadFailures : Bool) : prunedBy job hadReadFailures index = [] := by
  rcases prunedBy_eq job hadReadFailures index with he | he
  · exact he
  · rw [he,collectPrunableVersions_eq]
    have hzero : index.versions.length-(job.keepVersions+(protectedIds index).length) = 0 := by
      omega
    rw [hzero,List.take_zero]

theorem listedVersions_of_scan {scanned : Scanned} (h : ScanOf sha job env st scanned)
    (hseen : env.indexAccess ≠ .unseen) :
    scanned.index.versions = listedVersions st (sourceId sha job.watched.path) := by
  rcases loadIndex_eq_ok h.index_loaded with ⟨hnone,hfresh⟩ | ⟨text,htext,hread,-⟩
  · rw [listedVersions,hnone.resolve_right hseen,hfresh]
    rfl
  · rw [listedVersions,htext,Option.bind_some,hread]
    rfl

/-- With room for one more version the commit prunes nothing. -/
theorem prunedBy_insertVersion {scanned : Scanned} (hscan : ScanOf sha job env st scanned)
    (hroom : BelowLimit sha job env st) {pinned : VersionIndex} (hadj : Adjusts scanned.index pinned)
    (v : VersionInfo) (hadReadFailures : Bool) :
    prunedBy job hadReadFailures (insertVersion job pinned v) = [] := by
  apply prunedBy_eq_nil
  have hlen : (insertVersion job pinned v).versions.length = pinned.versions.length+1 := by
    simp [insertVersion,sortVersions]
  rw [hlen,hadj.versions_eq,listedVersions_of_scan hscan hroom.seen]
  exact hroom.room

section Index

omit [StoreText Text] in
theorem ids_of_versions {a b : VersionIndex} (h : ∀ v ∈ a.versions, v ∈ b.versions)
    (hid : id ∈ a.ids) : id ∈ b.ids := by
  obtain ⟨v,hv,rfl⟩ := List.mem_map.mp hid
  exact List.mem_map_of_mem (h v hv)

/-- A published index that has all versions of the stored one lists what was listed. -/
theorem listed_of_replaced {index : VersionIndex} (hlisted : IndexLists st sid id)
    (hstored : ∀ v ∈ listedVersions st sid, v ∈ index.versions) (h : Replaced sid index st t) :
    IndexLists t sid id ∧ ∀ mtext, (st.dir sid).manifests[manifestName id]? = some mtext →
      (t.dir sid).manifests[manifestName id]? = some mtext := by
  obtain ⟨text,old,htext,hread,hid⟩ := hlisted
  have hold : listedVersions st sid = old.versions := by
    rw [listedVersions,htext,Option.bind_some,hread]
    rfl
  rw [hold] at hstored
  have hnew := ids_of_versions hstored hid
  exact ⟨⟨_,index,h.index_eq,StoreText.readIndex_writeIndex index,hnew⟩,h.manifest id hnew⟩

/-- Every moment of a backup with room lists what was listed, with the same manifest file. -/
theorem listed_of_moves (hroom : BelowLimit sha job env st) (hlisted : IndexLists st sid id)
    (h : Moves sha prim job env st t) :
    IndexLists t sid id ∧ ∀ mtext, (st.dir sid).manifests[manifestName id]? = some mtext →
      (t.dir sid).manifests[manifestName id]? = some mtext := by
  by_cases hsid : sid = sourceId sha job.watched.path
  · subst hsid
    cases h with
    | stays h =>
        obtain ⟨text,index,htext,hread,hid⟩ := hlisted
        exact ⟨⟨text,index,h.index_eq.trans htext,hread,hid⟩,h.manifest _⟩
    | @adjusts scanned pass hfinds h =>
        apply listed_of_replaced hlisted _ h
        intro v hv
        have hadj : Adjusts scanned.index (pinAt sha job env st scanned pass).2.1 :=
          adjusts_pinBaseline job env scanned pass _
        rw [hadj.versions_eq,listedVersions_of_scan hfinds.scanOf hroom.seen]
        exact hv
    | @commits scanned pass hfinds h =>
        apply listed_of_replaced hlisted _ h
        intro v hv
        have hadj : Adjusts scanned.index (pinAt sha job env st scanned pass).2.1 :=
          adjusts_pinBaseline job env scanned pass _
        have hnone : prunedBy job pass.hadReadFailures (insertedIndex sha job env st scanned pass) =
            [] := prunedBy_insertVersion hfinds.scanOf hroom hadj _ _
        rw [← listedVersions_of_scan hfinds.scanOf hroom.seen,← hadj.versions_eq] at hv
        rw [committedIndex,hnone]
        simp [retainUnpruned,insertedIndex,insertVersion,mem_sortVersions,hv]
  · have hdir := h.others_eq hsid
    rw [hdir]
    obtain ⟨text,index,htext,hread,hid⟩ := hlisted
    exact ⟨⟨text,index,by rw [hdir]; exact htext,hread,hid⟩,fun _ hmanifest => hmanifest⟩

end Index

section Backup

/-- A backup with room does not collect garbage, so it keeps what new directories and verified
blobs do not disturb. -/
theorem triple_backup_of {I : Store Text → Prop} (hset : ∀ st sid d, I st → I (st.setDir sid d))
    (hgains : Gains sha prim job.codec I) (hroom : BelowLimit sha job env st) (hst : I st) :
    Triple (fun s => s = st) (backupOneFolder sha prim job env) (fun _ => I) I := by
  have hscan := Spec.remember (m := scanSource sha job env) (keeps_scanSource hset) hst
  refine triple_bind hscan fun scanned => triple_forall fun s hs => ?_
  have hof := (returns_scanSource hs.1).1
  have hprune : ∀ (id : Str) (pass : BlobPass) (manifests : Map Str Text),
      Keeps I (pruneVersions env (sourceId sha job.watched.path) (prunedBy job pass.hadReadFailures
        (insertVersion job (pinBaseline job env scanned pass manifests).2.1
          ⟨id,pass.snapshot.createdAtUnix⟩)) : Store.Op Text Unit) := by
    intro id pass manifests
    rw [prunedBy_insertVersion hof hroom (adjusts_pinBaseline job env scanned pass manifests)]
    exact keeps_pure _
  refine triple_conseq (P := I) (Q := fun _ => I) ?_ ?_ (fun _ _ h => h) fun _ h => h
  · split
    · exact keeps_finishScan hset scanned _
    · refine keeps_read_bind fun u => ?_
      refine keeps_bind (keeps_writeMissingBlobs hgains scanned.prev scanned.snapshot)
        fun written => ?_
      dsimp only
      split
      · exact keeps_finishScan hset scanned _
      · exact keeps_commitVersion hset scanned _ _ (hprune _ _)
  · rintro _ rfl
    exact hs.2

/-- A backup of a source that is below its limit keeps every version of the store. -/
theorem kept_backup (hroom : BelowLimit sha job env st)
    (h : Kept sha prim job.codec sid id mtext hashes st) :
    ∀ t ∈ (backupOneFolder sha prim job env st).states,
      Kept sha prim job.codec sid id mtext hashes t := by
  intro t ht
  obtain ⟨hlisted,hmanifest⟩ := listed_of_moves hroom h.listed (moves_backup ht)
  refine ⟨hlisted,hmanifest mtext h.manifest,?_⟩
  intro hash hmem
  exact (triple_backup_of (fun _ _ _ hgood => hgood) (gains_goodBlob hash) hroom
    (h.good hash hmem)).states (fun _ _ hgood => hgood) rfl ht

end Backup

section Pair

theorem kept_setDir {d : SourceDir Text} {sid' : Str}
    (h : Kept sha prim codec sid id mtext hashes s)
    (hd : sid' = sid → d.index = (s.dir sid).index ∧ d.manifests[manifestName id]? = some mtext) :
    Kept sha prim codec sid id mtext hashes (s.setDir sid' d) := by
  obtain ⟨text,index,htext,hread,hid⟩ := h.listed
  by_cases he : sid' = sid
  · subst he
    obtain ⟨hi,hm⟩ := hd rfl
    refine ⟨⟨text,index,?_,hread,hid⟩,?_,h.good⟩
    · rw [Store.dir_setDir_self,hi,htext]
    · rw [Store.dir_setDir_self,hm]
  · have hdir := Store.dir_setDir_of_ne (Ne.symm he) d s
    refine ⟨⟨text,index,?_,hread,hid⟩,?_,h.good⟩
    · rw [hdir,htext]
    · rw [hdir,h.manifest]

/-- A store that lists the version with the same manifest may be replicated onto this one. -/
theorem undisturbed_kept {src : Store Text} (hlists : IndexLists src sid id)
    (hmanifest : (src.dir sid).manifests[manifestName id]? = some mtext) :
    Undisturbed sha prim codec src (Kept sha prim codec sid id mtext hashes) := by
  constructor
  · exact fun s hs => ⟨hs.listed,hs.manifest,hs.good⟩
  · intro s sid' d hi hm hs
    refine kept_setDir hs ?_
    rintro rfl
    exact ⟨hi,by rw [hm,hs.manifest]⟩
  · intro s sid' id' text' m _ hours _ hs
    refine kept_setDir hs ?_
    rintro rfl
    refine ⟨rfl,?_⟩
    by_cases he : id' = id
    · subst he
      rw [getElem?_insert_self,← hours,hmanifest]
    · rw [getElem?_insert_of_ne (fun h => he (manifestName_injective h).symm),hs.manifest]
  · intro s hash blob hplain hs
    refine ⟨hs.listed,hs.manifest,?_⟩
    intro hash' hmem
    exact gains_goodBlob hash' s hash blob hplain (hs.good hash' hmem)
  · intro s sid' d text' index' htext' hread' hm hs
    by_cases he : sid' = sid
    · subst he
      obtain ⟨text,index,htext,hread,hid⟩ := hlists
      obtain rfl := Option.some.inj (htext'.symm.trans htext)
      obtain rfl := Option.some.inj (hread'.symm.trans hread)
      obtain ⟨v,hv,rfl⟩ := List.mem_map.mp hid
      obtain ⟨mtext',m,hours,htheirs,-,-⟩ := hm.version v hv
      obtain rfl := Option.some.inj (hours.symm.trans hmanifest)
      exact ⟨⟨_,_,hm.index_eq,hread',hid⟩,htheirs,hs.good⟩
    · exact kept_setDir hs fun he' => absurd he' he

end Pair

end KeptVersions
end BackupSync
