import BackupSync.BackupOutcome
import BackupSync.BlobInvariant
import BackupSync.StoreCompleteness

/-!
# What retention gives back

The garbage collection takes its roots from the manifest files that are there,
listed or not. A call that returns changes the files of its source in step with
its index: the new version joins both, the pruned ones leave both. So a manifest
that no index lists, once there, is never removed by a later backup, and its blobs
stay with it; a store without such manifests has, after a pruning call, exactly
the blobs of the listed versions.
-/
namespace BackupSync
open Checks Interruptible ContentHash SafetyBaseline Retention GarbageCollection BackupFolder
  StoreInvariant BackupOutcome BlobInvariant StoreCompleteness

namespace SpaceReclaim

variable {Text : Type} [StoreText Text]

/-- The index of a source lists a version with this manifest file. -/
def Listed (st : Store Text) (sid name : Str) : Prop :=
  ∃ text index, (st.dir sid).index = some text ∧ StoreText.readIndex text = some index ∧
    ∃ v ∈ index.versions, manifestName v.id = name

/-- Every manifest file belongs to a listed version. -/
def NoStray (st : Store Text) : Prop :=
  ∀ sid name, name ∈ (st.dir sid).manifests → Listed st sid name

/-- A manifest of a listed version mentions the blob. -/
def InUse (sha : Sha256) (st : Store Text) (path : BlobPath) : Prop :=
  ∃ sid name text m hash, Listed st sid name ∧ (st.dir sid).manifests[name]? = some text ∧
    StoreText.readManifest text = some m ∧ hash ∈ manifestHashes m ∧ path = blobPath sha hash

/-- No blob and no manifest is kept for a version that no index lists. -/
structure Reclaimed (sha : Sha256) (st : Store Text) : Prop where
  manifests : NoStray st
  blobs : ∀ path, path ∈ st.blobs ↔ InUse sha st path

section Ledger

/-- How a call changes the manifest files and the index of its source: one new version at most,
and some that are gone from both. -/
structure Ledger (sid : Str) (new : Option Str) (gone : List Str) (st t : Store Text) : Prop where
  others : ∀ sid', sid' ≠ sid → t.dir sid' = st.dir sid'
  files : ∀ name, name ∈ (t.dir sid).manifests ↔
    (name ∈ (st.dir sid).manifests ∨ ∃ id ∈ new, manifestName id = name) ∧
    ∀ id ∈ gone, manifestName id ≠ name
  listed : ∀ name, Listed t sid name ↔
    (Listed st sid name ∨ ∃ id ∈ new, manifestName id = name) ∧
    ∀ id ∈ gone, manifestName id ≠ name
  fresh : ∀ id ∈ new, manifestName id ∉ (st.dir sid).manifests
  known : ∀ id ∈ gone, Listed st sid (manifestName id) ∨ id ∈ new

variable {sid : Str} {new : Option Str} {gone : List Str} {st t : Store Text}

theorem listed_congr {sid : Str} (h : t.dir sid = st.dir sid) (name : Str) :
    Listed t sid name ↔ Listed st sid name := by
  unfold Listed
  rw [h]

/-- A call neither makes stray manifests nor removes them. -/
theorem Ledger.noStray_iff (h : Ledger sid new gone st t) : NoStray t ↔ NoStray st := by
  constructor
  · intro ht sid' name hname
    by_cases hsid : sid' = sid
    · subst hsid
      by_contra hnot
      have hkeep : ∀ id ∈ gone, manifestName id ≠ name := by
        rintro id hid rfl
        rcases h.known id hid with hl | hn
        · exact hnot hl
        · exact h.fresh id hn hname
      have hl := ht sid' name ((h.files name).mpr ⟨.inl hname,hkeep⟩)
      rcases ((h.listed name).mp hl).1 with hl | ⟨id,hid,rfl⟩
      · exact hnot hl
      · exact h.fresh id hid hname
    · rw [← listed_congr (h.others sid' hsid)]
      apply ht sid' name
      rw [h.others sid' hsid]
      exact hname
  · intro hst sid' name hname
    by_cases hsid : sid' = sid
    · subst hsid
      obtain ⟨hold,hkeep⟩ := (h.files name).mp hname
      exact (h.listed name).mpr ⟨hold.imp_left (hst sid' name),hkeep⟩
    · rw [listed_congr (h.others sid' hsid)]
      apply hst sid' name
      rw [← h.others sid' hsid]
      exact hname

end Ledger

section Filed

/-- Every blob is filed under the hash of some content. -/
def Filed (sha : Sha256) (st : Store Text) : Prop :=
  ∀ path ∈ st.blobs, ∃ content, path = blobPath sha (sha256Hex sha content)

omit [StoreText Text] in
theorem surviving_filed (sha : Sha256) : Surviving (Filed sha : Store Text → Prop) :=
  ⟨fun _ _ _ h => h,fun _ _ h p hp => h p (mem_of_mem_eraseBlob hp)⟩

omit [StoreText Text] in
theorem keptBy_filed {sha : Sha256} {prim : Primitives} (codec : BlobCodec) :
    KeptBy sha prim codec (Filed sha : Store Text → Prop) := by
  refine ⟨surviving_filed sha,?_⟩
  intro st hash blob hv h p hp
  obtain ⟨content,-,hhash⟩ := bind_eq_ok.mp hv
  obtain rfl := Except.ok.inj hhash
  rw [Store.putBlob,mem_insert] at hp
  rcases hp with hp | hp
  · exact ⟨content,(Std.LawfulEqCmp.compare_eq_iff_eq.mp hp).symm⟩
  · exact h p hp

theorem filed_of_reachable {sha : Sha256} {prim : Primitives} {A : StoreCall → Prop} {st : Store Text}
    (h : ReachableBy sha prim A st) : Filed sha st := by
  refine Reachable.invariant ?_ ?_ h
  · intro path hp
    simp [Store.empty] at hp
  · rintro ⟨⟨job,env⟩ | ⟨sourcePath,env⟩,-⟩
    · exact (keeps_backup (keptBy_filed job.codec)).void
    · exact (keeps_removeKept (surviving_filed sha) sourcePath env).void

end Filed

section Calls
variable {sha : Sha256} {prim : Primitives} {job : FolderJob} {env : BackupEnv} {scanned : Scanned}
  {sid : Str} {s t u : Store Text} {r : FolderBackupResult}

/-- The files a pass over the pruned versions leaves when every removal succeeds. -/
structure PrunedAll (sid : Str) (pruned : List VersionInfo) (s t : Store Text) : Prop where
  others : ∀ sid', sid' ≠ sid → t.dir sid' = s.dir sid'
  index_eq : (t.dir sid).index = (s.dir sid).index
  files : ∀ name, name ∈ (t.dir sid).manifests ↔ name ∈ (s.dir sid).manifests ∧
    ∀ id ∈ pruned.map (·.id), manifestName id ≠ name
  exist : s.sourcesExist = true → t.sourcesExist = true

variable {pruned : List VersionInfo}

omit [StoreText Text] in
theorem PrunedAll.erase (h : PrunedAll sid pruned s t) (v : VersionInfo) :
    PrunedAll sid (pruned++[v]) s (t.eraseManifest sid (manifestName v.id)) where
  others sid' hne := (Store.dir_setDir_of_ne hne _ _).trans (h.others sid' hne)
  index_eq := by
    rw [Store.eraseManifest,Store.dir_setDir_self]
    exact h.index_eq
  files name := by
    rw [Store.eraseManifest,Store.dir_setDir_self,mem_erase,h.files name]
    simp only [List.map_append,List.mem_append,List.map_cons,List.map_nil,List.mem_singleton,
      or_imp,forall_and,forall_eq,ne_eq,Std.LawfulEqCmp.compare_eq_iff_eq]
    tauto
  exist _ := rfl

omit [StoreText Text] in
theorem returns_removePruned_all (hrem : ∀ id, env.prunedRemovable id = true)
    (hr : Returns (removePruned env sid pruned) s () t) : PrunedAll sid pruned s t := by
  have hstart : PrunedAll sid [] s s := ⟨fun _ _ => rfl,rfl,by simp,fun h => h⟩
  have hall := returns_foldlM_done (fun done _ u => PrunedAll sid done s u) ?_ hstart hr
  · rwa [List.nil_append] at hall
  · intro v _ done _ w _ w' h hw
    rw [if_pos (hrem v.id)] at hw
    obtain rfl := returns_step.mp hw
    exact h.erase v

theorem listed_of_written {index : VersionIndex}
    (h : (t.dir sid).index = some (StoreText.writeIndex index)) (name : Str) :
    Listed t sid name ↔ ∃ v ∈ index.versions, manifestName v.id = name := by
  unfold Listed
  simp [h]

variable {access : Access}

theorem listed_of_loaded {sourcePath : Str} {index : VersionIndex} (hseen : access ≠ .unseen)
    (h : loadIndex access sourcePath (s.dir sid) = .ok index) (name : Str) :
    Listed s sid name ↔ ∃ v ∈ index.versions, manifestName v.id = name := by
  unfold Listed
  rcases loadIndex_eq_ok h with ⟨hnone,rfl⟩ | ⟨text,htext,hread,-⟩
  · simp [hnone.resolve_right hseen,VersionIndex.fresh]
  · simp [htext,hread]

/-- Every blob is mentioned by some manifest file. -/
def Swept (st : Store Text) : Prop := ∀ d n, [d,n] ∈ st.blobs → Referenced st n

theorem returns_pruneVersions_all (hrem : ∀ id, env.prunedRemovable id = true)
    (hexist : s.sourcesExist = true) (hr : Returns (pruneVersions env sid pruned) s () t) :
    PrunedAll sid pruned s t ∧
      (Sighted env.gc → (∀ p, env.gc.removable p = true) → pruned ≠ [] → Swept t) := by
  unfold pruneVersions at hr
  split at hr
  · rename_i hempty
    obtain ⟨-,rfl⟩ := returns_pure.mp hr
    obtain rfl := List.isEmpty_iff.mp hempty
    exact ⟨⟨fun _ _ => rfl,rfl,by simp,fun h => h⟩,fun _ _ h => absurd rfl h⟩
  · obtain ⟨_,w,hw,hgcr⟩ := returns_bind.mp hr
    have hall := returns_removePruned_all hrem hw
    have hsame : SameDirs w t := by
      obtain ⟨-,rfl⟩ := hgcr
      exact dir_gc env.gc w
    have hkeeps : Keeps (fun st : Store Text => st.sourcesExist = true) (gcUnreferencedBlobs env.gc) :=
      keeps_gc env.gc fun _ _ _ h _ => h
    refine ⟨⟨?_,?_,?_,?_⟩,?_⟩
    · intro sid' hne
      rw [hsame sid']
      exact hall.others sid' hne
    · rw [hsame sid]
      exact hall.index_eq
    · intro name
      rw [hsame sid]
      exact hall.files name
    · intro h
      obtain ⟨-,rfl⟩ := hgcr
      exact hkeeps.store (hall.exist h)
    · intro hsees hgc _ d n hmem
      have hmentioned := returns_gc_swept hgc (hall.exist hexist) hsees.sources hsees.blobs hgcr d n hmem
      exact (mentioned_iff hsees.manifests t n).mp ((mentioned_congr hsame n).mpr hmentioned)

/-- The store between the publication of the index and the removals. -/
def committed (sid id : Str) (mtext itext rtext : Text) (s : Store Text) : Store Text :=
  ((s.putManifest sid (manifestName id) mtext).putIndex sid itext).putReport sid rtext

omit [StoreText Text] in
theorem dir_committed_of_ne {sid' id : Str} (h : sid' ≠ sid) (mtext itext rtext : Text)
    (s : Store Text) : (committed sid id mtext itext rtext s).dir sid' = s.dir sid' := by
  simp [committed,Store.putReport,Store.putIndex,Store.putManifest,Store.dir_setDir_of_ne h]

omit [StoreText Text] in
theorem index_committed (id : Str) (mtext itext rtext : Text) (s : Store Text) :
    ((committed sid id mtext itext rtext s).dir sid).index = some itext := by
  simp [committed,Store.putReport,Store.putIndex,Store.putManifest]

omit [StoreText Text] in
theorem mem_manifests_committed (id : Str) (mtext itext rtext : Text) (s : Store Text) (name : Str) :
    name ∈ ((committed sid id mtext itext rtext s).dir sid).manifests ↔
      name ∈ (s.dir sid).manifests ∨ manifestName id = name := by
  simp [committed,Store.putReport,Store.putIndex,Store.putManifest,or_comm]

theorem mem_versions_insertVersion {index pinned : VersionIndex} (hadj : Adjusts index pinned)
    {new v : VersionInfo} : v ∈ (insertVersion job pinned new).versions ↔
      v ∈ index.versions ∨ v = new := by
  simp [insertVersion,mem_sortVersions,hadj.versions_eq]

/-- The commit of a version and the removal of the pruned ones, as changes of files and index. -/
theorem ledger_committed {id : Str} {index pinned : VersionIndex} {created : Int} {path : Str}
    {mtext rtext : Text} (hseen : access ≠ .unseen)
    (hload : loadIndex access path (s.dir sid) = .ok index) (hadj : Adjusts index pinned)
    (hfresh : manifestName id ∉ (s.dir sid).manifests)
    (hpruned : ∀ v ∈ pruned, v ∈ (insertVersion job pinned ⟨id,created⟩).versions)
    (h : PrunedAll sid pruned (committed sid id mtext (StoreText.writeIndex
      (retainUnpruned pruned (insertVersion job pinned ⟨id,created⟩))) rtext s) t) :
    Ledger sid (some id) (pruned.map (·.id)) s t where
  others sid' hne := (h.others sid' hne).trans (dir_committed_of_ne hne _ _ _ _)
  files name := by
    rw [h.files name,mem_manifests_committed]
    simp
  listed name := by
    rw [listed_of_written (h.index_eq.trans (index_committed _ _ _ _ _)),
      listed_of_loaded hseen hload]
    constructor
    · rintro ⟨v,hv,rfl⟩
      obtain ⟨hv,hkeep⟩ := List.mem_filter.mp hv
      refine ⟨?_,?_⟩
      · rcases (mem_versions_insertVersion hadj).mp hv with hv | rfl
        · exact .inl ⟨v,hv,rfl⟩
        · exact .inr ⟨id,rfl,rfl⟩
      · intro i hi heq
        rw [manifestName_injective heq] at hi
        exact absurd hi (by simpa using hkeep)
    · rintro ⟨hold,hkeep⟩
      have hfound : ∃ v ∈ (insertVersion job pinned ⟨id,created⟩).versions,
          manifestName v.id = name := by
        rcases hold with ⟨v,hv,rfl⟩ | ⟨i,hi,rfl⟩
        · exact ⟨v,(mem_versions_insertVersion hadj).mpr (.inl hv),rfl⟩
        · cases hi
          exact ⟨⟨id,created⟩,(mem_versions_insertVersion hadj).mpr (.inr rfl),rfl⟩
      obtain ⟨v,hv,rfl⟩ := hfound
      refine ⟨v,List.mem_filter.mpr ⟨hv,?_⟩,rfl⟩
      simp only [decide_eq_true_eq]
      exact fun hmem => hkeep v.id hmem rfl
  fresh i hi := by
    cases hi
    exact hfresh
  known i hi := by
    obtain ⟨v,hv,rfl⟩ := List.mem_map.mp hi
    rcases (mem_versions_insertVersion hadj).mp (hpruned v hv) with hv | rfl
    · exact .inl ((listed_of_loaded hseen hload _).mpr ⟨v,hv,rfl⟩)
    · exact .inr rfl

theorem ledger_commit {id : Str} {pass : BlobPass} (hseen : access ≠ .unseen)
    (hr : Returns (commitVersion sha job env scanned id pass) s r t)
    (hload : loadIndex access job.watched.path (s.dir (sourceId sha job.watched.path)) =
      .ok scanned.index)
    (hfresh : manifestName id ∉ (s.dir (sourceId sha job.watched.path)).manifests)
    (hrem : ∀ id, env.prunedRemovable id = true) :
    r.versionId = some id ∧ ∃ gone, Ledger (sourceId sha job.watched.path) (some id) gone s t ∧
      (Sighted env.gc → (∀ p, env.gc.removable p = true) → gone ≠ [] → Swept t) := by
  have hr := returns_read_bind.mp hr
  have hadj := adjusts_pinBaseline job env scanned pass
    (s.dir (sourceId sha job.watched.path)).manifests
  obtain ⟨-,hr⟩ := returns_publish_bind.mp hr
  obtain ⟨-,hr⟩ := returns_publish_bind.mp hr
  obtain ⟨-,hr⟩ := returns_publish_bind.mp hr
  obtain ⟨_,w,hprune,hr⟩ := returns_bind.mp hr
  obtain ⟨rfl,rfl⟩ := returns_pure.mp hr
  obtain ⟨hall,hswept⟩ := returns_pruneVersions_all hrem rfl hprune
  refine ⟨rfl,_,ledger_committed hseen hload hadj hfresh ?_ hall,?_⟩
  · intro v hv
    rcases prunedBy_eq job pass.hadReadFailures (insertVersion job (pinBaseline job env scanned pass
      (s.dir (sourceId sha job.watched.path)).manifests).2.1 ⟨id,pass.snapshot.createdAtUnix⟩)
      with hnil | heq
    · rw [hnil] at hv
      cases hv
    · rw [heq] at hv
      exact (sublist_collectPrunableVersions _ _).subset hv
  · intro hsees hgc hne
    apply hswept hsees hgc
    rintro hnil
    rw [hnil] at hne
    exact hne rfl

/-- A call that finds nothing new leaves every manifest and every list of versions. -/
theorem ledger_finishScan {pass : BlobPass} (hseen : access ≠ .unseen)
    (hr : Returns (finishScanWithoutNewVersion sha job env scanned pass) s r t)
    (hload : loadIndex access job.watched.path (s.dir (sourceId sha job.watched.path)) =
      .ok scanned.index) :
    r.versionId = none ∧ Ledger (sourceId sha job.watched.path) none [] s t := by
  obtain ⟨-,hid,hleft⟩ := returns_finishScan hr
  have hothers : ∀ sid', sid' ≠ sourceId sha job.watched.path → t.dir sid' = s.dir sid' := by
    intro sid' hne
    obtain ⟨_,u,hindex,hr⟩ := returns_bind.mp (returns_read_bind.mp hr)
    obtain ⟨-,hr⟩ := returns_publish_bind.mp hr
    obtain ⟨-,rfl⟩ := returns_pure.mp hr
    rw [Store.putReport,Store.dir_setDir_of_ne hne]
    unfold writeIndexIf at hindex
    split at hindex
    · obtain ⟨-,rfl⟩ := returns_publish.mp hindex
      rw [Store.putIndex,Store.dir_setDir_of_ne hne]
    · obtain ⟨-,rfl⟩ := returns_pure.mp hindex
      rfl
  refine ⟨hid,hothers,?_,?_,by simp,by simp⟩
  · intro name
    simp [hleft.manifests_eq]
  · intro name
    rcases hleft.index_eq with heq | ⟨adjusted,hadj,heq⟩
    · simp [Listed,heq]
    · rw [listed_of_written heq,listed_of_loaded hseen hload,hadj.versions_eq]
      simp

theorem Ledger.of_sameDirs {new : Option Str} {gone : List Str} (h : Ledger sid new gone s t)
    (hs : SameDirs u s) : Ledger sid new gone u t where
  others sid' hne := (h.others sid' hne).trans (hs sid')
  files name := by
    rw [h.files name,hs sid]
  listed name := by
    rw [h.listed name,listed_congr (hs sid)]
  fresh i hi := by
    rw [← hs sid]
    exact h.fresh i hi
  known i hi := by
    rw [← listed_congr (hs sid)]
    exact h.known i hi

theorem ledger_backup (hseen : env.indexAccess ≠ .unseen)
    (hr : Returns (backupOneFolder sha prim job env) s r t)
    (hrem : ∀ id, env.prunedRemovable id = true) :
    ∃ gone, Ledger (sourceId sha job.watched.path) r.versionId gone s t ∧
      (Sighted env.gc → (∀ p, env.gc.removable p = true) → gone ≠ [] → Swept t) := by
  obtain ⟨scanned,u,hscan,hr⟩ := returns_bind.mp hr
  obtain ⟨hof,rfl⟩ := returns_scanSource hscan
  have hensure : SameDirs s (s.ensureDir (sourceId sha job.watched.path)) :=
    fun sid => Store.dir_ensureDir _ sid s
  split at hr
  · have hload := hof.index_loaded
    rw [← hensure] at hload
    obtain ⟨hid,hledger⟩ := ledger_finishScan hseen hr hload
    rw [hid]
    exact ⟨[],hledger.of_sameDirs hensure,fun _ _ h => absurd rfl h⟩
  · have hr := returns_read_bind.mp hr
    obtain ⟨written,w,hwrite,hr⟩ := returns_bind.mp hr
    obtain ⟨hdirs,-⟩ := returns_writeMissingBlobs hwrite
    have hsame : SameDirs s w := fun sid => (hdirs sid).trans (hensure sid)
    have hload := hof.index_loaded
    rw [← hsame] at hload
    dsimp only at hr
    split at hr
    · obtain ⟨hid,hledger⟩ := ledger_finishScan hseen hr hload
      rw [hid]
      exact ⟨[],hledger.of_sameDirs hsame,fun _ _ h => absurd rfl h⟩
    · have hfresh := versionIdFor_not_mem
        ((s.ensureDir (sourceId sha job.watched.path)).dir (sourceId sha job.watched.path)).manifests
        env.stamp
      nth_rewrite 1 [← hdirs] at hfresh
      obtain ⟨hid,gone,hledger,hswept⟩ := ledger_commit hseen hr hload hfresh hrem
      rw [hid]
      exact ⟨gone,hledger.of_sameDirs hsame,hswept⟩

end Calls

section Reclaim
variable {sha : Sha256} {prim : Primitives} {job : FolderJob} {env : BackupEnv} {st t : Store Text}
  {r : FolderBackupResult}

/-- The call has dropped a version, an old one or its own, from the index of its source. -/
def Prunes (sid : Str) (r : FolderBackupResult) (st t : Store Text) : Prop :=
  ∃ name, (Listed st sid name ∨ ∃ id ∈ r.versionId, manifestName id = name) ∧ ¬ Listed t sid name

theorem Ledger.gone_of_prunes {sid : Str} {gone : List Str} (h : Ledger sid r.versionId gone st t)
    (hp : Prunes sid r st t) : gone ≠ [] := by
  rintro rfl
  obtain ⟨name,hname,hnot⟩ := hp
  exact hnot ((h.listed name).mpr ⟨hname,by simp⟩)

/-- The blobs of listed versions are there. -/
theorem mem_of_inUse (h : AllBacked sha .all st) {path : BlobPath} (hp : InUse sha st path) :
    path ∈ st.blobs := by
  obtain ⟨sid,name,text,m,hash,⟨itext,index,hi,hread,v,hv,rfl⟩,htext,hm,hhash,rfl⟩ := hp
  obtain ⟨index',hread',hb⟩ := h sid itext hi
  obtain rfl : index' = index := Option.some.inj (hread'.symm.trans hread)
  obtain ⟨-,mtext,m',hmt,hm',hback⟩ := hb.backed v hv
  obtain rfl : mtext = text := Option.some.inj (hmt.symm.trans htext)
  obtain rfl : m' = m := Option.some.inj (hm'.symm.trans hm)
  obtain ⟨k,e,he,hsha⟩ := mem_manifestHashes.mp hhash
  have hok := hback.wellFormed k e he
  cases hkind : e.kind with
  | file => exact hback.blob k e he trivial hkind hash hsha
  | dir =>
      rw [hok.dir hkind] at hsha
      cases hsha

/-- Without stray manifests a swept store has no blob to spare. -/
theorem inUse_of_mem (hfiled : Filed sha st) (hswept : Swept st) (hstray : NoStray st)
    {path : BlobPath} (hp : path ∈ st.blobs) : InUse sha st path := by
  obtain ⟨content,rfl⟩ := hfiled path hp
  have hlow : isLowerHexSha256 (sha256Hex sha content) = true := isLowerHexSha256_sha256Hex content
  rw [blobPath_of_lowerHex hlow] at hp
  obtain ⟨sid,name,text,m,htext,-,hm,hhash⟩ := hswept _ _ hp
  have hname : name ∈ (st.dir sid).manifests :=
    mem_of_getElem? htext
  exact ⟨sid,name,text,m,_,hstray sid name hname,htext,hm,hhash,rfl⟩

/-- The stores of histories in which each call saw its index and returned with its removals done,
or failed or was cut while every manifest and every index was still as it found them. -/
inductive Unbroken (sha : Sha256) (prim : Primitives) : Store Text → Prop
  | start : Unbroken sha prim .empty
  | returned {st t : Store Text} {job : FolderJob} {env : BackupEnv} {r : FolderBackupResult} :
      Unbroken sha prim st → Returns (backupOneFolder sha prim job env) st r t →
      env.indexAccess ≠ .unseen → (∀ id, env.prunedRemovable id = true) → Unbroken sha prim t
  | early {st t : Store Text} {job : FolderJob} {env : BackupEnv} :
      Unbroken sha prim st → t ∈ (backupOneFolder sha prim job env st).states → SameDirs st t →
      Unbroken sha prim t

theorem noStray_of_unbroken (h : Unbroken sha prim st) : NoStray st := by
  induction h with
  | start =>
      intro sid name hname
      simp [Store.dir,Store.empty,SourceDir.empty] at hname
  | returned _ hr hseen hrem ih =>
      obtain ⟨gone,hledger,-⟩ := ledger_backup hseen hr hrem
      exact hledger.noStray_iff.mpr ih
  | early _ _ hsame ih =>
      intro sid name hname
      rw [listed_congr (hsame sid)]
      apply ih sid name
      rw [← hsame sid]
      exact hname

/-- Where looks at the store succeed, a pruning call with all its removals leaves nothing but the
listed versions exactly if there was no stray manifest before it, and unbroken histories leave
none. -/
theorem retention_reclaims_iff (sha : Sha256) (prim : Primitives) :
    (∀ (st t : Store Text) (job : FolderJob) (env : BackupEnv) (r : FolderBackupResult),
      ReachableBy sha prim StoreCall.Sighted st → env.indexAccess ≠ .unseen → Sighted env.gc →
      Returns (backupOneFolder sha prim job env) st r t →
      (∀ id, env.prunedRemovable id = true) → (∀ p, env.gc.removable p = true) →
      Prunes (sourceId sha job.watched.path) r st t → (Reclaimed sha t ↔ NoStray st)) ∧
    ∀ st : Store Text, Unbroken sha prim st → NoStray st := by
  refine ⟨?_,fun st h => noStray_of_unbroken h⟩
  intro st t job env r hst hseen hsees hr hrem hgc hp
  obtain ⟨gone,hledger,hswept⟩ := ledger_backup hseen hr hrem
  have ht : ReachableBy sha prim StoreCall.Sighted t := by
    refine .call ⟨.backup job env,hsees.manifests⟩ hst (List.mem_append_right _ ?_)
    obtain ⟨-,rfl⟩ := hr
    exact List.mem_singleton_self _
  rw [← hledger.noStray_iff]
  constructor
  · intro h
    exact h.manifests
  · intro hstray
    refine ⟨hstray,?_⟩
    intro path
    constructor
    · intro hpath
      exact inUse_of_mem (filed_of_reachable ht) (hswept hsees hgc (hledger.gone_of_prunes hp)) hstray hpath
    · intro hpath
      exact mem_of_inUse (allBacked_of_sighted (fun _ hc => hc) ht) hpath

end Reclaim

def night : VersionStamp := ⟨"20260102-220000-000000000".toList,by decide⟩

/-- The file is gone. -/
def thirdEnv : BackupEnv :=
  {calmEnv "ho" 9 1767391200 night with source := ⟨[.dir []],⟨.error [],.error []⟩⟩}

/-- The second backup of the example prunes the first one. -/
def secondStore : Store PlainText :=
  (backupOneFolder notesSha .transparent notesJob secondEnv firstStore).store

theorem returns_second : Returns (backupOneFolder notesSha .transparent notesJob secondEnv) firstStore
    ⟨true,some afternoon.text,1,2,none⟩ secondStore := ⟨by decide +kernel,rfl⟩

theorem retention_reclaims_second_backup :
    Prunes notesId ⟨true,some afternoon.text,1,2,none⟩ firstStore secondStore ∧
      Reclaimed notesSha secondStore := by
  have hsecond : (secondStore.dir notesId).index = some (.index
      ⟨1,"/home/notes".toList,[⟨afternoon.text,1767366000⟩],none,none,none⟩) := by decide +kernel
  have hprunes : Prunes notesId ⟨true,some afternoon.text,1,2,none⟩ firstStore secondStore := by
    refine ⟨manifestName morning.text,.inl ?_,?_⟩
    · rw [listed_of_written index_firstStore]
      exact ⟨_,List.mem_singleton_self _,rfl⟩
    · rw [listed_of_written hsecond]
      rintro ⟨v,hv,heq⟩
      rw [List.mem_singleton.mp hv] at heq
      exact absurd heq (by decide)
  obtain ⟨hiff,hunbroken⟩ := @retention_reclaims_iff PlainText _ notesSha .transparent
  refine ⟨hprunes,?_⟩
  refine (hiff firstStore secondStore notesJob secondEnv _
    (reachable_firstStore fun _ => rfl) nofun ⟨rfl,fun _ => rfl,rfl⟩ returns_second
    (fun _ => rfl) (fun _ => rfl) hprunes).mpr ?_
  exact hunbroken firstStore (.returned .start returns_firstBackup nofun fun _ => rfl)

/-- The first backup, cut after its manifest was written. -/
def cutStore : Store PlainText := ((firstBackup.run notesSha .transparent .empty).trail[2]?).getD .empty

def straySecondStore : Store PlainText :=
  (backupOneFolder notesSha .transparent notesJob secondEnv cutStore).store

def strayThirdStore : Store PlainText :=
  (backupOneFolder notesSha .transparent notesJob thirdEnv straySecondStore).store

theorem reachable_straySecondStore :
    ReachableBy notesSha .transparent StoreCall.Sighted straySecondStore := by
  have hcut : cutStore ∈ (firstBackup.run notesSha .transparent (.empty : Store PlainText)).states := by
    apply List.mem_append_left
    apply List.mem_of_getElem? (i := 2)
    unfold cutStore
    cases h : (firstBackup.run notesSha .transparent (.empty : Store PlainText)).trail[2]? with
    | none => exact absurd (congrArg Option.isSome h) (by decide +kernel)
    | some st => rfl
  refine .call ⟨.backup notesJob secondEnv,fun _ => rfl⟩
    (.call ⟨firstBackup,fun _ => rfl⟩ .start hcut) ?_
  exact List.mem_append_right _ (List.mem_singleton_self _)

/-- Two backups later the blob of the cut one is still there, although the last of them pruned and
no listed version mentions it. -/
theorem stray_manifest_keeps_blob :
    ReachableBy notesSha .transparent StoreCall.Sighted straySecondStore ∧
    Returns (backupOneFolder notesSha .transparent notesJob thirdEnv) straySecondStore
      ⟨true,some night.text,0,0,none⟩ strayThirdStore ∧
    Prunes notesId ⟨true,some night.text,0,0,none⟩ straySecondStore strayThirdStore ∧
    blobPath notesSha (sha256Hex notesSha (ascii "hi")) ∈ strayThirdStore.blobs ∧
    ¬ InUse notesSha strayThirdStore (blobPath notesSha (sha256Hex notesSha (ascii "hi"))) := by
  have hsecond : (straySecondStore.dir notesId).index = some (.index
      ⟨1,"/home/notes".toList,[⟨afternoon.text,1767366000⟩],none,none,none⟩) := by decide +kernel
  have hthird : (strayThirdStore.dir notesId).index = some (.index
      ⟨1,"/home/notes".toList,[⟨night.text,1767391200⟩],none,none,none⟩) := by decide +kernel
  have hkeys : strayThirdStore.sources.keys = [notesId] := by decide +kernel
  refine ⟨reachable_straySecondStore,⟨by decide +kernel,rfl⟩,?_,by decide +kernel,?_⟩
  · refine ⟨manifestName afternoon.text,.inl ?_,?_⟩
    · rw [listed_of_written hsecond]
      exact ⟨_,List.mem_singleton_self _,rfl⟩
    · rw [listed_of_written hthird]
      rintro ⟨v,hv,heq⟩
      rw [List.mem_singleton.mp hv] at heq
      exact absurd heq (by decide)
  · rintro ⟨sid,name,text,m,hash,hlisted,htext,hm,hhash,-⟩
    obtain rfl : sid = notesId := by
      have hmem : sid ∈ strayThirdStore.sources.keys := by
        obtain ⟨itext,-,hi,-⟩ := hlisted
        rw [mem_keys,mem_iff_isSome_getElem?]
        cases hd : strayThirdStore.sources[sid]? with
        | none => simp [Store.dir,hd,SourceDir.empty] at hi
        | some d => rfl
      rw [hkeys] at hmem
      exact List.mem_singleton.mp hmem
    obtain ⟨v,hv,rfl⟩ := (listed_of_written hthird name).mp hlisted
    rw [List.mem_singleton.mp hv] at htext
    have hall : ((strayThirdStore.dir notesId).manifests[manifestName night.text]?.bind
        StoreText.readManifest).all fun m => manifestHashes m = [] := by
      decide +kernel
    rw [htext,Option.bind_some,hm,Option.all_some,decide_eq_true_eq] at hall
    rw [hall] at hhash
    cases hhash

end SpaceReclaim
end BackupSync
