import BackupSync.StoreInvariant

/-!
# What a returning backup has done

A call that returns has loaded the index and the latest manifest, scanned the
source, and then either found nothing new or committed the snapshot its blob
pass left. The inversion lemmas say so stage by stage, with the exact index and
manifest files of the final store; blobs are the business of the store
invariant.
-/
namespace BackupSync
open Checks Interruptible ContentHash ScanSnapshot SafetyBaseline Retention GarbageCollection
  BackupFolder StoreInvariant

namespace BackupOutcome

variable {Text : Type} [StoreText Text] {sha : Sha256} {prim : Primitives} {job : FolderJob}
  {env : BackupEnv} {scanned : Scanned} {st s t : Store Text} {r : FolderBackupResult}

/-- The two stores have the same files below every source directory. -/
def SameDirs (a b : Store Text) : Prop := ∀ sid, b.dir sid = a.dir sid

/-- A call that does not take its index or its latest manifest for missing. -/
structure SeesLatest (env : BackupEnv) : Prop where
  index : env.indexAccess ≠ .unseen
  latest : env.latestAccess ≠ .unseen

/-- What the scan has read from the store and the source. -/
structure ScanOf (sha : Sha256) (job : FolderJob) (env : BackupEnv) (st : Store Text)
    (scanned : Scanned) : Prop where
  index_loaded : loadIndex env.indexAccess job.watched.path
    (st.dir (sourceId sha job.watched.path)) = .ok scanned.index
  prev_loaded : latestManifest env.latestAccess (st.dir (sourceId sha job.watched.path))
    scanned.index = .ok scanned.prev
  scan : ∃ raw, scanSnapshot sha job.scan job.watched env.source scanned.prev env.scannedAt =
      .ok raw ∧ scanned.snapshot.entries = raw.entries ∧
    scanned.snapshot.readFailures = raw.readFailures ∧
    scanned.snapshot.createdAtUnix = env.scannedAt

theorem scanSnapshot_createdAtUnix {opts : ScanOptions} {watched : WatchedPath}
    {source : SourceContents} {prev : Option Manifest} {now : Int} {m : Manifest}
    (h : scanSnapshot sha opts watched source prev now = .ok m) : m.createdAtUnix = now := by
  obtain ⟨ignore,-,h⟩ := bind_eq_ok.mp h
  cases h
  rfl

theorem returns_scanSource (hr : Returns (scanSource sha job env) st scanned t) :
    ScanOf sha job env st scanned ∧ t = st.ensureDir (sourceId sha job.watched.path) := by
  obtain ⟨index,hindex,hr⟩ := returns_lift_bind.mp (returns_read_bind.mp hr)
  obtain ⟨-,hr⟩ := returns_check_bind.mp hr
  obtain ⟨-,hr⟩ := returns_publish_bind.mp hr
  obtain ⟨prev,hprev,hr⟩ := returns_lift_bind.mp hr
  obtain ⟨view,-,hr⟩ := returns_lift_bind.mp hr
  obtain ⟨raw,hraw,hr⟩ := returns_lift_bind.mp hr
  obtain ⟨rfl,rfl⟩ := returns_pure.mp hr
  have hscan := mapError_eq_ok.mp hraw
  have hnow : raw.createdAtUnix = env.scannedAt := scanSnapshot_createdAtUnix hscan
  exact ⟨⟨hindex,hprev,raw,hscan,rfl,rfl,hnow⟩,rfl⟩

section Pass
variable {prev : Option Manifest} {snapshot : Manifest}

omit [StoreText Text] in
theorem sameDirs_writeBlob (hash : Str) (path : BlobPath) (env : BlobWriteEnv) (s : Store Text) :
    SameDirs s (writeBlob sha prim job hash path env s).store := by
  have h := @triple_writeBlob Text sha prim (SameDirs s) (fun _ _ _ h => h) job hash path env
  have hkeeps : Keeps (SameDirs s) (writeBlob sha prim job hash path env) :=
    triple_post h (fun _ _ h => h.1)
  exact hkeeps.store fun _ => rfl

/-- What is left of a scanned snapshot once its blobs are written: all of it, or a snapshot
that records a failure and has only scanned and previous entries. -/
structure LeftOf (prev : Option Manifest) (scanned snapshot : Manifest) : Prop where
  createdAtUnix_eq : snapshot.createdAtUnix = scanned.createdAtUnix
  snapshot_eq : snapshot = scanned ∨ snapshot.readFailures ≠ []
  origin : ∀ (k : Str) (e : ManifestEntry), snapshot.entries[k]? = some e →
    scanned.entries[k]? = some e ∨ prevAt prev k = some e

theorem LeftOf.fail {scanned : Manifest} {pass : BlobPass} {failure : ReadFailure}
    {entries : Entries} (h : LeftOf prev scanned pass.snapshot)
    (hent : ∀ (k : Str) (e : ManifestEntry), entries[k]? = some e →
      pass.snapshot.entries[k]? = some e ∨ prevAt prev k = some e) :
    LeftOf prev scanned (failPass pass failure entries).snapshot := by
  refine ⟨h.createdAtUnix_eq,.inr (by simp [failPass]),?_⟩
  intro k e he
  rcases hent k e he with he | he
  · exact h.origin k e he
  · exact .inr he

omit [StoreText Text] in
theorem returns_writeMissingBlob {scanned : Manifest} {relPath : Str} {pass pass' : BlobPass}
    {u : Store Text} (h : SameDirs s t ∧ LeftOf prev scanned pass.snapshot)
    (hr : Returns (writeMissingBlob sha prim job env prev pass relPath) t pass' u) :
    SameDirs s u ∧ LeftOf prev scanned pass'.snapshot := by
  unfold writeMissingBlob at hr
  split at hr
  · obtain ⟨rfl,rfl⟩ := returns_pure.mp hr
    exact h
  · split at hr
    · obtain ⟨rfl,rfl⟩ := returns_pure.mp hr
      refine ⟨h.1,h.2.fail ?_⟩
      intro k e he
      rw [getElem?_erase] at he
      split at he
      · cases he
      · exact .inl he
    · rename_i hash _
      have hbody := returns_read_bind.mp hr
      split at hbody
      · obtain ⟨rfl,rfl⟩ := returns_pure.mp hbody
        exact h
      · obtain ⟨outcome,w,hw,hp⟩ := returns_bind.mp hbody
        obtain ⟨rfl,rfl⟩ := returns_pure.mp hp
        obtain ⟨-,rfl⟩ := returns_attempt.mp hw
        have hsame : SameDirs t (writeBlob sha prim job hash (blobPath sha hash)
          (env.blobWrites relPath) t).store := sameDirs_writeBlob _ _ _ _
        refine ⟨fun sid => (hsame sid).trans (h.1 sid),?_⟩
        cases outcome with
        | ok bytes => exact h.2
        | error err =>
            refine h.2.fail ?_
            intro k e he
            rw [getElem?_revertEntry] at he
            split at he
            · rename_i hk
              exact .inr (hk ▸ he)
            · exact .inl he

omit [StoreText Text] in
theorem returns_writeMissingBlobs {written : BlobPass}
    (hr : Returns (writeMissingBlobsForSnapshot sha prim job env prev snapshot) s written t) :
    SameDirs s t ∧ LeftOf prev snapshot written.snapshot := by
  refine returns_foldlM (fun pass u => SameDirs s u ∧ LeftOf prev snapshot pass.snapshot) ?_
    ⟨fun _ => rfl,rfl,.inl rfl,fun _ _ he => .inl he⟩ hr
  intro relPath _ pass u pass' u' h hstep
  exact returns_writeMissingBlob h hstep

end Pass

section Commit
variable {sid : Str}

/-- The index is untouched, and so is every manifest that is not pruned. -/
structure Unpruned (sid : Str) (pruned : List VersionInfo) (s t : Store Text) : Prop where
  index_eq : (t.dir sid).index = (s.dir sid).index
  manifest_eq : ∀ id, id ∉ pruned.map (·.id) →
    (t.dir sid).manifests[manifestName id]? = (s.dir sid).manifests[manifestName id]?

variable {pruned : List VersionInfo}

omit [StoreText Text] in
theorem returns_removePruned (hr : Returns (removePruned env sid pruned) s () t) :
    Unpruned sid pruned s t := by
  have hstep : ∀ v ∈ pruned, ∀ u : Store Text, Unpruned sid pruned s u →
      Unpruned sid pruned s (u.eraseManifest sid (manifestName v.id)) := by
    intro v hv u h
    rw [Store.eraseManifest]
    refine ⟨by rw [Store.dir_setDir_self]; exact h.index_eq,?_⟩
    intro id hid
    have hne : manifestName v.id ≠ manifestName id := fun he =>
      hid (List.mem_map.mpr ⟨v,hv,manifestName_injective he⟩)
    rw [Store.dir_setDir_self,← h.manifest_eq id hid]
    simp [getElem?_erase,hne]
  refine returns_foldlM (fun _ u => Unpruned sid pruned s u) ?_ ⟨rfl,fun _ _ => rfl⟩ hr
  intro v hv _ u _ w h hw
  split at hw
  · obtain rfl := returns_step.mp hw
    exact hstep v hv u h
  · obtain ⟨-,rfl⟩ := returns_pure.mp hw
    exact h

theorem returns_pruneVersions (hr : Returns (pruneVersions env sid pruned) s () t) :
    Unpruned sid pruned s t := by
  unfold pruneVersions at hr
  split at hr
  · obtain ⟨-,rfl⟩ := returns_pure.mp hr
    exact ⟨rfl,fun _ _ => rfl⟩
  · obtain ⟨_,u,hrem,hgc⟩ := returns_bind.mp hr
    obtain ⟨-,rfl⟩ := hgc
    have h := returns_removePruned hrem
    have hdir := dir_gc env.gc u sid
    exact ⟨by rw [hdir]; exact h.index_eq,fun id hid => by rw [hdir]; exact h.manifest_eq id hid⟩

/-- A version was committed: its manifest, and an index sorted with it and then pruned. -/
structure Commits (sha : Sha256) (job : FolderJob) (index : VersionIndex) (id : Str)
    (snapshot : Manifest) (t : Store Text) (pinned : VersionIndex) (pruned : List VersionInfo) :
    Prop where
  adjusts : Adjusts index pinned
  pruned_eq : pruned = [] ∨ pruned = collectPrunableVersions
    (insertVersion job pinned ⟨id,snapshot.createdAtUnix⟩) job.keepVersions
  index_eq : (t.dir (sourceId sha job.watched.path)).index = some (StoreText.writeIndex
    (retainUnpruned pruned (insertVersion job pinned ⟨id,snapshot.createdAtUnix⟩)))
  manifest_eq : id ∉ pruned.map (·.id) →
    (t.dir (sourceId sha job.watched.path)).manifests[manifestName id]? =
      some (StoreText.writeManifest snapshot)

/-- A committed version that is still listed was not pruned. -/
theorem not_pruned_of_listed {index pinned listed : VersionIndex} {id : Str} {snapshot : Manifest}
    {text : Text} (h : Commits sha job index id snapshot t pinned pruned)
    (htext : (t.dir (sourceId sha job.watched.path)).index = some text)
    (hread : StoreText.readIndex text = some listed) (hid : id ∈ listed.ids) :
    id ∉ pruned.map (·.id) := by
  obtain rfl := Option.some.inj (htext.symm.trans h.index_eq)
  rw [StoreText.readIndex_writeIndex] at hread
  obtain rfl := Option.some.inj hread
  obtain ⟨v,hv,rfl⟩ := List.mem_map.mp hid
  exact of_decide_eq_true (List.mem_filter.mp hv).2

theorem prunedBy_eq (job : FolderJob) (hadReadFailures : Bool) (index : VersionIndex) :
    prunedBy job hadReadFailures index = [] ∨
      prunedBy job hadReadFailures index = collectPrunableVersions index job.keepVersions := by
  unfold prunedBy
  split
  · exact .inl rfl
  · exact .inr rfl

theorem returns_commitVersion {id : Str} {pass : BlobPass}
    (hr : Returns (commitVersion sha job env scanned id pass) s r t) :
    r.changed = true ∧ r.versionId = some id ∧
      ∃ pinned pruned, Commits sha job scanned.index id pass.snapshot t pinned pruned := by
  have hr := returns_read_bind.mp hr
  have hadj := adjusts_pinBaseline job env scanned pass
    (s.dir (sourceId sha job.watched.path)).manifests
  obtain ⟨-,hr⟩ := returns_publish_bind.mp hr
  obtain ⟨-,hr⟩ := returns_publish_bind.mp hr
  obtain ⟨-,hr⟩ := returns_publish_bind.mp hr
  obtain ⟨_,u,hprune,hr⟩ := returns_bind.mp hr
  obtain ⟨rfl,rfl⟩ := returns_pure.mp hr
  have hun := returns_pruneVersions hprune
  refine ⟨rfl,rfl,_,_,hadj,prunedBy_eq job pass.hadReadFailures _,?_,?_⟩
  · rw [hun.index_eq]
    simp [Store.putReport,Store.putIndex]
  · intro hid
    rw [hun.manifest_eq id hid]
    simp [Store.putReport,Store.putIndex,Store.putManifest]

/-- Nothing was committed: the listed versions and their manifests are as before. -/
structure LeftAlone (sid : Str) (index : VersionIndex) (s t : Store Text) : Prop where
  manifests_eq : (t.dir sid).manifests = (s.dir sid).manifests
  index_eq : (t.dir sid).index = (s.dir sid).index ∨ ∃ adjusted, Adjusts index adjusted ∧
    (t.dir sid).index = some (StoreText.writeIndex adjusted)

theorem returns_finishScan {pass : BlobPass}
    (hr : Returns (finishScanWithoutNewVersion sha job env scanned pass) s r t) :
    r.changed = false ∧ r.versionId = none ∧
      LeftAlone (sourceId sha job.watched.path) scanned.index s t := by
  have hr := returns_read_bind.mp hr
  have hadj := adjusts_pinBaseline job env scanned pass
    (s.dir (sourceId sha job.watched.path)).manifests
  obtain ⟨_,u,hindex,hr⟩ := returns_bind.mp hr
  obtain ⟨-,hr⟩ := returns_publish_bind.mp hr
  obtain ⟨rfl,rfl⟩ := returns_pure.mp hr
  refine ⟨rfl,rfl,?_⟩
  unfold writeIndexIf at hindex
  split at hindex
  · obtain ⟨-,rfl⟩ := returns_publish.mp hindex
    exact ⟨by simp [Store.putReport,Store.putIndex],
      .inr ⟨_,hadj,by simp [Store.putReport,Store.putIndex]⟩⟩
  · obtain ⟨-,rfl⟩ := returns_pure.mp hindex
    exact ⟨by simp [Store.putReport],.inl (by simp [Store.putReport])⟩

end Commit

/-- The snapshot a call has scanned, after its blobs were written. -/
def Snapshots (sha : Sha256) (prim : Primitives) (job : FolderJob) (env : BackupEnv)
    (st : Store Text) (scanned : Scanned) (snapshot : Manifest) : Prop :=
  ∃ written s u, Returns (scanSource sha job env) st scanned s ∧
    Returns (writeMissingBlobsForSnapshot sha prim job env scanned.prev scanned.snapshot) s
      written u ∧ snapshot = written.snapshot

/-- The scanned snapshot, before or after the pass over its blobs, does not differ from the
latest manifest. -/
def NothingNew (sha : Sha256) (prim : Primitives) (job : FolderJob) (env : BackupEnv)
    (scanned : Scanned) (st t : Store Text) : Prop :=
  ∃ snapshot : Manifest,
    (snapshot = scanned.snapshot ∨ Snapshots sha prim job env st scanned snapshot) ∧
    unchanged scanned.prev snapshot = true ∧
    LeftAlone (sourceId sha job.watched.path) scanned.index st t

/-- A call that returns found nothing new or committed what it found. -/
theorem returns_backupOneFolder (hr : Returns (backupOneFolder sha prim job env) st r t) :
    ∃ scanned, ScanOf sha job env st scanned ∧
      ((r.changed = false ∧ NothingNew sha prim job env scanned st t) ∨
      (r.changed = true ∧ unchanged scanned.prev scanned.snapshot = false ∧
        let id := versionIdFor (st.dir (sourceId sha job.watched.path)).manifests env.stamp
        r.versionId = some id ∧
        ∃ snapshot pinned pruned, Snapshots sha prim job env st scanned snapshot ∧
          snapshot.createdAtUnix = env.scannedAt ∧
          LeftOf scanned.prev scanned.snapshot snapshot ∧
          Commits sha job scanned.index id snapshot t pinned pruned)) := by
  obtain ⟨scanned,s,hscan,hr⟩ := returns_bind.mp hr
  obtain ⟨hof,rfl⟩ := returns_scanSource hscan
  obtain ⟨-,-,-,-,hnow⟩ := hof.scan
  have hsid := Store.dir_ensureDir (sourceId sha job.watched.path) (sourceId sha job.watched.path) st
  refine ⟨scanned,hof,?_⟩
  split at hr
  · rename_i hsame
    obtain ⟨hch,-,hleft⟩ := returns_finishScan hr
    exact .inl ⟨hch,_,.inl rfl,hsame,hsid ▸ hleft.1,hsid ▸ hleft.2⟩
  · rename_i hdiff
    have hr := returns_read_bind.mp hr
    obtain ⟨written,u,hwrite,hr⟩ := returns_bind.mp hr
    obtain ⟨hdirs,hleft⟩ := returns_writeMissingBlobs hwrite
    have hdir := (hdirs (sourceId sha job.watched.path)).trans hsid
    rw [hsid] at hr
    dsimp only at hr
    split at hr
    · rename_i hsame
      obtain ⟨hch,-,hrest⟩ := returns_finishScan hr
      exact .inl ⟨hch,_,.inr ⟨written,_,u,hscan,hwrite,rfl⟩,hsame,hdir ▸ hrest.1,hdir ▸ hrest.2⟩
    · obtain ⟨hch,hid,pinned,pruned,hcommit⟩ := returns_commitVersion hr
      exact .inr ⟨hch,by simpa using hdiff,hid,_,pinned,pruned,⟨written,_,u,hscan,hwrite,rfl⟩,
        hleft.createdAtUnix_eq.trans hnow,hleft,hcommit⟩

end BackupOutcome
end BackupSync
