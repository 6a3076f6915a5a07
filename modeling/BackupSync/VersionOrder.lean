import BackupSync.BackupOutcome
import BackupSync.ReadableScan
import BackupSync.StoreCompleteness

/-!
# The committed version and the clock

A changed call sorts its new version into the index by creation time and
identifier and prunes from the front in the same call. Both values come from the
wall clock. The new version is the last one, with its manifest in place, exactly
when it sorts after every version listed before; a clock that has stepped back
makes a call prune the version it has just committed.

Under that condition the next call over the same readable source finds nothing
new.
-/
namespace BackupSync
open Interruptible ContentHash ScanSnapshot Retention BackupFolder StoreInvariant BackupOutcome
  StoreCompleteness

namespace VersionOrder

variable {Text : Type} [StoreText Text] {sha : Sha256} {prim : Primitives} {job : FolderJob}
  {env : BackupEnv} {scanned : Scanned} {st t : Store Text} {r : FolderBackupResult}

/-- A version is the last one of an index, has its manifest, and that is the latest one. -/
structure Current (d : SourceDir Text) (index : VersionIndex) (id : Str) (snapshot : Manifest) :
    Prop where
  last : index.versions.getLast?.map (·.id) = some id
  file : d.manifests[manifestName id]? = some (StoreText.writeManifest snapshot)
  latest : latestManifest .readable d index = .ok (some snapshot)

/-- The new version sorts after all that were listed. -/
def SortsLast (index : VersionIndex) (v : VersionInfo) : Prop :=
  ∀ w ∈ index.versions, versionCmp w v = .lt

section Order
variable {before pinned : VersionIndex} {pruned : List VersionInfo} {id : Str} {snapshot : Manifest}

/-- A commit leaves its version last exactly when it sorts last. -/
theorem getLast?_commit (htidy : Tidy before) (hid : id ∉ before.ids)
    (hkeep : 1 ≤ job.keepVersions) (hc : Commits sha job before id snapshot t pinned pruned) :
    (retainUnpruned pruned (insertVersion job pinned ⟨id,snapshot.createdAtUnix⟩)).versions.getLast? =
      some ⟨id,snapshot.createdAtUnix⟩ ↔ SortsLast before ⟨id,snapshot.createdAtUnix⟩ := by
  have hpinned := tidy_adjust htidy hc.adjusts
  have hversions := hc.adjusts.versions_eq
  have hids : pinned.ids = before.ids := by rw [VersionIndex.ids,VersionIndex.ids,hversions]
  have hinsert : (insertVersion job pinned ⟨id,snapshot.createdAtUnix⟩).versions =
      sortVersions (before.versions++[⟨id,snapshot.createdAtUnix⟩]) := by
    rw [insertVersion,hversions]
  refine getLast?_retained_iff hinsert htidy.sorted htidy.nodup hid ?_ hkeep hc.pruned_eq
  intro id' hid'
  rw [← VersionIndex.ids,← hids]
  exact hpinned.pins id' hid'

theorem current_iff (htidy : Tidy before) (hid : id ∉ before.ids) (hkeep : 1 ≤ job.keepVersions)
    (hc : Commits sha job before id snapshot t pinned pruned) :
    Current (t.dir (sourceId sha job.watched.path))
        (retainUnpruned pruned (insertVersion job pinned ⟨id,snapshot.createdAtUnix⟩)) id snapshot ↔
      SortsLast before ⟨id,snapshot.createdAtUnix⟩ := by
  let new : VersionInfo := ⟨id,snapshot.createdAtUnix⟩
  have hlast := getLast?_commit htidy hid hkeep hc
  constructor
  · intro h
    obtain ⟨w,hw,hwid⟩ := Option.map_eq_some_iff.mp h.last
    have hwmem := (List.mem_filter.mp (List.mem_of_getLast? hw)).1
    have hnew : new ∈ (insertVersion job pinned new).versions :=
      mem_sortVersions.mpr (List.mem_append_right _ (List.mem_singleton_self _))
    have hids : pinned.ids = before.ids := by
      rw [VersionIndex.ids,VersionIndex.ids,hc.adjusts.versions_eq]
    have htidy' : Tidy (insertVersion job pinned new) :=
      tidy_insertVersion (tidy_adjust htidy hc.adjusts) (hids ▸ hid)
    obtain rfl : w = new := List.inj_on_of_nodup_map htidy'.nodup hwmem hnew hwid
    exact hlast.mp hw
  · intro h
    have hget := hlast.mpr h
    have hun : id ∉ pruned.map (·.id) :=
      of_decide_eq_true (List.mem_filter.mp (List.mem_of_getLast? hget)).2
    have hfile := hc.manifest_eq hun
    exact ⟨by rw [hget]; rfl,hfile,
      latestManifest_of_file hget hfile (StoreText.readManifest_writeManifest snapshot)⟩

end Order

/-- A scan that sees them loads the index that is there and the latest manifest it leads to. -/
theorem loaded_of_scanOf {text : Text} {index : VersionIndex} {m : Manifest}
    (hof : ScanOf sha job env st scanned) (hsees : SeesLatest env)
    (htext : (st.dir (sourceId sha job.watched.path)).index = some text)
    (hread : StoreText.readIndex text = some index)
    (hlatest : latestManifest .readable (st.dir (sourceId sha job.watched.path)) index = .ok (some m)) :
    scanned.index = index ∧ scanned.prev = some m := by
  have hloaded : scanned.index = index := by
    rcases loadIndex_eq_ok hof.index_loaded with ⟨hnone,-⟩ | ⟨text',htext',hread',-⟩
    · rw [htext] at hnone
      exact (hnone.resolve_left nofun |> hsees.index).elim
    · obtain rfl := Option.some.inj (htext.symm.trans htext')
      exact Option.some.inj (hread'.symm.trans hread)
  have hl := latestManifest_readable hsees.latest hof.prev_loaded
  rw [hloaded] at hl
  exact ⟨hloaded,Except.ok.inj (hl.symm.trans hlatest)⟩

/-- With the latest manifest equal to what the source still holds, a call finds nothing new. -/
theorem unchanged_again {env' : BackupEnv} {prev : Option Manifest} {raw snapshot : Manifest}
    {index : VersionIndex} {id : Str} {r' : FolderBackupResult} {t' : Store Text} {now : Int}
    (hread : SourceReadable job.watched env.source) (hp : PrevKeyed prev)
    (hscan : scanSnapshot sha job.scan job.watched env.source prev now = .ok raw)
    (hentries : snapshot.entries = raw.entries)
    (hindex : (t.dir (sourceId sha job.watched.path)).index = some (StoreText.writeIndex index))
    (hcur : Current (t.dir (sourceId sha job.watched.path)) index id snapshot)
    (hsource : env'.source = env.source) (hsees : SeesLatest env')
    (hr : Returns (backupOneFolder sha prim job env') t r' t') : r'.changed = false := by
  obtain ⟨scanned,hof,⟨hch,-⟩ | ⟨-,hdiff,-⟩⟩ := returns_backupOneFolder hr
  · exact hch
  · exfalso
    obtain ⟨-,hprev⟩ := loaded_of_scanOf hof hsees hindex
      (StoreText.readIndex_writeIndex index) hcur.latest
    obtain ⟨raw',hscan',hentries',-⟩ := hof.scan
    rw [hprev,hsource] at hscan'
    have heq := scanSnapshot_again hread hp hscan hentries hscan'
    rw [hprev] at hdiff
    have hsame : snapshot.manifestsEquivalent scanned.snapshot = true :=
      Manifest.manifestsEquivalent_of_entries (by rw [hentries,hentries',heq])
    rw [unchanged,hsame] at hdiff
    cases hdiff

/-- A changed call leaves its version last, with its manifest the latest one, exactly when the
version sorts after all that were listed; and then a repeated call finds nothing new. -/
theorem committed_version_current_iff {v : Str} (hst : ReachableStore sha prim st)
    (hkeep : 1 ≤ job.keepVersions) (hr : Returns (backupOneFolder sha prim job env) st r t)
    (hch : r.changed = true) (hv : r.versionId = some v) :
    ∃ scanned index snapshot, Snapshots sha prim job env st scanned snapshot ∧
      loadIndex env.indexAccess job.watched.path (st.dir (sourceId sha job.watched.path)) =
        .ok scanned.index ∧
      (t.dir (sourceId sha job.watched.path)).index = some (StoreText.writeIndex index) ∧
      (Current (t.dir (sourceId sha job.watched.path)) index v snapshot ↔
        SortsLast scanned.index ⟨v,env.scannedAt⟩) ∧
      (SortsLast scanned.index ⟨v,env.scannedAt⟩ → SourceReadable job.watched env.source →
        snapshot.readFailures = [] → ∀ (env' : BackupEnv) (r' : FolderBackupResult) (t' : Store Text),
        env'.source = env.source → SeesLatest env' →
        Returns (backupOneFolder sha prim job env') t r' t' → r'.changed = false) := by
  obtain ⟨scanned,hof,⟨hno,-⟩ | ⟨-,-,hid,snapshot,pinned,pruned,hsnap,hnow,hleft,hc⟩⟩ :=
    returns_backupOneFolder hr
  · rw [hch] at hno
    cases hno
  · rw [hv] at hid
    obtain rfl := Option.some.inj hid
    have hback := indexBacked_of_loadIndex (allBacked_of_reachable hst) hof.index_loaded
    have hnew := versionIdFor_not_mem (st.dir (sourceId sha job.watched.path)).manifests env.stamp
    have hiff := current_iff hback.tidy (hback.not_mem_ids hnew) hkeep hc
    rw [hnow] at hiff
    refine ⟨scanned,_,snapshot,hsnap,hof.index_loaded,hnow ▸ hc.index_eq,hiff,?_⟩
    intro hlast hread hempty env' r' t' hsource hsees hr'
    obtain ⟨raw,hscan,hentries,-⟩ := hof.scan
    have hprev := backed_of_latestManifest hback hof.prev_loaded
    have hraw : snapshot.entries = raw.entries := by
      rw [hleft.snapshot_eq.resolve_right fun hne => hne hempty,hentries]
    exact unchanged_again hread (fun p hp => (hprev p hp).wellFormed.keyed) hscan hraw
      (hnow ▸ hc.index_eq) (hiff.mpr hlast) hsource hsees hr'

/-- The first backup of a source is current, and a second one finds nothing new. -/
theorem committed_version_current_first_backup :
    ∃ index snapshot,
      (firstStore.dir notesId).index = some (.index index) ∧
      Current (firstStore.dir notesId) index morning.text snapshot ∧
      ∀ (env' : BackupEnv) (r' : FolderBackupResult) (t' : Store PlainText),
        env'.source = oneFile "hi" 7 → SeesLatest env' →
        Returns (backupOneFolder notesSha .transparent notesJob env') firstStore r' t' →
          r'.changed = false := by
  obtain ⟨scanned,index,snapshot,-,hload,hindex,hiff,hagain⟩ :=
    committed_version_current_iff .start (by decide) returns_firstBackup rfl rfl
  have hlast : SortsLast scanned.index ⟨morning.text,1767323045⟩ := by
    rcases loadIndex_eq_ok hload with ⟨-,hfresh⟩ | ⟨text,ht,-⟩
    · rw [hfresh]
      exact nofun
    · cases ht
  have hcur := hiff.mpr hlast
  refine ⟨index,snapshot,hindex,hcur,?_⟩
  refine hagain hlast ?_ (readFailures_firstStore hcur.file rfl)
  intro item hitem
  rcases List.mem_cons.mp hitem with rfl | hitem
  · trivial
  · obtain rfl := List.mem_singleton.mp hitem
    exact ⟨⟨_,rfl⟩,_,rfl⟩

def dayBefore : VersionStamp := ⟨"20260101-030405-000000000".toList,by decide⟩

def dayBeforeLater : VersionStamp := ⟨"20260101-030406-000000000".toList,by decide⟩

/-- The file has changed and the clock has gone back by a day. -/
def steppedBack : Outcome (Store PlainText) StoreError FolderBackupResult :=
  backupOneFolder notesSha .transparent notesJob (calmEnv "ho" 8 1767236645 dayBefore) firstStore

/-- The call reports its version as committed and has pruned it; so does the next one, with
nothing changed in between. -/
theorem stepped_back_clock_prunes_new_version :
    ReachableStore notesSha .transparent firstStore ∧
    steppedBack.result = .ok ⟨true,some dayBefore.text,1,2,none⟩ ∧
    (steppedBack.store.dir notesId).index = some (.index notesIndex) ∧
    (steppedBack.store.dir notesId).manifests[manifestName dayBefore.text]? = none ∧
    (backupOneFolder notesSha .transparent notesJob
      (calmEnv "ho" 8 1767236646 dayBeforeLater) steppedBack.store).result =
      .ok ⟨true,some dayBeforeLater.text,1,2,none⟩ :=
  ⟨reachable_firstStore trivial,by decide +kernel,by decide +kernel,by decide +kernel,by decide +kernel⟩

end VersionOrder
end BackupSync
