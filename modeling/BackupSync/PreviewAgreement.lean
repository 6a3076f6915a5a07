import BackupSync.BackupPreview
import BackupSync.BackupRestore
import BackupSync.SafetyMachine
import BackupSync.UnchangedSources

/-!
# The account of simulation and cycle

The simulation counts every changed file whose blob is missing before the cycle;
the cycle writes every missing blob once, in the store as it is by then. So what is
announced again, or is there by the time its source has its turn, is counted too
often; what is missing though its file has not changed, or was collected in between,
is not counted. The two sums balance: the numbers agree if and only if these agree.
-/
namespace BackupSync
open Checks Interruptible ContentHash ScanSnapshot BackupFolder BackupOutcome BackupRestore
  SafetyScans BackupCycle BackupPreview SafetyMachine StoreCompleteness BackupSync.Configuration
  UnchangedSources

namespace PreviewAgreement

variable {Text : Type} [StoreText Text] {sha : Sha256} {prim : Primitives} {job : FolderJob}
  {env : BackupEnv} {prev : Option Manifest} {snapshot : Manifest} {s t : Store Text}

/-- The blobs of the files of a manifest, one for each file. -/
def fileBlobs (sha : Sha256) (m : Manifest) : List BlobPath :=
  m.entries.toList.filterMap fun item => blobOf sha item.2

/-- The blobs of a manifest that are missing, one for each file. -/
def missingBlobs (sha : Sha256) (blobs : Map BlobPath Bytes) (m : Manifest) :
    List BlobPath := (fileBlobs sha m).filter (· ∉ blobs)

/-- Every file of the snapshot reads back as the content its hash was taken of, and its blob can
be written. -/
def Writable (sha : Sha256) (codec : BlobCodec) (env : BackupEnv) (snapshot : Manifest) : Prop :=
  ∀ (k : Str) (e : ManifestEntry), snapshot.entries[k]? = some e → e.kind = .file →
    ∃ content, e.sha256 = some (sha256Hex sha content) ∧ CalmBlob codec content (env.blobWrites k) ∧
      (codec.cipher = none → codec.writeCompressionEnabled = false →
        ¬ BlobCodec.MagicPrefixed content)

section Pass

/-- The blob of the file with a relative path. -/
def blobAt (sha : Sha256) (m : Manifest) (relPath : Str) : Option BlobPath :=
  m.entries[relPath]?.bind (blobOf sha)

theorem filterMap_blobAt (hk : snapshot.Keyed) :
    (fileRelPaths snapshot).filterMap (blobAt sha snapshot) = fileBlobs sha snapshot := by
  unfold fileRelPaths fileBlobs
  rw [List.filterMap_filterMap]
  refine List.filterMap_congr ?_
  intro item hitem
  have hget := mem_toList_iff_getElem?_eq_some.mp hitem
  unfold blobOf
  by_cases hf : item.2.kind = .file
  · rw [if_pos hf,if_pos hf,Option.bind_some,blobAt,hk _ _ hget,hget,Option.bind_some,blobOf,if_pos hf]
  · rw [if_neg hf,if_neg hf,Option.bind_none]

/-- The pass so far: its counter and the blobs of the files it is through with. -/
structure PassDone (sha : Sha256) (snapshot : Manifest) (s : Store Text) (done : List Str)
    (pass : BlobPass) (u : Store Text) : Prop where
  snapshot_eq : pass.snapshot = snapshot
  written : pass.blobsWritten =
    ((done.filterMap (blobAt sha snapshot)).filter (· ∉ s.blobs)).toFinset.card
  blobs_iff : ∀ path, path ∈ u.blobs ↔ path ∈ s.blobs ∨ path ∈ done.filterMap (blobAt sha snapshot)

omit [StoreText Text] in
theorem card_missing_snoc (blobs : Map BlobPath Bytes) (l : List BlobPath)
    (path : BlobPath) : ((l++[path]).filter (· ∉ blobs)).toFinset.card =
      (l.filter (· ∉ blobs)).toFinset.card+if path ∈ blobs ∨ path ∈ l then 0 else 1 := by
  rw [List.filter_append,List.toFinset_append]
  by_cases hb : path ∈ blobs
  · simp [hb]
  · have hone : ([path].filter (· ∉ blobs)).toFinset = {path} := by simp [hb]
    rw [hone]
    by_cases hl : path ∈ l
    · rw [if_pos (.inr hl),Finset.union_eq_left.mpr (by simp [hb,hl]),Nat.add_zero]
    · rw [if_neg (by simp [hb,hl]),Finset.card_union_of_disjoint (by simp [hl]),
        Finset.card_singleton]

omit [StoreText Text] in
/-- One file: its blob is found or written, and counted if it is new. -/
theorem passDone_step {done : List Str} {pass pass' : BlobPass} {relPath : Str} {u u' : Store Text}
    {e : ManifestEntry} (hb : job.codec.Bounded) (hw : Writable sha job.codec env snapshot)
    (he : snapshot.entries[relPath]? = some e) (hf : e.kind = .file)
    (h : PassDone sha snapshot s done pass u)
    (hr : Returns (writeMissingBlob sha prim job env prev pass relPath) u pass' u') :
    PassDone sha snapshot s (done++[relPath]) pass' u' := by
  obtain ⟨content,hhash,hcalm,hplain⟩ := hw relPath e he hf
  have hat : blobAt sha snapshot relPath = some (blobPath sha (sha256Hex sha content)) := by
    rw [blobAt,he,Option.bind_some,blobOf,if_pos hf,hhash]
    rfl
  have hmap : (done++[relPath]).filterMap (blobAt sha snapshot) =
      done.filterMap (blobAt sha snapshot)++[blobPath sha (sha256Hex sha content)] := by
    rw [List.filterMap_append,List.filterMap_cons_some hat,List.filterMap_nil]
  rw [writeMissingBlob,h.snapshot_eq,he] at hr
  dsimp only at hr
  rw [hhash] at hr
  have hbody := returns_read_bind.mp hr
  split at hbody
  · rename_i hmem
    obtain ⟨rfl,rfl⟩ := returns_pure.mp hbody
    have hknown := (h.blobs_iff _).mp hmem
    refine ⟨h.snapshot_eq,?_,?_⟩
    · rw [hmap,card_missing_snoc,if_pos hknown]
      exact h.written
    · intro path
      rw [hmap,List.mem_append,List.mem_singleton,h.blobs_iff]
      constructor
      · rintro (hp | hp)
        · exact .inl hp
        · exact .inr (.inl hp)
      · rintro (hp | hp | rfl)
        · exact .inl hp
        · exact .inr hp
        · exact hknown
  · rename_i hmem
    obtain ⟨outcome,v,hattempt,hp⟩ := returns_bind.mp hbody
    obtain ⟨rfl,rfl⟩ := returns_pure.mp hp
    have hwrite := @runs_writeBlob Text sha prim job u content _ hb hplain hcalm
    obtain ⟨bytes,v',hbytes,blob,rfl⟩ := hwrite u rfl
    obtain ⟨hres,hstore⟩ := returns_attempt.mp hattempt
    obtain rfl : outcome = .ok bytes := hres.symm.trans hbytes.1
    obtain rfl : u.putBlob (blobPath sha (sha256Hex sha content)) blob = u' :=
      hbytes.2.symm.trans hstore
    have hnew : ¬ (blobPath sha (sha256Hex sha content) ∈ s.blobs ∨
        blobPath sha (sha256Hex sha content) ∈ done.filterMap (blobAt sha snapshot)) :=
      fun hknown => hmem ((h.blobs_iff _).mpr hknown)
    refine ⟨h.snapshot_eq,?_,?_⟩
    · rw [hmap,card_missing_snoc,if_neg hnew,← h.written]
      rfl
    · intro path
      rw [hmap,List.mem_append,List.mem_singleton,Store.putBlob,mem_insert,
        h.blobs_iff,Std.LawfulEqCmp.compare_eq_iff_eq]
      constructor
      · rintro (hp | hp | hp)
        · exact .inr (.inr hp.symm)
        · exact .inl hp
        · exact .inr (.inl hp)
      · rintro (hp | hp | hp)
        · exact .inr (.inl hp)
        · exact .inr (.inr hp)
        · exact .inl hp.symm

omit [StoreText Text] in
/-- The pass over a steady snapshot writes each missing blob once. -/
theorem returns_steadyPass {written : BlobPass} (hb : job.codec.Bounded) (hk : snapshot.Keyed)
    (hw : Writable sha job.codec env snapshot)
    (hr : Returns (writeMissingBlobsForSnapshot sha prim job env prev snapshot) s written t) :
    written.snapshot = snapshot ∧
      written.blobsWritten = (missingBlobs sha s.blobs snapshot).toFinset.card := by
  have hstart : PassDone sha snapshot s [] ⟨snapshot,0,0,false⟩ s :=
    ⟨rfl,rfl,fun path => by simp⟩
  have hdone := returns_foldlM_done (PassDone sha snapshot s) ?_ hstart hr
  · rw [List.nil_append] at hdone
    have hwritten := hdone.written
    rw [filterMap_blobAt hk] at hwritten
    exact ⟨hdone.snapshot_eq,hwritten⟩
  · intro relPath hrel done pass u pass' u' h hstep
    obtain ⟨item,hitem,hpath⟩ := List.mem_filterMap.mp hrel
    have hget := mem_toList_iff_getElem?_eq_some.mp hitem
    split at hpath
    · rename_i hf
      obtain rfl : item.1 = relPath := (hk _ _ hget).symm.trans (Option.some.inj hpath)
      exact passDone_step hb hw hget hf h hstep
    · cases hpath

end Pass

section Folder
variable {st : Store Text} {plan scanned : Scanned} {r : FolderBackupResult}

/-- Two scans that compare the same files with the same manifest. -/
structure SameScan (plan scanned : Scanned) : Prop where
  prev_eq : scanned.prev = plan.prev
  entries_eq : scanned.snapshot.entries = plan.snapshot.entries

theorem SameScan.unchanged_eq (h : SameScan plan scanned) :
    unchanged scanned.prev scanned.snapshot = unchanged plan.prev plan.snapshot := by
  unfold unchanged Manifest.manifestsEquivalent
  rw [h.prev_eq,h.entries_eq]

theorem SameScan.fileBlobs_eq (h : SameScan plan scanned) :
    fileBlobs sha scanned.snapshot = fileBlobs sha plan.snapshot := by
  unfold fileBlobs
  rw [h.entries_eq]

/-- Whoever sees the index of a source loads the versions that were listed in another store. -/
structure Level (sid : Str) (st t : Store Text) : Prop where
  manifests_eq : (t.dir sid).manifests = (st.dir sid).manifests
  versions : ∀ access path index, access ≠ .unseen → loadIndex access path (t.dir sid) = .ok index →
    ∃ index₀, loadIndex .readable path (st.dir sid) = .ok index₀ ∧ index.versions = index₀.versions

theorem level_self (sid : Str) (st : Store Text) : Level sid st st :=
  ⟨rfl,fun _ _ index hseen h => ⟨index,loadIndex_readable hseen h,rfl⟩⟩

theorem Level.of_dir_eq {sid : Str} {u : Store Text} (h : Level sid st s)
    (hdir : u.dir sid = s.dir sid) : Level sid st u := by
  refine ⟨by rw [hdir,h.manifests_eq],?_⟩
  rw [hdir]
  exact h.versions

/-- The path is written only into an index that lists nothing. -/
theorem loadIndex_path {path : Str} {d : SourceDir Text} {index : VersionIndex}
    (h : loadIndex .readable path d = .ok index) (path' : Str) :
    ∃ index', loadIndex .readable path' d = .ok index' ∧ index'.versions = index.versions := by
  unfold loadIndex at h ⊢
  cases hd : d.index with
  | none =>
      rw [hd] at h
      cases h
      exact ⟨_,rfl,rfl⟩
  | some text =>
      rw [hd] at h
      exact ⟨index,h,rfl⟩

/-- An index whose safety fields alone have changed. -/
theorem Level.quiet {sid path : Str} {access : Access} {index : VersionIndex} {u : Store Text}
    (h : Level sid st s) (hseen : access ≠ .unseen)
    (hindex : loadIndex access path (s.dir sid) = .ok index) (hq : Quiet sid index s u) :
    Level sid st u := by
  refine ⟨hq.left.manifests_eq.trans h.manifests_eq,?_⟩
  intro access' path' index' hseen' hload
  rcases hq.left.index_eq with hi | ⟨adjusted,hadj,hi⟩
  · apply h.versions access' path' index' hseen'
    unfold loadIndex at hload ⊢
    rw [← hi]
    exact hload
  · obtain ⟨index₀,hload₀,hv⟩ := h.versions access path index hseen hindex
    obtain ⟨index₁,hload₁,hv₁⟩ := loadIndex_path hload₀ path'
    refine ⟨index₁,hload₁,?_⟩
    rcases loadIndex_eq_ok hload with ⟨hnone | hunseen,-⟩ | ⟨text,htext,hread,-⟩
    · rw [hi] at hnone
      cases hnone
    · exact absurd hunseen hseen'
    · obtain rfl := Option.some.inj (hi.symm.trans htext)
      rw [StoreText.readIndex_writeIndex] at hread
      cases hread
      rw [hv₁,← hv,hadj.versions_eq]

theorem returns_commitVersion_counts {pass : BlobPass} {id : Str}
    (hr : Returns (commitVersion sha job env scanned id pass) s r t) :
    r.changed = true ∧ r.blobsWritten = pass.blobsWritten := by
  have hr := returns_read_bind.mp hr
  obtain ⟨-,hr⟩ := returns_publish_bind.mp hr
  obtain ⟨-,hr⟩ := returns_publish_bind.mp hr
  obtain ⟨-,hr⟩ := returns_publish_bind.mp hr
  obtain ⟨_,u,-,hr⟩ := returns_bind.mp hr
  obtain ⟨rfl,-⟩ := returns_pure.mp hr
  exact ⟨rfl,rfl⟩

/-- What one backup of a steady source counts and leaves. -/
structure FolderDone (sha : Sha256) (sid : Str) (plan : Scanned) (start st : Store Text)
    (r : FolderBackupResult) (t : Store Text) : Prop where
  changed_eq : r.changed = !unchanged plan.prev plan.snapshot
  written_eq : r.blobsWritten =
    if unchanged plan.prev plan.snapshot then 0
    else (missingBlobs sha st.blobs plan.snapshot).toFinset.card
  level : unchanged plan.prev plan.snapshot = true → Level sid start t

theorem returns_steadyFolder {start : Store Text} (hb : job.codec.Bounded)
    (hsees : SeesLatest env) (hkey : plan.snapshot.Keyed)
    (hplan : ∀ scanned, ScanOf sha job env st scanned → SameScan plan scanned)
    (hw : Writable sha job.codec env plan.snapshot)
    (hlevel : Level (sourceId sha job.watched.path) start st)
    (hr : Returns (backupOneFolder sha prim job env) st r t) :
    FolderDone sha (sourceId sha job.watched.path) plan start st r t := by
  obtain ⟨scanned,s,hscan,hr⟩ := returns_bind.mp hr
  obtain ⟨hof,rfl⟩ := returns_scanSource hscan
  have hsame := hplan scanned hof
  have hkey : scanned.snapshot.Keyed := by
    intro k e he
    exact hkey k e (hsame.entries_eq ▸ he)
  have hw' : Writable sha job.codec env scanned.snapshot := by
    intro k e he
    exact hw k e (hsame.entries_eq ▸ he)
  split at hr
  · rename_i hunchanged
    rw [hsame.unchanged_eq] at hunchanged
    have hdirs : SameDirs st (st.ensureDir (sourceId sha job.watched.path)) :=
      fun sid => Store.dir_ensureDir _ _ _
    obtain ⟨hc,hq⟩ := (triple_quiet_finishScan _).returns hdirs hr
    refine ⟨by rw [hc,hunchanged]; rfl,?_,fun _ => hlevel.quiet hsees.index hof.index_loaded hq⟩
    rw [if_pos hunchanged]
    have hr := returns_read_bind.mp hr
    obtain ⟨_,u,-,hr⟩ := returns_bind.mp hr
    obtain ⟨-,hr⟩ := returns_publish_bind.mp hr
    obtain ⟨rfl,-⟩ := returns_pure.mp hr
    rfl
  · rename_i hchanged
    rw [hsame.unchanged_eq] at hchanged
    have hr := returns_read_bind.mp hr
    obtain ⟨written,u,hwrite,hr⟩ := returns_bind.mp hr
    obtain ⟨hsnap,hcount⟩ := returns_steadyPass hb hkey hw' hwrite
    have hstill : unchanged scanned.prev written.snapshot = unchanged plan.prev plan.snapshot := by
      rw [hsnap]
      exact hsame.unchanged_eq
    dsimp only at hr
    rw [hstill,if_neg hchanged] at hr
    obtain ⟨hc,hn⟩ := returns_commitVersion_counts hr
    have hmissing : missingBlobs sha (st.ensureDir (sourceId sha job.watched.path)).blobs
        scanned.snapshot = missingBlobs sha st.blobs plan.snapshot := by
      unfold missingBlobs
      rw [hsame.fileBlobs_eq]
      rfl
    refine ⟨?_,?_,fun h => absurd h hchanged⟩
    · rw [hc,Bool.eq_false_iff.mpr hchanged]
      rfl
    · rw [hn,if_neg hchanged,← hmissing]
      exact hcount

end Folder

section Counts
variable {plan : Scanned}

/-- An entry without a change is the previous one, as far as its blob goes. -/
theorem changeOf_eq_none_iff {item : Str × ManifestEntry} : (changeOf prev item).isSome = false ↔
    ∃ p, prevAt prev item.1 = some p ∧ p.kind = item.2.kind ∧
      (item.2.kind = .file → p.sha256 = item.2.sha256) := by
  unfold changeOf
  cases prevAt prev item.1 with
  | none => simp
  | some p =>
      dsimp only
      by_cases h : p.kind ≠ item.2.kind ∨ (item.2.kind = .file ∧ p.sha256 ≠ item.2.sha256)
      · rw [if_pos h]
        refine iff_of_false (by simp) ?_
        rintro ⟨q,hq,hkind,hsha⟩
        cases hq
        rcases h with h | ⟨hf,h⟩
        · exact h hkind
        · exact h (hsha hf)
      · rw [if_neg h]
        rw [not_or,not_not,not_and,not_not] at h
        exact iff_of_true rfl ⟨p,rfl,h.1,h.2⟩

/-- An unchanged snapshot has no changed file. -/
theorem changedBlobs_of_unchanged (h : unchanged plan.prev plan.snapshot = true) :
    changedBlobs sha plan.prev plan.snapshot = [] := by
  cases hprev : plan.prev with
  | none =>
      rw [hprev] at h
      cases h
  | some m =>
      rw [hprev] at h
      have hnone : plan.snapshot.entries.toList.filter
          (fun item => (changeOf (some m) item).isSome) = [] := by
        refine List.filter_eq_nil_iff.mpr ?_
        intro item hitem
        have hget := mem_toList_iff_getElem?_eq_some.mp hitem
        obtain ⟨e,he,hkind,hsha⟩ := (Manifest.manifestsEquivalent_iff.mp h).2 _ _ hget
        have hat : prevAt (some m) item.1 = some e := he
        rw [changeOf_eq_none_iff.mpr ⟨e,hat,hkind,hsha⟩]
        decide
      rw [changedBlobs,hnone,List.filterMap_nil]

theorem changedBlobs_subset : changedBlobs sha prev snapshot ⊆ fileBlobs sha snapshot := by
  intro path hpath
  obtain ⟨item,hitem,hblob⟩ := List.mem_filterMap.mp hpath
  exact List.mem_filterMap.mpr ⟨item,(List.mem_filter.mp hitem).1,hblob⟩

end Counts

section Cycle
variable {cfg : Config} {sim : SimulationEnv} {cenv : CycleEnv} {disk disk' start : Disk Text}
  {p q : FolderPlan} {plans : List FolderPlan} {w : WatchedPath}

/-- The source directory a plan is about. -/
def storeKey (sha : Sha256) (p : FolderPlan) : Str × Str :=
  (p.destination.path,sourceId sha p.watched.path)

/-- The blobs the simulation counts for a plan, one for each changed file. -/
def announced (sha : Sha256) (start : Disk Text) (p : FolderPlan) : List BlobPath :=
  (changedBlobs sha p.scanned.prev p.scanned.snapshot).filter
    (· ∉ (start.store p.destination.path).blobs)

/-- How often a plan announces what it has announced already or finds in its turn. -/
def repeated (sha : Sha256) (start : Disk Text) (p : FolderPlan) (disk : Disk Text) : Nat :=
  (announced sha start p).length-
    ((announced sha start p).toFinset.filter (· ∉ (disk.store p.destination.path).blobs)).card

/-- The blobs that a plan has to write in its turn. -/
def due (sha : Sha256) (p : FolderPlan) (disk : Disk Text) : Finset BlobPath :=
  if p.wouldCreate then
    (missingBlobs sha (disk.store p.destination.path).blobs p.scanned.snapshot).toFinset
  else ∅

/-- How many of them it has not announced. -/
def unannounced (sha : Sha256) (start : Disk Text) (p : FolderPlan) (disk : Disk Text) : Nat :=
  (due sha p disk \ (announced sha start p).toFinset).card

/-- The disk that each watched path of the cycle finds in its turn. -/
def turns (sha : Sha256) (prim : Primitives) (cfg : Config) (cenv : CycleEnv) :
    List WatchedPath → Disk Text → List (Disk Text)
  | [],_ => []
  | w::ws,disk => disk::turns sha prim cfg cenv ws (match destinationFor cfg w with
    | .ok d => (Disk.at d.path (backupOneFolder sha prim (jobFor cfg w d) (cenv.folder w)) disk).store
    | .error _ => disk)

/-- The source is the one that was simulated, all of it can be read, it does not change, and its
history is seen. -/
structure Steady (sha : Sha256) (cfg : Config) (sim : SimulationEnv) (cenv : CycleEnv)
    (p : FolderPlan) : Prop where
  source_eq : (sim.folder p.watched).source = (cenv.folder p.watched).source
  seen : (sim.folder p.watched).indexAccess ≠ .unseen ∧ (sim.folder p.watched).latestAccess ≠ .unseen
  sees : SeesLatest (cenv.folder p.watched)
  keyed : p.scanned.snapshot.Keyed
  writable : Writable sha cfg.codec (cenv.folder p.watched) p.scanned.snapshot

omit [StoreText Text] in
/-- The books of one plan balance, whatever it finds in its turn. -/
theorem plan_balance (sha : Sha256) (start disk : Disk Text) (p : FolderPlan) :
    (announced sha start p).length+unannounced sha start p disk =
      (due sha p disk).card+repeated sha start p disk := by
  have hcommon : (announced sha start p).toFinset.filter
      (· ∉ (disk.store p.destination.path).blobs) = (announced sha start p).toFinset ∩ due sha p disk := by
    unfold due FolderPlan.wouldCreate
    cases hsame : unchanged p.scanned.prev p.scanned.snapshot with
    | true =>
        unfold announced
        rw [changedBlobs_of_unchanged hsame]
        rfl
    | false =>
        ext path
        have hfile : path ∈ announced sha start p → path ∈ fileBlobs sha p.scanned.snapshot :=
          fun h => changedBlobs_subset (List.mem_filter.mp h).1
        simp only [Finset.mem_filter,Finset.mem_inter,List.mem_toFinset,Bool.not_false,if_true,
          missingBlobs,List.mem_filter,decide_eq_true_eq]
        tauto
  have hle : ((announced sha start p).toFinset ∩ due sha p disk).card ≤ (announced sha start p).length :=
    (Finset.card_le_card Finset.inter_subset_left).trans (List.toFinset_card_le _)
  have hsplit := Finset.card_sdiff_add_card_inter (due sha p disk) (announced sha start p).toFinset
  rw [Finset.inter_comm] at hsplit
  unfold repeated unannounced
  rw [hcommon]
  omega

theorem scanForSimulation_eq_ok (h : scanForSimulation sha cfg sim disk w = .ok p) :
    p.watched = w ∧ destinationFor cfg w = .ok p.destination ∧
      loadIndex (sim.folder w).indexAccess w.path
        ((disk.store p.destination.path).dir (sourceId sha w.path)) = .ok p.scanned.index ∧
      latestManifest (sim.folder w).latestAccess
        ((disk.store p.destination.path).dir (sourceId sha w.path)) p.scanned.index =
          .ok p.scanned.prev ∧
      ∃ raw, scanSnapshot sha cfg.scan w (sim.folder w).source p.scanned.prev
          (sim.folder w).scannedAt = .ok raw ∧
        p.scanned.snapshot.entries = raw.entries := by
  obtain ⟨d,hd,h⟩ := bind_eq_ok.mp h
  obtain ⟨index,hindex,h⟩ := bind_eq_ok.mp h
  obtain ⟨prev,hprev,h⟩ := bind_eq_ok.mp h
  obtain ⟨view,-,h⟩ := bind_eq_ok.mp h
  obtain ⟨raw,hraw,h⟩ := bind_eq_ok.mp h
  cases h
  exact ⟨rfl,hd,mapError_eq_ok.mp hindex,mapError_eq_ok.mp hprev,raw,mapError_eq_ok.mp hraw,rfl⟩

/-- The backup of a source whose versions are as they were finds what was simulated. -/
theorem sameScan_of_plan {st : Store Text} {scanned : Scanned}
    (hp : scanForSimulation sha cfg sim start w = .ok p) (hsteady : Steady sha cfg sim cenv p)
    (hlevel : Level (sourceId sha w.path) (start.store p.destination.path) st)
    (hof : ScanOf sha (jobFor cfg w p.destination) (cenv.folder w) st scanned) :
    SameScan p.scanned scanned := by
  obtain ⟨rfl,-,hindex,hprev,raw,hraw,hentries⟩ := scanForSimulation_eq_ok hp
  obtain ⟨index₀,hload₀,hv⟩ := hlevel.versions _ p.watched.path scanned.index hsteady.sees.index
    hof.index_loaded
  obtain rfl := Except.ok.inj (hload₀.symm.trans (loadIndex_readable hsteady.seen.1 hindex))
  have hlatest := latestManifest_readable hsteady.sees.latest hof.prev_loaded
  have hm : scanned.prev = p.scanned.prev := Except.ok.inj (hlatest.symm.trans
    ((latestManifest_congr hlevel.manifests_eq hv).trans
      (latestManifest_readable hsteady.seen.2 hprev)))
  obtain ⟨raw',hraw',hentries',-⟩ := hof.scan
  rw [hm,← hsteady.source_eq] at hraw'
  exact ⟨hm,(hentries'.trans (scanSnapshot_entries hraw hraw')).trans hentries.symm⟩

/-- The histories of the plans that are still to come are as they were. -/
def Pending (sha : Sha256) (start : Disk Text) (rest : List FolderPlan) (disk : Disk Text) : Prop :=
  ∀ p ∈ rest, Level (sourceId sha p.watched.path) (start.store p.destination.path)
    (disk.store p.destination.path)

/-- A source that has changed goes only once into one store. -/
def Separate (sha : Sha256) (plans : List FolderPlan) : Prop :=
  plans.Pairwise fun p q => p.wouldCreate = true → storeKey sha p ≠ storeKey sha q

/-- One turn. -/
theorem Pending.next {rest : List FolderPlan} {r : FolderBackupResult} {t : Store Text}
    (hsep : ∀ q ∈ rest, p.wouldCreate = true → storeKey sha p ≠ storeKey sha q)
    (h : Pending sha start (p::rest) disk)
    (hothers : ∀ sid, sid ≠ sourceId sha p.watched.path →
      t.dir sid = (disk.store p.destination.path).dir sid)
    (hdone : FolderDone sha (sourceId sha p.watched.path) p.scanned
      (start.store p.destination.path) (disk.store p.destination.path) r t) :
    Pending sha start rest (disk.setStore p.destination.path t) := by
  intro q hq
  have hbefore := h q (List.mem_cons_of_mem _ hq)
  by_cases hroot : q.destination.path = p.destination.path
  · rw [hroot] at hbefore ⊢
    rw [Disk.store_setStore_self]
    by_cases hsid : sourceId sha q.watched.path = sourceId sha p.watched.path
    · have hsame : unchanged p.scanned.prev p.scanned.snapshot = true := by
        by_contra hnot
        refine hsep q hq ?_ (Prod.ext hroot.symm hsid.symm)
        rw [FolderPlan.wouldCreate,Bool.eq_false_iff.mpr hnot]
        rfl
      rw [hsid]
      exact hdone.level hsame
    · exact hbefore.of_dir_eq (hothers _ hsid)
  · rw [Disk.store_setStore_of_ne hroot]
    exact hbefore

/-- The loop over the watched paths creates the versions that were announced, and what it writes
is what was announced less the repetitions, with what was not announced. -/
theorem returns_backupLoop {ws : List WatchedPath} {rest : List FolderPlan}
    {cycle cycle' : BackupCycleResult} (hb : cfg.codec.Bounded) (hsep : Separate sha rest)
    (hsteady : ∀ q ∈ rest, Steady sha cfg sim cenv q)
    (hscans : List.Forall₂ (fun w p => scanForSimulation sha cfg sim start w = .ok p) ws rest)
    (hpending : Pending sha start rest disk)
    (hr : Returns (ws.foldlM (backupWatched sha prim cfg cenv) cycle) disk cycle' disk') :
    cycle'.versionsCreated =
        cycle.versionsCreated+(rest.map fun p => if p.wouldCreate then 1 else 0).sum ∧
      cycle'.blobsWritten+
          (List.zipWith (repeated sha start) rest (turns sha prim cfg cenv ws disk)).sum =
        cycle.blobsWritten+(rest.map fun p => (announced sha start p).length).sum+
          (List.zipWith (unannounced sha start) rest (turns sha prim cfg cenv ws disk)).sum := by
  induction hscans generalizing disk cycle with
  | nil =>
      obtain ⟨rfl,-⟩ := returns_pure.mp hr
      exact ⟨rfl,rfl⟩
  | @cons w p ws rest hp hrest ih =>
      rw [List.foldlM_cons] at hr
      obtain ⟨cycle₁,disk₁,hw,hr⟩ := returns_bind.mp hr
      obtain ⟨rfl,hdest,-⟩ := scanForSimulation_eq_ok hp
      obtain ⟨hthis,hsep⟩ := List.pairwise_cons.mp hsep
      obtain ⟨hnow,hlater⟩ := List.forall_mem_cons.mp hsteady
      have hlevel := hpending p List.mem_cons_self
      obtain ⟨d,hd,hw⟩ := returns_lift_bind.mp hw
      obtain rfl : d = p.destination := Except.ok.inj (hd.symm.trans hdest)
      obtain ⟨r,disk₂,hfolder,hw⟩ := returns_bind.mp hw
      have hfolder := returns_mapFailure.mp hfolder
      have hstore := hfolder.2
      obtain ⟨t,ht,rfl⟩ := returns_zoom.mp hfolder
      obtain ⟨-,hw⟩ := returns_check_bind.mp hw
      obtain ⟨rfl,rfl⟩ := returns_pure.mp hw
      have hdone := returns_steadyFolder hb hnow.sees hnow.keyed
        (fun _ hof => sameScan_of_plan hp hnow hlevel hof) hnow.writable hlevel ht
      have hothers : ∀ sid, sid ≠ sourceId sha p.watched.path →
          t.dir sid = (disk.store p.destination.path).dir sid :=
        fun sid hne => (moves_backup (List.mem_append_right _
          (List.mem_singleton.mpr ht.2.symm))).others_eq hne
      obtain ⟨hversions,hblobs⟩ := ih hsep hlater (hpending.next hthis hothers hdone) hr
      have hbalance := plan_balance sha start disk p
      have hwritten : r.blobsWritten = (due sha p disk).card := by
        rw [hdone.written_eq,due,FolderPlan.wouldCreate]
        cases unchanged p.scanned.prev p.scanned.snapshot <;> rfl
      rw [turns,List.zipWith_cons_cons,List.zipWith_cons_cons,List.sum_cons,List.sum_cons,
        List.map_cons,List.map_cons,List.sum_cons,List.sum_cons,hdest,hversions]
      refine ⟨?_,?_⟩
      · rw [countFolder,hdone.changed_eq,Nat.add_assoc]
        rfl
      · rw [countFolder] at hblobs
        dsimp only at hblobs ⊢
        rw [hstore]
        omega

end Cycle

section Run

/-- A cycle over these files in which nothing fails. -/
def filesCycle (files : List (String × String)) : CycleEnv where
  canonical _ := none
  freeSpace _ := none
  leased := true
  codecLoaded := true
  folder _ := filesEnv files 1767323045 morning
  viewSynced _ := true

/-- A simulation of these files a minute before. -/
def filesPreview (files : List (String × String)) : SimulationEnv where
  home := none
  sampleLimit := 10
  folder _ := ⟨.readable,.readable,.ok (none,none),filesOf files,1767322985⟩

def twoFiles : List (String × String) := [("a","hi"),("b","ho")]

/-- The entry of a file of two bytes. -/
def shortEntry (name text : String) : ManifestEntry :=
  ⟨.file,name.toList,2,7,0,some (sha256Hex notesSha (ascii text))⟩

def twoFilesEntries : Entries :=
  (Std.ExtTreeMap.insert ∅ "a".toList (shortEntry "a" "hi")).insert "b".toList (shortEntry "b" "ho")

def twoFilesPlan : FolderPlan where
  watched := notesJob.watched
  destination := ⟨"main".toList,"/mnt/main".toList,none,[]⟩
  scanned := ⟨.fresh "/home/notes".toList,none,
    ⟨1,"/home/notes".toList,1767322985,none,none,[],twoFilesEntries⟩⟩

theorem twoFilesEntries_eq {k : Str} {e : ManifestEntry} (h : twoFilesEntries[k]? = some e) :
    (k = "a".toList ∧ e = shortEntry "a" "hi") ∨ (k = "b".toList ∧ e = shortEntry "b" "ho") := by
  have hlist : twoFilesEntries.toList =
      [("a".toList,shortEntry "a" "hi"),("b".toList,shortEntry "b" "ho")] := by decide +kernel
  have hmem := mem_toList_iff_getElem?_eq_some.mpr h
  rw [hlist] at hmem
  simpa using hmem

theorem steady_twoFiles (place : Str → Str) : Steady notesSha
    (resolvedBy place (notesConfig notesJob.codec)) (filesPreview twoFiles) (filesCycle twoFiles)
    twoFilesPlan := by
  refine ⟨rfl,⟨nofun,nofun⟩,⟨nofun,nofun⟩,?_,?_⟩
  · intro k e he
    rcases twoFilesEntries_eq he with ⟨rfl,rfl⟩ | ⟨rfl,rfl⟩
    · rfl
    · rfl
  intro k e he _
  rcases twoFilesEntries_eq he with ⟨rfl,rfl⟩ | ⟨rfl,rfl⟩
  · refine ⟨ascii "hi",rfl,⟨rfl,_,_,rfl,rfl,rfl,nofun⟩,fun _ _ => ?_⟩
    unfold BlobCodec.MagicPrefixed
    decide
  · refine ⟨ascii "ho",rfl,⟨rfl,_,_,rfl,rfl,rfl,nofun⟩,fun _ _ => ?_⟩
    unfold BlobCodec.MagicPrefixed
    decide

/-- The notes go to two destinations, under two paths of one directory. -/
def twiceConfig : Config :=
  {notesConfig notesJob.codec with
    watched := [notesJob.watched,{notesJob.watched with destinationId := "spare".toList}]
    destinations := [⟨"main".toList,"/mnt/main".toList,none,[]⟩,
      ⟨"spare".toList,"/mnt/main/".toList,none,[]⟩]}

end Run

end PreviewAgreement
end BackupSync
