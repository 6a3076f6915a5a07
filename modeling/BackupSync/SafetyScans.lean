import BackupSync.BackupOutcome
import BackupSync.BlobInvariant

/-!
# What a call does to the index of a source

A backup call leaves the index file as it is or publishes exactly one index: the
scanned one with the safety fields of the safety check, or that one with the new
version inserted and the prunable versions taken out. The removal of a kept
version publishes an index without safety fields. This holds in every state of a
call, together with a frame condition: the other sources are left alone, and a
version that stays listed keeps its manifest file.
-/
namespace BackupSync
open Interruptible ContentHash GarbageCollection BackupFolder HistoryRemoval BackupOutcome
  BlobInvariant

namespace SafetyScans

variable {Text : Type} [StoreText Text] {sha : Sha256} {prim : Primitives} {job : FolderJob}
  {env : BackupEnv} {scanned : Scanned} {pass : BlobPass} {index : VersionIndex} {sid : Str}
  {st s t : Store Text}

/-- The index file of a source reads as the given index. -/
def Stored (st : Store Text) (sid : Str) (index : VersionIndex) : Prop :=
  ∃ text, (st.dir sid).index = some text ∧ StoreText.readIndex text = some index

/-- The manifest file of a version reads as the given manifest. -/
def HasManifest (st : Store Text) (sid id : Str) (m : Manifest) : Prop :=
  ∃ text, (st.dir sid).manifests[manifestName id]? = some text ∧
    StoreText.readManifest text = some m

/-- What a backup knows when it comes to the safety check. -/
inductive Finds (sha : Sha256) (prim : Primitives) (job : FolderJob) (env : BackupEnv)
    (st : Store Text) : Scanned → BlobPass → Prop
  | same {scanned : Scanned} {s : Store Text}
      (hscan : Returns (scanSource sha job env) st scanned s)
      (hsame : unchanged scanned.prev scanned.snapshot = true) :
      Finds sha prim job env st scanned
        ⟨scanned.snapshot,0,0,!scanned.snapshot.readFailures.isEmpty⟩
  | written {scanned : Scanned} {written : BlobPass} {s u : Store Text}
      (hscan : Returns (scanSource sha job env) st scanned s)
      (hdiff : unchanged scanned.prev scanned.snapshot = false)
      (hwrite : Returns (writeMissingBlobsForSnapshot sha prim job env scanned.prev
        scanned.snapshot) s written u) :
      Finds sha prim job env st scanned {written with
        hadReadFailures := !scanned.snapshot.readFailures.isEmpty || written.hadReadFailures}

/-- What the scan of a backup has found in the store. -/
theorem Finds.scanOf (h : Finds sha prim job env st scanned pass) :
    ScanOf sha job env st scanned := by
  cases h with
  | same hscan _ => exact (returns_scanSource hscan).1
  | written hscan _ _ => exact (returns_scanSource hscan).1

/-- The answer of the safety check to what a backup from this store has found. -/
def pinAt (sha : Sha256) (job : FolderJob) (env : BackupEnv) (st : Store Text) (scanned : Scanned)
    (pass : BlobPass) : Option SafetyWarning × VersionIndex × Bool :=
  pinBaseline job env scanned pass (st.dir (sourceId sha job.watched.path)).manifests

/-- The index a commit starts its retention from. -/
def insertedIndex (sha : Sha256) (job : FolderJob) (env : BackupEnv) (st : Store Text)
    (scanned : Scanned) (pass : BlobPass) : VersionIndex :=
  insertVersion job (pinAt sha job env st scanned pass).2.1
    ⟨versionIdFor (st.dir (sourceId sha job.watched.path)).manifests env.stamp,
      pass.snapshot.createdAtUnix⟩

def committedIndex (sha : Sha256) (job : FolderJob) (env : BackupEnv) (st : Store Text)
    (scanned : Scanned) (pass : BlobPass) : VersionIndex :=
  retainUnpruned (prunedBy job pass.hadReadFailures (insertedIndex sha job env st scanned pass))
    (insertedIndex sha job env st scanned pass)

/-- The index file of the source is as before and so is every manifest file that was there. -/
structure Untouched (sid : Str) (st t : Store Text) : Prop where
  others : ∀ sid', sid' ≠ sid → t.dir sid' = st.dir sid'
  index_eq : (t.dir sid).index = (st.dir sid).index
  manifest : ∀ (name : Str) (text : Text), (st.dir sid).manifests[name]? = some text →
    (t.dir sid).manifests[name]? = some text

/-- The given index was published, and what it lists has the manifest file it had. -/
structure Replaced (sid : Str) (index : VersionIndex) (st t : Store Text) : Prop where
  others : ∀ sid', sid' ≠ sid → t.dir sid' = st.dir sid'
  index_eq : (t.dir sid).index = some (StoreText.writeIndex index)
  manifest : ∀ id ∈ index.ids, ∀ text : Text,
    (st.dir sid).manifests[manifestName id]? = some text →
    (t.dir sid).manifests[manifestName id]? = some text

omit [StoreText Text] in
theorem others_setDir (h : ∀ sid', sid' ≠ sid → s.dir sid' = st.dir sid') (d : SourceDir Text) :
    ∀ sid', sid' ≠ sid → (s.setDir sid d).dir sid' = st.dir sid' :=
  fun sid' hne => (Store.dir_setDir_of_ne hne d s).trans (h sid' hne)

omit [StoreText Text] in
theorem untouched_of_sameDirs (sid : Str) (h : SameDirs st t) : Untouched sid st t :=
  ⟨fun sid' _ => h sid',by rw [h sid],fun _ _ hname => by rw [h sid]; exact hname⟩

omit [StoreText Text] in
theorem Untouched.putReport (h : Untouched sid st s) (text : Text) :
    Untouched sid st (s.putReport sid text) := by
  refine ⟨others_setDir h.others _,?_,?_⟩
  · rw [Store.putReport,Store.dir_setDir_self]
    exact h.index_eq
  · rw [Store.putReport,Store.dir_setDir_self]
    exact h.manifest

omit [StoreText Text] in
theorem Untouched.putManifest {name : Str} (h : Untouched sid st s) (text : Text)
    (hnew : name ∉ (st.dir sid).manifests) : Untouched sid st (s.putManifest sid name text) := by
  refine ⟨others_setDir h.others _,?_,?_⟩
  · rw [Store.putManifest,Store.dir_setDir_self]
    exact h.index_eq
  · intro name' text' hold
    have hne : name ≠ name' := by
      rintro rfl
      exact hnew (mem_of_getElem? hold)
    rw [Store.putManifest,Store.dir_setDir_self]
    simp [getElem?_insert,hne,h.manifest name' text' hold]

theorem Untouched.putIndex (h : Untouched sid st s) (index : VersionIndex) :
    Replaced sid index st (s.putIndex sid (StoreText.writeIndex index)) := by
  refine ⟨others_setDir h.others _,?_,?_⟩
  · rw [Store.putIndex,Store.dir_setDir_self]
  · intro id _ text hold
    rw [Store.putIndex,Store.dir_setDir_self]
    exact h.manifest _ text hold

theorem Replaced.putReport (h : Replaced sid index st s) (text : Text) :
    Replaced sid index st (s.putReport sid text) := by
  refine ⟨others_setDir h.others _,?_,?_⟩
  · rw [Store.putReport,Store.dir_setDir_self]
    exact h.index_eq
  · rw [Store.putReport,Store.dir_setDir_self]
    exact h.manifest

/-- The manifest of a version that is no longer listed may go. -/
theorem Replaced.eraseManifest {id : Str} (h : Replaced sid index st s) (hid : id ∉ index.ids) :
    Replaced sid index st (s.eraseManifest sid (manifestName id)) := by
  refine ⟨others_setDir h.others _,?_,?_⟩
  · rw [Store.eraseManifest,Store.dir_setDir_self]
    exact h.index_eq
  · intro id' hlisted text hold
    have hne : manifestName id ≠ manifestName id' := by
      intro he
      exact hid (manifestName_injective he ▸ hlisted)
    rw [Store.eraseManifest,Store.dir_setDir_self]
    simp [getElem?_erase,hne,h.manifest id' hlisted text hold]

theorem Replaced.of_sameDirs (h : Replaced sid index st s) (hdirs : SameDirs s t) :
    Replaced sid index st t := by
  refine ⟨?_,?_,?_⟩
  · intro sid' hne
    rw [hdirs sid']
    exact h.others sid' hne
  · rw [hdirs sid]
    exact h.index_eq
  · rw [hdirs sid]
    exact h.manifest

theorem keeps_replaced_gc (env : GcEnv) :
    Keeps (Replaced sid index st) (gcUnreferencedBlobs env : Store.Op Text Unit) :=
  keeps_gc env fun _ _ _ h _ => h.of_sameDirs fun _ => rfl

theorem keeps_replaced_pruneVersions {pruned : List VersionInfo}
    (hun : ∀ v ∈ pruned, v.id ∉ index.ids) :
    Keeps (Replaced sid index st) (pruneVersions env sid pruned : Store.Op Text Unit) := by
  unfold pruneVersions
  split
  · exact keeps_pure _
  · refine keeps_bind (keeps_foldlM_mem ?_ ()) fun _ => keeps_replaced_gc env.gc
    intro _ v hv
    split
    · exact keeps_step fun _ h => h.eraseManifest (hun v hv)
    · exact keeps_pure _

theorem not_mem_ids_of_pruned {pruned : List VersionInfo} {v : VersionInfo} (hv : v ∈ pruned) :
    v.id ∉ (retainUnpruned pruned index).ids := by
  intro hid
  obtain ⟨w,hw,he⟩ := List.mem_map.mp hid
  have hnot : w.id ∉ pruned.map (·.id) := of_decide_eq_true (List.mem_filter.mp hw).2
  exact hnot (List.mem_map.mpr ⟨v,hv,he.symm⟩)

/-- The store at any moment of a backup. -/
inductive Moves (sha : Sha256) (prim : Primitives) (job : FolderJob) (env : BackupEnv)
    (st t : Store Text) : Prop
  | stays (h : Untouched (sourceId sha job.watched.path) st t)
  | adjusts {scanned : Scanned} {pass : BlobPass} (hfinds : Finds sha prim job env st scanned pass)
      (h : Replaced (sourceId sha job.watched.path) (pinAt sha job env st scanned pass).2.1 st t)
  | commits {scanned : Scanned} {pass : BlobPass} (hfinds : Finds sha prim job env st scanned pass)
      (h : Replaced (sourceId sha job.watched.path) (committedIndex sha job env st scanned pass)
        st t)

/-- The store a returning backup leaves. -/
inductive Settles (sha : Sha256) (job : FolderJob) (env : BackupEnv) (st : Store Text)
    (scanned : Scanned) (pass : BlobPass) : FolderBackupResult → Store Text → Prop
  | stays {r : FolderBackupResult} {t : Store Text} (hr : r.changed = false)
      (hpin : (pinAt sha job env st scanned pass).2.2 = false)
      (h : Untouched (sourceId sha job.watched.path) st t) : Settles sha job env st scanned pass r t
  | adjusts {r : FolderBackupResult} {t : Store Text} (hr : r.changed = false)
      (h : Replaced (sourceId sha job.watched.path) (pinAt sha job env st scanned pass).2.1 st t) :
      Settles sha job env st scanned pass r t
  | commits {r : FolderBackupResult} {t : Store Text} (hr : r.changed = true)
      (h : Replaced (sourceId sha job.watched.path) (committedIndex sha job env st scanned pass)
        st t) : Settles sha job env st scanned pass r t

theorem triple_index_finishScan (hfinds : Finds sha prim job env st scanned pass) :
    Triple (SameDirs st) (finishScanWithoutNewVersion sha job env scanned pass)
      (Settles sha job env st scanned pass) (Moves sha prim job env st) := by
  have hstart : ∀ u, SameDirs st u → Moves sha prim job env st u :=
    fun u h => .stays (untouched_of_sameDirs _ h)
  refine triple_read_bind fun s hs => ?_
  rw [hs (sourceId sha job.watched.path)]
  refine triple_bind (R := fun _ u =>
    ((pinAt sha job env st scanned pass).2.2 = false ∧
      Untouched (sourceId sha job.watched.path) st u) ∨
    Replaced (sourceId sha job.watched.path) (pinAt sha job env st scanned pass).2.1 st u) ?_
    fun _ => ?_
  · unfold writeIndexIf
    split
    · refine triple_publish ?_ fun u h => hstart u h.2
      intro u h
      have hnext := (untouched_of_sameDirs (sourceId sha job.watched.path) h.2).putIndex
        (pinAt sha job env st scanned pass).2.1
      exact ⟨.inr hnext,.adjusts hfinds hnext⟩
    · rename_i hpin
      refine triple_pure () fun u h => .inl ⟨?_,untouched_of_sameDirs _ h.2⟩
      exact Bool.eq_false_iff.mpr hpin
  · refine triple_bind (R := fun _ u =>
      ((pinAt sha job env st scanned pass).2.2 = false ∧
        Untouched (sourceId sha job.watched.path) st u) ∨
      Replaced (sourceId sha job.watched.path) (pinAt sha job env st scanned pass).2.1 st u)
      (triple_publish ?_ ?_) fun _ => triple_pure _ ?_
    · rintro u (⟨hpin,h⟩ | h)
      · exact ⟨.inl ⟨hpin,h.putReport _⟩,.stays (h.putReport _)⟩
      · exact ⟨.inr (h.putReport _),.adjusts hfinds (h.putReport _)⟩
    · rintro u (⟨-,h⟩ | h)
      · exact .stays h
      · exact .adjusts hfinds h
    · rintro u (⟨hpin,h⟩ | h)
      · exact .stays rfl hpin h
      · exact .adjusts rfl h

theorem triple_index_commitVersion (hfinds : Finds sha prim job env st scanned pass) :
    Triple (SameDirs st) (commitVersion sha job env scanned
        (versionIdFor (st.dir (sourceId sha job.watched.path)).manifests env.stamp) pass)
      (Settles sha job env st scanned pass) (Moves sha prim job env st) := by
  have hnew := versionIdFor_not_mem (st.dir (sourceId sha job.watched.path)).manifests env.stamp
  refine triple_read_bind fun s hs => ?_
  rw [hs (sourceId sha job.watched.path)]
  refine triple_bind (R := fun _ => Untouched (sourceId sha job.watched.path) st) ?_ fun _ => ?_
  · refine triple_publish ?_ fun u h => .stays (untouched_of_sameDirs _ h.2)
    intro u h
    have hnext := (untouched_of_sameDirs (sourceId sha job.watched.path) h.2).putManifest
      (StoreText.writeManifest pass.snapshot) hnew
    exact ⟨hnext,.stays hnext⟩
  refine triple_bind (R := fun _ => Replaced (sourceId sha job.watched.path)
    (committedIndex sha job env st scanned pass) st) ?_ fun _ => ?_
  · refine triple_publish ?_ fun u h => .stays h
    intro u h
    have hnext := h.putIndex (committedIndex sha job env st scanned pass)
    exact ⟨hnext,.commits hfinds hnext⟩
  refine triple_bind (R := fun _ => Replaced (sourceId sha job.watched.path)
    (committedIndex sha job env st scanned pass) st) ?_ fun _ => ?_
  · refine triple_publish ?_ fun u h => .commits hfinds h
    intro u h
    exact ⟨h.putReport _,.commits hfinds (h.putReport _)⟩
  have hprune : Keeps (Replaced (sourceId sha job.watched.path)
      (committedIndex sha job env st scanned pass) st)
      (pruneVersions env (sourceId sha job.watched.path) (prunedBy job pass.hadReadFailures
        (insertedIndex sha job env st scanned pass)) : Store.Op Text Unit) :=
    keeps_replaced_pruneVersions fun v hv => not_mem_ids_of_pruned hv
  exact triple_bind (triple_conseq hprune (fun _ h => h) (fun _ _ h => h)
    fun _ h => .commits hfinds h) fun _ => triple_pure _ fun _ h => .commits rfl h

theorem keeps_sameDirs_scanSource :
    Keeps (SameDirs st) (scanSource sha job env : Store.Op Text Scanned) := by
  refine keeps_scanSource_of ?_
  intro u sid h sid'
  rw [Store.dir_ensureDir]
  exact h sid'

omit [StoreText Text] in
theorem keeps_sameDirs_writeMissingBlobs (prev : Option Manifest) (snapshot : Manifest) :
    Keeps (SameDirs st) (writeMissingBlobsForSnapshot sha prim job env prev snapshot) :=
  keeps_writeMissingBlobs (fun _ _ _ _ h => h) prev snapshot

/-- Every moment of a backup, and where it ends when it returns. -/
theorem triple_index_backupOneFolder (st : Store Text) :
    Triple (fun s => s = st) (backupOneFolder sha prim job env)
      (fun r t => ∃ scanned pass, Finds sha prim job env st scanned pass ∧
        Settles sha job env st scanned pass r t) (Moves sha prim job env st) := by
  have hstart : SameDirs st st := fun _ => rfl
  have hstay : ∀ u, SameDirs st u → Moves sha prim job env st u :=
    fun u h => .stays (untouched_of_sameDirs _ h)
  have hscan := Spec.remember (m := scanSource sha job env) keeps_sameDirs_scanSource hstart
  refine triple_bind (triple_conseq hscan (fun _ h => h) (fun _ _ h => h) hstay) fun scanned => ?_
  refine triple_forall fun s hs => ?_
  split
  · rename_i hsame
    have hfinds : Finds sha prim job env st scanned _ := .same hs.1 hsame
    refine triple_conseq (triple_index_finishScan hfinds) ?_ (fun r t h => ⟨_,_,hfinds,h⟩)
      fun _ h => h
    rintro _ rfl
    exact hs.2
  · rename_i hdiff
    refine triple_read_bind ?_
    rintro _ rfl
    rw [hs.2 (sourceId sha job.watched.path)]
    have hwrite := Spec.remember
      (m := writeMissingBlobsForSnapshot sha prim job env scanned.prev scanned.snapshot)
      (keeps_sameDirs_writeMissingBlobs scanned.prev scanned.snapshot) hs.2
    refine triple_bind (triple_conseq hwrite (fun _ h => h.1) (fun _ _ h => h) hstay)
      fun written => triple_forall fun u hu => ?_
    have hfinds : Finds sha prim job env st scanned _ :=
      .written hs.1 (Bool.eq_false_iff.mpr hdiff) hu.1
    dsimp only
    split
    · refine triple_conseq (triple_index_finishScan hfinds) ?_ (fun r t h => ⟨_,_,hfinds,h⟩)
        fun _ h => h
      rintro _ rfl
      exact hu.2
    · refine triple_conseq (triple_index_commitVersion hfinds) ?_ (fun r t h => ⟨_,_,hfinds,h⟩)
        fun _ h => h
      rintro _ rfl
      exact hu.2

/-- The store at any moment of the removal of a kept version. -/
inductive Clears (sid : Str) (st t : Store Text) : Prop
  | stays (h : Untouched sid st t)
  | clears {index : VersionIndex} (h : Replaced sid (clearSafety index) st t)

theorem triple_index_removeListedVersion {kept : Str} (env : RemoveKeptEnv) :
    Triple (fun s => s = st) (removeListedVersion sid kept index env)
      (fun _ => Clears sid st) (Clears sid st) := by
  have hid : kept ∉ (clearSafety (withoutVersion kept index)).ids := by
    intro hid
    obtain ⟨v,hv,he⟩ := List.mem_map.mp hid
    exact of_decide_eq_true (List.mem_filter.mp hv).2 he
  have hstart : Untouched sid st st := untouched_of_sameDirs sid fun _ => rfl
  have hcut : ∀ u, Replaced sid (clearSafety (withoutVersion kept index)) st u → Clears sid st u :=
    fun _ h => .clears h
  refine triple_bind (R := fun _ => Replaced sid (clearSafety (withoutVersion kept index)) st)
    (triple_publish ?_ ?_) fun _ => ?_
  · rintro _ rfl
    exact ⟨hstart.putIndex _,.clears (hstart.putIndex _)⟩
  · rintro _ rfl
    exact .stays hstart
  refine triple_bind (R := fun _ => Replaced sid (clearSafety (withoutVersion kept index)) st) ?_
    fun _ => triple_bind (triple_conseq (keeps_replaced_gc env.gc) (fun _ h => h)
      (fun _ _ h => h) hcut) fun _ => triple_pure _ hcut
  refine triple_read_bind fun s _ => ?_
  refine triple_check_bind (fun u h => hcut u h.2) fun _ => triple_step ?_
  intro u h
  exact ⟨h.2.eraseManifest hid,.clears (h.2.eraseManifest hid)⟩

theorem triple_index_removeKept (sourcePath : Str) (env : RemoveKeptEnv) :
    Triple (fun s => s = st) (removeKeptSafetyVersion sha sourcePath env)
      (fun _ => Clears (sourceId sha sourcePath) st) (Clears (sourceId sha sourcePath) st) := by
  have hstart : Untouched (sourceId sha sourcePath) st st :=
    untouched_of_sameDirs _ fun _ => rfl
  refine triple_read_bind fun s hs => ?_
  have hstay : ∀ u, u = s ∧ u = st → Clears (sourceId sha sourcePath) st u := by
    rintro _ ⟨-,rfl⟩
    exact .stays hstart
  refine triple_lift_bind hstay fun index _ => ?_
  split
  · exact triple_pure _ hstay
  · split
    · exact spec_pre (triple_index_removeListedVersion env) (fun _ h => h.2)
    · refine triple_bind (R := fun _ => Clears (sourceId sha sourcePath) st)
        (triple_publish ?_ hstay) fun _ => triple_pure _ fun _ h => h
      rintro _ ⟨-,rfl⟩
      exact ⟨.clears (hstart.putIndex _),.clears (hstart.putIndex _)⟩

/-- Every state of a backup, its last one included. -/
theorem moves_backup (ht : t ∈ (backupOneFolder sha prim job env st).states) :
    Moves sha prim job env st t := by
  refine (triple_index_backupOneFolder st).states ?_ rfl ht
  rintro r u ⟨scanned,pass,hfinds,hsettles⟩
  cases hsettles with
  | stays _ _ h => exact .stays h
  | adjusts _ h => exact .adjusts hfinds h
  | commits _ h => exact .commits hfinds h

theorem Moves.others_eq {sid : Str} (h : Moves sha prim job env st t)
    (hne : sid ≠ sourceId sha job.watched.path) : t.dir sid = st.dir sid := by
  cases h with
  | stays h => exact h.others sid hne
  | adjusts _ h => exact h.others sid hne
  | commits _ h => exact h.others sid hne

end SafetyScans
end BackupSync
