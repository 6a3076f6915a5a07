import BackupSync.SafetyVerdicts
import BackupSync.StoreCompleteness

/-!
# The safety state machine over whole histories

A history is a sequence of backups and removals on one store, each call run to
its end or cut after any step. The marks an index carries are tied to the
history: a pending version was measured by a clean scan, and no clean scan has
returned since. From there a version can become pinned only by a second clean
scan that measures it again.
-/
namespace BackupSync
open Interruptible ContentHash ScanSnapshot SafetyBaseline Retention BackupFolder HistoryRemoval
  StoreInvariant BackupOutcome SafetyScans SafetyVerdicts StoreCompleteness

/-- A call with the stores before and after it, at its end or where it was cut. -/
structure StoreEvent (Text : Type) where
  call : StoreCall
  before : Store Text
  after : Store Text

namespace SafetyMachine

variable {Text : Type} [StoreText Text] {sha : Sha256} {prim : Primitives} {job : FolderJob}
  {env : BackupEnv} {scanned : Scanned} {pass : BlobPass} {index index' : VersionIndex}
  {sid id : Str} {st t : Store Text} {next : Manifest} {τ : ℚ} {e : StoreEvent Text}
  {events : List (StoreEvent Text)}

inductive History (sha : Sha256) (prim : Primitives) (A : StoreCall → Prop) :
    List (StoreEvent Text) → Store Text → Prop
  | start : History sha prim A [] .empty
  | call {events : List (StoreEvent Text)} {st t : Store Text} {call : StoreCall}
      (h : History sha prim A events st) (hA : A call) (ht : t ∈ (call.run sha prim st).states) :
      History sha prim A (events++[⟨call,st,t⟩]) t

theorem History.reachable {A : StoreCall → Prop} (h : History sha prim A events st) :
    ReachableBy sha prim A st := by
  induction h with
  | start => exact .start
  | call _ hA ht ih => exact .call ⟨_,hA⟩ ih ht

/-- The looks of the call succeed, and a backup of the source runs with the threshold. -/
structure Guards (sha : Sha256) (sid : Str) (τ : ℚ) (call : StoreCall) : Prop where
  sighted : call.Sighted
  backup : ∀ job env, call = .backup job env → sourceId sha job.watched.path = sid →
    job.threshold = τ ∧ SeesLatest env

/-- The event is a backup of the source whose scan had no read failures and found this snapshot. -/
def CleanScan (sha : Sha256) (prim : Primitives) (sid : Str) (e : StoreEvent Text)
    (next : Manifest) : Prop :=
  ∃ job env scanned pass, e.call = .backup job env ∧ sourceId sha job.watched.path = sid ∧
    Finds sha prim job env e.before scanned pass ∧ pass.hadReadFailures = false ∧
    pass.snapshot = next

/-- A clean scan that measured a shrink of the threshold against the version. -/
def Shrinks (sha : Sha256) (prim : Primitives) (sid : Str) (τ : ℚ) (id : Str)
    (e : StoreEvent Text) : Prop :=
  ∃ next, CleanScan sha prim sid e next ∧ Measured τ e.before sid id next

/-- The backup of the event ran to its end. -/
def Returned (sha : Sha256) (prim : Primitives) (e : StoreEvent Text) : Prop :=
  ∃ job env r, e.call = .backup job env ∧
    Returns (backupOneFolder sha prim job env) e.before r e.after

def CompleteScan (sha : Sha256) (prim : Primitives) (sid : Str) (e : StoreEvent Text) : Prop :=
  Returned sha prim e ∧ ∃ next, CleanScan sha prim sid e next

/-- The version was measured, and no clean scan has been completed since. -/
def Seen (sha : Sha256) (prim : Primitives) (sid : Str) (τ : ℚ) (events : List (StoreEvent Text))
    (id : Str) : Prop :=
  ∃ earlier e since, events = earlier++e::since ∧ Shrinks sha prim sid τ id e ∧
    ∀ e' ∈ since, ¬ CompleteScan sha prim sid e'

/-- The stored version has files. -/
def Sized (st : Store Text) (sid id : Str) : Prop :=
  ∃ m, HasManifest st sid id m ∧
    ¬ ((manifestSize m).fileBytes = 0 ∧ (manifestSize m).fileCount = 0)

/-- What the safety fields of an index say about the history. -/
structure Marks (sha : Sha256) (prim : Primitives) (sid : Str) (τ : ℚ)
    (events : List (StoreEvent Text)) (st : Store Text) (index : VersionIndex) : Prop where
  exclusive : index.safetyPinnedVersionId = none ∨ index.safetyPendingVersionId = none
  firstSeen : index.safetyPendingFirstSeenUnix.isSome = index.safetyPendingVersionId.isSome
  sized : ∀ p, index.safetyPendingVersionId = some p → Sized st sid p
  seen : ∀ p, index.safetyPendingVersionId = some p → Seen sha prim sid τ events p

theorem sized_of_measured (h : Measured τ st sid id next) : Sized st sid id := by
  obtain ⟨m,ratio,hm,hratio,-⟩ := h
  refine ⟨m,hm,?_⟩
  intro hzero
  rw [shrinkRatio,if_pos hzero] at hratio
  cases hratio

theorem Seen.snoc (h : Seen sha prim sid τ events id) (hnot : ¬ CompleteScan sha prim sid e) :
    Seen sha prim sid τ (events++[e]) id := by
  obtain ⟨earlier,e₁,since,rfl,hshrinks,hsince⟩ := h
  refine ⟨earlier,e₁,since++[e],by simp,hshrinks,?_⟩
  intro e' he'
  rcases List.mem_append.mp he' with he' | he'
  · exact hsince e' he'
  · obtain rfl := List.mem_singleton.mp he'
    exact hnot

theorem seen_now (h : Shrinks sha prim sid τ id e) : Seen sha prim sid τ (events++[e]) id := by
  refine ⟨events,e,[],rfl,h,?_⟩
  intro e' he'
  cases he'

section Verdicts
variable {env : SafetyEnv} {changed : Bool}

/-- The pending version is never one without files. -/
theorem not_stuck {m : Manifest} (hmarks : Marks sha prim sid τ events st index)
    (hpend : index.safetyPendingVersionId = some id) (hm : HasManifest st sid id m) :
    shrinkRatio (manifestSize m) (manifestSize next) ≠ none := by
  obtain ⟨m',hm',hsize⟩ := hmarks.sized id hpend
  obtain rfl := hasManifest_unique hm hm'
  rw [shrinkRatio,if_neg hsize]
  simp

theorem exclusive_of_verdict (hmarks : Marks sha prim sid τ events st index)
    (h : Verdict τ env st sid index next (index',changed)) :
    index'.safetyPinnedVersionId = none ∨ index'.safetyPendingVersionId = none := by
  cases h with
  | pinned => exact hmarks.exclusive
  | quiet => exact hmarks.exclusive
  | detected hpin => exact .inl hpin
  | released => exact .inr rfl
  | lost => exact .inr rfl
  | confirmed => exact .inr rfl
  | stuck => exact hmarks.exclusive

theorem firstSeen_of_verdict (hmarks : Marks sha prim sid τ events st index)
    (h : Verdict τ env st sid index next (index',changed)) :
    index'.safetyPendingFirstSeenUnix.isSome = index'.safetyPendingVersionId.isSome := by
  cases h with
  | pinned => exact hmarks.firstSeen
  | quiet => exact hmarks.firstSeen
  | detected => rfl
  | released => rfl
  | lost => rfl
  | confirmed => rfl
  | stuck => exact hmarks.firstSeen

/-- A version that is pending after a verdict was measured for it. -/
theorem measured_of_pending (hmarks : Marks sha prim sid τ events st index)
    (h : Verdict τ env st sid index next (index',changed))
    (hpend : index'.safetyPendingVersionId = some id) : Measured τ st sid id next := by
  cases h with
  | pinned hpin =>
      rcases hmarks.exclusive with hnone | hnone
      · rw [hpin] at hnone
        cases hnone
      · rw [hpend] at hnone
        cases hnone
  | quiet _ hnone =>
      rw [hpend] at hnone
      cases hnone
  | detected _ _ _ hm =>
      cases hpend
      exact hm
  | released => cases hpend
  | lost => cases hpend
  | confirmed => cases hpend
  | stuck _ hp _ hm hempty => exact absurd hempty (not_stuck hmarks hp hm)

/-- Only a pending version that was measured again is pinned. -/
theorem pinned_of_verdict (h : Verdict τ env st sid index next (index',changed))
    (hpin : index'.safetyPinnedVersionId = some id) :
    index.safetyPinnedVersionId = some id ∨
      (index.safetyPendingVersionId = some id ∧ Measured τ st sid id next) := by
  cases h with
  | pinned => exact .inl hpin
  | quiet => exact .inl hpin
  | detected => exact .inl hpin
  | released => exact .inl hpin
  | lost => exact .inl hpin
  | confirmed _ hp _ hm =>
      cases hpin
      exact .inr ⟨hp,hm⟩
  | stuck => exact .inl hpin

theorem pinned_stays (h : Verdict τ env st sid index next (index',changed))
    (hpin : index.safetyPinnedVersionId = some id) : index'.safetyPinnedVersionId = some id := by
  cases h with
  | pinned => exact hpin
  | quiet => exact hpin
  | detected => exact hpin
  | released => exact hpin
  | lost => exact hpin
  | confirmed hnone =>
      rw [hpin] at hnone
      cases hnone
  | stuck => exact hpin

/-- An index that is not written again has nothing pending. -/
theorem not_pending_of_unchanged (hmarks : Marks sha prim sid τ events st index)
    (h : Verdict τ env st sid index next (index',false)) : index.safetyPendingVersionId = none := by
  cases h with
  | pinned hpin =>
      rcases hmarks.exclusive with hnone | hnone
      · rw [hpin] at hnone
        cases hnone
      · exact hnone
  | quiet _ hnone => exact hnone
  | stuck _ hp _ hm hempty => exact absurd hempty (not_stuck hmarks hp hm)

end Verdicts

section Effects

/-- The index a call starts from. -/
def Loaded (st : Store Text) (sid : Str) (index : VersionIndex) : Prop :=
  ∃ access sourcePath, access ≠ .unseen ∧ loadIndex access sourcePath (st.dir sid) = .ok index

/-- The two indexes carry the same marks. -/
structure SameMarks (a b : VersionIndex) : Prop where
  pinned_eq : b.safetyPinnedVersionId = a.safetyPinnedVersionId
  pending_eq : b.safetyPendingVersionId = a.safetyPendingVersionId
  firstSeen_eq : b.safetyPendingFirstSeenUnix = a.safetyPendingFirstSeenUnix

/-- What an event can do to the index of the source. -/
inductive Effect (sha : Sha256) (prim : Primitives) (sid : Str) (τ : ℚ) (e : StoreEvent Text) : Prop
  | rests (hindex : (e.after.dir sid).index = (e.before.dir sid).index)
      (hman : ∀ (name : Str) (text : Text), (e.before.dir sid).manifests[name]? = some text →
        (e.after.dir sid).manifests[name]? = some text)
      (hnot : ¬ CompleteScan sha prim sid e)
  | silent {loaded judged : VersionIndex} {env : SafetyEnv} {next : Manifest}
      (hload : Loaded e.before sid loaded)
      (hverdict : Verdict τ env e.before sid loaded next (judged,false))
      (hindex : (e.after.dir sid).index = (e.before.dir sid).index)
  | failing {loaded index : VersionIndex} (hload : Loaded e.before sid loaded)
      (hsame : SameMarks loaded index) (h : Replaced sid index e.before e.after)
      (hnot : ¬ CompleteScan sha prim sid e)
  | judged {loaded judged index : VersionIndex} {env : SafetyEnv} {next : Manifest} {changed : Bool}
      (hload : Loaded e.before sid loaded) (hclean : CleanScan sha prim sid e next)
      (hverdict : Verdict τ env e.before sid loaded next (judged,changed))
      (hsame : SameMarks judged index) (h : Replaced sid index e.before e.after)
  | cleared {index : VersionIndex} {sourcePath : Str} {env : RemoveKeptEnv}
      (hcall : e.call = .removeKept sourcePath env)
      (h : Replaced sid (clearSafety index) e.before e.after)

theorem loaded_cases (h : Loaded st sid index) : Stored st sid index ∨
    ((st.dir sid).index = none ∧ index.safetyPinnedVersionId = none ∧
      index.safetyPendingVersionId = none ∧ index.safetyPendingFirstSeenUnix = none) := by
  obtain ⟨access,sourcePath,hseen,h⟩ := h
  rcases loadIndex_eq_ok h with ⟨hnone,rfl⟩ | ⟨text,hf,hr,-⟩
  · exact .inr ⟨hnone.resolve_right hseen,rfl,rfl,rfl⟩
  · exact .inl ⟨text,hf,hr⟩

theorem stored_unique (h : Stored st sid index) (h' : Stored st sid index') : index = index' := by
  obtain ⟨text,hf,hr⟩ := h
  obtain ⟨text',hf',hr'⟩ := h'
  rw [hf] at hf'
  cases hf'
  rw [hr] at hr'
  cases hr'
  rfl

/-- Where an index is stored, that one is loaded. -/
theorem loaded_eq (h : Loaded st sid index) (hs : Stored st sid index') : index' = index := by
  rcases loaded_cases h with hs' | ⟨hnone,-⟩
  · exact stored_unique hs hs'
  · obtain ⟨text,hf,-⟩ := hs
    rw [hnone] at hf
    cases hf

theorem stored_of_replaced (h : Replaced sid index st t) (hs : Stored t sid index') :
    index' = index := by
  obtain ⟨text,hf,hr⟩ := hs
  rw [h.index_eq] at hf
  cases hf
  rw [StoreText.readIndex_writeIndex] at hr
  exact (Option.some.inj hr).symm

theorem finds_unique {scanned' : Scanned} {pass' : BlobPass}
    (h : Finds sha prim job env st scanned pass) (h' : Finds sha prim job env st scanned' pass') :
    scanned = scanned' ∧ pass = pass' := by
  cases h with
  | same hscan hsame =>
      cases h' with
      | same hscan' _ =>
          obtain ⟨rfl,rfl⟩ := returns_unique hscan hscan'
          exact ⟨rfl,rfl⟩
      | written hscan' hdiff' _ =>
          obtain ⟨rfl,rfl⟩ := returns_unique hscan hscan'
          rw [hsame] at hdiff'
          cases hdiff'
  | written hscan hdiff hwrite =>
      cases h' with
      | same hscan' hsame' =>
          obtain ⟨rfl,rfl⟩ := returns_unique hscan hscan'
          rw [hdiff] at hsame'
          cases hsame'
      | written hscan' _ hwrite' =>
          obtain ⟨rfl,rfl⟩ := returns_unique hscan hscan'
          obtain ⟨rfl,rfl⟩ := returns_unique hwrite hwrite'
          exact ⟨rfl,rfl⟩

/-- A scan with read failures is not clean. -/
theorem not_completeScan_of_failures (hfinds : Finds sha prim job env st scanned pass)
    (hfail : pass.hadReadFailures = true) :
    ¬ CompleteScan sha prim sid ⟨.backup job env,st,t⟩ := by
  rintro ⟨-,next,job',env',scanned',pass',hcall,-,hfinds',hclean,-⟩
  cases hcall
  obtain ⟨-,rfl⟩ := finds_unique hfinds hfinds'
  rw [hfail] at hclean
  cases hclean

theorem cleanScan_of_finds (hfinds : Finds sha prim job env st scanned pass)
    (hclean : pass.hadReadFailures = false) :
    CleanScan sha prim (sourceId sha job.watched.path) ⟨.backup job env,st,t⟩ pass.snapshot :=
  ⟨job,env,scanned,pass,rfl,rfl,hfinds,hclean,rfl⟩

/-- Inserting and pruning versions leaves the marks alone. -/
theorem sameMarks_committedIndex : SameMarks (pinAt sha job env st scanned pass).2.1
    (committedIndex sha job env st scanned pass) := ⟨rfl,rfl,rfl⟩

/-- Publishing an index with the marks of the safety check. -/
theorem effect_published {K : Scope} (hsound : AllBacked sha K st) (hτ : 0 < job.threshold)
    (hsees : SeesLatest env) (hfinds : Finds sha prim job env st scanned pass)
    (hsame : SameMarks (pinAt sha job env st scanned pass).2.1 index)
    (h : Replaced (sourceId sha job.watched.path) index st t) :
    Effect sha prim (sourceId sha job.watched.path) job.threshold ⟨.backup job env,st,t⟩ := by
  have hload : Loaded st (sourceId sha job.watched.path) scanned.index :=
    ⟨_,_,hsees.index,hfinds.scanOf.index_loaded⟩
  cases hfail : pass.hadReadFailures with
  | true =>
      rw [pinAt_of_failures hfail] at hsame
      exact .failing hload hsame h (not_completeScan_of_failures hfinds hfail)
  | false =>
      exact .judged hload (cleanScan_of_finds hfinds hfail)
        (verdict_pinAt hsound hfinds hfail hτ hsees.latest) hsame h

theorem effect_moves {K : Scope} (hsound : AllBacked sha K st) (hτ : 0 < job.threshold)
    (hsees : SeesLatest env)
    (hnot : ¬ CompleteScan sha prim (sourceId sha job.watched.path) ⟨.backup job env,st,t⟩)
    (h : Moves sha prim job env st t) :
    Effect sha prim (sourceId sha job.watched.path) job.threshold ⟨.backup job env,st,t⟩ := by
  cases h with
  | stays h => exact .rests h.index_eq h.manifest hnot
  | adjusts hfinds h => exact effect_published hsound hτ hsees hfinds ⟨rfl,rfl,rfl⟩ h
  | commits hfinds h => exact effect_published hsound hτ hsees hfinds sameMarks_committedIndex h

theorem effect_settles {K : Scope} {r : FolderBackupResult} (hsound : AllBacked sha K st)
    (hτ : 0 < job.threshold) (hsees : SeesLatest env)
    (hfinds : Finds sha prim job env st scanned pass) (h : Settles sha job env st scanned pass r t) :
    Effect sha prim (sourceId sha job.watched.path) job.threshold ⟨.backup job env,st,t⟩ := by
  cases h with
  | stays _ hpin h =>
      cases hfail : pass.hadReadFailures with
      | true => exact .rests h.index_eq h.manifest (not_completeScan_of_failures hfinds hfail)
      | false =>
          have hverdict := verdict_pinAt hsound hfinds hfail hτ hsees.latest
          rw [← Prod.mk.eta (p := (pinAt sha job env st scanned pass).2),hpin] at hverdict
          exact .silent ⟨_,_,hsees.index,hfinds.scanOf.index_loaded⟩ hverdict h.index_eq
  | adjusts _ h => exact effect_published hsound hτ hsees hfinds ⟨rfl,rfl,rfl⟩ h
  | commits _ h => exact effect_published hsound hτ hsees hfinds sameMarks_committedIndex h

theorem effect_backup {K : Scope} (hsound : AllBacked sha K st) (hτ : 0 < job.threshold)
    (hsees : SeesLatest env) (ht : t ∈ (backupOneFolder sha prim job env st).states) :
    Effect sha prim (sourceId sha job.watched.path) job.threshold ⟨.backup job env,st,t⟩ := by
  by_cases hret : ∃ r, Returns (backupOneFolder sha prim job env) st r t
  · obtain ⟨r,hr⟩ := hret
    obtain ⟨scanned,pass,hfinds,hsettles⟩ := (triple_index_backupOneFolder st).returns rfl hr
    exact effect_settles hsound hτ hsees hfinds hsettles
  · refine effect_moves hsound hτ hsees ?_ (moves_backup ht)
    rintro ⟨⟨job',env',r,hcall,hr⟩,-⟩
    cases hcall
    exact hret ⟨r,hr⟩

/-- A call on another source. -/
theorem effect_other (hdir : t.dir sid = st.dir sid) {call : StoreCall}
    (hnot : ¬ CompleteScan sha prim sid ⟨call,st,t⟩) : Effect sha prim sid τ ⟨call,st,t⟩ := by
  refine .rests ?_ ?_ hnot
  · exact congrArg SourceDir.index hdir
  · intro name text hname
    rw [hdir]
    exact hname

theorem effect_run {K : Scope} {call : StoreCall} (hsound : AllBacked sha K st) (hτ : 0 < τ)
    (hA : Guards sha sid τ call) (ht : t ∈ (call.run sha prim st).states) :
    Effect sha prim sid τ ⟨call,st,t⟩ := by
  cases call with
  | backup job env =>
      by_cases hsid : sourceId sha job.watched.path = sid
      · obtain ⟨rfl,hsees⟩ := hA.backup job env rfl hsid
        rw [← hsid]
        exact effect_backup hsound hτ hsees ht
      · refine effect_other ((moves_backup ht).others_eq (Ne.symm hsid)) ?_
        rintro ⟨-,next,job',env',scanned,pass,hcall,hsid',-⟩
        cases hcall
        exact hsid hsid'
  | removeKept sourcePath env =>
      have hnot : ¬ CompleteScan sha prim sid ⟨.removeKept sourcePath env,st,t⟩ := by
        rintro ⟨-,next,job',env',scanned,pass,hcall,-⟩
        cases hcall
      have hclears : Clears (sourceId sha sourcePath) st t :=
        (triple_index_removeKept sourcePath env).states (fun _ _ h => h) rfl ht
      by_cases hsid : sourceId sha sourcePath = sid
      · subst hsid
        cases hclears with
        | stays h => exact .rests h.index_eq h.manifest hnot
        | clears h => exact .cleared rfl h
      · cases hclears with
        | stays h => exact effect_other (h.others sid (Ne.symm hsid)) hnot
        | clears h => exact effect_other (h.others sid (Ne.symm hsid)) hnot

end Effects

section Steps

theorem marks_of_not_pending (hpend : index.safetyPendingVersionId = none)
    (hfirst : index.safetyPendingFirstSeenUnix.isSome = index.safetyPendingVersionId.isSome) :
    Marks sha prim sid τ events st index := by
  refine ⟨.inr hpend,hfirst,?_,?_⟩
  all_goals
    intro p hp
    rw [hpend] at hp
    cases hp

theorem marks_loaded (hmarks : ∀ index, Stored st sid index → Marks sha prim sid τ events st index)
    (h : Loaded st sid index) : Marks sha prim sid τ events st index := by
  rcases loaded_cases h with hs | ⟨-,-,hpend,hfirst⟩
  · exact hmarks index hs
  · refine marks_of_not_pending hpend ?_
    rw [hpend,hfirst]
    rfl

/-- Marks go over to an index with the same ones as long as no clean scan is completed. -/
theorem Marks.carry (h : Marks sha prim sid τ events e.before index) (hsame : SameMarks index index')
    (hman : ∀ p, index'.safetyPendingVersionId = some p → ∀ text : Text,
      (e.before.dir sid).manifests[manifestName p]? = some text →
      (e.after.dir sid).manifests[manifestName p]? = some text)
    (hnot : ¬ CompleteScan sha prim sid e) :
    Marks sha prim sid τ (events++[e]) e.after index' := by
  refine ⟨?_,?_,?_,?_⟩
  · rw [hsame.pinned_eq,hsame.pending_eq]
    exact h.exclusive
  · rw [hsame.firstSeen_eq,hsame.pending_eq]
    exact h.firstSeen
  · intro p hp
    obtain ⟨m,⟨text,hf,hr⟩,hsize⟩ := h.sized p (hsame.pending_eq ▸ hp)
    exact ⟨m,⟨text,hman p hp text hf,hr⟩,hsize⟩
  · intro p hp
    exact (h.seen p (hsame.pending_eq ▸ hp)).snoc hnot

/-- Marks after a clean scan are those of its verdict. -/
theorem Marks.judge {env : SafetyEnv} {judged : VersionIndex} {changed : Bool}
    (h : Marks sha prim sid τ events e.before index) (hclean : CleanScan sha prim sid e next)
    (hverdict : Verdict τ env e.before sid index next (judged,changed))
    (hsame : SameMarks judged index')
    (hman : ∀ p, index'.safetyPendingVersionId = some p → ∀ text : Text,
      (e.before.dir sid).manifests[manifestName p]? = some text →
      (e.after.dir sid).manifests[manifestName p]? = some text) :
    Marks sha prim sid τ (events++[e]) e.after index' := by
  have hmeasured : ∀ p, index'.safetyPendingVersionId = some p → Measured τ e.before sid p next :=
    fun p hp => measured_of_pending h hverdict (hsame.pending_eq ▸ hp)
  refine ⟨?_,?_,?_,?_⟩
  · rw [hsame.pinned_eq,hsame.pending_eq]
    exact exclusive_of_verdict h hverdict
  · rw [hsame.firstSeen_eq,hsame.pending_eq]
    exact firstSeen_of_verdict h hverdict
  · intro p hp
    obtain ⟨m,⟨text,hf,hr⟩,hsize⟩ := sized_of_measured (hmeasured p hp)
    exact ⟨m,⟨text,hman p hp text hf,hr⟩,hsize⟩
  · intro p hp
    exact seen_now ⟨next,hclean,hmeasured p hp⟩

theorem stored_of_index_eq (hindex : (t.dir sid).index = (st.dir sid).index)
    (h : Stored t sid index) : Stored st sid index := by
  obtain ⟨text,hf,hr⟩ := h
  exact ⟨text,hindex ▸ hf,hr⟩

/-- What the index lists as pending keeps its manifest. -/
theorem manifest_of_pending (htidy : Tidy index) (h : Replaced sid index st t) (p : Str)
    (hp : index.safetyPendingVersionId = some p) (text : Text)
    (hf : (st.dir sid).manifests[manifestName p]? = some text) :
    (t.dir sid).manifests[manifestName p]? = some text :=
  h.manifest p (htidy.pins p (mem_protectedIds.mpr (.inr hp))) text hf

theorem marks_step
    (hmarks : ∀ index, Stored e.before sid index → Marks sha prim sid τ events e.before index)
    (htidy : ∀ index, Stored e.after sid index → Tidy index)
    (heffect : Effect sha prim sid τ e) (hs : Stored e.after sid index') :
    Marks sha prim sid τ (events++[e]) e.after index' := by
  cases heffect with
  | rests hindex hman hnot =>
      have hold := hmarks index' (stored_of_index_eq hindex hs)
      exact hold.carry ⟨rfl,rfl,rfl⟩ (fun p _ => hman (manifestName p)) hnot
  | silent hload hverdict hindex =>
      have hstored := stored_of_index_eq hindex hs
      obtain rfl := loaded_eq hload hstored
      have hold := hmarks index' hstored
      exact marks_of_not_pending (not_pending_of_unchanged hold hverdict) hold.firstSeen
  | failing hload hsame h hnot =>
      obtain rfl := stored_of_replaced h hs
      exact (marks_loaded hmarks hload).carry hsame (manifest_of_pending (htidy _ hs) h) hnot
  | judged hload hclean hverdict hsame h =>
      obtain rfl := stored_of_replaced h hs
      exact (marks_loaded hmarks hload).judge hclean hverdict hsame
        (manifest_of_pending (htidy _ hs) h)
  | cleared _ h =>
      obtain rfl := stored_of_replaced h hs
      exact marks_of_not_pending rfl rfl

/-- A version becomes pinned by a clean scan that measures it, pending since another one did. -/
theorem pinned_step
    (hmarks : ∀ index, Stored e.before sid index → Marks sha prim sid τ events e.before index)
    (heffect : Effect sha prim sid τ e) (hs : Stored e.after sid index')
    (hpin : index'.safetyPinnedVersionId = some id) :
    (∃ index, Stored e.before sid index ∧ index.safetyPinnedVersionId = some id) ∨
      (Shrinks sha prim sid τ id e ∧ Seen sha prim sid τ events id) := by
  have hold : ∀ loaded, Loaded e.before sid loaded → loaded.safetyPinnedVersionId = some id →
      ∃ index, Stored e.before sid index ∧ index.safetyPinnedVersionId = some id := by
    intro loaded hload hp
    rcases loaded_cases hload with hstored | ⟨-,hnone,-⟩
    · exact ⟨loaded,hstored,hp⟩
    · rw [hp] at hnone
      cases hnone
  cases heffect with
  | rests hindex _ _ => exact .inl ⟨index',stored_of_index_eq hindex hs,hpin⟩
  | silent _ _ hindex => exact .inl ⟨index',stored_of_index_eq hindex hs,hpin⟩
  | failing hload hsame h _ =>
      obtain rfl := stored_of_replaced h hs
      exact .inl (hold _ hload (hsame.pinned_eq ▸ hpin))
  | judged hload hclean hverdict hsame h =>
      obtain rfl := stored_of_replaced h hs
      rcases pinned_of_verdict hverdict (hsame.pinned_eq ▸ hpin) with hp | ⟨hp,hm⟩
      · exact .inl (hold _ hload hp)
      · exact .inr ⟨⟨_,hclean,hm⟩,(marks_loaded hmarks hload).seen id hp⟩
  | cleared _ h =>
      obtain rfl := stored_of_replaced h hs
      cases hpin

/-- No backup releases a pinned version. -/
theorem pinned_kept (hbackup : e.call = .backup job env) (heffect : Effect sha prim sid τ e)
    (hs : Stored e.before sid index) (hs' : Stored e.after sid index')
    (hpin : index.safetyPinnedVersionId = some id) : index'.safetyPinnedVersionId = some id := by
  cases heffect with
  | rests hindex _ _ =>
      obtain rfl := stored_unique hs (stored_of_index_eq hindex hs')
      exact hpin
  | silent _ _ hindex =>
      obtain rfl := stored_unique hs (stored_of_index_eq hindex hs')
      exact hpin
  | failing hload hsame h _ =>
      obtain rfl := stored_of_replaced h hs'
      obtain rfl := loaded_eq hload hs
      rw [hsame.pinned_eq]
      exact hpin
  | judged hload _ hverdict hsame h =>
      obtain rfl := stored_of_replaced h hs'
      obtain rfl := loaded_eq hload hs
      rw [hsame.pinned_eq]
      exact pinned_stays hverdict hpin
  | cleared hcall _ =>
      rw [hbackup] at hcall
      cases hcall

/-- Only a clean scan releases a pending version. -/
theorem pending_kept (hbackup : e.call = .backup job env) (heffect : Effect sha prim sid τ e)
    (hs : Stored e.before sid index) (hs' : Stored e.after sid index')
    (hpend : index.safetyPendingVersionId = some id) :
    index'.safetyPendingVersionId = some id ∨ ∃ next, CleanScan sha prim sid e next := by
  cases heffect with
  | rests hindex _ _ =>
      obtain rfl := stored_unique hs (stored_of_index_eq hindex hs')
      exact .inl hpend
  | silent _ _ hindex =>
      obtain rfl := stored_unique hs (stored_of_index_eq hindex hs')
      exact .inl hpend
  | failing hload hsame h _ =>
      obtain rfl := stored_of_replaced h hs'
      obtain rfl := loaded_eq hload hs
      rw [hsame.pending_eq]
      exact .inl hpend
  | judged _ hclean _ _ _ => exact .inr ⟨_,hclean⟩
  | cleared hcall _ =>
      rw [hbackup] at hcall
      cases hcall

end Steps

section Histories

theorem allBacked_of_history (h : History sha prim (Guards sha sid τ) events st) :
    AllBacked sha .all st := allBacked_of_sighted (fun _ hcall => hcall.sighted) h.reachable

theorem indexBacked_of_stored {K : Scope} (hsound : AllBacked sha K st)
    (hs : Stored st sid index) : IndexBacked sha K st sid index := by
  obtain ⟨text,hf,hr⟩ := hs
  obtain ⟨index',hr',hback⟩ := hsound sid text hf
  rw [hr] at hr'
  cases hr'
  exact hback

theorem marks_of_history (hτ : 0 < τ) (h : History sha prim (Guards sha sid τ) events st) :
    ∀ index, Stored st sid index → Marks sha prim sid τ events st index := by
  induction h with
  | start =>
      rintro index ⟨text,hf,-⟩
      cases hf
  | call hbefore hA ht ih =>
      have hafter := allBacked_of_history (hbefore.call hA ht)
      intro index hs
      exact marks_step (e := ⟨_,_,_⟩) ih (fun _ hs => (indexBacked_of_stored hafter hs).tidy)
        (effect_run (allBacked_of_history hbefore) hτ hA ht) hs

/-- Every event of a history was preceded by a history. -/
theorem History.split {A : StoreCall → Prop} (h : History sha prim A events st)
    {earlier later : List (StoreEvent Text)} (he : events = earlier++e::later) :
    History sha prim A earlier e.before ∧ A e.call ∧
      e.after ∈ (e.call.run sha prim e.before).states := by
  induction h generalizing later with
  | start => simp at he
  | call hbefore hA ht ih =>
      rcases List.eq_nil_or_concat later with rfl | ⟨later,last,rfl⟩
      · obtain ⟨rfl,hlast⟩ := List.append_inj' he rfl
        cases hlast
        exact ⟨hbefore,hA,ht⟩
      · have hinit : _ = earlier++e::later :=
          (List.append_inj' (he.trans (by simp : _ = (earlier++e::later)++[last])) rfl).1
        exact ih hinit

theorem not_protected_of_prunedBy {hadReadFailures : Bool} {v : VersionInfo}
    (h : v ∈ prunedBy job hadReadFailures index) : v.id ∉ protectedIds index := by
  unfold prunedBy at h
  split at h
  · cases h
  · exact not_mem_protectedIds_of_pruned h

/-- The safety state machine over every history of calls with one positive threshold whose looks
at the store succeed. The marks are never both set, the time stands with the pending mark, and
what they name is listed and stored. Retention passes over protected versions, and a version that
a backup drops was not pinned, nor pending unless the clean scan of that backup released it. A
version becomes pinned only by a clean scan that measured it, after another one did and none was
completed between. -/
theorem safety_state_machine (hτ : 0 < τ)
    (h : History sha prim (Guards sha sid τ) events st) :
    (∀ index, Stored st sid index →
      (index.safetyPinnedVersionId = none ∨ index.safetyPendingVersionId = none) ∧
      index.safetyPendingFirstSeenUnix.isSome = index.safetyPendingVersionId.isSome ∧
      ∀ id ∈ protectedIds index, id ∈ index.ids ∧
        ∃ m, HasManifest st sid id m ∧ Backed sha .all st.blobs m) ∧
    (∀ job hadReadFailures index, ∀ v ∈ prunedBy job hadReadFailures index,
      v.id ∉ protectedIds index) ∧
    (∀ e ∈ events, ∀ job env index index', e.call = .backup job env → Stored e.before sid index →
      Stored e.after sid index' → ∀ id ∈ index.ids, id ∉ index'.ids →
      id ∉ protectedIds index' ∧ index.safetyPinnedVersionId ≠ some id ∧
        (index.safetyPendingVersionId = some id → ∃ next, CleanScan sha prim sid e next)) ∧
    (∀ earlier e later, events = earlier++e::later → ∀ id index', Stored e.after sid index' →
      index'.safetyPinnedVersionId = some id →
      (∃ index, Stored e.before sid index ∧ index.safetyPinnedVersionId = some id) ∨
        (Shrinks sha prim sid τ id e ∧ Seen sha prim sid τ earlier id)) := by
  refine ⟨?_,fun job _ index v hv => not_protected_of_prunedBy hv,?_,?_⟩
  · intro index hs
    have hmarks := marks_of_history hτ h index hs
    have hback := indexBacked_of_stored (allBacked_of_history h) hs
    refine ⟨hmarks.exclusive,hmarks.firstSeen,?_⟩
    intro id hid
    have hlisted := hback.tidy.pins id hid
    obtain ⟨v,hv,rfl⟩ := List.mem_map.mp hlisted
    obtain ⟨-,text,m,hf,hr,hb⟩ := hback.backed v hv
    exact ⟨hlisted,m,⟨text,hf,hr⟩,hb⟩
  · intro e he job env index index' hcall hs hs' id _ hdropped
    obtain ⟨earlier,later,hsplit⟩ := List.append_of_mem he
    obtain ⟨hbefore,hA,ht⟩ := h.split hsplit
    have heffect := effect_run (allBacked_of_history hbefore) hτ hA ht
    have htidy := (indexBacked_of_stored (allBacked_of_history (hbefore.call hA ht)) hs').tidy
    have hfree : id ∉ protectedIds index' := fun hid => hdropped (htidy.pins id hid)
    refine ⟨hfree,?_,?_⟩
    · intro hpin
      exact hfree (mem_protectedIds.mpr (.inl (pinned_kept hcall heffect hs hs' hpin)))
    · intro hpend
      rcases pending_kept hcall heffect hs hs' hpend with hp | hclean
      · exact absurd (mem_protectedIds.mpr (.inr hp)) hfree
      · exact hclean
  · intro earlier e later hsplit id index' hs hpin
    obtain ⟨hbefore,hA,ht⟩ := h.split hsplit
    exact pinned_step (marks_of_history hτ hbefore)
      (effect_run (allBacked_of_history hbefore) hτ hA ht) hs hpin

end Histories

section Run

/-- A watched directory whose loss of half its files or bytes raises the safety check. -/
def guardedJob : FolderJob := {notesJob with threshold := 1/2}

/-- A source of files given by name and text. -/
def filesOf (files : List (String × String)) : SourceContents :=
  ⟨.dir []::files.map fun f =>
      .file [f.1.toList] ⟨.ok ⟨(ascii f.2).length,some (7,0)⟩,.ok (ascii f.2)⟩,
    ⟨.error [],.error []⟩⟩

/-- A call on these files in which nothing fails. -/
def filesEnv (files : List (String × String)) (scannedAt : Int) (stamp : VersionStamp) :
    BackupEnv :=
  {calmEnv "" 0 scannedAt stamp with
    source := filesOf files
    blobWrites := fun relPath => ⟨true,
      [some ⟨(files.find? fun f => f.1.toList = relPath).map fun f => ascii f.2,[],
        Vector.replicate _ 0,.done⟩],[]⟩}

def noon : VersionStamp := ⟨"20260102-120000-000000000".toList,by decide⟩

def evening : VersionStamp := ⟨"20260102-180000-000000000".toList,by decide⟩

/-- Two files, of which one is gone at noon and still in the evening. -/
def lossCalls : List StoreCall :=
  [.backup guardedJob (filesEnv [("a","hi"),("b","ho")] 1767323045 morning),
    .backup guardedJob (filesEnv [("a","hi")] 1767355200 noon),
    .backup guardedJob (filesEnv [("a","hi")] 1767376800 evening)]

/-- The history of calls that all run to their end. -/
def eventsOf (sha : Sha256) (prim : Primitives) :
    Store Text → List StoreCall → List (StoreEvent Text)
  | _,[] => []
  | st,call::calls =>
      ⟨call,st,(call.run sha prim st).store⟩::eventsOf sha prim (call.run sha prim st).store calls

def storeAfter (sha : Sha256) (prim : Primitives) (st : Store Text) (calls : List StoreCall) :
    Store Text :=
  calls.foldl (fun st call => (call.run sha prim st).store) st

theorem history_eventsOf {A : StoreCall → Prop} (calls : List StoreCall)
    (h : History sha prim A events st) (hA : ∀ call ∈ calls, A call) :
    History sha prim A (events++eventsOf sha prim st calls) (storeAfter sha prim st calls) := by
  induction calls generalizing events st with
  | nil =>
      rw [eventsOf,List.append_nil]
      exact h
  | cons call calls ih =>
      have hnext := h.call (hA call List.mem_cons_self)
        (List.mem_append_right _ (List.mem_singleton_self _))
      have hrest := ih hnext fun c hc => hA c (List.mem_cons_of_mem _ hc)
      rw [List.append_assoc] at hrest
      exact hrest

def lossEvents : List (StoreEvent PlainText) := eventsOf notesSha .transparent .empty lossCalls

def lossStore (calls : Nat) : Store PlainText :=
  storeAfter notesSha .transparent .empty (lossCalls.take calls)

theorem history_lossEvents : History notesSha .transparent
    (Guards notesSha notesId (1/2)) lossEvents
    (lossStore 3) := by
  refine history_eventsOf lossCalls .start ?_
  intro call hcall
  simp only [lossCalls,List.mem_cons,List.not_mem_nil,or_false] at hcall
  rcases hcall with rfl | rfl | rfl
  all_goals
    refine ⟨fun _ => rfl,?_⟩
    rintro job env ⟨⟩ -
    exact ⟨rfl,nofun,nofun⟩

/-- The version of two files is pinned in the evening, after two scans measured its loss. -/
theorem safety_state_machine_two_scans :
    Stored (lossStore 3) notesId
      ⟨1,"/home/notes".toList,[⟨morning.text,1767323045⟩,⟨noon.text,1767355200⟩],
        some morning.text,none,none⟩ ∧
    ∃ earlier e, lossEvents = earlier++[e] ∧
      Shrinks notesSha .transparent notesId (1/2) morning.text e ∧
      Seen notesSha .transparent notesId (1/2) earlier
        morning.text := by
  have hstored : Stored (lossStore 3) notesId
      ⟨1,"/home/notes".toList,[⟨morning.text,1767323045⟩,⟨noon.text,1767355200⟩],
        some morning.text,none,none⟩ := ⟨.index _,by decide +kernel,rfl⟩
  have hbefore : Stored (lossStore 2) notesId
      ⟨1,"/home/notes".toList,[⟨morning.text,1767323045⟩,⟨noon.text,1767355200⟩],
        none,some morning.text,some 1767355200⟩ := ⟨.index _,by decide +kernel,rfl⟩
  obtain ⟨-,-,-,hpinned⟩ := safety_state_machine (by norm_num) history_lossEvents
  refine ⟨hstored,lossEvents.take 2,_,rfl,?_⟩
  refine (hpinned (lossEvents.take 2) _ [] rfl morning.text _ hstored rfl).resolve_left ?_
  rintro ⟨index,hs,hpin⟩
  obtain rfl := stored_unique hs hbefore
  cases hpin

end Run

end SafetyMachine
end BackupSync
