import BackupSync.BackupCycle

/-!
# The daemon's stored state and who may write it

The stored state is one record shared by three kinds of writers. A backup cycle
computes a whole new record from a copy it read earlier, a verification replaces
four fields, and requests set the safe mode or clear the safety warning. What a
cycle finally writes is merge_cycle_state of the record as it is by then, the
copy it started from and the record it computed.

The fields no function here touches (files, prune_counter, version,
recent_activity) are left out.
-/
namespace BackupSync
open SafetyBaseline

structure StoredState where
  lastRunTs : Option Int := none
  lastError : Option Str := none
  lastFilesBackedUp : Nat := 0
  lastDirtyCount : Nat := 0
  cyclesSinceFullScan : Nat := 0
  startTs : Option Int := none
  lastVerifyTs : Option Int := none
  lastVerifyStatus : Option Str := none
  lastVerifyIssues : Option Nat := none
  lastScrubFullTs : Option Int := none
  safeMode : Bool := false
  destinationPaused : Bool := false
  destinationPauseReason : Option Str := none
  destinationUnavailableIds : List Str := []
  destinationLastUnavailableTs : Option Int := none
  destinationLastRecoveredTs : Option Int := none
  replicationLastRunTs : Option Int := none
  replicationLastStatus : Option Str := none
  replicationLastError : Option Str := none
  replicationLastBytesCopied : Nat := 0
  replicationLastBlobsCopied : Nat := 0
  replicationLastManifestsCopied : Nat := 0
  replicationLastManifestsDeleted : Nat := 0
  replicationLastPairsOk : Nat := 0
  replicationLastPairsFailed : Nat := 0
  replicationLastTargetsFailed : List Str := []
  lastSafetyWarning : Option SafetyWarning := none
  deriving DecidableEq, Repr

/-- The settings the daemon's decisions depend on; the interval is a u64. -/
structure DaemonConfig where
  safeMode : Bool
  forceFullScanIntervalCycles : Nat
  scrubFullIntervalSeconds : Nat
  fits : forceFullScanIntervalCycles ≤ 0xFFFFFFFFFFFFFFFF
  deriving DecidableEq, Repr

structure DestinationWriteHealth where
  id : Str
  ok : Bool
  message : Str
  deriving DecidableEq, Repr

structure DestinationPauseTransition where
  pauseReason : Option Str
  destinationRecovered : Bool
  deriving DecidableEq, Repr

/-- Why a full scan runs, in the order of the checks. -/
inductive ScanReason where
  | destinationRecovered
  | dirtyPaths
  | firstCycle
  | everyCycle
  | forced
  deriving DecidableEq, Repr

inductive ScanDecision where
  | runFullScan (reason : ScanReason)
  | skipClean (forceDueIn : Nat)
  deriving DecidableEq, Repr

inductive ScrubMode where
  | sampled
  | full
  deriving DecidableEq, Repr

/-- What a scrub counted; it reports the mode it was asked for. -/
structure ScrubResult where
  manifestsBad : Nat
  missingBlobs : Nat
  hashMismatches : Nat
  deriving DecidableEq, Repr

inductive VerifyOutcome where
  | skipped (unavailable : List Str)
  | scrubbed (result : ScrubResult)
  | failed (error : Str)
  deriving DecidableEq, Repr

structure VerifyStateUpdate where
  lastVerifyTs : Option Int
  lastVerifyStatus : Option Str
  lastVerifyIssues : Option Nat
  lastScrubFullTs : Option Int
  deriving DecidableEq, Repr

/-- What the engine hands back: the backup and, where pairs are configured, the replication. -/
structure EngineResult where
  backup : BackupCycleResult
  replication : Option (Except Str ReplicationSummary)
  deriving DecidableEq, Repr

namespace DaemonState

def applyBackupCycleResult (state : StoredState) (result : BackupCycleResult) (now : Int) :
    StoredState :=
  {state with
    lastFilesBackedUp := result.versionsCreated
    lastRunTs := some now
    lastError := none
    cyclesSinceFullScan := 0
    lastSafetyWarning := result.safetyWarnings.getLast?.or state.lastSafetyWarning}

def mergeCycleState (current baseline cycle : StoredState) : StoredState :=
  {cycle with
    safeMode := current.safeMode
    lastVerifyTs := current.lastVerifyTs
    lastVerifyStatus := current.lastVerifyStatus
    lastVerifyIssues := current.lastVerifyIssues
    lastScrubFullTs := current.lastScrubFullTs
    lastSafetyWarning :=
      if current.lastSafetyWarning = baseline.lastSafetyWarning then cycle.lastSafetyWarning
      else current.lastSafetyWarning}

def applyReplicationSuccess (state : StoredState) (summary : ReplicationSummary) (now : Int) :
    StoredState :=
  {state with
    replicationLastRunTs := some now
    replicationLastBytesCopied := summary.bytesCopied
    replicationLastBlobsCopied := summary.blobsCopied
    replicationLastManifestsCopied := summary.manifestsCopied
    replicationLastManifestsDeleted := summary.manifestsDeleted
    replicationLastPairsOk := summary.pairsOk
    replicationLastPairsFailed := summary.pairsFailed
    replicationLastTargetsFailed := summary.targetsFailed
    replicationLastStatus :=
      some (if summary.pairsFailed = 0 then "ok".toList else "degraded".toList)
    replicationLastError := if summary.pairsFailed = 0 then none else some summary.message}

def applyReplicationFailure (state : StoredState) (error : Str) (now : Int) : StoredState :=
  {state with
    replicationLastRunTs := some now
    replicationLastStatus := some "failed".toList
    replicationLastError := some error}

/-- The reason given while a destination is missing. -/
def pauseReason (health : List DestinationWriteHealth) : Option Str :=
  match health.filter fun d => !d.ok with
  | [] => none
  | missing => some ("Destination unavailable: ".toList++
      ", ".toList.intercalate (missing.map fun d => d.id++" (".toList++d.message++")".toList)++
      ". Writes paused and will auto-resume when the destination returns.".toList)

def applyDestinationHealth (state : StoredState) (health : List DestinationWriteHealth)
    (now : Int) : StoredState × DestinationPauseTransition :=
  let paused := (pauseReason health).isSome
  ({state with
      destinationUnavailableIds := (health.filter fun d => !d.ok).map (·.id)
      destinationPaused := paused
      destinationPauseReason := pauseReason health
      destinationLastUnavailableTs :=
        if paused && (!state.destinationPaused || state.destinationLastUnavailableTs.isNone)
        then some now else state.destinationLastUnavailableTs},
    ⟨pauseReason health,state.destinationPaused && !paused⟩)

/-- The bookkeeping of run_cycle after a destination has come back. -/
def noteRecovery (state : StoredState) (now : Int) : StoredState :=
  {state with
    destinationLastRecoveredTs := some now
    destinationUnavailableIds := []
    lastError :=
      if "Destination unavailable:".toList.isPrefixOf (state.lastError.getD []) then none
      else state.lastError}

/-- The first stage of run_cycle. -/
def settleDestinations (state : StoredState) (health : List DestinationWriteHealth) (now : Int) :
    StoredState × DestinationPauseTransition :=
  let r := applyDestinationHealth state health now
  (if r.2.destinationRecovered then noteRecovery r.1 now else r.1,r.2)

/-- What apply_safe_mode records when safe mode is active. -/
def noteSafeMode (state : StoredState) (now : Int) : StoredState :=
  {state with
    lastRunTs := some now
    lastFilesBackedUp := 0
    cyclesSinceFullScan := saturatingAdd state.cyclesSinceFullScan 1
    lastError := some "Safe mode: no writes performed".toList}

def notePause (state : StoredState) (reason : Str) (now : Int) : StoredState :=
  {state with
    lastRunTs := some now
    lastFilesBackedUp := 0
    cyclesSinceFullScan := saturatingAdd state.cyclesSinceFullScan 1
    lastError := some reason}

def noteCleanSkip (state : StoredState) (now : Int) : StoredState :=
  {state with
    cyclesSinceFullScan := saturatingAdd state.cyclesSinceFullScan 1
    lastRunTs := some now
    lastFilesBackedUp := 0
    lastError := none}

def noteEngine (state : StoredState) (result : EngineResult) (now : Int) : StoredState :=
  let state := applyBackupCycleResult state result.backup now
  match result.replication with
  | none => state
  | some (.ok summary) => applyReplicationSuccess state summary now
  | some (.error error) => applyReplicationFailure state error now

def isFirstCycleAfterStart : Option Int → Option Int → Bool
  | none,none => true
  | some _,none => true
  | some start,some last => last < start
  | none,some _ => false

def decideScan (dirtyCount : Nat) (state : StoredState) (cfg : DaemonConfig)
    (forceFullScan : Bool) : ScanDecision :=
  let interval := max cfg.forceFullScanIntervalCycles 1
  if forceFullScan then .runFullScan .destinationRecovered
  else if 0 < dirtyCount then .runFullScan .dirtyPaths
  else if isFirstCycleAfterStart state.startTs state.lastRunTs then .runFullScan .firstCycle
  else if interval ≤ 1 then .runFullScan .everyCycle
  else if interval-1 ≤ state.cyclesSinceFullScan then .runFullScan .forced
  else .skipClean (interval-1-state.cyclesSinceFullScan)

def applyVerifyUpdate (state : StoredState) (update : VerifyStateUpdate) : StoredState :=
  {state with
    lastVerifyTs := update.lastVerifyTs
    lastVerifyStatus := update.lastVerifyStatus
    lastVerifyIssues := update.lastVerifyIssues
    lastScrubFullTs := update.lastScrubFullTs.or state.lastScrubFullTs}

def scrubMode (cfg : DaemonConfig) (now : Int) : Option Int → ScrubMode
  | none => .full
  | some ts => if (cfg.scrubFullIntervalSeconds : Int) ≤ now-ts then .full else .sampled

def ScrubMode.label : ScrubMode → Str
  | .sampled => "sampled".toList
  | .full => "full".toList

/-- The update a finished verification commits. -/
def verifyUpdate (now : Int) (mode : ScrubMode) : VerifyOutcome → VerifyStateUpdate
  | .skipped unavailable => ⟨some now,
      some ("skipped: destination unavailable (".toList++", ".toList.intercalate unavailable++
        ")".toList),none,none⟩
  | .scrubbed r =>
      let bad := r.hashMismatches+r.missingBlobs+r.manifestsBad
      ⟨some now,
        some ((if bad = 0 then "ok (".toList else "issues_detected (".toList)++
          ScrubMode.label mode++")".toList),
        some bad,if mode = .full then some now else none⟩
  | .failed error => ⟨some now,some ("failed: ".toList++error),none,none⟩

/-- The fields only cycles write: the others are blanked. -/
def cycleFields (s : StoredState) : StoredState :=
  {s with
    safeMode := false
    lastVerifyTs := none
    lastVerifyStatus := none
    lastVerifyIssues := none
    lastScrubFullTs := none
    lastSafetyWarning := none}

/-- The fields only verifications write. -/
def verifyFields (s : StoredState) : VerifyStateUpdate :=
  ⟨s.lastVerifyTs,s.lastVerifyStatus,s.lastVerifyIssues,s.lastScrubFullTs⟩

/-- An update on the fields of verifications alone. -/
def VerifyStateUpdate.over (update fields : VerifyStateUpdate) : VerifyStateUpdate :=
  {update with lastScrubFullTs := update.lastScrubFullTs.or fields.lastScrubFullTs}

section Merge
variable (current baseline cycle : StoredState)

@[simp] theorem mergeCycleState_safeMode :
    (mergeCycleState current baseline cycle).safeMode = current.safeMode := rfl

@[simp] theorem verifyFields_mergeCycleState :
    verifyFields (mergeCycleState current baseline cycle) = verifyFields current := rfl

@[simp] theorem cycleFields_mergeCycleState :
    cycleFields (mergeCycleState current baseline cycle) = cycleFields cycle := rfl

theorem mergeCycleState_lastSafetyWarning :
    (mergeCycleState current baseline cycle).lastSafetyWarning =
      if current.lastSafetyWarning = baseline.lastSafetyWarning then cycle.lastSafetyWarning
      else current.lastSafetyWarning := rfl

end Merge

@[simp] theorem applyVerifyUpdate_safeMode (s : StoredState) (u : VerifyStateUpdate) :
    (applyVerifyUpdate s u).safeMode = s.safeMode := rfl

@[simp] theorem cycleFields_applyVerifyUpdate (s : StoredState) (u : VerifyStateUpdate) :
    cycleFields (applyVerifyUpdate s u) = cycleFields s := rfl

@[simp] theorem verifyFields_applyVerifyUpdate (s : StoredState) (u : VerifyStateUpdate) :
    verifyFields (applyVerifyUpdate s u) = VerifyStateUpdate.over u (verifyFields s) := rfl

@[simp] theorem applyVerifyUpdate_lastSafetyWarning (s : StoredState) (u : VerifyStateUpdate) :
    (applyVerifyUpdate s u).lastSafetyWarning = s.lastSafetyWarning := rfl

theorem settleDestinations_transition (s : StoredState) (health : List DestinationWriteHealth)
    (now : Int) : (settleDestinations s health now).2 =
      ⟨pauseReason health,s.destinationPaused && (pauseReason health).isNone⟩ := by
  simp [settleDestinations,applyDestinationHealth]

/-- Everything else the first stage leaves as the cycle read it. -/
theorem settleDestinations_fields (s : StoredState) (health : List DestinationWriteHealth)
    (now : Int) :
    (settleDestinations s health now).1.lastSafetyWarning = s.lastSafetyWarning ∧
    (settleDestinations s health now).1.startTs = s.startTs ∧
    (settleDestinations s health now).1.lastRunTs = s.lastRunTs ∧
    (settleDestinations s health now).1.cyclesSinceFullScan = s.cyclesSinceFullScan ∧
    (settleDestinations s health now).1.destinationPaused = (pauseReason health).isSome := by
  unfold settleDestinations
  dsimp only
  split
  all_goals exact ⟨rfl,rfl,rfl,rfl,rfl⟩

/-- A scan is skipped only when nothing at all asks for one. -/
theorem decideScan_skips_iff (dirtyCount : Nat) (s : StoredState) (cfg : DaemonConfig)
    (force : Bool) : (∃ due, decideScan dirtyCount s cfg force = .skipClean due) ↔
      force = false ∧ dirtyCount = 0 ∧
        isFirstCycleAfterStart s.startTs s.lastRunTs = false ∧
        s.cyclesSinceFullScan+1 < cfg.forceFullScanIntervalCycles := by
  unfold decideScan
  dsimp only
  constructor
  · rintro ⟨due,h⟩
    split_ifs at h with hforce hdirty hfirst hone hdue
    exact ⟨by simpa using hforce,by omega,by simpa using hfirst,by omega⟩
  · rintro ⟨hforce,hdirty,hfirst,hcount⟩
    rw [if_neg (by simp [hforce]),if_neg (by omega),if_neg (by simp [hfirst]),
      if_neg (by omega),if_neg (by omega)]
    exact ⟨_,rfl⟩

end DaemonState
end BackupSync
