import BackupSync.DaemonState

/-!
# One backup cycle of the daemon

run_cycle is cut at the points where it reads or writes something it shares with
the other tasks: its baseline, the safe mode, the dirty set and the final merge.
Between two such points the watcher, the requests and the verification may change
the host; the input of a cycle lists those changes for every gap. A cycle is then
a function of its input and the host it starts from.

A cycle that returns an error before its commit leaves no trace in the stored
state, but the dirty set it has drained stays empty.
-/
namespace BackupSync
open SafetyBaseline DaemonState

/-- What the tasks of the daemon share. -/
structure Host where
  shared : StoredState
  dirty : List Str
  deriving DecidableEq, Repr

/-- A change made by a task other than the backup cycle. -/
inductive Edit where
  | setSafeMode (enabled : Bool)
  | clearSafetyWarning
  | verified (update : VerifyStateUpdate)
  | changed (path : Str)
  deriving DecidableEq, Repr

/-- How a cycle ends. -/
inductive CycleEnd where
  | probeFailed
  | safeMode
  | paused
  | skipClean (forceDueIn : Nat)
  | engineFailed (drained : Nat) (error : Str)
  | scanned
  deriving DecidableEq, Repr

/-- What a cycle is about to commit. -/
structure Pending where
  baseline : StoredState
  cycle : StoredState
  ending : CycleEnd
  deriving DecidableEq, Repr

/-- What a cycle meets, in order. A probe that is none or an engine error stands for a task that
failed, too. -/
structure CycleInput where
  beforeStart : List Edit := []
  now : Int
  duringProbe : List Edit := []
  health : Option (List DestinationWriteHealth)
  beforeGate : List Edit := []
  safeModeNow : Int
  beforeDrain : List Edit := []
  duringDebounce : List Edit := []
  duringScan : List Edit := []
  engine : Except Str EngineResult
  beforeCommit : List Edit := []
  deriving DecidableEq, Repr

namespace Host

def edit (h : Host) : Edit → Host
  | .setSafeMode enabled => {h with shared := {h.shared with safeMode := enabled}}
  | .clearSafetyWarning => {h with shared := {h.shared with lastSafetyWarning := none}}
  | .verified update => {h with shared := applyVerifyUpdate h.shared update}
  | .changed path => {h with dirty := h.dirty.insert path}

def edits (h : Host) (es : List Edit) : Host := es.foldl edit h

def commit (h : Host) (p : Pending) : Host :=
  {h with shared := mergeCycleState h.shared p.baseline p.cycle}

end Host

namespace DaemonCycle

/-- apply_safe_mode, and the pause that is looked at after it: a record to commit, or the state to
go on with. A safe-mode commit has the state at this point as its baseline. -/
def gateCycle (cfg : DaemonConfig) (baseline state : StoredState)
    (transition : DestinationPauseTransition) (now safeModeNow : Int) (safeMode : Bool) :
    Pending ⊕ StoredState :=
  let own := {state with safeMode := safeMode}
  if cfg.safeMode || safeMode then .inl ⟨state,noteSafeMode own safeModeNow,.safeMode⟩
  else match transition.pauseReason with
    | some reason => .inl ⟨baseline,notePause own reason now,.paused⟩
    | none => .inr own

/-- The decision, once the dirty set is drained. -/
def decideCycle (cfg : DaemonConfig) (baseline state : StoredState) (recovered : Bool) (now : Int)
    (dirtyCount : Nat) : Pending ⊕ StoredState :=
  let own := {state with lastDirtyCount := dirtyCount}
  match decideScan dirtyCount own cfg recovered with
  | .skipClean due => .inl ⟨baseline,noteCleanSkip own now,.skipClean due⟩
  | .runFullScan _ => .inr own

def commitWith (p : Pending) (h : Host) (i : CycleInput) : Host × CycleEnd :=
  ((h.edits i.beforeCommit).commit p,p.ending)

def fromScan (baseline state : StoredState) (now : Int) (dirtyCount : Nat) (h : Host)
    (i : CycleInput) : Host × CycleEnd :=
  match i.engine with
  | .error e => (h.edits i.duringScan,.engineFailed dirtyCount e)
  | .ok r => commitWith ⟨baseline,noteEngine state r now,.scanned⟩ (h.edits i.duringScan) i

def fromDecision (cfg : DaemonConfig) (baseline state : StoredState) (recovered : Bool)
    (now : Int) (dirtyCount : Nat) (h : Host) (i : CycleInput) : Host × CycleEnd :=
  match decideCycle cfg baseline state recovered now dirtyCount with
  | .inl p => commitWith p h i
  | .inr state => fromScan baseline state now dirtyCount h i

/-- The debounce is over and everything in the set is taken. -/
def fromDebounce (cfg : DaemonConfig) (baseline state : StoredState) (recovered : Bool)
    (now : Int) (h : Host) (i : CycleInput) : Host × CycleEnd :=
  let h := h.edits i.duringDebounce
  fromDecision cfg baseline state recovered now h.dirty.length {h with dirty := []} i

/-- drain_dirty_count waits only if it finds a path. -/
def fromDrain (cfg : DaemonConfig) (baseline state : StoredState) (recovered : Bool)
    (now : Int) (h : Host) (i : CycleInput) : Host × CycleEnd :=
  let h := h.edits i.beforeDrain
  if h.dirty = [] then fromDecision cfg baseline state recovered now 0 h i
  else fromDebounce cfg baseline state recovered now h i

def fromGate (cfg : DaemonConfig) (baseline state : StoredState)
    (transition : DestinationPauseTransition) (now : Int) (h : Host) (i : CycleInput) :
    Host × CycleEnd :=
  let h := h.edits i.beforeGate
  match gateCycle cfg baseline state transition now i.safeModeNow h.shared.safeMode with
  | .inl p => commitWith p h i
  | .inr state => fromDrain cfg baseline state transition.destinationRecovered now h i

def fromProbe (cfg : DaemonConfig) (baseline state : StoredState) (now : Int) (h : Host)
    (i : CycleInput) : Host × CycleEnd :=
  let h := h.edits i.duringProbe
  match i.health with
  | none => (h,.probeFailed)
  | some health =>
      let settled := settleDestinations state health now
      fromGate cfg baseline settled.1 settled.2 now h i

/-- The local copy of the state at the start of a cycle. -/
def startState (h : Host) : StoredState := {h.shared with lastDirtyCount := h.dirty.length}

def runCycle (cfg : DaemonConfig) (i : CycleInput) (h : Host) : Host × CycleEnd :=
  let h := h.edits i.beforeStart
  fromProbe cfg h.shared (startState h) i.now h i

/-- One cycle after the other, as the scheduler runs them. -/
def runCycles (cfg : DaemonConfig) (h : Host) (inputs : List CycleInput) : Host :=
  inputs.foldl (fun h i => (runCycle cfg i h).1) h

/-- The probe found a destination missing. -/
def unavailable (i : CycleInput) : Bool :=
  (i.health.bind pauseReason).isSome

/-- The cycle sees all destinations again after a pause. -/
def recovers (i : CycleInput) (h : Host) : Bool :=
  h.shared.destinationPaused && i.health.isSome && !unavailable i

structure CycleRecord where
  input : CycleInput
  recovered : Bool
  ending : CycleEnd
  deriving DecidableEq, Repr

/-- What a run of cycles looks like from outside, first cycle first. -/
def history (cfg : DaemonConfig) : Host → List CycleInput → List CycleRecord
  | _,[] => []
  | h,i::is => ⟨i,recovers i h,(runCycle cfg i h).2⟩::history cfg (runCycle cfg i h).1 is

/-- What the choice between a scan and a skip is made from. -/
structure ScanClock where
  startTs : Option Int
  lastRunTs : Option Int
  cyclesSinceFullScan : Nat
  destinationPaused : Bool
  deriving DecidableEq, Repr

def scanClock (s : StoredState) : ScanClock :=
  ⟨s.startTs,s.lastRunTs,s.cyclesSinceFullScan,s.destinationPaused⟩

/-- How a cycle moves the clock, by its ending. -/
def ScanClock.after (c : ScanClock) (i : CycleInput) : CycleEnd → ScanClock
  | .probeFailed => c
  | .engineFailed _ _ => c
  | .safeMode => ⟨c.startTs,some i.safeModeNow,saturatingAdd c.cyclesSinceFullScan 1,unavailable i⟩
  | .paused => ⟨c.startTs,some i.now,saturatingAdd c.cyclesSinceFullScan 1,true⟩
  | .skipClean _ => ⟨c.startTs,some i.now,saturatingAdd c.cyclesSinceFullScan 1,false⟩
  | .scanned => ⟨c.startTs,some i.now,0,false⟩

/-- The host when the safe mode is read. -/
def hostAtGate (i : CycleInput) (h : Host) : Host :=
  ((h.edits i.beforeStart).edits i.duringProbe).edits i.beforeGate

/-- The cycle is neither paused nor in safe mode, and comes to its decision. -/
def active (cfg : DaemonConfig) (i : CycleInput) (h : Host) : Bool :=
  i.health.isSome && !unavailable i && !(cfg.safeMode || (hostAtGate i h).shared.safeMode)

/-- The dirty set as drain_dirty_count finds it. -/
def dirtySeen (i : CycleInput) (h : Host) : List Str := ((hostAtGate i h).edits i.beforeDrain).dirty

def CycleEnd.skips : CycleEnd → Bool
  | .skipClean _ => true
  | _ => false

theorem cycleFields_edits (h : Host) (es : List Edit) :
    cycleFields (h.edits es).shared = cycleFields h.shared := by
  induction es generalizing h with
  | nil => rfl
  | cons e es ih =>
      change cycleFields ((h.edit e).edits es).shared = _
      rw [ih]
      cases e <;> rfl

theorem scanClock_cycleFields (s : StoredState) : scanClock (cycleFields s) = scanClock s := rfl

@[simp] theorem scanClock_edits (h : Host) (es : List Edit) :
    scanClock (h.edits es).shared = scanClock h.shared := by
  rw [←scanClock_cycleFields,cycleFields_edits,scanClock_cycleFields]

@[simp] theorem scanClock_commit (h : Host) (p : Pending) :
    scanClock (h.commit p).shared = scanClock p.cycle := rfl

theorem edits_dirty_ne_nil {h : Host} (es : List Edit) (hd : h.dirty ≠ []) :
    (h.edits es).dirty ≠ [] := by
  induction es generalizing h with
  | nil => exact hd
  | cons e es ih =>
      apply ih
      cases e with
      | setSafeMode enabled => exact hd
      | clearSafetyWarning => exact hd
      | verified update => exact hd
      | changed path => exact List.ne_nil_of_mem (List.mem_insert_self ..)

theorem scanClock_settleDestinations (s : StoredState) (health : List DestinationWriteHealth)
    (now : Int) : scanClock (settleDestinations s health now).1 =
      {scanClock s with destinationPaused := (pauseReason health).isSome} := by
  obtain ⟨-,hstart,hlast,hcount,hpaused⟩ := settleDestinations_fields s health now
  simp only [scanClock,hstart,hlast,hcount,hpaused]

theorem scanClock_noteEngine (s : StoredState) (r : EngineResult) (now : Int) :
    scanClock (noteEngine s r now) = ⟨s.startTs,some now,0,s.destinationPaused⟩ := by
  unfold noteEngine
  dsimp only
  split
  all_goals rfl

/-- A state at hand says what the clock says, except for the destinations just probed. -/
def Follows (state : StoredState) (c : ScanClock) (paused : Bool) : Prop :=
  scanClock state = {c with destinationPaused := paused}

/-- What the clock says against a skip. -/
def ScanClock.due (c : ScanClock) (cfg : DaemonConfig) : Bool :=
  isFirstCycleAfterStart c.startTs c.lastRunTs ||
    cfg.forceFullScanIntervalCycles ≤ c.cyclesSinceFullScan+1

/-- The outcome of a stage: the clock moves by the ending. -/
def Ticks (c : ScanClock) (i : CycleInput) (r : Host × CycleEnd) : Prop :=
  scanClock r.1.shared = c.after i r.2

section Stages
variable (cfg : DaemonConfig) (i : CycleInput) (h : Host) (baseline : StoredState)
  (recovered : Bool) (dirtyCount : Nat)
variable {state : StoredState} {c : ScanClock} {paused : Bool}

theorem Follows.fields (hs : Follows state c paused) :
    state.startTs = c.startTs ∧ state.lastRunTs = c.lastRunTs ∧
      state.cyclesSinceFullScan = c.cyclesSinceFullScan ∧ state.destinationPaused = paused :=
  ⟨congrArg ScanClock.startTs hs,congrArg ScanClock.lastRunTs hs,
    congrArg ScanClock.cyclesSinceFullScan hs,congrArg ScanClock.destinationPaused hs⟩

/-- The record of a cycle that neither scans nor fails. -/
theorem Follows.idled (hs : Follows state c paused) {cycle : StoredState} {now : Int}
    (hcycle : scanClock cycle = ⟨state.startTs,some now,
      saturatingAdd state.cyclesSinceFullScan 1,state.destinationPaused⟩) :
    scanClock cycle = ⟨c.startTs,some now,saturatingAdd c.cyclesSinceFullScan 1,paused⟩ := by
  obtain ⟨hstart,-,hcount,hpaused⟩ := hs.fields
  rw [hcycle,hstart,hcount,hpaused]

theorem fromScan_spec (hh : scanClock h.shared = c) (hs : Follows state c false) :
    Ticks c i (fromScan baseline state i.now dirtyCount h i) ∧
      CycleEnd.skips (fromScan baseline state i.now dirtyCount h i).2 = false := by
  obtain ⟨hstart,-,-,hpaused⟩ := hs.fields
  unfold fromScan Ticks
  cases i.engine with
  | error e => exact ⟨(scanClock_edits h i.duringScan).trans hh,rfl⟩
  | ok r =>
      refine ⟨?_,rfl⟩
      simp only [commitWith,scanClock_commit,scanClock_noteEngine,hstart,hpaused,ScanClock.after]

theorem decideScan_skips_iff_due (hs : Follows state c false) :
    (∃ due, decideScan dirtyCount {state with lastDirtyCount := dirtyCount} cfg recovered =
        .skipClean due) ↔
      recovered = false ∧ dirtyCount = 0 ∧ c.due cfg = false := by
  obtain ⟨hstart,hlast,hcount,-⟩ := hs.fields
  rw [decideScan_skips_iff]
  simp only [hstart,hlast,hcount,ScanClock.due,Bool.or_eq_false_iff,decide_eq_false_iff_not,
    Nat.not_le]

theorem fromDecision_spec (hh : scanClock h.shared = c) (hs : Follows state c false) :
    Ticks c i (fromDecision cfg baseline state recovered i.now dirtyCount h i) ∧
      (CycleEnd.skips (fromDecision cfg baseline state recovered i.now dirtyCount h i).2 = true ↔
        recovered = false ∧ dirtyCount = 0 ∧ c.due cfg = false) := by
  have hskips := decideScan_skips_iff_due cfg recovered dirtyCount hs
  unfold fromDecision decideCycle
  dsimp only
  cases hdec : decideScan dirtyCount {state with lastDirtyCount := dirtyCount} cfg recovered with
  | skipClean due => exact ⟨hs.idled rfl,iff_of_true rfl (hskips.mp ⟨due,hdec⟩)⟩
  | runFullScan reason =>
      have hs' : Follows {state with lastDirtyCount := dirtyCount} c false := hs
      obtain ⟨htick,hscan⟩ := fromScan_spec i h baseline dirtyCount hh hs'
      refine ⟨htick,iff_of_false (Bool.eq_false_iff.mp hscan) ?_⟩
      intro hall
      obtain ⟨due,hdue⟩ := hskips.mpr hall
      cases hdec.symm.trans hdue

theorem fromDrain_spec (hh : scanClock h.shared = c) (hs : Follows state c false) :
    Ticks c i (fromDrain cfg baseline state recovered i.now h i) ∧
      (CycleEnd.skips (fromDrain cfg baseline state recovered i.now h i).2 = true ↔
        recovered = false ∧ (h.edits i.beforeDrain).dirty = [] ∧ c.due cfg = false) := by
  have hclock : scanClock (h.edits i.beforeDrain).shared = c := (scanClock_edits ..).trans hh
  unfold fromDrain
  dsimp only
  split_ifs with hempty
  · simpa only [hempty,true_and] using
      fromDecision_spec cfg i (h.edits i.beforeDrain) baseline recovered 0 hclock hs
  · obtain ⟨htick,hskip⟩ := fromDecision_spec cfg i
      {(h.edits i.beforeDrain).edits i.duringDebounce with dirty := []} baseline recovered
      ((h.edits i.beforeDrain).edits i.duringDebounce).dirty.length
      ((scanClock_edits ..).trans hclock) hs
    have hlength := edits_dirty_ne_nil i.duringDebounce hempty
    refine ⟨htick,hskip.trans ?_⟩
    simp only [List.length_eq_zero_iff,hlength,hempty,false_and,and_false]

end Stages

theorem fromGate_spec (cfg : DaemonConfig) (i : CycleInput) (h : Host)
    (baseline : StoredState) {state : StoredState} {c : ScanClock}
    (health : List DestinationWriteHealth) (hhealth : i.health = some health)
    (hh : scanClock h.shared = c) (hs : Follows state c (pauseReason health).isSome)
    (recovered : Bool) :
    Ticks c i (fromGate cfg baseline state ⟨pauseReason health,recovered⟩ i.now h i) ∧
      (CycleEnd.skips (fromGate cfg baseline state ⟨pauseReason health,recovered⟩ i.now h i).2 =
          true ↔
        unavailable i = false ∧ (cfg.safeMode || (h.edits i.beforeGate).shared.safeMode) = false ∧
          recovered = false ∧ ((h.edits i.beforeGate).edits i.beforeDrain).dirty = [] ∧
          c.due cfg = false) := by
  have hu : unavailable i = (pauseReason health).isSome := by simp [unavailable,hhealth]
  have hclock : scanClock (h.edits i.beforeGate).shared = c := (scanClock_edits ..).trans hh
  unfold fromGate gateCycle
  dsimp only
  cases hsafe : cfg.safeMode || (h.edits i.beforeGate).shared.safeMode with
  | true =>
      rw [if_pos rfl]
      refine ⟨?_,iff_of_false Bool.false_ne_true (by simp)⟩
      change scanClock _ = ScanClock.mk _ _ _ (unavailable i)
      rw [hu]
      exact hs.idled rfl
  | false =>
      rw [if_neg (by decide)]
      cases hreason : pauseReason health with
      | some reason =>
          rw [hreason] at hs hu
          refine ⟨hs.idled rfl,iff_of_false Bool.false_ne_true ?_⟩
          simp [hu]
      | none =>
          rw [hreason] at hs hu
          have hs' : Follows {state with safeMode := (h.edits i.beforeGate).shared.safeMode} c
              false := hs
          obtain ⟨htick,hskip⟩ := fromDrain_spec cfg i (h.edits i.beforeGate) baseline recovered
            hclock hs'
          refine ⟨htick,hskip.trans ?_⟩
          simp [hu]

section Cycle
variable (cfg : DaemonConfig) (i : CycleInput) (h : Host)

/-- What one cycle does to the clock, and when it skips the scan. -/
theorem runCycle_spec :
    Ticks (scanClock h.shared) i (runCycle cfg i h) ∧
      (CycleEnd.skips (runCycle cfg i h).2 = true ↔
        active cfg i h = true ∧ recovers i h = false ∧ dirtySeen i h = [] ∧
          (scanClock h.shared).due cfg = false) := by
  have hstart : scanClock (h.edits i.beforeStart).shared = scanClock h.shared := scanClock_edits ..
  have hpaused : (h.edits i.beforeStart).shared.destinationPaused = h.shared.destinationPaused :=
    congrArg ScanClock.destinationPaused hstart
  have hprobe : scanClock ((h.edits i.beforeStart).edits i.duringProbe).shared =
      scanClock h.shared := (scanClock_edits ..).trans hstart
  unfold runCycle fromProbe
  dsimp only
  cases hhealth : i.health with
  | none => exact ⟨hprobe,iff_of_false Bool.false_ne_true (by simp [active,hhealth])⟩
  | some health =>
      have hs : Follows (settleDestinations (startState (h.edits i.beforeStart)) health i.now).1
          (scanClock h.shared) (pauseReason health).isSome :=
        (scanClock_settleDestinations ..).trans (by rw [←hstart]; rfl)
      dsimp only
      rw [settleDestinations_transition]
      obtain ⟨htick,hskip⟩ := fromGate_spec cfg i ((h.edits i.beforeStart).edits i.duringProbe)
        (h.edits i.beforeStart).shared health hhealth hprobe hs
        ((startState (h.edits i.beforeStart)).destinationPaused && (pauseReason health).isNone)
      refine ⟨htick,hskip.trans ?_⟩
      have hrecovers : recovers i h = ((startState (h.edits i.beforeStart)).destinationPaused &&
          (pauseReason health).isNone) := by
        simp [recovers,unavailable,hhealth,startState,hpaused]
      rw [hrecovers]
      simp only [active,hostAtGate,dirtySeen,hhealth,Option.isSome_some,Bool.true_and,
        Bool.and_eq_true,Bool.not_eq_true',and_assoc]

theorem scanClock_runCycle : scanClock (runCycle cfg i h).1.shared =
    (scanClock h.shared).after i (runCycle cfg i h).2 := (runCycle_spec cfg i h).1

theorem runCycle_skips_iff : CycleEnd.skips (runCycle cfg i h).2 = true ↔
    active cfg i h = true ∧ recovers i h = false ∧ dirtySeen i h = [] ∧
      (scanClock h.shared).due cfg = false := (runCycle_spec cfg i h).2

end Cycle

theorem runCycles_append_singleton (cfg : DaemonConfig) (h : Host) (before : List CycleInput)
    (i : CycleInput) :
    runCycles cfg h (before++[i]) = (runCycle cfg i (runCycles cfg h before)).1 := by
  simp [runCycles]

theorem history_append_singleton (cfg : DaemonConfig) (h : Host) (before : List CycleInput)
    (i : CycleInput) : history cfg h (before++[i]) = history cfg h before++
      [⟨i,recovers i (runCycles cfg h before),(runCycle cfg i (runCycles cfg h before)).2⟩] := by
  induction before generalizing h with
  | nil => rfl
  | cons j before ih => exact congrArg _ (ih (runCycle cfg j h).1)

end DaemonCycle
end BackupSync
