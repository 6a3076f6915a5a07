import BackupSync.DaemonCycle
import BackupSync.OrderedWrites

/-!
# The writers of the stored state, interleaved

Backup cycles run one after the other, verifications run one after the other, and
requests and watcher events come at any time. A step is one access to what they
share: the stored state, the dirty set, the commit lock or the state file. Between
two steps of a task any number of steps of the others may happen.

A commit takes the commit lock, merges its record into the stored state, copies
the result and writes the copy to the state file before it gives the lock back. A
write that fails leaves the state file as it was or, if only the report failed, as
the copy. Requests change the stored state without the commit lock.

The log and the lists of the journal only record what happened.
-/
namespace BackupSync
open DaemonState DaemonCycle

/-- Where a backup cycle is, with the local variables it still needs. -/
inductive CyclePhase where
  | idle
  | probing (baseline state : StoredState) (now : Int)
  | gating (baseline state : StoredState) (transition : DestinationPauseTransition) (now : Int)
  | draining (baseline state : StoredState) (recovered : Bool) (now : Int)
  | debouncing (baseline state : StoredState) (recovered : Bool) (now : Int)
  | scanning (baseline state : StoredState) (now : Int) (dirtyCount : Nat)
  | ready (pending : Pending)
  | locked (pending : Pending)
  | persisting (commit : Nat) (snapshot : StoredState)
  deriving DecidableEq, Repr

inductive VerifyPhase where
  | idle
  | scrubbing (now : Int) (mode : ScrubMode)
  | ready (update : VerifyStateUpdate)
  | locked (update : VerifyStateUpdate)
  | persisting (commit : Nat) (snapshot : StoredState)
  deriving DecidableEq, Repr

inductive Writer where
  | cycle
  | verify
  deriving DecidableEq, Repr

/-- What happened to the stored state. -/
inductive Event where
  | setSafeMode (enabled : Bool)
  | clearSafetyWarning
  | verified (update : VerifyStateUpdate)
  | started (baseline : StoredState)
  | failed (ending : CycleEnd)
  | committed (pending : Pending)
  deriving DecidableEq, Repr

structure Daemon where
  host : Host
  cycle : CyclePhase
  verify : VerifyPhase
  commitLock : Option Writer
  /-- newest first -/
  log : List Event
  /-- the state file, and how it came about -/
  journal : Journal StoredState
  deriving DecidableEq, Repr

namespace Daemon

def boot (initial file : StoredState) : Daemon where
  host := ⟨initial,[]⟩
  cycle := .idle
  verify := .idle
  commitLock := none
  log := []
  journal := .fresh file

/-- Where a cycle goes from the look at the safe mode. -/
def gated (cfg : DaemonConfig) (baseline state : StoredState)
    (transition : DestinationPauseTransition) (now safeModeNow : Int) (safeMode : Bool) :
    CyclePhase :=
  match gateCycle cfg baseline state transition now safeModeNow safeMode with
  | .inl p => .ready p
  | .inr state => .draining baseline state transition.destinationRecovered now

/-- Where a cycle goes once the dirty set is drained. -/
def decided (cfg : DaemonConfig) (baseline state : StoredState) (recovered : Bool) (now : Int)
    (dirtyCount : Nat) : CyclePhase :=
  match decideCycle cfg baseline state recovered now dirtyCount with
  | .inl p => .ready p
  | .inr state => .scanning baseline state now dirtyCount

/-- One access to what the tasks share. -/
inductive Step (cfg : DaemonConfig) (d : Daemon) : Daemon → Prop
  | setSafeMode (enabled : Bool) : Step cfg d
      {d with host := d.host.edit (.setSafeMode enabled),log := .setSafeMode enabled::d.log}
  | clearSafetyWarning : Step cfg d
      {d with host := d.host.edit .clearSafetyWarning,log := .clearSafetyWarning::d.log}
  | changed (path : Str) : Step cfg d {d with host := d.host.edit (.changed path)}
  | start (now : Int) : d.cycle = .idle → Step cfg d
      {d with
        cycle := .probing d.host.shared (startState d.host) now
        log := .started d.host.shared::d.log}
  | probeFailed {baseline state : StoredState} {now : Int} :
      d.cycle = .probing baseline state now → Step cfg d
        {d with cycle := .idle,log := .failed .probeFailed::d.log}
  | probed {baseline state : StoredState} {now : Int} (health : List DestinationWriteHealth) :
      d.cycle = .probing baseline state now → Step cfg d
        {d with
          cycle := .gating baseline (settleDestinations state health now).1
            (settleDestinations state health now).2 now}
  | gate {baseline state : StoredState} {transition : DestinationPauseTransition} {now : Int}
      (safeModeNow : Int) : d.cycle = .gating baseline state transition now → Step cfg d
        {d with
          cycle := gated cfg baseline state transition now safeModeNow d.host.shared.safeMode}
  | foundClean {baseline state : StoredState} {recovered : Bool} {now : Int} :
      d.cycle = .draining baseline state recovered now → d.host.dirty = [] → Step cfg d
        {d with cycle := decided cfg baseline state recovered now 0}
  | foundDirty {baseline state : StoredState} {recovered : Bool} {now : Int} :
      d.cycle = .draining baseline state recovered now → d.host.dirty ≠ [] → Step cfg d
        {d with cycle := .debouncing baseline state recovered now}
  | takeDirty {baseline state : StoredState} {recovered : Bool} {now : Int} :
      d.cycle = .debouncing baseline state recovered now → Step cfg d
        {d with
          host := {d.host with dirty := []}
          cycle := decided cfg baseline state recovered now d.host.dirty.length}
  | engineFailed {baseline state : StoredState} {now : Int} {dirtyCount : Nat} (error : Str) :
      d.cycle = .scanning baseline state now dirtyCount → Step cfg d
        {d with cycle := .idle,log := .failed (.engineFailed dirtyCount error)::d.log}
  | scanned {baseline state : StoredState} {now : Int} {dirtyCount : Nat} (r : EngineResult) :
      d.cycle = .scanning baseline state now dirtyCount → Step cfg d
        {d with cycle := .ready ⟨baseline,noteEngine state r now,.scanned⟩}
  | lockCycle {p : Pending} : d.cycle = .ready p → d.commitLock = none → Step cfg d
      {d with cycle := .locked p,commitLock := some .cycle}
  | merge {p : Pending} : d.cycle = .locked p → Step cfg d
      {d with
        host := d.host.commit p
        cycle := .persisting d.journal.copies.length (d.host.commit p).shared
        log := .committed p::d.log
        journal := d.journal.commit (d.host.commit p).shared}
  | persistCycle {commit : Nat} {snapshot : StoredState} (succeeds : Bool) :
      d.cycle = .persisting commit snapshot → Step cfg d
        {d with
          cycle := .idle
          commitLock := none
          journal := d.journal.write commit snapshot succeeds}
  | startVerify (now : Int) : d.verify = .idle → Step cfg d
      {d with verify := .scrubbing now (scrubMode cfg now d.host.shared.lastScrubFullTs)}
  | scrubFailed {now : Int} {mode : ScrubMode} : d.verify = .scrubbing now mode → Step cfg d
      {d with verify := .idle}
  | scrubbed {now : Int} {mode : ScrubMode} (outcome : VerifyOutcome) :
      d.verify = .scrubbing now mode → Step cfg d
        {d with verify := .ready (verifyUpdate now mode outcome)}
  | lockVerify {update : VerifyStateUpdate} :
      d.verify = .ready update → d.commitLock = none → Step cfg d
        {d with verify := .locked update,commitLock := some .verify}
  | applyVerify {update : VerifyStateUpdate} : d.verify = .locked update → Step cfg d
      {d with
        host := d.host.edit (.verified update)
        verify := .persisting d.journal.copies.length (d.host.edit (.verified update)).shared
        log := .verified update::d.log
        journal := d.journal.commit (d.host.edit (.verified update)).shared}
  | persistVerify {commit : Nat} {snapshot : StoredState} (succeeds : Bool) :
      d.verify = .persisting commit snapshot → Step cfg d
        {d with
          verify := .idle
          commitLock := none
          journal := d.journal.write commit snapshot succeeds}

/-- Any number of steps, of any task. -/
def Reaches (cfg : DaemonConfig) : Daemon → Daemon → Prop := Relation.ReflTransGen (Step cfg)

end Daemon

namespace Event

/-- The effect of an event on the stored state. -/
def apply (s : StoredState) : Event → StoredState
  | .setSafeMode enabled => {s with safeMode := enabled}
  | .clearSafetyWarning => {s with lastSafetyWarning := none}
  | .verified update => applyVerifyUpdate s update
  | .committed p => mergeCycleState s p.baseline p.cycle
  | .started _ => s
  | .failed _ => s

def safeModeSet : Event → Option Bool
  | .setSafeMode enabled => some enabled
  | _ => none

def verifyUpdate : Event → Option VerifyStateUpdate
  | .verified update => some update
  | _ => none

def committedCycle : Event → Option StoredState
  | .committed p => some p.cycle
  | _ => none

end Event

namespace DaemonInterleaving
open Daemon

/-- The events of a log, from the oldest to the newest, applied to the first state. -/
def replay (initial : StoredState) : List Event → StoredState
  | [] => initial
  | e::log => e.apply (replay initial log)

/-- The last value requested. -/
def lastSafeMode (initial : StoredState) (log : List Event) : Bool :=
  (log.filterMap Event.safeModeSet).head?.getD initial.safeMode

/-- The updates of all verifications, in the order of their commits. -/
def verifiedFields (initial : StoredState) (log : List Event) : VerifyStateUpdate :=
  (log.filterMap Event.verifyUpdate).foldr VerifyStateUpdate.over (verifyFields initial)

/-- The record of the last committed cycle. -/
def lastCycle (initial : StoredState) (log : List Event) : StoredState :=
  (log.filterMap Event.committedCycle).head?.getD initial

/-- The baseline of the cycle in progress. -/
def openCycle : List Event → Option StoredState
  | [] => none
  | .started baseline::_ => some baseline
  | .failed _::_ => none
  | .committed _::_ => none
  | .setSafeMode _::log => openCycle log
  | .clearSafetyWarning::log => openCycle log
  | .verified _::log => openCycle log

/-- The warning has been cleared since the cycle in progress read its baseline. -/
def clearedSince : List Event → Bool
  | .clearSafetyWarning::_ => true
  | .setSafeMode _::log => clearedSince log
  | .verified _::log => clearedSince log
  | _ => false

theorem replay_safeMode (initial : StoredState) (log : List Event) :
    (replay initial log).safeMode = lastSafeMode initial log := by
  induction log with
  | nil => rfl
  | cons e log ih =>
      cases e with
      | setSafeMode enabled => rfl
      | clearSafetyWarning => exact ih
      | verified update => exact ih
      | started baseline => exact ih
      | failed ending => exact ih
      | committed p => exact ih

theorem replay_verifyFields (initial : StoredState) (log : List Event) :
    verifyFields (replay initial log) = verifiedFields initial log := by
  induction log with
  | nil => rfl
  | cons e log ih =>
      cases e with
      | setSafeMode enabled => exact ih
      | clearSafetyWarning => exact ih
      | verified update => exact congrArg (VerifyStateUpdate.over update) ih
      | started baseline => exact ih
      | failed ending => exact ih
      | committed p => exact ih

theorem replay_cycleFields (initial : StoredState) (log : List Event) :
    cycleFields (replay initial log) = cycleFields (lastCycle initial log) := by
  induction log with
  | nil => rfl
  | cons e log ih =>
      cases e with
      | setSafeMode enabled => exact ih
      | clearSafetyWarning => exact ih
      | verified update => exact ih
      | started baseline => exact ih
      | failed ending => exact ih
      | committed p => rfl

/-- Every step either leaves the stored state alone or applies the event it logs. -/
theorem step_shared {cfg : DaemonConfig} {d d' : Daemon} (h : Step cfg d d') :
    (d'.log = d.log ∧ d'.host.shared = d.host.shared) ∨
      ∃ e, d'.log = e::d.log ∧ d'.host.shared = e.apply d.host.shared := by
  cases h with
  | setSafeMode enabled => exact .inr ⟨_,rfl,rfl⟩
  | clearSafetyWarning => exact .inr ⟨_,rfl,rfl⟩
  | start now hidle => exact .inr ⟨_,rfl,rfl⟩
  | probeFailed hphase => exact .inr ⟨_,rfl,rfl⟩
  | engineFailed error hphase => exact .inr ⟨_,rfl,rfl⟩
  | merge hphase => exact .inr ⟨_,rfl,rfl⟩
  | applyVerify hphase => exact .inr ⟨_,rfl,rfl⟩
  | _ => exact .inl ⟨rfl,rfl⟩

/-! ## The warning of a cycle in progress -/

/-- What a phase has in hand goes back to the baseline of the cycle in progress: the local copy, and
the record a commit compares with, have its warning. -/
def Carries (baseline : Option StoredState) : CyclePhase → Prop
  | .idle => baseline = none
  | .probing b state _ => baseline = some b ∧ state.lastSafetyWarning = b.lastSafetyWarning
  | .gating b state _ _ => baseline = some b ∧ state.lastSafetyWarning = b.lastSafetyWarning
  | .draining b _ _ _ => baseline = some b
  | .debouncing b _ _ _ => baseline = some b
  | .scanning b _ _ _ => baseline = some b
  | .ready p => ∃ b, baseline = some b ∧ p.baseline.lastSafetyWarning = b.lastSafetyWarning
  | .locked p => ∃ b, baseline = some b ∧ p.baseline.lastSafetyWarning = b.lastSafetyWarning
  | .persisting _ _ => baseline = none

theorem carries_gated (cfg : DaemonConfig) (b state : StoredState)
    (transition : DestinationPauseTransition) (now safeModeNow : Int) (safeMode : Bool)
    (hstate : state.lastSafetyWarning = b.lastSafetyWarning) :
    Carries (some b) (gated cfg b state transition now safeModeNow safeMode) := by
  unfold gated gateCycle
  dsimp only
  split_ifs with hsafe
  · exact ⟨b,rfl,hstate⟩
  · cases transition.pauseReason with
    | some reason => exact ⟨b,rfl,rfl⟩
    | none => exact rfl

theorem carries_decided (cfg : DaemonConfig) (b state : StoredState) (recovered : Bool) (now : Int)
    (dirtyCount : Nat) : Carries (some b) (decided cfg b state recovered now dirtyCount) := by
  unfold decided decideCycle
  dsimp only
  cases decideScan dirtyCount {state with lastDirtyCount := dirtyCount} cfg recovered with
  | skipClean due => exact ⟨b,rfl,rfl⟩
  | runFullScan reason => exact rfl

section Steps
variable {cfg : DaemonConfig} {d d' : Daemon}

theorem carries_step (h : Carries (openCycle d.log) d.cycle) (hstep : Step cfg d d') :
    Carries (openCycle d'.log) d'.cycle := by
  cases hstep with
  | setSafeMode enabled => exact h
  | clearSafetyWarning => exact h
  | changed path => exact h
  | start now hidle => exact ⟨rfl,rfl⟩
  | probeFailed hphase => exact rfl
  | probed health hphase =>
      rw [hphase] at h
      exact ⟨h.1,(settleDestinations_fields ..).1.trans h.2⟩
  | gate safeModeNow hphase =>
      rw [hphase] at h
      obtain ⟨hopen,hstate⟩ := h
      dsimp only
      rw [hopen]
      exact carries_gated _ _ _ _ _ _ _ hstate
  | foundClean hphase hdirty =>
      rw [hphase] at h
      have hopen : openCycle d.log = some _ := h
      dsimp only
      rw [hopen]
      exact carries_decided ..
  | foundDirty hphase hdirty =>
      rw [hphase] at h
      exact h
  | takeDirty hphase =>
      rw [hphase] at h
      have hopen : openCycle d.log = some _ := h
      dsimp only
      rw [hopen]
      exact carries_decided ..
  | engineFailed error hphase => exact rfl
  | scanned r hphase =>
      rw [hphase] at h
      exact ⟨_,h,rfl⟩
  | lockCycle hphase hlock =>
      rw [hphase] at h
      exact h
  | merge hphase => exact rfl
  | persistCycle succeeds hphase =>
      rw [hphase] at h
      exact h
  | startVerify now hidle => exact h
  | scrubFailed hphase => exact h
  | scrubbed outcome hphase => exact h
  | lockVerify hphase hlock => exact h
  | applyVerify hphase => exact h
  | persistVerify succeeds hphase => exact h

/-- While a cycle is in progress the warning is the one it read, or has been cleared. -/
def WarningKept (d : Daemon) : Prop :=
  ∀ b, openCycle d.log = some b → d.host.shared.lastSafetyWarning =
    if clearedSince d.log then none else b.lastSafetyWarning

theorem warningKept_step (h : WarningKept d) (hstep : Step cfg d d') : WarningKept d' := by
  cases hstep with
  | setSafeMode enabled => exact h
  | clearSafetyWarning => exact fun b hb => rfl
  | changed path => exact h
  | start now hidle =>
      rintro b ⟨⟩
      rfl
  | probeFailed hphase => exact fun b hb => nomatch hb
  | engineFailed error hphase => exact fun b hb => nomatch hb
  | merge hphase => exact fun b hb => nomatch hb
  | _ => exact h

end Steps

/-! ## The commit lock and the state file -/

def CyclePhase.holdsLock : CyclePhase → Bool
  | .locked _ => true
  | .persisting _ _ => true
  | _ => false

def VerifyPhase.holdsLock : VerifyPhase → Bool
  | .locked _ => true
  | .persisting _ _ => true
  | _ => false

/-- Only the holder of the lock has a copy to write, and it is the last one taken. -/
structure Serialized (file : StoredState) (d : Daemon) : Prop where
  cycleLock : CyclePhase.holdsLock d.cycle = true → d.commitLock = some .cycle
  verifyLock : VerifyPhase.holdsLock d.verify = true → d.commitLock = some .verify
  ordered : d.journal.Ordered file
  cycleCopy : ∀ n s, d.cycle = .persisting n s → d.journal.InFlight n s
  verifyCopy : ∀ n s, d.verify = .persisting n s → d.journal.InFlight n s

theorem holdsLock_gated (cfg : DaemonConfig) (b state : StoredState)
    (transition : DestinationPauseTransition) (now safeModeNow : Int) (safeMode : Bool) :
    CyclePhase.holdsLock (gated cfg b state transition now safeModeNow safeMode) = false := by
  unfold gated
  cases gateCycle cfg b state transition now safeModeNow safeMode with
  | inl p => rfl
  | inr s => rfl

theorem holdsLock_decided (cfg : DaemonConfig) (b state : StoredState) (recovered : Bool)
    (now : Int) (dirtyCount : Nat) :
    CyclePhase.holdsLock (decided cfg b state recovered now dirtyCount) = false := by
  unfold decided
  cases decideCycle cfg b state recovered now dirtyCount with
  | inl p => rfl
  | inr s => rfl

section Serialized
variable {cfg : DaemonConfig} {file : StoredState} {d d' : Daemon}

/-- A step that takes no lock and writes no file. -/
theorem Serialized.unlocked (h : Serialized file d) (hverify : d'.verify = d.verify)
    (hlock : d'.commitLock = d.commitLock) (hjournal : d'.journal = d.journal)
    (hcycle : CyclePhase.holdsLock d'.cycle = false) : Serialized file d' where
  cycleLock hh := by rw [hcycle] at hh; cases hh
  verifyLock hh := by rw [hlock]; exact h.verifyLock (hverify ▸ hh)
  ordered := hjournal ▸ h.ordered
  cycleCopy n s hp := by rw [hp] at hcycle; cases hcycle
  verifyCopy n s hp := by rw [hjournal]; exact h.verifyCopy n s (hverify ▸ hp)

theorem Serialized.verifyUnlocked (h : Serialized file d) (hcycle : d'.cycle = d.cycle)
    (hlock : d'.commitLock = d.commitLock) (hjournal : d'.journal = d.journal)
    (hverify : VerifyPhase.holdsLock d'.verify = false) : Serialized file d' where
  cycleLock hh := by rw [hlock]; exact h.cycleLock (hcycle ▸ hh)
  verifyLock hh := by rw [hverify] at hh; cases hh
  ordered := hjournal ▸ h.ordered
  cycleCopy n s hp := by rw [hjournal]; exact h.cycleCopy n s (hcycle ▸ hp)
  verifyCopy n s hp := by rw [hp] at hverify; cases hverify

/-- The lock is held by one writer at most. -/
theorem Serialized.verify_free (h : Serialized file d)
    (hlock : d.commitLock ≠ some .verify) : VerifyPhase.holdsLock d.verify = false :=
  Bool.eq_false_iff.mpr fun hh => hlock (h.verifyLock hh)

theorem Serialized.cycle_free (h : Serialized file d)
    (hlock : d.commitLock ≠ some .cycle) : CyclePhase.holdsLock d.cycle = false :=
  Bool.eq_false_iff.mpr fun hh => hlock (h.cycleLock hh)

theorem serialized_lockCycle (h : Serialized file d) (hlock : d.commitLock = none)
    (p : Pending) : Serialized file {d with cycle := .locked p,commitLock := some .cycle} := by
  have hfree := h.verify_free (by rw [hlock]; simp)
  refine ⟨fun _ => rfl,fun hh => absurd hh (Bool.eq_false_iff.mp hfree),h.ordered,?_,h.verifyCopy⟩
  intro n s hp
  cases hp

theorem serialized_lockVerify (h : Serialized file d) (hlock : d.commitLock = none)
    (update : VerifyStateUpdate) :
    Serialized file {d with verify := .locked update,commitLock := some .verify} := by
  have hfree := h.cycle_free (by rw [hlock]; simp)
  refine ⟨fun hh => absurd hh (Bool.eq_false_iff.mp hfree),fun _ => rfl,h.ordered,h.cycleCopy,?_⟩
  intro n s hp
  cases hp

theorem serialized_merge (h : Serialized file d) {p : Pending} (hphase : d.cycle = .locked p)
    (host : Host) (log : List Event) : Serialized file
      {d with
        host := host
        cycle := .persisting d.journal.copies.length host.shared
        log := log
        journal := d.journal.commit host.shared} := by
  have hlock := h.cycleLock (by rw [hphase]; rfl)
  have hfree := h.verify_free (by rw [hlock]; simp)
  refine ⟨fun _ => hlock,h.verifyLock,Journal.ordered_commit h.ordered _,?_,?_⟩
  · rintro n s ⟨⟩
    exact Journal.inFlight_commit h.ordered _
  · intro n s hp
    rw [show d.verify = .persisting n s from hp] at hfree
    cases hfree

theorem serialized_applyVerify (h : Serialized file d) {update : VerifyStateUpdate}
    (hphase : d.verify = .locked update) (host : Host) (log : List Event) : Serialized file
      {d with
        host := host
        verify := .persisting d.journal.copies.length host.shared
        log := log
        journal := d.journal.commit host.shared} := by
  have hlock := h.verifyLock (by rw [hphase]; rfl)
  have hfree := h.cycle_free (by rw [hlock]; simp)
  refine ⟨h.cycleLock,fun _ => hlock,Journal.ordered_commit h.ordered _,?_,?_⟩
  · intro n s hp
    rw [show d.cycle = .persisting n s from hp] at hfree
    cases hfree
  · rintro n s ⟨⟩
    exact Journal.inFlight_commit h.ordered _

theorem serialized_persistCycle (h : Serialized file d) {commit : Nat} {snapshot : StoredState}
    (hphase : d.cycle = .persisting commit snapshot) (succeeds : Bool) : Serialized file
      {d with
        cycle := .idle
        commitLock := none
        journal := d.journal.write commit snapshot succeeds} := by
  have hlock := h.cycleLock (by rw [hphase]; rfl)
  have hfree := h.verify_free (by rw [hlock]; simp)
  refine ⟨fun hh => absurd hh Bool.false_ne_true,fun hh => absurd hh (Bool.eq_false_iff.mp hfree),
    Journal.ordered_write h.ordered (h.cycleCopy _ _ hphase) succeeds,?_,?_⟩
  · intro n s hp
    cases hp
  · intro n s hp
    rw [show d.verify = .persisting n s from hp] at hfree
    cases hfree

theorem serialized_persistVerify (h : Serialized file d) {commit : Nat} {snapshot : StoredState}
    (hphase : d.verify = .persisting commit snapshot) (succeeds : Bool) : Serialized file
      {d with
        verify := .idle
        commitLock := none
        journal := d.journal.write commit snapshot succeeds} := by
  have hlock := h.verifyLock (by rw [hphase]; rfl)
  have hfree := h.cycle_free (by rw [hlock]; simp)
  refine ⟨fun hh => absurd hh (Bool.eq_false_iff.mp hfree),fun hh => absurd hh Bool.false_ne_true,
    Journal.ordered_write h.ordered (h.verifyCopy _ _ hphase) succeeds,?_,?_⟩
  · intro n s hp
    rw [show d.cycle = .persisting n s from hp] at hfree
    cases hfree
  · intro n s hp
    cases hp

theorem serialized_step (h : Serialized file d) (hstep : Step cfg d d') : Serialized file d' := by
  cases hstep with
  | setSafeMode enabled => exact ⟨h.1,h.2,h.3,h.4,h.5⟩
  | clearSafetyWarning => exact ⟨h.1,h.2,h.3,h.4,h.5⟩
  | changed path => exact ⟨h.1,h.2,h.3,h.4,h.5⟩
  | start now hidle => exact h.unlocked rfl rfl rfl rfl
  | probeFailed hphase => exact h.unlocked rfl rfl rfl rfl
  | probed health hphase => exact h.unlocked rfl rfl rfl rfl
  | gate safeModeNow hphase => exact h.unlocked rfl rfl rfl (holdsLock_gated ..)
  | foundClean hphase hdirty => exact h.unlocked rfl rfl rfl (holdsLock_decided ..)
  | foundDirty hphase hdirty => exact h.unlocked rfl rfl rfl rfl
  | takeDirty hphase => exact h.unlocked rfl rfl rfl (holdsLock_decided ..)
  | engineFailed error hphase => exact h.unlocked rfl rfl rfl rfl
  | scanned r hphase => exact h.unlocked rfl rfl rfl rfl
  | lockCycle hphase hlock => exact serialized_lockCycle h hlock _
  | merge hphase => exact serialized_merge h hphase _ _
  | persistCycle succeeds hphase => exact serialized_persistCycle h hphase succeeds
  | startVerify now hidle => exact h.verifyUnlocked rfl rfl rfl rfl
  | scrubFailed hphase => exact h.verifyUnlocked rfl rfl rfl rfl
  | scrubbed outcome hphase => exact h.verifyUnlocked rfl rfl rfl rfl
  | lockVerify hphase hlock => exact serialized_lockVerify h hlock _
  | applyVerify hphase => exact serialized_applyVerify h hphase _ _
  | persistVerify succeeds hphase => exact serialized_persistVerify h hphase succeeds

end Serialized

/-- What holds after any number of steps. -/
structure Accounted (initial file : StoredState) (d : Daemon) : Prop where
  shared : d.host.shared = replay initial d.log
  carries : Carries (openCycle d.log) d.cycle
  warning : WarningKept d
  serialized : Serialized file d

theorem serialized_boot (initial file : StoredState) : Serialized file (boot initial file) where
  cycleLock hh := absurd hh Bool.false_ne_true
  verifyLock hh := absurd hh Bool.false_ne_true
  ordered := Journal.ordered_fresh file
  cycleCopy n s hp := by cases hp
  verifyCopy n s hp := by cases hp

theorem accounted_of_reaches {cfg : DaemonConfig} {initial file : StoredState} {d : Daemon}
    (h : Reaches cfg (boot initial file) d) : Accounted initial file d := by
  induction h with
  | refl =>
      refine ⟨rfl,rfl,?_,serialized_boot initial file⟩
      intro b hb
      cases hb
  | tail _ hstep ih =>
      refine ⟨?_,carries_step ih.carries hstep,warningKept_step ih.warning hstep,
        serialized_step ih.serialized hstep⟩
      obtain ⟨hlog,hshared⟩ | ⟨e,hlog,hshared⟩ := step_shared hstep
      · rw [hlog,hshared,ih.shared]
      · rw [hlog,hshared,ih.shared]
        rfl

/-- The warning after the commit of a cycle: what the cycle has, unless a warning it had read was
cleared meanwhile. -/
theorem warning_after_commit {initial file : StoredState} {d : Daemon} (h : Accounted initial file d)
    {p : Pending} (hphase : d.cycle = .locked p) : ∃ b, openCycle d.log = some b ∧
      (d.host.commit p).shared.lastSafetyWarning =
        if clearedSince d.log && b.lastSafetyWarning.isSome then none
        else p.cycle.lastSafetyWarning := by
  have hcarries := h.carries
  rw [hphase] at hcarries
  obtain ⟨b,hopen,hbase⟩ := hcarries
  refine ⟨b,hopen,?_⟩
  change (mergeCycleState d.host.shared p.baseline p.cycle).lastSafetyWarning = _
  rw [mergeCycleState_lastSafetyWarning,h.warning b hopen,hbase]
  cases clearedSince d.log with
  | false => simp
  | true => cases b.lastSafetyWarning <;> simp

/-- Under any interleaving no update is lost. The safe mode is the last one requested, the
verification fields are all verifications in the order of their commits, the other fields are those
of the last committed cycle, a cycle about to commit does not bring a cleared warning back, and the
state file takes the copies in the order of the commits. -/
theorem interleaved_writers_lose_nothing {cfg : DaemonConfig} {initial file : StoredState}
    {d : Daemon} (h : Reaches cfg (boot initial file) d) :
    d.host.shared.safeMode = lastSafeMode initial d.log ∧
    verifyFields d.host.shared = verifiedFields initial d.log ∧
    cycleFields d.host.shared = cycleFields (lastCycle initial d.log) ∧
    (∀ p, d.cycle = .locked p → ∃ b, openCycle d.log = some b ∧
      (d.host.commit p).shared.lastSafetyWarning =
        if clearedSince d.log && b.lastSafetyWarning.isSome then none
        else p.cycle.lastSafetyWarning) ∧
    d.journal.written.Pairwise (· < ·) ∧
    d.journal.file = (d.journal.written.getLast?.bind (d.journal.copies[·]?)).getD file := by
  have hs := accounted_of_reaches h
  refine ⟨?_,?_,?_,fun p hphase => warning_after_commit hs hphase,
    hs.serialized.ordered.increasing,hs.serialized.ordered.file⟩
  · rw [hs.shared,replay_safeMode]
  · rw [hs.shared,replay_verifyFields]
  · rw [hs.shared,replay_cycleFields]

def shrinkWarning : SafetyWarning :=
  ⟨90,"many files disappeared".toList,some "/home/notes".toList,some "v1".toList⟩

def warnedState : StoredState := {lastSafetyWarning := some shrinkWarning}

/-- A cycle reads a warning, which is then cleared, and scans without a new one. -/
theorem interleaved_writers_lose_nothing_cleared_warning : ∃ d p,
    Reaches ⟨false,24,604800,by decide⟩ (boot warnedState warnedState) d ∧ d.cycle = .locked p ∧
      p.cycle.lastSafetyWarning = some shrinkWarning ∧
      (d.host.commit p).shared.lastSafetyWarning = none := by
  let cfg : DaemonConfig := ⟨false,24,604800,by decide⟩
  have hstart := Relation.ReflTransGen.single (@Step.start cfg (boot warnedState warnedState) 100 rfl)
  have hprobe := (hstart.tail .clearSafetyWarning).tail (.probed [] rfl)
  have hscan := (hprobe.tail (.gate 100 rfl)).tail (.foundClean rfl rfl)
  have hreach : Reaches cfg (boot warnedState warnedState) _ :=
    (hscan.tail (.scanned ⟨⟨1,0,0,0,[]⟩,none⟩ rfl)).tail (.lockCycle rfl rfl)
  obtain ⟨-,-,-,hcommit,-⟩ := interleaved_writers_lose_nothing hreach
  obtain ⟨b,hb,hafter⟩ := hcommit _ rfl
  cases hb
  exact ⟨_,_,hreach,rfl,rfl,hafter⟩

end DaemonInterleaving
end BackupSync
