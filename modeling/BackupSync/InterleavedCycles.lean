import BackupSync.DaemonInterleaving

/-!
# An interleaved run is a sequence of cycles

A cycle was described as a function of the changes made by others in the gaps
between its accesses. The daemon takes its steps one at a time. The two agree:
whatever the interleaving, there are inputs for which the cycles, one after the
other, end as the log says and leave the host the daemon has.

While a cycle is in progress, every way it can go on is a way the whole cycle can
go for some input. A step of another task is one more change in the present gap,
and a step of the cycle itself closes the gap.
-/
namespace BackupSync.InterleavedCycles
open Daemon DaemonCycle

/-- The endings of the cycles of a log, first cycle first. -/
def endings : List Event → List CycleEnd
  | [] => []
  | .failed ending::log => endings log++[ending]
  | .committed p::log => endings log++[p.ending]
  | .started _::log => endings log
  | .setSafeMode _::log => endings log
  | .clearSafetyWarning::log => endings log
  | .verified _::log => endings log

/-- The rest of a cycle from a phase on; a cycle that is over has none. -/
def resume (cfg : DaemonConfig) : CyclePhase → Host → CycleInput → Option (Host × CycleEnd)
  | .idle,_,_ => none
  | .probing b state now,h,i => some (fromProbe cfg b state now h i)
  | .gating b state transition now,h,i => some (fromGate cfg b state transition now h i)
  | .draining b state recovered now,h,i => some (fromDrain cfg b state recovered now h i)
  | .debouncing b state recovered now,h,i => some (fromDebounce cfg b state recovered now h i)
  | .scanning b state now dirtyCount,h,i => some (fromScan b state now dirtyCount h i)
  | .ready p,h,i => some (commitWith p h i)
  | .locked p,h,i => some (commitWith p h i)
  | .persisting _ _,_,_ => none

def CyclePhase.inProgress : CyclePhase → Bool
  | .idle => false
  | .persisting _ _ => false
  | _ => true

/-- The daemon is where the cycles lead: between two cycles up to changes by others, and within a
cycle up to its rest. -/
structure Follows (cfg : DaemonConfig) (initial : StoredState) (inputs : List CycleInput)
    (d : Daemon) : Prop where
  ends : (history cfg ⟨initial,[]⟩ inputs).map (·.ending) = endings d.log
  within : CyclePhase.inProgress d.cycle = true → ∀ rest, ∃ i,
    some (runCycle cfg i (runCycles cfg ⟨initial,[]⟩ inputs)) = resume cfg d.cycle d.host rest
  between : CyclePhase.inProgress d.cycle = false → ∃ es,
    d.host = (runCycles cfg ⟨initial,[]⟩ inputs).edits es

section Phases
variable (cfg : DaemonConfig)

/-- A change by another task belongs to the present gap. -/
theorem resume_edit (phase : CyclePhase) (h : Host) (e : Edit) (rest : CycleInput) :
    ∃ rest', resume cfg phase (h.edit e) rest = resume cfg phase h rest' := by
  cases phase with
  | idle => exact ⟨rest,rfl⟩
  | probing b state now => exact ⟨{rest with duringProbe := e::rest.duringProbe},rfl⟩
  | gating b state transition now => exact ⟨{rest with beforeGate := e::rest.beforeGate},rfl⟩
  | draining b state recovered now => exact ⟨{rest with beforeDrain := e::rest.beforeDrain},rfl⟩
  | debouncing b state recovered now =>
      exact ⟨{rest with duringDebounce := e::rest.duringDebounce},rfl⟩
  | scanning b state now dirtyCount => exact ⟨{rest with duringScan := e::rest.duringScan},rfl⟩
  | ready p => exact ⟨{rest with beforeCommit := e::rest.beforeCommit},rfl⟩
  | locked p => exact ⟨{rest with beforeCommit := e::rest.beforeCommit},rfl⟩
  | persisting commit snapshot => exact ⟨rest,rfl⟩

theorem resume_decided (b state : StoredState) (recovered : Bool) (now : Int) (dirtyCount : Nat)
    (h : Host) (rest : CycleInput) :
    resume cfg (decided cfg b state recovered now dirtyCount) h rest =
      some (fromDecision cfg b state recovered now dirtyCount h rest) := by
  unfold decided fromDecision
  cases decideCycle cfg b state recovered now dirtyCount with
  | inl p => rfl
  | inr s => rfl

theorem inProgress_decided (b state : StoredState) (recovered : Bool) (now : Int)
    (dirtyCount : Nat) :
    CyclePhase.inProgress (decided cfg b state recovered now dirtyCount) = true := by
  unfold decided
  cases decideCycle cfg b state recovered now dirtyCount with
  | inl p => rfl
  | inr s => rfl

theorem resume_gated (b state : StoredState) (transition : DestinationPauseTransition)
    (now safeModeNow : Int) (h : Host) (rest : CycleInput) :
    resume cfg (gated cfg b state transition now safeModeNow h.shared.safeMode) h rest =
      some (fromGate cfg b state transition now h
        {rest with beforeGate := [],safeModeNow := safeModeNow}) := by
  unfold gated fromGate
  dsimp only [Host.edits,List.foldl_nil]
  cases gateCycle cfg b state transition now safeModeNow h.shared.safeMode with
  | inl p => rfl
  | inr s => rfl

theorem inProgress_gated (b state : StoredState) (transition : DestinationPauseTransition)
    (now safeModeNow : Int) (safeMode : Bool) :
    CyclePhase.inProgress (gated cfg b state transition now safeModeNow safeMode) = true := by
  unfold gated
  cases gateCycle cfg b state transition now safeModeNow safeMode with
  | inl p => rfl
  | inr s => rfl

end Phases

section Steps
variable {cfg : DaemonConfig} {initial : StoredState} {inputs : List CycleInput} {d d' : Daemon}

/-- A step of another task. -/
theorem Follows.edit (h : Follows cfg initial inputs d) (e : Edit)
    (hlog : endings d'.log = endings d.log) (hcycle : d'.cycle = d.cycle)
    (hhost : d'.host = d.host.edit e) : Follows cfg initial inputs d' where
  ends := h.ends.trans hlog.symm
  within hprogress rest := by
    rw [hcycle] at hprogress ⊢
    rw [hhost]
    obtain ⟨rest',hrest⟩ := resume_edit cfg d.cycle d.host e rest
    obtain ⟨i,hi⟩ := h.within hprogress rest'
    exact ⟨i,hi.trans hrest.symm⟩
  between hover := by
    rw [hcycle] at hover
    obtain ⟨es,hes⟩ := h.between hover
    refine ⟨es++[e],?_⟩
    rw [hhost,hes]
    simp [Host.edits]

/-- A step that touches nothing the cycles depend on. -/
theorem Follows.same (h : Follows cfg initial inputs d) (hlog : endings d'.log = endings d.log)
    (hcycle : d'.cycle = d.cycle) (hhost : d'.host = d.host) : Follows cfg initial inputs d' where
  ends := h.ends.trans hlog.symm
  within := by
    rw [hcycle,hhost]
    exact h.within
  between := by
    rw [hcycle,hhost]
    exact h.between

/-- A step of the cycle within the cycle. -/
theorem Follows.resumed (h : Follows cfg initial inputs d) (hlog : endings d'.log = endings d.log)
    (hbefore : CyclePhase.inProgress d.cycle = true)
    (hafter : CyclePhase.inProgress d'.cycle = true)
    (hrest : ∀ rest, ∃ rest', resume cfg d'.cycle d'.host rest = resume cfg d.cycle d.host rest') :
    Follows cfg initial inputs d' where
  ends := h.ends.trans hlog.symm
  within _ rest := by
    obtain ⟨rest',hr⟩ := hrest rest
    obtain ⟨i,hi⟩ := h.within hbefore rest'
    exact ⟨i,hi.trans hr.symm⟩
  between hover := by
    rw [hafter] at hover
    cases hover

/-- The last step of a cycle. -/
theorem Follows.ended (h : Follows cfg initial inputs d) {ending : CycleEnd}
    (hlog : endings d'.log = endings d.log++[ending])
    (hbefore : CyclePhase.inProgress d.cycle = true)
    (hafter : CyclePhase.inProgress d'.cycle = false) (rest : CycleInput)
    (hrest : resume cfg d.cycle d.host rest = some (d'.host,ending)) :
    ∃ inputs', Follows cfg initial inputs' d' := by
  obtain ⟨i,hi⟩ := h.within hbefore rest
  have hrun := Option.some.inj (hi.trans hrest)
  refine ⟨inputs++[i],?_,?_,?_⟩
  · rw [history_append_singleton,List.map_append,h.ends,hlog]
    simp [hrun]
  · intro hprogress
    rw [hafter] at hprogress
    cases hprogress
  · intro _
    rw [runCycles_append_singleton,hrun]
    exact ⟨[],rfl⟩

theorem Follows.start (h : Follows cfg initial inputs d) (now : Int) (hidle : d.cycle = .idle) :
    Follows cfg initial inputs
      {d with
        cycle := .probing d.host.shared (startState d.host) now
        log := .started d.host.shared::d.log} where
  ends := h.ends
  within _ rest := by
    obtain ⟨es,hes⟩ := h.between (by rw [hidle]; rfl)
    refine ⟨{rest with beforeStart := es,now := now},?_⟩
    rw [hes]
    rfl
  between hover := by cases hover

/-- Inputs whose values do not matter. -/
def anyInput : CycleInput where
  now := 0
  health := none
  safeModeNow := 0
  engine := .error []

theorem follows_step (h : Follows cfg initial inputs d) (hstep : Step cfg d d') :
    ∃ inputs', Follows cfg initial inputs' d' := by
  cases hstep with
  | setSafeMode enabled => exact ⟨inputs,h.edit (.setSafeMode enabled) rfl rfl rfl⟩
  | clearSafetyWarning => exact ⟨inputs,h.edit .clearSafetyWarning rfl rfl rfl⟩
  | changed path => exact ⟨inputs,h.edit (.changed path) rfl rfl rfl⟩
  | start now hidle => exact ⟨inputs,h.start now hidle⟩
  | probeFailed hphase =>
      refine h.ended rfl (by rw [hphase]; rfl) rfl anyInput ?_
      rw [hphase]
      rfl
  | probed health hphase =>
      refine ⟨inputs,h.resumed rfl (by rw [hphase]; rfl) rfl fun rest => ?_⟩
      rw [hphase]
      exact ⟨{rest with duringProbe := [],health := some health},rfl⟩
  | gate safeModeNow hphase =>
      refine ⟨inputs,h.resumed rfl (by rw [hphase]; rfl) (inProgress_gated ..) fun rest => ?_⟩
      rw [hphase]
      exact ⟨_,resume_gated ..⟩
  | foundClean hphase hdirty =>
      refine ⟨inputs,h.resumed rfl (by rw [hphase]; rfl) (inProgress_decided ..) fun rest => ?_⟩
      rw [hphase]
      refine ⟨{rest with beforeDrain := []},?_⟩
      refine (resume_decided ..).trans (congrArg some ?_)
      exact (if_pos hdirty).symm
  | foundDirty hphase hdirty =>
      refine ⟨inputs,h.resumed rfl (by rw [hphase]; rfl) rfl fun rest => ?_⟩
      rw [hphase]
      refine ⟨{rest with beforeDrain := []},congrArg some ?_⟩
      exact (if_neg hdirty).symm
  | takeDirty hphase =>
      refine ⟨inputs,h.resumed rfl (by rw [hphase]; rfl) (inProgress_decided ..) fun rest => ?_⟩
      rw [hphase]
      refine ⟨{rest with duringDebounce := []},?_⟩
      exact resume_decided ..
  | engineFailed error hphase =>
      refine h.ended rfl (by rw [hphase]; rfl) rfl {anyInput with engine := .error error} ?_
      rw [hphase]
      rfl
  | scanned r hphase =>
      refine ⟨inputs,h.resumed rfl (by rw [hphase]; rfl) rfl fun rest => ?_⟩
      rw [hphase]
      exact ⟨{rest with duringScan := [],engine := .ok r},rfl⟩
  | lockCycle hphase hlock =>
      refine ⟨inputs,h.resumed rfl (by rw [hphase]; rfl) rfl fun rest => ?_⟩
      rw [hphase]
      exact ⟨rest,rfl⟩
  | merge hphase =>
      refine h.ended rfl (by rw [hphase]; rfl) rfl anyInput ?_
      rw [hphase]
      rfl
  | persistCycle succeeds hphase =>
      refine ⟨inputs,h.ends,fun hprogress => ?_,fun _ => h.between (by rw [hphase]; rfl)⟩
      cases hprogress
  | startVerify now hidle => exact ⟨inputs,h.same rfl rfl rfl⟩
  | scrubFailed hphase => exact ⟨inputs,h.same rfl rfl rfl⟩
  | scrubbed outcome hphase => exact ⟨inputs,h.same rfl rfl rfl⟩
  | lockVerify hphase hlock => exact ⟨inputs,h.same rfl rfl rfl⟩
  | @applyVerify update hphase => exact ⟨inputs,h.edit (.verified update) rfl rfl rfl⟩
  | persistVerify succeeds hphase => exact ⟨inputs,h.same rfl rfl rfl⟩

end Steps

/-- Every interleaved run of the daemon is a sequence of cycles. -/
theorem reaches_follows {cfg : DaemonConfig} {initial file : StoredState} {d : Daemon}
    (h : Reaches cfg (boot initial file) d) : ∃ inputs, Follows cfg initial inputs d := by
  induction h with
  | refl => exact ⟨[],rfl,fun hprogress => absurd hprogress Bool.false_ne_true,fun _ => ⟨[],rfl⟩⟩
  | tail _ hstep ih =>
      obtain ⟨inputs,hinputs⟩ := ih
      exact follows_step hinputs hstep

/-- One whole cycle. -/
theorem reaches_follows_one_cycle : ∃ d inputs, (endings d.log).length = 1 ∧
    Follows ⟨false,6,43200,by decide⟩ {} inputs d := by
  have hstart : Reaches ⟨false,6,43200,by decide⟩ (boot {} {}) _ := .single (.start 100 rfl)
  have hprobe := hstart.tail (.probed [] rfl)
  have hgate := hprobe.tail (.gate 100 rfl)
  have hclean := hgate.tail (.foundClean rfl rfl)
  have hscan := hclean.tail (.scanned ⟨⟨1,0,0,0,[]⟩,none⟩ rfl)
  have hlock := hscan.tail (.lockCycle rfl rfl)
  obtain ⟨inputs,h⟩ := reaches_follows (hlock.tail (.merge rfl))
  exact ⟨_,inputs,rfl,h⟩

end BackupSync.InterleavedCycles
