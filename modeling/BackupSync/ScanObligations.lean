import BackupSync.DaemonCycle

/-!
# Which scans the daemon owes, and which of them it forgets

A clean skip is meant for a cycle that has nothing to catch up on. Two things are
to be caught up on: changes the watcher saw, and whatever happened before the
daemon started or while a destination was missing. The daemon keeps neither as a
flag of its own. A drained dirty set is a number in a local variable, and the scan
after a start or a recovery is inferred from last_run_ts and destination_paused,
which cycles without a scan write as well.

The exact conditions under which nothing is forgotten are given for both.
-/
namespace BackupSync.ScanObligations
open SafetyBaseline DaemonState DaemonCycle

/-- A cycle that committed without a scan: the time it left and whether it saw a destination
missing. -/
structure Stall where
  time : Int
  paused : Bool
  deriving DecidableEq, Repr

def stallOf (r : CycleRecord) : Option Stall :=
  match r.ending with
  | .safeMode => some ⟨r.input.safeModeNow,unavailable r.input⟩
  | .paused => some ⟨r.input.now,true⟩
  | _ => none

def stalls (records : List CycleRecord) : List Stall := records.filterMap stallOf

theorem stalls_append_singleton (records : List CycleRecord) (r : CycleRecord) :
    stalls (records++[r]) = stalls records++(stallOf r).toList := by
  unfold stalls
  rw [List.filterMap_append,List.filterMap_cons]
  cases stallOf r <;> rfl

/-- The cycle neither scanned nor skipped: it failed, was paused, or was in safe mode. -/
def CycleRecord.Unfinished (r : CycleRecord) : Prop :=
  r.ending ≠ .scanned ∧ CycleEnd.skips r.ending = false

instance (r : CycleRecord) : Decidable (CycleRecord.Unfinished r) :=
  inferInstanceAs (Decidable (_ ∧ _))

/-- The clock after a number of stalls. -/
structure Stalled (c : ScanClock) (ss : List Stall) (c' : ScanClock) : Prop where
  startTs : c'.startTs = c.startTs
  lastRunTs : c'.lastRunTs = (ss.getLast?.map (·.time)).or c.lastRunTs
  count : ∀ interval ≤ 0xFFFFFFFFFFFFFFFF,
    interval ≤ c'.cyclesSinceFullScan+1 ↔ interval ≤ c.cyclesSinceFullScan+ss.length+1
  paused : c'.destinationPaused = (ss.getLast?.map (·.paused)).getD c.destinationPaused

theorem Stalled.refl (c : ScanClock) : Stalled c [] c := ⟨rfl,rfl,fun _ _ => Iff.rfl,rfl⟩

theorem Stalled.snoc {c c' : ScanClock} {ss : List Stall} (hc : Stalled c ss c') (s : Stall) :
    Stalled c (ss++[s]) ⟨c'.startTs,some s.time,saturatingAdd c'.cyclesSinceFullScan 1,s.paused⟩ where
  startTs := hc.startTs
  lastRunTs := by simp
  count interval hfits := by
    have hprev := hc.count interval hfits
    have hnext := hc.count (interval-1) (by omega)
    simp only [saturatingAdd,List.length_append,List.length_singleton]
    omega
  paused := by simp

theorem Stalled.after {c c' : ScanClock} {ss : List Stall} (hc : Stalled c ss c')
    (r : CycleRecord) (hr : CycleRecord.Unfinished r) :
    Stalled c (ss++(stallOf r).toList) (c'.after r.input r.ending) := by
  obtain ⟨hscan,hskip⟩ := hr
  unfold stallOf
  cases hend : r.ending with
  | probeFailed => simpa [ScanClock.after] using hc
  | engineFailed drained e => simpa [ScanClock.after] using hc
  | safeMode => exact hc.snoc _
  | paused => exact hc.snoc _
  | skipClean due => rw [hend] at hskip; cases hskip
  | scanned => exact absurd hend hscan

/-- Cycles that neither scan nor skip move the clock by their stalls alone. -/
theorem stalled_runCycles (cfg : DaemonConfig) (h : Host) (inputs : List CycleInput)
    (hun : ∀ r ∈ history cfg h inputs, CycleRecord.Unfinished r) :
    Stalled (scanClock h.shared) (stalls (history cfg h inputs))
      (scanClock (runCycles cfg h inputs).shared) := by
  induction inputs using List.reverseRecOn with
  | nil => exact Stalled.refl _
  | append_singleton before i ih =>
      rw [history_append_singleton] at hun ⊢
      have hprev := ih fun r hr => hun r (List.mem_append_left _ hr)
      have hlast := hun _ (List.mem_append_right _ (List.mem_singleton_self _))
      rw [runCycles_append_singleton,scanClock_runCycle,stalls_append_singleton]
      exact hprev.after _ hlast

theorem recovers_of_active {cfg : DaemonConfig} {i : CycleInput} {h : Host}
    (hactive : active cfg i h = true) : recovers i h = h.shared.destinationPaused := by
  simp only [active,Bool.and_eq_true] at hactive
  simp only [recovers,hactive.1.1,hactive.1.2,Bool.and_true]

/-- A cycle that comes to its decision skips unless it finds a changed path, a destination has
come back, or the clock asks for a scan. -/
theorem active_not_skips_iff {cfg : DaemonConfig} {i : CycleInput} {h : Host}
    (hactive : active cfg i h = true) : CycleEnd.skips (runCycle cfg i h).2 = false ↔
      dirtySeen i h ≠ [] ∨ h.shared.destinationPaused = true ∨
        (scanClock h.shared).due cfg = true := by
  rw [←Bool.not_eq_true,runCycle_skips_iff,recovers_of_active hactive]
  simp only [hactive,true_and,not_and_or,Bool.not_eq_false]
  exact or_left_comm

/-- After a cycle whose backup failed, whatever it had drained, and any number of cycles that
neither scan nor skip, the next cycle that decides does not skip if and only if the watcher has
seen something since, the last stall (or the state before the failed cycle) has a destination
missing, the time it left is before the start of the daemon, or the forced scan is due. -/
theorem failed_scan_repeated_iff (cfg : DaemonConfig) (h : Host) (i j : CycleInput)
    (between : List CycleInput) (drained : Nat) (e : Str)
    (hfail : (runCycle cfg i h).2 = .engineFailed drained e)
    (hbetween : ∀ r ∈ history cfg (runCycle cfg i h).1 between, CycleRecord.Unfinished r)
    (hactive : active cfg j (runCycles cfg h (i::between)) = true) :
    CycleEnd.skips (runCycle cfg j (runCycles cfg h (i::between))).2 = false ↔
      dirtySeen j (runCycles cfg h (i::between)) ≠ [] ∨
      ((stalls (history cfg (runCycle cfg i h).1 between)).getLast?.map (·.paused)).getD
        h.shared.destinationPaused = true ∨
      isFirstCycleAfterStart h.shared.startTs
        (((stalls (history cfg (runCycle cfg i h).1 between)).getLast?.map (·.time)).or
          h.shared.lastRunTs) = true ∨
      cfg.forceFullScanIntervalCycles ≤ h.shared.cyclesSinceFullScan+
        (stalls (history cfg (runCycle cfg i h).1 between)).length+1 := by
  have hclock : scanClock (runCycle cfg i h).1.shared = scanClock h.shared := by
    rw [scanClock_runCycle,hfail]
    rfl
  have hst := stalled_runCycles cfg (runCycle cfg i h).1 between hbetween
  rw [hclock] at hst
  have hpaused : (runCycles cfg h (i::between)).shared.destinationPaused =
      ((stalls (history cfg (runCycle cfg i h).1 between)).getLast?.map (·.paused)).getD
        h.shared.destinationPaused := hst.paused
  rw [active_not_skips_iff hactive,hpaused,ScanClock.due,Bool.or_eq_true,decide_eq_true_iff]
  refine or_congr_right (or_congr_right (or_congr ?_ (hst.count _ cfg.fits)))
  exact iff_of_eq (congrArg (· = true) (congrArg₂ isFirstCycleAfterStart hst.startTs hst.lastRunTs))

/-! ## A drained change that is never scanned -/

/-- The default interval between forced scans. -/
def dailyConfig : DaemonConfig := ⟨false,24,604800,by decide⟩

def mounted : List DestinationWriteHealth := [⟨"main".toList,true,"ok".toList⟩]

/-- A cycle at a given time that finds its destination and backs up without trouble. -/
def plainCycle (now : Int) : CycleInput where
  now := now
  health := some mounted
  safeModeNow := now
  engine := .ok ⟨⟨1,0,0,0,[]⟩,none⟩

/-- The host when the daemon is started, with what was stored by an earlier one. -/
def startDaemon (cfg : DaemonConfig) (stored : StoredState) (start : Int) : Host :=
  ⟨{stored with startTs := some start,safeMode := cfg.safeMode},[]⟩

/-- A file changes and the backup that was to pick it up fails. -/
def failingCycle : CycleInput :=
  {plainCycle 160 with
    beforeStart := [.changed "/home/notes/a".toList]
    engine := .error "destination full".toList}

def safeModeCycle (now : Int) : CycleInput :=
  {plainCycle now with beforeStart := [.setSafeMode true]}

def resumedCycle (now : Int) : CycleInput :=
  {plainCycle now with beforeStart := [.setSafeMode false]}

def afterFirstScan : Host := runCycles dailyConfig (startDaemon dailyConfig {} 100) [plainCycle 100]

/-- A failed backup, a cycle in safe mode, and then a new change: the next cycle scans. -/
theorem failed_scan_repeated_iff_new_change :
    CycleEnd.skips (runCycle dailyConfig
      {plainCycle 280 with beforeStart := [.setSafeMode false,.changed "/home/notes/b".toList]}
      (runCycles dailyConfig afterFirstScan [failingCycle,safeModeCycle 220])).2 = false :=
  (failed_scan_repeated_iff dailyConfig afterFirstScan failingCycle
    {plainCycle 280 with beforeStart := [.setSafeMode false,.changed "/home/notes/b".toList]}
    [safeModeCycle 220] 1 "destination full".toList (by decide +kernel) (by decide +kernel)
    (by decide +kernel)).mpr (.inl (by decide +kernel))

/-- The first cycle scans, the second drains a changed path and fails, the third is clean. -/
theorem drained_change_is_skipped :
    (history dailyConfig (startDaemon dailyConfig {} 100)
      [plainCycle 100,failingCycle,plainCycle 220]).map (·.ending) =
      [.scanned,.engineFailed 1 "destination full".toList,.skipClean 23] := by
  decide +kernel

/-! ## The scan owed after a start or a recovery -/

/-- A scan has succeeded and no destination has come back after it. -/
def ScannedSince (records : List CycleRecord) : Prop :=
  ∃ earlier scan later, records = earlier++scan::later ∧ scan.ending = .scanned ∧
    ∀ r ∈ later, r.recovered = false

/-- The obligation as a flag: it is set at the start and at a recovery, and met by a scan. -/
def owedAfter (owed : Bool) (r : CycleRecord) : Bool :=
  r.ending ≠ .scanned && (owed || r.recovered)

def owesScan (records : List CycleRecord) : Bool := records.foldl owedAfter true

theorem owesScan_append_singleton (records : List CycleRecord) (r : CycleRecord) :
    owesScan (records++[r]) = owedAfter (owesScan records) r := by
  simp [owesScan]

theorem owesScan_eq_false_iff (records : List CycleRecord) :
    owesScan records = false ↔ ScannedSince records := by
  induction records using List.reverseRecOn with
  | nil =>
      refine iff_of_false Bool.noConfusion ?_
      rintro ⟨earlier,scan,later,he,-⟩
      exact List.append_ne_nil_of_right_ne_nil _ (List.cons_ne_nil _ _) he.symm
  | append_singleton records r ih =>
      rw [owesScan_append_singleton]
      constructor
      · intro h
        by_cases hscan : r.ending = .scanned
        · exact ⟨records,r,[],rfl,hscan,fun x hx => nomatch hx⟩
        · simp only [owedAfter,ne_eq,hscan,not_false_eq_true,decide_true,Bool.true_and,
            Bool.or_eq_false_iff] at h
          obtain ⟨earlier,scan,later,rfl,hs,hlater⟩ := ih.mp h.1
          refine ⟨earlier,scan,later++[r],by simp,hs,?_⟩
          intro x hx
          rcases List.mem_append.mp hx with hx | hx
          · exact hlater x hx
          · rw [List.mem_singleton.mp hx]
            exact h.2
      · rintro ⟨earlier,scan,later,he,hs,hlater⟩
        rcases List.eq_nil_or_concat later with rfl | ⟨later,x,rfl⟩
        · obtain ⟨-,hr⟩ := List.append_inj' he rfl
          obtain rfl := List.singleton_inj.mp hr
          simp [owedAfter,hs]
        · rw [List.concat_eq_append,←List.cons_append,←List.append_assoc] at he
          obtain ⟨hrecords,hr⟩ := List.append_inj' he rfl
          obtain rfl := List.singleton_inj.mp hr
          have howed := ih.mpr ⟨earlier,scan,later,hrecords,hs,
            fun x hx => hlater x (by simp [hx])⟩
          have hrec := hlater r (by simp)
          simp [owedAfter,howed,hrec]

/-- The stored state still asks for a scan. -/
def Flagged (c : ScanClock) : Prop :=
  isFirstCycleAfterStart c.startTs c.lastRunTs = true ∨ c.destinationPaused = true

section Step
variable {cfg : DaemonConfig} {i : CycleInput} {h : Host} {owed : Bool}

/-- A skipping cycle owes nothing, as long as the stored state shows what is owed. -/
theorem not_owed_of_skips (hflag : owed = true → Flagged (scanClock h.shared))
    (hskip : CycleEnd.skips (runCycle cfg i h).2 = true) :
    (owed || recovers i h) = false := by
  obtain ⟨hactive,hrec,-,hdue⟩ := (runCycle_skips_iff cfg i h).mp hskip
  rw [hrec,Bool.or_false]
  by_contra howed
  rcases hflag (Bool.eq_true_of_not_eq_false howed) with hfirst | hpaused
  · simp [ScanClock.due,hfirst] at hdue
  · rw [recovers_of_active hactive] at hrec
    cases hrec.symm.trans hpaused

/-- What is owed stays visible in the stored state, unless a cycle in safe mode owed it. -/
theorem flagged_runCycle (hflag : owed = true → Flagged (scanClock h.shared))
    (hsafe : (runCycle cfg i h).2 = .safeMode → (owed || recovers i h) = false)
    (howed : owedAfter owed ⟨i,recovers i h,(runCycle cfg i h).2⟩ = true) :
    Flagged (scanClock (runCycle cfg i h).1.shared) := by
  simp only [owedAfter,Bool.and_eq_true,decide_eq_true_iff] at howed
  obtain ⟨hscan,howed⟩ := howed
  have hstays : Flagged (scanClock h.shared) := by
    rcases (Bool.or_eq_true _ _).mp howed with ho | hr
    · exact hflag ho
    · simp only [recovers,Bool.and_eq_true] at hr
      exact .inr hr.1.1
  rw [scanClock_runCycle]
  cases hend : (runCycle cfg i h).2 with
  | probeFailed => exact hstays
  | engineFailed drained e => exact hstays
  | safeMode => exact absurd howed (by simp [hsafe hend])
  | paused => exact .inr rfl
  | skipClean due =>
      have hskip : CycleEnd.skips (runCycle cfg i h).2 = true := by rw [hend]; rfl
      exact absurd howed (by simp [not_owed_of_skips hflag hskip])
  | scanned => exact absurd hend hscan

end Step

/-- The cycle after some others owes a scan: none has succeeded since the start of the daemon, or
none since a destination came back, be it in this cycle. -/
def Owes (cfg : DaemonConfig) (h : Host) (before : List CycleInput) (i : CycleInput) : Prop :=
  recovers i (runCycles cfg h before) = true ∨ ¬ ScannedSince (history cfg h before)

theorem not_owes_iff (cfg : DaemonConfig) (h : Host) (before : List CycleInput) (i : CycleInput) :
    ¬ Owes cfg h before i ↔
      (owesScan (history cfg h before) || recovers i (runCycles cfg h before)) = false := by
  rw [Owes,not_or,not_not,←owesScan_eq_false_iff,Bool.or_eq_false_iff,Bool.not_eq_true]
  exact and_comm

theorem flagged_runCycles (cfg : DaemonConfig) (h : Host) (inputs : List CycleInput)
    (hstart : Flagged (scanClock h.shared))
    (hsafe : ∀ before i, before++[i] <+: inputs →
      (runCycle cfg i (runCycles cfg h before)).2 = .safeMode → ¬ Owes cfg h before i)
    (howed : owesScan (history cfg h inputs) = true) :
    Flagged (scanClock (runCycles cfg h inputs).shared) := by
  induction inputs using List.reverseRecOn with
  | nil => exact hstart
  | append_singleton before i ih =>
      have hprev := ih fun b j hp => hsafe b j (hp.trans (List.prefix_append _ _))
      rw [history_append_singleton,owesScan_append_singleton] at howed
      rw [runCycles_append_singleton]
      exact flagged_runCycle hprev
        (fun hend => (not_owes_iff ..).mp (hsafe before i List.prefix_rfl hend)) howed

/-- No cycle of a run skips while it owes a scan, if every cycle scans anyway, or if the stored
time of the last run is before the start and no cycle that owes a scan is in safe mode. -/
theorem no_skip_while_scan_owed (cfg : DaemonConfig) (stored : StoredState) (start : Int)
    (inputs : List CycleInput)
    (hcalm : cfg.forceFullScanIntervalCycles ≤ 1 ∨
      (∀ last, stored.lastRunTs = some last → last < start) ∧
      ∀ before i, before++[i] <+: inputs →
        (runCycle cfg i (runCycles cfg (startDaemon cfg stored start) before)).2 = .safeMode →
        ¬ Owes cfg (startDaemon cfg stored start) before i) :
    ∀ before i, before++[i] <+: inputs →
      CycleEnd.skips (runCycle cfg i (runCycles cfg (startDaemon cfg stored start) before)).2 =
        true →
      ¬ Owes cfg (startDaemon cfg stored start) before i := by
  intro before i hp hskip
  rcases hcalm with hevery | ⟨hlast,hsafe⟩
  · obtain ⟨-,-,-,hdue⟩ := (runCycle_skips_iff ..).mp hskip
    simp only [ScanClock.due,Bool.or_eq_false_iff,decide_eq_false_iff_not] at hdue
    omega
  · have hstart : Flagged (scanClock (startDaemon cfg stored start).shared) := by
      refine .inl ?_
      change isFirstCycleAfterStart (some start) stored.lastRunTs = true
      cases hl : stored.lastRunTs with
      | none => rfl
      | some last => exact decide_eq_true (hlast last hl)
    have hflag := flagged_runCycles cfg (startDaemon cfg stored start) before hstart
      fun b j hpre => hsafe b j (hpre.trans ((List.prefix_append _ _).trans hp))
    exact (not_owes_iff ..).mpr (not_owed_of_skips hflag hskip)

def unmounted : List DestinationWriteHealth :=
  [⟨"main".toList,false,"destination folder not found (drive disconnected?)".toList⟩]

def missingCycle (now : Int) : CycleInput := {plainCycle now with health := some unmounted}

/-- A destination is missing at the start and comes back: the scan is made before the skip. -/
theorem no_skip_while_scan_owed_late_mount :
    ¬ Owes dailyConfig (startDaemon dailyConfig {lastRunTs := some 90} 100)
      [missingCycle 100,plainCycle 160] (plainCycle 220) := by
  refine no_skip_while_scan_owed dailyConfig {lastRunTs := some 90} 100
    [missingCycle 100,plainCycle 160,plainCycle 220] (.inr ⟨?_,?_⟩) _ _ List.prefix_rfl
    (by decide +kernel)
  · rintro last ⟨⟩
    decide
  · intro before i hp hend
    rcases before with _ | ⟨a,_ | ⟨b,_ | ⟨c,before⟩⟩⟩
    all_goals simp only [List.nil_append,List.cons_append,List.cons_prefix_cons,List.nil_prefix,
      List.prefix_nil,and_true,List.append_eq_nil_iff,List.cons_ne_nil,and_false] at hp
    · rw [hp] at hend
      exact absurd hend (by decide +kernel)
    · rw [hp.1,hp.2] at hend
      exact absurd hend (by decide +kernel)
    · rw [hp.1,hp.2.1,hp.2.2] at hend
      exact absurd hend (by decide +kernel)

/-- Three runs that lose a scan: the first cycle is in safe mode; a destination comes back while
safe mode is on; the daemon is restarted within the second of the last cycle. -/
theorem owed_scan_is_lost :
    (history dailyConfig (startDaemon dailyConfig {} 100) [safeModeCycle 100,resumedCycle 160]).map
      (fun r => (r.recovered,r.ending)) = [(false,.safeMode),(false,.skipClean 22)] ∧
    (history dailyConfig (startDaemon dailyConfig {} 100)
      [plainCycle 100,missingCycle 160,safeModeCycle 220,resumedCycle 280]).map
      (fun r => (r.recovered,r.ending)) =
        [(false,.scanned),(false,.paused),(true,.safeMode),(false,.skipClean 21)] ∧
    (history dailyConfig (startDaemon dailyConfig {lastRunTs := some 100} 100)
      [plainCycle 100]).map (fun r => (r.recovered,r.ending)) = [(false,.skipClean 23)] := by
  decide +kernel

end BackupSync.ScanObligations
