import BackupSync.DaemonInterleaving

/-!
# Sampled verifications follow full ones

A verification reads the time of the last full scrub from the stored state and samples
only if that is less than the configured interval ago. Backup cycles commit records
that were copied before, requests change the stored state in between, and a
verification may be skipped or fail; the time always stands for a full scrub that was
completed and committed, or was there when the daemon started.
-/
namespace BackupSync
open DaemonState DaemonCycle Daemon DaemonInterleaving

namespace VerifySchedule

/-- A full scrub that began at the time was completed and committed. -/
def FullScrubAt (d : Daemon) (t : Int) : Prop :=
  ∃ result, Event.verified (verifyUpdate t .full (.scrubbed result)) ∈ d.log

/-- The time is that of a committed full scrub, or the one the daemon started with. -/
def Recorded (initial : StoredState) (d : Daemon) (t : Int) : Prop :=
  initial.lastScrubFullTs = some t ∨ FullScrubAt d t

def Reports (update : VerifyStateUpdate) : Prop :=
  ∃ now mode outcome, update = verifyUpdate now mode outcome

/-- What a phase of a verification has in hand. -/
def Warranted (cfg : DaemonConfig) (initial : StoredState) (d : Daemon) : VerifyPhase → Prop
  | .idle => True
  | .scrubbing now mode => mode = .sampled → ∃ t, Recorded initial d t ∧
      now-t < (cfg.scrubFullIntervalSeconds : Int)
  | .ready update => Reports update
  | .locked update => Reports update
  | .persisting _ _ => True

structure Scheduled (cfg : DaemonConfig) (initial : StoredState) (d : Daemon) : Prop where
  shared : ∀ t, d.host.shared.lastScrubFullTs = some t → Recorded initial d t
  phase : Warranted cfg initial d d.verify

variable {cfg : DaemonConfig} {initial file : StoredState} {d d' : Daemon}

/-- Only a completed full scrub records its time. -/
theorem full_of_verifyUpdate {now t : Int} {mode : ScrubMode} {outcome : VerifyOutcome}
    (h : (verifyUpdate now mode outcome).lastScrubFullTs = some t) :
    t = now ∧ mode = .full ∧ ∃ result, outcome = .scrubbed result := by
  cases outcome with
  | skipped unavailable => cases h
  | failed error => cases h
  | scrubbed result =>
      cases mode with
      | sampled => cases h
      | full =>
          cases h
          exact ⟨rfl,rfl,result,rfl⟩

theorem recent_of_sampled {now : Int} {last : Option Int} (h : scrubMode cfg now last = .sampled) :
    ∃ t, last = some t ∧ now-t < (cfg.scrubFullIntervalSeconds : Int) := by
  cases last with
  | none => cases h
  | some t =>
      refine ⟨t,rfl,?_⟩
      by_contra hge
      rw [scrubMode,if_pos (not_lt.mp hge)] at h
      cases h

theorem Recorded.mono {t : Int} (h : Recorded initial d t) (hlog : ∀ e ∈ d.log, e ∈ d'.log) :
    Recorded initial d' t := by
  rcases h with h | ⟨result,h⟩
  · exact .inl h
  · exact .inr ⟨result,hlog _ h⟩

theorem Warranted.mono {phase : VerifyPhase} (h : Warranted cfg initial d phase)
    (hlog : ∀ e ∈ d.log, e ∈ d'.log) : Warranted cfg initial d' phase := by
  cases phase with
  | idle => trivial
  | scrubbing now mode =>
      intro hmode
      obtain ⟨t,ht,hrecent⟩ := h hmode
      exact ⟨t,ht.mono hlog,hrecent⟩
  | ready update => exact h
  | locked update => exact h
  | persisting commit snapshot => trivial

/-- A step that leaves the verification and the time of the last full scrub alone. -/
theorem Scheduled.other (h : Scheduled cfg initial d) (hlog : ∀ e ∈ d.log, e ∈ d'.log)
    (hshared : d'.host.shared.lastScrubFullTs = d.host.shared.lastScrubFullTs)
    (hverify : d'.verify = d.verify) : Scheduled cfg initial d' where
  shared t ht := (h.shared t (hshared ▸ ht)).mono hlog
  phase := hverify ▸ h.phase.mono hlog

theorem scheduled_applyVerify (h : Scheduled cfg initial d) {update : VerifyStateUpdate}
    (hphase : d.verify = .locked update) {d' : Daemon} (hlog : d'.log = .verified update::d.log)
    (hshared : d'.host.shared = applyVerifyUpdate d.host.shared update)
    (hverify : Warranted cfg initial d' d'.verify) : Scheduled cfg initial d' := by
  refine ⟨?_,hverify⟩
  intro t ht
  rw [hshared] at ht
  have hreports : Reports update := by
    have hin := h.phase
    rwa [hphase] at hin
  obtain ⟨now,mode,outcome,rfl⟩ := hreports
  change ((verifyUpdate now mode outcome).lastScrubFullTs.or d.host.shared.lastScrubFullTs) = some t at ht
  cases hnew : (verifyUpdate now mode outcome).lastScrubFullTs with
  | none =>
      rw [hnew,Option.none_or] at ht
      refine (h.shared t ht).mono ?_
      intro e he
      rw [hlog]
      exact List.mem_cons_of_mem _ he
  | some t' =>
      rw [hnew] at ht
      obtain rfl : t' = t := Option.some.inj ht
      obtain ⟨rfl,rfl,result,rfl⟩ := full_of_verifyUpdate hnew
      exact .inr ⟨result,hlog ▸ List.mem_cons_self⟩

theorem scheduled_step (h : Scheduled cfg initial d) (hstep : Step cfg d d') :
    Scheduled cfg initial d' := by
  have hsame : ∀ e ∈ d.log, e ∈ d.log := fun _ he => he
  have hmore : ∀ (e' : Event), ∀ e ∈ d.log, e ∈ e'::d.log := fun _ _ he => List.mem_cons_of_mem _ he
  cases hstep with
  | setSafeMode enabled => exact h.other (hmore _) rfl rfl
  | clearSafetyWarning => exact h.other (hmore _) rfl rfl
  | start now hidle => exact h.other (hmore _) rfl rfl
  | probeFailed hphase => exact h.other (hmore _) rfl rfl
  | engineFailed error hphase => exact h.other (hmore _) rfl rfl
  | merge hphase => exact h.other (hmore _) rfl rfl
  | startVerify now hidle =>
      refine ⟨h.shared,?_⟩
      intro hmode
      obtain ⟨t,ht,hrecent⟩ := recent_of_sampled hmode
      exact ⟨t,h.shared t ht,hrecent⟩
  | scrubFailed hphase => exact ⟨h.shared,trivial⟩
  | scrubbed outcome hphase => exact ⟨h.shared,_,_,outcome,rfl⟩
  | lockVerify hphase hlock =>
      have hin := h.phase
      rw [hphase] at hin
      exact ⟨h.shared,hin⟩
  | applyVerify hphase => exact scheduled_applyVerify h hphase rfl rfl trivial
  | persistVerify succeeds hphase => exact ⟨h.shared,trivial⟩
  | _ => exact h.other hsame rfl rfl

theorem scheduled_of_reaches (h : Reaches cfg (boot initial file) d) : Scheduled cfg initial d := by
  induction h with
  | refl => exact ⟨fun t ht => .inl ht,trivial⟩
  | tail _ hstep ih => exact scheduled_step ih hstep

/-- Under any interleaving with backup cycles and requests, a verification that only samples began
less than the interval after a full scrub that was completed and committed, or after the one that was
known when the daemon started. -/
theorem sampled_after_full (h : Reaches cfg (boot initial file) d) {now : Int}
    (hphase : d.verify = .scrubbing now .sampled) :
    ∃ t, now-t < (cfg.scrubFullIntervalSeconds : Int) ∧
      (initial.lastScrubFullTs = some t ∨ FullScrubAt d t) := by
  have hin := (scheduled_of_reaches h).phase
  rw [hphase] at hin
  obtain ⟨t,ht,hrecent⟩ := hin rfl
  exact ⟨t,hrecent,ht⟩

/-- A first verification is full; the next one, some time later, samples. -/
theorem sampled_after_full_second : ∃ d t, d.verify = .scrubbing 200 .sampled ∧ 200-t < 3600 ∧
    FullScrubAt d t := by
  let cfg : DaemonConfig := ⟨false,24,3600,by decide⟩
  have hstart : Reaches cfg (boot {} {}) _ := .single (.startVerify 100 rfl)
  have hscrub := hstart.tail (.scrubbed (.scrubbed ⟨0,0,0⟩) rfl)
  have hlock := hscrub.tail (.lockVerify rfl rfl)
  have happly := hlock.tail (.applyVerify rfl)
  have hpersist := happly.tail (.persistVerify true rfl)
  have hagain := hpersist.tail (.startVerify 200 rfl)
  obtain ⟨t,hrecent,hnone | hfull⟩ := sampled_after_full hagain rfl
  · cases hnone
  · exact ⟨_,t,rfl,hrecent,hfull⟩

end VerifySchedule
end BackupSync
