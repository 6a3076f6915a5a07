import BackupSync.Checks
import BackupSync.Interruptible

/-!
# Blocking calls with a time limit and retries

run_with_policy tries an operation again after each of a list of delays. Before
every attempt, and in the pauses between them at every poll interval, it looks at a
cancellation flag and at the time that has passed since its start. An attempt or a
sleep that has begun is not interrupted.

Time passes in attempts and sleeps, and a sleep may last longer than was asked for.
Times are counted in nanoseconds.
-/
namespace BackupSync
open Checks Interruptible Interruptible.Action

structure BlockingIoPolicy where
  timeout : Nat
  retryDelays : List Nat
  backoffPollInterval : Nat
  deriving DecidableEq, Repr

/-- Why a call is given up. -/
inductive Halt where
  | cancelled | timedOut
  deriving DecidableEq, Repr

/-- The number is that of the attempt that was not made, or of all that were. -/
inductive PolicyError (ε : Type) where
  | preflight (attempt : Nat) (why : Halt)
  | backoff (attempt : Nat) (why : Halt)
  | exhausted (attempts : Nat) (last : ε)
  deriving DecidableEq, Repr

/-- The cancellation flag over time and how long sleeps last. -/
structure IoClock where
  cancelled : Nat → Bool
  slept : Nat → Nat → Nat
  slept_ge : ∀ now asked, asked ≤ slept now asked

/-- An operation, by the number of the attempt, with the time it takes. -/
structure TimedOp (σ ε α : Type) where
  run : Nat → Action σ ε α
  took : Nat → Nat

namespace IoPolicy

def millisecond : Nat := 1000000

def second : Nat := 1000*millisecond

def defaultCopyTimeoutSeconds : Nat := 300

def defaultRetryDelaysMs : List Nat := [100,200,400,800]

def defaultBackoffPollIntervalMs : Nat := 50

def bootstrapDefaults : BlockingIoPolicy :=
  ⟨max defaultCopyTimeoutSeconds 1*second,defaultRetryDelaysMs.map (·*millisecond),
    defaultBackoffPollIntervalMs*millisecond⟩

section Calls
variable {σ ε α : Type} (policy : BlockingIoPolicy) (clock : IoClock) (start : Nat)

def ensureActive (now : Nat) : Except Halt Unit := do
  require (!clock.cancelled now) .cancelled
  require (now-start ≤ policy.timeout) .timedOut

/-- How long the next sleep of a pause is asked to last. -/
def nextSleep (delay elapsed : Nat) : Nat :=
  min (delay-elapsed) (max policy.backoffPollInterval millisecond)

theorem nextSleep_pos {delay elapsed : Nat} (h : elapsed < delay) :
    0 < nextSleep policy delay elapsed := by
  unfold nextSleep millisecond
  omega

/-- The pause that began at the given time, and the time at its end. -/
def sleepWithChecks (begun delay elapsed : Nat) : Except Halt Unit × Nat :=
  if elapsed < delay then
    match ensureActive policy clock start (begun+elapsed) with
    | .error why => (.error why,begun+elapsed)
    | .ok () => sleepWithChecks begun delay
        (elapsed+clock.slept (begun+elapsed) (nextSleep policy delay elapsed))
  else (.ok (),begun+elapsed)
termination_by delay-elapsed
decreasing_by
  have hpos := nextSleep_pos policy ‹elapsed < delay›
  have hslept := clock.slept_ge (begun+elapsed) (nextSleep policy delay elapsed)
  omega

/-- The attempts from the given one on, with the delays that are left and the time at the end. -/
def runAttempts (op : TimedOp σ ε α) : List Nat → Nat → Nat → σ → Outcome σ (PolicyError ε) α × Nat
  | delays,done,now,s =>
    match ensureActive policy clock start now with
    | .error why => (⟨[],s,.error (.preflight (done+1) why)⟩,now)
    | .ok () =>
      let o := op.run done s
      match o.result with
      | .ok a => (⟨o.trail,o.store,.ok a⟩,now+op.took done)
      | .error e => match delays with
        | [] => (⟨o.trail,o.store,.error (.exhausted (done+1) e)⟩,now+op.took done)
        | delay::delays =>
          match sleepWithChecks policy clock start (now+op.took done) delay 0 with
          | (.error why,now) => (⟨o.trail,o.store,.error (.backoff (done+2) why)⟩,now)
          | (.ok (),now) =>
            let rest := runAttempts op delays (done+1) now o.store
            (⟨o.trail++rest.1.trail,rest.1.store,rest.1.result⟩,rest.2)
termination_by structural delays => delays

def runWithPolicy (op : TimedOp σ ε α) : Action σ (PolicyError ε) α := fun s =>
  (runAttempts policy clock start op policy.retryDelays 0 start s).1

end Calls

/-- The error of the last attempt, if the call ended for that. -/
def last {ε : Type} : PolicyError ε → Option ε
  | .preflight _ _ => none
  | .backoff _ _ => none
  | .exhausted _ e => some e

section Facts
variable {σ ε α : Type} {policy : BlockingIoPolicy} {clock : IoClock} {start : Nat}

theorem ensureActive_eq_ok {now : Nat} :
    ensureActive policy clock start now = .ok () ↔
      clock.cancelled now = false ∧ now-start ≤ policy.timeout := by
  unfold ensureActive
  rw [then_eq_ok,require_eq_ok,require_eq_ok]
  simp

section Attempts
variable {op : TimedOp σ ε α} {delays : List Nat} {delay done now : Nat} {s : σ}

theorem runAttempts_ok {a : α} (h : ensureActive policy clock start now = .ok ())
    (ha : (op.run done s).result = .ok a) :
    runAttempts policy clock start op delays done now s =
      (⟨(op.run done s).trail,(op.run done s).store,.ok a⟩,now+op.took done) := by
  unfold runAttempts
  rw [h]
  dsimp only
  rw [ha]

theorem runAttempts_again {e : ε} {t : Nat} (h : ensureActive policy clock start now = .ok ())
    (he : (op.run done s).result = .error e)
    (hp : sleepWithChecks policy clock start (now+op.took done) delay 0 = (.ok (),t)) :
    runAttempts policy clock start op (delay::delays) done now s =
      (⟨(op.run done s).trail++
          (runAttempts policy clock start op delays (done+1) t (op.run done s).store).1.trail,
        (runAttempts policy clock start op delays (done+1) t (op.run done s).store).1.store,
        (runAttempts policy clock start op delays (done+1) t (op.run done s).store).1.result⟩,
      (runAttempts policy clock start op delays (done+1) t (op.run done s).store).2) := by
  rw [runAttempts,h]
  dsimp only
  rw [he]
  dsimp only
  rw [hp]

end Attempts

section Retries
variable {op : Nat → Action σ ε α} {gaveUp : ε} {i : Nat} {xs : List (Option Nat)} {s : σ}

theorem retry_of_ok {a : α} (h : (op i s).result = .ok a) :
    retry op gaveUp (some i::xs) s = ⟨(op i s).trail,(op i s).store,.ok a⟩ := by
  simp [retry,bind,andThen,attempt,h,ret]

theorem retry_of_error_last {e : ε} (h : (op i s).result = .error e) :
    retry op gaveUp [some i] s = ⟨(op i s).trail,(op i s).store,.error e⟩ := by
  simp [retry,bind,andThen,attempt,h,fail]

theorem retry_of_error {e : ε} (h : (op i s).result = .error e) (hxs : xs ≠ []) :
    retry op gaveUp (some i::xs) s =
      ⟨(op i s).trail++(retry op gaveUp xs (op i s).store).trail,
        (retry op gaveUp xs (op i s).store).store,(retry op gaveUp xs (op i s).store).result⟩ := by
  cases xs with
  | nil => exact absurd rfl hxs
  | cons x xs => simp [retry,bind,andThen,attempt,h]

end Retries

/-- The given number of attempts, the first one with the given number; after them the call may
be given up. -/
def attemptsFrom (done count : Nat) (gaveUp : Bool) : List (Option Nat) :=
  (List.range' done count).map some++if gaveUp then [none] else []

theorem attemptsFrom_succ (done count : Nat) (gaveUp : Bool) :
    attemptsFrom done (count+1) gaveUp = some done::attemptsFrom (done+1) count gaveUp := by
  simp [attemptsFrom,List.range'_succ]

theorem attemptsFrom_ne_nil {done count : Nat} {gaveUp : Bool} (h : 0 < count+gaveUp.toNat) :
    attemptsFrom done count gaveUp ≠ [] := by
  cases gaveUp with
  | false =>
      have hcount : count ≠ 0 := by simpa using h.ne'
      simp [attemptsFrom,hcount]
  | true => simp [attemptsFrom]

/-- The result as it is without the numbers of the attempts. -/
def plain (o : Outcome σ (PolicyError ε) α) : Outcome σ (Option ε) α :=
  ⟨o.trail,o.store,o.result.mapError last⟩

theorem plain_runAttempts (op : TimedOp σ ε α) (delays : List Nat) (done now : Nat) (s : σ) :
    ∃ count gaveUp, 0 < count+gaveUp.toNat ∧ count+gaveUp.toNat ≤ delays.length+1 ∧
      plain (runAttempts policy clock start op delays done now s).1 =
        retry (fun i => mapFailure some (op.run i)) none (attemptsFrom done count gaveUp) s := by
  fun_induction runAttempts policy clock start op delays done now s with
  | case1 => exact ⟨0,true,by decide,by simp,rfl⟩
  | case2 delays done now s hactive o a ha =>
      refine ⟨1,false,by decide,by simp,?_⟩
      have ho : (mapFailure some (op.run done) s).result = .ok a := congrArg (Except.mapError some) ha
      rw [attemptsFrom_succ,retry_of_ok ho]
      rfl
  | case3 done now s hactive o e he =>
      refine ⟨1,false,by decide,by decide,?_⟩
      have ho : (mapFailure some (op.run done) s).result = .error (some e) :=
        congrArg (Except.mapError some) he
      exact (@retry_of_error_last _ _ _ (fun i => mapFailure some (op.run i)) none _ _ _ ho).symm
  | case4 done now s hactive o e he delay delays why t hp =>
      refine ⟨1,true,by decide,by simp,?_⟩
      have ho : (mapFailure some (op.run done) s).result = .error (some e) :=
        congrArg (Except.mapError some) he
      rw [attemptsFrom_succ,retry_of_error ho (by simp [attemptsFrom])]
      simp [o,plain,attemptsFrom,retry,fail,mapFailure,Except.mapError,last]
  | case5 done now s hactive o e he delay delays t hp rest ih =>
      obtain ⟨count,gaveUp,hpos,hle,hrest⟩ := ih
      refine ⟨count+1,gaveUp,by omega,by rw [List.length_cons]; omega,?_⟩
      have ho : (mapFailure some (op.run done) s).result = .error (some e) :=
        congrArg (Except.mapError some) he
      have hstore : (mapFailure some (op.run done) s).store = o.store := rfl
      rw [attemptsFrom_succ,retry_of_error ho (attemptsFrom_ne_nil hpos),hstore,← hrest]
      rfl

/-- Whatever the clock does, a call acts as some attempts in their order, at most one more than
there are delays, up to the first that returns; it may be given up before any of them. -/
theorem runWithPolicy_retries (op : TimedOp σ ε α) (s : σ) :
    ∃ count gaveUp, 0 < count+gaveUp.toNat ∧ count+gaveUp.toNat ≤ policy.retryDelays.length+1 ∧
      mapFailure last (runWithPolicy policy clock start op) s =
        retry (fun i => mapFailure some (op.run i)) none (attemptsFrom 0 count gaveUp) s :=
  plain_runAttempts op policy.retryDelays 0 start s

/-- What every attempt keeps, the call keeps. -/
theorem triple_runWithPolicy {C : σ → Prop} {Q : α → σ → Prop} {op : TimedOp σ ε α}
    (hop : ∀ i, Triple C (op.run i) Q C) : Triple C (runWithPolicy policy clock start op) Q C := by
  intro s hs
  obtain ⟨count,gaveUp,-,-,heq⟩ :=
    @plain_runAttempts _ _ _ policy clock start op policy.retryDelays 0 start s
  have hmap : ∀ i, Triple C (mapFailure some (op.run i)) Q C := fun i =>
    spec_mapFailure (hop i)
  have hretry : Triple C (retry (fun i => mapFailure some (op.run i)) none
      (attemptsFrom 0 count gaveUp)) Q C := triple_retry hmap _
  obtain ⟨htrail,hok,herr⟩ := heq ▸ hretry s hs
  refine ⟨htrail,?_,?_⟩
  · intro a ha
    exact hok a (congrArg (Except.mapError last) ha)
  · intro e he
    exact herr (last e) (congrArg (Except.mapError last) he)

theorem runs_mapFailure {ε' : Type} {f : ε → ε'} {P : σ → Prop} {Q : α → σ → Prop}
    {m : Action σ ε α} (h : Runs P m Q) : Runs P (mapFailure f m) Q := by
  intro s hs
  obtain ⟨a,t,hr,hQ⟩ := h s hs
  exact ⟨a,t,returns_mapFailure.mpr hr,hQ⟩

/-- Cancelled from the given time on, if there is one; sleeps last as long as was asked for. -/
def exactClock (stop : Option Nat) : IoClock :=
  ⟨fun t => stop.any (· ≤ t),fun _ asked => asked,fun _ _ => le_rfl⟩

/-- Two failures before a value, each attempt a second long. -/
def flakyRead : TimedOp Nat Unit Nat :=
  ⟨fun i => if i < 2 then fail () else Action.read,fun _ => second⟩

section Survival
variable {slack : Nat}

theorem ensureActive_of_calm (hcalm : ∀ t, t ≤ start+policy.timeout → clock.cancelled t = false)
    {now : Nat} (h : now ≤ start+policy.timeout) : ensureActive policy clock start now = .ok () :=
  ensureActive_eq_ok.mpr ⟨hcalm now h,by omega⟩

theorem sleepWithChecks_ok
    (hcalm : ∀ t, t ≤ start+policy.timeout → clock.cancelled t = false)
    (hslept : ∀ now asked, clock.slept now asked ≤ asked+slack) {begun delay elapsed : Nat}
    (htime : begun+delay+slack ≤ start+policy.timeout) (h : elapsed ≤ delay+slack) :
    ∃ t, t ≤ begun+delay+slack ∧
      sleepWithChecks policy clock start begun delay elapsed = (.ok (),t) := by
  fun_induction sleepWithChecks policy clock start begun delay elapsed with
  | case1 elapsed hlt why hwhy =>
      rw [ensureActive_of_calm hcalm (by omega)] at hwhy
      cases hwhy
  | case2 elapsed hlt hok ih =>
      apply ih
      have hnext : nextSleep policy delay elapsed ≤ delay-elapsed := Nat.min_le_left _ _
      have hlast := hslept (begun+elapsed) (nextSleep policy delay elapsed)
      omega
  | case3 elapsed hge => exact ⟨begun+elapsed,by omega,rfl⟩

variable {P : σ → Prop} {Q : α → σ → Prop} {op : TimedOp σ ε α} {longest : Nat}

theorem runAttempts_survives
    (hcalm : ∀ t, t ≤ start+policy.timeout → clock.cancelled t = false)
    (hslept : ∀ now asked, clock.slept now asked ≤ asked+slack) (htook : ∀ i, op.took i ≤ longest)
    (waited rest : List Nat) {done now : Nat}
    (htime : now+waited.sum+waited.length*(longest+slack) ≤ start+policy.timeout)
    (hearly : ∀ i, done ≤ i → i < done+waited.length →
      Spec P (op.run i) Q (fun _ => P) fun _ => True)
    (hdone : Runs P (op.run (done+waited.length)) Q) :
    Runs P (fun s => (runAttempts policy clock start op (waited++rest) done now s).1) Q := by
  induction waited generalizing done now with
  | nil =>
      have hdone : Runs P (op.run done) Q := hdone
      intro s hs
      obtain ⟨a,t,⟨hr,ht⟩,hQ⟩ := hdone s hs
      have hactive : ensureActive policy clock start now = .ok () :=
        ensureActive_of_calm hcalm (by simpa using htime)
      refine ⟨a,t,⟨?_,?_⟩,hQ⟩
      · dsimp only
        rw [runAttempts_ok hactive hr]
      · dsimp only
        rw [runAttempts_ok hactive hr]
        exact ht
  | cons delay waited ih =>
      intro s hs
      rw [List.sum_cons,List.length_cons,Nat.succ_mul] at htime
      have hactive : ensureActive policy clock start now = .ok () :=
        ensureActive_of_calm hcalm (by omega)
      obtain ⟨-,hok,herr⟩ := hearly done le_rfl (by simp) s hs
      cases hr : (op.run done s).result with
      | ok a =>
          refine ⟨a,(op.run done s).store,⟨?_,?_⟩,hok a hr⟩
          · dsimp only
            rw [runAttempts_ok hactive hr]
          · dsimp only
            rw [runAttempts_ok hactive hr]
      | error e =>
          have hlong := htook done
          obtain ⟨u,hu,hp⟩ := @sleepWithChecks_ok policy clock start slack hcalm hslept
            (now+op.took done) delay 0 (by omega) (by omega)
          have hrest := @ih (done+1) u (by omega)
            (fun i hi hlt => hearly i (by omega) (by rw [List.length_cons]; omega))
            (by rwa [List.length_cons,← Nat.add_assoc,Nat.add_right_comm] at hdone)
          obtain ⟨a,v,⟨hr',hv⟩,hQ⟩ := hrest _ (herr e hr)
          refine ⟨a,v,⟨?_,?_⟩,hQ⟩
          · dsimp only
            rw [List.cons_append,runAttempts_again hactive hr hp]
            exact hr'
          · dsimp only
            rw [List.cons_append,runAttempts_again hactive hr hp]
            exact hv

/-- Failures that the delays and the time limit leave room for do not reach the caller: if the
attempt after some of the delays would return, the call returns. -/
theorem runWithPolicy_survives {waited rest : List Nat} (hdelays : policy.retryDelays = waited++rest)
    (hcalm : ∀ t, t ≤ start+policy.timeout → clock.cancelled t = false)
    (hslept : ∀ now asked, clock.slept now asked ≤ asked+slack) (htook : ∀ i, op.took i ≤ longest)
    (htime : waited.sum+waited.length*(longest+slack) ≤ policy.timeout)
    (hearly : ∀ i, i < waited.length → Spec P (op.run i) Q (fun _ => P) fun _ => True)
    (hdone : Runs P (op.run waited.length) Q) : Runs P (runWithPolicy policy clock start op) Q := by
  unfold runWithPolicy
  rw [hdelays]
  refine runAttempts_survives hcalm hslept htook waited rest (by omega) ?_ ?_
  · intro i _ hi
    exact hearly i (by omega)
  · rwa [Nat.zero_add]

theorem runWithPolicy_survives_flakyRead :
    Runs (fun s => s = 7) (runWithPolicy bootstrapDefaults (exactClock none) 5 flakyRead) fun a s =>
      a = 7 ∧ s = 7 := by
  have hsplit : bootstrapDefaults.retryDelays =
      [100*millisecond,200*millisecond]++[400*millisecond,800*millisecond] := rfl
  refine @runWithPolicy_survives _ _ _ _ _ 5 0 _ _ _ second _ _ hsplit (fun _ _ => rfl)
    (fun _ _ => le_rfl) (fun _ => le_rfl) (by decide) ?_ ?_
  · intro i hi
    have hrun : flakyRead.run i = fail () := if_pos hi
    rw [hrun]
    exact spec_fail () fun _ hs => hs
  · rintro s rfl
    exact ⟨7,7,⟨rfl,rfl⟩,rfl,rfl⟩

/-- With the default delays, one good attempt among the first five is enough. -/
theorem runs_bootstrapDefaults {k : Nat} (hk : k ≤ 4) (hcalm : ∀ t, clock.cancelled t = false)
    (hslept : ∀ now asked, clock.slept now asked ≤ asked+slack) (htook : ∀ i, op.took i ≤ longest)
    (htime : longest+slack ≤ 74*second)
    (hearly : ∀ i, i < k → Spec P (op.run i) Q (fun _ => P) fun _ => True)
    (hdone : Runs P (op.run k) Q) : Runs P (runWithPolicy bootstrapDefaults clock start op) Q := by
  have hlength : (bootstrapDefaults.retryDelays.take k).length = k := by
    rw [List.length_take]
    exact Nat.min_eq_left hk
  have hsum : (bootstrapDefaults.retryDelays.take k).sum ≤ 1500*millisecond := by
    have hmono : (bootstrapDefaults.retryDelays.take k).sum ≤ bootstrapDefaults.retryDelays.sum :=
      (List.take_sublist k _).sum_le_sum fun _ _ => Nat.zero_le _
    exact hmono.trans (by decide)
  have hruns := @runAttempts_survives _ _ _ bootstrapDefaults clock start slack P Q op longest
    (fun t _ => hcalm t) hslept htook (bootstrapDefaults.retryDelays.take k)
    (bootstrapDefaults.retryDelays.drop k) 0 start
  rw [hlength,Nat.zero_add,List.take_append_drop] at hruns
  refine hruns ?_ (fun i _ => hearly i) hdone
  have hfour : k*(longest+slack) ≤ 4*(74*second) := Nat.mul_le_mul hk htime
  have hlimit : 1500*millisecond+4*(74*second) ≤ bootstrapDefaults.timeout := by decide
  omega

end Survival
end Facts
end IoPolicy
end BackupSync
