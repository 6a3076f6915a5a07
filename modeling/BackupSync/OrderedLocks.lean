import Mathlib

/-!
# Locks taken in a fixed order

Tasks take exclusive locks one at a time, in the order of a plan, work while they
hold all of them and give them back one at a time. A task that finds a lock taken
polls it, and at some point it may give up; it then releases what it holds.

If every plan is increasing in one strict order, a task only ever waits for a lock
that comes after those it holds. Along a chain of waiting tasks the locks they
wait for increase, so no such chain closes.
-/
namespace BackupSync

/-- Where a task is with the locks of its plan. -/
inductive LockPhase (L : Type) where
  | idle
  | acquiring (held wanted : List L)
  | working (held : List L)
  | releasing (held : List L) (failed : Bool)
  | finished (failed : Bool)
  deriving DecidableEq, Repr

namespace LockPhase

variable {L : Type}

def held : LockPhase L → List L
  | idle => []
  | acquiring held _ => held
  | working held => held
  | releasing held _ => held
  | finished _ => []

def wanted : LockPhase L → List L
  | acquiring _ wanted => wanted
  | _ => []

end LockPhase

/-- The phases of the tasks and the owners of the locks. -/
structure LockTable (P L : Type) where
  phase : P → LockPhase L
  owner : L → Option P

namespace LockTable

variable {P L : Type}

section Order

/-- The first task cannot go on before the second one releases a lock. -/
def WaitsFor (s : LockTable P L) (p q : P) : Prop :=
  ∃ l held wanted, s.phase p = .acquiring held (l::wanted) ∧ s.owner l = some q

/-- A task owns exactly what it holds, and wants only what comes later in the order. -/
structure InOrder (r : L → L → Prop) (s : LockTable P L) : Prop where
  owned : ∀ p l, s.owner l = some p ↔ l ∈ (s.phase p).held
  sorted : ∀ p, ((s.phase p).held++(s.phase p).wanted).Pairwise r

variable {r : L → L → Prop} {s : LockTable P L} {p q : P} {l : L}

/-- What a task holds is in order, whatever it still wants. -/
theorem InOrder.held_sorted (h : s.InOrder r) (p : P) : (s.phase p).held.Pairwise r :=
  (List.pairwise_append.mp (h.sorted p)).1

/-- The lock a task waits for comes after everything it holds. -/
theorem InOrder.held_lt_wanted (h : s.InOrder r) {held wanted : List L} {k : L}
    (hp : s.phase p = .acquiring held (l::wanted)) (hk : s.owner k = some p) : r k l := by
  have hs := h.sorted p
  have hmem := (h.owned p k).mp hk
  rw [hp] at hs hmem
  exact (List.pairwise_append.mp hs).2.2 k hmem l List.mem_cons_self

/-- Along a chain of waiting tasks the locks they wait for increase. -/
theorem InOrder.chain_lt [IsTrans L r] (h : s.InOrder r)
    (hchain : Relation.TransGen s.WaitsFor p q) {k : L} {held wanted held' wanted' : List L}
    (hp : s.phase p = .acquiring held (l::wanted)) (hq : s.phase q = .acquiring held' (k::wanted')) :
    r l k := by
  induction hchain generalizing k held' wanted' with
  | single hwait =>
      obtain ⟨l',held'',wanted'',hp',hl⟩ := hwait
      rw [hp] at hp'
      cases hp'
      exact h.held_lt_wanted hq hl
  | tail _ hwait ih =>
      obtain ⟨l',held'',wanted'',hp',hl⟩ := hwait
      exact IsTrans.trans _ _ _ (ih hp') (h.held_lt_wanted hq hl)

/-- No task waits, through others or directly, for itself. -/
theorem InOrder.no_cycle [IsTrans L r] [Std.Irrefl r] (h : s.InOrder r) (p : P) :
    ¬ Relation.TransGen s.WaitsFor p p := by
  intro hchain
  obtain ⟨q,⟨l,held,wanted,hp,-⟩,-⟩ := Relation.TransGen.head'_iff.mp hchain
  exact Std.Irrefl.irrefl l (h.chain_lt hchain hp hp)

theorem InOrder.finished_free (h : s.InOrder r) {failed : Bool} (hp : s.phase p = .finished failed)
    (l : L) : s.owner l ≠ some p := by
  rw [ne_eq,h.owned p l,hp]
  exact List.not_mem_nil

/-- Two tasks that hold the same lock are one task. -/
theorem InOrder.exclusive (h : s.InOrder r) (hp : l ∈ (s.phase p).held)
    (hq : l ∈ (s.phase q).held) : p = q := by
  have hown := (h.owned p l).mpr hp
  rw [(h.owned q l).mpr hq] at hown
  exact (Option.some.inj hown).symm

end Order

section Steps
variable [DecidableEq P] [DecidableEq L]

def initial : LockTable P L := ⟨fun _ => .idle,fun _ => none⟩

def move (p : P) (ph : LockPhase L) (s : LockTable P L) : LockTable P L :=
  {s with phase := Function.update s.phase p ph}

def own (l : L) (o : Option P) (s : LockTable P L) : LockTable P L :=
  {s with owner := Function.update s.owner l o}

inductive Step (plans : List L → Prop) : LockTable P L → LockTable P L → Prop
  | start {s : LockTable P L} {p : P} {plan : List L} (hp : s.phase p = .idle) (hplan : plans plan) :
      Step plans s (s.move p (.acquiring [] plan))
  | refuse {s : LockTable P L} {p : P} (hp : s.phase p = .idle) :
      Step plans s (s.move p (.finished true))
  | lock {s : LockTable P L} {p : P} {l : L} {held wanted : List L}
      (hp : s.phase p = .acquiring held (l::wanted)) (hl : s.owner l = none) :
      Step plans s ((s.own l (some p)).move p (.acquiring (held++[l]) wanted))
  | poll {s : LockTable P L} {p q : P} {l : L} {held wanted : List L}
      (hp : s.phase p = .acquiring held (l::wanted)) (hl : s.owner l = some q) : Step plans s s
  | timeout {s : LockTable P L} {p q : P} {l : L} {held wanted : List L}
      (hp : s.phase p = .acquiring held (l::wanted)) (hl : s.owner l = some q) :
      Step plans s (s.move p (.releasing held true))
  | fault {s : LockTable P L} {p : P} {l : L} {held wanted : List L}
      (hp : s.phase p = .acquiring held (l::wanted)) :
      Step plans s (s.move p (.releasing held true))
  | work {s : LockTable P L} {p : P} {held : List L} (hp : s.phase p = .acquiring held []) :
      Step plans s (s.move p (.working held))
  | leave {s : LockTable P L} {p : P} {held : List L} (failed : Bool)
      (hp : s.phase p = .working held) : Step plans s (s.move p (.releasing held failed))
  | release {s : LockTable P L} {p : P} {l : L} {held : List L} {failed : Bool}
      (hp : s.phase p = .releasing (l::held) failed) :
      Step plans s ((s.own l none).move p (.releasing held failed))
  | finish {s : LockTable P L} {p : P} {failed : Bool} (hp : s.phase p = .releasing [] failed) :
      Step plans s (s.move p (.finished failed))
  | again {s : LockTable P L} {p : P} {failed : Bool} (hp : s.phase p = .finished failed) :
      Step plans s (s.move p .idle)

/-- The states any interleaving of the tasks can reach. -/
def Reached (plans : List L → Prop) : LockTable P L → Prop :=
  Relation.ReflTransGen (Step plans) initial

variable {r : L → L → Prop} {plans : List L → Prop} {s t : LockTable P L} {p q : P} {l : L}

omit [DecidableEq L] in
theorem phase_move_self (ph : LockPhase L) (s : LockTable P L) : (s.move p ph).phase p = ph := by
  simp [move]

omit [DecidableEq L] in
theorem phase_move_of_ne (h : q ≠ p) (ph : LockPhase L) (s : LockTable P L) :
    (s.move p ph).phase q = s.phase q := by
  simp [move,h]

omit [DecidableEq P] in
@[simp] theorem phase_own (l : L) (o : Option P) (s : LockTable P L) :
    (s.own l o).phase = s.phase := rfl

omit [DecidableEq L] in
/-- A task that changes its phase and keeps its locks. -/
theorem InOrder.move (h : s.InOrder r) {ph : LockPhase L} (hheld : ph.held = (s.phase p).held)
    (hsorted : (ph.held++ph.wanted).Pairwise r) : (s.move p ph).InOrder r := by
  constructor
  · intro q l
    by_cases hq : q = p
    · subst hq
      rw [phase_move_self,hheld]
      exact h.owned q l
    · rw [phase_move_of_ne hq]
      exact h.owned q l
  · intro q
    by_cases hq : q = p
    · subst hq
      rw [phase_move_self]
      exact hsorted
    · rw [phase_move_of_ne hq]
      exact h.sorted q

omit [DecidableEq L] in
/-- A task that keeps what it holds and wants nothing more. -/
theorem InOrder.settle (h : s.InOrder r) {ph : LockPhase L} (hheld : ph.held = (s.phase p).held)
    (hwanted : ph.wanted = []) : (s.move p ph).InOrder r := by
  apply h.move
  · exact hheld
  · rw [hheld,hwanted,List.append_nil]
    exact h.held_sorted p

theorem InOrder.lock (h : s.InOrder r) {held wanted : List L}
    (hp : s.phase p = .acquiring held (l::wanted)) (hl : s.owner l = none) :
    ((s.own l (some p)).move p (.acquiring (held++[l]) wanted)).InOrder r := by
  have hheld : (s.phase p).held = held := by rw [hp]; rfl
  constructor
  · intro q k
    change Function.update s.owner l (some p) k = some q ↔ _
    by_cases hk : k = l
    · subst hk
      rw [Function.update_self]
      by_cases hq : q = p
      · subst hq
        rw [phase_move_self]
        simp [LockPhase.held]
      · rw [phase_move_of_ne hq]
        have hfree := (h.owned q k).not.mp (by rw [hl]; simp)
        exact iff_of_false (fun he => hq (Option.some.inj he).symm) hfree
    · rw [Function.update_of_ne hk]
      by_cases hq : q = p
      · subst hq
        rw [phase_move_self,h.owned q k,hheld]
        simp [LockPhase.held,hk]
      · rw [phase_move_of_ne hq]
        exact h.owned q k
  · intro q
    by_cases hq : q = p
    · subst hq
      have hs := h.sorted q
      rw [hp] at hs
      rw [phase_move_self]
      simpa [LockPhase.held,LockPhase.wanted] using hs
    · rw [phase_move_of_ne hq]
      exact h.sorted q

theorem InOrder.release [Std.Irrefl r] (h : s.InOrder r) {held : List L} {failed : Bool}
    (hp : s.phase p = .releasing (l::held) failed) :
    ((s.own l none).move p (.releasing held failed)).InOrder r := by
  have hsorted := h.held_sorted p
  have hheld : (s.phase p).held = l::held := by rw [hp]; rfl
  rw [hheld,List.pairwise_cons] at hsorted
  have hnot : l ∉ held := fun hl => Std.Irrefl.irrefl l (hsorted.1 l hl)
  have hown : s.owner l = some p := (h.owned p l).mpr (by rw [hheld]; exact List.mem_cons_self)
  constructor
  · intro q k
    change Function.update s.owner l none k = some q ↔ _
    by_cases hk : k = l
    · subst hk
      rw [Function.update_self]
      refine iff_of_false (by simp) ?_
      by_cases hq : q = p
      · subst hq
        rw [phase_move_self]
        exact hnot
      · rw [phase_move_of_ne hq,phase_own,← h.owned q k,hown]
        exact fun he => hq (Option.some.inj he).symm
    · rw [Function.update_of_ne hk,h.owned q k]
      by_cases hq : q = p
      · subst hq
        rw [phase_move_self,hheld]
        simp [LockPhase.held,hk]
      · rw [phase_move_of_ne hq,phase_own]
  · intro q
    by_cases hq : q = p
    · subst hq
      rw [phase_move_self]
      simpa [LockPhase.held,LockPhase.wanted] using hsorted.2
    · rw [phase_move_of_ne hq]
      exact h.sorted q

/-- Every step of every task keeps the order. -/
theorem Step.inOrder [Std.Irrefl r] (hplans : ∀ plan, plans plan → plan.Pairwise r)
    (hstep : Step plans s t) (h : s.InOrder r) : t.InOrder r := by
  cases hstep with
  | start hp hplan =>
      apply h.move
      · rw [hp]
        rfl
      · exact hplans _ hplan
  | refuse hp => exact h.settle (by rw [hp]; rfl) rfl
  | lock hp hl => exact h.lock hp hl
  | poll hp hl => exact h
  | timeout hp hl => exact h.settle (by rw [hp]; rfl) rfl
  | fault hp => exact h.settle (by rw [hp]; rfl) rfl
  | work hp => exact h.settle (by rw [hp]; rfl) rfl
  | leave failed hp => exact h.settle (by rw [hp]; rfl) rfl
  | release hp => exact h.release hp
  | finish hp => exact h.settle (by rw [hp]; rfl) rfl
  | again hp => exact h.settle (by rw [hp]; rfl) rfl

theorem Reached.inOrder [Std.Irrefl r] (hplans : ∀ plan, plans plan → plan.Pairwise r)
    (hs : Reached plans s) : s.InOrder r := by
  induction hs with
  | refl =>
      constructor
      · intro p l
        simp [initial,LockPhase.held]
      · intro p
        exact List.Pairwise.nil
  | tail _ hstep ih => exact hstep.inOrder hplans ih

/-- A task that gives back its locks needs nobody else to come to its end. -/
theorem finishes (plans : List L → Prop) {held : List L} {failed : Bool}
    (hp : s.phase p = .releasing held failed) :
    ∃ t, Relation.ReflTransGen (Step plans) s t ∧ t.phase p = .finished failed := by
  induction held generalizing s with
  | nil => exact ⟨_,.single (.finish hp),phase_move_self _ s⟩
  | cons l held ih =>
      obtain ⟨t,ht,hend⟩ := ih (phase_move_self (.releasing held failed) (s.own l none))
      exact ⟨t,.head (.release hp) ht,hend⟩

end Steps

end LockTable
end BackupSync
