import Mathlib

/-!
# Actions that can be cut short

An action changes a state in single steps and ends with a value or an error.
Its outcome records the state after every completed step, so that a power cut
or a killed process is an element of that record and not a second semantics.
Reads take no step.

Three ways of reasoning are provided. A specification carries a precondition
through an action while one crash condition holds after every step, with separate
conditions for a returned value and for an error; a triple is the case where an
error meets the crash condition. Both are closed under sequencing, error capture
and left folds. The returning relation peels a run
that ended with a value apart at each bind, and is used where the exact final
state matters. The total form says that a run does end with a value. Reachable
closes a family of actions under complete and cut runs; an invariant kept by each
action holds in every reachable state.

Nothing here mentions a file, a store or an error text.
-/
namespace BackupSync.Interruptible

variable {σ τ ε α β γ : Type}

structure Outcome (σ ε α : Type) where
  trail : List σ
  store : σ
  result : Except ε α

/-- The states in which a run can be found once it has started. -/
def Outcome.states (o : Outcome σ ε α) : List σ := o.trail++[o.store]

def Action (σ ε α : Type) : Type := σ → Outcome σ ε α

namespace Action

def ret (a : α) : Action σ ε α := fun s => ⟨[],s,.ok a⟩

def fail (e : ε) : Action σ ε α := fun s => ⟨[],s,.error e⟩

/-- An error ends the sequence; the steps already taken stay. -/
def andThen (m : Action σ ε α) (f : α → Action σ ε β) : Action σ ε β := fun s =>
  match (m s).result with
  | .ok a => ⟨(m s).trail++(f a (m s).store).trail,(f a (m s).store).store,
      (f a (m s).store).result⟩
  | .error e => ⟨(m s).trail,(m s).store,.error e⟩

instance : Monad (Action σ ε) where
  pure := ret
  bind := andThen

def read : Action σ ε σ := fun s => ⟨[],s,.ok s⟩

/-- One completed change of the state. -/
def step (f : σ → σ) : Action σ ε Unit := fun s => ⟨[f s],f s,.ok ()⟩

def check (b : Bool) (e : ε) : Action σ ε Unit := if b then ret () else fail e

def lift (r : Except ε α) : Action σ ε α := fun s => ⟨[],s,r⟩

/-- The error becomes a value; the steps already taken stay. -/
def attempt (m : Action σ ε α) : Action σ ε (Except ε α) := fun s =>
  ⟨(m s).trail,(m s).store,.ok (m s).result⟩

/-- The same run without its value. -/
def void (m : Action σ ε α) : Action σ ε Unit := fun s =>
  ⟨(m s).trail,(m s).store,(m s).result.map fun _ => ()⟩

/-- The same run with its error rendered in another type. -/
def mapFailure {ε' : Type} (f : ε → ε') (m : Action σ ε α) : Action σ ε' α := fun s =>
  ⟨(m s).trail,(m s).store,(m s).result.mapError f⟩

/-- The step is taken and the error is still reported. -/
def stepThenFail (f : σ → σ) (e : ε) : Action σ ε α := fun s => ⟨[f s],f s,.error e⟩

/-- How an attempt to take one step ends; it may report an error although the
step was taken. -/
inductive Publication where
  | done | refused | unconfirmed
  deriving DecidableEq, Repr

def publish (p : Publication) (f : σ → σ) (e : ε) : Action σ ε Unit :=
  match p with
  | .done => step f
  | .refused => fail e
  | .unconfirmed => stepThenFail f e

/-- An action on a part of the state. -/
def zoom (get : σ → τ) (set : τ → σ → σ) (m : Action τ ε α) : Action σ ε α := fun s =>
  ⟨(m (get s)).trail.map fun t => set t s,set (m (get s)).store s,(m (get s)).result⟩

/-- Successive attempts, until one returns; a missing attempt is a timeout. -/
def retry (op : γ → Action σ ε α) (timedOut : ε) : List (Option γ) → Action σ ε α
  | [] => fail timedOut
  | none::_ => fail timedOut
  | some x::xs => do
      match ← attempt (op x) with
      | .ok a => ret a
      | .error e => match xs with
        | [] => fail e
        | _::_ => retry op timedOut xs

end Action

open BackupSync.Interruptible.Action

theorem andThen_ret (m : Action σ ε α) : andThen m ret = m := by
  funext s
  unfold andThen ret
  generalize m s = o
  obtain ⟨trail,store,result⟩ := o
  cases result with
  | error e => rfl
  | ok a => simp

theorem andThen_assoc (m : Action σ ε α) (f : α → Action σ ε β) (g : β → Action σ ε γ) :
    andThen (andThen m f) g = andThen m fun a => andThen (f a) g := by
  funext s
  unfold andThen
  cases (m s).result with
  | error e => rfl
  | ok a =>
      dsimp only
      cases (f a (m s).store).result with
      | error e => rfl
      | ok b => simp

instance : LawfulMonad (Action σ ε) :=
  LawfulMonad.mk' _ (fun m => andThen_ret m) (fun _ _ => rfl) andThen_assoc

/-- A run from s ends with value a in state t. -/
def Returns (m : Action σ ε α) (s : σ) (a : α) (t : σ) : Prop :=
  (m s).result = .ok a ∧ (m s).store = t

section Returned
variable {m : Action σ ε α} {f : α → Action σ ε β} {g : σ → σ} {p : Publication} {c : Bool} {e : ε}
  {r : Except ε α} {s t : σ} {a : α} {b : β}

theorem returns_unique {t' : σ} {a' : α} (h : Returns m s a t)
    (h' : Returns m s a' t') : a = a' ∧ t = t' :=
  ⟨Except.ok.inj (h.1.symm.trans h'.1),h.2.symm.trans h'.2⟩

@[simp] theorem returns_pure {b : α} : Returns (pure a : Action σ ε α) s b t ↔ b = a ∧ t = s := by
  change Except.ok a = Except.ok b ∧ s = t ↔ _
  simp only [Except.ok.injEq,eq_comm]

@[simp] theorem returns_fail : ¬ Returns (fail e : Action σ ε α) s a t := by
  rintro ⟨h,-⟩
  cases h

@[simp] theorem returns_read {b : σ} : Returns (read : Action σ ε σ) s b t ↔ b = s ∧ t = s := by
  change Except.ok s = Except.ok b ∧ s = t ↔ _
  simp only [Except.ok.injEq,eq_comm]

@[simp] theorem returns_step {u : Unit} : Returns (step g : Action σ ε Unit) s u t ↔ t = g s := by
  change Except.ok () = Except.ok u ∧ g s = t ↔ _
  simp only [true_and,eq_comm]

@[simp] theorem returns_check {u : Unit} :
    Returns (check c e : Action σ ε Unit) s u t ↔ c = true ∧ t = s := by
  cases c with
  | false =>
      change Returns (fail e) s u t ↔ _
      simp
  | true =>
      change Returns (pure ()) s u t ↔ _
      simp

@[simp] theorem returns_lift : Returns (lift r : Action σ ε α) s a t ↔ r = .ok a ∧ t = s := by
  change r = .ok a ∧ s = t ↔ _
  simp only [eq_comm]

@[simp] theorem returns_stepThenFail : ¬ Returns (stepThenFail g e : Action σ ε α) s a t := by
  rintro ⟨h,-⟩
  cases h

@[simp] theorem returns_bind {u : σ} :
    Returns (m >>= f) s b u ↔ ∃ a t, Returns m s a t ∧ Returns (f a) t b u := by
  change Returns (andThen m f) s b u ↔ _
  unfold Returns andThen
  cases h : (m s).result with
  | error e => simp
  | ok a => simp

@[simp] theorem returns_publish {u : Unit} :
    Returns (publish p g e : Action σ ε Unit) s u t ↔ p = .done ∧ t = g s := by
  cases p with
  | done => exact returns_step.trans (by simp)
  | refused =>
      refine iff_of_false returns_fail ?_
      rintro ⟨h,-⟩
      cases h
  | unconfirmed =>
      refine iff_of_false returns_stepThenFail ?_
      rintro ⟨h,-⟩
      cases h

theorem returns_read_bind {f : σ → Action σ ε β} :
    Returns (read >>= f) s b t ↔ Returns (f s) s b t := by simp

theorem returns_lift_bind :
    Returns (lift r >>= f) s b t ↔ ∃ a, r = .ok a ∧ Returns (f a) s b t := by simp

theorem returns_check_bind {f : Unit → Action σ ε β} :
    Returns (check c e >>= f) s b t ↔ c = true ∧ Returns (f ()) s b t := by
  simp [Unique.exists_iff]

theorem returns_publish_bind {f : Unit → Action σ ε β} :
    Returns (publish p g e >>= f) s b t ↔ p = .done ∧ Returns (f ()) (g s) b t := by
  simp [Unique.exists_iff]

theorem returns_attempt : Returns (attempt m) s r t ↔ (m s).result = r ∧ (m s).store = t := by
  change Except.ok (m s).result = Except.ok r ∧ (m s).store = t ↔ _
  simp only [Except.ok.injEq]

@[simp] theorem returns_zoom {get : σ → τ} {set : τ → σ → σ} {m : Action τ ε α} :
    Returns (zoom get set m) s a t ↔ ∃ u, Returns m (get s) a u ∧ t = set u s := by
  constructor
  · rintro ⟨hr,ht⟩
    exact ⟨_,⟨hr,rfl⟩,ht.symm⟩
  · rintro ⟨u,⟨hr,rfl⟩,rfl⟩
    exact ⟨hr,rfl⟩

theorem returns_mapFailure {ε' : Type} {f : ε → ε'} :
    Returns (mapFailure f m) s a t ↔ Returns m s a t := by
  unfold Returns mapFailure
  cases (m s).result with
  | error e => simp [Except.mapError]
  | ok b => simp [Except.mapError]

theorem store_bind (h : Returns m s a t) : ((m >>= f) s).store = (f a t).store := by
  obtain ⟨hr,rfl⟩ := h
  change (andThen m f s).store = _
  unfold andThen
  rw [hr]

theorem store_bind_pure (m : Action σ ε α) (f : α → β) (s : σ) :
    ((m >>= fun a => pure (f a)) s).store = (m s).store := by
  change (andThen m (fun a => pure (f a)) s).store = _
  unfold andThen
  cases (m s).result with
  | ok a => rfl
  | error e => rfl

end Returned

section Folds
variable {f : β → γ → Action σ ε β} {xs : List γ} {b b' : β} {s s' : σ}

/-- A returning fold carries an invariant of the items done, the value and the state. -/
theorem returns_foldlM_done (I : List γ → β → σ → Prop)
    (hf : ∀ x ∈ xs, ∀ done b s b' s', I done b s → Returns (f b x) s b' s' → I (done++[x]) b' s')
    {done : List γ} (h : I done b s) (hr : Returns (xs.foldlM f b) s b' s') :
    I (done++xs) b' s' := by
  induction xs generalizing done b s with
  | nil =>
      obtain ⟨rfl,rfl⟩ := returns_pure.mp hr
      rwa [List.append_nil]
  | cons x xs ih =>
      rw [List.foldlM_cons,returns_bind] at hr
      obtain ⟨c,t,hc,ht⟩ := hr
      have hstep := hf x List.mem_cons_self done b s c t h hc
      have hrest := ih (fun y hy => hf y (List.mem_cons_of_mem _ hy)) hstep ht
      rwa [List.append_assoc] at hrest

theorem returns_foldlM (I : β → σ → Prop)
    (hf : ∀ x ∈ xs, ∀ b s b' s', I b s → Returns (f b x) s b' s' → I b' s') (h : I b s)
    (hr : Returns (xs.foldlM f b) s b' s') : I b' s' :=
  @returns_foldlM_done _ _ _ _ _ _ _ _ _ _ (fun _ => I) (fun x hx _ => hf x hx) [] h hr

/-- What each step of a returning fold establishes for its item, and every step keeps, holds
for all items. -/
theorem returns_foldlM_forall {P : γ → σ → Prop}
    (hset : ∀ x ∈ xs, ∀ b s b' s', Returns (f b x) s b' s' → P x s')
    (hkeep : ∀ x ∈ xs, ∀ y b s b' s', P y s → Returns (f b x) s b' s' → P y s')
    (hr : Returns (xs.foldlM f b) s b' s') : ∀ x ∈ xs, P x s' := by
  induction xs generalizing b s with
  | nil => exact nofun
  | cons x xs ih =>
      rw [List.foldlM_cons,returns_bind] at hr
      obtain ⟨c,t,hc,ht⟩ := hr
      intro y hy
      rcases List.mem_cons.mp hy with rfl | hy
      · refine returns_foldlM (fun _ => P y) ?_ (hset y List.mem_cons_self b s c t hc) ht
        intro z hz d u d' u' hP hstep
        exact hkeep z (List.mem_cons_of_mem _ hz) y d u d' u' hP hstep
      · exact ih (fun z hz => hset z (List.mem_cons_of_mem _ hz))
          (fun z hz => hkeep z (List.mem_cons_of_mem _ hz)) ht y hy

end Folds

/-- A run from s ends with error e in state t. -/
def Fails (m : Action σ ε α) (s : σ) (e : ε) (t : σ) : Prop :=
  (m s).result = .error e ∧ (m s).store = t

/-- From P the crash condition C holds after every step; a returned value satisfies Q together with
the final state, and an error satisfies E. -/
def Spec (P : σ → Prop) (m : Action σ ε α) (Q : α → σ → Prop) (E : ε → σ → Prop) (C : σ → Prop) :
    Prop :=
  ∀ s, P s → (∀ t ∈ (m s).trail, C t) ∧
    (∀ a, (m s).result = .ok a → Q a (m s).store) ∧
    (∀ e, (m s).result = .error e → E e (m s).store)

section SpecRules
variable {P C : σ → Prop} {m : Action σ ε α} {Q : α → σ → Prop} {E : ε → σ → Prop} {s t : σ} {a : α}
  {e : ε} {b : Bool} {g : σ → σ} {r : Except ε α} {f : α → Action σ ε β} {k : Unit → Action σ ε α}

theorem Spec.returns (h : Spec P m Q E C) (hs : P s) (hr : Returns m s a t) :
    Q a t := by
  obtain ⟨hok,rfl⟩ := hr
  exact (h s hs).2.1 a hok

theorem Spec.fails (h : Spec P m Q E C) (hs : P s) (hf : Fails m s e t) : E e t := by
  obtain ⟨herr,rfl⟩ := hf
  exact (h s hs).2.2 e herr

theorem Spec.states (h : Spec P m Q E C) (hQ : ∀ a s, Q a s → C s)
    (hE : ∀ e s, E e s → C s) (hs : P s) (ht : t ∈ (m s).states) : C t := by
  obtain ⟨htrail,hok,herr⟩ := h s hs
  rcases List.mem_append.mp ht with ht | ht
  · exact htrail t ht
  · obtain rfl := List.mem_singleton.mp ht
    cases hr : (m s).result with
    | ok a => exact hQ a _ (hok a hr)
    | error e => exact hE e _ (herr e hr)

theorem spec_pure (a : α) (h : ∀ s, P s → Q a s) : Spec P (pure a : Action σ ε α) Q E C := by
  intro s hs
  refine ⟨by simp [pure,ret],?_,?_⟩
  · intro b hb
    cases hb
    exact h s hs
  · intro e he
    cases he

theorem spec_fail (e : ε) (h : ∀ s, P s → E e s) : Spec P (fail e : Action σ ε α) Q E C := by
  intro s hs
  refine ⟨by simp [fail],?_,?_⟩
  · intro b hb
    cases hb
  · intro e' he
    cases he
    exact h s hs

theorem spec_read {Q : σ → σ → Prop} (h : ∀ s, P s → Q s s) :
    Spec P (read : Action σ ε σ) Q E C := by
  intro s hs
  refine ⟨by simp [Action.read],?_,?_⟩
  · intro b hb
    cases hb
    exact h s hs
  · intro e he
    cases he

theorem spec_step {Q : Unit → σ → Prop} (h : ∀ s, P s → Q () (g s) ∧ C (g s)) :
    Spec P (step g : Action σ ε Unit) Q E C := by
  intro s hs
  refine ⟨?_,?_,?_⟩
  · intro t ht
    obtain rfl : t = g s := by simpa [step] using ht
    exact (h s hs).2
  · intro b hb
    cases hb
    exact (h s hs).1
  · intro e he
    cases he

theorem spec_stepThenFail (h : ∀ s, P s → E e (g s) ∧ C (g s)) :
    Spec P (stepThenFail g e : Action σ ε α) Q E C := by
  intro s hs
  refine ⟨?_,?_,?_⟩
  · intro t ht
    obtain rfl : t = g s := by simpa [stepThenFail] using ht
    exact (h s hs).2
  · intro b hb
    cases hb
  · intro e' he
    cases he
    exact (h s hs).1

theorem spec_lift (h : ∀ a, r = .ok a → ∀ s, P s → Q a s)
    (he : ∀ e, r = .error e → ∀ s, P s → E e s) : Spec P (lift r : Action σ ε α) Q E C := by
  intro s hs
  refine ⟨by simp [lift],?_,?_⟩
  · intro a ha
    exact h a ha s hs
  · intro e hr
    exact he e hr s hs

theorem spec_check {Q : Unit → σ → Prop} (h : b = true → ∀ s, P s → Q () s)
    (he : ∀ s, P s → E e s) : Spec P (check b e : Action σ ε Unit) Q E C := by
  cases b with
  | false => exact spec_fail e he
  | true => exact spec_pure () (h rfl)

theorem spec_bind {R : α → σ → Prop} {Q : β → σ → Prop}
    (hm : Spec P m R E C) (hf : ∀ a, Spec (R a) (f a) Q E C) : Spec P (m >>= f) Q E C := by
  intro s hs
  obtain ⟨ht,ho,he⟩ := hm s hs
  have hb : (m >>= f) s = andThen m f s := rfl
  rw [hb]
  unfold andThen
  cases h : (m s).result with
  | error e =>
      refine ⟨ht,?_,?_⟩
      · intro b hb
        cases hb
      · intro e' he'
        cases he'
        exact he e h
  | ok a =>
      obtain ⟨ht',ho',he'⟩ := hf a (m s).store (ho a h)
      refine ⟨?_,ho',he'⟩
      intro t hmem
      rcases List.mem_append.mp hmem with hl | hr
      · exact ht t hl
      · exact ht' t hr

theorem spec_conseq {P' C' : σ → Prop} {Q' : α → σ → Prop} {E' : ε → σ → Prop} (h : Spec P m Q E C)
    (hP : ∀ s, P' s → P s) (hQ : ∀ a s, Q a s → Q' a s) (hE : ∀ e s, E e s → E' e s)
    (hC : ∀ s, C s → C' s) : Spec P' m Q' E' C' := by
  intro s hs
  obtain ⟨ht,ho,he⟩ := h s (hP s hs)
  exact ⟨fun t hmem => hC t (ht t hmem),fun a ha => hQ a _ (ho a ha),fun e hr => hE e _ (he e hr)⟩

theorem spec_post {Q' : α → σ → Prop} (h : Spec P m Q E C) (hQ : ∀ a s, Q a s → Q' a s) :
    Spec P m Q' E C := spec_conseq h (fun _ hs => hs) hQ (fun _ _ hs => hs) fun _ hs => hs

/-- A check fails only where its test does. -/
theorem spec_check_cases (he : b = false → ∀ s, P s → E e s) (h : b = true → Spec P (k ()) Q E C) :
    Spec P (check b e >>= k) Q E C := by
  cases b with
  | false => exact spec_bind (spec_fail e (he rfl)) (R := fun _ _ => False) fun _ _ hs => hs.elim
  | true => exact spec_bind (spec_pure () fun _ hs => hs) (R := fun _ => P) fun _ => h rfl

theorem spec_check_bind (he : ∀ s, P s → E e s) (h : b = true → Spec P (k ()) Q E C) :
    Spec P (check b e >>= k) Q E C :=
  spec_check_cases (fun _ => he) h

theorem spec_lift_bind {Q : β → σ → Prop} (he : ∀ e, r = .error e → ∀ s, P s → E e s)
    (h : ∀ a, r = .ok a → Spec P (f a) Q E C) :
    Spec P (lift r >>= f) Q E C := by
  refine spec_bind (R := fun a s => r = .ok a ∧ P s) (spec_lift (fun a ha s hs => ⟨ha,hs⟩) he) ?_
  intro a s hs
  exact h a hs.1 s hs.2

/-- The state read is known while the following action starts from it. -/
theorem spec_read_bind {f : σ → Action σ ε α}
    (h : ∀ s, P s → Spec (fun t => t = s ∧ P t) (f s) Q E C) : Spec P (read >>= f) Q E C := by
  refine spec_bind (R := fun a s => s = a ∧ P s) (spec_read fun s hs => ⟨rfl,hs⟩) ?_
  intro a s hs
  exact h a (hs.1 ▸ hs.2) s hs

theorem spec_attempt {Q : Except ε α → σ → Prop} {E' : ε → σ → Prop}
    (h : Spec P m (fun a s => Q (.ok a) s) (fun e s => Q (.error e) s) C) :
    Spec P (attempt m) Q E' C := by
  intro s hs
  obtain ⟨ht,ho,herr⟩ := h s hs
  refine ⟨ht,?_,?_⟩
  · intro r hr
    obtain rfl : (m s).result = r := by simpa [attempt] using hr
    cases hm : (m s).result with
    | ok a => exact ho a hm
    | error e => exact herr e hm
  · intro e hr
    simp [attempt] at hr

/-- The two ways on after an attempt. -/
theorem spec_attempt_bind {f : Except ε α → Action σ ε β} {Q' : β → σ → Prop} {E' : ε → σ → Prop}
    (h : Spec P m Q E C) (hok : ∀ a, Spec (Q a) (f (.ok a)) Q' E' C)
    (herr : ∀ e, Spec (E e) (f (.error e)) Q' E' C) : Spec P (attempt m >>= f) Q' E' C := by
  refine spec_bind (R := fun r s => (∃ a, r = .ok a ∧ Q a s) ∨ ∃ e, r = .error e ∧ E e s)
    (spec_attempt (spec_conseq h (fun _ hs => hs) ?_ ?_ fun _ hs => hs)) fun r s hs => ?_
  · exact fun a s hs => .inl ⟨a,rfl,hs⟩
  · exact fun e s hs => .inr ⟨e,rfl,hs⟩
  · rcases hs with ⟨a,rfl,hs⟩ | ⟨e,rfl,hs⟩
    · exact hok a s hs
    · exact herr e s hs

theorem spec_of_false (h : ∀ s, ¬ P s) : Spec P m Q E C := fun s hs => absurd hs (h s)

/-- The precondition may be read state by state. -/
theorem spec_forall (h : ∀ s, P s → Spec (fun t => t = s) m Q E C) : Spec P m Q E C := by
  intro s hs
  exact h s hs s rfl

theorem spec_pre {P' : σ → Prop} (h : Spec P m Q E C) (hP : ∀ s, P' s → P s) : Spec P' m Q E C :=
  fun s hs => h s (hP s hs)

/-- A part of the precondition that is not about the state. -/
theorem spec_fact {φ : Prop} (h : φ → Spec P m Q E C) : Spec (fun s => P s ∧ φ) m Q E C :=
  fun s hs => h hs.2 s hs.1

/-- What is known of any action from a given state. -/
theorem spec_returns (m : Action σ ε α) (s : σ) :
    Spec (fun t => t = s) m (Returns m s) (Fails m s) fun _ => True := by
  rintro _ rfl
  exact ⟨fun _ _ => trivial,fun a ha => ⟨ha,rfl⟩,fun e he => ⟨he,rfl⟩⟩

/-- From one state, what holds after a return holds beside the return itself. -/
theorem Spec.remember (h : Spec P m Q E C) (hs : P s) :
    Spec (fun t => t = s) m (fun a t => Returns m s a t ∧ Q a t) E C := by
  intro t ht
  rw [ht]
  obtain ⟨htrail,hok,herr⟩ := h s hs
  exact ⟨htrail,fun a ha => ⟨⟨ha,rfl⟩,hok a ha⟩,herr⟩

theorem spec_zoom (get : τ → σ) (set : σ → τ → τ) {s : τ} (h : Spec P m Q E C) (hs : P (get s)) :
    Spec (fun t => t = s) (zoom get set m) (fun a t => ∃ u, t = set u s ∧ Q a u)
      (fun e t => ∃ u, t = set u s ∧ E e u) fun t => ∃ u, t = set u s ∧ C u := by
  rintro _ rfl
  obtain ⟨htrail,hok,herr⟩ := h _ hs
  refine ⟨?_,?_,?_⟩
  · intro t ht
    obtain ⟨u,hu,rfl⟩ := List.mem_map.mp ht
    exact ⟨u,rfl,htrail u hu⟩
  · intro a ha
    exact ⟨_,rfl,hok a ha⟩
  · intro e he
    exact ⟨_,rfl,herr e he⟩

theorem spec_mapFailure {ε' : Type} {f : ε → ε'} {E' : ε' → σ → Prop}
    (h : Spec P m Q (fun e s => E' (f e) s) C) : Spec P (mapFailure f m) Q E' C := by
  intro s hs
  obtain ⟨htrail,hok,herr⟩ := h s hs
  refine ⟨htrail,?_,?_⟩
  · intro a ha
    apply hok
    cases hr : (m s).result with
    | ok b => simpa [mapFailure,hr,Except.mapError] using ha
    | error e => simp [mapFailure,hr,Except.mapError] at ha
  · intro e' he'
    cases hr : (m s).result with
    | ok b => simp [mapFailure,hr,Except.mapError] at he'
    | error e =>
        obtain rfl : f e = e' := by simpa [mapFailure,hr,Except.mapError] using he'
        exact herr e hr

/-- A fold keeps an invariant of the items done, each of which is met at its own position. -/
theorem spec_foldlM_split {f : β → γ → Action σ ε β} (I : List γ → β → σ → Prop) {xs : List γ}
    (hf : ∀ done x rest, xs = done++x::rest → ∀ b, Spec (I done b) (f b x) (I (done++[x])) E C)
    (b : β) : Spec (I [] b) (xs.foldlM f b) (I xs) E C := by
  suffices h : ∀ (rest done : List γ) (b : β), xs = done++rest →
      Spec (I done b) (rest.foldlM f b) (I xs) E C from h xs [] b rfl
  intro rest
  induction rest with
  | nil =>
      intro done b hxs
      rw [List.append_nil] at hxs
      exact spec_pure b fun _ h => hxs ▸ h
  | cons x rest ih =>
      intro done b hxs
      rw [List.foldlM_cons]
      refine spec_bind (hf done x rest hxs b) fun c => ?_
      apply ih
      rw [hxs,List.append_assoc,List.singleton_append]

/-- A fold keeps an invariant of the items done. -/
theorem spec_foldlM {f : β → γ → Action σ ε β} (I : List γ → β → σ → Prop) {xs : List γ}
    (hf : ∀ x ∈ xs, ∀ done b, Spec (I done b) (f b x) (I (done++[x])) E C) (done : List γ) (b : β) :
    Spec (I done b) (xs.foldlM f b) (I (done++xs)) E C := by
  have hfold : Spec (I (done++[]) b) (xs.foldlM f b) (I (done++xs)) E C := by
    apply spec_foldlM_split fun front => I (done++front)
    intro front x rest hxs b
    rw [← List.append_assoc]
    apply hf
    simp [hxs]
  rwa [List.append_nil] at hfold

/-- A fold whose steps each establish a fact about their item. -/
theorem spec_foldlM_forall {f : β → γ → Action σ ε β} {φ : γ → Prop} {xs : List γ}
    (hf : ∀ x ∈ xs, ∀ b, Spec P (f b x) (fun _ s => P s ∧ φ x) E C) (b : β) :
    Spec P (xs.foldlM f b) (fun _ s => P s ∧ ∀ x ∈ xs, φ x) E C := by
  have hnil : ∀ x ∈ ([] : List γ), φ x := by simp
  refine spec_pre (spec_foldlM (fun done _ s => P s ∧ ∀ x ∈ done, φ x) ?_ [] b) fun s hs => ⟨hs,hnil⟩
  intro x hx done b
  refine spec_fact fun hdone => ?_
  refine spec_conseq (hf x hx b) (fun _ h => h) ?_ (fun _ _ h => h) fun _ h => h
  rintro _ s ⟨hs,hφ⟩
  refine ⟨hs,?_⟩
  intro y hy
  rcases List.mem_append.mp hy with hy | hy
  · exact hdone y hy
  · obtain rfl := List.mem_singleton.mp hy
    exact hφ

end SpecRules

/-- The crash condition holds after an error too. -/
def Triple (P : σ → Prop) (m : Action σ ε α) (Q : α → σ → Prop) (C : σ → Prop) : Prop :=
  Spec P m Q (fun _ => C) C

section Rules
variable {P C : σ → Prop} {m : Action σ ε α} {Q : α → σ → Prop} {s t : σ} {e : ε} {b : Bool} {g : σ → σ}
  {f : α → Action σ ε β} {k : Unit → Action σ ε α}

theorem Triple.returns {a : α} (h : Triple P m Q C) (hs : P s) (hr : Returns m s a t) :
    Q a t := Spec.returns h hs hr

theorem Triple.states (h : Triple P m Q C) (hQ : ∀ a s, Q a s → C s) (hs : P s)
    (ht : t ∈ (m s).states) : C t := Spec.states h hQ (fun _ _ hc => hc) hs ht

theorem triple_pure (a : α) (h : ∀ s, P s → Q a s) :
    Triple P (pure a : Action σ ε α) Q C := spec_pure a h

theorem triple_fail (e : ε) (h : ∀ s, P s → C s) :
    Triple P (fail e : Action σ ε α) Q C := spec_fail e h

theorem triple_step {Q : Unit → σ → Prop} (h : ∀ s, P s → Q () (g s) ∧ C (g s)) :
    Triple P (step g : Action σ ε Unit) Q C := spec_step h

theorem triple_stepThenFail (h : ∀ s, P s → C (g s)) :
    Triple P (stepThenFail g e : Action σ ε α) Q C := spec_stepThenFail fun s hs => ⟨h s hs,h s hs⟩

theorem triple_publish {p : Publication} {Q : Unit → σ → Prop}
    (h : ∀ s, P s → Q () (g s) ∧ C (g s)) (hc : ∀ s, P s → C s) :
    Triple P (publish p g e : Action σ ε Unit) Q C := by
  cases p with
  | done => exact triple_step h
  | refused => exact triple_fail e hc
  | unconfirmed => exact triple_stepThenFail fun s hs => (h s hs).2

theorem triple_check {Q : Unit → σ → Prop} (h : b = true → ∀ s, P s → Q () s) (hc : ∀ s, P s → C s) :
    Triple P (check b e : Action σ ε Unit) Q C := spec_check h hc

theorem triple_bind {R : α → σ → Prop} {Q : β → σ → Prop}
    (hm : Triple P m R C) (hf : ∀ a, Triple (R a) (f a) Q C) : Triple P (m >>= f) Q C :=
  spec_bind hm hf

theorem triple_check_bind (hc : ∀ s, P s → C s) (h : b = true → Triple P (k ()) Q C) :
    Triple P (check b e >>= k) Q C := spec_check_bind hc h

theorem triple_lift_bind {r : Except ε α} {Q : β → σ → Prop} (hc : ∀ s, P s → C s)
    (h : ∀ a, r = .ok a → Triple P (f a) Q C) :
    Triple P (lift r >>= f) Q C := spec_lift_bind (fun _ _ => hc) h

theorem triple_read_bind {f : σ → Action σ ε α}
    (h : ∀ s, P s → Triple (fun t => t = s ∧ P t) (f s) Q C) : Triple P (read >>= f) Q C :=
  spec_read_bind h

theorem triple_attempt {Q : Except ε α → σ → Prop}
    (h : Triple P m (fun a s => Q (.ok a) s) C) (he : ∀ e s, C s → Q (.error e) s) :
    Triple P (attempt m) Q C :=
  spec_attempt (spec_conseq h (fun _ hs => hs) (fun _ _ hs => hs) he fun _ hs => hs)

theorem triple_conseq {P' C' : σ → Prop} {Q' : α → σ → Prop} (h : Triple P m Q C)
    (hP : ∀ s, P' s → P s) (hQ : ∀ a s, Q a s → Q' a s) (hC : ∀ s, C s → C' s) :
    Triple P' m Q' C' := spec_conseq h hP hQ (fun _ => hC) hC

theorem triple_post {Q' : α → σ → Prop} (h : Triple P m Q C) (hQ : ∀ a s, Q a s → Q' a s) :
    Triple P m Q' C := spec_post h hQ

/-- The states of a run from one state, as a triple. -/
theorem triple_of_states (h : ∀ t ∈ (m s).states, C t) :
    Triple (fun t => t = s) m (fun _ => C) C := by
  rintro _ rfl
  have hstore : C (m _).store := h _ (List.mem_append_right _ (List.mem_singleton_self _))
  exact ⟨fun t ht => h t (List.mem_append_left _ ht),fun _ _ => hstore,fun _ _ => hstore⟩

theorem triple_forall (h : ∀ s, P s → Triple (fun t => t = s) m Q C) : Triple P m Q C := spec_forall h

/-- What each attempt keeps, all of them keep. -/
theorem triple_retry {op : γ → Action σ ε α} {timedOut : ε} (hop : ∀ x, Triple C (op x) Q C)
    (xs : List (Option γ)) : Triple C (retry op timedOut xs) Q C := by
  induction xs with
  | nil => exact triple_fail timedOut fun _ hs => hs
  | cons x xs ih =>
      cases x with
      | none => exact triple_fail timedOut fun _ hs => hs
      | some x =>
          refine triple_bind (R := fun r s => match r with
            | .ok a => Q a s
            | .error _ => C s) (triple_attempt (hop x) fun _ _ hs => hs) ?_
          rintro (e | a)
          · cases xs with
            | nil => exact triple_fail e fun _ hs => hs
            | cons y xs => exact ih
          · exact triple_pure a fun s hs => hs

/-- A fold keeps an invariant that may depend on the items still to come. -/
theorem triple_foldlM {f : β → γ → Action σ ε β} (I : List γ → β → σ → Prop)
    (hf : ∀ x xs b, Triple (I (x::xs) b) (f b x) (I xs) C) (xs : List γ) (b : β) :
    Triple (I xs b) (xs.foldlM f b) (I []) C := by
  induction xs generalizing b with
  | nil => exact triple_pure b fun _ h => h
  | cons x xs ih =>
      rw [List.foldlM_cons]
      exact triple_bind (hf x xs b) ih

end Rules

/-- From P the action returns, with a value and a state that satisfy Q. -/
def Runs (P : σ → Prop) (m : Action σ ε α) (Q : α → σ → Prop) : Prop :=
  ∀ s, P s → ∃ a t, Returns m s a t ∧ Q a t

section RunsRules
variable {P : σ → Prop} {m : Action σ ε α} {Q : α → σ → Prop}

theorem runs_pure (a : α) (h : ∀ s, P s → Q a s) : Runs P (pure a : Action σ ε α) Q :=
  fun s hs => ⟨a,s,returns_pure.mpr ⟨rfl,rfl⟩,h s hs⟩

theorem runs_step {f : σ → σ} {Q : Unit → σ → Prop} (h : ∀ s, P s → Q () (f s)) :
    Runs P (step f : Action σ ε Unit) Q :=
  fun s hs => ⟨(),f s,returns_step.mpr rfl,h s hs⟩

theorem runs_bind {f : α → Action σ ε β} {R : α → σ → Prop} {Q : β → σ → Prop}
    (hm : Runs P m R) (hf : ∀ a, Runs (R a) (f a) Q) : Runs P (m >>= f) Q := by
  intro s hs
  obtain ⟨a,t,hr,hR⟩ := hm s hs
  obtain ⟨b,u,hr',hQ⟩ := hf a t hR
  exact ⟨b,u,returns_bind.mpr ⟨a,t,hr,hr'⟩,hQ⟩

theorem runs_read_bind {f : σ → Action σ ε α}
    (h : ∀ s, P s → Runs (fun t => t = s) (f s) Q) : Runs P (read >>= f) Q := by
  intro s hs
  obtain ⟨a,t,hr,hQ⟩ := h s hs s rfl
  exact ⟨a,t,returns_read_bind.mpr hr,hQ⟩

theorem runs_lift_bind {r : Except ε α} {f : α → Action σ ε β} {Q : β → σ → Prop} {a : α}
    (hr : r = .ok a) (h : Runs P (f a) Q) : Runs P (lift r >>= f) Q := by
  intro s hs
  obtain ⟨b,t,hb,hQ⟩ := h s hs
  exact ⟨b,t,returns_lift_bind.mpr ⟨a,hr,hb⟩,hQ⟩

theorem runs_check_bind {b : Bool} {e : ε} {f : Unit → Action σ ε α} (hb : b = true)
    (h : Runs P (f ()) Q) : Runs P (check b e >>= f) Q := by
  intro s hs
  obtain ⟨a,t,ha,hQ⟩ := h s hs
  exact ⟨a,t,returns_check_bind.mpr ⟨hb,ha⟩,hQ⟩

theorem runs_conseq {P' : σ → Prop} {Q' : α → σ → Prop} (h : Runs P m Q) (hP : ∀ s, P' s → P s)
    (hQ : ∀ a s, Q a s → Q' a s) : Runs P' m Q' := by
  intro s hs
  obtain ⟨a,t,hr,ht⟩ := h s (hP s hs)
  exact ⟨a,t,hr,hQ a t ht⟩

theorem Runs.attempt (h : Runs P m Q) :
    Runs P (attempt m) fun r t => ∃ a, r = .ok a ∧ Q a t := by
  intro s hs
  obtain ⟨a,t,hr,hQ⟩ := h s hs
  exact ⟨.ok a,t,returns_attempt.mpr hr,a,rfl,hQ⟩

theorem Runs.zoom {get : τ → σ} {set : σ → τ → τ} {s : τ} (h : Runs P m Q) (hs : P (get s)) :
    Runs (fun t => t = s) (zoom get set m) fun a t => ∃ u, t = set u s ∧ Q a u := by
  rintro _ rfl
  obtain ⟨a,u,hr,hQ⟩ := h _ hs
  exact ⟨a,_,returns_zoom.mpr ⟨u,hr,rfl⟩,u,rfl,hQ⟩

/-- The first attempt of a sequence is enough. -/
theorem runs_retry {op : γ → Action σ ε α} {timedOut : ε} {x : γ} {xs : List (Option γ)}
    (h : Runs P (op x) Q) : Runs P (retry op timedOut (some x::xs)) Q := by
  refine runs_bind h.attempt ?_
  rintro r s ⟨a,rfl,hQ⟩
  exact ⟨a,s,returns_pure.mpr ⟨rfl,rfl⟩,hQ⟩

end RunsRules

/-- One invariant before, after and between the steps. -/
def Keeps (I : σ → Prop) (m : Action σ ε α) : Prop := Triple I m (fun _ => I) I

section KeepsRules
variable {I : σ → Prop} {m : Action σ ε α} {s t : σ} {e : ε} {b : Bool} {g : σ → σ}

theorem Keeps.void (h : Keeps I m) : Keeps I (void m) := by
  intro s hs
  obtain ⟨ht,hok,herr⟩ := h s hs
  refine ⟨ht,?_,?_⟩
  · intro _ hr
    cases hm : (m s).result with
    | ok a => exact hok a hm
    | error e => exact herr e hm
  · intro _ hr
    cases hm : (m s).result with
    | ok a => exact hok a hm
    | error e => exact herr e hm

theorem Keeps.store (h : Keeps I m) (hs : I s) : I (m s).store := by
  obtain ⟨-,hok,herr⟩ := h s hs
  cases hr : (m s).result with
  | ok a => exact hok a hr
  | error e => exact herr e hr

theorem Keeps.states (h : Keeps I m) (hs : I s) (ht : t ∈ (m s).states) : I t :=
  Triple.states h (fun _ _ h => h) hs ht

theorem keeps_pure (a : α) : Keeps I (pure a : Action σ ε α) := triple_pure a fun _ h => h

theorem keeps_step (h : ∀ s, I s → I (g s)) : Keeps I (step g : Action σ ε Unit) :=
  triple_step fun s hs => ⟨h s hs,h s hs⟩

theorem keeps_publish {p : Publication} (h : ∀ s, I s → I (g s)) :
    Keeps I (publish p g e : Action σ ε Unit) :=
  triple_publish (fun s hs => ⟨h s hs,h s hs⟩) fun _ hs => hs

theorem keeps_bind {f : α → Action σ ε β} (hm : Keeps I m) (hf : ∀ a, Keeps I (f a)) :
    Keeps I (m >>= f) := triple_bind hm hf

theorem keeps_read_bind {f : σ → Action σ ε α} (h : ∀ s, Keeps I (f s)) :
    Keeps I (read >>= f) := by
  refine triple_read_bind fun s _ => ?_
  exact triple_conseq (h s) (fun _ ht => ht.2) (fun _ _ ht => ht) fun _ ht => ht

theorem keeps_lift_bind {r : Except ε α} {f : α → Action σ ε β}
    (h : ∀ a, r = .ok a → Keeps I (f a)) : Keeps I (lift r >>= f) :=
  triple_lift_bind (fun _ hs => hs) h

theorem keeps_check_bind {f : Unit → Action σ ε α}
    (h : b = true → Keeps I (f ())) : Keeps I (check b e >>= f) :=
  triple_check_bind (fun _ hs => hs) h

theorem keeps_check : Keeps I (check b e : Action σ ε Unit) :=
  triple_check (fun _ _ hs => hs) fun _ hs => hs

theorem keeps_foldlM_mem {f : β → γ → Action σ ε β} {xs : List γ}
    (h : ∀ b, ∀ x ∈ xs, Keeps I (f b x)) (b : β) : Keeps I (xs.foldlM f b) := by
  induction xs generalizing b with
  | nil => exact keeps_pure b
  | cons x xs ih =>
      rw [List.foldlM_cons]
      exact keeps_bind (h b x List.mem_cons_self) (ih fun c y hy => h c y (List.mem_cons_of_mem _ hy))

theorem keeps_foldlM {f : β → γ → Action σ ε β} (h : ∀ b x, Keeps I (f b x)) (xs : List γ) (b : β) :
    Keeps I (xs.foldlM f b) := keeps_foldlM_mem (fun b x _ => h b x) b

theorem Keeps.attempt (h : Keeps I m) : Keeps I (attempt m) := by
  have htriple : Triple I m (fun _ => I) I := h
  exact triple_attempt (Q := fun _ => I) htriple fun _ _ hs => hs

theorem Keeps.and {J : σ → Prop} (hI : Keeps I m) (hJ : Keeps J m) :
    Keeps (fun s => I s ∧ J s) m := by
  intro s hs
  obtain ⟨hi,hiok,hierr⟩ := hI s hs.1
  obtain ⟨hj,hjok,hjerr⟩ := hJ s hs.2
  exact ⟨fun t ht => ⟨hi t ht,hj t ht⟩,fun a ha => ⟨hiok a ha,hjok a ha⟩,
    fun e he => ⟨hierr e he,hjerr e he⟩⟩

theorem Keeps.mapFailure {ε' : Type} {f : ε → ε'} (h : Keeps I m) :
    Keeps I (Action.mapFailure f m) := by
  intro s hs
  have hstore : I (Action.mapFailure f m s).store := h.store hs
  exact ⟨(h s hs).1,fun _ _ => hstore,fun _ _ => hstore⟩

/-- An action on a part keeps what the part and the rest allow it to. -/
theorem Keeps.zoom {J : τ → Prop} {get : τ → σ} {set : σ → τ → τ} (h : Keeps I m)
    (hget : ∀ s, J s → I (get s)) (hset : ∀ s u, J s → I u → J (set u s)) :
    Keeps J (Action.zoom get set m) := by
  apply spec_forall
  intro s hs
  refine spec_conseq (spec_zoom get set h (hget s hs)) (fun _ ht => ht) ?_ ?_ ?_
  · rintro a t ⟨u,rfl,hu⟩
    exact hset s u hs hu
  · rintro e t ⟨u,rfl,hu⟩
    exact hset s u hs hu
  · rintro t ⟨u,rfl,hu⟩
    exact hset s u hs hu

end KeepsRules

/-- Runs of a family of actions, each complete or cut after any of its steps. -/
inductive Reachable {ι : Type} (start : σ) (call : ι → Action σ ε α) : σ → Prop
  | start : Reachable start call start
  | call {s t : σ} (i : ι) : Reachable start call s → t ∈ (call i s).states →
      Reachable start call t

theorem Reachable.invariant {ι : Type} {start : σ} {call : ι → Action σ ε α} {I : σ → Prop}
    (h₀ : I start) (hcall : ∀ i, Keeps I (call i)) {s : σ}
    (h : Reachable start call s) : I s := by
  induction h with
  | start => exact h₀
  | call i _ ht ih => exact (hcall i).states ih ht

end BackupSync.Interruptible
