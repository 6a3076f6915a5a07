import Mathlib

/-!
# Sequences of checks

A check ends with unit or with the error of the first condition that fails.
These rules read a passed sequence back as the conjunction of its conditions.
-/
namespace BackupSync.Checks

variable {α β ε : Type}

def require (b : Bool) (e : ε) : Except ε Unit := if b then .ok () else .error e

@[simp] theorem require_eq_ok {b : Bool} {e : ε} : require b e = .ok () ↔ b = true := by
  cases b <;> simp [require]

theorem require_eq_error {b : Bool} {e e' : ε} : require b e = .error e' ↔ b = false ∧ e = e' := by
  cases b <;> simp [require]

def orElse (o : Option α) (e : ε) : Except ε α :=
  match o with
  | some a => .ok a
  | none => .error e

@[simp] theorem orElse_eq_ok {o : Option α} {e : ε} {a : α} : orElse o e = .ok a ↔ o = some a := by
  cases o <;> simp [orElse]

theorem orElse_eq_error {o : Option α} {e e' : ε} : orElse o e = .error e' ↔ o = none ∧ e = e' := by
  cases o <;> simp [orElse]

variable {x : Except ε α}

@[simp] theorem mapError_eq_ok {ε' : Type} {f : ε → ε'} {a : α} :
    x.mapError f = .ok a ↔ x = .ok a := by
  cases x <;> simp [Except.mapError]

theorem mapError_eq_error {ε' : Type} {f : ε → ε'} {e' : ε'} :
    x.mapError f = .error e' ↔ ∃ e, x = .error e ∧ f e = e' := by
  cases x <;> simp [Except.mapError]

variable {f : α → Except ε β}

theorem bind_eq_ok {b : β} : (x >>= f) = .ok b ↔ ∃ a, x = .ok a ∧ f a = .ok b := by
  constructor
  · intro h
    obtain e | a := x
    · cases h
    · exact ⟨a,rfl,h⟩
  · rintro ⟨a,rfl,h⟩
    exact h

theorem bind_eq_error {e : ε} :
    (x >>= f) = .error e ↔ x = .error e ∨ ∃ a, x = .ok a ∧ f a = .error e := by
  cases x with
  | error e' => simp [bind,Except.bind]
  | ok a => simp [bind,Except.bind]

theorem map_eq_ok {f : α → β} {b : β} : f <$> x = .ok b ↔ ∃ a, x = .ok a ∧ f a = b := by
  cases x with
  | error e => simp
  | ok a => simp

theorem map_eq_error {f : α → β} {e : ε} : f <$> x = .error e ↔ x = .error e := by
  cases x with
  | error e' => simp
  | ok a => simp

@[simp] theorem then_eq_ok {x : Except ε Unit} {y : Except ε β} {b : β} :
    (do x; y) = .ok b ↔ x = .ok () ∧ y = .ok b := by
  rw [bind_eq_ok]
  constructor
  · rintro ⟨⟨⟩,hx,hy⟩
    exact ⟨hx,hy⟩
  · rintro ⟨hx,hy⟩
    exact ⟨(),hx,hy⟩

variable {xs : List α}

/-- A loop of checks passes when every check passes. -/
theorem forM_eq_ok {f : α → Except ε Unit} : xs.forM f = .ok () ↔ ∀ x ∈ xs, f x = .ok () := by
  induction xs with
  | nil => simp [pure,Except.pure]
  | cons x xs ih =>
      change (do f x; xs.forM f) = _ ↔ _
      rw [then_eq_ok,List.forall_mem_cons,ih]

theorem forall₂_of_mapM_eq_ok {ys : List β} (h : xs.mapM f = .ok ys) :
    List.Forall₂ (fun x y => f x = .ok y) xs ys := by
  induction xs generalizing ys with
  | nil =>
      cases h
      exact .nil
  | cons x xs ih =>
      rw [List.mapM_cons] at h
      obtain ⟨y,hy,h⟩ := bind_eq_ok.mp h
      obtain ⟨ys',hys,h⟩ := bind_eq_ok.mp h
      cases h
      exact .cons hy (ih hys)

theorem exists_of_mapM_eq_ok {ys : List β} (h : xs.mapM f = .ok ys) {x : α} (hx : x ∈ xs) :
    ∃ y ∈ ys, f x = .ok y := by
  replace h := forall₂_of_mapM_eq_ok h
  induction h with
  | nil => cases hx
  | cons hfirst _ ih =>
      rcases List.mem_cons.mp hx with rfl | hx
      · exact ⟨_,List.mem_cons_self,hfirst⟩
      · obtain ⟨w,hw,hfw⟩ := ih hx
        exact ⟨w,List.mem_cons_of_mem _ hw,hfw⟩

theorem exists_of_mem_mapM_eq_ok {ys : List β} (h : xs.mapM f = .ok ys) {y : β} (hy : y ∈ ys) :
    ∃ x ∈ xs, f x = .ok y := by
  replace h := forall₂_of_mapM_eq_ok h
  induction h with
  | nil => cases hy
  | cons hfirst _ ih =>
      rcases List.mem_cons.mp hy with rfl | hy
      · exact ⟨_,List.mem_cons_self,hfirst⟩
      · obtain ⟨x,hx,hfx⟩ := ih hy
        exact ⟨x,List.mem_cons_of_mem _ hx,hfx⟩

theorem mapM_ok_iff : (∃ ys, xs.mapM f = .ok ys) ↔ ∀ x ∈ xs, ∃ y, f x = .ok y := by
  induction xs with
  | nil => simp [pure,Except.pure]
  | cons x xs ih =>
      rw [List.forall_mem_cons,← ih,List.mapM_cons]
      constructor
      · rintro ⟨ys,h⟩
        obtain ⟨y,hy,h⟩ := bind_eq_ok.mp h
        obtain ⟨ys',hys,-⟩ := bind_eq_ok.mp h
        exact ⟨⟨y,hy⟩,ys',hys⟩
      · rintro ⟨⟨y,hy⟩,ys,hys⟩
        exact ⟨y::ys,bind_eq_ok.mpr ⟨y,hy,bind_eq_ok.mpr ⟨ys,hys,rfl⟩⟩⟩

/-- The concatenated values of a sequence of computations that all succeed. -/
def gather (f : α → Except ε (List β)) : List α → Except ε (List β)
  | [] => .ok []
  | x::xs => do
      let y ← f x
      let ys ← gather f xs
      return y++ys

theorem mem_gather {f : α → Except ε (List β)} {r : List β} (h : gather f xs = .ok r) (b : β) :
    b ∈ r ↔ ∃ x ∈ xs, ∃ y, f x = .ok y ∧ b ∈ y := by
  induction xs generalizing r with
  | nil =>
      cases h
      simp
  | cons x xs ih =>
      obtain ⟨y,hy,h⟩ := bind_eq_ok.mp h
      obtain ⟨ys,hys,h⟩ := bind_eq_ok.mp h
      cases h
      rw [List.mem_append,ih hys]
      simp [hy]

theorem gather_ok_of_mem {f : α → Except ε (List β)} {r : List β} (h : gather f xs = .ok r) {x : α}
    (hx : x ∈ xs) : ∃ y, f x = .ok y := by
  induction xs generalizing r with
  | nil => cases hx
  | cons z xs ih =>
      obtain ⟨y,hy,h⟩ := bind_eq_ok.mp h
      obtain ⟨ys,hys,-⟩ := bind_eq_ok.mp h
      rcases List.mem_cons.mp hx with rfl | hx
      · exact ⟨y,hy⟩
      · exact ih hys hx

section Loops
variable {P : β → Prop} {Q : α → Prop} {xs : List α} {b r : β}

/-- What each round of a loop adds is there at the end. -/
theorem foldl_accumulates {f : β → α → β} (h : ∀ b x, P (f b x) ↔ P b ∨ Q x) (xs : List α) (b : β) :
    P (xs.foldl f b) ↔ P b ∨ ∃ x ∈ xs, Q x := by
  induction xs generalizing b with
  | nil => simp
  | cons x xs ih =>
      rw [List.foldl_cons,ih,h]
      simp [or_assoc]

variable {f : β → α → Except ε β}

theorem foldlM_cons_eq_ok {x : α} :
    (x::xs).foldlM f b = .ok r ↔ ∃ b', f b x = .ok b' ∧ xs.foldlM f b' = .ok r := by
  rw [List.foldlM_cons]
  exact bind_eq_ok

theorem foldlM_accumulates (h : ∀ b x b', f b x = .ok b' → (P b' ↔ P b ∨ Q x))
    (hr : xs.foldlM f b = .ok r) : P r ↔ P b ∨ ∃ x ∈ xs, Q x := by
  induction xs generalizing b with
  | nil =>
      cases hr
      simp
  | cons x xs ih =>
      obtain ⟨b',hb,hr⟩ := foldlM_cons_eq_ok.mp hr
      rw [ih hr,h b x b' hb]
      simp [or_assoc]

theorem foldlM_counts {μ : β → Nat} {c : α → Nat} (h : ∀ b x b', f b x = .ok b' → μ b' = μ b+c x)
    (hr : xs.foldlM f b = .ok r) : μ r = μ b+(xs.map c).sum := by
  induction xs generalizing b with
  | nil =>
      cases hr
      rfl
  | cons x xs ih =>
      obtain ⟨b',hb,hr⟩ := foldlM_cons_eq_ok.mp hr
      rw [ih hr,h b x b' hb,List.map_cons,List.sum_cons,Nat.add_assoc]

/-- A loop whose rounds do not depend on what came before ends well if they all do. -/
theorem foldlM_ok_iff (h : ∀ b x, (∃ b', f b x = .ok b') ↔ Q x) :
    (∃ r, xs.foldlM f b = .ok r) ↔ ∀ x ∈ xs, Q x := by
  induction xs generalizing b with
  | nil => simp [pure,Except.pure]
  | cons x xs ih =>
      rw [List.forall_mem_cons,← h b x]
      constructor
      · rintro ⟨r,hr⟩
        obtain ⟨b',hb,hr⟩ := foldlM_cons_eq_ok.mp hr
        exact ⟨⟨b',hb⟩,ih.mp ⟨r,hr⟩⟩
      · rintro ⟨⟨b',hb⟩,hxs⟩
        obtain ⟨r,hr⟩ := (@ih b').mpr hxs
        exact ⟨r,foldlM_cons_eq_ok.mpr ⟨b',hb,hr⟩⟩

end Loops

end BackupSync.Checks
