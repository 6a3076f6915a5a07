import Mathlib

/-!
# Directory trees with symbolic links

A tree gives the entry at each path below a root, if there is one; the parent of
an entry is a directory. A path is followed name by name from the root. It stays
inside the tree as long as every entry on the way is a directory. Behind a
symbolic link it leaves the tree, and what is found there is not part of it.

Nothing here mentions a program; names and contents are arbitrary types.
-/
namespace BackupSync

inductive FileEntry (α : Type) where
  | dir
  | file (content : α)
  | symlink
  | other
  deriving DecidableEq, Repr

structure FileTree (N α : Type) where
  entry : List N → Option (FileEntry α)
  parent : ∀ path e, entry path = some e → path ≠ [] → entry path.dropLast = some .dir

/-- How far a path can be followed. -/
inductive Reach where
  | inside | beyond | missing | notDirectory
  deriving DecidableEq, Repr

namespace FileTree

variable {N α : Type}

/-- The walk along a path; each entry before the last name has to be a directory. -/
def walk (t : FileTree N α) : List N → List N → Reach
  | _,[] => .inside
  | done,name::rest => match t.entry done with
    | some .dir => walk t (done++[name]) rest
    | some .symlink => .beyond
    | some _ => .notDirectory
    | none => .missing

def reach (t : FileTree N α) (path : List N) : Reach := t.walk [] path

/-- What a look without following a last link finds: an entry, nothing, or an error. Behind a
link the answer comes from elsewhere. -/
def lookup (t : FileTree N α) (elsewhere : List N → Option (FileEntry α)) (path : List N) :
    Except Unit (Option (FileEntry α)) :=
  match t.reach path with
  | .inside => .ok (t.entry path)
  | .beyond => .ok (elsewhere path)
  | .missing => .ok none
  | .notDirectory => .error ()

/-- An entry may be put where its parent is a directory, and in the place of a directory only
another one. -/
def Accepts (t : FileTree N α) (path : List N) (e : FileEntry α) : Prop :=
  (path ≠ [] → t.entry path.dropLast = some .dir) ∧ (t.entry path = some .dir → e = .dir)

instance [DecidableEq N] [DecidableEq α] (t : FileTree N α) (path : List N) (e : FileEntry α) :
    Decidable (t.Accepts path e) :=
  inferInstanceAs (Decidable (_ ∧ _))

def put [DecidableEq N] [DecidableEq α] (path : List N) (e : FileEntry α) (t : FileTree N α) :
    FileTree N α :=
  if h : t.Accepts path e then
    { entry := fun p => if p = path then some e else t.entry p
      parent := by
        intro p e' he hne
        by_cases hlast : p.dropLast = path
        · rw [if_pos hlast]
          split at he
          · rename_i hp
            have hlength := congrArg List.length (hlast.trans hp.symm)
            rw [List.length_dropLast] at hlength
            have hpos := List.length_pos_iff.mpr hne
            omega
          · have hdir := t.parent p e' he hne
            rw [hlast] at hdir
            rw [h.2 hdir]
        · rw [if_neg hlast]
          split at he
          · rename_i hp
            subst hp
            exact h.1 hne
          · exact t.parent p e' he hne }
  else t

section
variable [DecidableEq N] [DecidableEq α] {t : FileTree N α} {path p : List N} {e : FileEntry α}

theorem entry_put_self (h : t.Accepts path e) : (t.put path e).entry path = some e := by
  simp [put,h]

theorem entry_put_of_ne (hne : p ≠ path) : (t.put path e).entry p = t.entry p := by
  unfold put
  split
  · simp [hne]
  · rfl

end

section
variable {t : FileTree N α} {path p : List N}

/-- Everything above an entry is a directory. -/
theorem dir_above {e : FileEntry α} (h : t.entry path = some e) (hp : p <+: path)
    (hne : p ≠ path) : t.entry p = some .dir := by
  induction path using List.reverseRecOn generalizing e with
  | nil => exact absurd (List.prefix_nil.mp hp) hne
  | append_singleton path name ih =>
      have hparent := t.parent _ _ h (by simp)
      rw [List.dropLast_concat] at hparent
      rcases List.prefix_concat_iff.mp hp with rfl | hp
      · exact absurd rfl hne
      · by_cases he : p = path
        · exact he ▸ hparent
        · exact ih hparent hp he

/-- Nothing but directories and gaps on the way. -/
def Clear (t : FileTree N α) (path : List N) : Prop :=
  ∀ p, p <+: path → p ≠ path → t.entry p = none ∨ t.entry p = some .dir

theorem Clear.on_way (h : t.Clear path) (hp : p <+: path) : t.Clear p := by
  intro q hq hne
  refine h q (hq.trans hp) ?_
  rintro rfl
  exact hne (hq.eq_of_length_le hp.length_le)

theorem none_below (h : t.entry p = none) (hp : p <+: path) : t.entry path = none := by
  cases he : t.entry path with
  | none => rfl
  | some e =>
      by_cases hne : p = path
      · rw [← he,← hne,h]
      · rw [dir_above he hp hne] at h
        cases h

theorem clear_nil : t.Clear [] := by
  intro p hp hne
  exact absurd (List.prefix_nil.mp hp) hne

theorem Clear.concat (h : t.Clear p) (he : t.entry p = none ∨ t.entry p = some .dir) (name : N) :
    t.Clear (p++[name]) := by
  intro q hq hne
  rcases List.prefix_concat_iff.mp hq with rfl | hq
  · exact absurd rfl hne
  · by_cases hqp : q = p
    · exact hqp ▸ he
    · exact h q hq hqp

/-- Below a gap there is nothing in the way. -/
theorem Clear.of_gap (h : t.Clear p) (he : t.entry p = none) (hp : p <+: path) : t.Clear path := by
  intro q hq hne
  rcases List.prefix_or_prefix_of_prefix hq hp with hqp | hpq
  · by_cases hqe : q = p
    · exact .inl (hqe ▸ he)
    · exact h q hqp hqe
  · exact .inl (none_below he hpq)

theorem walk_clear {done : List N} (h : t.Clear (done++path)) :
    (t.walk done path = .inside ∧ ∀ p, p <+: path → p ≠ path → t.entry (done++p) = some .dir) ∨
      (t.walk done path = .missing ∧ t.entry (done++path) = none) := by
  induction path generalizing done with
  | nil =>
      refine .inl ⟨rfl,?_⟩
      intro p hp hne
      exact absurd (List.prefix_nil.mp hp) hne
  | cons name rest ih =>
      have hdone : done <+: done++name::rest := List.prefix_append _ _
      have hne : done ≠ done++name::rest := by simp
      have hassoc : done++name::rest = done++[name]++rest := by simp
      unfold walk
      rcases h done hdone hne with hnone | hdir
      · rw [hnone]
        exact .inr ⟨rfl,none_below hnone hdone⟩
      · rw [hdir]
        rcases ih (hassoc ▸ h) with ⟨hwalk,hdirs⟩ | ⟨hwalk,hgap⟩
        · refine .inl ⟨hwalk,?_⟩
          intro p hp hpne
          cases p with
          | nil => rwa [List.append_nil]
          | cons n p =>
              obtain ⟨rfl,hrest⟩ := List.cons_prefix_cons.mp hp
              have hin := hdirs p hrest (fun he => hpne (by rw [he]))
              rwa [List.append_assoc] at hin
        · exact .inr ⟨hwalk,by rw [hassoc]; exact hgap⟩

/-- On a clear path a look tells the truth. -/
theorem lookup_of_clear (h : t.Clear path) (elsewhere : List N → Option (FileEntry α)) :
    t.lookup elsewhere path = .ok (t.entry path) := by
  have hwalk := @walk_clear N α t path [] h
  unfold lookup reach
  rcases hwalk with ⟨hwalk,-⟩ | ⟨hwalk,hgap⟩
  · rw [hwalk]
  · rw [hwalk]
    rw [List.nil_append] at hgap
    rw [hgap]

theorem reach_of_clear (h : t.Clear path) : t.reach path = .inside ∨ t.reach path = .missing := by
  rcases @walk_clear N α t path [] h with ⟨hwalk,-⟩ | ⟨hwalk,-⟩
  · exact .inl hwalk
  · exact .inr hwalk

theorem parent_of_inside (h : t.Clear path) (hi : t.reach path = .inside) (hne : path ≠ []) :
    t.entry path.dropLast = some .dir := by
  rcases @walk_clear N α t path [] h with ⟨-,hdirs⟩ | ⟨hwalk,-⟩
  · refine hdirs _ (List.dropLast_prefix path) ?_
    intro he
    have hlength := congrArg List.length he
    rw [List.length_dropLast] at hlength
    have hpos := List.length_pos_iff.mpr hne
    omega
  · rw [reach,hwalk] at hi
    cases hi

end

end FileTree
end BackupSync
