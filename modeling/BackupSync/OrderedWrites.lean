import Mathlib

/-!
# Copies made under a lock and written one at a time

A journal holds the copies taken at commits, in order, and the file they are
written to. Whoever holds the lock takes a copy and then tries to write it. If no
second copy is taken before the first is dealt with, the copies reach the file in
the order they were taken, so the file never goes back to an older one.
-/
namespace BackupSync

structure Journal (α : Type) where
  file : α
  /-- the copies, in the order of the commits -/
  copies : List α
  /-- the commits whose copy was written, in the order of the writes -/
  written : List Nat
  deriving DecidableEq, Repr

namespace Journal
variable {α : Type}

def fresh (file : α) : Journal α := ⟨file,[],[]⟩

def commit (j : Journal α) (copy : α) : Journal α := {j with copies := j.copies++[copy]}

/-- An attempt to write the copy of a commit. -/
def write (j : Journal α) (commit : Nat) (copy : α) (succeeds : Bool) : Journal α :=
  if succeeds then {j with file := copy,written := j.written++[commit]} else j

/-- The writes are in the order of the commits and the file is the last copy written. -/
structure Ordered (first : α) (j : Journal α) : Prop where
  increasing : j.written.Pairwise (· < ·)
  known : ∀ n ∈ j.written, n < j.copies.length
  file : j.file = (j.written.getLast?.bind (j.copies[·]?)).getD first

/-- The copy of the last commit is still to be written. -/
structure InFlight (j : Journal α) (commit : Nat) (copy : α) : Prop where
  last : commit+1 = j.copies.length
  copied : j.copies[commit]? = some copy
  later : ∀ n ∈ j.written, n < commit

variable {first copy : α} {j : Journal α}

theorem ordered_fresh (first : α) : Ordered first (fresh first) :=
  ⟨List.Pairwise.nil,fun _ hn => absurd hn List.not_mem_nil,rfl⟩

theorem inFlight_commit (h : Ordered first j) (copy : α) :
    InFlight (j.commit copy) j.copies.length copy where
  last := by simp [commit]
  copied := by simp [commit]
  later := h.known

theorem ordered_commit (h : Ordered first j) (copy : α) : Ordered first (j.commit copy) where
  increasing := h.increasing
  known n hn := by
    have hlt := h.known n hn
    simp only [commit,List.length_append,List.length_singleton]
    omega
  file := by
    change j.file = _
    rw [h.file]
    cases hlast : j.written.getLast? with
    | none => simp [commit,hlast]
    | some n =>
        have hn := h.known n (List.mem_of_getLast? hlast)
        simp [commit,hlast,List.getElem?_append_left hn]

theorem ordered_write {commit : Nat} (h : Ordered first j) (hf : InFlight j commit copy)
    (succeeds : Bool) : Ordered first (j.write commit copy succeeds) := by
  cases succeeds with
  | false => exact h
  | true =>
      refine ⟨?_,?_,?_⟩
      · refine List.pairwise_append.mpr ⟨h.increasing,List.pairwise_singleton _ _,?_⟩
        intro n hn k hk
        rw [List.mem_singleton.mp hk]
        exact hf.later n hn
      · intro n hn
        have hlast := hf.last
        rcases List.mem_append.mp hn with hn | hn
        · exact h.known n hn
        · rw [List.mem_singleton.mp hn]
          change commit < j.copies.length
          omega
      · change copy = ((j.written++[commit]).getLast?.bind (j.copies[·]?)).getD first
        simp [hf.copied]

end Journal
end BackupSync
