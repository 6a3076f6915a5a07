import Mathlib

/-!
# Maps

Membership in a map as a lookup, and the lookups that an insertion or a removal
leaves as they are.
-/
namespace BackupSync

export Std.ExtTreeMap (getElem?_insert getElem?_insert_self getElem?_erase getElem?_filter
  getElem?_eq_none mem_keys mem_insert mem_erase mem_toList_iff_getElem?_eq_some
  mem_iff_isSome_getElem? ext_getElem? nodup_keys length_keys)

/-- Maps ordered by their keys, as a BTreeMap or a listed directory is. -/
abbrev Map (κ β : Type) [Ord κ] : Type := Std.ExtTreeMap κ β compare

section Maps
variable {κ β : Type} {cmp : κ → κ → Ordering} [Std.TransCmp cmp] {m : Std.ExtTreeMap κ β cmp}
  {k k' : κ} {v : β}

theorem mem_of_getElem? (h : m[k]? = some v) : k ∈ m :=
  mem_iff_isSome_getElem?.mpr (Option.isSome_of_eq_some h)

theorem exists_of_mem (h : k ∈ m) : ∃ v, m[k]? = some v :=
  Option.isSome_iff_exists.mp (mem_iff_isSome_getElem?.mp h)

variable [Std.LawfulEqCmp cmp]

theorem getElem?_insert_of_ne (h : k' ≠ k) (v : β) : (m.insert k v)[k']? = m[k']? := by
  rw [getElem?_insert,if_neg]
  rw [Std.LawfulEqCmp.compare_eq_iff_eq]
  exact Ne.symm h

theorem getElem?_erase_of_ne (h : k' ≠ k) : (m.erase k)[k']? = m[k']? := by
  rw [getElem?_erase,if_neg]
  rw [Std.LawfulEqCmp.compare_eq_iff_eq]
  exact Ne.symm h

end Maps

end BackupSync
