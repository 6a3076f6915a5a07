import BackupSync.PreviewAgreement

/-!
# The counts of the simulation

What the simulation counts for one watched path, as numbers of keys of the two
manifests. Both maps have as many keys in the other as the other has in them, so
the additions and the deletions account for the difference of the sizes, and the
counts are all zero where the cycle finds nothing to commit.
-/
namespace BackupSync
open ContentHash ScanSnapshot BackupPreview

namespace PreviewCounts

section Keys
variable {α β : Type} [Ord α] [Std.TransOrd α] [Std.LawfulEqOrd α]

/-- The keys of a map that another one lacks. -/
def lacking (a b : Map α β) : List α := a.keys.filter (· ∉ b)

theorem common_keys_perm (a b : Map α β) :
    (a.keys.filter (· ∈ b)).Perm (b.keys.filter (· ∈ a)) := by
  apply (List.perm_ext_iff_of_nodup (Std.ExtTreeMap.nodup_keys.filter _)
    (Std.ExtTreeMap.nodup_keys.filter _)).mpr
  intro k
  simp [and_comm]

omit [Std.LawfulEqOrd α] in
theorem length_lacking (a b : Map α β) :
    (a.keys.filter (· ∈ b)).length+(lacking a b).length = a.size := by
  have h := @List.length_eq_length_filter_add _ a.keys fun k => decide (k ∈ b)
  rw [length_keys] at h
  simpa [lacking] using h.symm

/-- Two maps have the same number of keys in common, whichever is walked. -/
theorem size_add_lacking (a b : Map α β) :
    a.size+(lacking b a).length = b.size+(lacking a b).length := by
  have ha := length_lacking a b
  have hb := length_lacking b a
  have hcommon := (common_keys_perm a b).length_eq
  omega

omit [Std.LawfulEqOrd α] in
theorem length_lacking_eq_countP (a b : Map α β) :
    (lacking a b).length = a.toList.countP fun item => item.1 ∉ b := by
  rw [lacking,← List.countP_eq_length_filter,← Std.ExtTreeMap.map_fst_toList_eq_keys,
    List.countP_map]
  rfl

end Keys

section Walks
variable {sha : Sha256} {home : Option Str} {watched : WatchedPath} {prev : Option Manifest}
  {next : Manifest} {blobs : Map BlobPath Bytes} {limit : Nat}

theorem changeOf_cases (prev : Option Manifest) (item : Str × ManifestEntry) :
    changeOf prev item = none ∨ changeOf prev item = some '+' ∨ changeOf prev item = some '~' := by
  unfold changeOf
  cases prevAt prev item.1 with
  | none => simp
  | some p =>
      dsimp only
      split
      · simp
      · simp

theorem countBlob_counts (e : ManifestEntry) (d : SimulationDiff) :
    (countBlob sha blobs e d).adds = d.adds ∧ (countBlob sha blobs e d).modifies = d.modifies ∧
      (countBlob sha blobs e d).deletes = d.deletes := by
  unfold countBlob
  cases blobOf sha e with
  | none => simp
  | some path =>
      by_cases hmem : path ∈ blobs
      · simp [hmem]
      · simp [hmem]

theorem countEntry_counts (d : SimulationDiff) (item : Str × ManifestEntry) :
    (countEntry sha home watched prev blobs limit d item).adds =
      d.adds+(if changeOf prev item = some '+' then 1 else 0) ∧
    (countEntry sha home watched prev blobs limit d item).modifies =
      d.modifies+(if changeOf prev item = some '~' then 1 else 0) ∧
    (countEntry sha home watched prev blobs limit d item).deletes = d.deletes := by
  unfold countEntry
  rcases changeOf_cases prev item with hmark | hmark | hmark
  · simp [hmark]
  · simp [hmark,countBlob_counts]
  · simp [hmark,countBlob_counts]

theorem foldl_countEntry_counts (items : List (Str × ManifestEntry)) (d : SimulationDiff) :
    (items.foldl (countEntry sha home watched prev blobs limit) d).adds =
      d.adds+items.countP (fun item => changeOf prev item = some '+') ∧
    (items.foldl (countEntry sha home watched prev blobs limit) d).modifies =
      d.modifies+items.countP (fun item => changeOf prev item = some '~') ∧
    (items.foldl (countEntry sha home watched prev blobs limit) d).deletes = d.deletes := by
  induction items generalizing d with
  | nil => simp
  | cons item items ih =>
      obtain ⟨hadds,hmodifies,hdeletes⟩ :=
        ih (countEntry sha home watched prev blobs limit d item)
      have hitem := @countEntry_counts sha home watched prev blobs limit d item
      rw [List.foldl_cons,hadds,hmodifies,hdeletes,hitem.1,hitem.2.1,hitem.2.2,List.countP_cons,
        List.countP_cons]
      simp only [decide_eq_true_eq]
      exact ⟨by omega,by omega,trivial⟩

theorem countDeleted_counts (d : SimulationDiff) (item : Str × ManifestEntry) :
    (countDeleted home watched next limit d item).adds = d.adds ∧
    (countDeleted home watched next limit d item).modifies = d.modifies ∧
    (countDeleted home watched next limit d item).deletes =
      d.deletes+(if item.1 ∉ next.entries then 1 else 0) := by
  unfold countDeleted
  by_cases h : item.1 ∈ next.entries
  · simp [h]
  · simp [h]

theorem foldl_countDeleted_counts (items : List (Str × ManifestEntry)) (d : SimulationDiff) :
    (items.foldl (countDeleted home watched next limit) d).adds = d.adds ∧
    (items.foldl (countDeleted home watched next limit) d).modifies = d.modifies ∧
    (items.foldl (countDeleted home watched next limit) d).deletes =
      d.deletes+items.countP (fun item => item.1 ∉ next.entries) := by
  induction items generalizing d with
  | nil => simp
  | cons item items ih =>
      obtain ⟨hadds,hmodifies,hdeletes⟩ := ih (countDeleted home watched next limit d item)
      have hitem := @countDeleted_counts home watched next limit d item
      rw [List.foldl_cons,hadds,hmodifies,hdeletes,hitem.1,hitem.2.1,hitem.2.2,List.countP_cons]
      simp only [decide_eq_true_eq]
      exact ⟨trivial,trivial,by omega⟩

end Walks

section Agreement
variable {sha : Sha256} {home : Option Str} {watched : WatchedPath} {prev next : Manifest}
  {blobs : Map BlobPath Bytes} {limit : Nat}

theorem changeOf_eq_plus {item : Str × ManifestEntry} :
    changeOf (some prev) item = some '+' ↔ item.1 ∉ prev.entries := by
  rw [mem_iff_isSome_getElem?]
  unfold changeOf prevAt
  rw [Option.bind_some]
  cases prev.entries[item.1]? with
  | none => simp
  | some p =>
      dsimp only
      split
      · simp
      · simp

theorem changeOf_eq_none {item : Str × ManifestEntry} :
    changeOf (some prev) item = none ↔ prev.entryUnchanged item = true := by
  rw [Manifest.entryUnchanged_iff,← Option.isNone_iff_eq_none,← Option.isSome_eq_false_iff,
    PreviewAgreement.changeOf_eq_none_iff]
  rfl

theorem diffForSimulation_adds :
    (diffForSimulation sha home watched (some prev) next blobs limit).adds =
      (lacking next.entries prev.entries).length := by
  rw [length_lacking_eq_countP]
  simp [diffForSimulation,foldl_countDeleted_counts,foldl_countEntry_counts,changeOf_eq_plus]

theorem diffForSimulation_modifies :
    (diffForSimulation sha home watched (some prev) next blobs limit).modifies =
      next.entries.toList.countP fun item => changeOf (some prev) item = some '~' := by
  simp [diffForSimulation,foldl_countDeleted_counts,foldl_countEntry_counts]

theorem diffForSimulation_deletes :
    (diffForSimulation sha home watched (some prev) next blobs limit).deletes =
      (lacking prev.entries next.entries).length := by
  rw [length_lacking_eq_countP]
  simp [diffForSimulation,foldl_countDeleted_counts,foldl_countEntry_counts]

/-- No addition and no modification: every entry is found as it was. -/
theorem all_entryUnchanged_iff :
    next.entries.toList.all prev.entryUnchanged = true ↔
      (diffForSimulation sha home watched (some prev) next blobs limit).adds = 0 ∧
      (diffForSimulation sha home watched (some prev) next blobs limit).modifies = 0 := by
  rw [diffForSimulation_adds,diffForSimulation_modifies,length_lacking_eq_countP,
    List.countP_eq_zero,List.countP_eq_zero,List.all_eq_true]
  constructor
  · intro h
    have hnone : ∀ item ∈ next.entries.toList, changeOf (some prev) item = none :=
      fun item hi => changeOf_eq_none.mpr (h item hi)
    constructor
    · intro item hi
      simp [← changeOf_eq_plus,hnone item hi]
    · intro item hi
      simp [hnone item hi]
  · intro h item hi
    apply changeOf_eq_none.mp
    have hplus : changeOf (some prev) item ≠ some '+' := by
      simpa [changeOf_eq_plus] using h.1 item hi
    have hmodified : changeOf (some prev) item ≠ some '~' := by
      simpa using h.2 item hi
    rcases changeOf_cases (some prev) item with hmark | hmark | hmark
    · exact hmark
    · exact absurd hmark hplus
    · exact absurd hmark hmodified

/-- The simulation finds no difference exactly where the cycle finds nothing to commit, and its
additions and deletions account for the change of the number of entries. -/
theorem diffForSimulation_agrees (sha : Sha256) (home : Option Str) (watched : WatchedPath)
    (prev next : Manifest) (blobs : Map BlobPath Bytes) (limit : Nat) :
    (((diffForSimulation sha home watched (some prev) next blobs limit).adds = 0 ∧
      (diffForSimulation sha home watched (some prev) next blobs limit).modifies = 0 ∧
      (diffForSimulation sha home watched (some prev) next blobs limit).deletes = 0) ↔
      prev.manifestsEquivalent next = true) ∧
    ((diffForSimulation sha home watched (some prev) next blobs limit).adds : Int) -
      (diffForSimulation sha home watched (some prev) next blobs limit).deletes =
        (next.entries.size : Int) - prev.entries.size := by
  have hsizes := size_add_lacking prev.entries next.entries
  have hadds := @diffForSimulation_adds sha home watched prev next blobs limit
  have hdeletes := @diffForSimulation_deletes sha home watched prev next blobs limit
  have hall := @all_entryUnchanged_iff sha home watched prev next blobs limit
  refine ⟨?_,by omega⟩
  unfold Manifest.manifestsEquivalent
  rw [Bool.and_eq_true,beq_iff_eq,hall]
  omega

end Agreement

end PreviewCounts
end BackupSync
