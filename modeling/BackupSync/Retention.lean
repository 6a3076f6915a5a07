import BackupSync.Manifest

/-!
# Version order and retention

Versions are ordered by creation time and then by identifier, and an index keeps
its versions sorted that way. Retention drops versions from the front of the
list, passing over the pinned and the pending one, until as many are left as the
limit and the protected versions allow.

The loop is characterised in closed form: it drops the first unprotected
versions, as many as the list is too long.
-/
namespace BackupSync.Retention

def versionCmp (a b : VersionInfo) : Ordering :=
  (compare a.createdAtUnix b.createdAtUnix).then (compare a.id b.id)

/-- A stable sort, as slice::sort_by is. -/
def sortVersions (versions : List VersionInfo) : List VersionInfo :=
  versions.insertionSort fun a b => (versionCmp a b).isLE = true

def protectedIds (index : VersionIndex) : List Str :=
  match index.safetyPinnedVersionId,index.safetyPendingVersionId with
  | none,none => []
  | some pinned,none => [pinned]
  | none,some pending => [pending]
  | some pinned,some pending => if pending = pinned then [pinned] else [pinned,pending]

/-- The loop of collect_prunable_versions; each round removes one version. -/
def pruneLoop (kept : List Str) (allowed : Nat) :
    Nat → List VersionInfo → List VersionInfo → List VersionInfo
  | 0,_,pruned => pruned
  | fuel+1,remaining,pruned =>
      if remaining.length ≤ allowed then pruned
      else match remaining.findIdx? (fun v => v.id ∉ kept) with
        | none => pruned
        | some pos => match remaining[pos]? with
          | none => pruned
          | some v => pruneLoop kept allowed fuel (remaining.eraseIdx pos) (pruned++[v])

def collectPrunableVersions (index : VersionIndex) (keepVersions : Nat) : List VersionInfo :=
  pruneLoop (protectedIds index) (keepVersions+(protectedIds index).length)
    index.versions.length index.versions []

theorem findIdx?_split {α : Type} {p : α → Bool} {l : List α} {i : Nat}
    (h : l.findIdx? p = some i) : ∃ pre x post, l = pre++x::post ∧ pre.length = i ∧
      p x = true ∧ ∀ y ∈ pre, p y = false := by
  obtain ⟨hi,hx,hpre⟩ := List.findIdx?_eq_some_iff_getElem.mp h
  refine ⟨l.take i,l[i],l.drop (i+1),?_,by simp [Nat.le_of_lt hi],hx,?_⟩
  · rw [List.getElem_cons_drop,List.take_append_drop]
  · intro y hy
    obtain ⟨j,hj,rfl⟩ := List.mem_iff_getElem.mp hy
    rw [List.length_take] at hj
    rw [List.getElem_take]
    exact Bool.eq_false_iff.mpr (hpre j (by omega))

/-- The loop takes the first versions that are not kept. -/
theorem pruneLoop_eq (kept : List Str) (allowed fuel : Nat) (remaining pruned : List VersionInfo)
    (hf : remaining.length ≤ fuel) : pruneLoop kept allowed fuel remaining pruned =
      pruned++(remaining.filter fun v => v.id ∉ kept).take (remaining.length-allowed) := by
  induction fuel generalizing remaining pruned with
  | zero =>
      obtain rfl : remaining = [] := List.eq_nil_of_length_eq_zero (by omega)
      simp [pruneLoop]
  | succ fuel ih =>
      rw [pruneLoop]
      split
      · rename_i hle
        rw [Nat.sub_eq_zero_of_le hle,List.take_zero,List.append_nil]
      · rename_i hgt
        cases hfind : remaining.findIdx? (fun v => v.id ∉ kept) with
        | none =>
            have hnil : (remaining.filter fun v => v.id ∉ kept) = [] := by
              rw [List.filter_eq_nil_iff]
              rw [List.findIdx?_eq_none_iff] at hfind
              intro v hv
              rw [hfind v hv]
              decide
            rw [hnil,List.take_nil,List.append_nil]
        | some pos =>
            obtain ⟨pre,v,post,rfl,rfl,hv,hpre⟩ := findIdx?_split hfind
            have hget : (pre++v::post)[pre.length]? = some v := by simp
            have herase : (pre++v::post).eraseIdx pre.length = pre++post := by
              simp [List.eraseIdx_append_of_length_le]
            have hfilter : (pre.filter fun v => decide (v.id ∉ kept)) = [] := by
              rw [List.filter_eq_nil_iff]
              intro y hy
              rw [hpre y hy]
              decide
            have hcons : ((v::post).filter fun v => decide (v.id ∉ kept)) =
                v::post.filter fun v => decide (v.id ∉ kept) := List.filter_cons_of_pos hv
            have hlen : (pre++v::post).length-allowed = (pre++post).length-allowed+1 := by
              simp only [List.length_append,List.length_cons] at hgt ⊢
              omega
            dsimp only
            rw [hget]
            dsimp only
            rw [herase,ih (pre++post) (pruned++[v]) (by
                simp only [List.length_append,List.length_cons] at hf ⊢
                omega),hlen,List.filter_append,List.filter_append,hfilter,List.nil_append,
              List.nil_append,hcons,List.take_succ_cons,List.append_assoc]
            rfl

theorem collectPrunableVersions_eq (index : VersionIndex) (keepVersions : Nat) :
    collectPrunableVersions index keepVersions =
      (index.versions.filter fun v => v.id ∉ protectedIds index).take
        (index.versions.length-(keepVersions+(protectedIds index).length)) := by
  rw [collectPrunableVersions,pruneLoop_eq _ _ _ _ _ (Nat.le_refl _),List.nil_append]

theorem sublist_collectPrunableVersions (index : VersionIndex) (keepVersions : Nat) :
    (collectPrunableVersions index keepVersions).Sublist index.versions := by
  rw [collectPrunableVersions_eq]
  exact (List.take_sublist _ _).trans List.filter_sublist

instance : Std.TransCmp versionCmp :=
  inferInstanceAs (Std.TransCmp (compareLex (compareOn fun v : VersionInfo => v.createdAtUnix)
    (compareOn fun v : VersionInfo => v.id)))

theorem versionCmp_eq_iff {a b : VersionInfo} :
    versionCmp a b = .eq ↔ a.createdAtUnix = b.createdAtUnix ∧ a.id = b.id := by
  unfold versionCmp
  rw [Ordering.then_eq_eq,Std.LawfulEqCmp.compare_eq_iff_eq,Std.LawfulEqCmp.compare_eq_iff_eq]

/-- The order of versions in an index. -/
def Sorted (versions : List VersionInfo) : Prop :=
  versions.Pairwise fun a b => (versionCmp a b).isLE = true

instance : IsTrans VersionInfo fun a b => (versionCmp a b).isLE = true :=
  ⟨fun _ _ _ => Std.TransCmp.isLE_trans⟩

instance : Std.Total fun a b : VersionInfo => (versionCmp a b).isLE = true where
  total a b := by
    have hswap : versionCmp b a = (versionCmp a b).swap := Std.OrientedCmp.eq_swap
    rw [hswap]
    cases versionCmp a b <;> simp

theorem sorted_sortVersions (versions : List VersionInfo) : Sorted (sortVersions versions) :=
  List.pairwise_insertionSort _ versions

variable {versions : List VersionInfo}

theorem mem_sortVersions {v : VersionInfo} :
    v ∈ sortVersions versions ↔ v ∈ versions := List.mem_insertionSort _

theorem sortVersions_append_of_lt {old : List VersionInfo} {new : VersionInfo} (hs : Sorted old)
    (h : ∀ w ∈ old, versionCmp w new = .lt) : sortVersions (old++[new]) = old++[new] := by
  refine List.Pairwise.insertionSort_eq
    (List.pairwise_append.mpr ⟨hs,List.pairwise_singleton _ _,?_⟩)
  intro w hw x hx
  obtain rfl := List.mem_singleton.mp hx
  rw [h w hw]
  rfl

theorem mem_protectedIds {index : VersionIndex} {id : Str} : id ∈ protectedIds index ↔
    index.safetyPinnedVersionId = some id ∨ index.safetyPendingVersionId = some id := by
  unfold protectedIds
  split
  · simp_all
  · simp_all [eq_comm]
  · simp_all [eq_comm]
  · rename_i pinned pending hp hq
    split
    · simp_all [eq_comm]
    · simp [hp,hq,eq_comm]

/-- A protected version is not pruned. -/
theorem not_mem_protectedIds_of_pruned {index : VersionIndex} {keepVersions : Nat} {v : VersionInfo}
    (h : v ∈ collectPrunableVersions index keepVersions) : v.id ∉ protectedIds index := by
  rw [collectPrunableVersions_eq] at h
  simpa using (List.mem_filter.mp (List.mem_of_mem_take h)).2

/-- Each kept identifier belongs to at most one version. -/
theorem length_sub_le_unprotected (kept : List Str) (h : (versions.map (·.id)).Nodup) :
    versions.length-kept.length ≤ (versions.filter fun v => v.id ∉ kept).length := by
  have hkept : (versions.filter fun v => v.id ∈ kept).length ≤ kept.length := by
    have hnodup : ((versions.filter fun v => v.id ∈ kept).map (·.id)).Nodup :=
      h.sublist (List.filter_sublist.map _)
    have hsub : ((versions.filter fun v => v.id ∈ kept).map (·.id)) ⊆ kept := by
      intro id hid
      obtain ⟨v,hv,rfl⟩ := List.mem_map.mp hid
      simpa using (List.mem_filter.mp hv).2
    simpa using (List.subperm_of_subset hnodup hsub).length_le
  have hsplit := List.length_eq_length_filter_add (l := versions) fun v => decide (v.id ∈ kept)
  have hnot : (versions.filter fun v => !decide (v.id ∈ kept)) =
      versions.filter fun v => v.id ∉ kept := by simp
  rw [hnot] at hsplit
  omega

theorem le_of_getLast? {last w : VersionInfo} (hs : Sorted versions)
    (hl : versions.getLast? = some last) (hw : w ∈ versions) : (versionCmp w last).isLE = true := by
  obtain ⟨init,rfl⟩ := List.getLast?_eq_some_iff.mp hl
  rcases List.mem_append.mp hw with hw | hw
  · exact (List.pairwise_append.mp hs).2.2 w hw last (List.mem_singleton_self _)
  · obtain rfl := List.mem_singleton.mp hw
    exact Std.ReflCmp.isLE_rfl

section Insertion
variable {index : VersionIndex} {old pruned : List VersionInfo} {new : VersionInfo}
  {keepVersions : Nat}

/-- A new version that sorts last is not among the pruned. -/
theorem not_mem_pruned_of_last (hv : index.versions = old++[new])
    (hnodup : (old.map (·.id)).Nodup) (hfresh : new.id ∉ old.map (·.id)) (hkeep : 1 ≤ keepVersions)
    (hp : pruned = [] ∨ pruned = collectPrunableVersions index keepVersions) :
    new.id ∉ pruned.map (·.id) := by
  rcases hp with rfl | rfl
  · exact List.not_mem_nil
  · rw [collectPrunableVersions_eq,hv,List.filter_append]
    have hcount := length_sub_le_unprotected (protectedIds index) hnodup
    have hle : (old++[new]).length-(keepVersions+(protectedIds index).length) ≤
        (old.filter fun v => v.id ∉ protectedIds index).length := by
      rw [List.length_append,List.length_singleton]
      omega
    rw [List.take_append_of_le_length hle]
    intro hmem
    obtain ⟨v,hv,he⟩ := List.mem_map.mp hmem
    exact hfresh (List.mem_map.mpr ⟨v,(List.mem_filter.mp (List.mem_of_mem_take hv)).1,he⟩)

theorem nodup_sortVersions_append (hnodup : (old.map (·.id)).Nodup)
    (hfresh : new.id ∉ old.map (·.id)) : ((sortVersions (old++[new])).map (·.id)).Nodup := by
  have hperm : (sortVersions (old++[new])).Perm (old++[new]) := List.perm_insertionSort _ _
  rw [(hperm.map _).nodup_iff,List.map_append]
  refine List.nodup_append.mpr ⟨hnodup,List.nodup_singleton _,?_⟩
  rintro a ha b hb rfl
  have hid : a = new.id := List.mem_singleton.mp hb
  exact hfresh (hid ▸ ha)

/-- What is pruned sorts before what is left, as far as it is not protected. -/
theorem le_of_pruned_of_unpruned {v w : VersionInfo} (hs : Sorted index.versions)
    (hw : w ∈ collectPrunableVersions index keepVersions) (hv : v ∈ index.versions)
    (hun : v.id ∉ protectedIds index) (hnot : v ∉ collectPrunableVersions index keepVersions) :
    (versionCmp w v).isLE = true := by
  rw [collectPrunableVersions_eq] at hw hnot
  have hmem : v ∈ index.versions.filter fun v => v.id ∉ protectedIds index :=
    List.mem_filter.mpr ⟨hv,by simpa using hun⟩
  have hsorted : Sorted (index.versions.filter fun v => v.id ∉ protectedIds index) :=
    List.Pairwise.filter _ hs
  rw [← List.take_append_drop (index.versions.length-(keepVersions+(protectedIds index).length))
    (index.versions.filter fun v => decide (v.id ∉ protectedIds index))] at hmem hsorted
  rcases List.mem_append.mp hmem with h | h
  · exact absurd h hnot
  · exact (List.pairwise_append.mp hsorted).2.2 w hw v h

/-- After pruning, the new version is the last one exactly when it sorts after every old one. -/
theorem getLast?_retained_iff (hv : index.versions = sortVersions (old++[new])) (hs : Sorted old)
    (hnodup : (old.map (·.id)).Nodup) (hfresh : new.id ∉ old.map (·.id))
    (hpins : ∀ id ∈ protectedIds index, id ∈ old.map (·.id)) (hkeep : 1 ≤ keepVersions)
    (hp : pruned = [] ∨ pruned = collectPrunableVersions index keepVersions) :
    (index.versions.filter fun v => v.id ∉ pruned.map (·.id)).getLast? = some new ↔
      ∀ w ∈ old, versionCmp w new = .lt := by
  constructor
  · intro hlast w hw
    have hwi : w ∈ index.versions := by
      rw [hv,mem_sortVersions]
      exact List.mem_append_left _ hw
    have hne : w.id ≠ new.id := fun he => hfresh (List.mem_map.mpr ⟨w,hw,he⟩)
    have hsorted : Sorted index.versions := by
      rw [hv]
      exact sorted_sortVersions _
    have hnew := List.mem_filter.mp (List.mem_of_getLast? hlast)
    have hle : (versionCmp w new).isLE = true := by
      by_cases hpr : w.id ∈ pruned.map (·.id)
      · rcases hp with rfl | rfl
        · cases hpr
        · obtain ⟨x,hx,hxe⟩ := List.mem_map.mp hpr
          have hxi := (sublist_collectPrunableVersions index keepVersions).subset hx
          have hall := nodup_sortVersions_append hnodup hfresh
          rw [← hv] at hall
          obtain rfl := List.inj_on_of_nodup_map hall hxi hwi hxe
          refine le_of_pruned_of_unpruned hsorted hx hnew.1 (fun h => hfresh (hpins _ h)) ?_
          intro hmem
          have hnot : new.id ∉ _ := of_decide_eq_true hnew.2
          exact hnot (List.mem_map.mpr ⟨new,hmem,rfl⟩)
      · exact le_of_getLast? (List.Pairwise.filter _ hsorted) hlast
          (List.mem_filter.mpr ⟨hwi,by simpa using hpr⟩)
    rcases Ordering.isLE_iff_eq_lt_or_eq_eq.mp hle with h | h
    · exact h
    · exact absurd (versionCmp_eq_iff.mp h).2 hne
  · intro hall
    rw [sortVersions_append_of_lt hs hall] at hv
    have hnot := not_mem_pruned_of_last hv hnodup hfresh hkeep hp
    rw [hv,List.filter_append,List.filter_cons_of_pos (by simpa using hnot),List.filter_nil,
      List.getLast?_concat]

end Insertion

section Remaining
variable (index : VersionIndex) (keepVersions : Nat)

/-- The versions that are neither pinned nor pending, oldest first. -/
def unprotected : List VersionInfo :=
  index.versions.filter fun v =>
    index.safetyPinnedVersionId ≠ some v.id ∧ index.safetyPendingVersionId ≠ some v.id

/-- What is left of the versions once the prunable ones are gone. -/
def remaining : List VersionInfo :=
  index.versions.filter fun v => v.id ∉ (collectPrunableVersions index keepVersions).map (·.id)

theorem unprotected_eq :
    unprotected index = index.versions.filter fun v => v.id ∉ protectedIds index := by
  apply List.filter_congr
  intro v _
  simp [mem_protectedIds]

theorem nodup_protectedIds : (protectedIds index).Nodup := by
  unfold protectedIds
  split
  · simp
  · simp
  · simp
  · split
    · simp
    · rename_i h
      simpa [eq_comm] using h

variable {index}

/-- With every protected version listed, the versions are the protected and the other ones. -/
theorem length_versions (hnd : index.ids.Nodup)
    (hpins : ∀ id ∈ protectedIds index, id ∈ index.ids) :
    index.versions.length = (protectedIds index).length+(unprotected index).length := by
  have hprot : ((index.versions.filter fun v => v.id ∈ protectedIds index).map (·.id)).Perm
      (protectedIds index) := by
    rw [List.perm_ext_iff_of_nodup (hnd.sublist (List.filter_sublist.map _))
      (nodup_protectedIds index)]
    intro id
    constructor
    · intro h
      obtain ⟨v,hv,rfl⟩ := List.mem_map.mp h
      simpa using (List.mem_filter.mp hv).2
    · intro h
      obtain ⟨v,hv,rfl⟩ := List.mem_map.mp (hpins id h)
      exact List.mem_map.mpr ⟨v,List.mem_filter.mpr ⟨hv,by simpa using h⟩,rfl⟩
  have hsplit := List.length_eq_length_filter_add (l := index.versions)
    fun v => decide (v.id ∈ protectedIds index)
  have hlen := hprot.length_eq
  rw [List.length_map] at hlen
  rw [hsplit,hlen,unprotected_eq]
  simp

/-- With distinct identifiers, taking out by identifier is taking out by version. -/
theorem mem_prunable_ids_iff (hnd : index.ids.Nodup) {v : VersionInfo} (hv : v ∈ index.versions) :
    v.id ∈ (collectPrunableVersions index keepVersions).map (·.id) ↔
      v ∈ collectPrunableVersions index keepVersions := by
  constructor
  · intro h
    obtain ⟨w,hw,he⟩ := List.mem_map.mp h
    have hwi := (sublist_collectPrunableVersions index keepVersions).subset hw
    obtain rfl := List.inj_on_of_nodup_map hnd hwi hv he
    exact hw
  · intro h
    exact List.mem_map.mpr ⟨v,h,rfl⟩

theorem nodup_versions (hnd : index.ids.Nodup) : index.versions.Nodup := List.Nodup.of_map _ hnd

/-- Of the unprotected versions, those behind the prunable ones are left. -/
theorem remaining_unprotected (hnd : index.ids.Nodup) {v : VersionInfo}
    (hv : v ∈ unprotected index) :
    v.id ∉ (collectPrunableVersions index keepVersions).map (·.id) ↔
      v ∈ (unprotected index).drop
        (index.versions.length-(keepVersions+(protectedIds index).length)) := by
  have hvi : v ∈ index.versions := List.mem_of_mem_filter hv
  have hnodup : (unprotected index).Nodup := (nodup_versions hnd).filter _
  rw [mem_prunable_ids_iff keepVersions hnd hvi,collectPrunableVersions_eq,← unprotected_eq]
  rw [← List.take_append_drop (index.versions.length-(keepVersions+(protectedIds index).length))
    (unprotected index)] at hv hnodup
  have hdisj := (List.nodup_append.mp hnodup).2.2
  rcases List.mem_append.mp hv with h | h
  · exact ⟨fun hn => absurd h hn,fun hd => absurd rfl (hdisj v h v hd)⟩
  · exact ⟨fun _ => h,fun _ ht => absurd rfl (hdisj v ht v h)⟩

/-- Retention takes the oldest unprotected versions and leaves the protected and the last ones. -/
theorem prunable_versions (hnd : index.ids.Nodup) :
    (∃ many, collectPrunableVersions index keepVersions = (unprotected index).take many) ∧
    (∀ v ∈ collectPrunableVersions index keepVersions,
      index.safetyPinnedVersionId ≠ some v.id ∧ index.safetyPendingVersionId ≠ some v.id) ∧
    ((∀ id, index.safetyPinnedVersionId = some id ∨ index.safetyPendingVersionId = some id →
        id ∈ index.ids) →
      ∃ last, last <:+ unprotected index ∧
        last.length = min keepVersions (unprotected index).length ∧
        remaining index keepVersions = index.versions.filter fun v =>
          (index.safetyPinnedVersionId = some v.id ∨ index.safetyPendingVersionId = some v.id) ∨
            v ∈ last) := by
  refine ⟨?_,?_,?_⟩
  · rw [collectPrunableVersions_eq,unprotected_eq]
    exact ⟨_,rfl⟩
  · intro v hv
    have h := not_mem_protectedIds_of_pruned hv
    rw [mem_protectedIds] at h
    exact not_or.mp h
  · intro hpins
    have hlen := length_versions hnd fun id h => hpins id (mem_protectedIds.mp h)
    refine ⟨_,List.drop_suffix
      (index.versions.length-(keepVersions+(protectedIds index).length)) (unprotected index),?_,?_⟩
    · rw [List.length_drop]
      omega
    · apply List.filter_congr
      intro v hv
      rw [decide_eq_decide,← mem_protectedIds]
      by_cases hp : v.id ∈ protectedIds index
      · have hnot : v.id ∉ (collectPrunableVersions index keepVersions).map (·.id) := by
          rw [mem_prunable_ids_iff keepVersions hnd hv]
          exact fun h => not_mem_protectedIds_of_pruned h hp
        exact ⟨fun _ => .inl hp,fun _ => hnot⟩
      · have hun : v ∈ unprotected index := by
          rw [unprotected_eq]
          exact List.mem_filter.mpr ⟨hv,by simpa using hp⟩
        rw [remaining_unprotected keepVersions hnd hun]
        exact ⟨fun h => .inr h,fun h => h.resolve_left hp⟩

/-- Three versions, of which the oldest is pinned. -/
def pinnedIndex : VersionIndex where
  schemaVersion := 1
  sourcePath := "/notes".toList
  versions := [⟨"1".toList,1⟩,⟨"2".toList,2⟩,⟨"3".toList,3⟩]
  safetyPinnedVersionId := some "1".toList
  safetyPendingVersionId := none
  safetyPendingFirstSeenUnix := none

theorem prunable_versions_pinned : ∃ last, last <:+ unprotected pinnedIndex ∧ last.length = 1 ∧
    remaining pinnedIndex 1 = pinnedIndex.versions.filter fun v =>
      (pinnedIndex.safetyPinnedVersionId = some v.id ∨
        pinnedIndex.safetyPendingVersionId = some v.id) ∨ v ∈ last :=
  (prunable_versions 1 (by decide)).2.2 (by simp [pinnedIndex,VersionIndex.ids])

end Remaining

/-- Versions are sorted under distinct identifiers, and only listed ones are protected. -/
structure Tidy (index : VersionIndex) : Prop where
  sorted : Sorted index.versions
  nodup : index.ids.Nodup
  pins : ∀ id ∈ protectedIds index, id ∈ index.ids

theorem tidy_fresh (sourcePath : Str) : Tidy (.fresh sourcePath) :=
  ⟨List.Pairwise.nil,List.nodup_nil,nofun⟩

/-- Taking versions out keeps an index tidy as long as the protected ones stay. -/
theorem Tidy.filter {a b : VersionIndex} {p : VersionInfo → Bool} (h : Tidy a)
    (hv : b.versions = a.versions.filter p)
    (hpins : ∀ id ∈ protectedIds b, ∃ v ∈ a.versions, p v = true ∧ v.id = id) : Tidy b := by
  refine ⟨?_,?_,?_⟩
  · rw [hv]
    exact List.Pairwise.filter _ h.sorted
  · rw [VersionIndex.ids,hv]
    exact h.nodup.sublist (List.filter_sublist.map _)
  · intro id hid
    obtain ⟨v,hva,hp,rfl⟩ := hpins id hid
    rw [VersionIndex.ids,hv]
    exact List.mem_map.mpr ⟨v,List.mem_filter.mpr ⟨hva,hp⟩,rfl⟩

end BackupSync.Retention
