import BackupSync.SafetyMachine

/-!
# Large deletions and the versions kept for them

A shrink is stated on its own, as a loss of bytes or of files in exact
arithmetic, and the ratio of the code is shown to measure it. A commit that
shrinks the latest version keeps an older version protected exactly when no
pending version stands in the way: the comparison is then with that version
alone, and its release is not followed by one with the latest.
-/
namespace BackupSync
open Interruptible ContentHash SafetyBaseline Retention BackupFolder StoreInvariant SafetyScans
  SafetyVerdicts SafetyMachine StoreCompleteness

namespace LargeDeletions

/-- At least the given part of a positive amount is lost. -/
def LostPart (τ : ℚ) (prev next : Nat) : Prop := 0 < prev ∧ τ*prev ≤ (prev : ℚ)-next

/-- File count or total file bytes shrank by at least the given part. -/
def Shrank (τ : ℚ) (prev next : ManifestSize) : Prop :=
  LostPart τ prev.fileBytes next.fileBytes ∨ LostPart τ prev.fileCount next.fileCount

def NoFiles (size : ManifestSize) : Prop := size.fileBytes = 0 ∧ size.fileCount = 0

theorem lossRatio_nonneg (prev next : Nat) : 0 ≤ lossRatio prev next := by
  unfold lossRatio
  split
  · positivity
  · exact le_refl 0

theorem lossRatio_le_one (prev next : Nat) : lossRatio prev next ≤ 1 := by
  unfold lossRatio
  split
  · rename_i h
    have hpos : (0 : ℚ) < prev := by exact_mod_cast h.1
    rw [div_le_one hpos]
    exact_mod_cast Nat.sub_le prev next
  · exact zero_le_one

theorem le_lossRatio_iff {τ : ℚ} (hτ : 0 < τ) (prev next : Nat) :
    τ ≤ lossRatio prev next ↔ LostPart τ prev next := by
  unfold lossRatio LostPart
  split
  · rename_i h
    have hpos : (0 : ℚ) < prev := by exact_mod_cast h.1
    rw [le_div_iff₀ hpos,Nat.cast_sub h.2]
    exact ⟨fun hle => ⟨h.1,hle⟩,fun hle => hle.2⟩
  · rename_i h
    refine ⟨fun hle => absurd hle (not_le.mpr hτ),?_⟩
    rintro ⟨hpos,hle⟩
    have hgrown : prev < next := by
      by_contra hnot
      exact h ⟨hpos,not_lt.mp hnot⟩
    have hq : (prev : ℚ) < next := by exact_mod_cast hgrown
    have hp : (0 : ℚ) < prev := by exact_mod_cast hpos
    nlinarith [mul_pos hτ hp]

/-- The ratio of the code measures a shrink. -/
theorem shrinkRatio_iff {τ : ℚ} (hτ : 0 < τ) (prev next : ManifestSize) :
    (∃ ratio, shrinkRatio prev next = some ratio ∧ τ ≤ ratio) ↔ Shrank τ prev next := by
  unfold shrinkRatio
  split
  · rename_i h
    constructor
    · rintro ⟨ratio,he,-⟩
      cases he
    · rintro (hlost | hlost)
      · exact absurd h.1 (Nat.pos_iff_ne_zero.mp hlost.1)
      · exact absurd h.2 (Nat.pos_iff_ne_zero.mp hlost.1)
  · have hmax := max_le (lossRatio_le_one prev.fileBytes next.fileBytes)
      (lossRatio_le_one prev.fileCount next.fileCount)
    have hzero := (lossRatio_nonneg prev.fileBytes next.fileBytes).trans
      (le_max_left _ (lossRatio prev.fileCount next.fileCount))
    rw [min_eq_right hmax,max_eq_right hzero,Shrank,← le_lossRatio_iff hτ,← le_lossRatio_iff hτ,
      ← le_max_iff]
    simp

theorem shrinkRatio_eq_none_iff {prev next : ManifestSize} :
    shrinkRatio prev next = none ↔ NoFiles prev := by
  unfold shrinkRatio NoFiles
  split
  · rename_i h
    exact ⟨fun _ => h,fun _ => rfl⟩
  · rename_i h
    exact ⟨fun he => (by cases he),fun hn => absurd hn h⟩

variable {Text : Type} [StoreText Text] {sha : Sha256} {prim : Primitives} {job : FolderJob}
  {env : BackupEnv} {scanned : Scanned} {pass : BlobPass} {index judged : VersionIndex} {sid : Str}
  {st t : Store Text} {next : Manifest} {τ : ℚ}

/-- No pending version that can be read and has files is the smaller baseline. -/
def Spared (τ : ℚ) (env : SafetyEnv) (st : Store Text) (sid : Str) (index : VersionIndex)
    (next : Manifest) : Prop :=
  ∀ p base, index.safetyPinnedVersionId = none → index.safetyPendingVersionId = some p →
    env.pendingReadable = true → HasManifest st sid p base → ¬ NoFiles (manifestSize base) →
    Shrank τ (manifestSize base) (manifestSize next)

theorem measured_iff_shrank {id : Str} {m : Manifest} (hτ : 0 < τ) (h : HasManifest st sid id m) :
    Measured τ st sid id next ↔ Shrank τ (manifestSize m) (manifestSize next) := by
  rw [measured_iff h,shrinkRatio_iff hτ]

/-- What an index protects depends on its marks alone. -/
theorem protectedIds_of_sameMarks (h : SameMarks index judged) :
    protectedIds judged = protectedIds index := by
  unfold protectedIds
  rw [h.pinned_eq,h.pending_eq]

/-- A shrink against the latest version leaves one protected unless the check was spent on a
pending one. -/
theorem protects_iff_spared {env : SafetyEnv} {changed : Bool} (hτ : 0 < τ) (htidy : Tidy index)
    (hlatest : MeasuredLatest τ st sid index next)
    (h : Verdict τ env st sid index next (judged,changed)) :
    (∃ id ∈ protectedIds judged, id ∈ index.ids) ↔ Spared τ env st sid index next := by
  have hkept : ∀ id, index.safetyPinnedVersionId = some id ∨
      index.safetyPendingVersionId = some id → id ∈ index.ids :=
    fun id hid => htidy.pins id (mem_protectedIds.mpr hid)
  cases h with
  | pinned hpin =>
      refine iff_of_true ⟨_,mem_protectedIds.mpr (.inl hpin),hkept _ (.inl hpin)⟩ ?_
      intro p base hnone
      rw [hpin] at hnone
      cases hnone
  | quiet _ _ hcalm => exact absurd hlatest hcalm
  | detected hpin hpend hlast hm =>
      refine iff_of_true ⟨_,mem_protectedIds.mpr (.inr rfl),
        List.mem_map.mpr ⟨_,List.mem_of_getLast? hlast,rfl⟩⟩ ?_
      intro p base _ hp hread hbase
      exact absurd ⟨hread,base,hbase⟩ (hpend p hp)
  | released hpin hpend hread hm hratio hlt =>
      refine iff_of_false ?_ ?_
      · rintro ⟨id,hid,-⟩
        rcases mem_protectedIds.mp hid with hp | hp
        · have hp' : index.safetyPinnedVersionId = some id := hp
          rw [hpin] at hp'
          cases hp'
        · cases hp
      · intro hspared
        have hfiles : ¬ NoFiles _ := fun hn => by
          rw [shrinkRatio_eq_none_iff.mpr hn] at hratio
          cases hratio
        obtain ⟨ratio',he,hle⟩ := (shrinkRatio_iff hτ _ _).mpr
          (hspared _ _ hpin hpend hread.1 hm hfiles)
        rw [hratio] at he
        cases he
        exact absurd hle (not_le.mpr hlt)
  | lost _ _ _ hcalm => exact absurd hlatest hcalm
  | confirmed hpin hpend _ hm =>
      refine iff_of_true ⟨_,mem_protectedIds.mpr (.inl rfl),hkept _ (.inr hpend)⟩ ?_
      intro q base _ hq _ hbase _
      rw [hpend] at hq
      cases hq
      exact (measured_iff_shrank hτ hbase).mp hm
  | stuck hpin hpend _ hm hempty =>
      refine iff_of_true ⟨_,mem_protectedIds.mpr (.inr hpend),hkept _ (.inr hpend)⟩ ?_
      intro q base _ hq _ hbase hfiles
      rw [hpend] at hq
      cases hq
      obtain rfl := hasManifest_unique hm hbase
      exact absurd (shrinkRatio_eq_none_iff.mp hempty) hfiles

/-- A clean scan that commits a large deletion leaves an older version protected exactly when no
pending version that can be read and has files was shrunk by less. -/
theorem large_deletion_protected_iff {r : FolderBackupResult} {prev : Manifest}
    (hst : ReachableStore sha prim st) (hτ : 0 < job.threshold)
    (hr : Returns (backupOneFolder sha prim job env) st r t) (hcommit : r.changed = true)
    (hfinds : Finds sha prim job env st scanned pass) (hclean : pass.hadReadFailures = false)
    (hprev : scanned.prev = some prev)
    (hshrank : Shrank job.threshold (manifestSize prev) (manifestSize pass.snapshot)) :
    (∃ index, Stored t (sourceId sha job.watched.path) index ∧
      ∃ id ∈ protectedIds index, id ∈ scanned.index.ids) ↔
    Spared job.threshold env.safety st (sourceId sha job.watched.path) scanned.index
      pass.snapshot := by
  have hsound := allBacked_of_reachable hst
  obtain ⟨scanned',pass',hfinds',hsettles⟩ := (triple_index_backupOneFolder st).returns rfl hr
  obtain ⟨rfl,rfl⟩ := finds_unique hfinds hfinds'
  have hreplaced : Replaced (sourceId sha job.watched.path)
      (committedIndex sha job env st scanned pass) st t := by
    cases hsettles with
    | stays hsame _ _ =>
        rw [hcommit] at hsame
        cases hsame
    | adjusts hsame _ =>
        rw [hcommit] at hsame
        cases hsame
    | commits _ h => exact h
  have hseen : env.latestAccess ≠ .unseen := by
    have hloaded := hfinds.scanOf.prev_loaded
    rw [hprev] at hloaded
    rw [(latestManifest_eq_some hloaded).1]
    exact nofun
  have hlatest : MeasuredLatest job.threshold st (sourceId sha job.watched.path) scanned.index
      pass.snapshot := by
    rcases latest_of_allBacked hsound hfinds.scanOf hseen with ⟨-,hnone⟩ | ⟨v,p,hlast,hp,hfile⟩
    · rw [hprev] at hnone
      cases hnone
    · rw [hprev] at hp
      cases hp
      exact ⟨v,hlast,(measured_iff_shrank hτ hfile).mpr hshrank⟩
  have htidy := (indexBacked_of_loadIndex hsound hfinds.scanOf.index_loaded).tidy
  rw [← protects_iff_spared hτ htidy hlatest (verdict_pinAt hsound hfinds hclean hτ hseen),
    ← protectedIds_of_sameMarks sameMarks_committedIndex]
  constructor
  · rintro ⟨index,hs,hid⟩
    obtain rfl := stored_of_replaced hreplaced hs
    exact hid
  · intro hid
    exact ⟨_,⟨_,hreplaced.index_eq,StoreText.readIndex_writeIndex _⟩,hid⟩

section Run

/-- What a backup finds, as a computation. -/
def foundBy (sha : Sha256) (prim : Primitives) (job : FolderJob) (env : BackupEnv)
    (st : Store Text) : Option (Scanned × BlobPass) :=
  match (scanSource sha job env st).result with
  | .error _ => none
  | .ok scanned =>
      if unchanged scanned.prev scanned.snapshot then
        some (scanned,⟨scanned.snapshot,0,0,!scanned.snapshot.readFailures.isEmpty⟩)
      else match (writeMissingBlobsForSnapshot sha prim job env scanned.prev scanned.snapshot
          (scanSource sha job env st).store).result with
        | .error _ => none
        | .ok written => some (scanned,{written with
            hadReadFailures := !scanned.snapshot.readFailures.isEmpty || written.hadReadFailures})

theorem finds_of_foundBy (h : foundBy sha prim job env st = some (scanned,pass)) :
    Finds sha prim job env st scanned pass := by
  unfold foundBy at h
  cases hscan : (scanSource sha job env st).result with
  | error e =>
      rw [hscan] at h
      cases h
  | ok found =>
      rw [hscan] at h
      dsimp only at h
      split at h
      · rename_i hsame
        cases h
        exact .same ⟨hscan,rfl⟩ hsame
      · rename_i hdiff
        cases hwrite : (writeMissingBlobsForSnapshot sha prim job env found.prev found.snapshot
            (scanSource sha job env st).store).result with
        | error e =>
            rw [hwrite] at h
            cases h
        | ok written =>
            rw [hwrite] at h
            cases h
            exact .written ⟨hscan,rfl⟩ (Bool.eq_false_iff.mpr hdiff) ⟨hwrite,rfl⟩

/-- The sizes a backup compares, with the marks it starts from. -/
def sizesFound (sha : Sha256) (prim : Primitives) (job : FolderJob) (env : BackupEnv)
    (st : Store Text) : Option (Option ManifestSize × ManifestSize × Bool × Option Str) :=
  (foundBy sha prim job env st).map fun f =>
    (f.1.prev.map manifestSize,manifestSize f.2.snapshot,f.2.hadReadFailures,
      f.1.index.safetyPendingVersionId)

theorem finds_of_sizesFound {before after : ManifestSize} {failures : Bool} {pending : Option Str}
    (h : sizesFound sha prim job env st = some (some before,after,failures,pending)) :
    ∃ scanned pass prev, Finds sha prim job env st scanned pass ∧
      pass.hadReadFailures = failures ∧ scanned.prev = some prev ∧ manifestSize prev = before ∧
      manifestSize pass.snapshot = after ∧ scanned.index.safetyPendingVersionId = pending := by
  obtain ⟨⟨scanned,pass⟩,hfound,he⟩ := Option.map_eq_some_iff.mp h
  simp only [Prod.mk.injEq] at he
  obtain ⟨hprev,hafter,hfail,hpend⟩ := he
  obtain ⟨prev,hp,hbefore⟩ := Option.map_eq_some_iff.mp hprev
  exact ⟨scanned,pass,prev,finds_of_foundBy hfound,hfail,hp,hbefore,hafter,hpend⟩

theorem reachable_storeAfter (calls : List StoreCall) :
    ReachableStore sha prim (storeAfter sha prim (.empty : Store Text) calls) :=
  (history_eventsOf calls .start fun _ _ => trivial).reachable

/-- At noon a file of two is gone, and the version with both is protected. -/
theorem large_deletion_protected_iff_first_loss :
    ∃ scanned pass index, Finds notesSha .transparent guardedJob
        (filesEnv [("a","hi")] 1767355200 noon) (lossStore 1) scanned pass ∧
      Stored (lossStore 2) (sourceId notesSha guardedJob.watched.path) index ∧
      ∃ id ∈ protectedIds index, id ∈ scanned.index.ids := by
  have hsizes : sizesFound notesSha .transparent guardedJob
      (filesEnv [("a","hi")] 1767355200 noon) (lossStore 1) =
      some (some ⟨2,4⟩,⟨1,2⟩,false,none) := by decide +kernel
  obtain ⟨scanned,pass,prev,hfinds,hclean,hprev,hbefore,hafter,hpend⟩ := finds_of_sizesFound hsizes
  have hr : Returns (backupOneFolder notesSha .transparent guardedJob
      (filesEnv [("a","hi")] 1767355200 noon)) (lossStore 1) ⟨true,some noon.text,0,0,
        some ⟨1767355200,warningText 50,some "/home/notes".toList,some morning.text⟩⟩
      (lossStore 2) := ⟨by decide +kernel,rfl⟩
  have hshrank : Shrank guardedJob.threshold (manifestSize prev) (manifestSize pass.snapshot) := by
    rw [hbefore,hafter]
    exact .inr ⟨by decide,by norm_num [guardedJob]⟩
  have hspared : Spared guardedJob.threshold (filesEnv [("a","hi")] 1767355200 noon).safety
      (lossStore 1) (sourceId notesSha guardedJob.watched.path) scanned.index pass.snapshot := by
    intro p base _ hp
    rw [hpend] at hp
    cases hp
  obtain ⟨index,hs,hid⟩ := (large_deletion_protected_iff (reachable_storeAfter _)
    (by norm_num [guardedJob]) hr rfl hfinds hclean hprev hshrank).mpr hspared
  exact ⟨scanned,pass,index,hfinds,hs,hid⟩

/-- SHA-256 on the inputs of the run below. -/
def swapSha : Sha256 where
  digest input :=
    if input = ascii "hi ho hi ho hi ho hi" then
      [82,55,72,242,105,202,55,39,87,205,162,19,43,94,63,211,184,63,116,62,184,213,180,225,136,103,
        94,152,0,219,85,188]
    else notesSha.digest input
  digest_length input := by
    split
    · rfl
    · exact notesSha.digest_length input

def eveningEnv : BackupEnv := filesEnv [("a","hi"),("b","ho")] 1767376800 evening

/-- Two small files become one large one at noon, and the change is undone in the evening. -/
def swapCalls : List StoreCall :=
  [.backup guardedJob (filesEnv [("a","hi"),("b","ho")] 1767323045 morning),
    .backup guardedJob (filesEnv [("a","hi ho hi ho hi ho hi")] 1767355200 noon),
    .backup guardedJob eveningEnv]

def swapStore (calls : Nat) : Store PlainText :=
  storeAfter swapSha .transparent .empty (swapCalls.take calls)

/-- In the evening four fifths of the bytes are gone. The pending version of the morning is
released, the version of noon is pruned, and nothing older is left. -/
theorem undone_growth_unprotected :
    ReachableStore swapSha .transparent (swapStore 2) ∧
    Stored (swapStore 2) (sourceId swapSha guardedJob.watched.path)
      ⟨1,"/home/notes".toList,[⟨morning.text,1767323045⟩,⟨noon.text,1767355200⟩],none,
        some morning.text,some 1767355200⟩ ∧
    Returns (backupOneFolder swapSha .transparent guardedJob eveningEnv) (swapStore 2)
      ⟨true,some evening.text,0,0,none⟩ (swapStore 3) ∧
    (∃ scanned pass prev, Finds swapSha .transparent guardedJob eveningEnv (swapStore 2) scanned
        pass ∧ pass.hadReadFailures = false ∧ scanned.prev = some prev ∧
      manifestSize prev = ⟨1,20⟩ ∧ manifestSize pass.snapshot = ⟨2,4⟩ ∧
      Shrank guardedJob.threshold (manifestSize prev) (manifestSize pass.snapshot)) ∧
    ∀ index, Stored (swapStore 3) (sourceId swapSha guardedJob.watched.path) index →
      index.ids = [evening.text] ∧ protectedIds index = [] := by
  have hsizes : sizesFound swapSha .transparent guardedJob eveningEnv (swapStore 2) =
      some (some ⟨1,20⟩,⟨2,4⟩,false,some morning.text) := by decide +kernel
  obtain ⟨scanned,pass,prev,hfinds,hclean,hprev,hbefore,hafter,-⟩ := finds_of_sizesFound hsizes
  have hlast : Stored (swapStore 3) (sourceId swapSha guardedJob.watched.path)
      ⟨1,"/home/notes".toList,[⟨evening.text,1767376800⟩],none,none,none⟩ :=
    ⟨.index _,by decide +kernel,rfl⟩
  refine ⟨reachable_storeAfter _,⟨.index _,by decide +kernel,rfl⟩,⟨by decide +kernel,rfl⟩,?_,?_⟩
  · refine ⟨scanned,pass,prev,hfinds,hclean,hprev,hbefore,hafter,?_⟩
    rw [hbefore,hafter]
    exact .inl ⟨by decide,by norm_num [guardedJob]⟩
  · intro index hs
    obtain rfl := stored_unique hs hlast
    exact ⟨rfl,rfl⟩

end Run

end LargeDeletions
end BackupSync
