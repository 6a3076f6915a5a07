import BackupSync.VersionStore
import BackupSync.Retention

/-!
# The safety baseline of a shrinking source

When a source shrinks by more than a threshold, the version before the shrink is
kept beyond retention: first as pending, and pinned when the next clean scan
still finds the source small. Sizes saturate at 64 bits and the ratio of a shrink
is an exact rational.

The function changes nothing of an index but its three safety fields, and the
identifiers it puts there are identifiers of listed versions or were there
before.
-/
namespace BackupSync

structure SafetyWarning where
  ts : Int
  message : Str
  watchedPath : Option Str
  keptVersionId : Option Str
  deriving DecidableEq, Repr

namespace SafetyBaseline
open Retention

structure ManifestSize where
  fileCount : Nat
  fileBytes : Nat
  deriving DecidableEq, Repr

def saturatingAdd (a b : Nat) : Nat := min (a+b) 0xFFFFFFFFFFFFFFFF

def manifestSize (m : Manifest) : ManifestSize :=
  m.entries.toList.foldl (fun out item =>
    if item.2.kind = .file then
      ⟨saturatingAdd out.fileCount 1,saturatingAdd out.fileBytes item.2.len⟩
    else out) ⟨0,0⟩

def lossRatio (prev next : Nat) : ℚ :=
  if 0 < prev ∧ next ≤ prev then ((prev-next : Nat) : ℚ)/prev else 0

def shrinkRatio (prev next : ManifestSize) : Option ℚ :=
  if prev.fileBytes = 0 ∧ prev.fileCount = 0 then none
  else some (max 0 (min 1 (max (lossRatio prev.fileBytes next.fileBytes)
    (lossRatio prev.fileCount next.fileCount))))

/-- The outcomes of the reads and clocks the function consults. -/
structure SafetyEnv where
  pendingReadable : Bool
  firstSeenAt : Int
  warnedAt : Int
  deriving DecidableEq, Repr

def isListed (index : VersionIndex) (id : Str) : Bool := index.versions.any fun v => v.id = id

def clearPending (index : VersionIndex) : VersionIndex :=
  {index with safetyPendingVersionId := none, safetyPendingFirstSeenUnix := none}

/-- Pins of versions that are no longer listed are dropped. -/
def dropStalePinned (index : VersionIndex) : VersionIndex × Bool :=
  match index.safetyPinnedVersionId with
  | some pinned =>
      if isListed index pinned then (index,false)
      else ({index with safetyPinnedVersionId := none},true)
  | none => (index,false)

def dropStalePending (index : VersionIndex) : VersionIndex × Bool :=
  match index.safetyPendingVersionId with
  | some pending =>
      if isListed index pending then (index,false) else (clearPending index,true)
  | none => (index,false)

/-- std's max_by, which prefers the later of two equal versions. -/
def newestVersion (versions : List VersionInfo) : Option VersionInfo :=
  versions.foldl (fun best v => match best with
    | none => some v
    | some b => if versionCmp b v = .gt then some b else some v) none

def roundedPercent (ratio : ℚ) : Nat := (⌊ratio*100+1/2⌋).toNat

def warningText (percent : Nat) : Str :=
  "Protected path is ~".toList++(toString percent).toList++("% smaller than before. "++
    "Extra version kept while we confirm. If this was expected, remove it.").toList

variable {Text : Type} [StoreText Text]

/-- The manifest of the pending version; an unreadable one clears the pending state. -/
def pendingBaseline (env : SafetyEnv) (manifests : Map Str Text)
    (index : VersionIndex) : Option Manifest × VersionIndex × Bool :=
  match index.safetyPendingVersionId with
  | none => (none,index,false)
  | some pending =>
      let found := if env.pendingReadable then
          manifests[manifestName pending]?.bind StoreText.readManifest else none
      match found with
      | some m => (some m,index,false)
      | none => (none,clearPending index,true)

/-- The decision once the baseline to compare with is known. -/
def decideBaseline (threshold : ℚ) (watchedPath : Str) (env : SafetyEnv) (baseline next : Manifest)
    (index : VersionIndex) : Option SafetyWarning × VersionIndex × Bool :=
  match shrinkRatio (manifestSize baseline) (manifestSize next) with
  | none => (none,index,false)
  | some ratio =>
      if ratio < threshold then
        if index.safetyPendingVersionId.isSome then (none,clearPending index,true)
        else (none,index,false)
      else match index.safetyPendingVersionId with
        | some pending =>
            (none,{clearPending index with safetyPinnedVersionId := some pending},true)
        | none => match newestVersion index.versions with
          | none => (none,index,false)
          | some v =>
              (some ⟨env.warnedAt,warningText (roundedPercent ratio),some watchedPath,some v.id⟩,
                {index with
                  safetyPendingVersionId := some v.id
                  safetyPendingFirstSeenUnix := some env.firstSeenAt},true)

def maybePinLargeDeletionBaseline (threshold : ℚ) (watchedPath : Str) (env : SafetyEnv)
    (prev next : Manifest) (index : VersionIndex) (manifests : Map Str Text)
    (hadReadFailures : Bool) : Option SafetyWarning × VersionIndex × Bool :=
  if hadReadFailures ∨ threshold ≤ 0 then (none,index,false)
  else
    let (index,changed₁) := dropStalePinned index
    let (index,changed₂) := dropStalePending index
    if index.safetyPinnedVersionId.isSome then (none,index,changed₁ || changed₂)
    else
      let (baseline,index,changed₃) := pendingBaseline env manifests index
      let (warning,index,changed₄) :=
        decideBaseline threshold watchedPath env (baseline.getD prev) next index
      (warning,index,changed₁ || changed₂ || changed₃ || changed₄)

/-- The second index differs at most in its safety fields, and these name nothing new
but listed versions. -/
structure Adjusts (a b : VersionIndex) : Prop where
  schemaVersion_eq : b.schemaVersion = a.schemaVersion
  sourcePath_eq : b.sourcePath = a.sourcePath
  versions_eq : b.versions = a.versions
  pins : ∀ id, b.safetyPinnedVersionId = some id ∨ b.safetyPendingVersionId = some id →
    a.safetyPinnedVersionId = some id ∨ a.safetyPendingVersionId = some id ∨ id ∈ a.ids

theorem Adjusts.refl (a : VersionIndex) : Adjusts a a :=
  ⟨rfl,rfl,rfl,fun _ h => h.imp_right .inl⟩

theorem Adjusts.trans {a b c : VersionIndex} (h : Adjusts a b) (h' : Adjusts b c) :
    Adjusts a c := by
  refine ⟨h'.1.trans h.1,h'.2.trans h.2,h'.3.trans h.3,?_⟩
  intro id hid
  have hids : b.ids = a.ids := by rw [VersionIndex.ids,VersionIndex.ids,h.3]
  rcases h'.pins id hid with hb | hb | hb
  · exact h.pins id (.inl hb)
  · exact h.pins id (.inr hb)
  · exact .inr (.inr (hids ▸ hb))

theorem adjusts_clearPending (a : VersionIndex) : Adjusts a (clearPending a) := by
  refine ⟨rfl,rfl,rfl,?_⟩
  rintro id (h | h)
  · exact .inl h
  · cases h

theorem adjusts_dropStalePinned (a : VersionIndex) : Adjusts a (dropStalePinned a).1 := by
  unfold dropStalePinned
  split
  · split
    · exact .refl a
    · refine ⟨rfl,rfl,rfl,?_⟩
      rintro id (h | h)
      · cases h
      · exact .inr (.inl h)
  · exact .refl a

theorem adjusts_dropStalePending (a : VersionIndex) : Adjusts a (dropStalePending a).1 := by
  unfold dropStalePending
  split
  · split
    · exact .refl a
    · exact adjusts_clearPending a
  · exact .refl a

theorem adjusts_pendingBaseline (env : SafetyEnv) (manifests : Map Str Text)
    (a : VersionIndex) : Adjusts a (pendingBaseline env manifests a).2.1 := by
  unfold pendingBaseline
  split
  · exact .refl a
  · dsimp only
    split
    · exact .refl a
    · exact adjusts_clearPending a

theorem newestVersion_mem {versions : List VersionInfo} {v : VersionInfo}
    (h : newestVersion versions = some v) : v ∈ versions := by
  have hfold : ∀ (best : Option VersionInfo) (l : List VersionInfo),
      l.foldl (fun best v => match best with
        | none => some v
        | some b => if versionCmp b v = .gt then some b else some v) best = some v →
      best = some v ∨ v ∈ l := by
    intro best l
    induction l generalizing best with
    | nil => exact .inl
    | cons w l ih =>
        intro hl
        rcases ih _ hl with hb | hb
        · revert hb
          cases best with
          | none =>
              intro hb
              cases hb
              exact .inr List.mem_cons_self
          | some b =>
              dsimp only
              split
              · exact fun hb => .inl hb
              · intro hb
                cases hb
                exact .inr List.mem_cons_self
        · exact .inr (List.mem_cons_of_mem _ hb)
  rcases hfold none versions h with h | h
  · cases h
  · exact h

theorem adjusts_decideBaseline (threshold : ℚ) (watchedPath : Str) (env : SafetyEnv)
    (baseline next : Manifest) (a : VersionIndex) :
    Adjusts a (decideBaseline threshold watchedPath env baseline next a).2.1 := by
  unfold decideBaseline
  split
  · exact .refl a
  · split
    · split
      · exact adjusts_clearPending a
      · exact .refl a
    · split
      · rename_i pending hp
        refine ⟨rfl,rfl,rfl,?_⟩
        rintro id (h | h)
        · cases h
          exact .inr (.inl hp)
        · cases h
      · split
        · exact .refl a
        · rename_i v hv
          refine ⟨rfl,rfl,rfl,?_⟩
          rintro id (h | h)
          · exact .inl h
          · cases h
            exact .inr (.inr (List.mem_map.mpr ⟨v,newestVersion_mem hv,rfl⟩))

theorem adjusts_maybePin (threshold : ℚ) (watchedPath : Str) (env : SafetyEnv)
    (prev next : Manifest) (a : VersionIndex) (manifests : Map Str Text)
    (hadReadFailures : Bool) :
    Adjusts a (maybePinLargeDeletionBaseline threshold watchedPath env prev next a manifests
      hadReadFailures).2.1 := by
  have hstale : Adjusts a (dropStalePending (dropStalePinned a).1).1 :=
    (adjusts_dropStalePinned a).trans (adjusts_dropStalePending _)
  unfold maybePinLargeDeletionBaseline
  split
  · exact .refl a
  · dsimp only
    split
    · exact hstale
    · exact hstale.trans ((adjusts_pendingBaseline env manifests _).trans
        (adjusts_decideBaseline threshold watchedPath env _ next _))

end SafetyBaseline
end BackupSync
