import BackupSync.BlobReaders
import BackupSync.DaemonState
import BackupSync.RestoreVersion
import BackupSync.SafetyScans

/-!
# Scrubbing the stores of a configuration

scrub_versioned_store walks the manifests the indexes of the enabled watched
paths list, collects the hashes their file entries name in one set for each
destination, and looks every blob up. A full scrub decodes and hashes all of
them, a sampled one only those of a bounded selection.

A bad manifest is counted and passed over. An index that cannot be used, and a
blob that cannot be opened or decoded, end the scrub with an error.
-/
namespace BackupSync
open Checks ContentHash BackupCycle BackupSync.Configuration

/-- The whole result; the daemon looks at the part it extends. -/
structure ScrubSummary extends ScrubResult where
  mode : ScrubMode
  manifestsChecked : Nat
  referencedBlobs : Nat
  blobsHashed : Nat
  deriving DecidableEq, Repr

inductive ScrubError where
  | missingDestination (id path : Str)
  | leases
  | codec
  | readIndex (destination sourceId : Str)
  | parseIndex (destination sourceId : Str)
  | unsafeIndex (reason : VersionIndex.UnsafeId)
  | openBlob (path : BlobPath)
  | decodeBlob (error : CodecError)
  deriving DecidableEq, Repr

/-- The outcomes of the calls of one scrub. -/
structure ScrubEnv where
  leased : Bool
  codecLoaded : Bool
  /-- A look for an index that fails finds nothing. -/
  indexSeen : Str → Str → Bool
  indexReadable : Str → Str → Bool
  manifestReadable : Str → Str → Str → Bool
  /-- The order in which the destinations come out of their map. -/
  order : List Str
  /-- The blob could be opened and read to its end in time. -/
  blobReadable : Str → BlobPath → Bool
  wishes : Str → BlobPath → List Nat

structure ScrubOptions where
  mode : ScrubMode
  sampleBlobs : Nat
  sampleVersionsPerSource : Nat
  seed : Nat
  deriving DecidableEq, Repr

/-- What the walk over the manifests has collected. -/
structure Findings where
  referenced : Map Str (Std.ExtTreeSet Str compare)
  manifestsChecked : Nat
  manifestsBad : Nat

/-- The hashes of a destination; one without a set has none. -/
def Findings.hashes (found : Findings) (dest : Str) : Std.ExtTreeSet Str compare :=
  found.referenced[dest]?.getD ∅

structure BlobTally where
  missing : Nat
  hashed : Nat
  mismatches : Nat
  deriving DecidableEq, Repr

namespace Scrub

def greatestCommonDivisor : Nat → Nat → Nat
  | left,0 => left
  | left,right+1 => greatestCommonDivisor (right+1) (left%(right+1))
termination_by _ right => right
decreasing_by exact Nat.mod_lt left (Nat.succ_pos right)

def nextStep (len step : Nat) : Nat := if (step+1)%len = 0 then 1 else (step+1)%len

/-- The loop that looks for a stride without a common divisor; len rounds are enough. -/
def coprimeStep (len : Nat) : Nat → Nat → Nat
  | 0,step => step
  | fuel+1,step =>
      if greatestCommonDivisor step len = 1 then step else coprimeStep len fuel (nextStep len step)

/-- The loop that collects as many hashes as asked for. -/
def walkHashes (hashes : List Str) (step : Nat) : Nat → Nat → List Str
  | 0,_ => []
  | more+1,idx => hashes.getD idx []::walkHashes hashes step more ((idx+step)%hashes.length)

def selectHashesForMode (hashes : List Str) (sampleBlobs : Nat) (mode : ScrubMode) (seed : Nat) :
    List Str :=
  if mode = .full ∨ hashes = [] then []
  else
    let most := min sampleBlobs hashes.length
    if most = hashes.length then hashes
    else
      let step := if 97%hashes.length = 0 then 1 else 97%hashes.length
      walkHashes hashes (coprimeStep hashes.length hashes.length step) most (seed%hashes.length)

variable {Text : Type} [StoreText Text] (sha : Sha256) (prim : Primitives) (cfg : Config)
  (disk : Disk Text) (env : ScrubEnv) (opts : ScrubOptions)

def scrubDestinationFor (w : WatchedPath) : Except ScrubError Destination :=
  orElse (destinationById cfg w.destinationId) (.missingDestination w.destinationId w.path)

def noteEntry (dest : Str) (found : Findings) (e : ManifestEntry) : Findings :=
  if e.kind ≠ .file then found
  else match e.sha256 with
    | some hash => {found with
        referenced := found.referenced.insert dest ((found.hashes dest).insert hash)}
    | none => {found with manifestsBad := found.manifestsBad+1}

/-- The set of a destination is there as soon as one of its manifests could be parsed. -/
def openSet (dest : Str) (found : Findings) : Findings where
  referenced := found.referenced.insert dest (found.hashes dest)
  manifestsChecked := found.manifestsChecked+1
  manifestsBad := found.manifestsBad

/-- The manifest of a version, if its file is there and can be read and parsed. -/
def manifestFor (dest sid : Str) (v : VersionInfo) : Option Manifest :=
  match ((disk.store dest).dir sid).manifests[manifestName v.id]? with
  | none => none
  | some text => if env.manifestReadable dest sid v.id then StoreText.readManifest text else none

def checkManifest (dest sid : Str) (found : Findings) (v : VersionInfo) : Findings :=
  match manifestFor disk env dest sid v with
  | none => {found with manifestsBad := found.manifestsBad+1}
  | some m => m.entryValues.foldl (noteEntry dest) (openSet dest found)

def versionsFor (index : VersionIndex) : List VersionInfo :=
  match opts.mode with
  | .full => index.versions
  | .sampled => index.versions.drop (index.versions.length-max opts.sampleVersionsPerSource 1)

/-- The index file of a source, which has to be readable, parse and be safe. -/
def indexFor (dest sid : Str) (text : Text) : Except ScrubError VersionIndex := do
  require (env.indexReadable dest sid) (.readIndex dest sid)
  let index ← orElse (StoreText.readIndex text) (.parseIndex dest sid)
  index.validateVersionIndex.mapError .unsafeIndex
  return index

/-- The body of the loop over the watched paths. -/
def walkSource (found : Findings) (w : WatchedPath) : Except ScrubError Findings := do
  let d ← scrubDestinationFor cfg w
  let sid := sourceId sha w.path
  match ((disk.store d.path).dir sid).index with
  | none => .ok found
  | some text =>
      if env.indexSeen d.path sid then do
        let index ← indexFor env d.path sid text
        return (versionsFor opts index).foldl (checkManifest disk env d.path sid) found
      else .ok found

/-- The body of the loop over the hashes of a destination. -/
def scrubBlob (dest : Str) (selected : List Str) (tally : BlobTally) (hash : Str) :
    Except ScrubError BlobTally :=
  match (disk.store dest).blobs[blobPath sha hash]? with
  | none => .ok {tally with missing := tally.missing+1}
  | some blob =>
      if opts.mode = .full ∨ hash ∈ selected then do
        require (env.blobReadable dest (blobPath sha hash)) (.openBlob (blobPath sha hash))
        let computed ← (BlobStreams.sha256PlaintextBlob sha prim cfg.codec
          ⟨blob,env.wishes dest (blobPath sha hash)⟩).mapError .decodeBlob
        return {tally with
          hashed := tally.hashed+1
          mismatches := tally.mismatches+if computed = hash then 0 else 1}
      else .ok tally

def scrubDestination (found : Findings) (tally : BlobTally) (dest : Str) :
    Except ScrubError BlobTally :=
  let referenced := (found.hashes dest).toList
  let selected := selectHashesForMode referenced opts.sampleBlobs opts.mode opts.seed
  referenced.foldlM (scrubBlob sha prim cfg disk env opts dest selected) tally

def scrubVersionedStore : Except ScrubError ScrubSummary := do
  let _ ← (enabledWatched cfg).mapM (scrubDestinationFor cfg)
  require env.leased .leases
  require env.codecLoaded .codec
  let found ← (enabledWatched cfg).foldlM (walkSource sha cfg disk env opts) ⟨∅,0,0⟩
  let tally ← (listed env.order found.referenced.keys).foldlM
    (scrubDestination sha prim cfg disk env opts found) ⟨0,0,0⟩
  return {
    mode := opts.mode
    manifestsChecked := found.manifestsChecked
    manifestsBad := found.manifestsBad
    referencedBlobs := (found.referenced.toList.map fun item => item.2.size).sum
    missingBlobs := tally.missing
    blobsHashed := tally.hashed
    hashMismatches := tally.mismatches}

section Selection
variable {len step fuel : Nat}

theorem greatestCommonDivisor_eq (left right : Nat) :
    greatestCommonDivisor left right = Nat.gcd left right := by
  induction left,right using greatestCommonDivisor.induct with
  | case1 left => simp [greatestCommonDivisor]
  | case2 left right ih =>
      rw [greatestCommonDivisor,ih,Nat.gcd_comm left,Nat.gcd_rec (right+1) left,Nat.gcd_comm]

/-- The search for a stride as the unbounded loop it is in the source. -/
inductive StrideSearch (len : Nat) : Nat → Nat → Prop
  | done (step : Nat) : greatestCommonDivisor step len = 1 → StrideSearch len step step
  | next (step found : Nat) : greatestCommonDivisor step len ≠ 1 →
      StrideSearch len (nextStep len step) found → StrideSearch len step found

theorem StrideSearch.coprime {found : Nat} (h : StrideSearch len step found) :
    Nat.Coprime found len := by
  induction h with
  | done step h => rwa [greatestCommonDivisor_eq] at h
  | next step found _ _ ih => exact ih

/-- The search for a stride ends at the latest at the one before the number of hashes. -/
theorem strideSearch_coprimeStep (hpos : 0 < step) (hlt : step < len) (hfuel : len ≤ step+fuel) :
    StrideSearch len step (coprimeStep len fuel step) := by
  induction fuel generalizing step with
  | zero => omega
  | succ fuel ih =>
      rw [coprimeStep]
      split
      · rename_i h
        exact .done step h
      · rename_i h
        have hlast : step+1 ≠ len := by
          rintro rfl
          apply h
          rw [greatestCommonDivisor_eq]
          exact (Nat.coprime_self_add_right).mpr (Nat.coprime_one_right step)
        have hnext : nextStep len step = step+1 := by
          rw [nextStep,Nat.mod_eq_of_lt (by omega),if_neg (Nat.succ_ne_zero step)]
        apply StrideSearch.next step _ h
        rw [hnext]
        exact ih (by omega) (by omega) (by omega)

/-- Whatever the number of hashes, the search ends from the stride it starts with. -/
theorem strideSearch_first (hlen : 0 < len) :
    StrideSearch len (if 97%len = 0 then 1 else 97%len)
      (coprimeStep len len (if 97%len = 0 then 1 else 97%len)) := by
  have h97 : 97%len < len := Nat.mod_lt _ hlen
  rcases Nat.lt_or_ge 1 len with hone | hone
  · apply strideSearch_coprimeStep
    · split <;> omega
    · split <;> omega
    · omega
  · obtain rfl : len = 1 := by omega
    have hgcd : greatestCommonDivisor 1 1 = 1 := greatestCommonDivisor_eq 1 1
    rw [if_pos (Nat.mod_one 97),coprimeStep,if_pos hgcd]
    exact .done 1 hgcd

theorem length_walkHashes (hashes : List Str) (step more idx : Nat) :
    (walkHashes hashes step more idx).length = more := by
  induction more generalizing idx with
  | zero => rfl
  | succ more ih => rw [walkHashes,List.length_cons,ih]

theorem walkHashes_eq (hashes : List Str) (step more idx : Nat) (hidx : idx < hashes.length) :
    walkHashes hashes step more idx =
      (List.range more).map fun k => hashes.getD ((idx+k*step)%hashes.length) [] := by
  induction more generalizing idx with
  | zero => rfl
  | succ more ih =>
      rw [walkHashes,ih _ (Nat.mod_lt _ (by omega)),List.range_succ_eq_map,List.map_cons,List.map_map]
      congr 1
      · simp [Nat.mod_eq_of_lt hidx]
      · apply List.map_congr_left
        intro k _
        dsimp only [Function.comp]
        rw [Nat.mod_add_mod,Nat.succ_mul]
        congr 2
        omega

variable {hashes : List Str}

/-- A stride without a common divisor meets no place twice on the way round. -/
theorem nodup_walkHashes {more idx : Nat} (hnd : hashes.Nodup)
    (hstep : Nat.Coprime step hashes.length) (hmore : more ≤ hashes.length)
    (hidx : idx < hashes.length) : (walkHashes hashes step more idx).Nodup := by
  have hlen : 0 < hashes.length := by omega
  rw [walkHashes_eq _ _ _ _ hidx]
  apply List.Nodup.map_on _ List.nodup_range
  intro i hi j hj h
  rw [List.mem_range] at hi hj
  have hbound : ∀ n, n%hashes.length < hashes.length := fun n => Nat.mod_lt n hlen
  rw [List.getD_eq_getElem _ _ (hbound _),List.getD_eq_getElem _ _ (hbound _)] at h
  have hmod : (idx+i*step) ≡ (idx+j*step) [MOD hashes.length] := (hnd.getElem_inj_iff).mp h
  have hmul : i*step ≡ j*step [MOD hashes.length] := Nat.ModEq.add_left_cancel' idx hmod
  have hij : i ≡ j [MOD hashes.length] :=
    Nat.ModEq.cancel_right_of_coprime (Nat.Coprime.symm hstep) hmul
  exact Nat.ModEq.eq_of_lt_of_lt hij (by omega) (by omega)

theorem mem_of_mem_walkHashes {more idx : Nat} {hash : Str} (hidx : idx < hashes.length)
    (h : hash ∈ walkHashes hashes step more idx) : hash ∈ hashes := by
  rw [walkHashes_eq _ _ _ _ hidx] at h
  obtain ⟨k,-,rfl⟩ := List.mem_map.mp h
  rw [List.getD_eq_getElem _ _ (Nat.mod_lt _ (by omega))]
  exact List.getElem_mem _

/-- A sampled scrub selects as many different hashes as asked for, or all there are. -/
theorem selectHashesForMode_sampled (hnd : hashes.Nodup) (sampleBlobs seed : Nat) :
    (selectHashesForMode hashes sampleBlobs .sampled seed).Nodup ∧
      (selectHashesForMode hashes sampleBlobs .sampled seed) ⊆ hashes ∧
      (selectHashesForMode hashes sampleBlobs .sampled seed).length =
        min sampleBlobs hashes.length := by
  unfold selectHashesForMode
  split
  · rename_i h
    obtain rfl : hashes = [] := h.resolve_left (by decide)
    simp
  · rename_i h
    have hpos : 0 < hashes.length := List.length_pos_iff.mpr fun he => h (.inr he)
    dsimp only
    split
    · rename_i hall
      exact ⟨hnd,List.Subset.refl _,hall.symm⟩
    · have hseed : seed%hashes.length < hashes.length := Nat.mod_lt _ hpos
      have hstep := (strideSearch_first hpos).coprime
      exact ⟨nodup_walkHashes hnd hstep (Nat.min_le_right _ _) hseed,
        fun hash hh => mem_of_mem_walkHashes hseed hh,length_walkHashes _ _ _ _⟩

/-- The walk begins at the hash the seed points at. -/
theorem mem_selectHashesForMode {sampleBlobs seed : Nat} (hsample : 1 ≤ sampleBlobs)
    (hseed : seed < hashes.length) :
    hashes[seed] ∈ selectHashesForMode hashes sampleBlobs .sampled seed := by
  have hne : hashes ≠ [] := List.length_pos_iff.mp (by omega)
  rw [selectHashesForMode,if_neg (by simp [hne])]
  dsimp only
  split
  · exact List.getElem_mem hseed
  · obtain ⟨more,hmore⟩ := Nat.exists_eq_add_of_le' (show 1 ≤ min sampleBlobs hashes.length by omega)
    rw [hmore,walkHashes,Nat.mod_eq_of_lt hseed,List.getD_eq_getElem _ _ hseed]
    exact List.mem_cons_self

/-- Sampling ends with as many different hashes as asked for, and over the seeds it meets all. -/
theorem sampled_selection (hashes : List Str) (hnd : hashes.Nodup) (sampleBlobs : Nat) :
    (hashes ≠ [] → ∃ stride, StrideSearch hashes.length
        (if 97%hashes.length = 0 then 1 else 97%hashes.length) stride ∧
      ∀ seed, sampleBlobs < hashes.length → selectHashesForMode hashes sampleBlobs .sampled seed =
        walkHashes hashes stride sampleBlobs (seed%hashes.length)) ∧
    (∀ seed, (selectHashesForMode hashes sampleBlobs .sampled seed).length =
        min sampleBlobs hashes.length ∧
      (selectHashesForMode hashes sampleBlobs .sampled seed).Nodup ∧
      ∀ hash ∈ selectHashesForMode hashes sampleBlobs .sampled seed, hash ∈ hashes) ∧
    (1 ≤ sampleBlobs → ∀ hash ∈ hashes, ∃ seed < hashes.length,
      hash ∈ selectHashesForMode hashes sampleBlobs .sampled seed) := by
  refine ⟨?_,?_,?_⟩
  · intro hne
    refine ⟨_,strideSearch_first (List.length_pos_iff.mpr hne),?_⟩
    intro seed hlt
    have hmost : min sampleBlobs hashes.length = sampleBlobs := Nat.min_eq_left (Nat.le_of_lt hlt)
    rw [selectHashesForMode,if_neg (by simp [hne])]
    dsimp only
    rw [hmost,if_neg (Nat.ne_of_lt hlt)]
  · intro seed
    obtain ⟨hdistinct,hmem,hlen⟩ := selectHashesForMode_sampled hnd sampleBlobs seed
    exact ⟨hlen,hdistinct,hmem⟩
  · intro hsample hash hh
    obtain ⟨seed,hseed,rfl⟩ := List.mem_iff_getElem.mp hh
    exact ⟨seed,hseed,mem_selectHashesForMode hsample hseed⟩

theorem sampled_selection_three : ∃ seed < 3,
    "c".toList ∈ selectHashesForMode ["a".toList,"b".toList,"c".toList] 2 .sampled seed :=
  (sampled_selection ["a".toList,"b".toList,"c".toList] (by decide) 2).2.2 (by decide) _ (by decide)

end Selection

end Scrub
end BackupSync
