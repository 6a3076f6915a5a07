import BackupSync.BackupRestore
import BackupSync.Scrub

/-!
# What the report of a full scrub says

The sets of hashes the walk collects are described by the files of the stores
alone, and so are the manifests it counts as bad. From there the loop over the
blobs is a count over pairs of a destination and a hash.

A scrub without complaints means that restore finds every manifest and every
blob, and that the contents pass the check of their hash. The counts themselves
are right as long as no blob is damaged so badly that it cannot be decoded: such
a blob is not counted but ends the scrub.
-/
namespace BackupSync
open Checks Interruptible ContentHash BackupCycle Scrub SafetyScans RestoreVersion StoreCompleteness
  BackupRestore BackupSync.Configuration

namespace ScrubReport

variable {Text : Type} {sha : Sha256} {prim : Primitives} {cfg : Config}
  {disk : Disk Text} {env : ScrubEnv} {opts : ScrubOptions} {found found' : Findings}
  {dest sid p hash : Str} {m : Manifest} {w : WatchedPath} {v : VersionInfo}

/-- A file entry of the manifest names the hash. -/
def Names (m : Manifest) (hash : Str) : Prop :=
  ∃ e ∈ m.entryValues, e.kind = .file ∧ e.sha256 = some hash

/-- A file entry of the manifest has no hash. -/
def Unhashed (m : Manifest) : Prop :=
  ∃ e ∈ m.entryValues, e.kind = .file ∧ e.sha256 = none

section Walk
variable [StoreText Text]

theorem hashes_insert (set : Std.ExtTreeSet Str compare) (checked bad : Nat) :
    Findings.hashes ⟨found.referenced.insert dest set,checked,bad⟩ p =
      if p = dest then set else found.hashes p := by
  by_cases h : p = dest
  · subst h
    simp [Findings.hashes]
  · rw [if_neg h,Findings.hashes,getElem?_insert,if_neg]
    · rfl
    · simpa using Ne.symm h

theorem mem_noteEntry (found : Findings) (e : ManifestEntry) :
    hash ∈ (noteEntry dest found e).hashes p ↔
      hash ∈ found.hashes p ∨ (p = dest ∧ e.kind = .file ∧ e.sha256 = some hash) := by
  unfold noteEntry
  split
  · rename_i hk
    simp [hk]
  · cases hs : e.sha256 with
    | none =>
        change hash ∈ found.hashes p ↔ _
        simp
    | some h =>
        rename_i hk
        dsimp only
        rw [hashes_insert]
        by_cases hp : p = dest
        · subst hp
          rw [if_pos rfl,Std.ExtTreeSet.mem_insert]
          simp [not_not.mp hk,or_comm]
        · simp [hp]

theorem mem_openSet (found : Findings) :
    hash ∈ (openSet dest found).hashes p ↔ hash ∈ found.hashes p := by
  unfold openSet
  rw [hashes_insert]
  split
  · rename_i h
    rw [h]
  · rfl

theorem bad_noteEntry (found : Findings) (e : ManifestEntry) :
    0 < (noteEntry dest found e).manifestsBad ↔
      0 < found.manifestsBad ∨ (e.kind = .file ∧ e.sha256 = none) := by
  unfold noteEntry
  split
  · rename_i hk
    simp [hk]
  · rename_i hk
    cases hs : e.sha256 with
    | none => simp [not_not.mp hk]
    | some h => simp

theorem mem_checkManifest (found : Findings) (v : VersionInfo) :
    hash ∈ (checkManifest disk env dest sid found v).hashes p ↔ hash ∈ found.hashes p ∨
      (p = dest ∧ ∃ m, manifestFor disk env dest sid v = some m ∧ Names m hash) := by
  unfold checkManifest
  cases manifestFor disk env dest sid v with
  | none =>
      change hash ∈ found.hashes p ↔ _
      simp
  | some m =>
      have hnotes := foldl_accumulates (f := noteEntry dest)
        (P := fun found : Findings => hash ∈ found.hashes p) mem_noteEntry m.entryValues
        (openSet dest found)
      dsimp only
      rw [hnotes,mem_openSet]
      simp only [Option.some.injEq,exists_eq_left',Names]
      constructor
      · rintro (h | ⟨e,he,hp,hn⟩)
        · exact .inl h
        · exact .inr ⟨hp,e,he,hn⟩
      · rintro (h | ⟨hp,e,he,hn⟩)
        · exact .inl h
        · exact .inr ⟨e,he,hp,hn⟩

theorem bad_checkManifest (found : Findings) (v : VersionInfo) :
    0 < (checkManifest disk env dest sid found v).manifestsBad ↔ 0 < found.manifestsBad ∨
      ∀ m, manifestFor disk env dest sid v = some m → Unhashed m := by
  unfold checkManifest
  cases manifestFor disk env dest sid v with
  | none => simp
  | some m =>
      have hbad := foldl_accumulates (f := noteEntry dest)
        (P := fun found : Findings => 0 < found.manifestsBad) bad_noteEntry m.entryValues
        (openSet dest found)
      dsimp only
      rw [hbad]
      simp [Unhashed,openSet]

/-- The index a watched path has at its destination. -/
def Indexed (sha : Sha256) (cfg : Config) (disk : Disk Text) (w : WatchedPath) (p : Str)
    (index : VersionIndex) : Prop :=
  (∃ d, destinationById cfg w.destinationId = some d ∧ d.path = p) ∧
    Stored (disk.store p) (sourceId sha w.path) index

/-- The walk comes to the index of a watched path. -/
def Walked (sha : Sha256) (cfg : Config) (disk : Disk Text) (env : ScrubEnv) (w : WatchedPath)
    (p : Str) (index : VersionIndex) : Prop :=
  Indexed sha cfg disk w p index ∧ env.indexSeen p (sourceId sha w.path) = true

/-- One round of the walk: without an index that is seen there is nothing to do. -/
theorem walkSource_eq_ok (h : walkSource sha cfg disk env opts found w = .ok found') :
    ∃ d, destinationById cfg w.destinationId = some d ∧
      ((∀ index, ¬ Walked sha cfg disk env w d.path index) ∧ found' = found ∨
        ∃ index, Walked sha cfg disk env w d.path index ∧
          found' = (versionsFor opts index).foldl
            (checkManifest disk env d.path (sourceId sha w.path)) found) := by
  obtain ⟨d,hd,h⟩ := bind_eq_ok.mp h
  have hd := orElse_eq_ok.mp hd
  refine ⟨d,hd,?_⟩
  dsimp only at h
  cases hi : ((disk.store d.path).dir (sourceId sha w.path)).index with
  | none =>
      rw [hi] at h
      cases h
      refine .inl ⟨?_,rfl⟩
      rintro index ⟨⟨-,text,htext,-⟩,-⟩
      rw [hi] at htext
      cases htext
  | some text =>
      rw [hi] at h
      dsimp only at h
      split at h
      · rename_i hseen
        obtain ⟨index,hindex,h⟩ := bind_eq_ok.mp h
        obtain ⟨-,hindex⟩ := then_eq_ok.mp hindex
        obtain ⟨index',hread,hindex⟩ := bind_eq_ok.mp hindex
        obtain ⟨-,hindex⟩ := then_eq_ok.mp hindex
        cases hindex
        cases h
        exact .inr ⟨index,⟨⟨⟨d,hd,rfl⟩,text,hi,orElse_eq_ok.mp hread⟩,hseen⟩,rfl⟩
      · rename_i hunseen
        cases h
        exact .inl ⟨fun index hwalked => hunseen hwalked.2,rfl⟩

theorem stored_unique {st : Store Text} {a b : VersionIndex} (ha : Stored st sid a)
    (hb : Stored st sid b) : a = b := by
  obtain ⟨text,ht,ha⟩ := ha
  obtain ⟨text',ht',hb⟩ := hb
  rw [ht] at ht'
  obtain rfl := Option.some.inj ht'
  rw [ha] at hb
  exact Option.some.inj hb

/-- Where the walk goes on for a watched path, the index decides. -/
theorem walkSource_accumulates {P : Findings → Prop} {Q : Str → Str → VersionInfo → Prop}
    (hfull : opts.mode = .full)
    (hstep : ∀ dest sid found v, P (checkManifest disk env dest sid found v) ↔
      P found ∨ Q dest sid v)
    (h : walkSource sha cfg disk env opts found w = .ok found') : P found' ↔ P found ∨
      ∃ p index, Walked sha cfg disk env w p index ∧
        ∃ v ∈ index.versions, Q p (sourceId sha w.path) v := by
  obtain ⟨d,hd,hcase⟩ := walkSource_eq_ok h
  have hplace : ∀ {p index}, Walked sha cfg disk env w p index → p = d.path := by
    rintro p index ⟨⟨⟨d',hd',rfl⟩,-⟩,-⟩
    rw [hd] at hd'
    rw [Option.some.inj hd']
  rcases hcase with ⟨hnone,rfl⟩ | ⟨index,hwalked,rfl⟩
  · constructor
    · exact .inl
    · rintro (hP | ⟨p,index,hwalked,-⟩)
      · exact hP
      · rw [hplace hwalked] at hwalked
        exact absurd hwalked (hnone index)
  · rw [foldl_accumulates (hstep d.path (sourceId sha w.path))]
    have hversions : versionsFor opts index = index.versions := by
      unfold versionsFor
      rw [hfull]
    rw [hversions]
    constructor
    · rintro (hP | ⟨v,hv,hQ⟩)
      · exact .inl hP
      · exact .inr ⟨d.path,index,hwalked,v,hv,hQ⟩
    · rintro (hP | ⟨p,index',hwalked',v,hv,hQ⟩)
      · exact .inl hP
      · obtain rfl := hplace hwalked'
        obtain rfl := stored_unique hwalked.1.2 hwalked'.1.2
        exact .inr ⟨v,hv,hQ⟩

/-- A hash that a manifest the walk could use refers to, with the destination. -/
def Collected (sha : Sha256) (cfg : Config) (disk : Disk Text) (env : ScrubEnv)
    (pair : Str × Str) : Prop :=
  ∃ w ∈ enabledWatched cfg, ∃ p index, Walked sha cfg disk env w p index ∧ ∃ v ∈ index.versions,
    pair.1 = p ∧ ∃ m, manifestFor disk env p (sourceId sha w.path) v = some m ∧ Names m pair.2

theorem mem_walk (hfull : opts.mode = .full)
    (h : (enabledWatched cfg).foldlM (walkSource sha cfg disk env opts) ⟨∅,0,0⟩ = .ok found)
    (pair : Str × Str) :
    pair.2 ∈ found.hashes pair.1 ↔ Collected sha cfg disk env pair := by
  have hwalk := foldlM_accumulates (P := fun found : Findings => pair.2 ∈ found.hashes pair.1)
    (fun a w b hw => walkSource_accumulates (P := fun found : Findings => pair.2 ∈ found.hashes pair.1)
      hfull (fun dest sid found v => mem_checkManifest found v) hw) h
  have hempty : pair.2 ∉ Findings.hashes ⟨∅,0,0⟩ pair.1 := by
    simp [Findings.hashes]
  rw [hwalk]
  simp only [hempty,false_or,Collected]

theorem bad_walk (hfull : opts.mode = .full)
    (h : (enabledWatched cfg).foldlM (walkSource sha cfg disk env opts) ⟨∅,0,0⟩ = .ok found) :
    0 < found.manifestsBad ↔ ∃ w ∈ enabledWatched cfg, ∃ p index, Walked sha cfg disk env w p index ∧
      ∃ v ∈ index.versions, ∀ m, manifestFor disk env p (sourceId sha w.path) v = some m →
        Unhashed m := by
  have hwalk := foldlM_accumulates (P := fun found : Findings => 0 < found.manifestsBad)
    (fun a w b hw => walkSource_accumulates (P := fun found : Findings => 0 < found.manifestsBad)
      hfull (fun dest sid found v => bad_checkManifest found v) hw) h
  rw [hwalk]
  simp only [Nat.lt_irrefl,false_or]

end Walk

section Blobs
variable {selected : List Str} {tally tally' : BlobTally} {pair : Str × Str}

/-- The blob of a pair of a destination and a hash. -/
def blobOf (sha : Sha256) (disk : Disk Text) (pair : Str × Str) : Option Bytes :=
  (disk.store pair.1).blobs[blobPath sha pair.2]?

/-- The stored bytes decode to a plaintext with the hash. -/
def DecodesTo (sha : Sha256) (prim : Primitives) (cfg : Config) (blob : Bytes) (hash : Str) : Prop :=
  ∃ content, BlobCodec.decodeBlob prim cfg.codec.cipher blob = .ok content ∧
    sha256Hex sha content = hash

def absent (sha : Sha256) (disk : Disk Text) (pair : Str × Str) : Bool :=
  (blobOf sha disk pair).isNone

/-- The blob is there and does not decode to a plaintext with the hash. -/
def damaged (sha : Sha256) (prim : Primitives) (cfg : Config) (disk : Disk Text) (pair : Str × Str) :
    Bool :=
  (blobOf sha disk pair).any fun blob =>
    match BlobCodec.decodeBlob prim cfg.codec.cipher blob with
    | .ok content => sha256Hex sha content ≠ pair.2
    | .error _ => true

theorem damaged_iff : damaged sha prim cfg disk pair = true ↔
    ∃ blob, blobOf sha disk pair = some blob ∧ ¬ DecodesTo sha prim cfg blob pair.2 := by
  unfold damaged DecodesTo
  cases blobOf sha disk pair with
  | none => simp
  | some blob =>
      rw [Option.any_some]
      cases hd : BlobCodec.decodeBlob prim cfg.codec.cipher blob with
      | error e => simp [hd]
      | ok content => simp [hd]

/-- Nothing about the blob of a pair can end a scrub. -/
def Tolerated (sha : Sha256) (prim : Primitives) (cfg : Config) (disk : Disk Text) (env : ScrubEnv)
    (pair : Str × Str) : Prop :=
  ∀ blob, blobOf sha disk pair = some blob →
    env.blobReadable pair.1 (blobPath sha pair.2) = true ∧
      ∃ content, BlobCodec.decodeBlob prim cfg.codec.cipher blob = .ok content

/-- The reader of the scrub hashes what restore would write. -/
theorem sha256PlaintextBlob_eq_ok {blob : Bytes} {wishes : List Nat} {h : Str} :
    BlobStreams.sha256PlaintextBlob sha prim cfg.codec ⟨blob,wishes⟩ = .ok h ↔
      ∃ content, BlobCodec.decodeBlob prim cfg.codec.cipher blob = .ok content ∧
        sha256Hex sha content = h := by
  rw [BlobStreams.sha256PlaintextBlob,BlobReaders.sha256Blob_eq,map_eq_ok]

theorem scrubBlob_of_absent (hb : blobOf sha disk (dest,hash) = none) :
    scrubBlob sha prim cfg disk env opts dest selected tally hash =
      .ok {tally with missing := tally.missing+1} := by
  unfold blobOf at hb
  unfold scrubBlob
  rw [hb]

theorem scrubBlob_of_present {blob : Bytes} (hfull : opts.mode = .full)
    (hb : blobOf sha disk (dest,hash) = some blob) :
    scrubBlob sha prim cfg disk env opts dest selected tally hash = .ok tally' ↔
      env.blobReadable dest (blobPath sha hash) = true ∧
        ∃ content, BlobCodec.decodeBlob prim cfg.codec.cipher blob = .ok content ∧
          tally' = {tally with
            hashed := tally.hashed+1
            mismatches := tally.mismatches+if sha256Hex sha content = hash then 0 else 1} := by
  unfold blobOf at hb
  unfold scrubBlob
  rw [hb]
  dsimp only
  rw [if_pos (.inl hfull),then_eq_ok,require_eq_ok,bind_eq_ok]
  constructor
  · rintro ⟨hread,computed,hc,h⟩
    obtain ⟨content,hd,rfl⟩ := sha256PlaintextBlob_eq_ok.mp (mapError_eq_ok.mp hc)
    cases h
    exact ⟨hread,content,hd,rfl⟩
  · rintro ⟨hread,content,hd,rfl⟩
    exact ⟨hread,_,mapError_eq_ok.mpr (sha256PlaintextBlob_eq_ok.mpr ⟨content,hd,rfl⟩),rfl⟩

theorem scrubBlob_ok_iff (hfull : opts.mode = .full) :
    (∃ t, scrubBlob sha prim cfg disk env opts dest selected tally hash = .ok t) ↔
      Tolerated sha prim cfg disk env (dest,hash) := by
  cases hb : blobOf sha disk (dest,hash) with
  | none =>
      constructor
      · intro _ blob hblob
        rw [hb] at hblob
        cases hblob
      · intro _
        exact ⟨_,scrubBlob_of_absent hb⟩
  | some blob =>
      constructor
      · rintro ⟨t,ht⟩ blob' hblob
        rw [hb] at hblob
        obtain rfl := Option.some.inj hblob
        obtain ⟨hread,content,hd,-⟩ := (scrubBlob_of_present hfull hb).mp ht
        exact ⟨hread,content,hd⟩
      · intro h
        obtain ⟨hread,content,hd⟩ := h blob hb
        exact ⟨_,(scrubBlob_of_present hfull hb).mpr ⟨hread,content,hd,rfl⟩⟩

theorem scrubBlob_counts (hfull : opts.mode = .full)
    (h : scrubBlob sha prim cfg disk env opts dest selected tally hash = .ok tally') :
    tally'.missing = tally.missing+(absent sha disk (dest,hash)).toNat ∧
      tally'.mismatches = tally.mismatches+(damaged sha prim cfg disk (dest,hash)).toNat := by
  cases hb : blobOf sha disk (dest,hash) with
  | none =>
      rw [scrubBlob_of_absent hb] at h
      cases h
      simp [absent,damaged,hb]
  | some blob =>
      obtain ⟨-,content,hd,rfl⟩ := (scrubBlob_of_present hfull hb).mp h
      by_cases hh : sha256Hex sha content = hash
      · simp [absent,damaged,hb,hd,hh]
      · simp [absent,damaged,hb,hd,hh]

/-- The pairs the loops over the blobs visit, in their order. -/
def visited (env : ScrubEnv) (found : Findings) : List (Str × Str) :=
  (listed env.order found.referenced.keys).flatMap fun dest =>
    (found.hashes dest).toList.map (Prod.mk dest)

theorem mem_visited {pair : Str × Str} :
    pair ∈ visited env found ↔ pair.2 ∈ found.hashes pair.1 := by
  simp only [visited,List.mem_flatMap,List.mem_map,mem_listed,mem_keys,
    Std.ExtTreeSet.mem_toList]
  constructor
  · rintro ⟨dest,-,hash,hh,rfl⟩
    exact hh
  · intro h
    refine ⟨pair.1,?_,pair.2,h,rfl⟩
    by_contra hk
    rw [Findings.hashes,getElem?_eq_none hk] at h
    exact Std.ExtTreeSet.not_mem_empty h

theorem nodup_visited : (visited env found).Nodup := by
  unfold visited
  rw [List.nodup_flatMap]
  constructor
  · intro dest _
    refine List.Nodup.map (fun a b h => (Prod.mk.inj h).2) ?_
    exact (found.hashes dest).distinct_toList.imp Std.ReflCmp.ne_of_cmp_ne_eq
  · refine (nodup_listed nodup_keys).imp ?_
    intro a b hab pair ha hb
    obtain ⟨h,-,rfl⟩ := List.mem_map.mp ha
    obtain ⟨h',-,he⟩ := List.mem_map.mp hb
    exact hab (Prod.mk.inj he).1.symm

/-- The loops over the blobs end well if every pair they visit is tolerated. -/
theorem scrub_ok_iff (hfull : opts.mode = .full) (tally : BlobTally) :
    (∃ t, (listed env.order found.referenced.keys).foldlM
      (scrubDestination sha prim cfg disk env opts found) tally = .ok t) ↔
      ∀ pair ∈ visited env found, Tolerated sha prim cfg disk env pair := by
  rw [foldlM_ok_iff (Q := fun dest => ∀ hash ∈ (found.hashes dest).toList,
    Tolerated sha prim cfg disk env (dest,hash))]
  · simp only [visited,List.mem_flatMap,List.mem_map]
    constructor
    · rintro h pair ⟨dest,hdest,hash,hh,rfl⟩
      exact h dest hdest hash hh
    · intro h dest hdest hash hh
      exact h _ ⟨dest,hdest,hash,hh,rfl⟩
  · intro tally dest
    exact foldlM_ok_iff fun tally hash => scrubBlob_ok_iff hfull

/-- A counter of the tally, where it counts the pairs with a property. -/
theorem scrub_counts {μ : BlobTally → Nat} {c : Str × Str → Bool}
    (hstep : ∀ dest selected tally hash tally',
      scrubBlob sha prim cfg disk env opts dest selected tally hash = .ok tally' →
        μ tally' = μ tally+(c (dest,hash)).toNat)
    (h : (listed env.order found.referenced.keys).foldlM
      (scrubDestination sha prim cfg disk env opts found) tally = .ok tally') :
    μ tally' = μ tally+(visited env found).countP c := by
  have hsum : ∀ pairs : List (Str × Str), (pairs.map fun pair => (c pair).toNat).sum =
      pairs.countP c := by
    intro pairs
    induction pairs with
    | nil => rfl
    | cons pair pairs ih =>
        rw [List.map_cons,List.sum_cons,List.countP_cons,ih]
        cases c pair <;> simp [Nat.add_comm]
  have hdest : ∀ t dest t', scrubDestination sha prim cfg disk env opts found t dest = .ok t' →
      μ t' = μ t+((found.hashes dest).toList.map (Prod.mk dest)).countP c := by
    intro t dest t' ht
    have hcount := foldlM_counts (hstep dest _) ht
    rw [hcount,← hsum,List.map_map]
    rfl
  have hall := foldlM_counts hdest h
  rw [hall,visited,List.countP_flatMap]
  rfl

end Blobs

section Report
variable [StoreText Text] {r : ScrubSummary}

theorem scrubVersionedStore_eq_ok (h : scrubVersionedStore sha prim cfg disk env opts = .ok r) :
    ∃ found tally,
      (enabledWatched cfg).foldlM (walkSource sha cfg disk env opts) ⟨∅,0,0⟩ = .ok found ∧
      (listed env.order found.referenced.keys).foldlM
        (scrubDestination sha prim cfg disk env opts found) ⟨0,0,0⟩ = .ok tally ∧
      r.manifestsBad = found.manifestsBad ∧ r.missingBlobs = tally.missing ∧
      r.hashMismatches = tally.mismatches := by
  obtain ⟨-,-,h⟩ := bind_eq_ok.mp h
  obtain ⟨-,h⟩ := then_eq_ok.mp h
  obtain ⟨-,h⟩ := then_eq_ok.mp h
  obtain ⟨found,hfound,h⟩ := bind_eq_ok.mp h
  obtain ⟨tally,htally,h⟩ := bind_eq_ok.mp h
  cases h
  exact ⟨found,tally,hfound,htally,rfl,rfl,rfl⟩

/-- An error of write_file_atomic_from_blob that its reading of the blob is to blame for. -/
def blamesContent : RestoreError → Bool
  | .decodeBlob _ => true
  | .hashMismatch _ _ => true
  | _ => false

/-- The planned file is written with the content of its hash, unless some other call fails. -/
structure PassesDigestCheck (sha : Sha256) (prim : Primitives) (codec : BlobCodec)
    (blobs : Map BlobPath Bytes) (pf : PlannedFile) : Prop where
  decodes : ∃ blob content, blobs[pf.blobPath]? = some blob ∧
    sha256Hex sha content = pf.expectedSha256 ∧ ∀ wishes, ∃ total,
      BlobStreams.copyBlobPlaintextToWriter prim codec ⟨blob,wishes⟩ = .ok (total,content)
  blameless : ∀ (env : RestoreEnv) (s t : RestoreTree) (e : RestoreError),
    Fails (writeFileAtomicFromBlob sha prim codec blobs env pf) s e t → blamesContent e = false

theorem spec_createDirAll_blameless (env : RestoreEnv) (names : List Str) :
    Spec (fun _ => True) (createDirAll env names) (fun _ _ => True)
      (fun e _ => blamesContent e = false) (fun _ => True) := by
  apply spec_foldlM (fun _ _ _ => True) _ [] ()
  intro x _ _ _
  apply spec_read_bind
  intro s _
  split
  · exact spec_pure _ fun _ _ => trivial
  · exact spec_fail _ fun _ _ => rfl
  · exact spec_check_bind (fun _ _ => rfl) fun _ => spec_step fun _ _ => ⟨trivial,trivial⟩

variable {blobs : Map BlobPath Bytes}

/-- A blob that decodes to the content of its hash passes the check of restore. -/
theorem passesDigestCheck {pf : PlannedFile} {blob : Bytes}
    (hblob : blobs[pf.blobPath]? = some blob) (hd : DecodesTo sha prim cfg blob pf.expectedSha256) :
    PassesDigestCheck sha prim cfg.codec blobs pf := by
  obtain ⟨content,hcontent,hhash⟩ := hd
  constructor
  · refine ⟨blob,content,hblob,hhash,?_⟩
    intro wishes
    refine ⟨SafetyBaseline.saturatingAdd 0 content.length,?_⟩
    rw [BlobStreams.copyBlobPlaintextToWriter,BlobReaders.copyBlob_eq,hcontent]
    rfl
  · intro renv s t e hfails
    have hspec : Spec (fun _ => True) (writeFileAtomicFromBlob sha prim cfg.codec blobs renv pf)
        (fun _ _ => True) (fun e _ => blamesContent e = false) (fun _ => True) := by
      refine spec_bind (spec_createDirAll_blameless renv _) fun _ => ?_
      refine spec_check_bind (fun _ _ => rfl) fun _ => ?_
      refine spec_lift_bind (fun e he => ?_) fun blob' hb => ?_
      · rw [hblob] at he
        cases he
      · rw [hblob] at hb
        cases hb
        refine spec_check_bind (fun _ _ => rfl) fun _ => ?_
        refine spec_lift_bind (fun e he => ?_) fun content' hc => ?_
        · rw [BlobCodec.copyBlobPlaintextToWriter,hcontent] at he
          cases he
        · rw [BlobCodec.copyBlobPlaintextToWriter,hcontent] at hc
          cases hc
          rw [hhash,beq_self_eq_true]
          apply spec_bind (R := fun _ _ => True) (spec_pure () fun _ _ => trivial)
          intro _
          apply spec_read_bind
          intro s _
          exact spec_check_bind (fun _ _ => rfl) fun _ => spec_step fun _ _ => ⟨trivial,trivial⟩
    exact hspec.fails trivial hfails

/-- Restore finds the manifest of a version and the blobs of all its files, and every file passes
the check of its hash. -/
def Recoverable (sha : Sha256) (prim : Primitives) (cfg : Config) (st : Store Text)
    (sid id : Str) : Prop :=
  ∃ m, HasManifest st sid id m ∧
    (∀ freeSpace missing,
      preflightRestore sha cfg m st.blobs freeSpace ≠ .error (.missingContent missing)) ∧
    ∀ e ∈ m.entryValues, e.kind = .file → ∃ pf, planEntry sha st.blobs e = some (.ok pf) ∧
      PassesDigestCheck sha prim cfg.codec st.blobs pf

theorem planEntry_of_blob {e : ManifestEntry} (hk : e.kind = .file) (hs : e.sha256 = some hash)
    (hb : blobPath sha hash ∈ blobs) : planEntry sha blobs e =
      some (.ok ⟨e.relPath,blobPath sha hash,hash,e.mtimeUnix,e.mtimeNanos⟩) := by
  unfold planEntry
  rw [if_neg (not_not.mpr hk),hs]
  exact if_pos hb

theorem ensureRestoreFreeSpace_ne_missing (freeSpace : Option Nat) (bytes : Nat)
    (missing : List MissingContent) :
    ensureRestoreFreeSpace cfg freeSpace bytes ≠ .error (.missingContent missing) := by
  intro h
  unfold ensureRestoreFreeSpace at h
  obtain h | ⟨free,-,h⟩ := bind_eq_error.mp h
  · cases (orElse_eq_error.mp h).2
  · obtain h | ⟨-,-,h⟩ := bind_eq_error.mp h
    · cases (require_eq_error.mp h).2
    · split at h
      · cases (require_eq_error.mp h).2
      · cases h

/-- Where every file entry is planned, the preflight misses nothing. -/
theorem preflightRestore_ne_missing
    (h : ∀ e ∈ m.entryValues, e.kind = .file → ∃ pf, planEntry sha blobs e = some (.ok pf))
    (freeSpace : Option Nat) (missing : List MissingContent) :
    preflightRestore sha cfg m blobs freeSpace ≠ .error (.missingContent missing) := by
  have hnone : missingOf (m.entryValues.filterMap (planEntry sha blobs)) = [] := by
    apply List.filterMap_eq_nil_iff.mpr
    intro plan hplan
    obtain ⟨e,he,hplan⟩ := List.mem_filterMap.mp hplan
    by_cases hk : e.kind = .file
    · obtain ⟨pf,hpf⟩ := h e he hk
      rw [hpf] at hplan
      obtain rfl := Option.some.inj hplan
      rfl
    · rw [planEntry,if_pos hk] at hplan
      cases hplan
  intro he
  unfold preflightRestore at he
  dsimp only at he
  obtain he | ⟨-,-,he⟩ := bind_eq_error.mp he
  · rw [hnone] at he
    cases (require_eq_error.mp he).1
  · obtain he | ⟨-,-,he⟩ := bind_eq_error.mp he
    · exact ensureRestoreFreeSpace_ne_missing _ _ _ he
    · cases he

theorem hasManifest_of_manifestFor (h : manifestFor disk env p sid v = some m) :
    HasManifest (disk.store p) sid v.id m := by
  unfold manifestFor at h
  split at h
  · cases h
  · rename_i text ht
    split at h
    · exact ⟨text,ht,h⟩
    · cases h

/-- A scrub in which no call fails. -/
def calmScrub : ScrubEnv where
  leased := true
  codecLoaded := true
  indexSeen _ _ := true
  indexReadable _ _ := true
  manifestReadable _ _ _ := true
  order := []
  blobReadable _ _ := true
  wishes _ _ := []

def fullScrub : ScrubOptions := ⟨.full,200,2,0⟩

theorem indexed_notes (codec : BlobCodec) {st : Store PlainText}
    (h : (st.dir notesId).index = some (.index notesIndex)) :
    Indexed notesSha (notesConfig codec) (Disk.setStore "/mnt/main".toList st ∅) notesJob.watched
      "/mnt/main".toList notesIndex := by
  refine ⟨⟨⟨"main".toList,"/mnt/main".toList,none,[]⟩,rfl,rfl⟩,.index notesIndex,?_,rfl⟩
  rw [Disk.store_setStore_self]
  exact h

/-- The store of the first backup without its manifest. -/
def strippedStore : Store PlainText :=
  firstStore.eraseManifest notesId (manifestName morning.text)

def strippedDisk : Disk PlainText := Disk.setStore "/mnt/main".toList strippedStore ∅

/-- A hash that a listed version of an enabled watched path refers to, with the destination. -/
def Referenced (sha : Sha256) (cfg : Config) (disk : Disk Text) (pair : Str × Str) : Prop :=
  ∃ w ∈ enabledWatched cfg, ∃ index, Indexed sha cfg disk w pair.1 index ∧
    ∃ v ∈ index.versions, ∃ m, HasManifest (disk.store pair.1) (sourceId sha w.path) v.id m ∧
      Names m pair.2

/-- No call of the scrub fails and nothing takes too long. -/
structure CalmScrub (env : ScrubEnv) : Prop where
  leased : env.leased = true
  codecLoaded : env.codecLoaded = true
  indexSeen : ∀ dest sid, env.indexSeen dest sid = true
  indexReadable : ∀ dest sid, env.indexReadable dest sid = true
  manifestReadable : ∀ dest sid id, env.manifestReadable dest sid id = true
  blobReadable : ∀ dest path, env.blobReadable dest path = true

/-- Every enabled watched path has its destination, and its index, if any, parses and is safe. -/
def IndexesAccepted (sha : Sha256) (cfg : Config) (disk : Disk Text) : Prop :=
  ∀ w ∈ enabledWatched cfg, ∃ d, destinationById cfg w.destinationId = some d ∧
    ∀ text, ((disk.store d.path).dir (sourceId sha w.path)).index = some text →
      ∃ index, StoreText.readIndex text = some index ∧ index.validateVersionIndex = .ok ()

theorem manifestFor_eq_some (hcalm : CalmScrub env) :
    manifestFor disk env p sid v = some m ↔ HasManifest (disk.store p) sid v.id m := by
  refine ⟨hasManifest_of_manifestFor,?_⟩
  rintro ⟨text,ht,hm⟩
  unfold manifestFor
  rw [ht]
  dsimp only
  rw [if_pos (hcalm.manifestReadable p sid v.id),hm]

theorem collected_iff (hcalm : CalmScrub env) {pair : Str × Str} :
    Collected sha cfg disk env pair ↔ Referenced sha cfg disk pair := by
  constructor
  · rintro ⟨w,hw,p,index,⟨hindex,-⟩,v,hv,rfl,m,hm,hn⟩
    exact ⟨w,hw,index,hindex,v,hv,m,(manifestFor_eq_some hcalm).mp hm,hn⟩
  · rintro ⟨w,hw,index,hindex,v,hv,m,hm,hn⟩
    exact ⟨w,hw,pair.1,index,⟨hindex,hcalm.indexSeen _ _⟩,v,hv,rfl,m,(manifestFor_eq_some hcalm).mpr hm,hn⟩

/-- With accepted indexes the walk over the manifests comes to its end. -/
theorem walk_ok (hcalm : CalmScrub env) (hidx : IndexesAccepted sha cfg disk) (opts : ScrubOptions)
    (found : Findings) :
    ∃ found', (enabledWatched cfg).foldlM (walkSource sha cfg disk env opts) found = .ok found' := by
  have hsource : ∀ found, ∀ w ∈ enabledWatched cfg,
      ∃ found', walkSource sha cfg disk env opts found w = .ok found' := by
    intro found w hw
    obtain ⟨d,hd,hindex⟩ := hidx w hw
    cases hi : ((disk.store d.path).dir (sourceId sha w.path)).index with
    | none =>
        refine ⟨found,bind_eq_ok.mpr ⟨d,orElse_eq_ok.mpr hd,?_⟩⟩
        dsimp only
        rw [hi]
    | some text =>
        obtain ⟨index,hread,hvalid⟩ := hindex text hi
        refine ⟨(versionsFor opts index).foldl (checkManifest disk env d.path (sourceId sha w.path))
          found,bind_eq_ok.mpr ⟨d,orElse_eq_ok.mpr hd,?_⟩⟩
        dsimp only
        rw [hi]
        dsimp only
        rw [if_pos (hcalm.indexSeen _ _)]
        refine bind_eq_ok.mpr ⟨index,?_,rfl⟩
        exact then_eq_ok.mpr ⟨require_eq_ok.mpr (hcalm.indexReadable _ _),
          bind_eq_ok.mpr ⟨index,orElse_eq_ok.mpr hread,
            then_eq_ok.mpr ⟨mapError_eq_ok.mpr hvalid,rfl⟩⟩⟩
  generalize enabledWatched cfg = ws at hsource
  induction ws generalizing found with
  | nil => exact ⟨found,rfl⟩
  | cons w ws ih =>
      obtain ⟨next,hnext⟩ := hsource found w List.mem_cons_self
      obtain ⟨last,hlast⟩ := ih next fun found w hw => hsource found w (List.mem_cons_of_mem _ hw)
      exact ⟨last,foldlM_cons_eq_ok.mpr ⟨next,hnext,hlast⟩⟩

theorem ncard_of_mem {α : Type} {xs : List α} (hnd : xs.Nodup) {S : Set α} {c : α → Bool}
    (h : ∀ x, x ∈ S ↔ x ∈ xs ∧ c x = true) : S.ncard = xs.countP c := by
  classical
  have hS : S = ((xs.filter c).toFinset : Set α) := by
    ext x
    simp [h]
  rw [hS,Set.ncard_coe_finset,List.toFinset_card_of_nodup (hnd.filter _),List.countP_eq_length_filter]

/-- Every referenced blob that is there can be decoded, to whatever plaintext. -/
def AllDecode (sha : Sha256) (prim : Primitives) (cfg : Config) (disk : Disk Text) : Prop :=
  ∀ pair, Referenced sha cfg disk pair → ∀ blob, blobOf sha disk pair = some blob →
    ∃ content, BlobCodec.decodeBlob prim cfg.codec.cipher blob = .ok content

/-- The referenced blobs that are gone. -/
def MissingPairs (sha : Sha256) (cfg : Config) (disk : Disk Text) : Set (Str × Str) :=
  {pair | Referenced sha cfg disk pair ∧ blobOf sha disk pair = none}

/-- The referenced blobs that are there but do not decode to a plaintext with their hash. -/
def DamagedPairs (sha : Sha256) (prim : Primitives) (cfg : Config) (disk : Disk Text) :
    Set (Str × Str) :=
  {pair | Referenced sha cfg disk pair ∧ ∃ blob, blobOf sha disk pair = some blob ∧
    ¬ DecodesTo sha prim cfg blob pair.2}

end Report

/-- The store of the first backup with other bytes in its blob. -/
def spoiledDisk (blob : Bytes) : Disk PlainText :=
  Disk.setStore "/mnt/main".toList
    (firstStore.putBlob (blobPath notesSha (sha256Hex notesSha (ascii "hi"))) blob) ∅

def compressedConfig : Config := notesConfig ⟨none,true,1048576,3⟩

theorem calm_calmScrub : CalmScrub calmScrub :=
  ⟨rfl,rfl,fun _ _ => rfl,fun _ _ => rfl,fun _ _ _ => rfl,fun _ _ => rfl⟩

theorem indexesAccepted_spoiledDisk (blob : Bytes) :
    IndexesAccepted notesSha compressedConfig (spoiledDisk blob) := by
  intro w hw
  obtain rfl : w = notesJob.watched := by
    have hall : enabledWatched compressedConfig = [notesJob.watched] := by decide
    rw [hall] at hw
    exact List.mem_singleton.mp hw
  refine ⟨⟨"main".toList,"/mnt/main".toList,none,[]⟩,rfl,?_⟩
  intro text ht
  rw [spoiledDisk,Disk.store_setStore_self,Store.dir_putBlob] at ht
  obtain rfl := Option.some.inj (index_firstStore.symm.trans ht)
  exact ⟨notesIndex,rfl,by decide⟩

/-- A compressed blob that was cut off after its header. -/
def cutBlob : Bytes := BlobCodec.compMagic++[BlobCodec.compVersion,BlobCodec.compAlgZstdChunked]

end ScrubReport
end BackupSync
