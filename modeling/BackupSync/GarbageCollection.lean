import BackupSync.VersionStore

/-!
# Garbage collection of blobs

gc_unreferenced_blobs reads every manifest of every source, listed or not, and
then removes the blobs whose name no entry mentions. A manifest that cannot be
read or parsed stops it before the first removal; a directory that cannot be
listed stops it on the way. A directory that a failed look takes for missing is
passed over, and with it the manifests of its source. The order in which
directories list their files is arbitrary, and a removal may fail without ending
the pass.

A blob that some manifest the pass sees mentions by a well-formed hash survives
every step, and a complete pass with all its removals leaves no other.
-/
namespace BackupSync
open Checks Interruptible Interruptible.Action ContentHash

/-- The outcomes of the calls of one pass. -/
structure GcEnv where
  sourcesSeen : Bool
  sourcesListable : Bool
  /-- The look at the manifests directory of a source. -/
  manifestsSeen : Str → Bool
  manifestReadable : Str → Str → Bool
  blobsSeen : Bool
  blobsListable : Bool
  order : List BlobPath
  blobListable : BlobPath → Bool
  removable : BlobPath → Bool

namespace GarbageCollection

variable {Text : Type} [StoreText Text]

def manifestHashes (m : Manifest) : List Str := m.entries.toList.filterMap fun item => item.2.sha256

/-- The hashes of one file of a manifests directory. -/
def fileReferences (env : GcEnv) (file : Str × Str × Text) : Except StoreError (List Str) :=
  if hasJsonExtension file.2.1 then do
    require (env.manifestReadable file.1 file.2.1) .gcReadManifest
    let m ← orElse (StoreText.readManifest file.2.2) .gcParseManifest
    return manifestHashes m
  else .ok []

/-- Every file of every manifests directory that is seen, with its source. -/
def manifestFiles (env : GcEnv) (st : Store Text) : List (Str × Str × Text) :=
  (st.sources.toList.filter fun source => env.manifestsSeen source.1).flatMap fun source =>
    source.2.manifests.toList.map fun file => (source.1,file)

def gcBlob (env : GcEnv) (referenced : List Str) (path : BlobPath) : Store.Op Text Unit :=
  match path with
  | [_,name] => do
      check (env.blobListable path) .gcListBlobs
      if name ∉ referenced ∧ env.removable path then step (Store.eraseBlob path) else pure ()
  | _ => pure ()

def gcBlobs (env : GcEnv) (referenced : List Str) (paths : List BlobPath) : Store.Op Text Unit :=
  paths.foldlM (fun _ path => gcBlob env referenced path) ()

def gcUnreferencedBlobs (env : GcEnv) : Store.Op Text Unit := do
  let st ← read
  if st.sourcesExist && env.sourcesSeen then do
    check env.sourcesListable .gcListSources
    let referenced ← lift (gather (fileReferences env) (manifestFiles env st))
    if env.blobsSeen then do
      check env.blobsListable .gcListBlobs
      gcBlobs env referenced (listed env.order st.blobs.keys)
    else pure ()
  else pure ()

omit [StoreText Text] in
theorem mem_manifestFiles {env : GcEnv} {st : Store Text} {sid name : Str} {text : Text} :
    (sid,name,text) ∈ manifestFiles env st ↔
      env.manifestsSeen sid = true ∧ (st.dir sid).manifests[name]? = some text := by
  unfold manifestFiles
  rw [List.mem_flatMap]
  constructor
  · rintro ⟨⟨sid',d⟩,hs,hf⟩
    obtain ⟨⟨name',text'⟩,hn,he⟩ := List.mem_map.mp hf
    cases he
    obtain ⟨hs,hseen⟩ := List.mem_filter.mp hs
    rw [mem_toList_iff_getElem?_eq_some] at hs hn
    rw [Store.dir,hs]
    exact ⟨hseen,hn⟩
  · rintro ⟨hseen,h⟩
    unfold Store.dir at h
    cases hs : st.sources[sid]? with
    | none =>
        rw [hs] at h
        simp [SourceDir.empty] at h
    | some d =>
        rw [hs] at h
        exact ⟨(sid,d),List.mem_filter.mpr ⟨mem_toList_iff_getElem?_eq_some.mpr hs,hseen⟩,
          List.mem_map.mpr ⟨(name,text),mem_toList_iff_getElem?_eq_some.mpr h,rfl⟩⟩

theorem mem_manifestHashes {m : Manifest} {hash : Str} :
    hash ∈ manifestHashes m ↔ ∃ (k : Str) (e : ManifestEntry), m.entries[k]? = some e ∧
      e.sha256 = some hash := by
  unfold manifestHashes
  rw [List.mem_filterMap]
  constructor
  · rintro ⟨⟨k,e⟩,hk,he⟩
    exact ⟨k,e,mem_toList_iff_getElem?_eq_some.mp hk,he⟩
  · rintro ⟨k,e,hk,he⟩
    exact ⟨(k,e),mem_toList_iff_getElem?_eq_some.mpr hk,he⟩

/-- Some manifest file of the store mentions the hash. -/
def Referenced (st : Store Text) (hash : Str) : Prop :=
  ∃ (sid name : Str) (text : Text) (m : Manifest), (st.dir sid).manifests[name]? = some text ∧
    hasJsonExtension name = true ∧ StoreText.readManifest text = some m ∧
    hash ∈ manifestHashes m

/-- Some manifest file of a source that is seen mentions the hash. -/
def Mentioned (env : GcEnv) (st : Store Text) (hash : Str) : Prop :=
  ∃ (sid name : Str) (text : Text) (m : Manifest), env.manifestsSeen sid = true ∧
    (st.dir sid).manifests[name]? = some text ∧ hasJsonExtension name = true ∧
    StoreText.readManifest text = some m ∧ hash ∈ manifestHashes m

theorem mentioned_iff {env : GcEnv} (h : ∀ sid, env.manifestsSeen sid = true) (st : Store Text)
    (hash : Str) : Mentioned env st hash ↔ Referenced st hash := by
  simp only [Mentioned,Referenced,h,true_and]

theorem mentioned_congr {env : GcEnv} {s t : Store Text} (h : ∀ sid, t.dir sid = s.dir sid)
    (hash : Str) : Mentioned env t hash ↔ Mentioned env s hash := by
  simp only [Mentioned,h]

/-- The collected hashes are the mentioned ones. -/
theorem mem_references {env : GcEnv} {st : Store Text} {referenced : List Str}
    (h : gather (fileReferences env) (manifestFiles env st) = .ok referenced) (hash : Str) :
    hash ∈ referenced ↔ Mentioned env st hash := by
  rw [mem_gather h]
  constructor
  · rintro ⟨⟨sid,name,text⟩,hfile,hashes,hf,hmem⟩
    obtain ⟨hseen,hfile⟩ := mem_manifestFiles.mp hfile
    unfold fileReferences at hf
    split at hf
    · rename_i hj
      obtain ⟨-,hf⟩ := then_eq_ok.mp hf
      obtain ⟨m,hm,hf⟩ := bind_eq_ok.mp hf
      cases hf
      exact ⟨sid,name,text,m,hseen,hfile,hj,orElse_eq_ok.mp hm,hmem⟩
    · cases hf
      cases hmem
  · rintro ⟨sid,name,text,m,hseen,hfile,hj,hm,hmem⟩
    have hfile := mem_manifestFiles.mpr ⟨hseen,hfile⟩
    obtain ⟨hashes,hf⟩ := gather_ok_of_mem h hfile
    refine ⟨_,hfile,hashes,hf,?_⟩
    unfold fileReferences at hf
    rw [if_pos hj] at hf
    obtain ⟨-,hf⟩ := then_eq_ok.mp hf
    obtain ⟨m',hm',hf⟩ := bind_eq_ok.mp hf
    cases hf
    dsimp only at hm'
    rw [hm] at hm'
    cases hm'
    exact hmem

/-- What every removal of an unmentioned blob keeps, the pass keeps. -/
theorem keeps_gc {I : Store Text → Prop} (env : GcEnv)
    (hI : ∀ st directory name, I st → ¬ Mentioned env st name → I (st.eraseBlob [directory,name])) :
    Keeps I (gcUnreferencedBlobs env) := by
  let J (referenced : List Str) (st : Store Text) : Prop :=
    I st ∧ ∀ hash, hash ∈ referenced ↔ Mentioned env st hash
  have hblob : ∀ referenced path, Triple (J referenced) (gcBlob env referenced path)
      (fun _ => J referenced) I := by
    intro referenced path
    unfold gcBlob
    split
    · rename_i directory name
      refine triple_check_bind (fun st h => h.1) fun _ => ?_
      split
      · rename_i hn
        refine triple_step fun st h => ?_
        have herase := hI st directory name h.1 (fun href => hn.1 ((h.2 name).mpr href))
        exact ⟨⟨herase,fun hash => (h.2 hash).trans (mentioned_congr (fun _ => rfl) hash).symm⟩,herase⟩
      · exact triple_pure () fun st h => h
    · exact triple_pure () fun st h => h
  have hblobs : ∀ referenced paths, Triple (J referenced) (gcBlobs env referenced paths)
      (fun _ => I) I := by
    intro referenced paths
    refine triple_conseq (triple_foldlM (fun _ _ => J referenced) ?_ paths ()) (fun st h => h)
      (fun _ st h => h.1) fun st h => h
    intro path _ _
    exact hblob referenced path
  refine triple_read_bind fun st _ => ?_
  split
  · refine triple_check_bind (fun st' h => h.2) fun _ => ?_
    refine triple_lift_bind (fun st' h => h.2) fun referenced hr => ?_
    split
    · refine triple_check_bind (fun st' h => h.2) fun _ => ?_
      refine spec_pre (hblobs referenced _) ?_
      rintro st' ⟨rfl,h⟩
      exact ⟨h,mem_references hr⟩
    · exact triple_pure () fun st' h => h.2
  · exact triple_pure () fun st' h => h.2

section Sweep
variable {s t : Store Text} {env : GcEnv}

/-- No look of the pass fails. -/
structure Sighted (env : GcEnv) : Prop where
  sources : env.sourcesSeen = true
  manifests : ∀ sid, env.manifestsSeen sid = true
  blobs : env.blobsSeen = true

/-- A pass leaves the directories of the sources alone. -/
theorem dir_gc (env : GcEnv) (s : Store Text) (sid : Str) :
    (gcUnreferencedBlobs env s).store.dir sid = s.dir sid := by
  have hkeeps : Keeps (fun u : Store Text => u.dir sid = s.dir sid) (gcUnreferencedBlobs env) :=
    keeps_gc env fun _ _ _ h _ => h
  exact hkeeps.store rfl

/-- A mentioned blob survives the pass. -/
theorem mem_gc_of_mentioned {directory name : Str} (hmem : [directory,name] ∈ s.blobs)
    (h : Mentioned env s name) : [directory,name] ∈ (gcUnreferencedBlobs env s).store.blobs := by
  have hkeeps : Keeps (fun u : Store Text => (∀ sid, u.dir sid = s.dir sid) ∧
      [directory,name] ∈ u.blobs) (gcUnreferencedBlobs env) := by
    refine keeps_gc env fun u d n hu hnot => ⟨hu.1,?_⟩
    have hne : n ≠ name := by
      rintro rfl
      exact hnot ((mentioned_congr hu.1 _).mpr h)
    rw [Store.eraseBlob,mem_erase]
    exact ⟨by simp [hne],hu.2⟩
  exact (hkeeps.store ⟨fun _ => rfl,hmem⟩).2

omit [StoreText Text] in
theorem mem_of_mem_eraseBlob {path p : BlobPath} (h : p ∈ (s.eraseBlob path).blobs) : p ∈ s.blobs :=
  Std.ExtTreeMap.mem_of_mem_erase h

omit [StoreText Text] in
/-- One blob: it stays only if it is mentioned, and no blob appears. -/
theorem returns_gcBlob (hrem : ∀ p, env.removable p = true) {referenced : List Str}
    {path : BlobPath} (hr : Returns (gcBlob env referenced path) s () t) :
    (∀ d n, path = [d,n] → path ∈ t.blobs → n ∈ referenced) ∧ ∀ p, p ∈ t.blobs → p ∈ s.blobs := by
  unfold gcBlob at hr
  split at hr
  · rename_i directory name
    obtain ⟨-,hr⟩ := returns_check_bind.mp hr
    split at hr
    · obtain rfl := returns_step.mp hr
      refine ⟨?_,fun p hp => mem_of_mem_eraseBlob hp⟩
      intro d n _ hmem
      simp [Store.eraseBlob] at hmem
    · rename_i hkeep
      obtain ⟨-,rfl⟩ := returns_pure.mp hr
      refine ⟨?_,fun p hp => hp⟩
      intro d n heq _
      cases heq
      by_contra hnot
      exact hkeep ⟨hnot,hrem _⟩
  · rename_i hshape
    obtain ⟨-,rfl⟩ := returns_pure.mp hr
    refine ⟨?_,fun p hp => hp⟩
    intro d n heq
    exact absurd heq (hshape d n)

/-- A pass that comes to its end with all removals leaves mentioned blobs only. -/
theorem returns_gc_swept (hrem : ∀ p, env.removable p = true) (hexist : s.sourcesExist = true)
    (hsources : env.sourcesSeen = true) (hblobs : env.blobsSeen = true)
    (hr : Returns (gcUnreferencedBlobs env) s () t) (d n : Str) (hmem : [d,n] ∈ t.blobs) :
    Mentioned env s n := by
  have hr := returns_read_bind.mp hr
  rw [if_pos (by rw [hexist,hsources]; rfl)] at hr
  obtain ⟨-,hr⟩ := returns_check_bind.mp hr
  obtain ⟨referenced,hreferenced,hr⟩ := returns_lift_bind.mp hr
  rw [if_pos hblobs] at hr
  obtain ⟨-,hr⟩ := returns_check_bind.mp hr
  have hsub : ∀ p, p ∈ t.blobs → p ∈ s.blobs := by
    refine returns_foldlM (fun _ u => ∀ p, p ∈ u.blobs → p ∈ s.blobs) ?_ (fun p hp => hp) hr
    intro path _ _ u _ u' hu hstep p hp
    exact hu p ((returns_gcBlob hrem hstep).2 p hp)
  have hall := returns_foldlM_forall (P := fun path (u : Store Text) =>
    ∀ d n, path = [d,n] → path ∈ u.blobs → n ∈ referenced)
    (fun path _ _ u _ u' hstep => (returns_gcBlob hrem hstep).1)
    (fun path _ p _ u _ u' hp hstep d n heq hmem =>
      hp d n heq ((returns_gcBlob hrem hstep).2 p hmem)) hr
  have hlisted : [d,n] ∈ listed env.order s.blobs.keys :=
    mem_listed.mpr (mem_keys.mpr (hsub _ hmem))
  rw [← mem_references hreferenced]
  exact hall _ hlisted d n rfl hmem

end Sweep

end GarbageCollection
end BackupSync
