import BackupSync.ReplicatedVersions

/-!
# A replica between two steps

replicate_one_pair copies a manifest before the blobs it names, while the index of
the replica may list that version already. A version that could be restored from
the replica can still be restored after every step if the replica has the blobs of
the manifest that replaces its own. The copy of a blob does no harm, since the blob
of the source was checked before, and the new index is published only after both
sides were checked again.

Without the blobs the overwritten version is lost until they have arrived.
-/
namespace BackupSync
open Checks Interruptible Interruptible.Action ContentHash BackupFolder Replication ReplicaContents
  ReplicatedVersions StoreCompleteness

namespace ReplicaInterruption

variable {Text : Type} [StoreText Text] {sha : Sha256} {prim : Primitives} {codec : BlobCodec}
  {src s t u : Store Text} {sid id : Str}

/-- The manifest of a version is there and every blob it names decodes to its hash. -/
def Restorable (sha : Sha256) (prim : Primitives) (codec : BlobCodec) (sid id : Str)
    (st : Store Text) : Prop :=
  ∃ mtext m, (st.dir sid).manifests[manifestName id]? = some mtext ∧
    StoreText.readManifest mtext = some m ∧ ∀ hash ∈ fileHashes m, GoodBlob sha prim codec st hash

/-- What a replica that started as s offers when a run is found in state t. -/
structure Usable (sha : Sha256) (prim : Primitives) (codec : BlobCodec) (src s t : Store Text) :
    Prop where
  index : ∀ sid, (t.dir sid).index = (s.dir sid).index ∨ (t.dir sid).index = (src.dir sid).index
  kept : ∀ sid id, IndexLists t sid id → Restorable sha prim codec sid id s →
    Restorable sha prim codec sid id t
  added : ∀ sid id, (t.dir sid).index = (src.dir sid).index → IndexLists t sid id →
    ¬ IndexLists s sid id → Restorable sha prim codec sid id t

/-- The replica has the blobs of every source manifest that would replace one of a version it can
restore. -/
def BlobsBeforeManifests (sha : Sha256) (prim : Primitives) (codec : BlobCodec)
    (src s : Store Text) : Prop :=
  ∀ sid id, IndexLists src sid id → IndexLists s sid id → Restorable sha prim codec sid id s →
    ∀ mtext m, (src.dir sid).manifests[manifestName id]? = some mtext →
      StoreText.readManifest mtext = some m → ∀ hash ∈ fileHashes m, GoodBlob sha prim codec s hash

/-- A source directory of the replica: its index is the old one and what it could restore it still
can, or it mirrors the source. -/
def Standing (sha : Sha256) (prim : Primitives) (codec : BlobCodec) (src s t : Store Text)
    (sid : Str) : Prop :=
  ((t.dir sid).index = (s.dir sid).index ∧ ∀ id, IndexLists s sid id →
      Restorable sha prim codec sid id s → Restorable sha prim codec sid id t) ∨
  ∃ text index, (src.dir sid).index = some text ∧ StoreText.readIndex text = some index ∧
    Mirrors sha prim codec src t sid text index

structure Safe (sha : Sha256) (prim : Primitives) (codec : BlobCodec) (src s t : Store Text) :
    Prop where
  good : ∀ hash, GoodBlob sha prim codec s hash → GoodBlob sha prim codec t hash
  standing : ∀ sid, Standing sha prim codec src s t sid

instance {hash : Str} {st : Store Text} : Decidable (GoodBlob sha prim codec st hash) :=
  decidable_of_iff (∃ blob ∈ st.blobs[blobPath sha hash]?,
    BlobCodec.sha256PlaintextBlob prim sha codec blob = .ok hash) Iff.rfl

instance : Decidable (Restorable sha prim codec sid id t) :=
  decidable_of_iff (∃ mtext ∈ (t.dir sid).manifests[manifestName id]?,
    ∃ m ∈ StoreText.readManifest mtext, ∀ hash ∈ fileHashes m, GoodBlob sha prim codec t hash)
    (by simp only [Restorable,Option.mem_def,exists_and_left])

instance : Decidable (IndexLists t sid id) :=
  decidable_of_iff (∃ text ∈ (t.dir sid).index, ∃ index ∈ StoreText.readIndex text, id ∈ index.ids)
    (by simp only [IndexLists,Option.mem_def,exists_and_left])

section Steps

omit [StoreText Text] in
theorem manifest_putManifest_self (name : Str) (mtext : Text) :
    ((t.putManifest sid name mtext).dir sid).manifests[name]? = some mtext := by
  simp [Store.putManifest]

omit [StoreText Text] in
theorem manifest_putManifest_of_ne {name name' : Str} (hne : name ≠ name') (mtext : Text) :
    ((t.putManifest sid name mtext).dir sid).manifests[name']? = (t.dir sid).manifests[name']? := by
  simp [Store.putManifest,getElem?_insert,hne]

theorem Restorable.mono (h : Restorable sha prim codec sid id t)
    (hm : (u.dir sid).manifests[manifestName id]? = (t.dir sid).manifests[manifestName id]?)
    (hg : ∀ hash, GoodBlob sha prim codec t hash → GoodBlob sha prim codec u hash) :
    Restorable sha prim codec sid id u := by
  obtain ⟨mtext,m,hfile,hread,hblobs⟩ := h
  exact ⟨mtext,m,hm.trans hfile,hread,fun hash hmem => hg hash (hblobs hash hmem)⟩

variable {index : VersionIndex}

theorem restorable_of_mirrors {text : Text} (h : Mirrors sha prim codec src t sid text index)
    (hid : id ∈ index.ids) : Restorable sha prim codec sid id t := by
  obtain ⟨v,hv,rfl⟩ := List.mem_map.mp hid
  obtain ⟨mtext,m,-,htheirs,hread,hblobs⟩ := h.version v hv
  refine ⟨mtext,m,htheirs,hread,?_⟩
  intro hash hmem
  obtain ⟨e,he,hhash⟩ := List.mem_filterMap.mp hmem
  obtain ⟨k,hk⟩ := Manifest.mem_entryValues.mp he
  split at hhash
  · rename_i hkind
    exact hblobs k e hk hkind hash hhash
  · cases hhash

theorem Standing.mono (h : Standing sha prim codec src s t sid)
    (hi : (u.dir sid).index = (t.dir sid).index)
    (hm : (u.dir sid).manifests = (t.dir sid).manifests)
    (hg : ∀ hash, GoodBlob sha prim codec t hash → GoodBlob sha prim codec u hash) :
    Standing sha prim codec src s u sid := by
  rcases h with ⟨hindex,hkept⟩ | ⟨text,index,htext,hread,hmirrors⟩
  · refine .inl ⟨hi.trans hindex,?_⟩
    intro id hlists hs
    exact (hkept id hlists hs).mono (by rw [hm]) hg
  · exact .inr ⟨text,index,htext,hread,mirrors_mono hmirrors hi (fun v _ => by rw [hm]) hg⟩

/-- A step below one source directory. -/
theorem Safe.setDir {d : SourceDir Text} (h : Safe sha prim codec src s t)
    (hd : Standing sha prim codec src s (t.setDir sid d) sid) :
    Safe sha prim codec src s (t.setDir sid d) := by
  refine ⟨h.good,?_⟩
  intro sid'
  by_cases he : sid' = sid
  · exact he ▸ hd
  · have hdir := Store.dir_setDir_of_ne he d t
    exact (h.standing sid').mono (by rw [hdir]) (by rw [hdir]) fun _ hg => hg

/-- A manifest of the source whose blobs are there may replace that of a restorable version. -/
theorem safe_putManifest {mtext : Text} {m : Manifest} (hcond : BlobsBeforeManifests sha prim codec src s)
    (hsrc : IndexLists src sid id) (hours : (src.dir sid).manifests[manifestName id]? = some mtext)
    (hread : StoreText.readManifest mtext = some m) (h : Safe sha prim codec src s t) :
    Safe sha prim codec src s (t.putManifest sid (manifestName id) mtext) := by
  refine h.setDir ?_
  rcases h.standing sid with ⟨hi,hkept⟩ | ⟨text,index,htext,hr,hmirrors⟩
  · refine .inl ⟨?_,?_⟩
    · rw [Store.dir_setDir_self]
      exact hi
    intro id' hlists hs
    by_cases he : id' = id
    · subst he
      refine ⟨mtext,m,manifest_putManifest_self _ mtext,hread,?_⟩
      intro hash hmem
      exact h.good hash (hcond sid id' hsrc hlists hs mtext m hours hread hash hmem)
    · refine (hkept id' hlists hs).mono ?_ fun _ hg => hg
      exact manifest_putManifest_of_ne (fun hname => he (manifestName_injective hname).symm) mtext
  · exact .inr ⟨text,index,htext,hr,mirrors_putManifest hours hmirrors⟩

theorem undisturbed_safe (hcond : BlobsBeforeManifests sha prim codec src s) :
    Undisturbed sha prim codec src (Safe sha prim codec src s) := by
  constructor
  · exact fun t h => ⟨h.good,fun sid => (h.standing sid).mono rfl rfl fun _ hg => hg⟩
  · intro t sid d hi hm h
    refine h.setDir ((h.standing sid).mono ?_ ?_ fun _ hg => hg)
    · rw [Store.dir_setDir_self,hi]
    · rw [Store.dir_setDir_self,hm]
  · exact fun t sid id text m hlists hours hread h => safe_putManifest hcond hlists hours hread h
  · intro t hash blob hplain h
    have hg := fun hash' => gains_goodBlob hash' t hash blob hplain
    exact ⟨fun hash' hs => hg hash' (h.good hash' hs),fun sid => (h.standing sid).mono rfl rfl hg⟩
  · exact fun t sid d text index htext hread hm h => h.setDir (.inr ⟨text,index,htext,hread,hm⟩)

end Steps

section Pair
variable [DecidableEq Text] {env : PairEnv} {cfg : Config} {pair : PairCounters}

omit [DecidableEq Text] in
theorem safe_self : Safe sha prim codec src s s :=
  ⟨fun _ h => h,fun _ => .inl ⟨rfl,fun _ _ h => h⟩⟩

omit [DecidableEq Text] in
theorem usable_of_safe (h : Safe sha prim codec src s t) : Usable sha prim codec src s t := by
  have hall : ∀ sid id, IndexLists t sid id → (IndexLists s sid id →
      Restorable sha prim codec sid id s → Restorable sha prim codec sid id t) ∧
      (IndexLists s sid id ∨ Restorable sha prim codec sid id t) := by
    rintro sid id ⟨text,index,htext,hread,hid⟩
    rcases h.standing sid with ⟨hi,hkept⟩ | ⟨text',index',-,hread',hmirrors⟩
    · exact ⟨hkept id,.inl ⟨text,index,hi.symm.trans htext,hread,hid⟩⟩
    · obtain rfl := Option.some.inj (htext.symm.trans hmirrors.index_eq)
      obtain rfl := Option.some.inj (hread.symm.trans hread')
      have hr := restorable_of_mirrors hmirrors hid
      exact ⟨fun _ _ => hr,.inr hr⟩
  constructor
  · intro sid
    rcases h.standing sid with ⟨hi,-⟩ | ⟨text,index,htext,-,hmirrors⟩
    · exact .inl hi
    · exact .inr (hmirrors.index_eq.trans htext.symm)
  · intro sid id hlists hs
    obtain ⟨hkept,hnew⟩ := hall sid id hlists
    rcases hnew with hold | hr
    · exact hkept hold hs
    · exact hr
  · intro sid id _ hlists hnew
    exact (hall sid id hlists).2.resolve_left hnew

/-- Copying a manifest over that of a listed version is harmless exactly if its blobs are there. -/
theorem copyManifest_restorable_iff {mtext : Text} {m : Manifest} {bytes : Nat}
    (hours : (src.dir sid).manifests[manifestName id]? = some mtext)
    (hread : StoreText.readManifest mtext = some m)
    (hneeds : manifestNeedsCopy src env .copying sid id t = .ok true)
    (hcopied : env.copied (.manifest sid id) = some bytes) :
    (∀ u ∈ (copyManifest src env sid id pair t).states, Restorable sha prim codec sid id u) ↔
      ∀ hash ∈ fileHashes m, GoodBlob sha prim codec t hash := by
  have hrun : (copyManifest src env sid id pair t).states =
      [t.putManifest sid (manifestName id) mtext,t.putManifest sid (manifestName id) mtext] := by
    simp [copyManifest,copyFileAtomic,Outcome.states,bind,pure,andThen,Action.read,lift,ret,step,
      hneeds,hours,hcopied,orElse]
  have hself := @manifest_putManifest_self Text t sid (manifestName id) mtext
  rw [hrun]
  constructor
  · intro h
    obtain ⟨mtext',m',hfile,hread',hblobs⟩ := h _ List.mem_cons_self
    obtain rfl := Option.some.inj (hself.symm.trans hfile)
    obtain rfl := Option.some.inj (hread.symm.trans hread')
    exact hblobs
  · intro h u hu
    obtain rfl : u = t.putManifest sid (manifestName id) mtext := by simpa using hu
    exact ⟨mtext,m,hself,hread,h⟩

/-- If the blobs of the manifests to be overwritten are there, the replica is usable after every
step of a pair; a manifest copied over that of a version leaves it restorable only if they are. -/
theorem replica_usable_after_every_step (src s : Store Text) (env : PairEnv) (cfg : Config)
    (srcId : Str) (hcond : BlobsBeforeManifests sha prim codec src s) :
    (∀ t ∈ (replicateOnePair sha prim codec src env cfg srcId s).states,
      Usable sha prim codec src s t) ∧
    ∀ (t : Store Text) (sid id : Str) (pair : PairCounters) (mtext : Text) (m : Manifest)
      (bytes : Nat), (src.dir sid).manifests[manifestName id]? = some mtext →
      StoreText.readManifest mtext = some m →
      manifestNeedsCopy src env .copying sid id t = .ok true →
      env.copied (.manifest sid id) = some bytes →
      ((∀ u ∈ (copyManifest src env sid id pair t).states, Restorable sha prim codec sid id u) ↔
        ∀ hash ∈ fileHashes m, GoodBlob sha prim codec t hash) := by
  constructor
  · intro t ht
    exact usable_of_safe ((keeps_replicateOnePair (undisturbed_safe hcond) srcId).states safe_self ht)
  · intro t sid id pair mtext m bytes hours hread hneeds hcopied
    exact copyManifest_restorable_iff hours hread hneeds hcopied

end Pair

/-- A replica whose own manifest for the version of the source names other content or times. -/
def rivalReplica (text : String) (mtime : Nat) : Store PlainText :=
  (backupOneFolder notesSha .transparent notesJob (calmEnv text mtime 1767323045 morning) .empty).store

theorem indexLists_firstStore {sid id : Str} (h : IndexLists firstStore sid id) :
    sid = notesId ∧ id = morning.text := by
  obtain ⟨text,index,htext,hread,hid⟩ := h
  have hkeys : firstStore.sources.keys = [notesId] := by decide +kernel
  have hsid : sid = notesId := by
    by_contra hne
    have hmem : sid ∉ firstStore.sources := by
      rw [← mem_keys,hkeys]
      simpa using hne
    rw [Store.dir,getElem?_eq_none hmem] at htext
    cases htext
  subst hsid
  obtain rfl := Option.some.inj (index_firstStore.symm.trans htext)
  cases hread
  exact ⟨rfl,List.mem_singleton.mp hid⟩

/-- Where the manifests differ in a modification time only, the one of the replica is replaced and
its version stays restorable. -/
theorem replica_usable_same_content :
    Returns replicateFirst (rivalReplica "hi" 8) ⟨1,0,3,0⟩
      (replicateFirst (rivalReplica "hi" 8)).store ∧
    Restorable notesSha .transparent notesJob.codec notesId morning.text (rivalReplica "hi" 8) ∧
    ∀ t ∈ (replicateFirst (rivalReplica "hi" 8)).states,
      Usable notesSha .transparent notesJob.codec firstStore (rivalReplica "hi" 8) t := by
  have hblobs : ∀ mtext ∈ (firstStore.dir notesId).manifests[manifestName morning.text]?,
      ∀ m ∈ StoreText.readManifest mtext, ∀ hash ∈ fileHashes m,
        GoodBlob notesSha .transparent notesJob.codec (rivalReplica "hi" 8) hash := by
    decide +kernel
  have hcond : BlobsBeforeManifests notesSha .transparent notesJob.codec firstStore
      (rivalReplica "hi" 8) := by
    intro sid id hsrc _ _ mtext m hours hread
    obtain ⟨rfl,rfl⟩ := indexLists_firstStore hsrc
    exact hblobs mtext hours m hread
  exact ⟨⟨by decide +kernel,rfl⟩,by decide +kernel,
    (replica_usable_after_every_step firstStore _ calmPair (mirroredConfig []) "main".toList hcond).1⟩

/-- A replication in which no blob can be copied. -/
def bloblessPair : PairEnv :=
  {calmPair with
    copied := fun a => match a with
      | .blob _ _ _ => none
      | _ => some 1}

/-- The replica restores the version before the call. Its manifest is replaced, the copy of the
blob fails, and the index still lists a version that lacks its blob. -/
theorem replica_loses_overwritten_version :
    ∃ t, t = (replicateOnePair notesSha .transparent notesJob.codec firstStore bloblessPair
        (mirroredConfig []) "main".toList (rivalReplica "ho" 7)).store ∧
      (replicateOnePair notesSha .transparent notesJob.codec firstStore bloblessPair
        (mirroredConfig []) "main".toList (rivalReplica "ho" 7)).result =
        .error (.copy (.blob notesId morning.text (sha256Hex notesSha (ascii "hi")))) ∧
      IndexLists (rivalReplica "ho" 7) notesId morning.text ∧
      Restorable notesSha .transparent notesJob.codec notesId morning.text
        (rivalReplica "ho" 7) ∧
      IndexLists t notesId morning.text ∧
      ¬ Restorable notesSha .transparent notesJob.codec notesId morning.text t := by
  exact ⟨_,rfl,by decide +kernel,by decide +kernel,by decide +kernel,by decide +kernel,
    by decide +kernel⟩

end ReplicaInterruption
end BackupSync
