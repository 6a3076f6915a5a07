import BackupSync.HistoryRemoval

/-!
# What every file operation leaves in order

The invariant of a store: every version an index lists has its manifest file,
the entries of that manifest are filed under their own paths with well-formed
hashes, and every file entry has its blob. The index itself is sorted under
distinct identifiers, and only listed versions are protected. The collector looks
at manifest files and not at indexes; nonempty identifiers and well-formed hashes
are what lets it see every blob a listed version needs. Where one of its looks fails
it may miss a source, so blobs are claimed only of runs in which none does.

Each file operation is shown to keep the invariant under the condition that
holds where the operation is used. The calls then keep it after every single
step, so it holds in every store that calls, complete or cut short, can produce.
A predicate on paths is carried along: if it holds of all a call scans and of all
that is listed, it holds of all that the call lists.
-/
namespace BackupSync
open Checks Interruptible Interruptible.Action ContentHash ScanSnapshot SafetyBaseline Retention
  GarbageCollection BackupFolder HistoryRemoval

/-- The index of a source lists the version. -/
def IndexLists {Text : Type} [StoreText Text] (st : Store Text) (sid id : Str) : Prop :=
  ∃ text index, (st.dir sid).index = some text ∧ StoreText.readIndex text = some index ∧
    id ∈ index.ids

namespace StoreInvariant

/-- What is known of the calls of a run: a predicate of the paths they scan, and whether their
collections see every source. -/
structure Scope where
  path : Str → Prop
  sighted : Prop

variable {Text : Type} [StoreText Text] (sha : Sha256) (K : Scope)

/-- What may be filed under a path. -/
structure EntryOk (k : Str) (e : ManifestEntry) : Prop where
  relPath_eq : e.relPath = k
  path : K.path k
  file : e.kind = .file → ∃ hash, e.sha256 = some hash ∧ isLowerHexSha256 hash = true
  dir : e.kind = .dir → e.sha256 = none

def WellFormed (m : Manifest) : Prop :=
  ∀ (k : Str) (e : ManifestEntry), m.entries[k]? = some e → EntryOk K k e

/-- The blob of a file is in the store. -/
def HasBlob (blobs : Map BlobPath Bytes) (e : ManifestEntry) : Prop :=
  K.sighted → e.kind = .file → ∀ hash, e.sha256 = some hash → blobPath sha hash ∈ blobs

structure Backed (blobs : Map BlobPath Bytes) (m : Manifest) : Prop where
  wellFormed : WellFormed K m
  blob : ∀ (k : Str) (e : ManifestEntry), m.entries[k]? = some e → HasBlob sha K blobs e

/-- The versions of a tidy index have backed manifests in the directory of a source. -/
structure IndexBacked (st : Store Text) (sid : Str) (index : VersionIndex) : Prop where
  tidy : Tidy index
  backed : ∀ v ∈ index.versions, v.id ≠ [] ∧ ∃ mtext m,
    (st.dir sid).manifests[manifestName v.id]? = some mtext ∧
    StoreText.readManifest mtext = some m ∧ Backed sha K st.blobs m

def AllBacked (st : Store Text) : Prop :=
  ∀ sid text, (st.dir sid).index = some text →
    ∃ index, StoreText.readIndex text = some index ∧ IndexBacked sha K st sid index

variable {sha K}

theorem WellFormed.keyed {m : Manifest} (h : WellFormed K m) : m.Keyed :=
  fun k e he => (h k e he).relPath_eq

theorem allBacked_empty : AllBacked sha K (Store.empty : Store Text) := by
  intro sid text h
  simp [Store.dir,Store.empty,SourceDir.empty] at h

theorem Backed.mono {blobs blobs' : Map BlobPath Bytes} {m : Manifest}
    (h : Backed sha K blobs m) (hsub : ∀ p, p ∈ blobs → p ∈ blobs') : Backed sha K blobs' m :=
  ⟨h.1,fun k e he hs hf hash hh => hsub _ (h.blob k e he hs hf hash hh)⟩

variable {st : Store Text} {sid : Str} {index : VersionIndex}

theorem IndexBacked.of_eq {st' : Store Text} (h : IndexBacked sha K st sid index)
    (hm : ∀ v ∈ index.versions, (st'.dir sid).manifests[manifestName v.id]? =
      (st.dir sid).manifests[manifestName v.id]?) (hb : ∀ p, p ∈ st.blobs → p ∈ st'.blobs) :
    IndexBacked sha K st' sid index := by
  refine ⟨h.tidy,?_⟩
  intro v hv
  obtain ⟨hne,mtext,m,hf,hr,hback⟩ := h.backed v hv
  exact ⟨hne,mtext,m,(hm v hv).trans hf,hr,hback.mono hb⟩

variable {a b : VersionIndex}

theorem IndexBacked.filter {p : VersionInfo → Bool} (h : IndexBacked sha K st sid a)
    (hv : b.versions = a.versions.filter p)
    (hpins : ∀ id ∈ protectedIds b, ∃ v ∈ a.versions, p v = true ∧ v.id = id) :
    IndexBacked sha K st sid b := by
  refine ⟨h.tidy.filter hv hpins,?_⟩
  intro v hmem
  rw [hv] at hmem
  exact h.backed v (List.mem_filter.mp hmem).1

/-- A change of the safety fields keeps an index tidy. -/
theorem tidy_adjust (h : Tidy a) (hadj : Adjusts a b) : Tidy b := by
  have hids : b.ids = a.ids := by rw [VersionIndex.ids,VersionIndex.ids,hadj.versions_eq]
  refine ⟨hadj.versions_eq ▸ h.sorted,hids ▸ h.nodup,?_⟩
  intro id hid
  rw [hids]
  rcases hadj.pins id (mem_protectedIds.mp hid) with hp | hp | hp
  · exact h.pins id (mem_protectedIds.mpr (.inl hp))
  · exact h.pins id (mem_protectedIds.mpr (.inr hp))
  · exact hp

theorem IndexBacked.adjust (h : IndexBacked sha K st sid a) (hadj : Adjusts a b) :
    IndexBacked sha K st sid b := by
  refine ⟨tidy_adjust h.tidy hadj,?_⟩
  intro v hv
  exact h.backed v (hadj.versions_eq ▸ hv)

/-- A change that leaves indexes alone, keeps listed manifests and removes no blob. -/
theorem AllBacked.of_eq {st' : Store Text} (h : AllBacked sha K st)
    (hi : ∀ sid, (st'.dir sid).index = (st.dir sid).index)
    (hm : ∀ sid index, (∃ text, (st.dir sid).index = some text ∧
      StoreText.readIndex text = some index) → IndexBacked sha K st sid index →
      ∀ v ∈ index.versions, (st'.dir sid).manifests[manifestName v.id]? =
        (st.dir sid).manifests[manifestName v.id]?) (hb : ∀ p, p ∈ st.blobs → p ∈ st'.blobs) :
    AllBacked sha K st' := by
  intro sid text ht
  rw [hi] at ht
  obtain ⟨index,hr,hback⟩ := h sid text ht
  exact ⟨index,hr,hback.of_eq (hm sid index ⟨text,ht,hr⟩ hback) hb⟩

theorem allBacked_ensureDir (sid : Str) (h : AllBacked sha K st) :
    AllBacked sha K (st.ensureDir sid) :=
  h.of_eq (fun _ => by rw [Store.dir_ensureDir]) (fun _ _ _ _ _ _ => by rw [Store.dir_ensureDir])
    fun _ hp => hp

omit [StoreText Text] in
theorem mem_putBlob {path p : BlobPath} (blob : Bytes) (h : p ∈ st.blobs) :
    p ∈ (st.putBlob path blob).blobs := mem_insert.mpr (.inr h)

theorem allBacked_putBlob (path : BlobPath) (blob : Bytes) (h : AllBacked sha K st) :
    AllBacked sha K (st.putBlob path blob) :=
  h.of_eq (fun _ => rfl) (fun _ _ _ _ _ _ => rfl) fun _ hp => mem_putBlob blob hp

theorem allBacked_putReport (sid : Str) (text : Text) (h : AllBacked sha K st) :
    AllBacked sha K (st.putReport sid text) := by
  have hdir : ∀ sid', ((st.putReport sid text).dir sid').index = (st.dir sid').index ∧
      ((st.putReport sid text).dir sid').manifests = (st.dir sid').manifests := by
    intro sid'
    by_cases he : sid' = sid
    · subst he
      simp [Store.putReport]
    · simp [Store.putReport,Store.dir_setDir_of_ne he]
  exact h.of_eq (fun sid' => (hdir sid').1) (fun sid' _ _ _ _ _ => by rw [(hdir sid').2])
    fun _ hp => hp

/-- A manifest file under a new name disturbs no listed version. -/
theorem allBacked_putManifest {name : Str} (text : Text) (h : AllBacked sha K st)
    (hnew : name ∉ (st.dir sid).manifests) : AllBacked sha K (st.putManifest sid name text) := by
  refine h.of_eq ?_ ?_ fun _ hp => hp
  · intro sid'
    by_cases he : sid' = sid
    · subst he
      simp [Store.putManifest]
    · simp [Store.putManifest,Store.dir_setDir_of_ne he]
  · intro sid' index _ hback v hv
    by_cases he : sid' = sid
    · subst he
      obtain ⟨-,mtext,m,hf,-⟩ := hback.backed v hv
      have hne : name ≠ manifestName v.id := by
        rintro rfl
        exact hnew (mem_of_getElem? hf)
      simp [Store.putManifest,getElem?_insert,hne]
    · simp [Store.putManifest,Store.dir_setDir_of_ne he]

/-- An index whose versions are backed may be published. -/
theorem allBacked_putIndex (h : AllBacked sha K st) (hback : IndexBacked sha K st sid index) :
    AllBacked sha K (st.putIndex sid (StoreText.writeIndex index)) := by
  intro sid' text ht
  by_cases he : sid' = sid
  · subst he
    rw [Store.putIndex,Store.dir_setDir_self] at ht
    cases ht
    refine ⟨index,StoreText.readIndex_writeIndex index,hback.of_eq ?_ fun _ hp => hp⟩
    intro v _
    rw [Store.putIndex,Store.dir_setDir_self]
  · rw [Store.putIndex,Store.dir_setDir_of_ne he] at ht
    obtain ⟨index',hr,hb⟩ := h sid' text ht
    refine ⟨index',hr,hb.of_eq ?_ fun _ hp => hp⟩
    intro v _
    rw [Store.putIndex,Store.dir_setDir_of_ne he]

/-- The manifest of an unlisted version may be removed. -/
theorem allBacked_eraseManifest {id : Str} (h : AllBacked sha K st)
    (hun : ∀ text index, (st.dir sid).index = some text → StoreText.readIndex text = some index →
      ∀ v ∈ index.versions, v.id ≠ id) :
    AllBacked sha K (st.eraseManifest sid (manifestName id)) := by
  refine h.of_eq ?_ ?_ fun _ hp => hp
  · intro sid'
    by_cases he : sid' = sid
    · subst he
      simp [Store.eraseManifest]
    · simp [Store.eraseManifest,Store.dir_setDir_of_ne he]
  · rintro sid' index ⟨text,ht,hr⟩ _ v hv
    by_cases he : sid' = sid
    · subst he
      have hne : manifestName id ≠ manifestName v.id := fun hn =>
        hun text index ht hr v hv (manifestName_injective hn).symm
      simp [Store.eraseManifest,getElem?_erase,hne]
    · simp [Store.eraseManifest,Store.dir_setDir_of_ne he]

theorem allBacked_removeDir (sid : Str) (h : AllBacked sha K st) :
    AllBacked sha K (st.removeDir sid) := by
  intro sid' text ht
  by_cases he : sid' = sid
  · subst he
    rw [Store.dir_removeDir_self] at ht
    cases ht
  · rw [Store.dir_removeDir_of_ne he] at ht
    obtain ⟨index,hr,hb⟩ := h sid' text ht
    refine ⟨index,hr,hb.of_eq ?_ fun _ hp => hp⟩
    intro v _
    rw [Store.dir_removeDir_of_ne he]

theorem hasJsonExtension_manifestName {id : Str} (h : id ≠ []) :
    hasJsonExtension (manifestName id) = true := by
  have hlen : 0 < id.length := List.length_pos_of_ne_nil h
  rw [hasJsonExtension,Bool.and_eq_true,List.isSuffixOf_iff_suffix,decide_eq_true_eq]
  refine ⟨List.suffix_append id _,?_⟩
  have hfive : ".json".toList.length = 5 := rfl
  rw [manifestName,List.length_append,hfive]
  omega

/-- A blob that no manifest file mentions may be removed. -/
theorem allBacked_eraseBlob {directory name : Str} (h : AllBacked sha K st)
    (hun : K.sighted → ¬ Referenced st name) : AllBacked sha K (st.eraseBlob [directory,name]) := by
  intro sid text ht
  obtain ⟨index,hr,hback⟩ := h sid text ht
  refine ⟨index,hr,hback.tidy,?_⟩
  intro v hv
  obtain ⟨hne,mtext,m,hf,hread,hb⟩ := hback.backed v hv
  refine ⟨hne,mtext,m,hf,hread,hb.1,?_⟩
  intro k e he hs hk hash hh
  obtain ⟨hash',hh',hlow⟩ := (hb.wellFormed k e he).file hk
  obtain rfl : hash = hash' := Option.some.inj (hh.symm.trans hh')
  have hdiff : blobPath sha hash ≠ [directory,name] := by
    rw [blobPath_of_lowerHex hlow]
    intro heq
    obtain rfl : hash = name := (List.cons.inj (List.cons.inj heq).2).1
    exact hun hs ⟨sid,_,mtext,m,hf,hasJsonExtension_manifestName hne,hread,
      mem_manifestHashes.mpr ⟨k,e,he,hh⟩⟩
  rw [Store.eraseBlob,mem_erase]
  exact ⟨by simpa using hdiff.symm,hb.blob k e he hs hk hash hh⟩

theorem keeps_allBacked_gc {env : GcEnv} (hsee : K.sighted → ∀ sid, env.manifestsSeen sid = true) :
    Keeps (AllBacked sha K) (gcUnreferencedBlobs env : Store.Op Text Unit) :=
  keeps_gc env fun st _ name h hun => allBacked_eraseBlob h fun hs href =>
    hun ((mentioned_iff (hsee hs) st name).mpr href)

theorem wellFormed_scan {opts : ScanOptions} {watched : WatchedPath} {source : SourceContents}
    {prev : Option Manifest} {now : Int} {m : Manifest} (hp : ∀ p ∈ prev, WellFormed K p)
    (hK : ∀ k, ScannedPath opts watched source k → K.path k)
    (h : scanSnapshot sha opts watched source prev now = .ok m) : WellFormed K m := by
  have hkeyed : PrevKeyed prev := fun p hpm => (hp p hpm).keyed
  have hprev : ∀ k e, prevAt prev k = some e → EntryOk K k e := by
    intro k e he
    cases prev with
    | none => cases he
    | some p => exact hp p rfl k e he
  intro k e he
  rcases scanSnapshot_origin hkeyed h he with ⟨rfl | ⟨read,hok⟩,hpath⟩ | hold
  · exact ⟨rfl,hK k hpath,nofun,fun _ => rfl⟩
  · obtain ⟨found,hash,-,rfl,hhash⟩ := scanOneFile_eq_ok hok
    refine ⟨rfl,hK k hpath,fun _ => ⟨hash,rfl,?_⟩,nofun⟩
    rcases hhash with ⟨content,-,rfl⟩ | ⟨p,hpe,hpk,-,-,-,hph⟩
    · exact isLowerHexSha256_sha256Hex content
    · rw [prevEntry_eq hkeyed] at hpe
      obtain ⟨hash',hh',hlow⟩ := (hprev k p hpe).file hpk
      rw [hph] at hh'
      cases hh'
      exact hlow
  · exact hprev k e hold

section BlobWrites
omit [StoreText Text]
variable (prim : Primitives) {B : Store Text → Prop}
  (hB : ∀ st path blob, B st → B (st.putBlob path blob))
include hB

theorem triple_writeBlobOnce (codec : BlobCodec) (hash : Str) (path : BlobPath) (a : BlobAttempt) :
    Triple B (writeBlobOnce sha prim codec hash path a) (fun _ st => B st ∧ path ∈ st.blobs) B := by
  refine triple_lift_bind (fun _ h => h) fun _ _ => ?_
  refine triple_lift_bind (fun _ h => h) fun content _ => ?_
  refine triple_lift_bind (fun _ h => h) fun blob _ => ?_
  refine triple_lift_bind (fun _ h => h) fun actual _ => ?_
  refine triple_check_bind (fun _ h => h) fun _ => ?_
  refine triple_bind (R := fun _ st => B st ∧ path ∈ st.blobs) (triple_publish ?_ fun _ h => h)
    fun _ => triple_pure _ fun _ h => h
  intro st h
  exact ⟨⟨hB st path blob h,by simp [Store.putBlob]⟩,hB st path blob h⟩

theorem triple_writeBlob (job : FolderJob) (hash : Str) (path : BlobPath) (env : BlobWriteEnv) :
    Triple B (writeBlob sha prim job hash path env) (fun _ st => B st ∧ path ∈ st.blobs) B := by
  refine triple_lift_bind (fun _ h => h) fun _ _ => ?_
  refine triple_check_bind (fun _ h => h) fun _ => ?_
  exact triple_retry (triple_writeBlobOnce prim hB job.codec hash path) _

end BlobWrites

/-- What a call relies on from its first read to its commit. -/
structure Ready (sha : Sha256) (K : Scope) (sid : Str) (index : VersionIndex) (prev : Option Manifest)
    (manifests : Map Str Text) (st : Store Text) : Prop where
  sound : AllBacked sha K st
  index_backed : IndexBacked sha K st sid index
  prev_backed : ∀ p ∈ prev, Backed sha K st.blobs p
  manifests_eq : (st.dir sid).manifests = manifests

section Passes
variable {sid : Str} {index : VersionIndex} {prev : Option Manifest}
  {manifests : Map Str Text}

variable {st : Store Text}

theorem ready_putBlob (path : BlobPath) (blob : Bytes)
    (h : Ready sha K sid index prev manifests st) :
    Ready sha K sid index prev manifests (st.putBlob path blob) where
  sound := allBacked_putBlob path blob h.sound
  index_backed := h.index_backed.of_eq (fun _ _ => rfl) fun _ hp => mem_putBlob blob hp
  prev_backed p hp := (h.prev_backed p hp).mono fun _ hq => mem_putBlob blob hq
  manifests_eq := h.manifests_eq

/-- The files of the snapshot that are not waiting for their blob have it. -/
structure PassInv (sha : Sha256) (K : Scope) (sid : Str) (index : VersionIndex) (prev : Option Manifest)
    (manifests : Map Str Text) (waiting : List Str) (snapshot : Manifest)
    (st : Store Text) : Prop where
  ready : Ready sha K sid index prev manifests st
  wellFormed : WellFormed K snapshot
  blob : ∀ (k : Str) (e : ManifestEntry), snapshot.entries[k]? = some e →
    (e.kind = .file ∧ k ∈ waiting) ∨ HasBlob sha K st.blobs e

variable {waiting : List Str} {snapshot : Manifest}

/-- Replacing the entry of one path by a stored one settles that path. -/
theorem PassInv.settle {snapshot' : Manifest} {relPath : Str}
    (h : PassInv sha K sid index prev manifests (relPath::waiting) snapshot st)
    (hother : ∀ k : Str, k ≠ relPath → snapshot'.entries[k]? = snapshot.entries[k]?)
    (hself : ∀ e : ManifestEntry, snapshot'.entries[relPath]? = some e →
      EntryOk K relPath e ∧ HasBlob sha K st.blobs e) :
    PassInv sha K sid index prev manifests waiting snapshot' st := by
  refine ⟨h.ready,?_,?_⟩
  all_goals intro k e he
  all_goals by_cases hk : k = relPath
  · subst hk
    exact (hself e he).1
  · rw [hother k hk] at he
    exact h.wellFormed k e he
  · subst hk
    exact .inr (hself e he).2
  · rw [hother k hk] at he
    rcases h.blob k e he with ⟨hf,hw⟩ | hb
    · exact .inl ⟨hf,(List.mem_cons.mp hw).resolve_left hk⟩
    · exact .inr hb

theorem getElem?_revertEntry (prev : Option Manifest) (relPath k : Str) (entries : Entries) :
    (revertEntry prev relPath entries)[k]? =
      if k = relPath then prevAt prev relPath else entries[k]? := by
  unfold revertEntry
  by_cases hk : k = relPath
  · subst hk
    cases prevAt prev k <;> simp
  · cases prevAt prev relPath with
    | none => simp [hk,getElem?_erase,Ne.symm hk]
    | some e => simp [hk,getElem?_insert,Ne.symm hk]

/-- A path whose blob could not be written falls back to a stored entry. -/
theorem PassInv.revert {snapshot' : Manifest} {relPath : Str}
    (h : PassInv sha K sid index prev manifests (relPath::waiting) snapshot st)
    (he : snapshot'.entries = revertEntry prev relPath snapshot.entries) :
    PassInv sha K sid index prev manifests waiting snapshot' st := by
  refine h.settle (fun k hk => by rw [he,getElem?_revertEntry,if_neg hk]) ?_
  intro e hself
  rw [he,getElem?_revertEntry,if_pos rfl] at hself
  cases hp : prev with
  | none =>
      rw [hp] at hself
      cases hself
  | some p =>
      rw [hp] at hself
      have hback := h.ready.prev_backed p hp
      exact ⟨hback.wellFormed relPath e hself,hback.blob relPath e hself⟩

/-- A path whose blob is there needs nothing more. -/
theorem PassInv.keep {relPath hash : Str} {entry : ManifestEntry}
    (h : PassInv sha K sid index prev manifests (relPath::waiting) snapshot st)
    (hentry : snapshot.entries[relPath]? = some entry) (hsha : entry.sha256 = some hash)
    (hmem : blobPath sha hash ∈ st.blobs) :
    PassInv sha K sid index prev manifests waiting snapshot st := by
  refine h.settle (fun _ _ => rfl) ?_
  intro e he
  obtain rfl : entry = e := Option.some.inj (hentry.symm.trans he)
  refine ⟨h.wellFormed relPath entry he,?_⟩
  intro _ _ hash' hh
  rw [hsha] at hh
  cases hh
  exact hmem

theorem PassInv.putBlob (path : BlobPath) (blob : Bytes)
    (h : PassInv sha K sid index prev manifests waiting snapshot st) :
    PassInv sha K sid index prev manifests waiting snapshot (st.putBlob path blob) := by
  refine ⟨ready_putBlob path blob h.ready,h.wellFormed,?_⟩
  intro k e he
  exact (h.blob k e he).imp_right fun hb hs hf hash hh => mem_putBlob blob (hb hs hf hash hh)

theorem triple_attempt_writeBlob (prim : Primitives) (job : FolderJob) (hash : Str) (path : BlobPath)
    (env : BlobWriteEnv) (waiting : List Str) (snapshot : Manifest) :
    Triple (PassInv sha K sid index prev manifests waiting snapshot)
      (attempt (writeBlob sha prim job hash path env))
      (fun r st => PassInv sha K sid index prev manifests waiting snapshot st ∧
        (r.isOk → path ∈ st.blobs)) (AllBacked sha K) := by
  have hwrite := @triple_writeBlob Text sha prim
    (PassInv sha K sid index prev manifests waiting snapshot) (fun _ _ _ h => h.putBlob _ _)
    job hash path env
  have hattempt := triple_attempt (Q := fun r st =>
      PassInv sha K sid index prev manifests waiting snapshot st ∧ (r.isOk → path ∈ st.blobs))
    (triple_post hwrite (fun _ _ h => ⟨h.1,fun _ => h.2⟩))
    fun _ _ h => ⟨h,nofun⟩
  exact triple_conseq hattempt (fun _ h => h) (fun _ _ h => h) fun _ h => h.ready.sound

theorem triple_writeMissingBlob (prim : Primitives) (job : FolderJob) (env : BackupEnv)
    (pass : BlobPass) (relPath : Str) (waiting : List Str) :
    Triple (PassInv sha K sid index prev manifests (relPath::waiting) pass.snapshot)
      (writeMissingBlob sha prim job env prev pass relPath)
      (fun pass' => PassInv sha K sid index prev manifests waiting pass'.snapshot) (AllBacked sha K) := by
  unfold writeMissingBlob
  cases hentry : pass.snapshot.entries[relPath]? with
  | none =>
      refine triple_pure pass fun st h => h.settle (fun _ _ => rfl) ?_
      intro e he
      rw [hentry] at he
      cases he
  | some entry =>
      cases hsha : entry.sha256 with
      | none =>
          simp only [hsha]
          refine triple_pure _ fun st h => h.settle ?_ ?_
          · intro k hk
            simp [failPass,getElem?_erase,Ne.symm hk]
          · intro e he
            simp [failPass] at he
      | some hash =>
          simp only [hsha]
          refine triple_read_bind fun st _ => ?_
          split
          · rename_i hmem
            refine triple_pure pass ?_
            rintro st' ⟨rfl,h⟩
            exact h.keep hentry hsha hmem
          · refine triple_bind (spec_pre (triple_attempt_writeBlob prim job hash
              (blobPath sha hash) (env.blobWrites relPath) (relPath::waiting) pass.snapshot)
                fun _ h => h.2) ?_
            rintro (err | bytes)
            · exact triple_pure _ fun st' h => h.1.revert rfl
            · exact triple_pure _ fun st' h => h.1.keep hentry hsha (h.2 rfl)

theorem mem_fileRelPaths (hk : snapshot.Keyed) {k : Str} {e : ManifestEntry}
    (he : snapshot.entries[k]? = some e) (hf : e.kind = .file) : k ∈ fileRelPaths snapshot := by
  refine List.mem_filterMap.mpr ⟨(k,e),mem_toList_iff_getElem?_eq_some.mpr he,?_⟩
  rw [if_pos hf,hk k e he]

/-- After the pass the snapshot is backed. -/
theorem triple_writeMissingBlobs (prim : Primitives) (job : FolderJob) (env : BackupEnv)
    {snapshot : Manifest} (hs : WellFormed K snapshot) :
    Triple (Ready sha K sid index prev manifests)
      (writeMissingBlobsForSnapshot sha prim job env prev snapshot)
      (fun pass st => Ready sha K sid index prev manifests st ∧ Backed sha K st.blobs pass.snapshot)
      (AllBacked sha K) := by
  refine triple_conseq (triple_foldlM
    (fun waiting pass => PassInv sha K sid index prev manifests waiting pass.snapshot)
    (fun relPath waiting pass => triple_writeMissingBlob prim job env pass relPath waiting)
    (fileRelPaths snapshot) ⟨snapshot,0,0,false⟩) ?_ ?_ fun _ h => h
  · intro st h
    refine ⟨h,hs,?_⟩
    intro k e he
    by_cases hf : e.kind = .file
    · exact .inl ⟨hf,mem_fileRelPaths hs.keyed he hf⟩
    · exact .inr fun _ hf' => absurd hf' hf
  · intro pass st h
    exact ⟨h.ready,h.wellFormed,fun k e he => (h.blob k e he).resolve_left fun hw => nomatch hw.2⟩

end Passes

section Commit
variable {sid : Str} {scanned : Scanned} {manifests : Map Str Text}

theorem adjusts_pinBaseline (job : FolderJob) (env : BackupEnv) (scanned : Scanned)
    (pass : BlobPass) (manifests : Map Str Text) :
    Adjusts scanned.index (pinBaseline job env scanned pass manifests).2.1 := by
  unfold pinBaseline
  split
  · exact .refl _
  · exact adjusts_maybePin _ _ _ _ _ _ _ _

theorem triple_writeScanReport (p : Publication) (snapshot : Manifest) (committed : Option Str) :
    Triple (AllBacked sha K) (writeScanReport sid p snapshot committed : Store.Op Text Unit)
      (fun _ => AllBacked sha K) (AllBacked sha K) :=
  triple_publish (fun _ h => ⟨allBacked_putReport sid _ h,allBacked_putReport sid _ h⟩) fun _ h => h

theorem triple_finishScan (job : FolderJob) (env : BackupEnv) (pass : BlobPass)
    (hsid : sid = sourceId sha job.watched.path) :
    Triple (Ready sha K sid scanned.index scanned.prev manifests)
      (finishScanWithoutNewVersion sha job env scanned pass)
      (fun _ => AllBacked sha K) (AllBacked sha K) := by
  subst hsid
  refine triple_read_bind fun st _ => ?_
  have hadj := adjusts_pinBaseline job env scanned pass
    (st.dir (sourceId sha job.watched.path)).manifests
  refine triple_bind (R := fun _ => AllBacked sha K) ?_ fun _ =>
    triple_bind (triple_writeScanReport _ _ _) fun _ => triple_pure _ fun _ h => h
  unfold writeIndexIf
  split
  · refine triple_publish ?_ fun _ h => h.2.sound
    rintro st' ⟨-,h⟩
    have hback := h.index_backed.adjust hadj
    exact ⟨allBacked_putIndex h.sound hback,allBacked_putIndex h.sound hback⟩
  · exact triple_pure () fun _ h => h.2.sound

/-- The index on disk is the given one. -/
def Published (sha : Sha256) (K : Scope) (sid : Str) (index : VersionIndex) (st : Store Text) : Prop :=
  AllBacked sha K st ∧ (st.dir sid).index = some (StoreText.writeIndex index)

variable {index : VersionIndex}

theorem triple_removePruned (env : BackupEnv) (pruned : List VersionInfo)
    (hun : ∀ v ∈ index.versions, v.id ∉ pruned.map (·.id)) :
    Triple (Published sha K sid index) (removePruned env sid pruned : Store.Op Text Unit)
      (fun _ => Published sha K sid index) (AllBacked sha K) := by
  have hstep : ∀ v ∈ pruned, ∀ st : Store Text, Published sha K sid index st →
      Published sha K sid index (st.eraseManifest sid (manifestName v.id)) := by
    intro v hv st h
    refine ⟨allBacked_eraseManifest h.1 ?_,by rw [Store.eraseManifest,Store.dir_setDir_self]; exact h.2⟩
    intro text index' ht hr w hw he
    rw [h.2] at ht
    cases ht
    rw [StoreText.readIndex_writeIndex] at hr
    cases hr
    exact hun w hw (List.mem_map.mpr ⟨v,hv,he.symm⟩)
  refine triple_conseq (triple_foldlM (fun waiting _ st => Published sha K sid index st ∧
    ∀ v ∈ waiting, v ∈ pruned) ?_ pruned ()) (fun st h => ⟨h,fun _ hv => hv⟩)
    (fun _ _ h => h.1) fun _ h => h
  intro v waiting _
  split
  · refine triple_step ?_
    rintro st ⟨h,hw⟩
    have hnext := hstep v (hw v List.mem_cons_self) st h
    exact ⟨⟨hnext,fun w hw' => hw w (List.mem_cons_of_mem _ hw')⟩,hnext.1⟩
  · refine triple_pure () ?_
    rintro st ⟨h,hw⟩
    exact ⟨h,fun w hw' => hw w (List.mem_cons_of_mem _ hw')⟩

theorem triple_pruneVersions {env : BackupEnv} (pruned : List VersionInfo)
    (hsee : K.sighted → ∀ sid, env.gc.manifestsSeen sid = true)
    (hun : ∀ v ∈ index.versions, v.id ∉ pruned.map (·.id)) :
    Triple (Published sha K sid index) (pruneVersions env sid pruned : Store.Op Text Unit)
      (fun _ => AllBacked sha K) (AllBacked sha K) := by
  unfold pruneVersions
  split
  · exact triple_pure () fun _ h => h.1
  · exact triple_bind (triple_post (triple_removePruned env pruned hun) (fun _ _ h => h.1))
      fun _ => keeps_allBacked_gc hsee

/-- An identifier without a manifest file is not listed. -/
theorem IndexBacked.not_mem_ids {st : Store Text} {id : Str} (h : IndexBacked sha K st sid index)
    (hnew : manifestName id ∉ (st.dir sid).manifests) : id ∉ index.ids := by
  intro hid
  obtain ⟨v,hv,rfl⟩ := List.mem_map.mp hid
  obtain ⟨-,mtext,m,hf,-⟩ := h.backed v hv
  exact hnew (mem_of_getElem? hf)

theorem tidy_insertVersion {job : FolderJob} {v : VersionInfo} (h : Tidy index)
    (hnew : v.id ∉ index.ids) : Tidy (insertVersion job index v) := by
  refine ⟨sorted_sortVersions _,nodup_sortVersions_append h.nodup hnew,?_⟩
  intro id hid
  obtain ⟨w,hw,rfl⟩ := List.mem_map.mp (h.pins id hid)
  exact List.mem_map.mpr ⟨w,mem_sortVersions.mpr (List.mem_append_left _ hw),rfl⟩

/-- With a new manifest in place the index that lists it is backed. -/
theorem indexBacked_insertVersion {st : Store Text} {job : FolderJob} {id : Str}
    {snapshot : Manifest} (h : IndexBacked sha K st sid index)
    (hnew : manifestName id ∉ (st.dir sid).manifests) (hne : id ≠ [])
    (hback : Backed sha K st.blobs snapshot) :
    IndexBacked sha K (st.putManifest sid (manifestName id) (StoreText.writeManifest snapshot)) sid
      (insertVersion job index ⟨id,snapshot.createdAtUnix⟩) := by
  have hid := h.not_mem_ids hnew
  have hold : IndexBacked sha K
      (st.putManifest sid (manifestName id) (StoreText.writeManifest snapshot)) sid index := by
    refine h.of_eq ?_ fun _ hp => hp
    intro w hw
    have hdiff : manifestName id ≠ manifestName w.id := fun he =>
      hid (List.mem_map.mpr ⟨w,hw,(manifestName_injective he).symm⟩)
    simp [Store.putManifest,getElem?_insert,hdiff]
  refine ⟨tidy_insertVersion h.tidy hid,?_⟩
  intro v hv
  rcases List.mem_append.mp (mem_sortVersions.mp hv) with hv | hv
  · exact hold.backed v hv
  · obtain rfl := List.mem_singleton.mp hv
    refine ⟨hne,_,snapshot,?_,StoreText.readManifest_writeManifest snapshot,hback⟩
    simp [Store.putManifest]

/-- Pruning passes over the protected versions. -/
theorem indexBacked_retainUnpruned {st : Store Text} (job : FolderJob) (hadReadFailures : Bool)
    (h : IndexBacked sha K st sid index) :
    IndexBacked sha K st sid (retainUnpruned (prunedBy job hadReadFailures index) index) := by
  refine h.filter rfl ?_
  intro id hid
  obtain ⟨v,hv,rfl⟩ := List.mem_map.mp (h.tidy.pins id hid)
  refine ⟨v,hv,decide_eq_true ?_,rfl⟩
  intro hmem
  obtain ⟨w,hw,he⟩ := List.mem_map.mp hmem
  unfold prunedBy at hw
  split at hw
  · cases hw
  · exact not_mem_protectedIds_of_pruned hw (he ▸ hid)

theorem triple_commitVersion (job : FolderJob) {env : BackupEnv} {id : Str} (pass : BlobPass)
    (hsee : K.sighted → ∀ sid, env.gc.manifestsSeen sid = true)
    (hsid : sid = sourceId sha job.watched.path) (hnew : manifestName id ∉ manifests)
    (hne : id ≠ []) :
    Triple (fun st => Ready sha K sid scanned.index scanned.prev manifests st ∧
        Backed sha K st.blobs pass.snapshot)
      (commitVersion sha job env scanned id pass)
      (fun _ => AllBacked sha K) (AllBacked sha K) := by
  subst hsid
  refine triple_read_bind fun st _ => ?_
  have hadj := adjusts_pinBaseline job env scanned pass
    (st.dir (sourceId sha job.watched.path)).manifests
  generalize pinBaseline job env scanned pass
    (st.dir (sourceId sha job.watched.path)).manifests = pin at hadj ⊢
  let index := insertVersion job pin.2.1 ⟨id,pass.snapshot.createdAtUnix⟩
  let pruned := prunedBy job pass.hadReadFailures index
  have hun : ∀ v ∈ (retainUnpruned pruned index).versions, v.id ∉ pruned.map (·.id) := by
    intro v hv
    exact of_decide_eq_true (List.mem_filter.mp hv).2
  refine triple_bind (R := fun _ st => AllBacked sha K st ∧
    IndexBacked sha K st (sourceId sha job.watched.path) index) ?_ fun _ => ?_
  · refine triple_publish ?_ fun _ h => h.2.1.sound
    rintro st' ⟨-,h,hback⟩
    have hfresh : manifestName id ∉ (st'.dir (sourceId sha job.watched.path)).manifests := by
      rw [h.manifests_eq]
      exact hnew
    have hsound := allBacked_putManifest (StoreText.writeManifest pass.snapshot) h.sound hfresh
    exact ⟨⟨hsound,indexBacked_insertVersion (h.index_backed.adjust hadj) hfresh hne hback⟩,hsound⟩
  refine triple_bind (R := fun _ => Published sha K (sourceId sha job.watched.path)
    (retainUnpruned pruned index)) ?_ fun _ => ?_
  · refine triple_publish ?_ fun _ h => h.1
    rintro st' ⟨h,hback⟩
    have hsound := allBacked_putIndex h (indexBacked_retainUnpruned job pass.hadReadFailures hback)
    exact ⟨⟨hsound,by rw [Store.putIndex,Store.dir_setDir_self]⟩,hsound⟩
  refine triple_bind (R := fun _ => Published sha K (sourceId sha job.watched.path)
    (retainUnpruned pruned index)) ?_ fun _ => ?_
  · refine triple_publish ?_ fun _ h => h.1
    rintro st' ⟨h,hi⟩
    have hsound := allBacked_putReport (sourceId sha job.watched.path)
      (StoreText.writeReport (scanReport pass.snapshot (some id))) h
    exact ⟨⟨hsound,by rw [Store.putReport,Store.dir_setDir_self]; exact hi⟩,hsound⟩
  exact triple_bind (triple_pruneVersions pruned hsee hun) fun _ => triple_pure _ fun _ h => h

end Commit

theorem indexBacked_of_loadIndex {sourcePath : Str} {access : Access} (h : AllBacked sha K st)
    (hl : loadIndex access sourcePath (st.dir sid) = .ok index) :
    IndexBacked sha K st sid index := by
  rcases loadIndex_eq_ok hl with ⟨-,rfl⟩ | ⟨text,ht,hr,-⟩
  · exact ⟨tidy_fresh sourcePath,nofun⟩
  · obtain ⟨index',hr',hback⟩ := h sid text ht
    rw [hr] at hr'
    cases hr'
    exact hback

theorem backed_of_latestManifest {access : Access} {prev : Option Manifest}
    (h : IndexBacked sha K st sid index)
    (hl : latestManifest access (st.dir sid) index = .ok prev) :
    ∀ p ∈ prev, Backed sha K st.blobs p := by
  rintro p rfl
  obtain ⟨-,v,text,hlast,hf,hr⟩ := latestManifest_eq_some hl
  obtain ⟨-,mtext,m,hf',hr',hback⟩ := h.backed v (List.mem_of_getLast? hlast)
  rw [hf] at hf'
  cases hf'
  rw [hr] at hr'
  cases hr'
  exact hback

/-- A call is one of those a scope speaks of. -/
structure Admits (K : Scope) (job : FolderJob) (env : BackupEnv) : Prop where
  path : ∀ k, ScannedPath job.scan job.watched env.source k → K.path k
  sighted : K.sighted → ∀ sid, env.gc.manifestsSeen sid = true

/-- After the scan the call is ready to write, and the snapshot has well-formed hashes. -/
theorem triple_scanSource (job : FolderJob) (env : BackupEnv) (hK : Admits K job env) :
    Triple (AllBacked sha K) (scanSource sha job env : Store.Op Text Scanned)
      (fun scanned st => Ready sha K (sourceId sha job.watched.path) scanned.index scanned.prev
        (st.dir (sourceId sha job.watched.path)).manifests st ∧ WellFormed K scanned.snapshot)
      (AllBacked sha K) := by
  let sid := sourceId sha job.watched.path
  refine triple_read_bind fun st _ => ?_
  refine triple_lift_bind (fun _ h => h.2) fun index hindex => ?_
  refine triple_check_bind (fun _ h => h.2) fun _ => ?_
  refine triple_bind (R := fun _ t => AllBacked sha K t ∧ t.dir sid = st.dir sid ∧
    t.blobs = st.blobs ∧ IndexBacked sha K st sid index) ?_ fun _ => ?_
  · refine triple_publish ?_ fun _ h => h.2
    rintro t ⟨rfl,h⟩
    have hsound := allBacked_ensureDir sid h
    exact ⟨⟨hsound,Store.dir_ensureDir sid sid t,rfl,indexBacked_of_loadIndex h hindex⟩,hsound⟩
  refine triple_lift_bind (fun _ h => h.1) fun prev hprev => ?_
  refine triple_lift_bind (fun _ h => h.1) fun view _ => ?_
  refine triple_lift_bind (fun _ h => h.1) fun snapshot hsnap => ?_
  refine triple_pure _ ?_
  rintro t ⟨hsound,hdir,hblobs,hback⟩
  have hp := backed_of_latestManifest hback hprev
  have hwf := wellFormed_scan (fun p hpm => (hp p hpm).wellFormed) hK.path (mapError_eq_ok.mp hsnap)
  refine ⟨⟨hsound,hback.of_eq (fun v _ => ?_) (fun _ hpb => hblobs ▸ hpb),
    fun p hpm => hblobs ▸ hp p hpm,rfl⟩,hwf⟩
  rw [hdir]

theorem triple_writeVersion (prim : Primitives) (job : FolderJob) (env : BackupEnv)
    (hK : Admits K job env) {scanned : Scanned} {manifests : Map Str Text}
    (hs : WellFormed K scanned.snapshot) :
    Triple (Ready sha K (sourceId sha job.watched.path) scanned.index scanned.prev manifests)
      (writeVersion sha prim job env scanned) (fun _ => AllBacked sha K) (AllBacked sha K) := by
  refine triple_read_bind fun st hst => ?_
  have hblobs := @triple_writeMissingBlobs Text _ sha K (sourceId sha job.watched.path)
    scanned.index scanned.prev manifests prim job env scanned.snapshot hs
  refine triple_bind (spec_pre hblobs (fun _ h => h.2))
    fun written => ?_
  dsimp only
  split
  · exact spec_pre (triple_finishScan job env _ rfl) (fun _ h => h.1)
  · rw [hst.manifests_eq]
    exact triple_conseq (triple_commitVersion job _ hK.sighted rfl
      (versionIdFor_not_mem manifests env.stamp) (versionIdFor_ne_nil manifests env.stamp))
      (fun _ h => h) (fun _ _ h => h) fun _ h => h

/-- Every step of a call keeps the invariant, whatever fails and wherever it is cut. -/
theorem keeps_backupOneFolder (prim : Primitives) (job : FolderJob) (env : BackupEnv)
    (hK : Admits K job env) :
    Keeps (AllBacked sha K) (backupOneFolder sha prim job env : Store.Op Text FolderBackupResult) := by
  refine triple_bind (triple_scanSource job env hK) fun scanned => triple_forall fun st h => ?_
  split
  · exact spec_pre (triple_finishScan job env _ rfl) (fun t ht => by rw [ht]; exact h.1)
  · exact spec_pre (triple_writeVersion prim job env hK h.2) (fun t ht => by rw [ht]; exact h.1)

theorem adjusts_clearSafety (index : VersionIndex) : Adjusts index (clearSafety index) :=
  ⟨rfl,rfl,rfl,nofun⟩

/-- The index is published before the manifest it no longer lists is removed. -/
theorem triple_removeListedVersion {kept : Str} {env : RemoveKeptEnv}
    (hsee : K.sighted → ∀ sid, env.gc.manifestsSeen sid = true) :
    Triple (fun st : Store Text => AllBacked sha K st ∧ IndexBacked sha K st sid index)
      (removeListedVersion sid kept index env) (fun _ => AllBacked sha K) (AllBacked sha K) := by
  let remaining := clearSafety (withoutVersion kept index)
  refine triple_bind (R := fun _ => Published sha K sid remaining) ?_ fun _ => ?_
  · refine triple_publish ?_ fun _ h => h.1
    rintro st ⟨h,hback⟩
    have hsound := allBacked_putIndex h (hback.filter (b := remaining) rfl nofun)
    exact ⟨⟨hsound,by rw [Store.putIndex,Store.dir_setDir_self]⟩,hsound⟩
  refine triple_bind (R := fun _ => AllBacked sha K) ?_ fun _ =>
    triple_bind (keeps_allBacked_gc hsee) fun _ => triple_pure _ fun _ h => h
  refine triple_read_bind fun st _ => ?_
  refine triple_check_bind (fun _ h => h.2.1) fun _ => triple_step ?_
  rintro t ⟨-,h,hi⟩
  have hsound : AllBacked sha K (t.eraseManifest sid (manifestName kept)) := by
    refine allBacked_eraseManifest h ?_
    intro text index' ht hr v hv
    rw [hi] at ht
    cases ht
    rw [StoreText.readIndex_writeIndex] at hr
    cases hr
    exact of_decide_eq_true (List.mem_filter.mp hv).2
  exact ⟨hsound,hsound⟩

theorem keeps_removeKeptSafetyVersion (sourcePath : Str) {env : RemoveKeptEnv}
    (hsee : K.sighted → ∀ sid, env.gc.manifestsSeen sid = true) :
    Keeps (AllBacked sha K) (removeKeptSafetyVersion sha sourcePath env : Store.Op Text (Option Str)) := by
  refine triple_read_bind fun st hst => ?_
  refine triple_lift_bind (fun _ h => h.2) fun index hindex => ?_
  have hback := indexBacked_of_loadIndex hst hindex
  have hpre : ∀ t : Store Text, t = st ∧ AllBacked sha K t →
      AllBacked sha K t ∧ IndexBacked sha K t (sourceId sha sourcePath) index := by
    rintro t ⟨rfl,h⟩
    exact ⟨h,hback⟩
  split
  · exact triple_pure _ fun _ h => h.2
  · split
    · exact spec_pre (triple_removeListedVersion hsee) hpre
    · refine triple_bind (R := fun _ => AllBacked sha K) (triple_publish ?_ fun _ h => h.2)
        fun _ => triple_pure _ fun _ h => h
      intro t h
      obtain ⟨hs,hb⟩ := hpre t h
      have hsound := allBacked_putIndex hs (hb.adjust (adjusts_clearSafety index))
      exact ⟨hsound,hsound⟩

/-- A removal that runs to its end keeps the invariant in every destination. -/
theorem allBacked_removeHistoryAt {env : RemoveHistoryEnv Text} {t : Store Text}
    (hsee : K.sighted → ∀ sid, env.gc.manifestsSeen sid = true) (h : AllBacked sha K st)
    (hr : Returns (removeHistoryAt sid env) st () t) : AllBacked sha K t := by
  obtain ⟨_,s₁,hcheck,hbody⟩ := returns_bind.mp hr
  obtain ⟨-,rfl⟩ := returns_check.mp hcheck
  obtain ⟨s₂,s₃,hread,hcase⟩ := returns_bind.mp hbody
  obtain ⟨rfl,rfl⟩ := returns_read.mp hread
  have hgc : ∀ {s t : Store Text}, AllBacked sha K s →
      Returns (gcUnreferencedBlobs env.gc : Store.Op Text Unit) s () t → AllBacked sha K t := by
    rintro s t hs ⟨hok,rfl⟩
    exact (keeps_allBacked_gc hsee s hs).2.1 () hok
  split at hcase
  · obtain ⟨_,s₄,hrem,hcollect⟩ := returns_bind.mp hcase
    refine hgc ?_ hcollect
    unfold removeSourceDir at hrem
    split at hrem
    · obtain rfl := returns_step.mp hrem
      exact allBacked_removeDir sid h
    · exact absurd hrem returns_stepThenFail
  · exact hgc h hcase

theorem allBacked_removeSourceHistory {α : Type} {destinations : List Str}
    {canonical : Str → Except StoreError Str} {leases : Except StoreError Unit} {sourcePath : Str}
    {env : Str → RemoveHistoryEnv Text} {commit : Except StoreError α} {disk disk' : Disk Text}
    {a : α} (hsee : K.sighted → ∀ root sid, (env root).gc.manifestsSeen sid = true)
    (h : ∀ root, AllBacked sha K (disk.store root))
    (hr : Returns (removeSourceHistoryWithCommit sha destinations canonical leases sourcePath env
      commit) disk a disk') : ∀ root, AllBacked sha K (disk'.store root) := by
  obtain ⟨_,-,hr⟩ := returns_lift_bind.mp hr
  obtain ⟨_,d,hloop,hr⟩ := returns_bind.mp hr
  obtain ⟨-,rfl⟩ := returns_lift.mp hr
  refine returns_removeHistoryLoop (I := fun disk : Disk Text => ∀ root, AllBacked sha K (disk.store root))
    ?_ h hloop
  intro root disk disk' h hat root'
  obtain ⟨t,ht,rfl⟩ := returns_zoom.mp hat
  by_cases he : root' = root
  · subst he
    rw [Disk.store_setStore_self]
    exact allBacked_removeHistoryAt (fun hs => hsee hs root') (h root') ht
  · rw [Disk.store_setStore_of_ne he]
    exact h root'

/-- The calls of which any sequence may run on a store. -/
inductive StoreCall where
  | backup (job : FolderJob) (env : BackupEnv)
  | removeKept (sourcePath : Str) (env : RemoveKeptEnv)

/-- The action of a call; its value is of no interest here. -/
def StoreCall.run (sha : Sha256) (prim : Primitives) : StoreCall → Store.Op Text Unit
  | .backup job env => void (backupOneFolder sha prim job env)
  | .removeKept sourcePath env => void (removeKeptSafetyVersion sha sourcePath env)

def StoreCall.gc : StoreCall → GcEnv
  | .backup _ env => env.gc
  | .removeKept _ env => env.gc

/-- The collection of a call sees the manifests of every source. -/
def StoreCall.Sighted (call : StoreCall) : Prop := ∀ sid, call.gc.manifestsSeen sid = true

/-- A backup scans only paths that satisfy the predicate. -/
structure StoreCall.Admitted (K : Scope) (call : StoreCall) : Prop where
  path : ∀ job env, call = .backup job env →
    ∀ k, ScannedPath job.scan job.watched env.source k → K.path k
  sighted : K.sighted → call.Sighted

theorem keeps_run (prim : Primitives) (call : StoreCall) (hK : call.Admitted K) :
    Keeps (AllBacked sha K) (call.run sha prim : Store.Op Text Unit) := by
  cases call with
  | backup job env =>
      exact (keeps_backupOneFolder prim job env ⟨hK.path job env rfl,hK.sighted⟩).void
  | removeKept sourcePath env => exact (keeps_removeKeptSafetyVersion sourcePath hK.sighted).void

/-- The stores that calls from a class can leave behind, each run to its end or cut after
any step. -/
abbrev ReachableBy (sha : Sha256) (prim : Primitives) (A : StoreCall → Prop) :
    Store Text → Prop :=
  Reachable Store.empty fun call : {call // A call} => call.1.run sha prim

theorem allBacked_of_reachableBy {prim : Primitives} {A : StoreCall → Prop}
    (hA : ∀ call, A call → call.Admitted K) (h : ReachableBy sha prim A st) :
    AllBacked sha K st := by
  refine Reachable.invariant allBacked_empty ?_ h
  intro call
  exact keeps_run prim call.1 (hA call.1 call.2)

/-- The stores that any calls can leave behind. -/
abbrev ReachableStore (sha : Sha256) (prim : Primitives) : Store Text → Prop :=
  ReachableBy sha prim fun _ => True

/-- Any paths, and collections that see every source. -/
abbrev Scope.all : Scope := ⟨fun _ => True,True⟩

/-- Any paths, and nothing known of the collections. -/
abbrev Scope.blind : Scope := ⟨fun _ => True,False⟩

theorem allBacked_of_reachable {prim : Primitives} {A : StoreCall → Prop}
    (h : ReachableBy sha prim A st) : AllBacked sha .blind st :=
  allBacked_of_reachableBy (fun _ _ => ⟨fun _ _ _ _ _ => trivial,nofun⟩) h

theorem allBacked_of_sighted {prim : Primitives} {A : StoreCall → Prop}
    (hA : ∀ call, A call → call.Sighted) (h : ReachableBy sha prim A st) : AllBacked sha .all st :=
  allBacked_of_reachableBy (fun call hcall => ⟨fun _ _ _ _ _ => trivial,fun _ => hA call hcall⟩) h

end StoreInvariant
end BackupSync
