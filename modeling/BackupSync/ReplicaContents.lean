import BackupSync.BlobInvariant
import BackupSync.Replication
import BackupSync.StoreCompleteness

/-!
# What a replica holds after a pair was replicated

When replicate_one_pair returns, each source directory with an index has been
checked on both sides just before its index was published. What happens after
that check leaves it valid: deletions spare the manifests the index lists, and
the directories that follow replace a blob only by one that decodes to the hash
it is filed under.
-/
namespace BackupSync
open Checks Interruptible Interruptible.Action ContentHash SafetyBaseline BlobInvariant Replication
  StoreCompleteness

namespace ReplicaContents

variable {Text : Type} [StoreText Text] [DecidableEq Text] {sha : Sha256} {prim : Primitives}
  {codec : BlobCodec} {src : Store Text} {env : PairEnv} {sid : Str}

/-- The replica has the index of a source directory, the manifests it lists and their blobs. -/
structure Mirrors (sha : Sha256) (prim : Primitives) (codec : BlobCodec) (src dst : Store Text)
    (sid : Str) (text : Text) (index : VersionIndex) : Prop where
  index_eq : (dst.dir sid).index = some text
  version : ∀ v ∈ index.versions, ∃ mtext m,
    (src.dir sid).manifests[manifestName v.id]? = some mtext ∧
    (dst.dir sid).manifests[manifestName v.id]? = some mtext ∧
    StoreText.readManifest mtext = some m ∧
    ∀ (k : Str) (e : ManifestEntry), m.entries[k]? = some e → e.kind = .file →
      ∀ hash, e.sha256 = some hash → GoodBlob sha prim codec dst hash

section Steps
omit [DecidableEq Text]
variable {t u : Store Text} {text : Text} {index : VersionIndex}

omit [StoreText Text] in
theorem isLowerHex_of_plaintext {hash : Str} {blob : Bytes}
    (h : BlobCodec.sha256PlaintextBlob prim sha codec blob = .ok hash) :
    isLowerHexSha256 hash = true := by
  obtain ⟨content,-,h⟩ := bind_eq_ok.mp h
  cases h
  exact isLowerHexSha256_sha256Hex content

omit [StoreText Text] in
/-- Blobs of different hashes do not get in each other's way. -/
theorem gains_goodBlob (hash : Str) :
    Gains sha prim codec (fun st : Store Text => GoodBlob sha prim codec st hash) := by
  rintro st hash' blob hb ⟨blob',hblob',hplain'⟩
  unfold GoodBlob
  rw [Store.putBlob]
  by_cases he : hash = hash'
  · subst he
    exact ⟨blob,getElem?_insert_self,hb⟩
  · have hne : blobPath sha hash ≠ blobPath sha hash' := fun hp =>
      he (blobPath_injective (isLowerHex_of_plaintext hplain') (isLowerHex_of_plaintext hb) hp)
    exact ⟨blob',(getElem?_insert_of_ne hne blob).trans hblob',hplain'⟩

theorem mirrors_mono (h : Mirrors sha prim codec src t sid text index)
    (hi : (u.dir sid).index = (t.dir sid).index) (hm : ∀ v ∈ index.versions,
      (u.dir sid).manifests[manifestName v.id]? = (t.dir sid).manifests[manifestName v.id]?)
    (hg : ∀ hash, GoodBlob sha prim codec t hash → GoodBlob sha prim codec u hash) :
    Mirrors sha prim codec src u sid text index := by
  refine ⟨hi.trans h.index_eq,?_⟩
  intro v hv
  obtain ⟨mtext,m,hours,htheirs,hread,hblobs⟩ := h.version v hv
  refine ⟨mtext,m,hours,(hm v hv).trans htheirs,hread,?_⟩
  intro k e he hkind hash hhash
  exact hg hash (hblobs k e he hkind hash hhash)

theorem mirrors_setDir {sid' : Str} {d : SourceDir Text}
    (h : Mirrors sha prim codec src t sid text index)
    (hd : sid' = sid → d.index = (t.dir sid).index ∧ ∀ v ∈ index.versions,
      d.manifests[manifestName v.id]? = (t.dir sid).manifests[manifestName v.id]?) :
    Mirrors sha prim codec src (t.setDir sid' d) sid text index := by
  by_cases he : sid' = sid
  · subst he
    obtain ⟨hi,hm⟩ := hd rfl
    apply mirrors_mono h
    · rw [Store.dir_setDir_self]
      exact hi
    · rw [Store.dir_setDir_self]
      exact hm
    · exact fun _ hg => hg
  · have hdir := Store.dir_setDir_of_ne (Ne.symm he) d t
    exact mirrors_mono h (by rw [hdir]) (fun _ _ => by rw [hdir]) fun _ hg => hg

theorem mirrors_putManifest {sid' id : Str} {mtext : Text}
    (hours : (src.dir sid').manifests[manifestName id]? = some mtext)
    (h : Mirrors sha prim codec src t sid text index) :
    Mirrors sha prim codec src (t.putManifest sid' (manifestName id) mtext) sid text index := by
  refine mirrors_setDir h ?_
  rintro rfl
  refine ⟨rfl,fun v hv => ?_⟩
  by_cases he : v.id = id
  · subst he
    obtain ⟨mtext',-,hours',htheirs',-,-⟩ := h.version v hv
    rw [getElem?_insert_self,htheirs',← hours',hours]
  · exact getElem?_insert_of_ne (fun hname => he (manifestName_injective hname)) mtext

end Steps

section Checked

omit [StoreText Text] [DecidableEq Text] in
theorem requirePlaintextHash_eq_ok {a : Artifact} {blob : Bytes} {hash : Str} :
    requirePlaintextHash sha prim codec a blob hash = .ok () ↔
      BlobCodec.sha256PlaintextBlob prim sha codec blob = .ok hash := by
  unfold requirePlaintextHash
  rw [bind_eq_ok]
  constructor
  · rintro ⟨actual,hactual,heq⟩
    rw [mapError_eq_ok] at hactual
    rwa [← eq_of_beq (require_eq_ok.mp heq)]
  · intro h
    exact ⟨hash,mapError_eq_ok.mpr h,require_eq_ok.mpr (beq_self_eq_true _)⟩

theorem openFile_eq_ok {α : Type} {stage : Stage} {side : Side} {a : Artifact} {found : Option α}
    {file : α} (h : openFile env stage side a found = .ok file) : found = some file := by
  obtain ⟨-,h⟩ := then_eq_ok.mp h
  obtain ⟨x,hx,h⟩ := bind_eq_ok.mp h
  obtain ⟨-,h⟩ := then_eq_ok.mp h
  cases h
  exact orElse_eq_ok.mp hx

theorem mem_fileHashes {m : Manifest} {k hash : Str} {e : ManifestEntry}
    (he : m.entries[k]? = some e) (hkind : e.kind = .file) (hhash : e.sha256 = some hash) :
    hash ∈ fileHashes m :=
  List.mem_filterMap.mpr ⟨e,Manifest.mem_entryValues.mpr ⟨k,he⟩,by rw [if_pos hkind,hhash]⟩

omit [DecidableEq Text] in
theorem validateManifestArtifacts_eq_ok {side : Side} {id : Str} {st : Store Text}
    (h : validateManifestArtifacts sha prim codec env side sid id st = .ok ()) :
    ∃ mtext m, (st.dir sid).manifests[manifestName id]? = some mtext ∧
      StoreText.readManifest mtext = some m ∧
      ∀ hash ∈ fileHashes m, GoodBlob sha prim codec st hash := by
  obtain ⟨mtext,hfile,h⟩ := bind_eq_ok.mp h
  obtain ⟨m,hread,h⟩ := bind_eq_ok.mp h
  refine ⟨mtext,m,openFile_eq_ok hfile,orElse_eq_ok.mp hread,?_⟩
  intro hash hmem
  obtain ⟨-,hbody⟩ := then_eq_ok.mp (forM_eq_ok.mp h hash hmem)
  obtain ⟨blob,hblob,hplain⟩ := bind_eq_ok.mp hbody
  exact ⟨blob,openFile_eq_ok hblob,requirePlaintextHash_eq_ok.mp hplain⟩

variable {plan : VersionReplicationPlan}

/-- A validated plan is in place on the replica. -/
theorem validateReplicationPlans_eq_ok {plans : List VersionReplicationPlan} {dst : Store Text}
    (h : validateReplicationPlans sha prim codec src env sid plans dst = .ok ())
    (hp : plan ∈ plans) : ∃ mtext m,
      (src.dir sid).manifests[manifestName plan.versionId]? = some mtext ∧
      (dst.dir sid).manifests[manifestName plan.versionId]? = some mtext ∧
      StoreText.readManifest mtext = some m ∧
      ∀ hash ∈ fileHashes m, GoodBlob sha prim codec dst hash := by
  obtain ⟨hsame,hrest⟩ := then_eq_ok.mp (forM_eq_ok.mp h plan hp)
  obtain ⟨-,hreplica⟩ := then_eq_ok.mp hrest
  obtain ⟨ours,hours,hsame⟩ := bind_eq_ok.mp hsame
  obtain ⟨theirs,htheirs,hsame⟩ := bind_eq_ok.mp hsame
  obtain rfl : ours = theirs := of_decide_eq_true (require_eq_ok.mp hsame)
  obtain ⟨mtext,m,hfile,hread,hgood⟩ := validateManifestArtifacts_eq_ok hreplica
  have hm := openFile_eq_ok htheirs
  obtain rfl := Option.some.inj (hm.symm.trans hfile)
  exact ⟨ours,m,openFile_eq_ok hours,hm,hread,hgood⟩

omit [DecidableEq Text] in
theorem checkedIndex_eq_ok {side : Side} {text : Text} {index : VersionIndex}
    (h : checkedIndex env side sid text = .ok index) :
    StoreText.readIndex text = some index ∧
      ∀ v ∈ index.versions, VersionIndex.validateVersionId v.id = true := by
  obtain ⟨-,h⟩ := then_eq_ok.mp h
  obtain ⟨index',hread,h⟩ := bind_eq_ok.mp h
  obtain ⟨hvalid,h⟩ := then_eq_ok.mp h
  cases h
  exact ⟨orElse_eq_ok.mp hread,
    (VersionIndex.validateVersionIndex_eq_ok.mp (mapError_eq_ok.mp hvalid)).1⟩

omit [DecidableEq Text] in
theorem versionId_of_planVersion {v : VersionInfo}
    (h : planVersion sha prim codec src env sid v = .ok plan) : plan.versionId = v.id := by
  obtain ⟨text,-,h⟩ := bind_eq_ok.mp h
  obtain ⟨m,-,h⟩ := bind_eq_ok.mp h
  obtain ⟨blobs,-,h⟩ := bind_eq_ok.mp h
  cases h
  rfl

omit [StoreText Text] [DecidableEq Text] in
theorem good_of_planBlobs {id : Str} {hashes plan blobs : List Str}
    (h : planBlobs sha prim codec src env sid id plan hashes = .ok blobs)
    (hplan : ∀ hash ∈ plan, GoodBlob sha prim codec src hash) :
    ∀ hash ∈ blobs, GoodBlob sha prim codec src hash := by
  induction hashes generalizing plan with
  | nil =>
      cases h
      exact hplan
  | cons hash hashes ih =>
      unfold planBlobs at h
      obtain ⟨-,h⟩ := then_eq_ok.mp h
      split at h
      · exact ih h hplan
      · obtain ⟨blob,hblob,h⟩ := bind_eq_ok.mp h
        obtain ⟨hplain,h⟩ := then_eq_ok.mp h
        refine ih h ?_
        intro hash' hmem
        rcases List.mem_append.mp hmem with hmem | hmem
        · exact hplan hash' hmem
        · obtain rfl := List.mem_singleton.mp hmem
          exact ⟨blob,openFile_eq_ok hblob,requirePlaintextHash_eq_ok.mp hplain⟩

/-- A plan stands for a listed version whose manifest can be read in the source store and whose
planned blobs were checked there. -/
structure Planned (sha : Sha256) (prim : Primitives) (codec : BlobCodec) (src : Store Text)
    (sid : Str) (plan : VersionReplicationPlan) : Prop where
  listed : IndexLists src sid plan.versionId
  manifest : ∃ mtext m, (src.dir sid).manifests[manifestName plan.versionId]? = some mtext ∧
    StoreText.readManifest mtext = some m
  good : ∀ hash ∈ plan.blobs, GoodBlob sha prim codec src hash

omit [DecidableEq Text] in
theorem planned_of_planVersion {v : VersionInfo} (hlists : IndexLists src sid v.id)
    (h : planVersion sha prim codec src env sid v = .ok plan) :
    Planned sha prim codec src sid plan := by
  obtain ⟨mtext,hfile,h⟩ := bind_eq_ok.mp h
  obtain ⟨m,hread,h⟩ := bind_eq_ok.mp h
  obtain ⟨blobs,hblobs,h⟩ := bind_eq_ok.mp h
  cases h
  refine ⟨hlists,⟨mtext,m,openFile_eq_ok hfile,orElse_eq_ok.mp hread⟩,?_⟩
  exact good_of_planBlobs hblobs (by simp)

end Checked

section Pair
variable {s t : Store Text} {pair : PairCounters} {cfg : Config} {text : Text} {index : VersionIndex}
  {I : Store Text → Prop}

/-- A condition on the replica that no step of a pair can end. -/
structure Undisturbed (sha : Sha256) (prim : Primitives) (codec : BlobCodec) (src : Store Text)
    (I : Store Text → Prop) : Prop where
  opened : ∀ s, I s → I {s with sourcesExist := true}
  /-- New directories and scan reports leave the indexes and the manifests. -/
  history : ∀ (s : Store Text) sid d, d.index = (s.dir sid).index →
    d.manifests = (s.dir sid).manifests → I s → I (s.setDir sid d)
  putManifest : ∀ s sid id text m, IndexLists src sid id →
    (src.dir sid).manifests[manifestName id]? = some text → StoreText.readManifest text = some m →
    I s → I (s.putManifest sid (manifestName id) text)
  putBlob : Gains sha prim codec I
  /-- After the index is published, and after each deletion, the directory mirrors the source. -/
  mirror : ∀ (s : Store Text) sid d text index, (src.dir sid).index = some text →
    StoreText.readIndex text = some index →
    Mirrors sha prim codec src (s.setDir sid d) sid text index → I s → I (s.setDir sid d)

omit [StoreText Text] [DecidableEq Text] in
theorem keeps_copyFileAtomic {a : Artifact} {publish : Store Text → Store Text}
    (h : ∀ s, I s → I (publish s)) : Keeps I (copyFileAtomic env a publish) :=
  keeps_lift_bind fun _ _ => keeps_bind (keeps_step h) fun _ => keeps_pure _

theorem keeps_copyVersion (h : Undisturbed sha prim codec src I) {plan : VersionReplicationPlan}
    (hp : Planned sha prim codec src sid plan) :
    Keeps I (copyVersion sha prim codec src env sid pair plan) := by
  refine keeps_bind ?_ fun _ => keeps_foldlM_mem ?_ _
  · obtain ⟨mtext,m,hours,hread⟩ := hp.manifest
    refine keeps_read_bind fun dst => keeps_lift_bind fun needed _ => ?_
    split
    · refine keeps_lift_bind fun text htext => keeps_bind ?_ fun _ => keeps_pure _
      obtain rfl := Option.some.inj (hours.symm.trans (orElse_eq_ok.mp htext))
      exact keeps_copyFileAtomic fun s hs => h.putManifest s _ _ _ m hp.listed hours hread hs
    · exact keeps_pure _
  · intro p hash hmem
    obtain ⟨blob,hblob,hplain⟩ := hp.good hash hmem
    refine keeps_read_bind fun dst => keeps_check_bind fun _ => ?_
    split
    · refine keeps_bind ?_ fun _ => keeps_pure _
      refine keeps_lift_bind fun found hfound => ?_
      obtain rfl := Option.some.inj (hblob.symm.trans (orElse_eq_ok.mp hfound))
      refine keeps_bind (keeps_copyFileAtomic fun s hs => h.putBlob s hash _ hplain hs) fun _ => ?_
      refine keeps_read_bind fun dst' => keeps_lift_bind fun _ _ => ?_
      exact keeps_lift_bind fun _ _ => keeps_pure _
    · exact keeps_pure _

omit [DecidableEq Text] in
theorem keeps_copyReport (h : Undisturbed sha prim codec src I) :
    Keeps I (copyReport src env sid pair) := by
  refine keeps_check_bind fun _ => ?_
  split
  · exact keeps_pure _
  · refine keeps_check_bind fun _ => ?_
    split
    · exact keeps_pure _
    · refine keeps_bind (keeps_step fun s hs => ?_) fun _ => keeps_pure _
      exact h.history s _ _ rfl rfl hs

theorem trimJson_manifestName {id : Str} (h : VersionIndex.validateVersionId id = true) :
    trimJson (manifestName id) = id := by
  have hid : id.all VersionIndex.isIdByte = true := by
    rw [VersionIndex.validateVersionId,Bool.and_eq_true] at h
    exact h.2
  have hdot : '.' ∉ id := fun hmem => by
    have hbyte := List.all_eq_true.mp hid _ hmem
    cases hbyte
  have hstop : trimJsonRev id.reverse = id.reverse := by
    refine trimJsonRev.eq_2 _ ?_
    intro rest hrest
    refine hdot (List.mem_reverse.mp ?_)
    rw [hrest]
    simp
  have hrev : (manifestName id).reverse = 'n' :: 'o' :: 's' :: 'j' :: '.' :: id.reverse := by
    simp [manifestName]
  rw [trimJson,hrev,trimJsonRev,hstop,List.reverse_reverse]

omit [DecidableEq Text] in
/-- Deletions spare what the published index lists. -/
theorem keeps_mirrorLoop (h : Undisturbed sha prim codec src I)
    (htext : (src.dir sid).index = some text) (hread : StoreText.readIndex text = some index)
    (hids : ∀ v ∈ index.versions, VersionIndex.validateVersionId v.id = true)
    (names : List Str) (remaining deleted : Nat) :
    Keeps (fun t => I t ∧ Mirrors sha prim codec src t sid text index)
      (mirrorLoop env sid index.ids remaining deleted names : Replication.Op Text Nat) := by
  induction names generalizing remaining deleted with
  | nil => exact keeps_pure _
  | cons name names ih =>
      unfold mirrorLoop
      refine keeps_check_bind fun _ => ?_
      split
      · exact ih remaining deleted
      · rename_i hskip
        split
        · exact keeps_pure _
        · refine keeps_check_bind fun _ => keeps_bind (keeps_step fun s hs => ?_) fun _ => ih _ _
          have hm : Mirrors sha prim codec src (s.eraseManifest sid name) sid text index := by
            refine mirrors_setDir hs.2 fun _ => ⟨rfl,fun v hv => getElem?_erase_of_ne ?_⟩
            rintro rfl
            have hkept : v.id ∈ index.ids := List.mem_map_of_mem hv
            simp [trimJson_manifestName (hids v hv),hkept] at hskip
          exact ⟨h.mirror s _ _ _ index htext hread hm hs.1,hm⟩

omit [DecidableEq Text] in
theorem keeps_mirrorIf (h : Undisturbed sha prim codec src I)
    (htext : (src.dir sid).index = some text) (hindex : checkedIndex env .source sid text = .ok index) :
    Keeps (fun t => I t ∧ Mirrors sha prim codec src t sid text index)
      (mirrorIf env cfg sid index pair) := by
  obtain ⟨hread,hids⟩ := checkedIndex_eq_ok hindex
  unfold mirrorIf
  split
  · refine keeps_bind ?_ fun _ => keeps_pure _
    refine keeps_read_bind fun dst => ?_
    split
    · exact keeps_pure _
    · exact keeps_mirrorLoop h htext hread hids _ _ _
  · exact keeps_pure _

/-- The index is published in a state that was just checked. -/
theorem triple_publishIndex (h : Undisturbed sha prim codec src I)
    {plans : List VersionReplicationPlan} (htext : (src.dir sid).index = some text)
    (hindex : checkedIndex env .source sid text = .ok index)
    (hplans : buildReplicationPlans sha prim codec src env sid index = .ok plans) :
    Triple I (do
      let dst ← read
      lift (validateReplicationPlans sha prim codec src env sid plans dst)
      let bytes ← copyFileAtomic env (.index sid) (Store.putIndex sid text)
      mirrorIf env cfg sid index {pair with bytesCopied := saturatingAdd pair.bytesCopied bytes})
      (fun _ t => I t ∧ Mirrors sha prim codec src t sid text index) I := by
  refine triple_read_bind fun dst hdst => triple_lift_bind (fun _ hs => hs.2) fun _ hvalid => ?_
  have hm : Mirrors sha prim codec src (dst.putIndex sid text) sid text index := by
    refine ⟨by rw [Store.putIndex,Store.dir_setDir_self],?_⟩
    intro v hv
    obtain ⟨plan,hplan,hpv⟩ := exists_of_mapM_eq_ok hplans hv
    obtain ⟨mtext,m,hours,htheirs,hmread,hblobs⟩ := validateReplicationPlans_eq_ok hvalid hplan
    rw [versionId_of_planVersion hpv] at hours htheirs
    refine ⟨mtext,m,hours,?_,hmread,?_⟩
    · rw [Store.putIndex,Store.dir_setDir_self]
      exact htheirs
    · intro k e he hkind hash hhash
      exact hblobs hash (mem_fileHashes he hkind hhash)
  have hpublished := h.mirror dst _ _ _ index htext (checkedIndex_eq_ok hindex).1 hm hdst
  refine triple_bind (R := fun _ t => I t ∧ Mirrors sha prim codec src t sid text index) ?_ fun _ => ?_
  · refine triple_lift_bind (fun _ hs => hs.2) fun bytes _ => ?_
    refine triple_bind (triple_step ?_) fun _ => triple_pure _ fun _ hs => hs
    rintro t ⟨rfl,-⟩
    exact ⟨⟨hpublished,hm⟩,hpublished⟩
  · exact triple_conseq (keeps_mirrorIf h htext hindex) (fun _ hs => hs) (fun _ _ hs => hs)
      fun _ hs => hs.1

/-- Every source directory with an index is mirrored. -/
def SourceMirrored (sha : Sha256) (prim : Primitives) (codec : BlobCodec) (src : Store Text)
    (sid : Str) (dst : Store Text) : Prop :=
  ∀ text, (src.dir sid).index = some text → ∃ index, StoreText.readIndex text = some index ∧
    Mirrors sha prim codec src dst sid text index

/-- After a source directory was replicated it is mirrored, and what no step disturbs still holds. -/
theorem triple_replicateSource (h : Undisturbed sha prim codec src I) :
    Triple I (replicateSource sha prim codec src env cfg pair sid)
      (fun _ t => I t ∧ SourceMirrored sha prim codec src sid t) I := by
  have hkept : ∀ s, I s → I s := fun _ hs => hs
  refine triple_check_bind hkept fun _ => triple_check_bind hkept fun _ => ?_
  unfold SourceMirrored
  split
  · rename_i hnone
    refine triple_pure _ fun t ht => ⟨ht,fun text htext => ?_⟩
    rw [hnone] at htext
    cases htext
  · rename_i text htext
    refine triple_lift_bind hkept fun index hindex => triple_check_bind hkept fun _ => ?_
    have hread := (checkedIndex_eq_ok hindex).1
    refine triple_bind (keeps_step fun s hs => h.history s _ _ rfl rfl hs) fun _ => ?_
    refine triple_read_bind fun _ _ => triple_lift_bind (fun _ hs => hs.2) fun _ _ => ?_
    refine triple_check_bind (fun _ hs => hs.2) fun _ => ?_
    refine triple_lift_bind (fun _ hs => hs.2) fun plans hplans => ?_
    refine triple_bind (R := fun _ => I) ?_ fun _ => ?_
    · refine triple_conseq (keeps_foldlM_mem ?_ _) (fun _ hs => hs.2) (fun _ _ hs => hs) hkept
      intro p plan hmem
      obtain ⟨v,hv,hpv⟩ := exists_of_mem_mapM_eq_ok hplans hmem
      have hlists : IndexLists src sid v.id := ⟨text,index,htext,hread,List.mem_map_of_mem hv⟩
      exact keeps_copyVersion h (planned_of_planVersion hlists hpv)
    · refine triple_bind (keeps_copyReport h) fun _ => ?_
      refine triple_post (triple_publishIndex h htext hindex hplans) fun _ t ht => ⟨ht.1,?_⟩
      intro text' htext'
      obtain rfl := Option.some.inj (htext.symm.trans htext')
      exact ⟨index,hread,ht.2⟩

theorem keeps_replicateOnePair (h : Undisturbed sha prim codec src I) (srcId : Str) :
    Keeps I (replicateOnePair sha prim codec src env cfg srcId) := by
  refine keeps_check_bind fun _ => ?_
  split
  · refine keeps_check_bind fun _ => keeps_check_bind fun _ => keeps_check_bind fun _ => ?_
    refine keeps_bind (keeps_step fun s hs => h.opened s hs) fun _ => ?_
    refine keeps_check_bind fun _ => keeps_check_bind fun _ => ?_
    refine keeps_bind (keeps_foldlM (fun p sid => ?_) _ _) fun _ => ?_
    · exact triple_post (triple_replicateSource h) fun _ _ hs => hs.1
    · exact keeps_bind (keeps_foldlM (fun _ w => keeps_check) _ _) fun _ => keeps_pure _
  · exact keeps_pure _

omit [DecidableEq Text] in
/-- A source directory that is mirrored stays so while others are replicated. -/
theorem undisturbed_sourceMirrored (sid : Str) :
    Undisturbed sha prim codec src (SourceMirrored sha prim codec src sid) := by
  have hstill : ∀ {s t : Store Text}, (∀ text index, Mirrors sha prim codec src s sid text index →
      Mirrors sha prim codec src t sid text index) → SourceMirrored sha prim codec src sid s →
      SourceMirrored sha prim codec src sid t := by
    intro s t hst hs text htext
    obtain ⟨index,hread,hm⟩ := hs text htext
    exact ⟨index,hread,hst text index hm⟩
  constructor
  · intro s
    exact hstill fun _ _ hm => mirrors_mono hm rfl (fun _ _ => rfl) fun _ hg => hg
  · intro s sid' d hi hm
    refine hstill fun text index h => mirrors_setDir h ?_
    rintro rfl
    exact ⟨hi,fun _ _ => by rw [hm]⟩
  · intro s sid' id mtext m _ hours _
    exact hstill fun _ _ => mirrors_putManifest hours
  · intro s hash blob hplain
    refine hstill fun _ _ hm => mirrors_mono hm rfl (fun _ _ => rfl) fun hash' hg => ?_
    exact gains_goodBlob hash' s hash blob hplain hg
  · intro s sid' d text' index' htext' hread' hm' hs
    by_cases he : sid' = sid
    · subst he
      intro text htext
      obtain rfl := Option.some.inj (htext'.symm.trans htext)
      exact ⟨index',hread',hm'⟩
    · exact hstill (fun _ _ hm => mirrors_setDir hm fun he' => absurd he' he) hs

/-- Once the walk over the source directories has returned, all of them are mirrored. -/
theorem returns_replicateOnePair {srcId : Str}
    (hr : Returns (replicateOnePair sha prim codec src env cfg srcId) s pair t)
    (hseen : env.storeSeen = true) (hsources : src.sourcesExist = true) (sid : Str) :
    SourceMirrored sha prim codec src sid t := by
  obtain ⟨-,hr⟩ := returns_check_bind.mp hr
  rw [if_pos (by simp [storeExists,hseen,hsources])] at hr
  obtain ⟨-,hr⟩ := returns_check_bind.mp hr
  obtain ⟨-,hr⟩ := returns_check_bind.mp hr
  obtain ⟨-,hr⟩ := returns_check_bind.mp hr
  obtain ⟨_,s₁,-,hr⟩ := returns_bind.mp hr
  obtain ⟨-,hr⟩ := returns_check_bind.mp hr
  obtain ⟨-,hr⟩ := returns_check_bind.mp hr
  obtain ⟨p,s₂,hwalk,hr⟩ := returns_bind.mp hr
  obtain ⟨_,s₃,hviews,hr⟩ := returns_bind.mp hr
  obtain ⟨-,rfl⟩ := returns_pure.mp hr
  have hany : Undisturbed sha prim codec src fun _ => True := by
    constructor <;> (repeat intro _) <;> trivial
  have hall : ∀ sid ∈ listed env.sourceOrder src.sources.keys,
      SourceMirrored sha prim codec src sid s₂ := by
    refine returns_foldlM_forall ?_ ?_ hwalk
    · intro x _ q u q' u' hstep
      exact ((triple_replicateSource hany).returns trivial hstep).2
    · intro x _ y q u q' u' hu hstep
      exact ((triple_replicateSource (undisturbed_sourceMirrored y)).returns hu hstep).1
  have hstill : t = s₂ := by
    refine returns_foldlM (fun _ u => u = s₂) ?_ rfl hviews
    intro w _ q u q' u' h hcheck
    exact (returns_check.mp hcheck).2.trans h
  rw [hstill]
  intro text htext
  refine hall sid (mem_listed.mpr (mem_keys.mpr ?_)) text htext
  by_contra hmem
  rw [Store.dir,getElem?_eq_none hmem] at htext
  cases htext

/-- After a pair was replicated, the replica has every index of the source store as it is there,
with the manifests it lists and blobs that decode to the hashes they are named after. -/
theorem replicated_pair_mirrors {srcId : Str}
    (hr : Returns (replicateOnePair sha prim codec src env cfg srcId) s pair t)
    (hseen : env.storeSeen = true) (hsources : src.sourcesExist = true) {text : Text}
    (htext : (src.dir sid).index = some text) :
    ∃ index, StoreText.readIndex text = some index ∧
      Mirrors sha prim codec src t sid text index :=
  returns_replicateOnePair hr hseen hsources sid text htext

end Pair

/-- A replication in which nothing fails. -/
def calmPair : PairEnv where
  replicaAvailable := true
  bareStoreRoot := true
  storeSeen := true
  storeCreated := true
  codecLoaded := true
  sourcesCreated := true
  blobsCreated := true
  sourceOrder := []
  sourceListed _ := true
  dirCreated _ := true
  manifestsCreated _ := true
  inspected _ _ _ := true
  readable _ _ _ := true
  copied _ := some 1
  manifestsSeen _ := true
  manifestOrder _ := []
  manifestListed _ _ := true
  manifestRemovable _ _ := true
  viewSynced _ := true

/-- Two destinations, the first of them replicated to the second, with deletions. -/
def mirroredConfig (watched : List WatchedPath) : Config where
  maxBackupsPerFile := 1
  minFreeSpaceBytes := none
  freeSpaceSafetyBufferBytes := 0
  replicationEnabled := true
  replicationMirrorManifests := true
  replicationMaxManifestDeletesPerCycle := 10
  safetyThreshold := 0
  scan := notesJob.scan
  codec := notesJob.codec
  watched := watched
  destinations := [⟨"main".toList,"/mnt/main".toList,none,["copy".toList]⟩,
    ⟨"copy".toList,"/mnt/copy".toList,none,[]⟩]

/-- A replica with a damaged manifest, a stray one and a truncated blob. -/
def damagedReplica : Store PlainText :=
  ((Store.empty.putManifest notesId (manifestName morning.text)
      (.damaged "cut".toList)).putManifest notesId
      "old.json".toList (.damaged []) ).putBlob
    (blobPath notesSha (sha256Hex notesSha (ascii "hi"))) (ascii "h")

def replicateFirst : Replication.Op PlainText PairCounters :=
  replicateOnePair notesSha .transparent notesJob.codec firstStore calmPair (mirroredConfig [])
    "main".toList

/-- A damaged replica of the first backup is repaired. -/
theorem replicated_pair_mirrors_damaged_replica : ∃ text index,
    Returns replicateFirst damagedReplica ⟨1,1,4,1⟩ (replicateFirst damagedReplica).store ∧
    (firstStore.dir notesId).index = some text ∧
    Mirrors notesSha .transparent notesJob.codec firstStore (replicateFirst damagedReplica).store
      notesId text index := by
  have hr : Returns replicateFirst damagedReplica ⟨1,1,4,1⟩ (replicateFirst damagedReplica).store :=
    ⟨by decide +kernel,rfl⟩
  obtain ⟨index,-,hm⟩ := replicated_pair_mirrors hr rfl (by decide +kernel) index_firstStore
  exact ⟨_,index,hr,index_firstStore,hm⟩

end ReplicaContents
end BackupSync
