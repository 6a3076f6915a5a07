import BackupSync.BackupOutcome
import BackupSync.BlobInvariant
import BackupSync.ReadableScan
import BackupSync.RestoredTree
import BackupSync.VersionOrder

/-!
# Backing up and restoring

A source tree that is fully readable and does not change during a backup comes
back from a restore of the version that is current afterwards. Scanning turns
the tree into a manifest that describes it; the pass over the blobs leaves that
manifest as it is; the version committed, or the one already there, has a
manifest that describes the tree; and every blob it names decodes, in the final
store, to the content it was named after.

The store may have been filled by any calls that encrypted with the same key or
not at all. A version written with a key that the configuration no longer has is
not read back, and neither is one whose blobs were.
-/
namespace BackupSync
open Checks Interruptible Interruptible.Action RelativePath ContentHash ScanSnapshot BackupFolder
  StoreInvariant BackupOutcome VersionOrder BlobInvariant RestoreVersion RestoredTree StoreCompleteness

/-- A directory tree whose relative paths are accepted by the restore side and whose contents
do not look like encodings. -/
structure SourceTree where
  nodes : Tree
  rooted : Rooted nodes
  legal : ∀ names ∈ nodes, ∀ name ∈ names, LegalName name
  accepted : ∀ names ∈ nodes, names ≠ [] → validateRelativePath (relString names) = .ok ()
  plain : ∀ (names : List Str) (content : Bytes), nodes[names]? = some (.file content) →
    ¬ BlobCodec.MagicPrefixed content

namespace BackupRestore

variable {Text : Type} [StoreText Text] {sha : Sha256} {prim : Primitives} {job : FolderJob}
  {env : BackupEnv} {tree : SourceTree} {prev : Option Manifest}

/-- A walk item that shows a node as it is. -/
def Shows (nodes : Tree) : WalkItem → Prop
  | .dir names => nodes[names]? = some .dir
  | .file names outcome => ∃ found content, outcome.stat = .ok found ∧
      outcome.content = .ok content ∧ nodes[names]? = some (.file content)
  | _ => False

/-- The walk shows every node of the tree, nothing else, and nothing is left out. -/
structure Walks (tree : SourceTree) (opts : ScanOptions) (walk : List WalkItem) : Prop where
  shows_all : ∀ item ∈ walk, Shows tree.nodes item
  complete : ∀ names ∈ tree.nodes, ∃ item ∈ walk, entryNames item = some names
  unskipped : ∀ ignore, opts.ignoreSet = .ok ignore → ∀ names ∈ tree.nodes, names ≠ [] →
    skipped opts ignore names = false

/-- A previous file entry of the same length and time has the hash of the content. -/
def HashesCurrent (sha : Sha256) (walk : List WalkItem) (prev : Option Manifest) : Prop :=
  ∀ names read found content, .file names read ∈ walk → read.stat = .ok found →
    read.content = .ok content → ∀ p hash, prevAt prev (normalizeRel names) = some p →
    p.kind = .file → p.len = found.len → p.mtimeUnix = (found.modified.getD (0,0)).1 →
    p.mtimeNanos = (found.modified.getD (0,0)).2 → p.sha256 = some hash →
    hash = sha256Hex sha content

/-- The first attempt to write the blob of a content succeeds. -/
structure CalmBlob (codec : BlobCodec) (content : Bytes) (w : BlobWriteEnv) : Prop where
  parentCreated : w.parentCreated = true
  first : ∃ a rest, w.attempts = some a::rest ∧ a.content = some content ∧
    a.publication = .done ∧ codec.fitsCounter a.wishes content

/-- The identifier that the clock reading leads to is accepted, which with many counters appended
it is not, and the new version sorts after all that are listed. -/
structure ClockAhead (d : SourceDir Text) (index : VersionIndex) (env : BackupEnv) : Prop where
  valid : VersionIndex.validateVersionId (versionIdFor d.manifests env.stamp) = true
  later : SortsLast index ⟨versionIdFor d.manifests env.stamp,env.scannedAt⟩

section Paths
variable {names : List Str}

theorem relPath_of_mem (hmem : names ∈ tree.nodes) (hne : names ≠ []) :
    normalizeRel names = relString names :=
  normalizeRel_of_accepted hne (tree.legal names hmem) (tree.accepted names hmem hne)

theorem namesNode_of_mem (hmem : names ∈ tree.nodes) (hne : names ≠ []) :
    NamesNode (relString names) := by
  have hlegal := tree.legal names hmem
  refine ⟨by rwa [resolve_relString hne hlegal],?_,tree.accepted names hmem hne⟩
  unfold namesFile
  rw [splitOn_relString hne hlegal,List.getLast?_eq_some_getLast hne]
  have hlast := hlegal _ (List.getLast_mem hne)
  simp [hlast.ne_nil,hlast.ne_dot,hlast.ne_dotdot]

end Paths

section Scan
variable {walk : List WalkItem} {opts : ScanOptions} {ignore : List Str → Bool}

theorem itemReadable_of_shows {nodes : Tree} {item : WalkItem} (h : Shows nodes item) :
    ItemReadable item := by
  cases item with
  | error path message => exact h
  | dir names => trivial
  | other names => trivial
  | file names read =>
      obtain ⟨found,content,hstat,hcontent,-⟩ := h
      exact ⟨⟨found,hstat⟩,content,hcontent⟩

theorem mem_of_shows {nodes : Tree} {item : WalkItem} {names : List Str} (h : Shows nodes item)
    (hn : entryNames item = some names) : names ∈ nodes := by
  rw [mem_iff_isSome_getElem?]
  cases item with
  | error path message => cases hn
  | other names => cases hn
  | dir names' =>
      cases hn
      rw [show nodes[names]? = _ from h]
      rfl
  | file names' read =>
      cases hn
      obtain ⟨-,content,-,-,hnode⟩ := h
      rw [hnode]
      rfl

/-- What an item of the walk reports stands for its node. -/
theorem entryFor_reported (hp : PrevKeyed prev) (hw : Walks tree opts walk)
    (hcur : HashesCurrent sha walk prev) {item : WalkItem} (hitem : item ∈ walk) {k : Str}
    {e : ManifestEntry} (hr : reported sha opts ignore prev item = some (k,e)) :
    ∃ names node, entryNames item = some names ∧ k = normalizeRel names ∧ names ≠ [] ∧
      tree.nodes[names]? = some node ∧ EntryFor sha e node := by
  have hne : ∀ {names : List Str}, skipped opts ignore names = false → names ≠ [] := by
    rintro names hs rfl
    simp [skipped] at hs
  have hshow := hw.shows_all item hitem
  cases item with
  | error path message => cases hr
  | other names => cases hr
  | dir names =>
      obtain ⟨hs,rfl,rfl⟩ := reported_dir hr
      exact ⟨names,.dir,rfl,rfl,hne hs,hshow,rfl,rfl⟩
  | file names read =>
      obtain ⟨hs,rfl,hok⟩ := reported_file hr
      obtain ⟨found,content,hstat,hcontent,hnode⟩ := hshow
      refine ⟨names,.file content,rfl,rfl,hne hs,hnode,?_⟩
      obtain ⟨found',hash,hstat',rfl,hhash⟩ := scanOneFile_eq_ok hok
      obtain rfl := Except.ok.inj (hstat.symm.trans hstat')
      refine ⟨rfl,congrArg some ?_⟩
      rcases hhash with ⟨content',hcontent',rfl⟩ | ⟨p,hprev,hkind,hlen,hunix,hnanos,hsha⟩
      · rw [Except.ok.inj (hcontent.symm.trans hcontent')]
      · rw [prevEntry_eq hp] at hprev
        exact hcur names read found content hitem hstat hcontent p hash hprev hkind hlen hunix
          hnanos hsha

/-- The scan of a readable tree describes it. -/
theorem describes_scanWalk (hp : PrevKeyed prev) (hw : Walks tree opts walk)
    (hi : opts.ignoreSet = .ok ignore) (hcur : HashesCurrent sha walk prev) {m : Manifest}
    (hm : m.entries = (scanWalk sha opts ignore prev walk).entries) :
    Describes sha tree.nodes m := by
  have hread : ∀ item ∈ walk, ItemReadable item := fun item hitem =>
    itemReadable_of_shows (hw.shows_all item hitem)
  constructor
  · intro k e he
    rw [hm] at he
    rcases @scanWalk_same_item sha opts ignore prev prev hp hp walk hread k with
      ⟨hnone,-⟩ | ⟨item,hitem,e',-,hr,hget,-⟩
    · rw [he] at hnone
      cases hnone
    · obtain rfl : e = e' := Option.some.inj (he.symm.trans hget)
      obtain ⟨names,node,hnames,rfl,hne,hnode,hfor⟩ := entryFor_reported hp hw hcur hitem hr
      have hmem := mem_of_shows (hw.shows_all item hitem) hnames
      have hrel : e.relPath = normalizeRel names := by
        rcases scanWalk_origin hp he with ⟨it,-,hit⟩ | hprev
        · cases it with
          | error path message => cases hit
          | other ns => cases hit
          | dir ns =>
              obtain ⟨-,-,rfl⟩ := reported_dir hit
              rfl
          | file ns read =>
              obtain ⟨-,hk,hok⟩ := reported_file hit
              obtain ⟨found,hash,-,rfl,-⟩ := scanOneFile_eq_ok hok
              exact hk.symm
        · exact prevAt_relPath hp hprev
      rw [relPath_of_mem hmem hne] at hrel ⊢
      refine ⟨hrel,namesNode_of_mem hmem hne,node,?_,hfor⟩
      rwa [resolve_relString hne (tree.legal names hmem)]
  · intro names node hnode hne
    have hmem : names ∈ tree.nodes :=
      mem_of_getElem? hnode
    obtain ⟨item,hitem,hnames⟩ := hw.complete names hmem
    have hreports := (@reports_iff sha opts ignore prev item (hread item hitem)
      (normalizeRel names)).mpr ⟨names,hnames,hw.unskipped ignore hi names hmem hne,rfl⟩
    obtain ⟨e,he⟩ := Option.isSome_iff_exists.mp
      ((isSome_scanWalk hp walk (normalizeRel names)).mpr ⟨item,hitem,.inl hreports⟩)
    refine ⟨normalizeRel names,e,hm ▸ he,?_⟩
    rw [relPath_of_mem hmem hne,resolve_relString hne (tree.legal names hmem)]

end Scan

/-- An equivalent manifest describes the same tree. -/
theorem describes_of_equivalent {m p : Manifest} (hkeyed : p.Keyed)
    (hdir : ∀ (k : Str) (e : ManifestEntry), p.entries[k]? = some e → e.kind = .dir → e.sha256 = none)
    (h : p.manifestsEquivalent m = true) (hd : Describes sha tree.nodes m) :
    Describes sha tree.nodes p := by
  constructor
  · intro k e he
    obtain ⟨v,hv,hkind,hhash⟩ := Manifest.getElem?_of_manifestsEquivalent h he
    obtain ⟨-,hnames,node,hnode,hfor⟩ := hd.entry k v hv
    refine ⟨hkeyed k e he,hnames,node,hnode,?_⟩
    cases node with
    | dir => exact ⟨hkind.trans hfor.1,hdir k e he (hkind.trans hfor.1)⟩
    | file content => exact ⟨hkind.trans hfor.1,(hhash hfor.1).trans hfor.2⟩
  · intro names node hnode hne
    obtain ⟨k,v,hv,hk⟩ := hd.complete names node hnode hne
    obtain ⟨e,he,-⟩ := (Manifest.manifestsEquivalent_iff.mp h).2 k v hv
    exact ⟨k,e,he,hk⟩

section Pass
variable {s t : Store Text}

omit [StoreText Text] in
/-- A calm write puts the blob in its place. -/
theorem runs_writeBlob {u : Store Text} {content : Bytes} {w : BlobWriteEnv} (hb : job.codec.Bounded)
    (hplain : job.codec.cipher = none → job.codec.writeCompressionEnabled = false →
      ¬ BlobCodec.MagicPrefixed content) (hc : CalmBlob job.codec content w) :
    Runs (fun s => s = u) (writeBlob sha prim job (sha256Hex sha content)
      (blobPath sha (sha256Hex sha content)) w) fun _ t =>
        ∃ blob, t = u.putBlob (blobPath sha (sha256Hex sha content)) blob := by
  have hvalid := validateExpectedBlobHash_sha256Hex sha content
  obtain ⟨a,rest,hattempts,hcontent,hdone,hfits⟩ := hc.first
  obtain ⟨blob,hblob⟩ := @BlobCodec.writeBlob_ok prim job.codec a.nonce a.wishes content hb.admitted hfits
  have hdecode := @BlobCodec.decodeBlob_writeBlob prim job.codec a.nonce a.wishes content blob hb.admitted
    hplain hblob job.codec.cipher fun c hc => ⟨c,hc,rfl⟩
  refine runs_lift_bind hvalid ?_
  refine runs_check_bind hc.parentCreated ?_
  rw [hattempts,List.take_succ_cons]
  refine runs_retry ?_
  refine runs_lift_bind hvalid ?_
  refine runs_lift_bind (orElse_eq_ok.mpr hcontent) ?_
  refine runs_lift_bind (mapError_eq_ok.mpr hblob) ?_
  refine runs_lift_bind (mapError_eq_ok.mpr (bind_eq_ok.mpr ⟨content,hdecode,rfl⟩)) ?_
  refine runs_check_bind (beq_self_eq_true _) ?_
  rw [hdone]
  refine runs_bind (R := fun _ t => ∃ blob, t = u.putBlob (blobPath sha (sha256Hex sha content)) blob)
    (runs_step ?_) fun _ => runs_pure _ fun _ h => h
  rintro _ rfl
  exact ⟨blob,rfl⟩

/-- The blob of every file of the tree can be written under each text of its path. -/
def CalmBlobs (codec : BlobCodec) (tree : SourceTree) (env : BackupEnv) : Prop :=
  ∀ (k : Str) (content : Bytes), tree.nodes[resolve k]? = some (.file content) →
    CalmBlob codec content (env.blobWrites k)

omit [StoreText Text] in
/-- Where every blob can be written, the pass leaves the snapshot as it was. -/
theorem snapshot_writeMissingBlobs {snapshot : Manifest} {written : BlobPass}
    (hb : job.codec.Bounded) (hd : Describes sha tree.nodes snapshot)
    (hcalm : CalmBlobs job.codec tree env)
    (hr : Returns (writeMissingBlobsForSnapshot sha prim job env prev snapshot) s written t) :
    written.snapshot = snapshot := by
  refine returns_foldlM (fun pass _ => pass.snapshot = snapshot) ?_ rfl hr
  intro relPath hrel pass u pass' u' hsame hstep
  obtain ⟨⟨k,e⟩,hke,hfile⟩ := List.mem_filterMap.mp hrel
  rw [mem_toList_iff_getElem?_eq_some] at hke
  obtain ⟨hkey,-,node,hnode,hfor⟩ := hd.entry k e hke
  split at hfile
  · rename_i hkind
    obtain rfl : k = relPath := hkey.symm.trans (Option.some.inj hfile)
    cases node with
    | dir =>
        rw [hfor.1] at hkind
        cases hkind
    | file content =>
        rw [writeMissingBlob,hsame,hke] at hstep
        dsimp only at hstep
        rw [hfor.2] at hstep
        have hbody := returns_read_bind.mp hstep
        split at hbody
        · obtain ⟨rfl,-⟩ := returns_pure.mp hbody
          exact hsame
        · obtain ⟨outcome,v,hw,hp⟩ := returns_bind.mp hbody
          obtain ⟨rfl,-⟩ := returns_pure.mp hp
          have hwrite := @runs_writeBlob Text sha prim job u content _ hb
            (fun _ _ => tree.plain _ content hnode) (hcalm k content hnode)
          obtain ⟨bytes,v',hbytes,-⟩ := hwrite u rfl
          obtain ⟨hres,-⟩ := returns_attempt.mp hw
          obtain rfl : outcome = .ok bytes := hres.symm.trans hbytes.1
          exact hsame
  · cases hfile

end Pass

/-- The last version of the index file, with its manifest. -/
def CurrentVersion (d : SourceDir Text) (id : Str) (m : Manifest) : Prop :=
  ∃ itext index v mtext, d.index = some itext ∧ StoreText.readIndex itext = some index ∧
    index.versions.getLast? = some v ∧ v.id = id ∧ d.manifests[manifestName id]? = some mtext ∧
    StoreText.readManifest mtext = some m

/-- The contents a backup and its restore can come across. -/
def involved (prim : Primitives) (codec : BlobCodec) (tree : SourceTree) (t : Store Text) :
    Set Bytes :=
  {c | (∃ names : List Str, tree.nodes[names]? = some (.file c)) ∨
    ∃ (path : BlobPath) (blob : Bytes), t.blobs[path]? = some blob ∧
      BlobCodec.decodeBlob prim codec.cipher blob = .ok c}

/-- A call that backs up a readable, unchanging tree, sees the manifests of every source and
returns. A file that has the length and time of its previous entry has its content too, and a new
version becomes the last one. -/
structure CleanBackup (sha : Sha256) (prim : Primitives) (job : FolderJob) (env : BackupEnv)
    (tree : SourceTree) (st : Store Text) (r : FolderBackupResult) (t : Store Text) : Prop where
  kind : job.watched.kind = .directory
  keep : 1 ≤ job.keepVersions
  bounded : job.codec.Bounded
  walks : Walks tree job.scan env.source.walk
  calm : CalmBlobs job.codec tree env
  sighted : ∀ sid, env.gc.manifestsSeen sid = true
  hashes : ∀ index prev, loadIndex env.indexAccess job.watched.path
      (st.dir (sourceId sha job.watched.path)) = .ok index →
    latestManifest env.latestAccess (st.dir (sourceId sha job.watched.path)) index = .ok prev →
    HashesCurrent sha env.source.walk prev
  clock : r.changed = true → ∀ index, loadIndex env.indexAccess job.watched.path
      (st.dir (sourceId sha job.watched.path)) = .ok index →
    ClockAhead (st.dir (sourceId sha job.watched.path)) index env
  returned : Returns (backupOneFolder sha prim job env) st r t

/-- The collections of the call see every source, and it encrypts with the reader's key or not at
all. -/
structure CleanCall (reader : Option BlobCipher) (call : StoreCall) : Prop where
  readable : CallReadable reader call
  sighted : call.Sighted

section Stages
variable {st t : Store Text} {r : FolderBackupResult}

theorem CleanBackup.reachable (h : CleanBackup sha prim job env tree st r t)
    (hst : ReachableBy sha prim (CleanCall job.codec.cipher) st) :
    ReachableBy sha prim (CleanCall job.codec.cipher) t :=
  .call ⟨.backup job env,fun c hc => ⟨c,hc,rfl⟩,h.sighted⟩ hst
    (List.mem_append_right _ (List.mem_singleton.mpr h.returned.2.symm))

/-- What was current stays so where nothing was committed. -/
theorem current_of_leftAlone {sid : Str} {access : Access} {index : VersionIndex} {v : VersionInfo}
    {mtext : Text} {m : Manifest}
    (hl : loadIndex access job.watched.path (st.dir sid) = .ok index)
    (hleft : LeftAlone sid index st t) (hlast : index.versions.getLast? = some v)
    (hfile : (st.dir sid).manifests[manifestName v.id]? = some mtext)
    (hread : StoreText.readManifest mtext = some m) :
    VersionIndex.validateVersionId v.id = true ∧ CurrentVersion (t.dir sid) v.id m := by
  have hfile' : (t.dir sid).manifests[manifestName v.id]? = some mtext := by
    rw [hleft.manifests_eq]
    exact hfile
  rcases loadIndex_eq_ok hl with ⟨-,rfl⟩ | ⟨text,htext,hindex,hvalid⟩
  · cases hlast
  · refine ⟨(VersionIndex.validateVersionIndex_eq_ok.mp hvalid).1 v (List.mem_of_getLast? hlast),?_⟩
    rcases hleft.index_eq with heq | ⟨adjusted,hadj,heq⟩
    · exact ⟨text,index,v,mtext,heq.trans htext,hindex,hlast,rfl,hfile',hread⟩
    · rw [← hadj.versions_eq] at hlast
      exact ⟨_,adjusted,v,mtext,heq,StoreText.readIndex_writeIndex _,hlast,rfl,hfile',hread⟩

/-- The version that is current after the call has a manifest that describes the tree. -/
theorem CleanBackup.current {K : Scope} (h : CleanBackup sha prim job env tree st r t)
    (hs : AllBacked sha K st) :
    ∃ id m, CurrentVersion (t.dir (sourceId sha job.watched.path)) id m ∧
      VersionIndex.validateVersionId id = true ∧ Describes sha tree.nodes m := by
  obtain ⟨scanned,hof,hcase⟩ := returns_backupOneFolder h.returned
  have hback := indexBacked_of_loadIndex hs hof.index_loaded
  have hbacked := backed_of_latestManifest hback hof.prev_loaded
  have hkeyed : PrevKeyed scanned.prev := fun p hp => (hbacked p hp).wellFormed.keyed
  have hcur := h.hashes scanned.index scanned.prev hof.index_loaded hof.prev_loaded
  have hdesc : Describes sha tree.nodes scanned.snapshot := by
    obtain ⟨raw,hraw,hentries,-,-⟩ := hof.scan
    obtain ⟨ignore,hi,hent,-⟩ := scanSnapshot_directory h.kind hraw
    exact describes_scanWalk hkeyed h.walks hi hcur (hentries.trans hent)
  have hpass : ∀ {snapshot}, Snapshots sha prim job env st scanned snapshot →
      snapshot = scanned.snapshot := by
    rintro _ ⟨written,_,_,-,hwrite,rfl⟩
    exact snapshot_writeMissingBlobs h.bounded hdesc h.calm hwrite
  rcases hcase with ⟨-,snapshot,hsnap,hsame,hleft⟩ | ⟨hch,-,-,snapshot,pinned,pruned,hsnap,hnow,-,hc⟩
  · obtain rfl : snapshot = scanned.snapshot := hsnap.elim id hpass
    cases hp : scanned.prev with
    | none =>
        rw [hp] at hsame
        cases hsame
    | some p =>
        rw [hp] at hsame
        have hlatest := hof.prev_loaded
        rw [hp] at hlatest
        obtain ⟨-,v,mtext,hlast,hfile,hread⟩ := latestManifest_eq_some hlatest
        have hwell := (hbacked p hp).wellFormed
        have hpdesc := describes_of_equivalent hwell.keyed (fun k e he => (hwell k e he).dir) hsame hdesc
        obtain ⟨hvalid,hcurrent⟩ := current_of_leftAlone hof.index_loaded hleft hlast hfile hread
        exact ⟨v.id,p,hcurrent,hvalid,hpdesc⟩
  · obtain rfl := hpass hsnap
    have hclock := h.clock hch scanned.index hof.index_loaded
    have hid := hback.not_mem_ids
      (versionIdFor_not_mem (st.dir (sourceId sha job.watched.path)).manifests env.stamp)
    have hcurrent := (current_iff hback.tidy hid h.keep hc).mpr (by rw [hnow]; exact hclock.later)
    obtain ⟨v,hv,hvid⟩ := Option.map_eq_some_iff.mp hcurrent.last
    exact ⟨_,scanned.snapshot,⟨_,_,v,_,hc.index_eq,StoreText.readIndex_writeIndex _,hv,
      hvid,hcurrent.file,StoreText.readManifest_writeManifest _⟩,hclock.valid,hdesc⟩

end Stages

section Recorded
variable {sid id : Str} {m : Manifest} {st : Store Text}

/-- The version is listed and has this manifest. -/
structure Records (sid id : Str) (m : Manifest) (st : Store Text) : Prop where
  listed : IndexLists st sid id
  manifest : ∃ text, (st.dir sid).manifests[manifestName id]? = some text ∧
    StoreText.readManifest text = some m

theorem records_of_current (h : CurrentVersion (st.dir sid) id m) : Records sid id m st := by
  obtain ⟨itext,index,v,mtext,hindex,hread,hlast,rfl,hfile,hmanifest⟩ := h
  exact ⟨⟨itext,index,hindex,hread,List.mem_map_of_mem (List.mem_of_getLast? hlast)⟩,mtext,hfile,
    hmanifest⟩

/-- The manifest of a recorded version is backed by blobs. -/
theorem backed_of_records {K : Scope} (hs : AllBacked sha K st) (h : Records sid id m st) :
    Backed sha K st.blobs m := by
  obtain ⟨itext,index,hindex,hread,hid⟩ := h.listed
  obtain ⟨text,hfile,hmanifest⟩ := h.manifest
  obtain ⟨index',hread',hback⟩ := hs sid itext hindex
  obtain rfl := Option.some.inj (hread.symm.trans hread')
  obtain ⟨v,hv,rfl⟩ := List.mem_map.mp hid
  obtain ⟨-,text',m',hfile',hmanifest',hbacked⟩ := hback.backed v hv
  obtain rfl := Option.some.inj (hfile.symm.trans hfile')
  obtain rfl := Option.some.inj (hmanifest.symm.trans hmanifest')
  exact hbacked

/-- Every file of the manifest has a blob that decodes to its hash. -/
def BlobsGood (sha : Sha256) (prim : Primitives) (codec : BlobCodec) (m : Manifest)
    (st : Store Text) : Prop :=
  ∀ (k : Str) (e : ManifestEntry), m.entries[k]? = some e → e.kind = .file →
    ∀ hash, e.sha256 = some hash → GoodBlob sha prim codec st hash

theorem good_of_records {codec : BlobCodec} (hs : AllBacked sha .all st)
    (hread : Readable sha prim codec.cipher st) (h : Records sid id m st)
    (hd : Describes sha tree.nodes m) : BlobsGood sha prim codec m st := by
  intro k e he hkind hash hhash
  obtain ⟨blob,hblob⟩ := Option.isSome_iff_exists.mp (mem_iff_isSome_getElem?.mp
    ((backed_of_records hs h).blob k e he trivial hkind hash hhash))
  obtain ⟨c,hdecode,hpath⟩ := hread _ blob hblob
  obtain ⟨-,-,node,-,hfor⟩ := hd.entry k e he
  cases node with
  | dir =>
      rw [hfor.2] at hhash
      cases hhash
  | file content =>
      obtain rfl := Option.some.inj (hfor.2.symm.trans hhash)
      refine ⟨blob,hblob,bind_eq_ok.mpr ⟨c,hdecode,congrArg Except.ok ?_⟩⟩
      exact (blobPath_injective (isLowerHexSha256_sha256Hex content) (isLowerHexSha256_sha256Hex c)
        hpath).symm

omit [StoreText Text] in
/-- Blobs that decode to the hashes of a tree are the content of the tree. -/
theorem provides_of_good {codec reader : BlobCodec}
    (hgood : BlobsGood sha prim codec m st)
    (hd : Describes sha tree.nodes m)
    (hinj : Set.InjOn (sha256Hex sha) (involved prim codec tree st))
    (hk : SameKey codec.cipher reader.cipher) :
    Provides sha prim reader st.blobs tree.nodes := by
  intro names content hnode
  have hne : names ≠ [] := by
    rintro rfl
    rw [tree.rooted.root] at hnode
    cases hnode
  obtain ⟨k,e,he,hk'⟩ := hd.complete names _ hnode hne
  obtain ⟨-,-,node,hnode',hfor⟩ := hd.entry k e he
  rw [hk',hnode] at hnode'
  obtain rfl := Option.some.inj hnode'
  obtain ⟨blob,hblob,hplain⟩ := hgood k e he hfor.1 _ hfor.2
  obtain ⟨c,hdecode,hhash⟩ := bind_eq_ok.mp hplain
  obtain rfl : c = content :=
    hinj (.inr ⟨_,blob,hblob,hdecode⟩) (.inl ⟨names,hnode⟩) (Except.ok.inj hhash)
  exact ⟨blob,hblob,decodeBlob_of_sameKey hk hdecode⟩

theorem loadManifest_of_records {req : RestoreRequest} {renv : RestoreEnv}
    (h : Records (sourceId sha req.sourcePath) req.versionId m st)
    (hvalid : VersionIndex.validateVersionId req.versionId = true)
    (hd : Describes sha tree.nodes m) (hc : CalmRestore renv) :
    loadManifestForRequest sha req renv st = .ok m := by
  obtain ⟨text,hfile,hread⟩ := h.manifest
  refine then_eq_ok.mpr ⟨require_eq_ok.mpr hvalid,?_⟩
  refine bind_eq_ok.mpr ⟨text,orElse_eq_ok.mpr hfile,?_⟩
  refine then_eq_ok.mpr ⟨require_eq_ok.mpr hc.manifestReadable,?_⟩
  refine bind_eq_ok.mpr ⟨m,orElse_eq_ok.mpr hread,?_⟩
  refine then_eq_ok.mpr ⟨mapError_eq_ok.mpr (Manifest.validateManifest_eq_ok.mpr ?_),rfl⟩
  intro k e he
  obtain ⟨hrel,hnames,node,-,hfor⟩ := hd.entry k e he
  refine ⟨hnames.accepted,hrel,?_⟩
  intro hash hhash
  cases node with
  | dir =>
      rw [hfor.2] at hhash
      cases hhash
  | file content =>
      rw [hfor.2] at hhash
      cases hhash
      exact isLowerHexSha256_sha256Hex content

/-- A restore of the version with the key of the given cipher, in which nothing fails, gives the
tree. -/
def GivesBack (sha : Sha256) (prim : Primitives) (cipher : Option BlobCipher) (tree : SourceTree)
    (path id : Str) (m : Manifest) (st : Store Text) : Prop :=
  ∀ (cfg : Config) (disk : Disk Text) (root : Str) (renv : RestoreEnv) (area : RestoreArea),
    destinationRootForSource cfg path = .ok root → disk.store root = st →
    SameKey cipher cfg.codec.cipher → CalmRestore renv → ReadyArea area →
    ensureRestoreFreeSpace cfg renv.freeSpace (plannedBytes sha st.blobs m) = .ok () →
    ∃ result area', Returns (restoreVersion sha prim cfg disk ⟨path,id,.toDirectory,true⟩ renv) area
      result area' ∧ area'.target.nodes = tree.nodes

theorem givesBack_of_records {codec : BlobCodec} {path : Str}
    (h : Records (sourceId sha path) id m st)
    (hvalid : VersionIndex.validateVersionId id = true) (hd : Describes sha tree.nodes m)
    (hgood : BlobsGood sha prim codec m st)
    (hinj : Set.InjOn (sha256Hex sha) (involved prim codec tree st)) :
    GivesBack sha prim codec.cipher tree path id m st := by
  rintro cfg disk root renv area hroot rfl hk hc harea hspace
  have hload : loadManifestForRequest sha ⟨path,id,.toDirectory,true⟩ renv (disk.store root) = .ok m :=
    loadManifest_of_records h hvalid hd hc
  have hp := provides_of_good hgood hd hinj hk
  obtain ⟨result,area',hret,hnodes⟩ :=
    runs_restoreVersion hc tree.rooted hroot hload rfl rfl hd hp hspace area harea
  exact ⟨result,area',hret,hnodes⟩

end Recorded

/-- A readable, unchanging tree that was backed up is what a restore of the current version
into a directory gives back, from a store whose encrypted blobs all have the current key. -/
theorem backup_then_restore {st t : Store Text} {r : FolderBackupResult}
    (hreach : ReachableBy sha prim (CleanCall job.codec.cipher) st)
    (h : CleanBackup sha prim job env tree st r t)
    (hinj : Set.InjOn (sha256Hex sha) (involved prim job.codec tree t)) :
    ∃ id m, CurrentVersion (t.dir (sourceId sha job.watched.path)) id m ∧
      GivesBack sha prim job.codec.cipher tree job.watched.path id m t := by
  have hafter := h.reachable hreach
  obtain ⟨id,m,hcur,hvalid,hd⟩ := h.current (allBacked_of_reachable hreach)
  have hrec := records_of_current hcur
  refine ⟨id,m,hcur,givesBack_of_records hrec hvalid hd ?_ hinj⟩
  exact good_of_records (allBacked_of_sighted (fun _ hc => hc.sighted) hafter)
    (readable_of_reachable (fun _ hc => hc.readable) hafter) hrec hd

/-- A directory with the file a in it. -/
def notesNodes : Tree := Std.ExtTreeMap.insert (Std.ExtTreeMap.insert ∅ [] .dir)
  ["a".toList] (.file (ascii "hi"))

theorem notesNodes_eq {names : List Str} {node : Node} (h : notesNodes[names]? = some node) :
    (names = [] ∧ node = .dir) ∨ (names = ["a".toList] ∧ node = .file (ascii "hi")) := by
  rw [notesNodes,getElem?_insert] at h
  split at h
  · rename_i heq
    exact .inr ⟨(Std.LawfulEqCmp.compare_eq_iff_eq.mp heq).symm,(Option.some.inj h).symm⟩
  · rw [getElem?_insert] at h
    split at h
    · rename_i heq
      exact .inl ⟨(Std.LawfulEqCmp.compare_eq_iff_eq.mp heq).symm,(Option.some.inj h).symm⟩
    · simp at h

theorem mem_notesNodes {names : List Str} (h : names ∈ notesNodes) :
    names = [] ∨ names = ["a".toList] := by
  obtain ⟨node,hnode⟩ := exists_of_mem h
  exact (notesNodes_eq hnode).imp And.left And.left

def notesTree : SourceTree where
  nodes := notesNodes
  rooted := by
    refine ⟨by decide +kernel,?_⟩
    intro names node h hne
    rcases notesNodes_eq h with ⟨rfl,-⟩ | ⟨rfl,-⟩
    · exact absurd rfl hne
    · decide +kernel
  legal := by
    intro names h
    rcases mem_notesNodes h with rfl | rfl
    · exact nofun
    · decide
  accepted := by
    intro names h hne
    rcases mem_notesNodes h with rfl | rfl
    · exact absurd rfl hne
    · decide
  plain := by
    intro names content h
    rcases notesNodes_eq h with ⟨-,⟨⟩⟩ | ⟨-,heq⟩
    cases heq
    unfold BlobCodec.MagicPrefixed
    decide

def notesConfig (codec : BlobCodec) : Config where
  maxBackupsPerFile := 1
  minFreeSpaceBytes := none
  freeSpaceSafetyBufferBytes := 0
  replicationEnabled := false
  replicationMirrorManifests := false
  replicationMaxManifestDeletesPerCycle := 0
  safetyThreshold := 0
  scan := notesJob.scan
  codec := codec
  watched := [notesJob.watched]
  destinations := [⟨"main".toList,"/mnt/main".toList,none,[]⟩]

/-- A restore in which nothing fails. -/
def calmRestore : RestoreEnv where
  seen _ := true
  blobSeen _ := true
  stagedSeen _ := true
  lease := true
  manifestReadable := true
  parentCreated := true
  freeSpace := some 0xFFFFFFFFFFFFFFFF
  codecLoaded := true
  targetWalkable := true
  dirCreatable _ := true
  tempCreatable _ := true
  blobReadable _ := true
  persistable _ := true
  mtimeSettable _ := true
  stageRemovable := true
  movedAside := true
  movedIn := true
  rolledBack := true
  previousRemovable := true

def emptyArea : RestoreArea := ⟨.absent,.absent,.absent⟩

def restoreNotes (codec : BlobCodec) (st : Store PlainText) (id : Str) : Op RestoreResult :=
  restoreVersion notesSha .transparent (notesConfig codec)
    (Disk.setStore "/mnt/main".toList st ∅) ⟨"/home/notes".toList,id,.toDirectory,true⟩ calmRestore

theorem walks_notesTree (mtime : Nat) : Walks notesTree notesJob.scan (oneFile "hi" mtime).walk := by
  refine ⟨?_,?_,?_⟩
  · intro item hitem
    rcases List.mem_cons.mp hitem with rfl | hitem
    · exact (by decide +kernel : notesNodes[([] : List Str)]? = some .dir)
    · obtain rfl := List.mem_singleton.mp hitem
      exact ⟨_,_,rfl,rfl,(by decide +kernel : notesNodes[["a".toList]]? = _)⟩
  · intro names h
    rcases mem_notesNodes h with rfl | rfl
    · exact ⟨_,List.mem_cons_self,rfl⟩
    · exact ⟨_,List.mem_cons_of_mem _ (List.mem_singleton_self _),rfl⟩
  · rintro ignore ⟨⟩ names h hne
    rcases mem_notesNodes h with rfl | rfl
    · exact absurd rfl hne
    · rfl

theorem calmBlobs_notesTree (mtime : Nat) (scannedAt : Int) (stamp : VersionStamp) :
    CalmBlobs notesJob.codec notesTree (calmEnv "hi" mtime scannedAt stamp) := by
  intro k content h
  rcases notesNodes_eq h with ⟨-,⟨⟩⟩ | ⟨-,heq⟩
  cases heq
  exact ⟨rfl,_,_,rfl,rfl,rfl,nofun⟩

theorem GivesBack.notes {id : Str} {m : Manifest} {st : Store PlainText}
    (h : GivesBack notesSha .transparent notesJob.codec.cipher notesTree
      notesJob.watched.path id m st) : ∃ result area',
    Returns (restoreNotes notesJob.codec st id) emptyArea result area' ∧
      area'.target.nodes = notesTree.nodes := by
  refine h (notesConfig notesJob.codec) _ "/mnt/main".toList calmRestore emptyArea
    (by decide +kernel) (Disk.store_setStore_self _ _ _) (fun c hc => ⟨c,hc,rfl⟩)
    ⟨⟨fun _ => rfl,fun _ => rfl,fun _ => rfl,fun _ => rfl,fun _ => rfl⟩,fun _ => rfl,fun _ => rfl,
      rfl,rfl,rfl,rfl,rfl,rfl⟩
    ⟨.inl (by simp [emptyArea,RestoreTree.absent]),rfl⟩ ?_
  have hroom : SafetyBaseline.saturatingAdd (plannedBytes notesSha st.blobs m) 0 ≤
      0xFFFFFFFFFFFFFFFF := Nat.min_le_right _ _
  exact bind_eq_ok.mpr ⟨_,rfl,then_eq_ok.mpr ⟨require_eq_ok.mpr (decide_eq_true hroom),rfl⟩⟩

/-- The only content of a store with this one blob is that of the file. -/
theorem injOn_of_blobs {st : Store PlainText} (hblobs : st.blobs = Std.ExtTreeMap.insert ∅
      (blobPath notesSha (sha256Hex notesSha (ascii "hi"))) (ascii "hi")) :
    Set.InjOn (sha256Hex notesSha) (involved .transparent notesJob.codec notesTree st) := by
  have hall : ∀ c ∈ involved .transparent notesJob.codec notesTree st, c = ascii "hi" := by
    rintro c (⟨names,h⟩ | ⟨path,blob,h,hdecode⟩)
    · rcases notesNodes_eq h with ⟨-,⟨⟩⟩ | ⟨-,heq⟩
      cases heq
      rfl
    · rw [hblobs,getElem?_insert] at h
      split at h
      · obtain rfl := Option.some.inj h
        exact (Except.ok.inj hdecode).symm
      · simp at h
  intro a ha b hb _
  rw [hall a ha,hall b hb]

/-- A call on a file that the clock stands still for. -/
def sameReading (text : String) (mtime : Nat) : BackupEnv := calmEnv text mtime 1767323045 morning

/-- The directory is backed up, the file changes and the directory is backed up again. -/
def onceStore : Store PlainText :=
  (backupOneFolder notesSha .transparent notesJob (sameReading "ho" 7) .empty).store

def twiceStore : Store PlainText :=
  (backupOneFolder notesSha .transparent notesJob (sameReading "hi" 8) onceStore).store

def secondId : Str := morning.text++"-1".toList

theorem reachable_onceStore :
    ReachableBy notesSha .transparent (CleanCall notesJob.codec.cipher) onceStore :=
  .call ⟨.backup notesJob (sameReading "ho" 7),fun c hc => ⟨c,hc,rfl⟩,fun _ => rfl⟩ .start
    (List.mem_append_right _ (List.mem_singleton_self _))

theorem loadIndex_onceStore {index : VersionIndex}
    (h : loadIndex .readable notesJob.watched.path
      (onceStore.dir notesId) = .ok index) : index = notesIndex := by
  have hload : loadIndex .readable notesJob.watched.path
      (onceStore.dir notesId) = .ok notesIndex := by decide +kernel
  exact Except.ok.inj (h.symm.trans hload)

theorem cleanBackup_twice : CleanBackup notesSha .transparent notesJob (sameReading "hi" 8) notesTree
    onceStore ⟨true,some secondId,1,2,none⟩ twiceStore where
  kind := rfl
  keep := by decide
  bounded := ⟨(by intro c hc; cases hc),by decide⟩
  walks := walks_notesTree 8
  calm := calmBlobs_notesTree 8 _ _
  sighted _ := rfl
  hashes index prev hi hp := by
    intro names read found content hmem hstat _ p hash hat _ _ htime
    have hold : ∀ e ∈ prevAt prev "a".toList, e.mtimeUnix = 7 := by
      obtain rfl := loadIndex_onceStore hi
      have hall : (latestManifest .readable (onceStore.dir notesId)
          notesIndex).toOption.all fun prev => (prevAt prev "a".toList).all (·.mtimeUnix = 7) := by
        decide +kernel
      have hload : latestManifest .readable (onceStore.dir notesId)
        notesIndex = .ok prev := hp
      rw [hload] at hall
      intro e he
      rw [Except.toOption,Option.all_some,he,Option.all_some] at hall
      exact of_decide_eq_true hall
    rcases List.mem_cons.mp hmem with hmem | hmem
    · cases hmem
    · cases List.mem_singleton.mp hmem
      cases hstat
      rw [hold p hat] at htime
      cases htime
  clock _ index hi := by
    obtain rfl := loadIndex_onceStore hi
    refine ⟨by decide +kernel,?_⟩
    intro w hw
    obtain rfl := List.mem_singleton.mp hw
    decide +kernel
  returned := ⟨by decide +kernel,rfl⟩

/-- A second backup at the reading of the first one is restored. -/
theorem backup_then_restore_same_reading : ∃ result area',
    Returns (restoreNotes notesJob.codec twiceStore secondId) emptyArea result area' ∧
      area'.target.nodes = notesTree.nodes := by
  obtain ⟨id,m,⟨itext,index,v,mtext,hindex,hread,hlast,hid,hfile,hmanifest⟩,hrestore⟩ :=
    backup_then_restore reachable_onceStore cleanBackup_twice
      (injOn_of_blobs (by decide +kernel))
  have hcurrent : itext = .index ⟨1,"/home/notes".toList,[⟨secondId,1767323045⟩],none,none,none⟩ :=
    Option.some.inj (hindex.symm.trans (by decide +kernel))
  subst hcurrent
  obtain rfl := Option.some.inj hread
  obtain rfl := Option.some.inj hlast
  subst hid
  exact hrestore.notes

def sealedJob : FolderJob := {notesJob with codec := ⟨some ⟨List.replicate 32 7,64⟩,false,1,3⟩}

def sealedStore : Store PlainText :=
  (backupOneFolder notesSha .transparent sealedJob firstEnv .empty).store

/-- The same file, scanned a minute later. -/
def minuteLater : BackupEnv :=
  calmEnv "hi" 7 1767323105 ⟨"20260102-030505-000000000".toList,by decide⟩

def unsealedStore : Store PlainText :=
  (backupOneFolder notesSha .transparent notesJob minuteLater sealedStore).store

def thriceStore : Store PlainText :=
  (backupOneFolder notesSha .transparent notesJob (sameReading "ho" 9) twiceStore).store

/-- Encryption is switched off after a first backup: the second call finds nothing new, and the
version that stays current cannot be restored. And with one version kept, the third call at one
reading of the clock takes the identifier of the version that the second has pruned, sorts before
the second's and is pruned by itself, so that the content of the second call is given back. -/
theorem sealed_or_third_reading_lost :
    (Returns (backupOneFolder notesSha .transparent sealedJob firstEnv) .empty
        ⟨true,some morning.text,1,51,none⟩ sealedStore ∧
      Returns (backupOneFolder notesSha .transparent notesJob minuteLater) sealedStore
        ⟨false,none,0,0,none⟩ unsealedStore ∧
      (unsealedStore.dir notesId).index = some (.index notesIndex) ∧
      (restoreNotes notesJob.codec unsealedStore morning.text emptyArea).result =
        .error (.decodeBlob .encryptedWithoutKey)) ∧
    Returns (backupOneFolder notesSha .transparent notesJob (sameReading "ho" 7)) .empty
      ⟨true,some morning.text,1,2,none⟩ onceStore ∧
    Returns (backupOneFolder notesSha .transparent notesJob (sameReading "hi" 8)) onceStore
      ⟨true,some secondId,1,2,none⟩ twiceStore ∧
    Returns (backupOneFolder notesSha .transparent notesJob (sameReading "ho" 9)) twiceStore
      ⟨true,some morning.text,1,2,none⟩ thriceStore ∧
    (thriceStore.dir notesId).index =
      some (.index ⟨1,"/home/notes".toList,[⟨secondId,1767323045⟩],none,none,none⟩) ∧
    (restoreNotes notesJob.codec thriceStore secondId emptyArea).store.target.nodes[
      ["a".toList]]? = some (.file (ascii "hi")) :=
  ⟨⟨⟨by decide +kernel,rfl⟩,⟨by decide +kernel,rfl⟩,by decide +kernel,by decide +kernel⟩,
    ⟨by decide +kernel,rfl⟩,⟨by decide +kernel,rfl⟩,⟨by decide +kernel,rfl⟩,by decide +kernel,
    by decide +kernel⟩

end BackupRestore
end BackupSync
