import BackupSync.KeptVersions
import BackupSync.VersionOrder

/-!
# Sources that have nothing new

A source is up to date in a store if a scan of it that is compared with the
latest manifest finds no difference. A backup over a readable source leaves it up
to date if its blobs can be written and its version sorts last. From then on
backups of the unchanged source add no manifest, however they end, and do not
touch the other sources of the store.

A pair of destinations leaves the source up to date on the replica if the store
that is copied has nothing of this source.
-/
namespace BackupSync
open Checks Interruptible ContentHash ScanSnapshot SafetyBaseline BackupFolder StoreInvariant
  BackupOutcome VersionOrder ReplicaContents SafetyScans

namespace UnchangedSources

variable {Text : Type} [StoreText Text] {sha : Sha256} {prim : Primitives} {job : FolderJob}
  {env : BackupEnv} {scanned : Scanned} {source : SourceContents} {w w' : WatchedPath}
  {st s t : Store Text}

section Scan
variable {opts : ScanOptions} {prev prev' : Option Manifest} {now now' : Int} {m m' : Manifest}

/-- Only the ignore set can make a scan fail. -/
theorem exists_scanSnapshot (h : scanSnapshot sha opts w source prev now = .ok m) :
    ∃ m', scanSnapshot sha opts w source prev' now' = .ok m' := by
  obtain ⟨ignore,hignore,-⟩ := bind_eq_ok.mp h
  exact ⟨_,bind_eq_ok.mpr ⟨ignore,hignore,rfl⟩⟩

theorem scanSnapshot_entries (h : scanSnapshot sha opts w source prev now = .ok m)
    (h' : scanSnapshot sha opts w source prev now' = .ok m') : m'.entries = m.entries := by
  obtain ⟨ignore,hignore,h⟩ := bind_eq_ok.mp h
  obtain ⟨ignore',hignore',h'⟩ := bind_eq_ok.mp h'
  obtain rfl := Except.ok.inj (hignore.symm.trans hignore')
  cases h
  cases h'
  rfl

theorem manifestsEquivalent_congr {p : Manifest} (h : m'.entries = m.entries) :
    p.manifestsEquivalent m' = p.manifestsEquivalent m := by
  unfold Manifest.manifestsEquivalent
  rw [h]

/-- A scan that is compared with the latest manifest finds nothing new. -/
def UpToDate (sha : Sha256) (opts : ScanOptions) (w : WatchedPath) (source : SourceContents)
    (d : SourceDir Text) : Prop :=
  ∃ text index m raw now, d.index = some text ∧ StoreText.readIndex text = some index ∧
    latestManifest .readable d index = .ok (some m) ∧
    scanSnapshot sha opts w source (some m) now = .ok raw ∧ m.manifestsEquivalent raw = true

/-- Of a watched path a scan uses only the path and the kind. -/
theorem UpToDate.watched {d : SourceDir Text} (hpath : w'.path = w.path) (hkind : w'.kind = w.kind)
    (h : UpToDate sha opts w source d) : UpToDate sha opts w' source d := by
  obtain ⟨text,index,m,raw,now,htext,hread,hlatest,hscan,hsame⟩ := h
  refine ⟨text,index,m,raw,now,htext,hread,hlatest,?_,hsame⟩
  unfold scanSnapshot
  rw [hpath,hkind]
  exact hscan

theorem latestManifest_congr {d d' : SourceDir Text} {index index' : VersionIndex} {access : Access}
    (hd : d'.manifests = d.manifests) (hv : index'.versions = index.versions) :
    latestManifest access d' index' = latestManifest access d index := by
  unfold latestManifest
  rw [hd,hv]

/-- What is up to date stays so with the same listed versions and manifest files. -/
theorem UpToDate.of_dir {d d' : SourceDir Text} (h : UpToDate sha opts w source d)
    (hi : d'.index = d.index) (hm : d'.manifests = d.manifests) :
    UpToDate sha opts w source d' := by
  obtain ⟨text,index,m,raw,now,htext,hread,hlatest,hrest⟩ := h
  exact ⟨text,index,m,raw,now,hi.trans htext,hread,(latestManifest_congr hm rfl).trans hlatest,hrest⟩

end Scan

section Quiet
variable {sid : Str} {index adjusted : VersionIndex}

/-- Nothing was added to a source, and no other one was touched. -/
structure Quiet (sid : Str) (index : VersionIndex) (st t : Store Text) : Prop where
  left : LeftAlone sid index st t
  others : ∀ sid', sid' ≠ sid → t.dir sid' = st.dir sid'

theorem quiet_of_sameDirs (h : SameDirs st t) : Quiet sid index st t :=
  ⟨⟨by rw [h sid],.inl (by rw [h sid])⟩,fun sid' _ => h sid'⟩

theorem Quiet.putReport (h : Quiet sid index st s) (text : Text) :
    Quiet sid index st (s.putReport sid text) := by
  refine ⟨⟨?_,?_⟩,?_⟩
  · rw [Store.putReport,Store.dir_setDir_self]
    exact h.left.manifests_eq
  · rw [Store.putReport,Store.dir_setDir_self]
    exact h.left.index_eq
  · intro sid' hne
    rw [Store.putReport,Store.dir_setDir_of_ne hne]
    exact h.others sid' hne

theorem Quiet.putIndex (h : Quiet sid index st s) (hadj : Adjusts index adjusted) :
    Quiet sid index st (s.putIndex sid (StoreText.writeIndex adjusted)) := by
  refine ⟨⟨?_,.inr ⟨adjusted,hadj,?_⟩⟩,?_⟩
  · rw [Store.putIndex,Store.dir_setDir_self]
    exact h.left.manifests_eq
  · rw [Store.putIndex,Store.dir_setDir_self]
  · intro sid' hne
    rw [Store.putIndex,Store.dir_setDir_of_ne hne]
    exact h.others sid' hne

theorem triple_quiet_finishScan (pass : BlobPass) :
    Triple (SameDirs st) (finishScanWithoutNewVersion sha job env scanned pass)
      (fun r t => r.changed = false ∧ Quiet (sourceId sha job.watched.path) scanned.index st t)
      (Quiet (sourceId sha job.watched.path) scanned.index st) := by
  refine triple_read_bind fun u _ => ?_
  have hadj := adjusts_pinBaseline job env scanned pass
    (u.dir (sourceId sha job.watched.path)).manifests
  refine triple_bind (R := fun _ => Quiet (sourceId sha job.watched.path) scanned.index st) ?_
    fun _ => ?_
  · unfold writeIndexIf
    split
    · refine triple_publish ?_ fun _ h => quiet_of_sameDirs h.2
      intro v h
      have hnext : Quiet (sourceId sha job.watched.path) scanned.index st _ :=
        (quiet_of_sameDirs h.2).putIndex hadj
      exact ⟨hnext,hnext⟩
    · exact triple_pure () fun _ h => quiet_of_sameDirs h.2
  · refine triple_bind (R := fun _ => Quiet (sourceId sha job.watched.path) scanned.index st)
      (triple_publish ?_ fun _ h => h) fun _ => triple_pure _ fun _ h => ⟨rfl,h⟩
    intro v h
    exact ⟨h.putReport _,h.putReport _⟩

/-- The safety fields of an index may change. -/
theorem UpToDate.quiet {opts : ScanOptions} (h : UpToDate sha opts w source (st.dir sid))
    (hindex : Stored st sid index) (hq : Quiet sid index st t) :
    UpToDate sha opts w source (t.dir sid) := by
  obtain ⟨text,index',m,raw,now,htext,hread,hlatest,hrest⟩ := h
  obtain ⟨text',htext',hread'⟩ := hindex
  obtain rfl := Option.some.inj (htext.symm.trans htext')
  obtain rfl := Option.some.inj (hread.symm.trans hread')
  rcases hq.left.index_eq with hi | ⟨adjusted,hadj,hi⟩
  · exact ⟨text,_,m,raw,now,hi.trans htext,hread,
      (latestManifest_congr hq.left.manifests_eq rfl).trans hlatest,hrest⟩
  · exact ⟨_,adjusted,m,raw,now,hi,StoreText.readIndex_writeIndex adjusted,
      (latestManifest_congr hq.left.manifests_eq hadj.versions_eq).trans hlatest,hrest⟩

end Quiet

section Again

/-- What a scan of an up to date source has loaded and found. -/
theorem unchanged_of_upToDate (hsees : SeesLatest env)
    (h : UpToDate sha job.scan job.watched env.source (st.dir (sourceId sha job.watched.path)))
    (hof : ScanOf sha job env st scanned) :
    Stored st (sourceId sha job.watched.path) scanned.index ∧
      unchanged scanned.prev scanned.snapshot = true := by
  obtain ⟨text,index,m,raw,now,htext,hread,hlatest,hscan,hsame⟩ := h
  obtain ⟨raw',hscan',hentries,-⟩ := hof.scan
  obtain ⟨hloaded,hprev⟩ := loaded_of_scanOf hof hsees htext hread hlatest
  refine ⟨⟨text,htext,hloaded ▸ hread⟩,?_⟩
  rw [hprev] at hscan' ⊢
  rw [unchanged,manifestsEquivalent_congr (hentries.trans (scanSnapshot_entries hscan hscan'))]
  exact hsame

/-- The source is up to date with the manifest files it had. -/
structure Still (sha : Sha256) (job : FolderJob) (source : SourceContents) (st t : Store Text) :
    Prop where
  upToDate : UpToDate sha job.scan job.watched source (t.dir (sourceId sha job.watched.path))
  manifests_eq : (t.dir (sourceId sha job.watched.path)).manifests =
    (st.dir (sourceId sha job.watched.path)).manifests
  others : ∀ sid', sid' ≠ sourceId sha job.watched.path → t.dir sid' = st.dir sid'

/-- A backup of an up to date source that sees its latest manifest adds nothing, at any moment and
however it ends. -/
theorem triple_again (hsees : SeesLatest env)
    (h : UpToDate sha job.scan job.watched env.source (st.dir (sourceId sha job.watched.path))) :
    Triple (fun u => u = st) (backupOneFolder sha prim job env)
      (fun r t => r.changed = false ∧ Still sha job env.source st t)
      (Still sha job env.source st) := by
  have hstart : SameDirs st st := fun _ => rfl
  have hstay : ∀ u, SameDirs st u → Still sha job env.source st u := by
    intro u hu
    have hdir := hu (sourceId sha job.watched.path)
    exact ⟨h.of_dir (by rw [hdir]) (by rw [hdir]),by rw [hdir],fun sid' _ => hu sid'⟩
  have hscan := Spec.remember (m := scanSource sha job env) keeps_sameDirs_scanSource hstart
  refine triple_bind (triple_conseq hscan (fun _ hu => hu) (fun _ _ hu => hu) hstay) fun scanned => ?_
  refine triple_forall fun u hu => ?_
  obtain ⟨hindex,hsame⟩ := unchanged_of_upToDate hsees h (returns_scanSource hu.1).1
  have hquiet : ∀ v, Quiet (sourceId sha job.watched.path) scanned.index st v →
      Still sha job env.source st v :=
    fun v hv => ⟨h.quiet hindex hv,hv.left.manifests_eq,hv.others⟩
  rw [if_pos hsame]
  refine triple_conseq (triple_quiet_finishScan _) ?_ (fun r v hv => ⟨hv.1,hquiet v hv.2⟩) hquiet
  intro v hv
  rw [hv]
  exact hu.2

end Again

section First
variable {r : FolderBackupResult}

/-- The version of a call would sort last, and each blob it lacks can be written. -/
structure Steady (sha : Sha256) (prim : Primitives) (job : FolderJob) (env : BackupEnv)
    (st : Store Text) : Prop where
  later : ∀ index, loadIndex env.indexAccess job.watched.path
      (st.dir (sourceId sha job.watched.path)) = .ok index →
    SortsLast index ⟨versionIdFor (st.dir (sourceId sha job.watched.path)).manifests env.stamp,
      env.scannedAt⟩
  writes : ∀ scanned, ScanOf sha job env st scanned → ∀ (k : Str) (e : ManifestEntry) (hash : Str),
    scanned.snapshot.entries[k]? = some e → e.kind = .file → e.sha256 = some hash →
    blobPath sha hash ∈ st.blobs ∨ ∀ u : Store Text, ∃ bytes,
      (writeBlob sha prim job hash (blobPath sha hash) (env.blobWrites k) u).result = .ok bytes

omit [StoreText Text] in
/-- Where every missing blob can be written, the pass leaves the snapshot as it was. -/
theorem snapshot_of_writes {prev : Option Manifest} {snapshot : Manifest} {written : BlobPass}
    {K : Scope} (hwf : WellFormed K snapshot)
    (hwrites : ∀ (k : Str) (e : ManifestEntry) (hash : Str), snapshot.entries[k]? = some e →
      e.kind = .file → e.sha256 = some hash → blobPath sha hash ∈ s.blobs ∨
        ∀ u : Store Text, ∃ bytes,
          (writeBlob sha prim job hash (blobPath sha hash) (env.blobWrites k) u).result = .ok bytes)
    (hr : Returns (writeMissingBlobsForSnapshot sha prim job env prev snapshot) s written t) :
    written.snapshot = snapshot := by
  have hgrown : ∀ (hash relPath : Str), Keeps (fun u : Store Text => ∀ p ∈ s.blobs, p ∈ u.blobs)
      (writeBlob sha prim job hash (blobPath sha hash) (env.blobWrites relPath)) := by
    intro hash relPath
    refine triple_post (triple_writeBlob prim ?_ job hash _ _) (fun _ _ h => h.1)
    exact fun u path blob h p hp => mem_putBlob blob (h p hp)
  refine (returns_foldlM (fun pass u => pass.snapshot = snapshot ∧ ∀ p ∈ s.blobs, p ∈ u.blobs) ?_
    ⟨rfl,fun _ hp => hp⟩ hr).1
  intro relPath hrel pass u pass' u' ⟨hsame,hsub⟩ hstep
  obtain ⟨⟨k,e⟩,hke,hfile⟩ := List.mem_filterMap.mp hrel
  rw [mem_toList_iff_getElem?_eq_some] at hke
  have hok := hwf k e hke
  split at hfile
  · rename_i hkind
    obtain rfl : k = relPath := hok.relPath_eq.symm.trans (Option.some.inj hfile)
    obtain ⟨hash,hhash,-⟩ := hok.file hkind
    rw [writeMissingBlob,hsame,hke] at hstep
    dsimp only at hstep
    rw [hhash] at hstep
    have hbody := returns_read_bind.mp hstep
    split at hbody
    · obtain ⟨rfl,rfl⟩ := returns_pure.mp hbody
      exact ⟨hsame,hsub⟩
    · rename_i hmissing
      obtain ⟨outcome,v,hw,hp⟩ := returns_bind.mp hbody
      obtain ⟨rfl,rfl⟩ := returns_pure.mp hp
      obtain ⟨hres,rfl⟩ := returns_attempt.mp hw
      obtain ⟨bytes,hbytes⟩ := (hwrites k e hash hke hkind hhash).resolve_left
        (fun hin => hmissing (hsub _ hin)) u
      obtain rfl : outcome = .ok bytes := hres.symm.trans hbytes
      exact ⟨hsame,(hgrown hash k).store hsub⟩
  · cases hfile

/-- A backup that returns over a readable source leaves it up to date. -/
theorem upToDate_of_returns (hs : AllBacked sha .blind st)
    (hread : SourceReadable job.watched env.source) (hkeep : 1 ≤ job.keepVersions)
    (hsteady : Steady sha prim job env st)
    (hr : Returns (backupOneFolder sha prim job env) st r t) :
    UpToDate sha job.scan job.watched env.source (t.dir (sourceId sha job.watched.path)) := by
  obtain ⟨scanned,hof,hcase⟩ := returns_backupOneFolder hr
  have hback := indexBacked_of_loadIndex hs hof.index_loaded
  have hbacked := backed_of_latestManifest hback hof.prev_loaded
  have hkeyed : PrevKeyed scanned.prev := fun p hp => (hbacked p hp).wellFormed.keyed
  obtain ⟨raw,hraw,hentries,-⟩ := hof.scan
  have hwf : WellFormed .blind scanned.snapshot := by
    intro k e he
    rw [hentries] at he
    exact wellFormed_scan (fun p hp => (hbacked p hp).wellFormed) (fun _ _ => trivial) hraw k e he
  have hpass : ∀ {snapshot}, Snapshots sha prim job env st scanned snapshot →
      snapshot = scanned.snapshot := by
    rintro _ ⟨written,u,_,hscan,hwrite,rfl⟩
    obtain ⟨-,rfl⟩ := returns_scanSource hscan
    apply snapshot_of_writes hwf _ hwrite
    exact hsteady.writes scanned hof
  rcases hcase with ⟨-,snapshot,hsnap,hsame,hleft⟩ | ⟨-,-,-,snapshot,pinned,pruned,hsnap,hnow,-,hc⟩
  · obtain rfl : snapshot = scanned.snapshot := hsnap.elim id hpass
    cases hp : scanned.prev with
    | none =>
        rw [hp] at hsame
        cases hsame
    | some p =>
        rw [hp] at hsame hraw
        have hlatest := hof.prev_loaded
        rw [hp] at hlatest
        rw [(latestManifest_eq_some hlatest).1] at hlatest
        have hequiv : p.manifestsEquivalent raw = true :=
          (manifestsEquivalent_congr hentries).symm.trans hsame
        have hm := hleft.manifests_eq
        rcases loadIndex_eq_ok hof.index_loaded with ⟨-,hfresh⟩ | ⟨text,htext,hindex,-⟩
        · rw [hfresh] at hlatest
          cases hlatest
        · rcases hleft.index_eq with heq | ⟨adjusted,hadj,heq⟩
          · exact ⟨text,_,p,raw,_,heq.trans htext,hindex,
              (latestManifest_congr hm rfl).trans hlatest,hraw,hequiv⟩
          · exact ⟨_,adjusted,p,raw,_,heq,StoreText.readIndex_writeIndex adjusted,
              (latestManifest_congr hm hadj.versions_eq).trans hlatest,hraw,hequiv⟩
  · obtain rfl := hpass hsnap
    have hnew := versionIdFor_not_mem (st.dir (sourceId sha job.watched.path)).manifests env.stamp
    have hsorts := hsteady.later scanned.index hof.index_loaded
    rw [← hnow] at hsorts
    have hcur := (current_iff hback.tidy (hback.not_mem_ids hnew) hkeep hc).mpr hsorts
    obtain ⟨again,hagain⟩ : ∃ again, scanSnapshot sha job.scan job.watched env.source
        (some scanned.snapshot) 0 = .ok again := exists_scanSnapshot hraw
    have hsame := scanSnapshot_again hread hkeyed hraw hentries hagain
    exact ⟨_,_,scanned.snapshot,again,0,hc.index_eq,StoreText.readIndex_writeIndex _,hcur.latest,hagain,
      Manifest.manifestsEquivalent_of_entries (hentries.trans hsame.symm)⟩

end First

section Pair
variable {codec : BlobCodec} {src : Store Text} {sid : Str}

/-- A store with neither an index nor a manifest of a source. -/
structure Lacks (src : Store Text) (sid : Str) : Prop where
  index : (src.dir sid).index = none
  manifests : (src.dir sid).manifests = ∅

/-- The index and the manifest files of a source are the given ones. -/
def SameHistory (sid : Str) (d : SourceDir Text) (t : Store Text) : Prop :=
  (t.dir sid).index = d.index ∧ (t.dir sid).manifests = d.manifests

omit [StoreText Text] in
theorem sameHistory_setDir {d d' : SourceDir Text} {sid' : Str} (h : SameHistory sid d s)
    (hd : sid' = sid → d'.index = (s.dir sid).index ∧ d'.manifests = (s.dir sid).manifests) :
    SameHistory sid d (s.setDir sid' d') := by
  by_cases he : sid' = sid
  · subst he
    obtain ⟨hi,hm⟩ := hd rfl
    unfold SameHistory
    rw [Store.dir_setDir_self]
    exact ⟨hi.trans h.1,hm.trans h.2⟩
  · unfold SameHistory
    rw [Store.dir_setDir_of_ne (Ne.symm he)]
    exact h

/-- A pair does not touch the history of a source that the copied store lacks. -/
theorem undisturbed_sameHistory (hlacks : Lacks src sid) (d : SourceDir Text) :
    Undisturbed sha prim codec src (SameHistory sid d) := by
  have hindex : ∀ text, (src.dir sid).index ≠ some text := by
    intro text h
    rw [hlacks.index] at h
    cases h
  constructor
  · exact fun s hs => hs
  · intro s sid' d' hi hm hs
    apply sameHistory_setDir hs
    rintro rfl
    exact ⟨hi,hm⟩
  · intro s sid' id text m _ hfile _ hs
    apply sameHistory_setDir hs
    rintro rfl
    rw [hlacks.manifests] at hfile
    simp at hfile
  · exact fun s hash blob _ hs => hs
  · intro s sid' d' text index htext _ _ hs
    apply sameHistory_setDir hs
    rintro rfl
    exact absurd htext (hindex text)

end Pair

end UnchangedSources
end BackupSync
