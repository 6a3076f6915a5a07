import BackupSync.BackupRestore
import BackupSync.UnchangedSources

/-!
# The program's own files in the sources it backs up

A run writes below destinations only: the files of each store, the readable views
and the lock files. A scan reads the file system as it then is, so what earlier
steps have written into a watched tree is backed up as well.

Validation compares a watched path with the destination of its own entry, name
by name. Another destination, or the same folder under a name with two dots in
it, may lie inside the watched tree. If no destination that is written to
contains or is contained in a watched tree, all scans of an unchanged source see
the same files, and a second run after a first one adds nothing, provided that
the first one was able to record what it saw and that no other history was copied
over its stores.
-/
namespace BackupSync
open Checks Interruptible Interruptible.Action RelativePath ContentHash ScanSnapshot BackupFolder
  BackupCycle StoreInvariant StoreCompleteness ReplicatedVersions ReplicaContents BackupOutcome
  SafetyScans UnchangedSources BackupSync.Configuration

/-- What stands at a place of the file system. -/
inductive FileNode where
  | dir
  | file (found : FileMeta) (content : Bytes)
  | other
  deriving DecidableEq, Repr

/-- A place, by the names on the way from the root. -/
abbrev Location := List Str

abbrev FileNodes := Map Location FileNode

/-- The file system apart from what the program writes during its runs. -/
structure Surroundings (Text : Type) where
  /-- Where a path leads, with links and parent directories followed. -/
  locate : Str → Location
  own : FileNodes
  /-- The bytes of a text file of a store. -/
  render : Text → Bytes

/-- What a run meets, besides the files it reads. -/
structure RunEnv where
  cycle : CycleEnv
  /-- The modification times of the files of a store when a path is scanned. -/
  modified : WatchedPath → Str → List Str → Option (Nat × Nat)
  /-- The readable views and lock files below a destination when a path is scanned. -/
  views : WatchedPath → Str → List (List Str × FileNode)

namespace OwnOutput

section Files
variable {Text : Type}

def walkItem (names : List Str) : FileNode → WalkItem
  | .dir => .dir names
  | .file found content => .file names ⟨.ok found,.ok content⟩
  | .other => .other names

def singleRead : Option FileNode → FileRead
  | some (.file found content) => ⟨.ok found,.ok content⟩
  | some _ => ⟨.error "not a regular file".toList,.error "not a regular file".toList⟩
  | none => ⟨.error "no such file".toList,.error "no such file".toList⟩

/-- A place and what lies below it. -/
def subtree (root : Location) (files : FileNodes) : FileNodes :=
  files.filter fun place _ => root.isPrefixOf place

/-- What a scan that starts at a place finds. -/
def sourceAt (root : Location) (files : FileNodes) : SourceContents where
  walk := match (subtree root files)[root]? with
    | none => [.error (some []) "no such file".toList]
    | some _ => (subtree root files).toList.map fun item =>
        walkItem (item.1.drop root.length) item.2
  single := singleRead (subtree root files)[root]?

/-- The files of a source below its directory in the store. -/
def sourceFiles (render : Text → Bytes) (d : SourceDir Text) : List (List Str × Bytes) :=
  d.index.toList.map (fun text => (["index.json".toList],render text))++
    d.manifests.toList.map (fun item => (["manifests".toList,item.1],render item.2))++
    d.report.toList.map (fun text => (["last_scan_report.json".toList],render text))

/-- The files of a store below its root. -/
def storeFiles (render : Text → Bytes) (st : Store Text) : List (List Str × Bytes) :=
  (st.sources.toList.flatMap fun item =>
    (sourceFiles render item.2).map fun f => ("sources".toList::item.1::f.1,f.2))++
  st.blobs.toList.map fun item => ("blobs".toList::"sha256".toList::item.1,item.2)

/-- The files of a store below its destination, with the directories they are in. -/
def storeNodes (modified : List Str → Option (Nat × Nat)) (render : Text → Bytes) (st : Store Text) :
    List (List Str × FileNode) :=
  (storeFiles render st).flatMap fun f =>
    let names := ".backup_sync".toList::"v1".toList::f.1
    names.inits.dropLast.map (fun above => (above,.dir))++
      [(names,.file ⟨f.2.length,modified names⟩ f.2)]

end Files

section Runs
variable {Text : Type} [StoreText Text] (sha : Sha256) (prim : Primitives)
  (fs : Surroundings Text) (cfg : Config)

/-- The destinations that a cycle or the replication after it writes to. -/
def writtenDestinations : List Destination :=
  (enabledWatched cfg).filterMap (fun w => destinationById cfg w.destinationId)++
    if cfg.replicationEnabled then (configuredPairs cfg).filterMap PairAttempt.dst else []

/-- One text for each place. -/
def canonical (path : Str) : Str := '/'::relString (fs.locate path)

/-- The configuration with the places that its destinations are in. -/
abbrev resolved : Config := resolvedBy (canonical fs) cfg

/-- All that the program has written, by place, when a path is scanned. -/
def outputs (env : RunEnv) (disk : Disk Text) (w : WatchedPath) : List (Location × FileNode) :=
  (writtenDestinations cfg).flatMap fun d =>
    (storeNodes (env.modified w d.path) fs.render (disk.store (canonical fs d.path))++
      env.views w d.path).map fun item => (fs.locate d.path++item.1,item.2)

/-- The cycle environment in which each scan reads the file system as it is. -/
def seeing (env : RunEnv) (disk : Disk Text) : CycleEnv :=
  {env.cycle with folder := fun w => {env.cycle.folder w with
    source := sourceAt (fs.locate w.path) (fs.own.insertMany (outputs fs cfg env disk w))}}

def backupSeen (env : RunEnv) (cycle : BackupCycleResult) (w : WatchedPath) :
    Action (Disk Text) CycleError BackupCycleResult := do
  let disk ← read
  backupWatched sha prim (resolved fs cfg) (seeing fs cfg env disk) cycle w

/-- run_backup_cycle on the file system. -/
def runSeen (env : RunEnv) : Action (Disk Text) CycleError BackupCycleResult := do
  lift (prepareCycle (resolved fs cfg) env.cycle)
  (enabledWatched cfg).foldlM (backupSeen sha prim fs cfg env) ⟨0,0,0,0,[]⟩

end Runs

variable {Text : Type} [StoreText Text] {sha : Sha256} {prim : Primitives}
  {fs : Surroundings Text} {cfg : Config} {w w' : WatchedPath} {d : Destination}

section Places

/-- What a path leads to is of the kind the configuration gives. -/
def Present (fs : Surroundings Text) (w : WatchedPath) : Prop :=
  match w.kind with
  | .directory => fs.own[fs.locate w.path]? = some .dir
  | .file => ∃ found content, fs.own[fs.locate w.path]? = some (.file found content)

/-- No watched tree contains a destination that is written to, or lies in one. -/
def Apart (fs : Surroundings Text) (cfg : Config) : Prop :=
  ∀ w ∈ enabledWatched cfg, ∀ d ∈ writtenDestinations cfg,
    ¬ fs.locate w.path <+: fs.locate d.path ∧ ¬ fs.locate d.path <+: fs.locate w.path

/-- The source as it is without the program. -/
def ownSource (fs : Surroundings Text) (w : WatchedPath) : SourceContents :=
  sourceAt (fs.locate w.path) fs.own

omit [StoreText Text] in
theorem subtree_insertMany {root : Location} {files : FileNodes} {added : List (Location × FileNode)}
    (h : ∀ item ∈ added, ¬ root <+: item.1) :
    subtree root (files.insertMany added) = subtree root files := by
  refine ext_getElem? fun place => ?_
  unfold subtree
  rw [Std.ExtTreeMap.getElem?_filter',Std.ExtTreeMap.getElem?_filter']
  by_cases hp : root <+: place
  · congr 1
    apply Std.ExtTreeMap.getElem?_insertMany_list_of_contains_eq_false
    rw [Bool.eq_false_iff]
    intro hmem
    obtain ⟨item,hitem,rfl⟩ := List.mem_map.mp (List.contains_iff_mem.mp hmem)
    exact h item hitem hp
  · have hfalse : root.isPrefixOf place = false := by
      rw [Bool.eq_false_iff]
      exact fun ht => hp ( List.isPrefixOf_iff_prefix.mp ht)
    rw [Option.filter_eq_none_iff.mpr,Option.filter_eq_none_iff.mpr]
    · exact fun _ _ => by simp [hfalse]
    · exact fun _ _ => by simp [hfalse]

omit [StoreText Text] in
/-- With destinations apart from the sources every scan sees what is there without the program. -/
theorem source_seeing (hapart : Apart fs cfg) (hw : w ∈ enabledWatched cfg) (env : RunEnv)
    (disk : Disk Text) : ((seeing fs cfg env disk).folder w).source = ownSource fs w := by
  have hsub : subtree (fs.locate w.path) (fs.own.insertMany (outputs fs cfg env disk w)) =
      subtree (fs.locate w.path) fs.own := by
    apply subtree_insertMany
    intro item hitem hbelow
    obtain ⟨d,hd,hitem⟩ := List.mem_flatMap.mp hitem
    obtain ⟨f,-,rfl⟩ := List.mem_map.mp hitem
    rcases List.prefix_or_prefix_of_prefix hbelow (List.prefix_append _ f.1) with h | h
    · exact (hapart w hw d hd).1 h
    · exact (hapart w hw d hd).2 h
  change sourceAt _ _ = sourceAt _ _
  unfold sourceAt
  rw [hsub]

omit [StoreText Text] in
theorem getElem?_subtree_self (root : Location) (files : FileNodes) :
    (subtree root files)[root]? = files[root]? := by
  unfold subtree
  rw [Std.ExtTreeMap.getElem?_filter']
  cases files[root]? with
  | none => rfl
  | some node => simp [ List.isPrefixOf_iff_prefix]

omit [StoreText Text] in
theorem itemReadable_walkItem (names : List Str) (node : FileNode) :
    ItemReadable (walkItem names node) := by
  cases node with
  | dir => trivial
  | file found content => exact ⟨⟨found,rfl⟩,content,rfl⟩
  | other => trivial

omit [StoreText Text] in
theorem sourceReadable_of_present (h : Present fs w) : SourceReadable w (ownSource fs w) := by
  unfold Present at h
  unfold SourceReadable ownSource sourceAt
  rw [getElem?_subtree_self]
  cases hk : w.kind with
  | directory =>
      rw [hk] at h
      dsimp only at h ⊢
      rw [h]
      intro item hitem
      obtain ⟨f,-,rfl⟩ := List.mem_map.mp hitem
      exact itemReadable_walkItem _ _
  | file =>
      rw [hk] at h
      obtain ⟨found,content,hnode⟩ := h
      dsimp only
      rw [hnode]
      exact ⟨⟨found,rfl⟩,content,rfl⟩

omit [StoreText Text] in
/-- One path leads to one place, which is of one kind. -/
theorem kind_eq_of_path (h : Present fs w) (h' : Present fs w') (hpath : w'.path = w.path) :
    w'.kind = w.kind := by
  unfold Present at h h'
  rw [hpath] at h'
  cases hk : w.kind with
  | directory =>
      cases hk' : w'.kind with
      | directory => rfl
      | file =>
          rw [hk] at h
          rw [hk'] at h'
          obtain ⟨found,content,hnode⟩ := h'
          rw [h] at hnode
          cases hnode
  | file =>
      cases hk' : w'.kind with
      | file => rfl
      | directory =>
          rw [hk] at h
          rw [hk'] at h'
          obtain ⟨found,content,hnode⟩ := h
          rw [h'] at hnode
          cases hnode

end Places

section Limits

theorem limits_of_validateDestinations {probe : PathProbe} {ids : List Str} {ds : List Destination}
    (h : validateDestinations cfg probe ids ds = .ok ()) :
    ∀ d ∈ ds, d.maxBackupsPerFile.getD cfg.maxBackupsPerFile ≠ 0 := by
  induction ds generalizing ids with
  | nil => simp
  | cons d ds ih =>
      obtain ⟨hd,h⟩ := then_eq_ok.mp h
      obtain ⟨-,hd⟩ := then_eq_ok.mp hd
      obtain ⟨-,hd⟩ := then_eq_ok.mp hd
      obtain ⟨hlimit,-⟩ := then_eq_ok.mp hd
      intro d' hd'
      rcases List.mem_cons.mp hd' with rfl | hd'
      · simpa using require_eq_ok.mp hlimit
      · exact ih h d' hd'

omit [StoreText Text] in
/-- In an accepted configuration only a limit of the watched path itself can be zero. -/
theorem one_le_keepVersions {probe : PathProbe} (hvalid : validate cfg probe = .ok ())
    (hlimit : w.maxBackupsPerFile ≠ some 0)
    (hd : destinationById (resolved fs cfg) w.destinationId = some d) :
    1 ≤ (jobFor (resolved fs cfg) w d).keepVersions := by
  obtain ⟨-,h⟩ := then_eq_ok.mp hvalid
  obtain ⟨hindex,-⟩ := then_eq_ok.mp h
  obtain ⟨-,hindex⟩ := then_eq_ok.mp hindex
  obtain ⟨hdest,-⟩ := then_eq_ok.mp hindex
  rw [destinationById_resolvedBy] at hd
  obtain ⟨d',hd',rfl⟩ := Option.map_eq_some_iff.mp hd
  have hmem := List.mem_reverse.mp (List.mem_of_find?_eq_some hd')
  have hpos := limits_of_validateDestinations hdest d' hmem
  change 1 ≤ (w.maxBackupsPerFile.or d'.maxBackupsPerFile).getD cfg.maxBackupsPerFile
  cases hw : w.maxBackupsPerFile with
  | none =>
      rw [Option.none_or]
      omega
  | some n =>
      rw [hw] at hlimit
      have hne : n ≠ 0 := fun he => hlimit (he ▸ rfl)
      simp only [Option.some_or,Option.getD_some]
      omega

end Limits

/-- What the configuration and the file system have to be like. -/
structure Sheltered (sha : Sha256) (fs : Surroundings Text) (cfg : Config) : Prop where
  apart : Apart fs cfg
  present : ∀ w ∈ enabledWatched cfg, Present fs w
  limit : ∀ w ∈ enabledWatched cfg, w.maxBackupsPerFile ≠ some 0
  /-- SHA-256 keeps the watched paths apart. -/
  ids : ∀ w ∈ enabledWatched cfg, ∀ w' ∈ enabledWatched cfg,
    sourceId sha w'.path = sourceId sha w.path → w'.path = w.path

/-- The source of a watched path is up to date at its destination. -/
def Fresh (sha : Sha256) (fs : Surroundings Text) (cfg : Config) (w : WatchedPath)
    (disk : Disk Text) : Prop :=
  ∀ d, destinationById (resolved fs cfg) w.destinationId = some d →
    UpToDate sha cfg.scan w (ownSource fs w) ((disk.store d.path).dir (sourceId sha w.path))

/-- The source is up to date with the manifest files it had. -/
structure Unmoved (sha : Sha256) (fs : Surroundings Text) (cfg : Config) (w : WatchedPath)
    (disk t : Disk Text) : Prop where
  fresh : Fresh sha fs cfg w t
  manifests : ∀ d, destinationById (resolved fs cfg) w.destinationId = some d →
    ((t.store d.path).dir (sourceId sha w.path)).manifests =
      ((disk.store d.path).dir (sourceId sha w.path)).manifests

section Steps
variable {cenv : CycleEnv} {disk disk' : Disk Text} {cycle cycle' : BackupCycleResult}

theorem returns_backupWatched
    (hr : Returns (backupWatched sha prim cfg cenv cycle w) disk cycle' disk') : ∃ d r t,
    destinationById cfg w.destinationId = some d ∧
      Returns (backupOneFolder sha prim (jobFor cfg w d) (cenv.folder w)) (disk.store d.path) r t ∧
      disk' = disk.setStore d.path t := by
  obtain ⟨d,hd,hr⟩ := returns_lift_bind.mp hr
  obtain ⟨r,u,hfolder,hr⟩ := returns_bind.mp hr
  obtain ⟨-,hr⟩ := returns_check_bind.mp hr
  obtain ⟨-,rfl⟩ := returns_pure.mp hr
  obtain ⟨t,ht,rfl⟩ := returns_zoom.mp (returns_mapFailure.mp hfolder)
  exact ⟨d,r,t,orElse_eq_ok.mp hd,ht,rfl⟩

/-- A backup of one path, at any moment, leaves the others up to date, and this one too if it was. -/
theorem unmoved_of_states (hsh : Sheltered sha fs cfg) (hw : w ∈ enabledWatched cfg)
    (hw' : w' ∈ enabledWatched cfg) (hsource : (cenv.folder w).source = ownSource fs w)
    (hsees : SeesLatest (cenv.folder w)) {t : Store Text}
    (ht : t ∈ (backupOneFolder sha prim (jobFor (resolved fs cfg) w d) (cenv.folder w)
      (disk.store d.path)).states)
    (h : Fresh sha fs cfg w' disk) : Unmoved sha fs cfg w' disk (disk.setStore d.path t) := by
  have hstep : ∀ d', destinationById (resolved fs cfg) w'.destinationId = some d' →
      UpToDate sha cfg.scan w' (ownSource fs w')
        (((disk.setStore d.path t).store d'.path).dir (sourceId sha w'.path)) ∧
      (((disk.setStore d.path t).store d'.path).dir (sourceId sha w'.path)).manifests =
        ((disk.store d'.path).dir (sourceId sha w'.path)).manifests := by
    intro d' hd'
    have hup := h d' hd'
    by_cases hpath : d'.path = d.path
    · rw [hpath] at hup ⊢
      rw [Disk.store_setStore_self]
      by_cases hsid : sourceId sha w'.path = sourceId sha w.path
      · have hsame := hsh.ids w hw w' hw' hsid
        have hkind := kind_eq_of_path (hsh.present w hw) (hsh.present w' hw') hsame
        have hown : ownSource fs w' = ownSource fs w := by rw [ownSource,ownSource,hsame]
        rw [hown] at hup ⊢
        rw [hsid] at hup ⊢
        have hagain := @triple_again Text _ sha prim (jobFor (resolved fs cfg) w d) (cenv.folder w)
          (disk.store d.path) hsees (hsource.symm ▸ hup.watched hsame.symm hkind.symm)
        have hstill := hagain.states (fun _ _ hq => hq.2) rfl ht
        exact ⟨(hsource ▸ hstill.upToDate : UpToDate sha cfg.scan w (ownSource fs w) _).watched hsame
          hkind,hstill.manifests_eq⟩
      · rw [(moves_backup ht).others_eq hsid]
        exact ⟨hup,rfl⟩
    · rw [Disk.store_setStore_of_ne hpath]
      exact ⟨hup,rfl⟩
  exact ⟨fun d' hd' => (hstep d' hd').1,fun d' hd' => (hstep d' hd').2⟩

end Steps

section First
variable {env : RunEnv} {disk disk' : Disk Text} {cycle cycle' : BackupCycleResult}

/-- Each path in its turn is recorded as it is seen. -/
def SteadyAll (sha : Sha256) (prim : Primitives) (fs : Surroundings Text) (cfg : Config)
    (env : RunEnv) : List WatchedPath → Disk Text → Prop
  | [],_ => True
  | w::ws,disk =>
      (∀ d, destinationById (resolved fs cfg) w.destinationId = some d →
        Steady sha prim (jobFor (resolved fs cfg) w d) ((seeing fs cfg env disk).folder w)
          (disk.store d.path)) ∧
      ∀ cycle cycle' disk', Returns (backupSeen sha prim fs cfg env cycle w) disk cycle' disk' →
        SteadyAll sha prim fs cfg env ws disk'

def BackedDisk (sha : Sha256) (disk : Disk Text) : Prop :=
  ∀ root, AllBacked sha .blind (disk.store root)

/-- The looks at the index and at the latest manifest of every source succeed. -/
def LooksSucceed (cfg : Config) (env : RunEnv) : Prop :=
  ∀ w ∈ enabledWatched cfg, SeesLatest (env.cycle.folder w)

theorem backupSeen_step {probe : PathProbe} (hvalid : validate cfg probe = .ok ())
    (hsh : Sheltered sha fs cfg) (hw : w ∈ enabledWatched cfg) (hlooks : LooksSucceed cfg env)
    (hsound : BackedDisk sha disk) (hsteady : ∀ d,
      destinationById (resolved fs cfg) w.destinationId = some d → Steady sha prim
        (jobFor (resolved fs cfg) w d) ((seeing fs cfg env disk).folder w) (disk.store d.path))
    (hr : Returns (backupSeen sha prim fs cfg env cycle w) disk cycle' disk') :
    BackedDisk sha disk' ∧ Fresh sha fs cfg w disk' ∧
      ∀ w' ∈ enabledWatched cfg, Fresh sha fs cfg w' disk → Fresh sha fs cfg w' disk' := by
  obtain ⟨d,r,t,hd,hfolder,rfl⟩ := returns_backupWatched (returns_read_bind.mp hr)
  have hsource := source_seeing hsh.apart hw env disk
  have ht : t ∈ (backupOneFolder sha prim (jobFor (resolved fs cfg) w d)
      ((seeing fs cfg env disk).folder w) (disk.store d.path)).states :=
    List.mem_append_right _ (List.mem_singleton.mpr hfolder.2.symm)
  refine ⟨?_,?_,?_⟩
  · intro root
    by_cases he : root = d.path
    · subst he
      rw [Disk.store_setStore_self]
      exact (keeps_backupOneFolder prim _ _ ⟨fun _ _ => trivial,False.elim⟩).states (hsound d.path) ht
    · rw [Disk.store_setStore_of_ne he]
      exact hsound root
  · intro d' hd'
    obtain rfl := Option.some.inj (hd.symm.trans hd')
    rw [Disk.store_setStore_self,← hsource]
    exact upToDate_of_returns (hsound d.path)
      (hsource ▸ sourceReadable_of_present (hsh.present w hw))
      (one_le_keepVersions hvalid (hsh.limit w hw) hd) (hsteady d hd) hfolder
  · intro w' hw' hfresh
    have hsees : SeesLatest ((seeing fs cfg env disk).folder w) := ⟨(hlooks w hw).1,(hlooks w hw).2⟩
    exact (unmoved_of_states hsh hw hw' hsource hsees ht hfresh).fresh

/-- After the turns of some paths all of them are up to date. -/
theorem fresh_of_turns {probe : PathProbe} (hvalid : validate cfg probe = .ok ())
    (hsh : Sheltered sha fs cfg) (hlooks : LooksSucceed cfg env) {ws : List WatchedPath}
    (hws : ∀ w ∈ ws, w ∈ enabledWatched cfg) (hsound : BackedDisk sha disk)
    (hsteady : SteadyAll sha prim fs cfg env ws disk)
    (hr : Returns (ws.foldlM (backupSeen sha prim fs cfg env) cycle) disk cycle' disk') :
    (∀ w ∈ enabledWatched cfg, Fresh sha fs cfg w disk → Fresh sha fs cfg w disk') ∧
      ∀ w ∈ ws, Fresh sha fs cfg w disk' := by
  induction ws generalizing disk cycle with
  | nil =>
      obtain ⟨-,rfl⟩ := returns_pure.mp hr
      exact ⟨fun _ _ h => h,by simp⟩
  | cons w ws ih =>
      rw [List.foldlM_cons,returns_bind] at hr
      obtain ⟨c,u,hstep,hrest⟩ := hr
      have hw := hws w List.mem_cons_self
      obtain ⟨hsound',hfresh,hkept⟩ := backupSeen_step hvalid hsh hw hlooks hsound hsteady.1 hstep
      obtain ⟨hlater,hall⟩ := ih (fun w' hw' => hws w' (List.mem_cons_of_mem _ hw')) hsound'
        (hsteady.2 _ _ _ hstep) hrest
      refine ⟨fun w' hw' h => hlater w' hw' (hkept w' hw' h),?_⟩
      intro w' hw'
      rcases List.mem_cons.mp hw' with rfl | hw'
      · exact hlater _ hw hfresh
      · exact hall w' hw'

end First

section Replicas
variable [DecidableEq Text] {disk : Disk Text}

/-- A pair that is carried out copies nothing of a source that is backed up to its target. -/
def Unrivalled (sha : Sha256) (cfg : Config) (p : PairAttempt) (env : PairEnv) (disk : Disk Text) :
    Prop :=
  Executed p env disk → ∀ dst, p.dst = some dst → ∀ w ∈ enabledWatched cfg, ∀ d,
    destinationById cfg w.destinationId = some d → d.path = dst.path →
    Lacks (disk.store p.src.path) (sourceId sha w.path)

theorem fresh_replication {renv : ReplicationEnv}
    (hun : EachPair (Unrivalled sha (resolved fs cfg)) sha prim (resolved fs cfg) renv disk)
    (hw : w ∈ enabledWatched cfg) (h : Fresh sha fs cfg w disk) :
    Fresh sha fs cfg w (replicateConfiguredStores sha prim (resolved fs cfg) renv disk).store := by
  refine replication_keeps ?_ hun h
  intro p env u hp hu d hd
  have hkept := @store_attemptPair Text _ _ sha prim env (resolved fs cfg) p u d.path
    (SameHistory (sourceId sha w.path) ((u.store d.path).dir (sourceId sha w.path)))
    (fun hexec dst hdst he => undisturbed_sameHistory (hp hexec dst hdst w hw d hd he) _) ⟨rfl,rfl⟩
  exact (hu d hd).of_dir hkept.1 hkept.2

end Replicas

section Second
variable {env : RunEnv} {start : Disk Text}

/-- Every source is up to date with the manifest files it had at the start. -/
def AllUnmoved (sha : Sha256) (fs : Surroundings Text) (cfg : Config) (start t : Disk Text) : Prop :=
  ∀ w ∈ enabledWatched cfg, Unmoved sha fs cfg w start t

theorem triple_backupSeen (hsh : Sheltered sha fs cfg) (hlooks : LooksSucceed cfg env)
    (hw : w ∈ enabledWatched cfg) (cycle : BackupCycleResult) :
    Triple (AllUnmoved sha fs cfg start) (backupSeen sha prim fs cfg env cycle w)
      (fun cycle' t => cycle'.versionsCreated = cycle.versionsCreated ∧ AllUnmoved sha fs cfg start t)
      (AllUnmoved sha fs cfg start) := by
  apply triple_forall
  intro disk hdisk
  refine triple_read_bind fun u hu => ?_
  rw [hu]
  refine triple_lift_bind (fun _ h => h.2 ▸ hdisk) fun d hd => ?_
  have hd := orElse_eq_ok.mp hd
  have hsource := source_seeing hsh.apart hw env disk
  have hsees : SeesLatest ((seeing fs cfg env disk).folder w) := ⟨(hlooks w hw).1,(hlooks w hw).2⟩
  have hstates : ∀ t ∈ (backupOneFolder sha prim (jobFor (resolved fs cfg) w d)
      ((seeing fs cfg env disk).folder w) (disk.store d.path)).states,
      AllUnmoved sha fs cfg start (disk.setStore d.path t) := by
    intro t ht w' hw'
    have hnext := unmoved_of_states hsh hw hw' hsource hsees ht (hdisk w' hw').fresh
    exact ⟨hnext.fresh,fun d' hd' => (hnext.manifests d' hd').trans ((hdisk w' hw').manifests d' hd')⟩
  have hup := (hdisk w hw).fresh d hd
  rw [← hsource] at hup
  have hagain := @triple_again Text _ sha prim (jobFor (resolved fs cfg) w d)
    ((seeing fs cfg env disk).folder w) (disk.store d.path) hsees hup
  refine triple_bind (R := fun r t => r.changed = false ∧ AllUnmoved sha fs cfg start t) ?_ fun r => ?_
  · apply spec_mapFailure
    refine spec_conseq (spec_zoom (Disk.store · d.path) (Disk.setStore d.path)
      (Spec.remember (triple_of_states hstates) rfl) rfl) (fun _ h => h.2) ?_ ?_ ?_
    · rintro r t ⟨u,rfl,hr,hu⟩
      exact ⟨(hagain.returns rfl hr).1,hu⟩
    · rintro e t ⟨u,rfl,hu⟩
      exact hu
    · rintro t ⟨u,rfl,hu⟩
      exact hu
  · refine triple_check_bind (fun _ h => h.2) fun _ => triple_pure _ fun t h => ⟨?_,h.2⟩
    rw [countFolder,h.1]
    rfl

theorem triple_turns (hsh : Sheltered sha fs cfg) (hlooks : LooksSucceed cfg env)
    {ws : List WatchedPath} (hws : ∀ w ∈ ws, w ∈ enabledWatched cfg) (cycle : BackupCycleResult) :
    Triple (AllUnmoved sha fs cfg start) (ws.foldlM (backupSeen sha prim fs cfg env) cycle)
      (fun cycle' t => cycle'.versionsCreated = cycle.versionsCreated ∧ AllUnmoved sha fs cfg start t)
      (AllUnmoved sha fs cfg start) := by
  induction ws generalizing cycle with
  | nil => exact triple_pure cycle fun _ h => ⟨rfl,h⟩
  | cons w ws ih =>
      rw [List.foldlM_cons]
      refine triple_bind (triple_backupSeen hsh hlooks (hws w List.mem_cons_self) cycle) fun c => ?_
      apply triple_forall
      rintro t ⟨hc,ht⟩
      refine triple_conseq (ih (fun w' hw' => hws w' (List.mem_cons_of_mem _ hw')) c) ?_ ?_
        fun _ h => h
      · rintro _ rfl
        exact ht
      · rintro c' u ⟨hc',hu⟩
        exact ⟨hc'.trans hc,hu⟩

/-- A run over sources that are all up to date creates no version, at any moment. -/
theorem triple_runSeen (hsh : Sheltered sha fs cfg) (hlooks : LooksSucceed cfg env) :
    Triple (AllUnmoved sha fs cfg start) (runSeen sha prim fs cfg env)
      (fun result t => result.versionsCreated = 0 ∧ AllUnmoved sha fs cfg start t)
      (AllUnmoved sha fs cfg start) :=
  triple_lift_bind (fun _ h => h) fun _ _ => triple_turns hsh hlooks (fun _ hw => hw) _

end Second

/-- A second run after a first one and its replication creates no version of any source, however
it ends, if the sources and the destinations are apart, each step of the first run records what it
has seen, both runs can look at what the sources have, and no pair that is carried out copies another
history of a source to where the source is backed up. -/
theorem second_run_creates_nothing [DecidableEq Text] {probe : PathProbe} {first second : RunEnv}
    {renv : ReplicationEnv} {disk disk₁ : Disk Text} {result : BackupCycleResult}
    (hvalid : validate cfg probe = .ok ()) (hsh : Sheltered sha fs cfg) (hsound : BackedDisk sha disk)
    (hlooks : LooksSucceed cfg first) (hsteady : SteadyAll sha prim fs cfg first (enabledWatched cfg) disk)
    (hfirst : Returns (runSeen sha prim fs cfg first) disk result disk₁)
    (hun : EachPair (Unrivalled sha (resolved fs cfg)) sha prim (resolved fs cfg) renv disk₁)
    (hlooks' : LooksSucceed cfg second) :
    let disk₂ := (replicateConfiguredStores sha prim (resolved fs cfg) renv disk₁).store
    (∀ result' disk₃, Returns (runSeen sha prim fs cfg second) disk₂ result' disk₃ →
      result'.versionsCreated = 0) ∧
    ∀ t ∈ (runSeen sha prim fs cfg second disk₂).states, ∀ w ∈ enabledWatched cfg, ∀ d,
      destinationById (resolved fs cfg) w.destinationId = some d →
      ((t.store d.path).dir (sourceId sha w.path)).manifests =
        ((disk₂.store d.path).dir (sourceId sha w.path)).manifests := by
  intro disk₂
  obtain ⟨-,-,hturns⟩ := returns_lift_bind.mp hfirst
  have hfresh := (fresh_of_turns hvalid hsh hlooks (fun _ hw => hw) hsound hsteady hturns).2
  have hstart : AllUnmoved sha fs cfg disk₂ disk₂ :=
    fun w hw => ⟨fresh_replication hun hw (hfresh w hw),fun _ _ => rfl⟩
  have hrun := @triple_runSeen Text _ sha prim fs cfg second disk₂ hsh hlooks'
  refine ⟨fun result' disk₃ hr => (hrun.returns hstart hr).1,?_⟩
  intro t ht w hw d hd
  exact (hrun.states (fun _ _ h => h.2) hstart ht w hw).manifests d hd

/-- Where a path leads on a file system without links. -/
def lexicalPlace (path : Str) : Location :=
  (components path).foldl (fun place c => match c with
    | .normal name => place++[name]
    | .parentDir => place.dropLast
    | _ => place) []

/-- The folder of the notes with one file. -/
def notesFiles : FileNodes :=
  (∅ : FileNodes).insertMany [(["home".toList,"notes".toList],.dir),
    (["home".toList,"notes".toList,"a".toList],.file ⟨2,some (7,0)⟩ (ascii "hi"))]

def home (own : FileNodes) : Surroundings PlainText := ⟨lexicalPlace,own,fun _ => ascii "ok"⟩

def quietRun (folder : WatchedPath → BackupEnv) : RunEnv :=
  ⟨{calmCycle with folder := folder},fun _ _ _ => some (8,0),fun _ _ => []⟩

def notesConfig : Config := mirroredConfig [notesTo "main"]

def notesRun (folder : WatchedPath → BackupEnv) : Action (Disk PlainText) CycleError BackupCycleResult :=
  runSeen notesSha .transparent (home notesFiles) notesConfig (quietRun folder)

def notesReplicated : Disk PlainText :=
  (replicateConfiguredStores notesSha .transparent (resolved (home notesFiles) notesConfig)
    calmReplication (notesRun (fun _ => firstEnv) ∅).store).store

theorem sheltered_notes : Sheltered notesSha (home notesFiles) notesConfig where
  apart := by
    unfold Apart
    decide +kernel
  present := by
    intro w hw
    obtain rfl := List.mem_singleton.mp hw
    change notesFiles[_]? = _
    decide +kernel
  limit := by decide
  ids := by
    intro w hw w' hw' _
    rw [List.mem_singleton.mp hw,List.mem_singleton.mp hw']

theorem backedDisk_empty (sha : Sha256) : BackedDisk sha (∅ : Disk PlainText) := by
  intro root
  have hempty : (∅ : Disk PlainText).store root = .empty := by simp [Disk.store]
  rw [hempty]
  exact allBacked_empty

/-- The scan of the notes. -/
def notesEntries : Entries :=
  (∅ : Entries).insert "a".toList ⟨.file,"a".toList,2,7,0,some (sha256Hex notesSha (ascii "hi"))⟩

theorem entries_notes {raw : Manifest} (h : scanSnapshot notesSha notesConfig.scan (notesTo "main")
    (ownSource (home notesFiles) (notesTo "main")) none 1767323045 = .ok raw) :
    raw.entries = notesEntries := by
  have hscan : (scanSnapshot notesSha notesConfig.scan (notesTo "main")
      (ownSource (home notesFiles) (notesTo "main")) none 1767323045).toOption.map (·.entries) =
      some notesEntries := by decide +kernel
  rw [h] at hscan
  exact Option.some.inj hscan

theorem steadyAll_notes : SteadyAll notesSha .transparent (home notesFiles) notesConfig
    (quietRun fun _ => firstEnv) (enabledWatched notesConfig) ∅ := by
  refine ⟨?_,fun _ _ _ _ => trivial⟩
  intro d hd
  have hdir : ((∅ : Disk PlainText).store d.path).dir (sourceId notesSha (notesTo "main").path) =
      .empty := by simp [Disk.store]
  have hsource := source_seeing sheltered_notes.apart (List.mem_singleton_self (notesTo "main"))
    (quietRun fun _ => firstEnv) ∅
  have hfresh : ∀ access index, loadIndex access (notesTo "main").path
      (((∅ : Disk PlainText).store d.path).dir (sourceId notesSha (notesTo "main").path)) =
      .ok index → index = .fresh (notesTo "main").path := by
    intro access index h
    rw [hdir] at h
    cases access <;> exact (Except.ok.inj h).symm
  constructor
  · intro index hindex
    rw [hfresh _ index hindex]
    intro v hv
    exact absurd hv List.not_mem_nil
  · intro scanned hof k e hash he _ hhash
    obtain ⟨raw,hraw,hentries,-⟩ := hof.scan
    have hprev : scanned.prev = none := by
      have hl := hof.prev_loaded
      rw [hfresh _ scanned.index hof.index_loaded] at hl
      exact (Except.ok.inj hl).symm
    rw [hprev,hsource] at hraw
    rw [hentries,entries_notes hraw,notesEntries,getElem?_insert] at he
    split at he
    · cases he
      cases hhash
      refine .inr fun u => ?_
      have hopen : ∀ cipher, cipher ∉ notesJob.codec.cipher := fun cipher =>
        Option.not_mem_none cipher
      have hbounded : notesJob.codec.Bounded := ⟨fun cipher h => absurd h (hopen cipher),by decide⟩
      have hplain : ¬ BlobCodec.MagicPrefixed (ascii "hi") := by
        unfold BlobCodec.MagicPrefixed
        decide
      have hwrite := @BackupRestore.runs_writeBlob PlainText notesSha .transparent
        (jobFor (resolved (home notesFiles) notesConfig) (notesTo "main") d) u (ascii "hi")
        (firstEnv.blobWrites k) hbounded (fun _ _ => hplain)
        ⟨rfl,_,_,rfl,rfl,rfl,fun cipher h => absurd h (hopen cipher)⟩
      obtain ⟨bytes,t,hr,-⟩ := hwrite u rfl
      exact ⟨bytes,hr.1⟩
    · simp at he

/-- A source and its destination in different places. -/
theorem second_run_creates_nothing_notes :
    (notesRun (fun _ => firstEnv) ∅).result = .ok ⟨1,1,1,2,[]⟩ ∧
    ∀ result disk, Returns (notesRun fun _ => calmEnv "hi" 7 1767323046 secondLater) notesReplicated
      result disk → result.versionsCreated = 0 := by
  have hfirst : (notesRun (fun _ => firstEnv) ∅).result = .ok ⟨1,1,1,2,[]⟩ := by decide +kernel
  refine ⟨hfirst,?_⟩
  have hun : EachPair (Unrivalled notesSha (resolved (home notesFiles) notesConfig)) notesSha
      .transparent (resolved (home notesFiles) notesConfig) calmReplication
      (notesRun (fun _ => firstEnv) ∅).store := by
    refine fun _ _ => ⟨?_,trivial⟩
    rintro - _ ⟨⟩ w hw d hd hpath
    obtain rfl := List.mem_singleton.mp hw
    cases hd
    exact absurd hpath (by decide)
  exact (@second_run_creates_nothing PlainText _ notesSha .transparent (home notesFiles) notesConfig _
    ⟨fun _ => true,fun _ => false,fun _ => true⟩ (quietRun fun _ => firstEnv)
    (quietRun fun _ => calmEnv "hi" 7 1767323046 secondLater) calmReplication ∅ _ _ (by decide +kernel)
    sheltered_notes (backedDisk_empty notesSha) (fun _ _ => ⟨nofun,nofun⟩) steadyAll_notes ⟨hfirst,rfl⟩
    hun (fun _ _ => ⟨nofun,nofun⟩)).1

/-- SHA-256 on the inputs of the runs below. -/
def feedSha : Sha256 := notesSha.updated
  [(ascii "/srv/data",#v[150,181,62,71,227,252,124,41,219,76,90,76,105,119,222,207,177,249,145,231,
      171,62,95,179,51,175,23,20,80,141,30,218]),
    (ascii "ok",#v[38,137,54,123,32,92,22,206,50,237,66,0,148,43,139,139,30,38,45,252,112,217,188,
      159,188,119,196,150,153,164,241,223])]

def dataTo : WatchedPath := ⟨"/srv/data".toList,.directory,true,"inner".toList,none⟩

/-- The notes go to another disk, and the data into a folder of the notes. -/
def feedConfig : Config :=
  {notesConfig with
    watched := [notesTo "main",dataTo]
    destinations := [⟨"main".toList,"/mnt/main".toList,none,[]⟩,
      ⟨"inner".toList,"/home/notes/backup".toList,none,[]⟩]}

def feedFiles : FileNodes :=
  notesFiles.insertMany [(["home".toList,"notes".toList,"backup".toList],.dir),
    (["srv".toList,"data".toList],.dir),
    (["srv".toList,"data".toList,"b".toList],.file ⟨2,some (7,0)⟩ (ascii "ho"))]

def feedRun (folder : WatchedPath → BackupEnv) : Action (Disk PlainText) CycleError BackupCycleResult :=
  runSeen feedSha .transparent (home feedFiles) feedConfig (quietRun folder)

def thirdStamp : VersionStamp := ⟨"20260102-030408-000000000".toList,by decide⟩

def blobWriting (content : Bytes) : BlobWriteEnv :=
  ⟨true,[some ⟨some content,[],Vector.replicate _ 0,.done⟩],[]⟩

/-- Every file that a run finds can be stored. -/
def feedBlobs (k : Str) : BlobWriteEnv :=
  blobWriting (if hasJsonExtension k then ascii "ok" else ascii "ho")

def feedFirst (w : WatchedPath) : BackupEnv :=
  if w.destinationId = "main".toList then firstEnv else calmEnv "ho" 7 1767323046 secondLater

def feedSecond (_ : WatchedPath) : BackupEnv :=
  {calmEnv "ho" 7 1767323048 thirdStamp with blobWrites := feedBlobs}

def feedReplicated : Disk PlainText :=
  (replicateConfiguredStores feedSha .transparent (resolved (home feedFiles) feedConfig)
    calmReplication (feedRun feedFirst ∅).store).store

/-- The store of the data lies in the notes. Nothing has changed since the first run, and the second
one creates a version of the notes with the files of that store in it. -/
theorem second_run_backs_up_store :
    validate feedConfig ⟨fun _ => true,fun _ => false,fun _ => true⟩ = .ok () ∧
    (∀ w ∈ enabledWatched feedConfig, Present (home feedFiles) w) ∧
    (feedRun feedFirst ∅).result = .ok ⟨2,2,2,4,[]⟩ ∧
    (feedRun feedSecond feedReplicated).result = .ok ⟨2,1,2,4,[]⟩ := by
  refine ⟨by decide +kernel,?_,by decide +kernel,by decide +kernel⟩
  intro w hw
  rcases List.mem_pair.mp hw with rfl | rfl
  · change feedFiles[_]? = _
    decide +kernel
  · change feedFiles[_]? = _
    decide +kernel

end OwnOutput
end BackupSync
