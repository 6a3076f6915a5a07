import BackupSync.KeptVersions
import BackupSync.Relocation
import BackupSync.ScrubReport

/-!
# Making a secondary store the main one

verify_secondary_can_be_main compares, for each enabled source of the main
destination, the newest timestamps the two stores list, exchanges the two paths
in the configuration and scrubs the stores the exchanged configuration names. The
destinations keep their ids and replication targets. So the next replication goes
from the promoted store to the former main one: it publishes the index of the
promoted store there and deletes the manifests that index does not list.

Nothing is lost by this if the promoted store lists every version the former main
store lists, with the same manifest file, and if no third store is replicated
onto one of the two. The comparison of the newest timestamps does not see older
versions.
-/
namespace BackupSync
open Checks Interruptible RelativePath ContentHash SafetyBaseline BackupFolder BackupCycle
  Replication ReplicaContents ReplicatedVersions ReplicaInterruption StoreCompleteness Scrub
  ScrubReport Relocation KeptVersions BackupSync.Configuration

inductive PromotionError where
  | noMain
  | noSecondary
  | mainMissing
  | secondaryMissing
  | sameFolder
  | readIndex (root sourcePath : Str)
  | parseIndex (root sourcePath : Str)
  | noVersion (sourcePath : Str)
  | behind (sourcePath : Str)
  | notSecondary
  | invalid (error : ConfigError)
  | scrub (error : ScrubError)
  | issues (count : Nat)
  deriving DecidableEq

/-- What the verification asks the file system, and the sampling settings it passes on. -/
structure PromotionEnv where
  /-- The folder that the path of a destination leads to. -/
  place : Str → Str
  isDirectory : Str → Bool
  canonical : Str → Option Str
  /-- A look for an index that fails finds nothing. -/
  indexSeen : Str → Str → Bool
  indexReadable : Str → Str → Bool
  probe : PathProbe
  scrub : ScrubEnv
  sampleBlobs : Nat
  sampleVersionsPerSource : Nat

namespace Promotion

section Model
variable {Text : Type} [StoreText Text] (sha : Sha256) (prim : Primitives)

/-- The paths change places; ids, targets and watched paths stay. -/
def swapped (cfg : SavedConfig) (index : Nat) : SavedConfig :=
  let pathOf := fun i => (cfg.settings.destinations[i]?.map Destination.path).getD []
  {cfg with
    settings := {cfg.settings with
      destinations := (cfg.settings.destinations.modify 0 fun d =>
        {d with path := pathOf index}).modify index fun d => {d with path := pathOf 0}}
    backupRoot := pathOf index}

def swapMainWithSecondary (probe : PathProbe) (cfg : SavedConfig) (index : Nat) :
    Except PromotionError SavedConfig := do
  require (index ≠ 0 && index < cfg.settings.destinations.length) .notSecondary
  (validate (swapped cfg index).settings probe).mapError .invalid
  return swapped cfg index

def readVersionIndex (env : PromotionEnv) (disk : Disk Text) (root sourcePath : Str) :
    Except PromotionError (Option VersionIndex) :=
  match ((disk.store (env.place root)).dir (sourceId sha sourcePath)).index with
  | none => return none
  | some text =>
      if env.indexSeen root sourcePath then do
        require (env.indexReadable root sourcePath) (.readIndex root sourcePath)
        let index ← orElse (StoreText.readIndex text) (.parseIndex root sourcePath)
        return some index
      else return none

/-- The timestamp of the newest version. -/
def newest (index : Option VersionIndex) : Option Int :=
  index.bind fun index => (index.versions.map VersionInfo.createdAtUnix).max?

/-- The body of the loop over the sources of the main destination. -/
def compareSource (env : PromotionEnv) (disk : Disk Text) (main secondary : Destination)
    (w : WatchedPath) : Except PromotionError Unit := do
  let current ← readVersionIndex sha env disk main.path w.path
  let candidate ← readVersionIndex sha env disk secondary.path w.path
  match newest current with
  | none => return ()
  | some latest => do
      let theirs ← orElse (newest candidate) (.noVersion w.path)
      require (latest ≤ theirs) (.behind w.path)

/-- The loop; a path that was met before is passed over. -/
def compareSources (env : PromotionEnv) (disk : Disk Text) (main secondary : Destination) :
    List (List Component) → List WatchedPath → Except PromotionError Unit
  | _,[] => .ok ()
  | seen,w::ws =>
      if components w.path ∈ seen then compareSources env disk main secondary seen ws
      else do
        compareSource sha env disk main secondary w
        compareSources env disk main secondary (components w.path::seen) ws

def verifySecondaryCanBeMain (env : PromotionEnv) (cfg : SavedConfig) (index : Nat)
    (disk : Disk Text) : Except PromotionError (SavedConfig × Nat) := do
  let main ← orElse cfg.settings.destinations[0]? .noMain
  let secondary ← orElse cfg.settings.destinations[index]? .noSecondary
  require (env.isDirectory main.path) .mainMissing
  require (env.isDirectory secondary.path) .secondaryMissing
  require (!pathsReferToSameLocation env.canonical main.path secondary.path) .sameFolder
  compareSources sha env disk main secondary []
    (cfg.settings.watched.filter fun w => w.enabled && w.destinationId = main.id)
  let next ← swapMainWithSecondary env.probe cfg index
  let report ← (scrubVersionedStore sha prim (resolvedBy env.place next.settings) disk env.scrub
    ⟨.full,env.sampleBlobs,env.sampleVersionsPerSource,0⟩).mapError .scrub
  let issues := saturatingAdd (saturatingAdd report.manifestsBad report.missingBlobs)
    report.hashMismatches
  require (issues = 0) (.issues issues)
  return (next,report.manifestsChecked)

end Model

variable {Text : Type} [StoreText Text] {sha : Sha256} {prim : Primitives}
  {cfg next : SavedConfig} {index checked : Nat} {env : PromotionEnv} {disk : Disk Text}

/-- An accepted promotion has both destinations and answers with their paths exchanged. -/
theorem verifySecondaryCanBeMain_eq_ok
    (h : verifySecondaryCanBeMain sha prim env cfg index disk = .ok (next,checked)) :
    next = swapped cfg index ∧ ∃ main secondary, cfg.settings.destinations[0]? = some main ∧
      cfg.settings.destinations[index]? = some secondary := by
  obtain ⟨main,hmain,h⟩ := bind_eq_ok.mp h
  obtain ⟨secondary,hsecondary,h⟩ := bind_eq_ok.mp h
  obtain ⟨-,h⟩ := then_eq_ok.mp h
  obtain ⟨-,h⟩ := then_eq_ok.mp h
  obtain ⟨-,h⟩ := then_eq_ok.mp h
  obtain ⟨-,h⟩ := then_eq_ok.mp h
  obtain ⟨next',hswap,h⟩ := bind_eq_ok.mp h
  obtain ⟨report,-,h⟩ := bind_eq_ok.mp h
  obtain ⟨-,h⟩ := then_eq_ok.mp h
  cases h
  obtain ⟨-,hswap⟩ := then_eq_ok.mp hswap
  obtain ⟨-,hswap⟩ := then_eq_ok.mp hswap
  cases hswap
  exact ⟨rfl,main,secondary,orElse_eq_ok.mp hmain,orElse_eq_ok.mp hsecondary⟩

section Runs
variable {settings : Config} {main secondary sid id : Str} {mtext : Text} {hashes : List Str}

/-- The disk after the turn of one watched path. -/
def folderDone (sha : Sha256) (prim : Primitives) (cfg : Config) (env : CycleEnv) (w : WatchedPath)
    (disk : Disk Text) : Disk Text :=
  match destinationFor cfg w with
  | .ok d => (Disk.at d.path (backupOneFolder sha prim (jobFor cfg w d) (env.folder w)) disk).store
  | .error _ => disk

/-- Each source in its turn is seen to list fewer versions than its limit. -/
def RoomForAll (sha : Sha256) (prim : Primitives) (cfg : Config) (env : CycleEnv) :
    List WatchedPath → Disk Text → Prop
  | [],_ => True
  | w::ws,disk =>
      (∀ d, destinationFor cfg w = .ok d →
        BelowLimit sha (jobFor cfg w d) (env.folder w) (disk.store d.path)) ∧
        RoomForAll sha prim cfg env ws (folderDone sha prim cfg env w disk)

/-- The disks on which cycles and replications can be found, if retention has nothing to do. -/
inductive Later [DecidableEq Text] (sha : Sha256) (prim : Primitives) (cfg : Config)
    (start : Disk Text) : Disk Text → Prop
  | start : Later sha prim cfg start start
  | cycle {disk t : Disk Text} (env : CycleEnv) : Later sha prim cfg start disk →
      RoomForAll sha prim cfg env (enabledWatched cfg) disk →
      t ∈ (runBackupCycle sha prim cfg env disk).states → Later sha prim cfg start t
  | replication {disk t : Disk Text} (env : ReplicationEnv) : Later sha prim cfg start disk →
      t ∈ (replicateConfiguredStores sha prim cfg env disk).states → Later sha prim cfg start t

/-- Both stores list the version with this manifest, and the first has the blobs. -/
structure Paired (sha : Sha256) (prim : Primitives) (codec : BlobCodec) (main secondary : Str)
    (sid id : Str) (mtext : Text) (hashes : List Str) (disk : Disk Text) : Prop where
  main : Kept sha prim codec sid id mtext hashes (disk.store main)
  secondary : Kept sha prim codec sid id mtext [] (disk.store secondary)

/-- An operation on one store that keeps the version there. -/
theorem paired_at {ε α : Type} {codec : BlobCodec} {root : Str} {op : Action (Store Text) ε α}
    (hp : Paired sha prim codec main secondary sid id mtext hashes disk)
    (hop : ∀ hashes, root = main ∨ root = secondary →
      Kept sha prim codec sid id mtext hashes (disk.store root) →
      ∀ t ∈ (op (disk.store root)).states, Kept sha prim codec sid id mtext hashes t) :
    Triple (fun t => t = disk) (Disk.at root op)
      (fun _ => Paired sha prim codec main secondary sid id mtext hashes)
      (Paired sha prim codec main secondary sid id mtext hashes) := by
  have hset : ∀ t ∈ (op (disk.store root)).states,
      Paired sha prim codec main secondary sid id mtext hashes (disk.setStore root t) := by
    intro t ht
    constructor
    · by_cases he : main = root
      · subst he
        rw [Disk.store_setStore_self]
        exact hop hashes (.inl rfl) hp.main t ht
      · rw [Disk.store_setStore_of_ne he]
        exact hp.main
    · by_cases he : secondary = root
      · subst he
        rw [Disk.store_setStore_self]
        exact hop [] (.inr rfl) hp.secondary t ht
      · rw [Disk.store_setStore_of_ne he]
        exact hp.secondary
  have hop := @triple_of_states (Store Text) ε α
    (fun t => Paired sha prim codec main secondary sid id mtext hashes (disk.setStore root t)) op
    (disk.store root) hset
  refine triple_conseq (spec_zoom (Disk.store · root) (Disk.setStore root) hop rfl) (fun _ h => h)
    ?_ ?_
  · rintro a t ⟨u,rfl,hu⟩
    exact hu
  · rintro t ⟨u,rfl,hu⟩
    exact hu

section Cycle
variable {cycleEnv : CycleEnv}

theorem paired_backupWatched [DecidableEq Text] {w : WatchedPath}
    (hroom : ∀ d, destinationFor settings w = .ok d →
      BelowLimit sha (jobFor settings w d) (cycleEnv.folder w) (disk.store d.path))
    (hp : Paired sha prim settings.codec main secondary sid id mtext hashes disk)
    (result : BackupCycleResult) :
    Triple (fun t => t = disk) (backupWatched sha prim settings cycleEnv result w)
      (fun _ t => Paired sha prim settings.codec main secondary sid id mtext hashes t ∧
        t = folderDone sha prim settings cycleEnv w disk)
      (Paired sha prim settings.codec main secondary sid id mtext hashes) := by
  refine triple_lift_bind (fun t ht => ht ▸ hp) fun d hd => ?_
  have hkept : ∀ hashes, d.path = main ∨ d.path = secondary →
      Kept sha prim settings.codec sid id mtext hashes (disk.store d.path) →
      ∀ t ∈ (backupOneFolder sha prim (jobFor settings w d) (cycleEnv.folder w)
        (disk.store d.path)).states, Kept sha prim settings.codec sid id mtext hashes t :=
    fun hashes _ hk => kept_backup (hroom d hd) hk
  refine triple_bind (R := fun _ t =>
    Paired sha prim settings.codec main secondary sid id mtext hashes t ∧
      t = folderDone sha prim settings cycleEnv w disk) ?_ fun r => ?_
  · apply spec_mapFailure
    refine spec_post (Spec.remember (paired_at hp hkept) rfl) ?_
    rintro r t ⟨hr,ht⟩
    refine ⟨ht,?_⟩
    rw [folderDone,hd]
    exact hr.2.symm
  · exact triple_check_bind (fun _ h => h.1) fun _ => triple_pure _ fun _ h => h

/-- The loop over the watched paths, each in the state the ones before it have left. -/
theorem paired_folders [DecidableEq Text] {ws : List WatchedPath}
    (hroom : RoomForAll sha prim settings cycleEnv ws disk)
    (hp : Paired sha prim settings.codec main secondary sid id mtext hashes disk)
    (result : BackupCycleResult) :
    Triple (fun t => t = disk) (ws.foldlM (backupWatched sha prim settings cycleEnv) result)
      (fun _ => Paired sha prim settings.codec main secondary sid id mtext hashes)
      (Paired sha prim settings.codec main secondary sid id mtext hashes) := by
  induction ws generalizing disk result with
  | nil => exact triple_pure result fun t ht => ht ▸ hp
  | cons w ws ih =>
      rw [List.foldlM_cons]
      refine triple_bind (paired_backupWatched hroom.1 hp result) fun result' => ?_
      apply triple_forall
      rintro t ⟨ht,rfl⟩
      exact ih hroom.2 ht result'

theorem paired_cycle [DecidableEq Text] {t : Disk Text}
    (hroom : RoomForAll sha prim settings cycleEnv (enabledWatched settings) disk)
    (hp : Paired sha prim settings.codec main secondary sid id mtext hashes disk)
    (ht : t ∈ (runBackupCycle sha prim settings cycleEnv disk).states) :
    Paired sha prim settings.codec main secondary sid id mtext hashes t := by
  have hrun : Triple (fun t => t = disk) (runBackupCycle sha prim settings cycleEnv)
      (fun _ => Paired sha prim settings.codec main secondary sid id mtext hashes)
      (Paired sha prim settings.codec main secondary sid id mtext hashes) :=
    triple_lift_bind (fun t ht => ht ▸ hp) fun _ _ => paired_folders hroom hp _
  exact hrun.states (fun _ _ h => h) rfl ht

end Cycle

section Replications

/-- Onto one of the two stores only the other one is replicated. -/
def Closed (cfg : Config) (main secondary : Str) : Prop :=
  ∀ p ∈ configuredPairs cfg, ∀ dst, p.dst = some dst → dst.path = main ∨ dst.path = secondary →
    p.src.path = main ∨ p.src.path = secondary

theorem keeps_attemptPair [DecidableEq Text] (hclosed : Closed settings main secondary)
    {p : PairAttempt} (hmem : p ∈ configuredPairs settings) (env : PairEnv) :
    Keeps (Paired sha prim settings.codec main secondary sid id mtext hashes)
      (attemptPair sha prim settings p env) := by
  unfold attemptPair
  cases hdst : p.dst with
  | none => exact keeps_pure _
  | some dst =>
      apply triple_forall
      intro disk hp
      refine triple_read_bind ?_
      rintro start rfl
      refine triple_bind (R := fun _ =>
        Paired sha prim settings.codec main secondary sid id mtext hashes) ?_
        fun outcome => triple_pure _ fun _ h => h
      refine spec_pre (triple_attempt (paired_at hp ?_) fun _ _ h => h) (fun _ h => h.1)
      intro hashes hroot hk t ht
      have hsrc : IndexLists (start.store p.src.path) sid id ∧
          ((start.store p.src.path).dir sid).manifests[manifestName id]? = some mtext := by
        rcases hclosed p hmem dst hdst hroot with he | he
        · rw [he]
          exact ⟨hp.main.listed,hp.main.manifest⟩
        · rw [he]
          exact ⟨hp.secondary.listed,hp.secondary.manifest⟩
      exact (keeps_replicateOnePair (undisturbed_kept hsrc.1 hsrc.2) p.src.id).states hk ht

theorem paired_replication [DecidableEq Text] {t : Disk Text} {env : ReplicationEnv}
    (hclosed : Closed settings main secondary)
    (hp : Paired sha prim settings.codec main secondary sid id mtext hashes disk)
    (ht : t ∈ (replicateConfiguredStores sha prim settings env disk).states) :
    Paired sha prim settings.codec main secondary sid id mtext hashes t := by
  have hrun : Keeps (Paired sha prim settings.codec main secondary sid id mtext hashes)
      (replicateConfiguredStores sha prim settings env) := by
    unfold replicateConfiguredStores
    split
    · refine keeps_check_bind fun _ => keeps_bind (keeps_foldlM_mem ?_ _) fun _ => keeps_pure _
      intro summary item hitem
      exact keeps_bind (keeps_attemptPair hclosed (List.fst_mem_of_mem_zipIdx hitem) _)
        fun _ => keeps_pure _
    · exact keeps_pure _
  exact hrun.states hp ht

end Replications

end Runs

/-- The version has this manifest, and every blob it names decodes to its hash. -/
def RestorableAs (sha : Sha256) (prim : Primitives) (codec : BlobCodec) (sid id : Str) (mtext : Text)
    (st : Store Text) : Prop :=
  (st.dir sid).manifests[manifestName id]? = some mtext ∧
    ∃ m, StoreText.readManifest mtext = some m ∧
      ∀ hash ∈ fileHashes m, GoodBlob sha prim codec st hash

/-- What the main store lists the secondary store lists too, with the same manifest file. -/
def CoversMain (disk : Disk Text) (main secondary : Str) : Prop :=
  ∀ (sid id : Str) (mtext : Text), IndexLists (disk.store main) sid id →
    ((disk.store main).dir sid).manifests[manifestName id]? = some mtext →
    IndexLists (disk.store secondary) sid id ∧
      ((disk.store secondary).dir sid).manifests[manifestName id]? = some mtext

theorem paired_later [DecidableEq Text] {settings : Config} {main secondary sid id : Str}
    {mtext : Text} {hashes : List Str} {t : Disk Text} (hclosed : Closed settings main secondary)
    (hp : Paired sha prim settings.codec main secondary sid id mtext hashes disk)
    (ht : Later sha prim settings disk t) :
    Paired sha prim settings.codec main secondary sid id mtext hashes t := by
  induction ht with
  | start => exact hp
  | cycle env _ hroom ht ih => exact paired_cycle hroom ih ht
  | replication env _ ht ih => exact paired_replication hclosed ih ht

/-- After an accepted promotion every version of the former main store stays restorable, if the
promoted store lists it with the same manifest and no third store is replicated onto the two. The
stores are those of the folders that the paths of the destinations lead to. -/
theorem promotion_keeps_versions [DecidableEq Text]
    (h : verifySecondaryCanBeMain sha prim env cfg index disk = .ok (next,checked))
    (hcond : ∀ main secondary, cfg.settings.destinations[0]? = some main →
      cfg.settings.destinations[index]? = some secondary →
      CoversMain disk (env.place main.path) (env.place secondary.path) ∧
        Closed (resolvedBy env.place next.settings) (env.place main.path) (env.place secondary.path))
    {t : Disk Text} (ht : Later sha prim (resolvedBy env.place next.settings) disk t) :
    ∃ main secondary, cfg.settings.destinations[0]? = some main ∧
      cfg.settings.destinations[index]? = some secondary ∧
      ∀ (sid id : Str) (mtext : Text), IndexLists (disk.store (env.place main.path)) sid id →
        RestorableAs sha prim cfg.settings.codec sid id mtext (disk.store (env.place main.path)) →
        ∃ root, (root = env.place main.path ∨ root = env.place secondary.path) ∧
          IndexLists (t.store root) sid id ∧
          RestorableAs sha prim cfg.settings.codec sid id mtext (t.store root) := by
  obtain ⟨rfl,main,secondary,hmain,hsecondary⟩ := verifySecondaryCanBeMain_eq_ok h
  obtain ⟨hcovers,hclosed⟩ := hcond main secondary hmain hsecondary
  refine ⟨main,secondary,hmain,hsecondary,?_⟩
  rintro sid id mtext hlisted ⟨hmanifest,m,hread,hgood⟩
  obtain ⟨hlisted',hmanifest'⟩ := hcovers sid id mtext hlisted hmanifest
  have hp : Paired sha prim cfg.settings.codec (env.place main.path) (env.place secondary.path) sid id
      mtext (fileHashes m) disk := ⟨⟨hlisted,hmanifest,hgood⟩,⟨hlisted',hmanifest',by simp⟩⟩
  have hkept := (paired_later hclosed hp ht).main
  exact ⟨env.place main.path,.inl rfl,hkept.listed,hkept.manifest,m,hread,hkept.good⟩

def recoveryConfig : SavedConfig :=
  ⟨{mirroredConfig [notesTo "main"] with maxBackupsPerFile := 10},"/mnt/main".toList,60,false⟩

def laterEnv : BackupEnv := calmEnv "ho" 8 1767323046 secondLater

def recoveryJob : FolderJob := {notesJob with keepVersions := 10}

/-- The store with the first backup and a later one. -/
def twoVersions : Store PlainText :=
  (backupOneFolder notesSha .transparent recoveryJob laterEnv firstStore).store

/-- The store with the later backup alone. -/
def laterVersion : Store PlainText :=
  (backupOneFolder notesSha .transparent recoveryJob laterEnv .empty).store

def bothStores (main secondary : Store PlainText) : Disk PlainText :=
  (Disk.setStore "/mnt/main".toList main ∅).setStore "/mnt/copy".toList secondary

def calmPromotion : PromotionEnv where
  place path := path
  isDirectory _ := true
  canonical := some
  indexSeen _ _ := true
  indexReadable _ _ := true
  probe := ⟨fun _ => true,fun _ => false,fun _ => true⟩
  scrub := calmScrub
  sampleBlobs := 64
  sampleVersionsPerSource := 1

def evenLater : VersionStamp := ⟨"20260102-030407-000000000".toList,by decide⟩

/-- The source is as it was at the later backup. -/
def quietCycle : CycleEnv :=
  {calmCycle with folder := fun _ => calmEnv "ho" 8 1767323047 evenLater}

def promotedConfig : Config := (swapped recoveryConfig 1).settings

def cycled (disk : Disk PlainText) : Disk PlainText :=
  (runBackupCycle notesSha .transparent promotedConfig quietCycle disk).store

def replicated (disk : Disk PlainText) : Disk PlainText :=
  (replicateConfiguredStores notesSha .transparent promotedConfig calmReplication
    (cycled disk)).store

theorem accepted_of_checked {disk : Disk PlainText} {n : Nat}
    (h : (verifySecondaryCanBeMain notesSha .transparent calmPromotion recoveryConfig 1 disk).map
      Prod.snd = .ok n) :
    verifySecondaryCanBeMain notesSha .transparent calmPromotion recoveryConfig 1 disk =
      .ok (swapped recoveryConfig 1,n) := by
  obtain ⟨⟨next,checked⟩,hok,rfl⟩ := map_eq_ok.mp h
  obtain ⟨rfl,-⟩ := verifySecondaryCanBeMain_eq_ok hok
  exact hok

theorem later_replicated {disk : Disk PlainText}
    (h : (listedVersions (disk.store "/mnt/copy".toList) notesId).length < 10) :
    Later notesSha .transparent promotedConfig disk (replicated disk) := by
  have hroom : RoomForAll notesSha .transparent promotedConfig quietCycle
      (enabledWatched promotedConfig) disk := by
    refine ⟨?_,trivial⟩
    rintro d ⟨⟩
    exact ⟨nofun,h⟩
  have hcycle : Later notesSha .transparent promotedConfig disk (cycled disk) :=
    .cycle quietCycle .start hroom (List.mem_append_right _ (List.mem_singleton_self _))
  exact .replication calmReplication hcycle (List.mem_append_right _ (List.mem_singleton_self _))

/-- A secondary store that was a replica loses nothing. -/
theorem promotion_keeps_versions_replica :
    ∃ root, (root = "/mnt/main".toList ∨ root = "/mnt/copy".toList) ∧
      IndexLists ((replicated (bothStores twoVersions twoVersions)).store root) notesId
        morning.text ∧
      Restorable notesSha .transparent recoveryConfig.settings.codec notesId morning.text
        ((replicated (bothStores twoVersions twoVersions)).store root) := by
  have haccepted := @accepted_of_checked (bothStores twoVersions twoVersions) 2 (by decide +kernel)
  have hlisted : IndexLists ((bothStores twoVersions twoVersions).store "/mnt/main".toList)
      notesId morning.text := by decide +kernel
  have hrestorable : Restorable notesSha .transparent recoveryConfig.settings.codec notesId
      morning.text ((bothStores twoVersions twoVersions).store "/mnt/main".toList) := by
    decide +kernel
  have hsame : (bothStores twoVersions twoVersions).store "/mnt/copy".toList =
      (bothStores twoVersions twoVersions).store "/mnt/main".toList := by
    rw [bothStores,Disk.store_setStore_self,Disk.store_setStore_of_ne (by decide),
      Disk.store_setStore_self]
  have hcond : ∀ main secondary, recoveryConfig.settings.destinations[0]? = some main →
      recoveryConfig.settings.destinations[1]? = some secondary →
      CoversMain (bothStores twoVersions twoVersions) main.path secondary.path ∧
        Closed (swapped recoveryConfig 1).settings main.path secondary.path := by
    rintro main secondary ⟨⟩ ⟨⟩
    constructor
    · intro sid id mtext hid hmanifest
      rw [hsame]
      exact ⟨hid,hmanifest⟩
    · intro p hp dst _ _
      obtain rfl := List.mem_singleton.mp hp
      exact .inr rfl
  obtain ⟨main,secondary,hmain,hsecondary,hkept⟩ :=
    promotion_keeps_versions haccepted hcond (later_replicated (by decide +kernel))
  cases hmain
  cases hsecondary
  obtain ⟨mtext,m,hmanifest,hread,hgood⟩ := hrestorable
  obtain ⟨root,hroot,hindex,hfile,m',hread',hgood'⟩ :=
    hkept notesId morning.text mtext hlisted ⟨hmanifest,m,hread,hgood⟩
  exact ⟨root,hroot,hindex,mtext,m',hfile,hread',hgood'⟩

/-- The secondary store has a backup as new as the main one but not the first version. After one
cycle without changes and one replication, the first version is gone from both. -/
theorem promotion_drops_older_version :
    verifySecondaryCanBeMain notesSha .transparent calmPromotion recoveryConfig 1
      (bothStores twoVersions laterVersion) = .ok (swapped recoveryConfig 1,1) ∧
    IndexLists ((bothStores twoVersions laterVersion).store "/mnt/main".toList) notesId
      morning.text ∧
    Restorable notesSha .transparent recoveryConfig.settings.codec notesId morning.text
      ((bothStores twoVersions laterVersion).store "/mnt/main".toList) ∧
    Later notesSha .transparent promotedConfig (bothStores twoVersions laterVersion)
      (replicated (bothStores twoVersions laterVersion)) ∧
    ∀ root ∈ ["/mnt/main".toList,"/mnt/copy".toList],
      ¬ Restorable notesSha .transparent recoveryConfig.settings.codec notesId morning.text
        ((replicated (bothStores twoVersions laterVersion)).store root) := by
  refine ⟨accepted_of_checked (by decide +kernel),by decide +kernel,by decide +kernel,
    later_replicated (by decide +kernel),by decide +kernel⟩

end Promotion
end BackupSync
