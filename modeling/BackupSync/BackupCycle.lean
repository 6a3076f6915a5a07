import BackupSync.Replication

/-!
# The cycle over all watched paths and the replication that follows

run_backup_cycle backs up every enabled watched path to its destination, in the
order of the configuration, and stops at the first error. After it
replicate_configured_stores attempts every configured pair of destinations in
order; a pair that fails is recorded and the next one is tried.

The state is the set of destinations, by path. Two destinations with one path
share their store.
-/
namespace BackupSync
open Checks Interruptible Interruptible.Action SafetyBaseline BackupFolder Replication
  BackupSync.Configuration

inductive CycleError where
  | missingDestination (id : Str)
  | freeSpaceQuery (path : Str)
  | belowMinimum (path : Str) (free minimum : Nat)
  | acquireLeases
  | codec
  | folder (error : StoreError)
  | readableView (path : Str)
  deriving DecidableEq, Repr

structure BackupCycleResult where
  foldersScanned : Nat
  versionsCreated : Nat
  blobsWritten : Nat
  bytesWritten : Nat
  safetyWarnings : List SafetyWarning
  deriving DecidableEq, Repr

/-- What a cycle meets: free space, locks, and each watched path in its turn. -/
structure CycleEnv where
  canonical : Str → Option Str
  freeSpace : Str → Option Nat
  leased : Bool
  codecLoaded : Bool
  folder : WatchedPath → BackupEnv
  viewSynced : WatchedPath → Bool

structure ReplicationSummary where
  pairsAttempted : Nat
  pairsOk : Nat
  pairsFailed : Nat
  manifestsCopied : Nat
  blobsCopied : Nat
  bytesCopied : Nat
  manifestsDeleted : Nat
  targetsFailed : List Str
  message : Str
  deriving DecidableEq, Repr

/-- A configured pair, with the target where its id is known. -/
structure PairAttempt where
  src : Destination
  targetId : Str
  dst : Option Destination
  deriving DecidableEq, Repr

/-- The outcomes of a replication, by the position of the pair. -/
structure ReplicationEnv where
  leased : Bool
  pair : Nat → PairEnv

namespace BackupCycle

variable {Text : Type} [StoreText Text] [DecidableEq Text] (sha : Sha256) (prim : Primitives)
  (cfg : Config)

def enabledWatched : List WatchedPath := cfg.watched.filter (·.enabled)

def destinationFor (w : WatchedPath) : Except CycleError Destination :=
  orElse (destinationById cfg w.destinationId) (.missingDestination w.destinationId)

def ensureDestinationFreeSpace (env : CycleEnv) (minimum : Nat) (path : Str) :
    Except CycleError Unit := do
  let free ← orElse (env.freeSpace path) (.freeSpaceQuery path)
  require (minimum ≤ free) (.belowMinimum path free minimum)

/-- Each resolved path is checked once. -/
def checkFreeSpace (env : CycleEnv) (minimum : Nat) :
    List Str → List Destination → Except CycleError Unit
  | _,[] => .ok ()
  | seen,d::ds =>
      let unique := (env.canonical d.path).getD d.path
      if unique ∈ seen then checkFreeSpace env minimum seen ds
      else do
        ensureDestinationFreeSpace env minimum d.path
        checkFreeSpace env minimum (unique::seen) ds

/-- Everything that is settled before the first folder. -/
def prepareCycle (env : CycleEnv) : Except CycleError Unit := do
  let destinations ← (enabledWatched cfg).mapM (destinationFor cfg)
  match cfg.minFreeSpaceBytes with
  | some minimum => checkFreeSpace env minimum [] destinations
  | none => .ok ()
  require env.leased .acquireLeases
  require env.codecLoaded .codec

def jobFor (w : WatchedPath) (d : Destination) : FolderJob where
  watched := w
  keepVersions := (w.maxBackupsPerFile.or d.maxBackupsPerFile).getD cfg.maxBackupsPerFile
  scan := cfg.scan
  threshold := cfg.safetyThreshold
  codec := cfg.codec

def countFolder (cycle : BackupCycleResult) (r : FolderBackupResult) : BackupCycleResult where
  foldersScanned := cycle.foldersScanned+1
  versionsCreated := cycle.versionsCreated+if r.changed then 1 else 0
  blobsWritten := cycle.blobsWritten+r.blobsWritten
  bytesWritten := cycle.bytesWritten+r.bytesWritten
  safetyWarnings := cycle.safetyWarnings++r.safetyWarning.toList

/-- The body of the loop over the watched paths. -/
def backupWatched (env : CycleEnv) (cycle : BackupCycleResult) (w : WatchedPath) :
    Action (Disk Text) CycleError BackupCycleResult := do
  let d ← lift (destinationFor cfg w)
  let r ← mapFailure .folder (Disk.at d.path
    (backupOneFolder sha prim (jobFor cfg w d) (env.folder w)))
  check (env.viewSynced w) (.readableView w.path)
  return countFolder cycle r

def runBackupCycle (env : CycleEnv) : Action (Disk Text) CycleError BackupCycleResult := do
  lift (prepareCycle cfg env)
  (enabledWatched cfg).foldlM (backupWatched sha prim cfg env) ⟨0,0,0,0,[]⟩

/-- The attempts in the order of the configuration. -/
def configuredPairs : List PairAttempt :=
  cfg.destinations.flatMap fun src =>
    src.replicateTo.map fun target => ⟨src,target,destinationById cfg target⟩

/-- One attempt; an unknown target is not tried and a failure is not passed on. -/
def attemptPair (p : PairAttempt) (env : PairEnv) :
    Action (Disk Text) ReplicationError (Option (Except ReplicationError PairCounters)) :=
  match p.dst with
  | none => pure none
  | some dst => do
      let disk ← read
      let outcome ← attempt (Disk.at dst.path
        (replicateOnePair sha prim cfg.codec (disk.store p.src.path) env cfg p.src.id))
      return some outcome

def countPair (summary : ReplicationSummary) (p : PairAttempt) :
    Option (Except ReplicationError PairCounters) → ReplicationSummary
  | some (.ok pair) => {summary with
      pairsAttempted := summary.pairsAttempted+1
      pairsOk := summary.pairsOk+1
      manifestsCopied := summary.manifestsCopied+pair.manifestsCopied
      blobsCopied := summary.blobsCopied+pair.blobsCopied
      bytesCopied := saturatingAdd summary.bytesCopied pair.bytesCopied
      manifestsDeleted := summary.manifestsDeleted+pair.manifestsDeleted}
  | _ => {summary with
      pairsAttempted := summary.pairsAttempted+1
      pairsFailed := summary.pairsFailed+1
      targetsFailed := summary.targetsFailed++[p.targetId]}

def replicatePair (env : ReplicationEnv) (summary : ReplicationSummary) (item : PairAttempt × Nat) :
    Action (Disk Text) ReplicationError ReplicationSummary := do
  let outcome ← attemptPair sha prim cfg item.1 (env.pair item.2)
  return countPair summary item.1 outcome

def replicationMessage (summary : ReplicationSummary) : Str :=
  "replication pairs_ok=".toList++Nat.toDigits 10 summary.pairsOk++
    "/".toList++Nat.toDigits 10 summary.pairsAttempted++
    " manifests_copied=".toList++Nat.toDigits 10 summary.manifestsCopied++
    " blobs_copied=".toList++Nat.toDigits 10 summary.blobsCopied++
    " bytes_copied=".toList++Nat.toDigits 10 summary.bytesCopied++
    " manifests_deleted=".toList++Nat.toDigits 10 summary.manifestsDeleted++
    " targets_failed=".toList++Nat.toDigits 10 summary.targetsFailed.length

def replicateConfiguredStores (env : ReplicationEnv) :
    Action (Disk Text) ReplicationError ReplicationSummary :=
  if cfg.replicationEnabled then do
    check env.leased .leases
    let summary ← (configuredPairs cfg).zipIdx.foldlM (replicatePair sha prim cfg env)
      ⟨0,0,0,0,0,0,0,[],[]⟩
    return {summary with message := replicationMessage summary}
  else return ⟨0,0,0,0,0,0,0,[],
    "replication disabled (runtime.replication_enabled=false)".toList⟩

end BackupCycle
end BackupSync
