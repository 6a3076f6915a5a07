import BackupSync.BackupCycle

/-!
# The simulated cycle

simulate_backup_cycle loads the index and the latest manifest of every enabled
watched path, scans the source and counts what a backup would do, without
writing anything. Its change detection and its count of missing blobs are a loop
of their own over the entries of the new snapshot; every blob is looked up in
the store as it is before the cycle.
-/
namespace BackupSync
open Checks Interruptible Interruptible.Action ContentHash ScanSnapshot SafetyBaseline BackupFolder
  BackupCycle

structure SimulationSummary where
  watched : Nat
  versionsWouldCreate : Nat
  adds : Nat
  modifies : Nat
  deletes : Nat
  items : Nat
  blobsToWrite : Nat
  bytesToWrite : Nat
  sample : List Str
  readFailures : Nat
  snapshotErrors : Nat
  deriving DecidableEq, Repr

/-- What the simulation of one watched path meets. -/
structure PreviewEnv where
  indexAccess : Access
  latestAccess : Access
  view : Except Str (Option SourceSnapshotInfo × Option Str)
  source : SourceContents
  scannedAt : Int

structure SimulationEnv where
  home : Option Str
  sampleLimit : Nat
  folder : WatchedPath → PreviewEnv

/-- The counts of one watched path, with the sample of its changes. -/
structure SimulationDiff where
  adds : Nat
  modifies : Nat
  deletes : Nat
  blobsToWrite : Nat
  bytesToWrite : Nat
  sample : List Str
  deriving DecidableEq, Repr

/-- A watched path with its destination and what the scan compares. -/
structure FolderPlan where
  watched : WatchedPath
  destination : Destination
  scanned : Scanned
  deriving DecidableEq

def FolderPlan.wouldCreate (p : FolderPlan) : Bool := !unchanged p.scanned.prev p.scanned.snapshot

namespace BackupPreview

variable {Text : Type} [StoreText Text] (sha : Sha256) (cfg : Config) (env : SimulationEnv)

/-- Path::join on the texts of two paths. -/
def joinPath (base rel : Str) : Str :=
  if rel.head? = some '/' then rel
  else if base.getLast? = some '/' then base++rel
  else base ++ '/' :: rel

def redactPath (home : Option Str) (raw : Str) : Str :=
  match home with
  | some h => if h.isPrefixOf raw then '~'::raw.drop h.length else raw
  | none => raw

def formatChangeSample (home : Option Str) (mark : Char) (watched : WatchedPath) (relPath : Str) :
    Str :=
  let full := match watched.kind with
    | .file => watched.path
    | .directory => joinPath watched.path relPath
  mark :: ' ' :: redactPath home full

/-- How an entry differs from the previous one under its key. -/
def changeOf (prev : Option Manifest) (item : Str × ManifestEntry) : Option Char :=
  match prevAt prev item.1 with
  | none => some '+'
  | some p =>
      if p.kind ≠ item.2.kind ∨ (item.2.kind = .file ∧ p.sha256 ≠ item.2.sha256) then some '~'
      else none

/-- The blob of a file. -/
def blobOf (e : ManifestEntry) : Option BlobPath :=
  if e.kind = .file then e.sha256.map (blobPath sha) else none

def addSample (limit : Nat) (text : Str) (sample : List Str) : List Str :=
  if sample.length < limit then sample++[text] else sample

def countBlob (blobs : Map BlobPath Bytes) (e : ManifestEntry)
    (d : SimulationDiff) : SimulationDiff :=
  match blobOf sha e with
  | none => d
  | some path =>
      if path ∈ blobs then d
      else {d with
        blobsToWrite := d.blobsToWrite+1
        bytesToWrite := saturatingAdd d.bytesToWrite e.len}

def countEntry (home : Option Str) (watched : WatchedPath) (prev : Option Manifest)
    (blobs : Map BlobPath Bytes) (limit : Nat) (d : SimulationDiff)
    (item : Str × ManifestEntry) : SimulationDiff :=
  match changeOf prev item with
  | none => d
  | some mark =>
      let counted := countBlob sha blobs item.2 {d with
        adds := d.adds+if mark = '+' then 1 else 0
        modifies := d.modifies+if mark = '+' then 0 else 1}
      {counted with
        sample := addSample limit (formatChangeSample home mark watched item.2.relPath)
          counted.sample}

def countDeleted (home : Option Str) (watched : WatchedPath) (next : Manifest) (limit : Nat)
    (d : SimulationDiff) (item : Str × ManifestEntry) : SimulationDiff :=
  if item.1 ∈ next.entries then d
  else {d with
    deletes := d.deletes+1
    sample := addSample limit (formatChangeSample home '-' watched item.2.relPath) d.sample}

def diffForSimulation (home : Option Str) (watched : WatchedPath) (prev : Option Manifest)
    (next : Manifest) (blobs : Map BlobPath Bytes) (limit : Nat) :
    SimulationDiff :=
  let counted := next.entries.toList.foldl (countEntry sha home watched prev blobs limit)
    ⟨0,0,0,0,0,[]⟩
  match prev with
  | none => counted
  | some p => p.entries.toList.foldl (countDeleted home watched next limit) counted

/-- From the configuration to the scanned snapshot of one watched path. -/
def scanForSimulation (disk : Disk Text) (w : WatchedPath) : Except CycleError FolderPlan := do
  let d ← destinationFor cfg w
  let dir := (disk.store d.path).dir (sourceId sha w.path)
  let index ← (loadIndex (env.folder w).indexAccess w.path dir).mapError .folder
  let prev ← (latestManifest (env.folder w).latestAccess dir index).mapError .folder
  let view ← (env.folder w).view.mapError fun message => .folder (.prepareSourceView message)
  let next ← (scanSnapshot sha cfg.scan w (env.folder w).source prev (env.folder w).scannedAt).mapError
    fun message => .folder (.buildIgnoreSet message)
  return ⟨w,d,index,prev,{next with sourceSnapshot := view.1, sourceSnapshotError := view.2}⟩

/-- The counters of the summary after one watched path, with what is left of the sample. -/
def countPlan (disk : Disk Text) (acc : SimulationSummary × Nat) (p : FolderPlan) :
    SimulationSummary × Nat :=
  let diff := diffForSimulation sha env.home p.watched p.scanned.prev p.scanned.snapshot
    (disk.store p.destination.path).blobs acc.2
  let taken := min acc.2 diff.sample.length
  ({acc.1 with
    watched := acc.1.watched+1
    readFailures := acc.1.readFailures+p.scanned.snapshot.readFailures.length
    snapshotErrors := acc.1.snapshotErrors+
      if p.scanned.snapshot.sourceSnapshotError.isSome then 1 else 0
    versionsWouldCreate := acc.1.versionsWouldCreate+if p.wouldCreate then 1 else 0
    adds := acc.1.adds+diff.adds
    modifies := acc.1.modifies+diff.modifies
    deletes := acc.1.deletes+diff.deletes
    items := acc.1.items+(diff.adds+diff.modifies+diff.deletes)
    blobsToWrite := acc.1.blobsToWrite+diff.blobsToWrite
    bytesToWrite := acc.1.bytesToWrite+diff.bytesToWrite
    sample := acc.1.sample++diff.sample.take taken},acc.2-taken)

def simulateWatched (disk : Disk Text) (acc : SimulationSummary × Nat) (w : WatchedPath) :
    Except CycleError (SimulationSummary × Nat) := do
  let p ← scanForSimulation sha cfg env disk w
  return countPlan sha env disk acc p

def SimulationSummary.start : SimulationSummary := ⟨0,0,0,0,0,0,0,0,[],0,0⟩

def simulateBackupCycle : Action (Disk Text) CycleError SimulationSummary := do
  let disk ← read
  let acc ← lift ((enabledWatched cfg).foldlM (simulateWatched sha cfg env disk)
    (SimulationSummary.start,env.sampleLimit))
  return acc.1

section Counts
variable {sha cfg env} {home : Option Str} {watched : WatchedPath} {prev : Option Manifest}
  {next : Manifest} {blobs : Map BlobPath Bytes} {limit : Nat}

/-- The blobs of the changed files, one for each file. -/
def changedBlobs (sha : Sha256) (prev : Option Manifest) (next : Manifest) : List BlobPath :=
  (next.entries.toList.filter fun item => (changeOf prev item).isSome).filterMap fun item =>
    blobOf sha item.2

theorem countBlob_blobsToWrite (e : ManifestEntry) (d : SimulationDiff) :
    (countBlob sha blobs e d).blobsToWrite =
      d.blobsToWrite+((blobOf sha e).toList.filter (· ∉ blobs)).length := by
  unfold countBlob
  cases blobOf sha e with
  | none => rfl
  | some path =>
      by_cases hmem : path ∈ blobs
      · simp [hmem]
      · simp [hmem]

theorem countEntry_blobsToWrite (d : SimulationDiff) (item : Str × ManifestEntry) :
    (countEntry sha home watched prev blobs limit d item).blobsToWrite =
      d.blobsToWrite+if (changeOf prev item).isSome then
        ((blobOf sha item.2).toList.filter (· ∉ blobs)).length else 0 := by
  unfold countEntry
  cases changeOf prev item with
  | none => rfl
  | some mark => exact countBlob_blobsToWrite item.2 _

theorem countDeleted_blobsToWrite (d : SimulationDiff) (item : Str × ManifestEntry) :
    (countDeleted home watched next limit d item).blobsToWrite = d.blobsToWrite := by
  unfold countDeleted
  split
  · rfl
  · rfl

theorem foldl_countDeleted_blobsToWrite (items : List (Str × ManifestEntry)) (d : SimulationDiff) :
    (items.foldl (countDeleted home watched next limit) d).blobsToWrite = d.blobsToWrite := by
  induction items generalizing d with
  | nil => rfl
  | cons item items ih => rw [List.foldl_cons,ih,countDeleted_blobsToWrite]

theorem foldl_countEntry_blobsToWrite (items : List (Str × ManifestEntry)) (d : SimulationDiff) :
    (items.foldl (countEntry sha home watched prev blobs limit) d).blobsToWrite =
      d.blobsToWrite+(((items.filter fun item => (changeOf prev item).isSome).filterMap fun item =>
        blobOf sha item.2).filter (· ∉ blobs)).length := by
  induction items generalizing d with
  | nil => rfl
  | cons item items ih =>
      rw [List.foldl_cons,ih,countEntry_blobsToWrite]
      cases hchange : (changeOf prev item).isSome with
      | false =>
          rw [List.filter_cons,hchange]
          rfl
      | true =>
          rw [List.filter_cons,hchange,if_pos rfl,if_pos rfl]
          cases hblob : blobOf sha item.2 with
          | none => simp [hblob]
          | some path =>
              by_cases hmem : path ∈ blobs
              · simp [hblob,hmem]
              · simp [hblob,hmem]
                omega

/-- The simulation counts every changed file whose blob the store lacks. -/
theorem diffForSimulation_blobsToWrite :
    (diffForSimulation sha home watched prev next blobs limit).blobsToWrite =
      ((changedBlobs sha prev next).filter (· ∉ blobs)).length := by
  unfold diffForSimulation
  cases prev with
  | none =>
      dsimp only
      rw [foldl_countEntry_blobsToWrite,Nat.zero_add]
      rfl
  | some p =>
      dsimp only
      rw [foldl_countDeleted_blobsToWrite,foldl_countEntry_blobsToWrite,Nat.zero_add]
      rfl

end Counts

section Totals
variable {sha cfg env} {disk disk' : Disk Text} {summary : SimulationSummary}

omit [StoreText Text] in
theorem foldl_countPlan (plans : List FolderPlan) (acc : SimulationSummary × Nat) :
    (plans.foldl (countPlan sha env disk) acc).1.versionsWouldCreate =
      acc.1.versionsWouldCreate+(plans.map fun p => if p.wouldCreate then 1 else 0).sum ∧
    (plans.foldl (countPlan sha env disk) acc).1.blobsToWrite =
      acc.1.blobsToWrite+(plans.map fun p =>
        ((changedBlobs sha p.scanned.prev p.scanned.snapshot).filter
          (· ∉ (disk.store p.destination.path).blobs)).length).sum := by
  induction plans generalizing acc with
  | nil => exact ⟨rfl,rfl⟩
  | cons p plans ih =>
      obtain ⟨hversions,hblobs⟩ := ih (countPlan sha env disk acc p)
      rw [List.foldl_cons,hversions,hblobs,List.map_cons,List.sum_cons,List.map_cons,List.sum_cons,
        ← Nat.add_assoc,← Nat.add_assoc,← diffForSimulation_blobsToWrite]
      exact ⟨rfl,rfl⟩

/-- The loop scans every watched path and counts what it found. -/
theorem foldlM_simulateWatched {ws : List WatchedPath} {acc acc' : SimulationSummary × Nat}
    (h : ws.foldlM (simulateWatched sha cfg env disk) acc = .ok acc') :
    ∃ plans, ws.mapM (scanForSimulation sha cfg env disk) = .ok plans ∧
      acc' = plans.foldl (countPlan sha env disk) acc := by
  induction ws generalizing acc with
  | nil =>
      cases h
      exact ⟨[],rfl,rfl⟩
  | cons w ws ih =>
      rw [List.foldlM_cons] at h
      obtain ⟨acc₁,hw,h⟩ := bind_eq_ok.mp h
      obtain ⟨p,hp,hcount⟩ := bind_eq_ok.mp hw
      cases hcount
      obtain ⟨plans,hplans,rfl⟩ := ih h
      refine ⟨p::plans,?_,rfl⟩
      rw [List.mapM_cons,hp,hplans]
      rfl

/-- A simulation leaves every store alone, whatever it runs into. -/
theorem keeps_simulateBackupCycle (I : Disk Text → Prop) :
    Keeps I (simulateBackupCycle sha cfg env) :=
  keeps_read_bind fun _ => keeps_lift_bind fun _ _ => keeps_pure _

/-- What a simulation that returns reports is the totals over its plans. -/
theorem returns_simulateBackupCycle
    (hr : Returns (simulateBackupCycle sha cfg env) disk summary disk') :
    disk' = disk ∧ ∃ plans,
      (enabledWatched cfg).mapM (scanForSimulation sha cfg env disk) = .ok plans ∧
      summary.versionsWouldCreate = (plans.map fun p => if p.wouldCreate then 1 else 0).sum ∧
      summary.blobsToWrite = (plans.map fun p =>
        ((changedBlobs sha p.scanned.prev p.scanned.snapshot).filter
          (· ∉ (disk.store p.destination.path).blobs)).length).sum := by
  obtain ⟨acc,hacc,hr⟩ := returns_lift_bind.mp (returns_read_bind.mp hr)
  obtain ⟨rfl,rfl⟩ := returns_pure.mp hr
  obtain ⟨plans,hplans,rfl⟩ := foldlM_simulateWatched hacc
  obtain ⟨hversions,hblobs⟩ := @foldl_countPlan Text sha env disk' plans
    (SimulationSummary.start,env.sampleLimit)
  refine ⟨rfl,plans,hplans,?_,?_⟩
  · rw [hversions]
    exact Nat.zero_add _
  · rw [hblobs]
    exact Nat.zero_add _

end Totals

end BackupPreview
end BackupSync
