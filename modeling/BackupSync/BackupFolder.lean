import BackupSync.ScanSnapshot
import BackupSync.SafetyBaseline
import BackupSync.GarbageCollection

/-!
# One source into the store

backup_one_folder loads the index, scans the source, writes the missing blobs,
publishes the manifest and then the index, and prunes. remove_kept_safety_version
and remove_source_history_with_commit take versions out again. Each is an action
on the store whose steps are the file operations in source order; what the
operating system and the clock answer is an explicit record.

The identifier of a new version is a clock reading, formatted, with a counter
appended while a manifest file of that name exists.
-/
namespace BackupSync
open Checks Interruptible.Action ContentHash ScanSnapshot SafetyBaseline Retention GarbageCollection

/-- A clock reading of the years 0 to 9999 in the format %Y%m%d-%H%M%S-%f. -/
structure VersionStamp where
  text : Str
  valid : VersionIndex.validateVersionId text = true
  deriving DecidableEq

/-- One attempt to encode, verify and publish a blob. -/
structure BlobAttempt where
  /-- The bytes the source held, or nothing where it could not be read. -/
  content : Option Bytes
  wishes : List Nat
  nonce : Vector UInt8 BlobCodec.streamNonceLen
  publication : Publication

structure BlobWriteEnv where
  parentCreated : Bool
  /-- The attempts in order; a missing one ran into the timeout. -/
  attempts : List (Option BlobAttempt)
  /-- The rendered error chain, should all attempts fail. -/
  message : Str

structure BackupEnv where
  indexAccess : Access
  blobDirectory : Bool
  manifestDirectory : Publication
  latestAccess : Access
  view : Except Str (Option SourceSnapshotInfo × Option Str)
  source : SourceContents
  scannedAt : Int
  stamp : VersionStamp
  blobWrites : Str → BlobWriteEnv
  safety : SafetyEnv
  manifestWrite : Publication
  indexWrite : Publication
  reportWrite : Publication
  prunedRemovable : Str → Bool
  gc : GcEnv

/-- The configuration one call depends on. -/
structure FolderJob where
  watched : WatchedPath
  keepVersions : Nat
  scan : ScanOptions
  threshold : ℚ
  codec : BlobCodec

structure FolderBackupResult where
  changed : Bool
  versionId : Option Str
  blobsWritten : Nat
  bytesWritten : Nat
  safetyWarning : Option SafetyWarning
  deriving DecidableEq, Repr

/-- The snapshot while its blobs are written, with the outcome so far. -/
structure BlobPass where
  snapshot : Manifest
  blobsWritten : Nat
  bytesWritten : Nat
  hadReadFailures : Bool

/-- What is known once the source has been scanned. -/
structure Scanned where
  index : VersionIndex
  prev : Option Manifest
  snapshot : Manifest
  deriving DecidableEq

namespace BackupFolder

variable {Text : Type} [StoreText Text] (sha : Sha256) (prim : Primitives)

def validateExpectedBlobHash (hash : Str) (path : BlobPath) : Except StoreError Unit := do
  require (isLowerHexSha256 hash) (.invalidExpectedHash hash)
  require (path.getLast? == some hash) (.blobNameMismatch hash)

def writeBlobOnce (codec : BlobCodec) (hash : Str) (path : BlobPath) (a : BlobAttempt) :
    Store.Op Text Nat := do
  lift (validateExpectedBlobHash hash path)
  let content ← lift (orElse a.content .blobAttempt)
  let blob ← lift ((BlobCodec.writeBlobFromFileToWriter prim codec a.nonce a.wishes content).mapError
    .encodeBlob)
  let actual ← lift ((BlobCodec.sha256PlaintextBlob prim sha codec blob).mapError .verifyBlob)
  check (actual == hash) (.blobIntegrity hash actual)
  publish a.publication (Store.putBlob path blob) .persistBlob
  return blob.length

def writeBlob (job : FolderJob) (hash : Str) (path : BlobPath) (env : BlobWriteEnv) :
    Store.Op Text Nat := do
  lift (validateExpectedBlobHash hash path)
  check env.parentCreated .createBlobParent
  retry (writeBlobOnce sha prim job.codec hash path) .blobTimeout
    (env.attempts.take (job.scan.retryDelays+1))

/-- The entry of a path whose blob could not be written is the previous one, if any. -/
def revertEntry (prev : Option Manifest) (relPath : Str) (entries : Entries) : Entries :=
  match prevAt prev relPath with
  | some e => entries.insert relPath e
  | none => entries.erase relPath

def failPass (pass : BlobPass) (failure : ReadFailure) (entries : Entries) : BlobPass :=
  {pass with
    hadReadFailures := true
    snapshot := {pass.snapshot with
      readFailures := pass.snapshot.readFailures++[failure]
      entries := entries}}

def missingHash (relPath : Str) : ReadFailure :=
  ⟨relPath,.blobWrite,1,"missing sha256 for file entry".toList⟩

/-- What the pass does with the outcome of one write. -/
def settleBlob (job : FolderJob) (env : BackupEnv) (prev : Option Manifest) (relPath : Str)
    (pass : BlobPass) : Except StoreError Nat → BlobPass
  | .ok bytes =>
      {pass with blobsWritten := pass.blobsWritten+1, bytesWritten := pass.bytesWritten+bytes}
  | .error _ => failPass pass
      ⟨relPath,.blobWrite,job.scan.retryDelays+1,(env.blobWrites relPath).message⟩
      (revertEntry prev relPath pass.snapshot.entries)

def writeMissingBlob (job : FolderJob) (env : BackupEnv) (prev : Option Manifest)
    (pass : BlobPass) (relPath : Str) : Store.Op Text BlobPass :=
  match pass.snapshot.entries[relPath]? with
  | none => pure pass
  | some entry => match entry.sha256 with
    | none => pure (failPass pass (missingHash relPath) (pass.snapshot.entries.erase relPath))
    | some hash => do
        let st ← read
        if blobPath sha hash ∈ st.blobs then pure pass
        else do
          let outcome ← attempt (writeBlob sha prim job hash (blobPath sha hash)
            (env.blobWrites relPath))
          pure (settleBlob job env prev relPath pass outcome)

def fileRelPaths (snapshot : Manifest) : List Str :=
  snapshot.entries.toList.filterMap fun item =>
    if item.2.kind = .file then some item.2.relPath else none

def writeMissingBlobsForSnapshot (job : FolderJob) (env : BackupEnv) (prev : Option Manifest)
    (snapshot : Manifest) : Store.Op Text BlobPass :=
  (fileRelPaths snapshot).foldlM (writeMissingBlob sha prim job env prev) ⟨snapshot,0,0,false⟩

def scanReport (snapshot : Manifest) (committed : Option Str) : LastScanReport :=
  ⟨snapshot.schemaVersion,snapshot.sourcePath,snapshot.createdAtUnix,committed,
    snapshot.sourceSnapshot,snapshot.sourceSnapshotError,snapshot.readFailures⟩

def writeScanReport (sid : Str) (p : Publication) (snapshot : Manifest) (committed : Option Str) :
    Store.Op Text Unit :=
  publish p (Store.putReport sid (StoreText.writeReport (scanReport snapshot committed)))
    .writeScanReport

def writeIndex (sid : Str) (p : Publication) (index : VersionIndex) : Store.Op Text Unit :=
  publish p (Store.putIndex sid (StoreText.writeIndex index)) .writeIndex

def writeIndexIf (changed : Bool) (sid : Str) (p : Publication) (index : VersionIndex) :
    Store.Op Text Unit :=
  if changed then writeIndex sid p index else pure ()

/-- The safety check against the previous manifest, where there is one. -/
def pinBaseline (job : FolderJob) (env : BackupEnv) (scanned : Scanned) (pass : BlobPass)
    (manifests : Map Str Text) : Option SafetyWarning × VersionIndex × Bool :=
  match scanned.prev with
  | none => (none,scanned.index,false)
  | some prev => maybePinLargeDeletionBaseline job.threshold job.watched.path env.safety prev
      pass.snapshot scanned.index manifests pass.hadReadFailures

def finishScanWithoutNewVersion (job : FolderJob) (env : BackupEnv) (scanned : Scanned)
    (pass : BlobPass) : Store.Op Text FolderBackupResult := do
  let sid := sourceId sha job.watched.path
  let st ← read
  let pin := pinBaseline job env scanned pass (st.dir sid).manifests
  writeIndexIf pin.2.2 sid env.indexWrite pin.2.1
  writeScanReport sid env.reportWrite pass.snapshot none
  return ⟨false,none,pass.blobsWritten,pass.bytesWritten,pin.1⟩

def nextVersionId (id : Str) (collision : Nat) : Str := id ++ '-' :: (toString collision).toList

/-- The loop that appends a counter while the manifest file exists. -/
def freshVersionId (manifests : Map Str Text) : Nat → Nat → Str → Str
  | 0,_,id => id
  | fuel+1,collision,id =>
      if manifestName id ∈ manifests then
        freshVersionId manifests fuel (collision+1) (nextVersionId id (collision+1))
      else id

def versionIdFor (manifests : Map Str Text) (stamp : VersionStamp) : Str :=
  freshVersionId manifests (manifests.size+1) 0 stamp.text

/-- The index with the new version in its place, before pruning. -/
def insertVersion (job : FolderJob) (index : VersionIndex) (v : VersionInfo) : VersionIndex :=
  {index with
    schemaVersion := storeSchemaVersion
    sourcePath := job.watched.path
    versions := sortVersions (index.versions++[v])}

def prunedBy (job : FolderJob) (hadReadFailures : Bool) (index : VersionIndex) :
    List VersionInfo :=
  if hadReadFailures then [] else collectPrunableVersions index job.keepVersions

def retainUnpruned (pruned : List VersionInfo) (index : VersionIndex) : VersionIndex :=
  {index with versions := index.versions.filter fun v => v.id ∉ pruned.map (·.id)}

def removePruned (env : BackupEnv) (sid : Str) (pruned : List VersionInfo) : Store.Op Text Unit :=
  pruned.foldlM (fun _ v =>
    if env.prunedRemovable v.id then step (Store.eraseManifest sid (manifestName v.id))
    else pure ()) ()

def pruneVersions (env : BackupEnv) (sid : Str) (pruned : List VersionInfo) :
    Store.Op Text Unit :=
  if pruned.isEmpty then pure ()
  else do
    removePruned env sid pruned
    gcUnreferencedBlobs env.gc

/-- The commit of a changed snapshot: manifest, index, report, retention. -/
def commitVersion (job : FolderJob) (env : BackupEnv) (scanned : Scanned) (versionId : Str)
    (pass : BlobPass) : Store.Op Text FolderBackupResult := do
  let sid := sourceId sha job.watched.path
  let st ← read
  let pin := pinBaseline job env scanned pass (st.dir sid).manifests
  publish env.manifestWrite (Store.putManifest sid (manifestName versionId)
    (StoreText.writeManifest pass.snapshot)) .writeManifest
  let index := insertVersion job pin.2.1 ⟨versionId,pass.snapshot.createdAtUnix⟩
  let pruned := prunedBy job pass.hadReadFailures index
  writeIndex sid env.indexWrite (retainUnpruned pruned index)
  writeScanReport sid env.reportWrite pass.snapshot (some versionId)
  pruneVersions env sid pruned
  return ⟨true,some versionId,pass.blobsWritten,pass.bytesWritten,pin.1⟩

def unchanged (prev : Option Manifest) (snapshot : Manifest) : Bool :=
  match prev with
  | none => false
  | some prev => prev.manifestsEquivalent snapshot

/-- From loading the index to the scanned snapshot. -/
def scanSource (job : FolderJob) (env : BackupEnv) : Store.Op Text Scanned := do
  let sid := sourceId sha job.watched.path
  let st ← read
  let index ← lift (loadIndex env.indexAccess job.watched.path (st.dir sid))
  check env.blobDirectory .createBlobDirectory
  publish env.manifestDirectory (Store.ensureDir sid) .createManifestDirectory
  let prev ← lift (latestManifest env.latestAccess (st.dir sid) index)
  let view ← lift (env.view.mapError .prepareSourceView)
  let snapshot ← lift ((scanSnapshot sha job.scan job.watched env.source prev env.scannedAt).mapError
    .buildIgnoreSet)
  return ⟨index,prev,{snapshot with sourceSnapshot := view.1, sourceSnapshotError := view.2}⟩

/-- The part of a call after a scan that found a change. -/
def writeVersion (job : FolderJob) (env : BackupEnv) (scanned : Scanned) :
    Store.Op Text FolderBackupResult := do
  let st ← read
  let versionId := versionIdFor (st.dir (sourceId sha job.watched.path)).manifests env.stamp
  let written ← writeMissingBlobsForSnapshot sha prim job env scanned.prev scanned.snapshot
  let pass := {written with
    hadReadFailures := !scanned.snapshot.readFailures.isEmpty || written.hadReadFailures}
  if unchanged scanned.prev pass.snapshot then finishScanWithoutNewVersion sha job env scanned pass
  else commitVersion sha job env scanned versionId pass

def backupOneFolder (job : FolderJob) (env : BackupEnv) : Store.Op Text FolderBackupResult := do
  let scanned ← scanSource sha job env
  if unchanged scanned.prev scanned.snapshot then
    finishScanWithoutNewVersion sha job env scanned
      ⟨scanned.snapshot,0,0,!scanned.snapshot.readFailures.isEmpty⟩
  else writeVersion sha prim job env scanned

theorem validateExpectedBlobHash_sha256Hex (content : Bytes) :
    validateExpectedBlobHash (sha256Hex sha content) (blobPath sha (sha256Hex sha content)) = .ok () := by
  have hlow : isLowerHexSha256 (sha256Hex sha content) = true := isLowerHexSha256_sha256Hex content
  refine then_eq_ok.mpr ⟨require_eq_ok.mpr hlow,require_eq_ok.mpr ?_⟩
  rw [blobPath_of_lowerHex hlow]
  simp

omit [StoreText Text] in
/-- Names already passed over are distinct and shorter, so the fuel cannot run out. -/
theorem freshVersionId_not_mem (manifests : Map Str Text) (fuel collision : Nat)
    (id : Str) (seen : List Str) (hnodup : seen.Nodup) (hseen : ∀ n ∈ seen, n ∈ manifests)
    (hshort : ∀ n ∈ seen, n.length < (manifestName id).length)
    (hfuel : manifests.size < seen.length+fuel) :
    manifestName (freshVersionId manifests fuel collision id) ∉ manifests := by
  induction fuel generalizing collision id seen with
  | zero =>
      have hsub : seen ⊆ manifests.keys := fun n hn => mem_keys.mpr (hseen n hn)
      have hle := (List.subperm_of_subset hnodup hsub).length_le
      rw [length_keys] at hle
      omega
  | succ fuel ih =>
      rw [freshVersionId]
      split
      · rename_i hmem
        have hgrow : (manifestName id).length <
            (manifestName (nextVersionId id (collision+1))).length := by
          simp only [manifestName,nextVersionId,List.length_append,List.length_cons]
          omega
        refine ih (collision+1) _ (manifestName id::seen) ?_ ?_ ?_ ?_
        · refine List.nodup_cons.mpr ⟨fun hin => ?_,hnodup⟩
          exact Nat.lt_irrefl _ (hshort _ hin)
        · intro n hn
          rcases List.mem_cons.mp hn with rfl | hn
          · exact hmem
          · exact hseen n hn
        · intro n hn
          rcases List.mem_cons.mp hn with rfl | hn
          · exact hgrow
          · exact (hshort n hn).trans hgrow
        · rw [List.length_cons]
          omega
      · rename_i hmem
        exact hmem

omit [StoreText Text] in
/-- The identifier of a new version has no manifest file yet. -/
theorem versionIdFor_not_mem (manifests : Map Str Text) (stamp : VersionStamp) :
    manifestName (versionIdFor manifests stamp) ∉ manifests :=
  freshVersionId_not_mem manifests _ 0 stamp.text [] List.nodup_nil nofun nofun (by simp)

omit [StoreText Text] in
theorem prefix_freshVersionId (manifests : Map Str Text) (fuel collision : Nat)
    (id : Str) : id <+: freshVersionId manifests fuel collision id := by
  induction fuel generalizing collision id with
  | zero => exact List.prefix_refl id
  | succ fuel ih =>
      rw [freshVersionId]
      split
      · exact (List.prefix_append id _).trans (ih _ _)
      · exact List.prefix_refl id

omit [StoreText Text] in
theorem versionIdFor_ne_nil (manifests : Map Str Text) (stamp : VersionStamp) :
    versionIdFor manifests stamp ≠ [] := by
  intro h
  have hp := prefix_freshVersionId manifests (manifests.size+1) 0 stamp.text
  rw [← versionIdFor,h,List.prefix_nil] at hp
  have hvalid := stamp.valid
  rw [hp] at hvalid
  cases hvalid

end BackupFolder
end BackupSync
