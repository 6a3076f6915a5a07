import BackupSync.Configuration
import BackupSync.HistoryRemoval

/-!
# Restoring a version

restore_version reads one manifest, checks that all blobs are there and that the
disk has room, builds the whole tree in a staging directory beside the target
and then renames it into place. A target that was there is moved aside first and
moved back if the second rename fails.

A directory tree is a map from the names below its root; a root that is not in
the map does not exist. The three trees a restore works on, target, staging
directory and moved-aside target, are the state, and each file system call is
one step on it.
-/
namespace BackupSync
open Checks Interruptible Interruptible.Action RelativePath ContentHash

inductive Node where
  | dir
  | file (content : Bytes)
  deriving DecidableEq, Repr

structure RestoreTree where
  nodes : Map (List Str) Node
  mtimes : Map (List Str) (Int × Nat)
  deriving DecidableEq

def RestoreTree.absent : RestoreTree := ⟨∅,∅⟩

/-- The root is there, as a directory or as something else. -/
def RestoreTree.present (t : RestoreTree) : Bool := t.nodes.contains []

structure RestoreArea where
  target : RestoreTree
  stage : RestoreTree
  previous : RestoreTree

inductive RestoreMode where
  | inPlace | toDirectory
  deriving DecidableEq, Repr

structure RestoreRequest where
  sourcePath : Str
  versionId : Str
  mode : RestoreMode
  /-- A target directory was given. -/
  hasTargetDir : Bool
  deriving DecidableEq, Repr

structure RestoreResult where
  filesWritten : Nat
  filesRemoved : Nat
  dirsCreated : Nat
  deriving DecidableEq, Repr

structure PlannedFile where
  relPath : Str
  blobPath : BlobPath
  expectedSha256 : Str
  mtimeUnix : Int
  mtimeNanos : Nat
  deriving DecidableEq, Repr

/-- Why a file entry cannot be restored. -/
inductive MissingContent where
  | noHash (relPath : Str)
  | noBlob (relPath hash : Str)
  deriving DecidableEq, Repr

inductive RestoreError where
  | invalidVersionId
  | sourceNotConfigured
  | notADirectorySource
  | missingDestination
  | lease
  | readManifest
  | parseManifest
  | unsafeManifest (reason : Refusal)
  | missingTargetDir
  | targetNotADirectory
  | createParent
  | missingContent (missing : List MissingContent)
  | freeSpaceQuery
  | insufficientSpace (needed free : Nat)
  | belowMinimum (free minimum : Nat)
  | codec
  | stageExists
  | countFiles
  | createDirectory (names : List Str)
  | tempFile (relPath : Str)
  | readBlob (relPath : Str)
  | decodeBlob (error : CodecError)
  | hashMismatch (expected actual : Str)
  | persist (relPath : Str)
  | setMtime (relPath : Str)
  | moveAside
  | moveIn
  deriving DecidableEq, Repr

/-- The calls of Path::exists and Path::is_dir on the three roots, in the order of the source. -/
inductive Look where
  | target | targetKind | stage | counted | swap | rollbackPrevious | rollbackTarget | previous
  deriving DecidableEq, Repr

/-- The outcomes of the file system calls of one restore. -/
structure RestoreEnv where
  /-- A look that fails finds nothing. -/
  seen : Look → Bool
  blobSeen : BlobPath → Bool
  stagedSeen : List Str → Bool
  lease : Bool
  manifestReadable : Bool
  parentCreated : Bool
  freeSpace : Option Nat
  codecLoaded : Bool
  targetWalkable : Bool
  dirCreatable : List Str → Bool
  tempCreatable : List Str → Bool
  blobReadable : Str → Bool
  persistable : List Str → Bool
  mtimeSettable : List Str → Bool
  stageRemovable : Bool
  movedAside : Bool
  movedIn : Bool
  rolledBack : Bool
  previousRemovable : Bool

namespace RestoreVersion

abbrev Build (α : Type) := Action RestoreTree RestoreError α

abbrev Op (α : Type) := Action RestoreArea RestoreError α

def destinationRootForSource (cfg : Config) (sourcePath : Str) : Except RestoreError Str := do
  let w ← orElse (cfg.watched.find? fun w => w.enabled && samePath w.path sourcePath)
    .sourceNotConfigured
  require (w.kind = .directory) .notADirectorySource
  let d ← orElse (cfg.destinations.find? fun d => d.id == w.destinationId) .missingDestination
  return d.path

variable {Text : Type} [StoreText Text]

def loadManifestForRequest (sha : Sha256) (req : RestoreRequest) (env : RestoreEnv)
    (st : Store Text) : Except RestoreError Manifest := do
  require (VersionIndex.validateVersionId req.versionId) .invalidVersionId
  let text ← orElse (st.dir (sourceId sha req.sourcePath)).manifests[manifestName req.versionId]?
    .readManifest
  require env.manifestReadable .readManifest
  let m ← orElse (StoreText.readManifest text) .parseManifest
  m.validateManifest.mapError .unsafeManifest
  return m

/-- What preflight_restore makes of one entry; directories are passed over. -/
def planEntry (sha : Sha256) (blobs : Map BlobPath Bytes) (e : ManifestEntry) :
    Option (Except MissingContent PlannedFile) :=
  if e.kind ≠ .file then none
  else match e.sha256 with
    | none => some (.error (.noHash e.relPath))
    | some hash =>
        if blobPath sha hash ∈ blobs then
          some (.ok ⟨e.relPath,blobPath sha hash,hash,e.mtimeUnix,e.mtimeNanos⟩)
        else some (.error (.noBlob e.relPath hash))

def missingOf (plans : List (Except MissingContent PlannedFile)) : List MissingContent :=
  plans.filterMap fun
    | .error missing => some missing
    | .ok _ => none

def plannedOf (plans : List (Except MissingContent PlannedFile)) : List PlannedFile :=
  plans.filterMap fun
    | .error _ => none
    | .ok planned => some planned

/-- The bytes of the entries that are planned. -/
def plannedBytes (sha : Sha256) (blobs : Map BlobPath Bytes) (m : Manifest) : Nat :=
  m.entryValues.foldl (fun total e => match planEntry sha blobs e with
    | some (.ok _) => SafetyBaseline.saturatingAdd total e.len
    | _ => total) 0

def ensureRestoreFreeSpace (cfg : Config) (freeSpace : Option Nat) (requiredBytes : Nat) :
    Except RestoreError Unit := do
  let free ← orElse freeSpace .freeSpaceQuery
  let needed := SafetyBaseline.saturatingAdd requiredBytes cfg.freeSpaceSafetyBufferBytes
  require (needed ≤ free) (.insufficientSpace needed free)
  match cfg.minFreeSpaceBytes with
  | some minimum => require (minimum ≤ free) (.belowMinimum free minimum)
  | none => .ok ()

def preflightRestore (sha : Sha256) (cfg : Config) (m : Manifest)
    (blobs : Map BlobPath Bytes) (freeSpace : Option Nat) :
    Except RestoreError (List PlannedFile) := do
  let plans := m.entryValues.filterMap (planEntry sha blobs)
  require (missingOf plans).isEmpty (.missingContent (missingOf plans))
  ensureRestoreFreeSpace cfg freeSpace (plannedBytes sha blobs m)
  return plannedOf plans

/-- One directory of create_dir_all. -/
def createDir (env : RestoreEnv) (names : List Str) : Build Unit := do
  let t ← read
  match t.nodes[names]? with
  | some .dir => pure ()
  | some (.file _) => fail (.createDirectory names)
  | none => do
      check (env.dirCreatable names) (.createDirectory names)
      step fun t => {t with nodes := t.nodes.insert names .dir}

def createDirAll (env : RestoreEnv) (names : List Str) : Build Unit :=
  names.inits.foldlM (fun _ p => createDir env p) ()

/-- One entry of the first loop of build_restore_tree. -/
def buildDir (env : RestoreEnv) (created : Nat) (e : ManifestEntry) : Build Nat :=
  if e.kind ≠ .dir then pure created
  else do
    let t ← read
    if env.stagedSeen (resolve e.relPath) ∧ resolve e.relPath ∈ t.nodes then pure created
    else do
      createDirAll env (resolve e.relPath)
      return created+1

/-- The last piece of the text of a path names an entry, as rename requires. -/
def namesFile (relPath : Str) : Bool :=
  match (relPath.splitOn '/').getLast? with
  | none => false
  | some piece => piece ≠ [] && piece ≠ ['.'] && piece ≠ ['.','.']

/-- NamedTempFile::persist, which replaces a file but not a directory. -/
def persistFile (env : RestoreEnv) (relPath : Str) (content : Bytes) : Build Unit := do
  let t ← read
  check (env.persistable (resolve relPath) && namesFile relPath &&
    decide (t.nodes[resolve relPath]? ≠ some .dir)) (.persist relPath)
  step fun t => {t with nodes := t.nodes.insert (resolve relPath) (.file content)}

def writeFileAtomicFromBlob (sha : Sha256) (prim : Primitives) (codec : BlobCodec)
    (blobs : Map BlobPath Bytes) (env : RestoreEnv) (pf : PlannedFile) :
    Build Unit := do
  createDirAll env (resolve pf.relPath).dropLast
  check (env.tempCreatable (resolve pf.relPath)) (.tempFile pf.relPath)
  let blob ← lift (orElse blobs[pf.blobPath]? (.readBlob pf.relPath))
  check (env.blobReadable pf.relPath) (.readBlob pf.relPath)
  let content ← lift ((BlobCodec.copyBlobPlaintextToWriter prim codec blob).mapError .decodeBlob)
  check (sha256Hex sha content == pf.expectedSha256)
    (.hashMismatch pf.expectedSha256 (sha256Hex sha content))
  persistFile env pf.relPath content

def restoreMtime (env : RestoreEnv) (pf : PlannedFile) : Build Unit :=
  if pf.mtimeUnix ≤ 0 then pure ()
  else do
    check (env.mtimeSettable (resolve pf.relPath)) (.setMtime pf.relPath)
    step fun t =>
      {t with mtimes := t.mtimes.insert (resolve pf.relPath) (pf.mtimeUnix,pf.mtimeNanos)}

def buildFile (sha : Sha256) (prim : Primitives) (codec : BlobCodec)
    (blobs : Map BlobPath Bytes) (env : RestoreEnv) (pf : PlannedFile) :
    Build Unit := do
  createDirAll env (resolve pf.relPath).dropLast
  writeFileAtomicFromBlob sha prim codec blobs env pf
  restoreMtime env pf

def buildRestoreTree (sha : Sha256) (prim : Primitives) (codec : BlobCodec)
    (blobs : Map BlobPath Bytes) (env : RestoreEnv) (m : Manifest)
    (planned : List PlannedFile) : Build RestoreResult := do
  createDirAll env []
  let created ← m.entryValues.foldlM (buildDir env) 0
  planned.foldlM (fun _ pf => buildFile sha prim codec blobs env pf) ()
  return ⟨planned.length,0,created⟩

/-- Paths as count_extraneous_files compares them. -/
def countExtraneousFiles (m : Manifest) (t : RestoreTree) : Nat :=
  let expected := m.entryValues.filterMap fun e =>
    if e.kind = .file then some e.relPath else none
  (t.nodes.toList.filter fun item => match item.2 with
    | .dir => false
    | .file _ => item.1 ≠ [] && replaceBackslash (relString item.1) ∉ expected).length

/-- Path::exists. -/
def looksPresent (env : RestoreEnv) (look : Look) (t : RestoreTree) : Bool :=
  env.seen look && t.present

def countRemoved (req : RestoreRequest) (env : RestoreEnv) (m : Manifest) : Op Nat := do
  let area ← read
  if req.mode = .inPlace ∧ looksPresent env .counted area.target then do
    check env.targetWalkable .countFiles
    return countExtraneousFiles m area.target
  else return 0

/-- The staged tree; a failed build is cleaned up. -/
def stageTree (sha : Sha256) (prim : Primitives) (codec : BlobCodec)
    (blobs : Map BlobPath Bytes) (env : RestoreEnv) (m : Manifest)
    (planned : List PlannedFile) : Op RestoreResult := do
  match ← attempt (zoom RestoreArea.stage (fun t area => {area with stage := t})
      (buildRestoreTree sha prim codec blobs env m planned)) with
  | .ok result => return result
  | .error e =>
      if env.stageRemovable then stepThenFail (fun area => {area with stage := .absent}) e
      else fail e

def moveAside (env : RestoreEnv) : Op Unit := do
  let area ← read
  if looksPresent env .swap area.target then do
    check env.movedAside .moveAside
    step fun area => {area with previous := area.target, target := .absent}
  else pure ()

def moveIn (env : RestoreEnv) : Op Unit := do
  let area ← read
  if env.movedIn then step fun area => {area with target := area.stage, stage := .absent}
  else if looksPresent env .rollbackPrevious area.previous &&
      !looksPresent env .rollbackTarget area.target && env.rolledBack then
    stepThenFail (fun area => {area with target := area.previous, previous := .absent}) .moveIn
  else fail .moveIn

/-- What was moved aside goes after an in-place restore; a failure to remove it is only logged. -/
def removePrevious (req : RestoreRequest) (env : RestoreEnv) : Op Unit := do
  let area ← read
  if looksPresent env .previous area.previous && req.mode = .inPlace && env.previousRemovable then
    step fun area => {area with previous := .absent}
  else pure ()

/-- The blobs whose existence can be told. -/
def visibleBlobs (env : RestoreEnv) (blobs : Map BlobPath Bytes) :
    Map BlobPath Bytes :=
  blobs.filter fun path _ => env.blobSeen path

/-- What is left of restore_version once the manifest has been loaded. -/
def restoreManifest (sha : Sha256) (prim : Primitives) (cfg : Config) (st : Store Text)
    (req : RestoreRequest) (env : RestoreEnv) (m : Manifest) : Op RestoreResult := do
  check (req.mode = .inPlace || req.hasTargetDir) .missingTargetDir
  let area ← read
  check (!looksPresent env .target area.target ||
    env.seen .targetKind && area.target.nodes[([] : List Str)]? = some .dir) .targetNotADirectory
  check env.parentCreated .createParent
  let planned ← lift (preflightRestore sha cfg m (visibleBlobs env st.blobs) env.freeSpace)
  check env.codecLoaded .codec
  check (!looksPresent env .stage area.stage) .stageExists
  let removed ← countRemoved req env m
  let result ← stageTree sha prim cfg.codec st.blobs env m planned
  moveAside env
  moveIn env
  removePrevious req env
  return {result with filesRemoved := removed}

def restoreVersion (sha : Sha256) (prim : Primitives) (cfg : Config) (disk : Disk Text)
    (req : RestoreRequest) (env : RestoreEnv) : Op RestoreResult := do
  lift (require (VersionIndex.validateVersionId req.versionId) .invalidVersionId)
  let root ← lift (destinationRootForSource cfg req.sourcePath)
  check env.lease .lease
  let m ← lift (loadManifestForRequest sha req env (disk.store root))
  restoreManifest sha prim cfg (disk.store root) req env m

end RestoreVersion
end BackupSync
