import BackupSync.FileTree
import BackupSync.RestoreVersion

/-!
# Restoring selected files

restore_files plans the requested paths, decodes every file into a staging directory
beside the restore root, checks all targets below the root and only then replaces
them one by one, creating missing parents on the way.

The state is the tree below the restore root with whatever links it has, what is
there of the directories above it, nearest first, and the staging directory. An
operation whose path passes through a link takes place elsewhere; it is recorded and
leaves the tree as it is. Temporary files are left out, as in the store.
-/
namespace BackupSync
open Checks Interruptible Interruptible.Action RelativePath ContentHash RestoreVersion

structure RestoreFilesRequest where
  sourcePath : Str
  versionId : Str
  relPaths : List Str
  mode : RestoreMode
  hasTargetDir : Bool
  deriving DecidableEq, Repr

structure RestoreSite where
  above : List (Option (FileEntry Bytes))
  tree : FileTree Str Bytes
  stage : RestoreTree
  escaped : List (List Str)

/-- Why a requested path cannot be restored. -/
inductive MissingFile where
  | notPresent (relPath : Str)
  | notAFile (relPath : Str)
  | noHash (relPath : Str)
  | noBlob (relPath hash : Str)
  deriving DecidableEq, Repr

inductive RestoreFilesError where
  | noPaths
  | restore (error : RestoreError)
  | unsafePath (reason : Refusal)
  | missingContent (missing : List MissingFile)
  | rootSymlink
  | rootNotADirectory
  | ancestorSymlink
  | ancestorNotADirectory
  | noAncestor
  | inspectAncestor
  | createStage
  | inspect (path : List Str)
  | symlinkComponent (path : List Str)
  | parentNotADirectory (path : List Str)
  | targetSymlink (relPath : Str)
  | targetDirectory (relPath : Str)
  | createDirectory (path : List Str)
  | createAncestor (position : Nat)
  | verifyAncestor
  | replaceFile (relPath : Str)
  deriving DecidableEq, Repr

/-- The calls of symlink_metadata below the restore root, by the function that makes them. -/
inductive FilesLook where
  | start
  | checking (relPath : Str)
  | creatingRoot (relPath : Str)
  | rootAgain (relPath : Str)
  | creatingParents (relPath : Str)
  | checkingAgain (relPath : Str)
  deriving DecidableEq, Repr

/-- The outcomes of the file system calls; those shared with a restore of a whole version first. -/
structure RestoreFilesEnv where
  restore : RestoreEnv
  inspected : FilesLook → List Str → Bool
  /-- What a path leads to that leaves the tree through a link. -/
  elsewhere : List Str → Option (FileEntry Bytes)
  ancestorInspected : Nat → Bool
  stageCreated : Bool
  ancestorReinspected : Nat → Bool
  ancestorCreated : Nat → Bool
  ancestorVerified : Nat → Bool
  rootVerified : Bool
  directoryCreated : List Str → Bool
  /-- The temporary file is made, filled, dated, synchronised and renamed. -/
  replaced : Str → Bool
  stageRemoved : Bool

namespace RestoreFiles

abbrev Op (α : Type) := Action RestoreSite RestoreFilesError α

section Plan
variable (sha : Sha256) (m : Manifest) (blobs : Map BlobPath Bytes)

/-- One requested path, with the bytes it asks for. -/
def planFile (relPath : Str) : Except MissingFile (PlannedFile × Nat) :=
  match m.entries[relPath]? with
  | none => .error (.notPresent relPath)
  | some e =>
      if e.kind ≠ .file then .error (.notAFile relPath)
      else match e.sha256 with
        | none => .error (.noHash relPath)
        | some hash =>
            if blobPath sha hash ∈ blobs then
              .ok (⟨relPath,blobPath sha hash,hash,e.mtimeUnix,e.mtimeNanos⟩,e.len)
            else .error (.noBlob relPath hash)

/-- The loop over the requested paths; a repeated one is checked and passed over. -/
def planPaths : List Str → List Str → Except Refusal (List (Except MissingFile (PlannedFile × Nat)))
  | _,[] => .ok []
  | seen,relPath::relPaths => do
      validateRelativePath relPath
      if relPath ∈ seen then planPaths seen relPaths
      else do
        let plans ← planPaths (relPath::seen) relPaths
        return planFile sha m blobs relPath::plans

def missingOf (plans : List (Except MissingFile (PlannedFile × Nat))) : List MissingFile :=
  plans.filterMap fun
    | .error missing => some missing
    | .ok _ => none

def plannedOf (plans : List (Except MissingFile (PlannedFile × Nat))) : List (PlannedFile × Nat) :=
  plans.filterMap fun
    | .error _ => none
    | .ok planned => some planned

def planRequest (relPaths : List Str) : Except RestoreFilesError (List PlannedFile × Nat) := do
  let plans ← (planPaths sha m blobs [] relPaths).mapError .unsafePath
  require (missingOf plans).isEmpty (.missingContent (missingOf plans))
  let planned := plannedOf plans
  return (planned.map Prod.fst,
    planned.foldl (fun total item => SafetyBaseline.saturatingAdd total item.2) 0)

end Plan

variable (env : RestoreFilesEnv)

/-- symlink_metadata below the restore root. -/
def lstat (look : FilesLook) (path : List Str) : Op (Option (FileEntry Bytes)) := do
  let site ← read
  check (env.inspected look path) (.inspect path)
  lift ((site.tree.lookup env.elsewhere path).mapError fun _ => .inspect path)

def validateRestoreRoot (look : FilesLook) : Op Unit := do
  match ← lstat env look [] with
  | none => pure ()
  | some .dir => pure ()
  | some .symlink => fail .rootSymlink
  | some _ => fail .rootNotADirectory

/-- The loop of nearest_existing_directory, over the directories above the restore root. -/
def nearestExisting : Nat → List (Option (FileEntry Bytes)) → Except RestoreFilesError Unit
  | _,[] => .error .noAncestor
  | position,found::above => do
      require (env.ancestorInspected position) .inspectAncestor
      match found with
      | none => nearestExisting (position+1) above
      | some .dir => .ok ()
      | some .symlink => .error .ancestorSymlink
      | some _ => .error .ancestorNotADirectory

/-- The values of current while the components of a path are pushed onto it. -/
def pushed : List Str → List Str → List (List Str)
  | _,[] => []
  | current,name::rest => (current++[name])::pushed (current++[name]) rest

def parentPaths (relPath : Str) : List (List Str) := pushed [] (resolve relPath).dropLast

/-- The walk of validate_target_path, which ends at the first missing parent. -/
def checkParents (look : FilesLook) : List (List Str) → Op Unit
  | [] => pure ()
  | path::paths => do
      match ← lstat env look path with
      | some .symlink => fail (.symlinkComponent path)
      | some .dir => checkParents look paths
      | some _ => fail (.parentNotADirectory path)
      | none => pure ()

def validateTargetPath (look : FilesLook) (relPath : Str) : Op Unit := do
  validateRestoreRoot env look
  checkParents env look (parentPaths relPath)
  match ← lstat env look (resolve relPath) with
  | some .symlink => fail (.targetSymlink relPath)
  | some .dir => fail (.targetDirectory relPath)
  | some _ => pure ()
  | none => pure ()

/-- create_dir, which follows links in the parents of the path. -/
def createDirectory (path : List Str) : Op Unit := do
  let site ← read
  check (env.directoryCreated path) (.createDirectory path)
  match site.tree.reach path with
  | .inside => do
      check (site.tree.entry path).isNone (.createDirectory path)
      step fun site => {site with tree := site.tree.put path .dir}
  | .beyond => step fun site => {site with escaped := path::site.escaped}
  | .missing => fail (.createDirectory path)
  | .notDirectory => fail (.createDirectory path)

/-- The loop of create_safe_directory_path above the restore root: how many are missing. -/
def missingAncestors : Nat → List (Option (FileEntry Bytes)) → Except RestoreFilesError Nat
  | _,[] => .error .noAncestor
  | position,found::above => do
      require (env.ancestorReinspected position) .inspectAncestor
      match found with
      | none => do
          let missing ← missingAncestors (position+1) above
          return missing+1
      | some .dir => .ok 0
      | some .symlink => .error .ancestorSymlink
      | some _ => .error .ancestorNotADirectory

def createAncestor (position : Nat) : Op Unit := do
  check (env.ancestorCreated position) (.createAncestor position)
  step fun site => {site with above := site.above.set position (some .dir)}
  check (env.ancestorVerified position) .verifyAncestor

/-- The missing directories are created from the outermost to the restore root. -/
def createSafeDirectoryPath (relPath : Str) : Op Nat := do
  match ← lstat env (.creatingRoot relPath) [] with
  | some .dir => pure 0
  | some .symlink => fail .ancestorSymlink
  | some _ => fail .ancestorNotADirectory
  | none => do
      let site ← read
      let missing ← lift (missingAncestors env 0 site.above)
      (List.range missing).reverse.foldlM (fun _ position => createAncestor env position) ()
      createDirectory env []
      check env.rootVerified .verifyAncestor
      return missing+1

def createParent (look : FilesLook) (created : Nat) (path : List Str) : Op Nat := do
  match ← lstat env look path with
  | some .symlink => fail (.symlinkComponent path)
  | some .dir => pure created
  | some _ => fail (.parentNotADirectory path)
  | none => do
      createDirectory env path
      return created+1

def createSafeTargetParents (relPath : Str) : Op Nat := do
  let created ← createSafeDirectoryPath env relPath
  validateRestoreRoot env (.rootAgain relPath)
  let created ← (parentPaths relPath).foldlM (createParent env (.creatingParents relPath)) created
  validateTargetPath env (.checkingAgain relPath) relPath
  return created

/-- The rename of the prepared file, which replaces a link but not a directory. -/
def replaceFileFromStaged (pf : PlannedFile) : Op Unit := do
  let site ← read
  let content ← lift (match site.stage.nodes[resolve pf.relPath]? with
    | some (.file content) => .ok content
    | _ => .error (.replaceFile pf.relPath))
  check (env.replaced pf.relPath) (.replaceFile pf.relPath)
  match site.tree.reach (resolve pf.relPath) with
  | .inside => do
      check (site.tree.entry (resolve pf.relPath) ≠ some .dir) (.replaceFile pf.relPath)
      step fun site => {site with tree := site.tree.put (resolve pf.relPath) (.file content)}
  | .beyond => step fun site => {site with escaped := resolve pf.relPath::site.escaped}
  | .missing => fail (.replaceFile pf.relPath)
  | .notDirectory => fail (.replaceFile pf.relPath)

def commitFile (result : RestoreResult) (pf : PlannedFile) : Op RestoreResult := do
  let created ← createSafeTargetParents env pf.relPath
  replaceFileFromStaged env pf
  return {result with
    filesWritten := result.filesWritten+1
    dirsCreated := result.dirsCreated+created}

/-- The decoded files in the staging directory. -/
def stageFiles (sha : Sha256) (prim : Primitives) (codec : BlobCodec)
    (blobs : Map BlobPath Bytes) (planned : List PlannedFile) : Op Unit :=
  zoom RestoreSite.stage (fun t site => {site with stage := t}) (mapFailure .restore
    (planned.foldlM (fun _ pf => buildFile sha prim codec blobs env.restore pf) ()))

/-- Everything between the creation of the staging directory and its removal. -/
def restorePlanned (sha : Sha256) (prim : Primitives) (codec : BlobCodec)
    (blobs : Map BlobPath Bytes) (planned : List PlannedFile) :
    Op RestoreResult := do
  stageFiles env sha prim codec blobs planned
  planned.foldlM (fun _ pf => validateTargetPath env (.checking pf.relPath) pf.relPath) ()
  planned.foldlM (commitFile env) ⟨0,0,0⟩

def emptyStage : RestoreTree := ⟨Std.ExtTreeMap.insert ∅ [] .dir,∅⟩

/-- The staging directory is removed in any case; a failure to do so is not reported. -/
def withStage {α : Type} (body : Op α) : Op α := do
  step fun site => {site with stage := emptyStage}
  match ← attempt body with
  | .ok a =>
      if env.stageRemoved then do
        step fun site => {site with stage := .absent}
        return a
      else return a
  | .error e =>
      if env.stageRemoved then stepThenFail (fun site => {site with stage := .absent}) e
      else fail e

def restoreFiles {Text : Type} [StoreText Text] (sha : Sha256) (prim : Primitives) (cfg : Config)
    (disk : Disk Text) (req : RestoreFilesRequest) : Op RestoreResult := do
  check (!req.relPaths.isEmpty) .noPaths
  lift (require (VersionIndex.validateVersionId req.versionId) (.restore .invalidVersionId))
  let root ← lift ((destinationRootForSource cfg req.sourcePath).mapError .restore)
  check env.restore.lease (.restore .lease)
  let m ← lift ((loadManifestForRequest sha ⟨req.sourcePath,req.versionId,.inPlace,false⟩ env.restore
    (disk.store root)).mapError .restore)
  check (req.mode = .inPlace || req.hasTargetDir) (.restore .missingTargetDir)
  validateRestoreRoot env .start
  let (planned,bytes) ← lift (planRequest sha m (visibleBlobs env.restore (disk.store root).blobs)
    req.relPaths)
  let site ← read
  lift (nearestExisting env 0 site.above)
  lift ((ensureRestoreFreeSpace cfg env.restore.freeSpace bytes).mapError .restore)
  check env.restore.codecLoaded (.restore .codec)
  check env.stageCreated .createStage
  withStage env (restorePlanned env sha prim cfg.codec (disk.store root).blobs planned)

end RestoreFiles
end BackupSync
