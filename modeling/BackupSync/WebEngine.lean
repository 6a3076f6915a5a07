import BackupSync.Checks
import BackupSync.ContentHash
import BackupSync.Interruptible

/-!
# The browser engine

In the browser the commands of the user interface work on one state object: the
configuration, the files of the workspace, and for each destination a vault of
blobs and manifests. A command that changes the state edits the object in place
and saves it at the end; a command that reads goes to the object directly. Every
error of a command, also one from a field that is missing in what the page sent,
rejects the command and leaves the object as it was edited so far.

The vaults are members of a plain object under the ids of the destinations, so an id
may name a member that every object inherits. Such a member is taken for a vault and
is none.

The text comparison of the browser, SHA-256, the clock and the outcome of a save are
parameters. The history of created versions is kept beside the object for the
statements about restored versions; nothing in the engine reads it.
-/
namespace BackupSync
open Checks Interruptible Interruptible.Action ContentHash

structure WebFile where
  relPath : Str
  bytes : Bytes
  mtimeUnix : Int
  deriving DecidableEq, Repr

structure WebEntry where
  relPath : Str
  len : Nat
  mtimeUnix : Int
  mtimeNanos : Nat
  sha256 : Str
  deriving DecidableEq, Repr

structure WebManifest where
  id : Str
  sourcePath : Str
  createdAtUnix : Nat
  entries : List WebEntry
  deriving DecidableEq, Repr

abbrev Blobs := Map Str Bytes

structure Vault where
  blobs : Blobs
  manifests : List WebManifest

structure WebWatched where
  path : Str
  enabled : Bool
  deriving DecidableEq, Repr

structure WebDestination where
  id : Str
  label : Str
  path : Str
  deriving DecidableEq, Repr

/-- A configuration as the page sends it, where whole sections may be missing. -/
structure WebConfig where
  backupRoot : Str
  maxBackupsPerFile : Int
  safeMode : Bool
  watched : Option (List WebWatched)
  destinations : Option (List WebDestination)
  simulationSampleLimit : Option Nat
  deriving DecidableEq, Repr

structure WebActivity where
  path : Str
  bytes : Nat
  ts : Nat
  deriving DecidableEq, Repr

structure WebStatus where
  lastRunTs : Option Nat
  lastFilesBackedUp : Nat
  lastDirtyCount : Nat
  /-- The watched path of the warning. -/
  lastSafetyWarning : Option Str
  lastVerifyTs : Option Nat
  lastVerifyIssues : Option Nat
  recentActivity : List WebActivity
  safeMode : Bool
  replicationLastRunTs : Option Nat
  replicationLastBytesCopied : Nat
  replicationLastBlobsCopied : Nat
  replicationLastManifestsCopied : Nat
  replicationLastPairsOk : Nat
  deriving DecidableEq, Repr

inductive Integrity where
  | healthy | damaged | notChecked
  deriving DecidableEq, Repr

structure WebState where
  config : WebConfig
  sourcePath : Str
  files : List WebFile
  vaults : Map Str Vault
  /-- The names under which the record of vaults has a member of its own that is no vault. -/
  strays : List Str
  status : WebStatus
  logs : List Str
  integrity : Integrity
  sequence : Nat

/-- The state object and the versions created so far, the newest first, each with the files of the
workspace at that time. -/
structure Work where
  state : WebState
  history : List (Str × List WebFile)

/-- The object that commands read, and what the database holds. -/
structure Session where
  work : Work
  persisted : Option WebState

inductive WebError where
  | thrown (message : Str)
  /-- A section of a configuration that is not there is read, or a member of what is no vault. -/
  | typeError
  | notCloned
  | notSaved
  deriving DecidableEq, Repr

/-- How the browser compares and folds texts. -/
structure Collation where
  le : Str → Str → Bool
  lower : Str → Str

inductive Storage where
  | absent | works | fails
  deriving DecidableEq, Repr

/-- What a command meets: the readings of the clock, the stamps of its log lines, the outcome of its
save and the vaults that a walk over the record comes to before a member that is no vault. -/
structure WebEnv where
  now : Nat → Nat
  stamp : Nat → Str
  storage : Storage
  reached : Str → Bool

namespace WebEngine

def reject (message : String) : WebError := .thrown message.toList

def num (n : Nat) : Str := Nat.toDigits 10 n

abbrev Op (α : Type) := Action Work WebError α

def current : Op WebState := do
  let w ← read
  return w.state

def Work.edit (f : WebState → WebState) (w : Work) : Work := {w with state := f w.state}

def modify (f : WebState → WebState) : Op Unit := step (Work.edit f)

def logged (stamp message : Str) (s : WebState) : WebState :=
  let logs := s.logs++[stamp++(' '::message)]
  {s with logs := logs.drop (logs.length-200)}

def log (stamp message : Str) : Op Unit := modify (logged stamp message)

def present {α : Type} (field : Option α) : Except WebError α := orElse field .typeError

section Vaults

def newVault : Vault := ⟨∅,[]⟩

/-- The members that every object inherits. -/
def inheritedNames : List Str :=
  ["constructor".toList,"hasOwnProperty".toList,"isPrototypeOf".toList,"propertyIsEnumerable".toList,
    "toLocaleString".toList,"toString".toList,"valueOf".toList,"__proto__".toList,
    "__defineGetter__".toList,"__defineSetter__".toList,"__lookupGetter__".toList,
    "__lookupSetter__".toList]

/-- What the record of vaults has under a name: nothing, a vault, or something else. -/
def member (s : WebState) (id : Str) : Option (Option Vault) :=
  match s.vaults[id]? with
  | some vault => some (some vault)
  | none => if id ∈ s.strays ∨ id ∈ inheritedNames then some none else none

/-- The vault under a name, a new one if there is nothing. -/
def vaultOf (s : WebState) (id : Str) : Except WebError Vault :=
  present ((member s id).getD (some newVault))

/-- What was read from the record is put under a name. -/
def put (id : Str) (found : Option Vault) (s : WebState) : WebState :=
  let others := s.strays.filter fun name => name ≠ id
  match found with
  | some vault => {s with vaults := s.vaults.insert id vault,strays := others}
  | none => {s with vaults := s.vaults.erase id,strays := id::others}

/-- The newest first. -/
def byAge (manifests : List WebManifest) : List WebManifest :=
  manifests.insertionSort fun left right => right.createdAtUnix ≤ left.createdAtUnix

def latestManifest (vault : Vault) (sourcePath : Str) : Option WebManifest :=
  (byAge (vault.manifests.filter fun m => m.sourcePath = sourcePath)).head?

def referenced (manifests : List WebManifest) : List Str :=
  (manifests.flatMap fun m => m.entries.map WebEntry.sha256).eraseDups

/-- Some of the manifests, with the blobs that they refer to. -/
def cut (keep : WebManifest → Bool) (vault : Vault) : Vault :=
  let manifests := vault.manifests.filter keep
  ⟨vault.blobs.filter fun hash _ => (referenced manifests).contains hash,manifests⟩

def cutAll (keep : WebManifest → Bool) (s : WebState) : WebState :=
  {s with vaults := s.vaults.map fun _ vault => cut keep vault}

/-- Every vault is cut. The walk ends at a member that is no vault. -/
def cutVaults (env : WebEnv) (keep : WebManifest → Bool) : Op Unit := do
  let s ← current
  if s.strays = [] then modify (cutAll keep)
  else stepThenFail (Work.edit fun s => {s with
    vaults := s.vaults.map fun id vault => if env.reached id then cut keep vault else vault}) .typeError

def primaryId (config : WebConfig) : Except WebError Str := do
  let destinations ← present config.destinations
  return (destinations.head?.map WebDestination.id).getD "primary".toList

/-- How many manifests of a vault a cut removes. -/
def removedBy (keep : WebManifest → Bool) (vault : Vault) : Nat :=
  vault.manifests.length-(vault.manifests.filter keep).length

def notNewer (sourcePath : Str) (selected m : WebManifest) : Bool :=
  m.sourcePath ≠ sourcePath ∨ m.createdAtUnix ≤ selected.createdAtUnix

def removeNewerManifests (env : WebEnv) (sourcePath : Str) (selected : WebManifest) : Op Nat := do
  let s ← current
  let id ← lift (primaryId s.config)
  cutVaults env (notNewer sourcePath selected)
  return (s.vaults[id]?.map (removedBy (notNewer sourcePath selected))).getD 0

def notOf (sourcePaths : List Str) (m : WebManifest) : Bool := m.sourcePath ∉ sourcePaths

def removeSourceHistory (env : WebEnv) (sourcePaths : List Str) : Op Nat := do
  let s ← current
  cutVaults env (notOf sourcePaths)
  return (s.vaults.values.map (removedBy (notOf sourcePaths))).sum

/-- The vault of the first destination, which is made if it is missing. -/
def primaryVault : Op Vault := do
  let s ← current
  let id ← lift (primaryId s.config)
  match member s id with
  | some found => lift (present found)
  | none => do
      modify fun s => {s with vaults := s.vaults.insert id newVault}
      return newVault

def manifestById (sourcePath versionId : Str) : Op WebManifest := do
  let vault ← primaryVault
  lift (orElse (vault.manifests.find? fun m => m.sourcePath = sourcePath ∧ m.id = versionId)
    (reject "The selected browser backup version no longer exists."))

end Vaults

section Paths

def unsafePath (path : Str) : WebError := .thrown ("Unsafe restore path: ".toList++path)

def validateRestorePath (path : Str) : Except WebError Unit :=
  if path = [] ∨ path.head? = some '/' ∨ '\\' ∈ path ∨ '\x00' ∈ path then .error (unsafePath path)
  else if (path.splitOn '/').any fun segment =>
      segment = [] ∨ segment = ['.'] ∨ segment = ['.', '.'] then .error (unsafePath path)
  else .ok ()

/-- What the trim of the browser takes away. -/
def isJsSpace (c : Char) : Bool :=
  c.toNat ∈ [9,10,11,12,13,32,160,0x1680,0x2028,0x2029,0x202f,0x205f,0x3000,0xfeff] ||
    (0x2000 ≤ c.toNat && c.toNat ≤ 0x200a)

def jsTrim (s : Str) : Str := ((s.dropWhile isJsSpace).reverse.dropWhile isJsSpace).reverse

def utf16Length (s : Str) : Nat := (s.map fun c => if c.toNat < 0x10000 then 1 else 2).sum

def withoutDot (path : Str) : Str := if path.take 2 = ['.', '/'] then path.drop 2 else path

def normalizeWorkspacePath (path : Str) : Except WebError Str := do
  let normalized := withoutDot (jsTrim path)
  validateRestorePath normalized
  if 240 < utf16Length normalized then
    throw (reject "Workspace paths must be 240 characters or fewer.")
  else return normalized

/-- The folder of a path, empty at the top. -/
def folderOf (path : Str) : Str := ((path.reverse.dropWhile fun c => c ≠ '/').drop 1).reverse

end Paths

structure SimulationResult where
  items : Nat
  bytes : Nat
  sample : List Str
  message : Option Str
  deriving DecidableEq, Repr

section Backup
variable (sha : Sha256) (collation : Collation)

def entryOf (file : WebFile) : WebEntry :=
  ⟨file.relPath,file.bytes.length,file.mtimeUnix,0,sha256Hex sha file.bytes⟩

def planEntries (files : List WebFile) : List WebEntry :=
  (files.map (entryOf sha)).insertionSort fun left right => collation.le left.relPath right.relPath

/-- The hash under a path, where a later entry replaces an earlier one. -/
def hashAt (entries : List WebEntry) (path : Str) : Option Str :=
  (entries.reverse.find? fun e => e.relPath = path).map WebEntry.sha256

def previewState (s : WebState) : Except WebError SimulationResult := do
  let entries := planEntries sha collation s.files
  let id ← primaryId s.config
  let latest := latestManifest (← vaultOf s id) s.sourcePath
  let previous := (latest.map WebManifest.entries).getD []
  let changed := entries.filter fun e => hashAt previous e.relPath ≠ some e.sha256
  let removed := ((previous.map WebEntry.relPath).eraseDups).filter fun path =>
    path ∉ entries.map WebEntry.relPath
  let limit ← present s.config.simulationSampleLimit
  let items := changed.length+removed.length
  return ⟨items,(changed.map WebEntry.len).sum,
    ((changed.map WebEntry.relPath)++(removed.map fun path => path++" (removed)".toList)).take limit,
    if items = 0 then some "Workspace already matches the latest version.".toList else none⟩

/-- The blobs with that of an entry, and what was copied so far. -/
def addBlob (files : List WebFile) (copied : Blobs × Nat × Nat) (entry : WebEntry) :
    Blobs × Nat × Nat :=
  if entry.sha256 ∈ copied.1 then copied
  else match files.find? fun file => file.relPath = entry.relPath with
    | none => copied
    | some source => (copied.1.insert entry.sha256 source.bytes,copied.2.1+1,
        copied.2.2+source.bytes.length)

/-- The newest manifests of a source, after those of the others. -/
def prune (keep : Nat) (sourcePath : Str) (manifests : List WebManifest) : List WebManifest :=
  (manifests.filter fun m => m.sourcePath ≠ sourcePath)++
    (byAge (manifests.filter fun m => m.sourcePath = sourcePath)).take keep

/-- A version in the vault of one destination. -/
def storeVersion (files : List WebFile) (keep : Nat) (manifest : WebManifest)
    (stored : Map Str Vault × Nat × Nat) (destination : WebDestination) :
    Map Str Vault × Nat × Nat :=
  let vault := stored.1[destination.id]?.getD newVault
  let (blobs,copied) := manifest.entries.foldl (addBlob files) (vault.blobs,stored.2)
  (stored.1.insert destination.id
    ⟨blobs,prune keep manifest.sourcePath (vault.manifests++[manifest])⟩,copied)

def newestStoredVersion (s : WebState) : Nat :=
  (s.vaults.values.flatMap fun vault => vault.manifests.map WebManifest.createdAtUnix).foldl max 0

def versionIdOf (createdAtUnix sequence : Nat) : Str := 'v'::num createdAtUnix ++ '-'::num sequence

def nextManifest (now : Nat) (s : WebState) : WebManifest :=
  let createdAtUnix := max now (newestStoredVersion s+1)
  ⟨versionIdOf createdAtUnix s.sequence,s.sourcePath,createdAtUnix,planEntries sha collation s.files⟩

def storeVersions (destinations : List WebDestination) (manifest : WebManifest) (s : WebState) :
    Map Str Vault × Nat × Nat :=
  destinations.foldl (storeVersion s.files (max 1 s.config.maxBackupsPerFile).toNat manifest)
    (s.vaults,0,0)

/-- The status after a version with its numbers of changed items, copied blobs and copied bytes. -/
def backedUp (s : WebState) (manifest : WebManifest) (replicas items blobs bytes : Nat) : WebStatus :=
  {s.status with
    lastRunTs := some manifest.createdAtUnix
    lastFilesBackedUp := manifest.entries.length
    lastDirtyCount := items
    recentActivity := (manifest.entries.take 12).map fun e =>
      ⟨s.sourcePath++('/'::e.relPath),e.len,manifest.createdAtUnix⟩
    replicationLastRunTs := some manifest.createdAtUnix
    replicationLastBytesCopied := bytes
    replicationLastBlobsCopied := blobs
    replicationLastManifestsCopied := replicas
    replicationLastPairsOk := replicas}

/-- The state with a new version in every vault. -/
def commitVersion (now : Nat) (destinations : List WebDestination) (items : Nat) (w : Work) : Work :=
  let s := w.state
  let manifest := nextManifest sha collation now s
  let (vaults,blobs,bytes) := storeVersions destinations manifest s
  ⟨{s with
      sequence := s.sequence+1
      vaults := vaults
      status := backedUp s manifest (destinations.length-1) items blobs bytes
      integrity := .notChecked},
    (manifest.id,s.files)::w.history⟩

/-- Whether what is under the id of a destination can be used as a vault. -/
def usable (s : WebState) (destination : WebDestination) : Bool :=
  match member s destination.id with
  | some none => false
  | _ => true

/-- The state in which a version fails at a destination, after those before it got it. What is there
under the id becomes a member of the record, unless it is the prototype. -/
def abandonVersion (now : Nat) (before : List WebDestination) (stray : WebDestination) (w : Work) :
    Work :=
  let manifest := nextManifest sha collation now w.state
  let s := {w.state with
    sequence := w.state.sequence+1
    vaults := (storeVersions before manifest w.state).1}
  ⟨if stray.id = "__proto__".toList then s else put stray.id none s,
    (manifest.id,w.state.files)::w.history⟩

def runBackup (now : Nat) (stamp : Str) : Op SimulationResult := do
  let s ← current
  let watched ← lift (present s.config.watched)
  if watched.all fun w => !w.enabled then
    log stamp "backup skipped: no protected items configured".toList
    return ⟨0,0,[],some "No protected items are configured.".toList⟩
  else
    let preview ← lift (previewState sha collation s)
    if preview.items = 0 then
      log stamp "backup complete: no content changes".toList
      return preview
    else
      let destinations ← lift (present s.config.destinations)
      check s.strays.isEmpty .typeError
      match destinations.dropWhile (usable s) with
      | stray::_ =>
          let before := destinations.takeWhile (usable s)
          stepThenFail (abandonVersion sha collation now before stray) .typeError
      | [] => do
          let manifest := nextManifest sha collation now s
          let (_,blobs,bytes) := storeVersions destinations manifest s
          step (commitVersion sha collation now destinations preview.items)
          log stamp ("backup ".toList++manifest.id++" committed: ".toList++
            num manifest.entries.length++" files, ".toList++num blobs++" new blobs, ".toList++
            num bytes++" bytes".toList)
          return {preview with message := some ("Created ".toList++manifest.id++".".toList)}

end Backup

structure VerifyResult where
  ok : Nat
  bad : Nat
  lastVerifyTs : Nat
  deriving DecidableEq, Repr

section Check
variable (sha : Sha256)

def healthyBlob (vault : Vault) (hash : Str) : Bool :=
  match vault.blobs[hash]? with
  | some blob => sha256Hex sha blob = hash
  | none => false

/-- The healthy blobs of a vault that its manifests refer to, or the others. -/
def countBlobs (healthy : Bool) (vault : Vault) : Nat :=
  (referenced vault.manifests).countP fun hash => healthyBlob sha vault hash == healthy

def verifyState (now : Nat) (stamp : Str) : Op VerifyResult := do
  let s ← current
  check s.strays.isEmpty .typeError
  let ok := (s.vaults.values.map (countBlobs sha true)).sum
  let bad := (s.vaults.values.map (countBlobs sha false)).sum
  modify fun s => {s with
    status := {s.status with lastVerifyTs := some now, lastVerifyIssues := some bad}
    integrity := if bad = 0 then .healthy else .damaged}
  log stamp ("integrity verification complete: ".toList++num ok++" healthy, ".toList++num bad++
    " damaged or missing".toList)
  return ⟨ok,bad,now⟩

end Check

section Seed
variable (sha : Sha256) (collation : Collation)

def defaultConfig : WebConfig where
  backupRoot := "browser-vault://primary".toList
  maxBackupsPerFile := 4
  safeMode := false
  watched := some [⟨"/Browser Workspace/Portfolio".toList,true⟩,
    ⟨"/Browser Workspace/Portfolio".toList,true⟩]
  destinations := some [⟨"primary".toList,"Browser vault".toList,"browser-vault://primary".toList⟩,
    ⟨"mirror".toList,"Local mirror".toList,"browser-vault://mirror".toList⟩]
  simulationSampleLimit := some 10

def emptyStatus : WebStatus := ⟨none,0,0,none,none,none,[],false,none,0,0,0,0⟩

def encode (text : String) : Bytes := utf8 text.toList

def seedFiles (seedTime : Int) : List WebFile :=
  [⟨"README.md".toList,
      encode "# Atlas Portfolio\n\nA browser-owned workspace protected by Backup Sync.\n",seedTime⟩,
    ⟨"docs/architecture.md".toList,
      encode "UI -> command transport -> content-addressed vault -> restore\n",seedTime⟩,
    ⟨"src/app.ts".toList,encode "export const status = 'portfolio-ready';\n",seedTime⟩]

def createSeedState (now : Nat) : WebState where
  config := defaultConfig
  sourcePath := "/Browser Workspace/Portfolio".toList
  files := seedFiles (now-120)
  vaults := (∅ : Map Str Vault).insert "primary".toList newVault
    |>.insert "mirror".toList newVault
  strays := []
  status := emptyStatus
  logs := []
  integrity := .notChecked
  sequence := 1

/-- The first file with the path is replaced. -/
def replaceFile (path : Str) (bytes : Bytes) (mtimeUnix : Int) : List WebFile → List WebFile
  | [] => []
  | file::files => if file.relPath = path then ⟨path,bytes,mtimeUnix⟩::files
      else file::replaceFile path bytes mtimeUnix files

def newArchitecture : Bytes :=
  encode "UI -> typed command transport -> content-addressed vault -> verified restore\n"

def editArchitecture (now : Nat) (s : WebState) : WebState :=
  {s with files := replaceFile "docs/architecture.md".toList newArchitecture (now-30) s.files}

def seedSteps (env : WebEnv) : Op Unit := do
  let _ ← runBackup sha collation (env.now 1) (env.stamp 0)
  modify (editArchitecture (env.now 2))
  let _ ← runBackup sha collation (env.now 3) (env.stamp 1)
  let _ ← verifyState sha (env.now 4) (env.stamp 2)

/-- The state of a new workspace, with its two versions in the history. -/
def seedState (env : WebEnv) (history : List (Str × List WebFile)) : Work :=
  (seedSteps sha collation env ⟨createSeedState (env.now 0),history⟩).store

end Seed

/-- A configuration that the page sends, and whether it can be cloned. -/
structure Payload where
  config : WebConfig
  cloneable : Bool
  deriving DecidableEq, Repr

structure VersionRequest where
  sourcePath : Str
  versionId : Str
  deriving DecidableEq, Repr

structure ImportedFile where
  path : Str
  bytes : Bytes
  modifiedAt : Option Int
  deriving DecidableEq, Repr

inductive Command where
  | loadConfig
  | saveConfig (cfg : Option Payload)
  | removeProtectedPath (cfg : Option Payload) (sourcePath : Str)
  | relocateDestination (destinationId newPath : Str)
  | toggleSafeMode (desired : Bool)
  | getStatus
  | testAccess
  | runSimulate
  | runNow
  | verify
  | listVersions
  | listVersionFiles (request : Option VersionRequest) (query : Str) (limit : Nat)
  | restoreVersion (request : Option VersionRequest) (keepNewerVersions : Bool)
  | restoreFiles (request : Option VersionRequest) (relPaths : List Str)
  | logTail
  | workspaceSummary
  | readFile (path : Str)
  | writeFile (path text : Str)
  | deleteFile (path : Str)
  | importFiles (files : List ImportedFile)
  | corruptReplica
  | repairReplica
  | reset
  /-- The timer runs a backup. -/
  | scheduled
  /-- A command with a fixed answer. -/
  | fixed
  | other (name : Str)
  deriving DecidableEq, Repr

inductive RelocationKind where
  | promotedExistingSecondary | movedToNewLocation
  deriving DecidableEq, Repr

structure RelocationResult where
  config : WebConfig
  operation : RelocationKind
  filesMoved : Nat
  bytesMoved : Nat
  oldLocationRemoved : Bool
  deriving DecidableEq, Repr

structure RestoreResult where
  filesWritten : Nat
  filesRemoved : Nat
  dirsCreated : Nat
  newerVersionsRemoved : Nat
  deriving DecidableEq, Repr

structure WebSummary where
  sourcePath : Str
  files : List (Str × Nat × Int)
  versions : Nat
  uniqueBlobs : Nat
  logicalBytes : Nat
  storedBytes : Nat
  destinations : Nat
  lastRunAt : Option Nat
  integrity : Integrity
  deriving DecidableEq, Repr

structure FolderVersions where
  sourcePath : Str
  versions : List (Str × Nat)
  deriving DecidableEq, Repr

inductive Reply where
  | nothing
  | config (config : WebConfig)
  | relocated (result : RelocationResult)
  | safeMode (on : Bool)
  | status (status : WebStatus) (destinations : List WebDestination)
  | watchedOk (paths : List Str)
  | simulated (result : SimulationResult)
  | verified (result : VerifyResult)
  | versions (folders : List FolderVersions)
  | versionFiles (totalFiles : Nat) (files : List WebEntry)
  | restored (result : RestoreResult)
  | text (text : Str)
  | summary (summary : WebSummary)
  | file (file : WebFile)
  | repaired (repaired : Nat) (summary : WebSummary)
  deriving DecidableEq, Repr

def webSummary : Op WebSummary := do
  let vault ← primaryVault
  let s ← current
  let destinations ← lift (present s.config.destinations)
  let manifests := vault.manifests.filter fun m => m.sourcePath = s.sourcePath
  return ⟨s.sourcePath,s.files.map fun file => (file.relPath,file.bytes.length,file.mtimeUnix),
    manifests.length,(referenced manifests).length,
    (manifests.map fun m => (m.entries.map WebEntry.len).sum).sum,
    ((referenced manifests).map fun hash => (vault.blobs[hash]?.map List.length).getD 0).sum,
    destinations.length,s.status.lastRunTs,s.integrity⟩

section Settings
variable (sha : Sha256) (collation : Collation) (env : WebEnv)

/-- The path of the first watched item, unless it is empty. -/
def nextSourcePath (watched : List WebWatched) : Option Str :=
  (watched.head?.map WebWatched.path).filter fun path => path ≠ []

def useConfig (config : WebConfig) (next : Option Str) (s : WebState) : WebState :=
  {s with
    config := config
    status := {s.status with safeMode := config.safeMode}
    sourcePath := next.getD s.sourcePath}

def saveConfig (cfg : Option Payload) : Op Reply := do
  let payload ← lift (orElse cfg (reject "Configuration payload is required."))
  let s ← current
  let previous ← lift (present s.config.watched)
  let watched ← lift (present payload.config.watched)
  let removed ← removeSourceHistory env
    ((previous.map WebWatched.path).filter fun path => path ∉ watched.map WebWatched.path)
  check payload.cloneable .notCloned
  modify (useConfig payload.config (nextSourcePath watched))
  log (env.stamp 0) (if 0 < removed then
    "configuration saved; ".toList++num removed++" removed source manifests deleted".toList
    else "configuration saved in browser storage".toList)
  if !payload.config.safeMode && (nextSourcePath watched).isSome then
    let _ ← runBackup sha collation (env.now 0) (env.stamp 1)
    return .nothing
  else return .nothing

def forgetWarning (sourcePath : Str) (s : WebState) : WebState :=
  {s with status := {s.status with
    lastSafetyWarning := s.status.lastSafetyWarning.filter fun path => path ≠ sourcePath}}

def removeProtectedPath (cfg : Option Payload) (sourcePath : Str) : Op Reply := do
  let payload ← lift (orElse cfg (reject "Protected path removal payload is incomplete."))
  check (sourcePath ≠ []) (reject "Protected path removal payload is incomplete.")
  let s ← current
  let previous ← lift (present s.config.watched)
  check (sourcePath ∈ previous.map WebWatched.path) (reject "The protected path no longer exists.")
  let watched ← lift (present payload.config.watched)
  check (sourcePath ∉ watched.map WebWatched.path)
    (reject "Every destination entry for this protected path must be removed.")
  let removed ← removeSourceHistory env [sourcePath]
  check payload.cloneable .notCloned
  modify (useConfig payload.config (nextSourcePath watched))
  modify (forgetWarning sourcePath)
  log (env.stamp 0) ("protection removed; ".toList++num removed++
    " saved source manifests deleted".toList)
  return .nothing

def setPath (index : Nat) (path : Str) (destinations : List WebDestination) : List WebDestination :=
  destinations.modify index fun d => {d with path := path}

/-- The roots and the vaults of the first and of another destination change places. -/
def promote (destinations : List WebDestination) (main other : WebDestination) (existing : Nat)
    (s : WebState) : WebState :=
  let swapped := put other.id ((member s main.id).getD (some newVault))
    (put main.id ((member s other.id).getD (some newVault)) s)
  {swapped with config := {s.config with
    backupRoot := other.path
    destinations := some (setPath existing main.path (setPath 0 other.path destinations))}}

def moveTo (destinations : List WebDestination) (index : Nat) (newPath : Str) (s : WebState) :
    WebState :=
  {s with config := {s.config with
    backupRoot := if index = 0 then newPath else s.config.backupRoot
    destinations := some (setPath index newPath destinations)}}

def relocateDestination (destinationId newPath : Str) : Op Reply := do
  let s ← current
  let destinations ← lift (present s.config.destinations)
  let index ← lift (orElse (destinations.findIdx? fun d => d.id = destinationId)
    (reject "Storage location no longer exists."))
  check (newPath ≠ []) (reject "Choose a new storage location.")
  match destinations.findIdx? fun d => d.id ≠ destinationId ∧ d.path = newPath with
  | some existing => do
      check (index == 0)
        (reject "Only Main storage can switch with an existing secondary backup location.")
      let main ← lift (present destinations[0]?)
      let other ← lift (present destinations[existing]?)
      modify (promote destinations main other existing)
      log (env.stamp 0) ("existing secondary ".toList++other.id++
        " verified and promoted to Main storage".toList)
      let s ← current
      return .relocated ⟨s.config,.promotedExistingSecondary,0,0,false⟩
  | none => do
      let vault ← lift (vaultOf s destinationId)
      modify (moveTo destinations index newPath)
      log (env.stamp 0) ("storage ".toList++destinationId++" moved and verified at ".toList++newPath)
      let s ← current
      return .relocated ⟨s.config,.movedToNewLocation,vault.blobs.size+vault.manifests.length,
        (vault.blobs.values.map List.length).sum,true⟩

def toggleSafeMode (desired : Bool) : Op Reply := do
  modify fun s => {s with
    config := {s.config with safeMode := desired}
    status := {s.status with safeMode := desired}}
  log (env.stamp 0) (if desired then "foreground backup schedule paused".toList
    else "foreground backup schedule enabled".toList)
  if desired then return .safeMode desired
  else
    let _ ← runBackup sha collation (env.now 0) (env.stamp 1)
    return .safeMode desired

end Settings

section Versions
variable (sha : Sha256) (collation : Collation) (env : WebEnv)

def folderVersions (manifests : List WebManifest) (sourcePath : Str) : FolderVersions :=
  ⟨sourcePath,(byAge (manifests.filter fun m => m.sourcePath = sourcePath)).map fun m =>
    (m.id,m.createdAtUnix)⟩

def listVersions : Op Reply := do
  let vault ← primaryVault
  return .versions ((vault.manifests.map WebManifest.sourcePath).eraseDups.map
    (folderVersions vault.manifests))

def listVersionFiles (request : Option VersionRequest) (query : Str) (limit : Nat) : Op Reply := do
  let request ← lift (orElse request (reject "Version file request is required."))
  let manifest ← manifestById request.sourcePath request.versionId
  let wanted := collation.lower (jsTrim query)
  let found := manifest.entries.filter fun e => wanted = [] ∨ wanted <:+: collation.lower e.relPath
  return .versionFiles found.length (found.take limit)

def restoreEntry (vault : Vault) (entry : WebEntry) : Except WebError WebFile := do
  validateRestorePath entry.relPath
  match vault.blobs[entry.sha256]? with
  | some blob =>
      if sha256Hex sha blob = entry.sha256 then return ⟨entry.relPath,blob,entry.mtimeUnix⟩
      else throw (damaged entry)
  | none => throw (damaged entry)
where
  damaged (entry : WebEntry) : WebError :=
    .thrown ("Restore blocked because ".toList++entry.relPath++" failed integrity verification.".toList)

def restoredFiles (entries : List WebEntry) : Op (List WebFile) := do
  let vault ← primaryVault
  lift (entries.mapM (restoreEntry sha vault))

def cutNewer (keepNewerVersions : Bool) (sourcePath : Str) (selected : WebManifest) : Op Nat :=
  if keepNewerVersions then pure 0 else removeNewerManifests env sourcePath selected

def restoreVersion (request : Option VersionRequest) (keepNewerVersions : Bool) : Op Reply := do
  let request ← lift (orElse request (reject "Restore request is required."))
  let manifest ← manifestById request.sourcePath request.versionId
  let files ← restoredFiles sha manifest.entries
  let s ← current
  modify fun s => {s with files := files}
  let removed ← cutNewer env keepNewerVersions request.sourcePath manifest
  modify fun s => {s with integrity := .healthy}
  log (env.stamp 0) ("restored ".toList++num files.length++" files from ".toList++manifest.id++
    " into the browser workspace; ".toList++num removed++" newer versions removed".toList)
  return .restored ⟨files.length,s.files.length-files.length,
    ((files.map fun file => folderOf file.relPath).filter fun folder => folder ≠ []).eraseDups.length,
    removed⟩

/-- A file among the files by path, where it replaces an earlier one. -/
def setFile (files : List WebFile) (file : WebFile) : List WebFile :=
  if files.any fun f => f.relPath = file.relPath then
    files.map fun f => if f.relPath = file.relPath then file else f
  else files++[file]

def byPath (files : List WebFile) : List WebFile := files.foldl setFile []

def sortFiles (files : List WebFile) : List WebFile :=
  files.insertionSort fun left right => collation.le left.relPath right.relPath

def restoreFiles (request : Option VersionRequest) (relPaths : List Str) : Op Reply := do
  let request ← lift (orElse request (reject "Restore request is required."))
  let manifest ← manifestById request.sourcePath request.versionId
  let files ← restoredFiles sha (manifest.entries.filter fun e => e.relPath ∈ relPaths)
  modify fun s => {s with files := sortFiles collation (files.foldl setFile (byPath s.files))}
  log (env.stamp 0) ("restored ".toList++num files.length++" selected files from ".toList++manifest.id)
  return .restored ⟨files.length,0,0,0⟩

end Versions

section Workspace
variable (sha : Sha256) (collation : Collation) (env : WebEnv)

def notInWorkspace (path : Str) : WebError :=
  .thrown (path++" is not in the browser workspace.".toList)

def readFile (path : Str) : Op Reply := do
  let path ← lift (normalizeWorkspacePath path)
  let s ← current
  let file ← lift (orElse (s.files.find? fun file => file.relPath = path) (notInWorkspace path))
  return .file file

/-- The first file with the path is replaced, or the files get a new one. -/
def writtenFile (path : Str) (bytes : Bytes) (mtimeUnix : Int) (s : WebState) : WebState :=
  {s with
    files := if s.files.any fun file => file.relPath = path then
        replaceFile path bytes mtimeUnix s.files
      else sortFiles collation (s.files++[⟨path,bytes,mtimeUnix⟩])
    integrity := .notChecked}

def writeFile (path text : Str) : Op Reply := do
  let path ← lift (normalizeWorkspacePath path)
  let bytes := utf8 text
  check (bytes.length ≤ 2000000) (reject "The built-in editor is limited to 2 MB per file.")
  modify (writtenFile collation path bytes (env.now 0))
  log (env.stamp 0) ("workspace file saved: ".toList++path++" (".toList++num bytes.length++
    " bytes)".toList)
  return .summary (← webSummary)

def deleteFile (path : Str) : Op Reply := do
  let path ← lift (normalizeWorkspacePath path)
  let s ← current
  let kept := s.files.filter fun file => file.relPath ≠ path
  modify fun s => {s with files := kept}
  check (kept.length ≠ s.files.length) (notInWorkspace path)
  log (env.stamp 0) ("workspace file deleted: ".toList++path)
  return .summary (← webSummary)

/-- One imported file, at its place in the batch. -/
def importFile (files : List WebFile) (imported : ImportedFile × Nat) : Except WebError (List WebFile) := do
  let path ← normalizeWorkspacePath imported.1.path
  if 10000000 < imported.1.bytes.length then
    throw (.thrown (path++" exceeds the 10 MB per-file browser limit.".toList))
  else return setFile files ⟨path,imported.1.bytes,imported.1.modifiedAt.getD (env.now imported.2)⟩

def importFiles (imported : List ImportedFile) : Op Reply := do
  check (imported ≠ []) (reject "Choose at least one file to import.")
  let totalBytes := (imported.map fun file => file.bytes.length).sum
  check (imported.length ≤ 500 && totalBytes ≤ 50000000)
    (reject "Imports are limited to 500 files and 50 MB per batch.")
  let s ← current
  let files ← lift (imported.zipIdx.foldlM (importFile env) (byPath s.files))
  modify fun s => {s with files := sortFiles collation files,integrity := .notChecked}
  log (env.stamp 0) ("imported ".toList++num imported.length++" files (".toList++num totalBytes++
    " bytes) into the browser workspace".toList)
  if s.config.safeMode then return .summary (← webSummary)
  else
    let _ ← runBackup sha collation (env.now imported.length) (env.stamp 1)
    return .summary (← webSummary)

/-- The first byte with all its bits the other way. -/
def damage : Bytes → Bytes
  | [] => []
  | b::bytes => (b ^^^ 0xff)::bytes

/-- What the record has for a destination that has an id. -/
def memberAt (s : WebState) (destination : Option WebDestination) : Option (Str × Option Vault) := do
  let destination ← destination
  if destination.id = [] then none
  else return (destination.id,← member s destination.id)

def setBlob (id hash : Str) (bytes : Bytes) (s : WebState) : WebState :=
  match s.vaults[id]? with
  | some vault => {s with vaults := s.vaults.insert id {vault with blobs := vault.blobs.insert hash bytes}}
  | none => s

/-- The first blob of the newest manifest in a vault, unless it is empty. -/
def firstBlob (vault : Vault) (sourcePath : Str) : Option (Str × Bytes) := do
  let manifest ← latestManifest vault sourcePath
  let entry ← manifest.entries.head?
  let blob ← vault.blobs[entry.sha256]?
  if blob = [] then none else return (entry.sha256,blob)

def corruptReplica : Op Reply := do
  let s ← current
  let destinations ← lift (present s.config.destinations)
  check (((destinations[1]?).map WebDestination.id).any fun id => id ≠ [])
    (reject "Add a mirror destination before testing repair.")
  let (id,found) ← lift (orElse (memberAt s destinations[1]?)
    (reject "The mirror does not contain a repairable backup blob yet."))
  let mirror ← lift (present found)
  let (hash,blob) ← lift (orElse (firstBlob mirror s.sourcePath)
    (reject "The mirror does not contain a repairable backup blob yet."))
  modify (setBlob id hash (damage blob))
  modify fun s => {s with integrity := .damaged}
  log (env.stamp 0) ("integrity lab damaged mirror blob ".toList++hash.take 12++"…".toList)
  return .summary (← webSummary)

/-- One blob is taken from another vault, if it is damaged here and healthy there. -/
def repairBlob (primary : Vault) (repaired : Vault × Nat) (hash : Str) : Vault × Nat :=
  if healthyBlob sha repaired.1 hash then repaired
  else if healthyBlob sha primary hash then
    match primary.blobs[hash]? with
    | some blob => ({repaired.1 with blobs := repaired.1.blobs.insert hash blob},repaired.2+1)
    | none => repaired
  else repaired

/-- A vault with the blobs that another vault can repair, and their number. -/
def repairVault (primary mirror : Vault) : Vault × Nat :=
  (referenced mirror.manifests).foldl (repairBlob sha primary) (mirror,0)

def repairReplica : Op Reply := do
  let s ← current
  let destinations ← lift (present s.config.destinations)
  let (_,primary) ← lift (orElse (memberAt s destinations[0]?)
    (reject "Primary and mirror vaults are required for repair."))
  let (id,found) ← lift (orElse (memberAt s destinations[1]?)
    (reject "Primary and mirror vaults are required for repair."))
  let mirror ← lift (present found)
  -- What is no vault is read for the first blob that is damaged.
  check (primary.isSome || (referenced mirror.manifests).all (healthyBlob sha mirror)) .typeError
  let repair := repairVault sha (primary.getD newVault) mirror
  check (repair.2 ≠ 0) (reject "No damaged mirror blobs could be repaired.")
  modify fun s => {s with vaults := s.vaults.insert id repair.1}
  log (env.stamp 0) ("replication repair restored ".toList++num repair.2++" mirror blob".toList++
    if repair.2 = 1 then [] else ['s'])
  let _ ← verifyState sha (env.now 0) (env.stamp 1)
  return .repaired repair.2 (← webSummary)

def reset : Op Reply := do
  let w ← read
  let fresh := seedState sha collation env w.history
  step fun _ => fresh
  return .summary (← webSummary)

end Workspace

section Transport
variable (sha : Sha256) (collation : Collation) (env : WebEnv)

/-- Commands that go to the object and do not save it. -/
def readCommand : Command → Option (Op Reply)
  | .loadConfig => some do return .config (← current).config
  | .getStatus => some do
      let s ← current
      let destinations ← lift (present s.config.destinations)
      return .status s.status destinations
  | .testAccess => some do
      let s ← current
      let watched ← lift (present s.config.watched)
      return .watchedOk (watched.map WebWatched.path).eraseDups
  | .runSimulate => some do
      let s ← current
      return .simulated (← lift (previewState sha collation s))
  | .listVersions => some listVersions
  | .listVersionFiles request query limit => some (listVersionFiles collation request query limit)
  | .logTail => some do
      let s ← current
      return .text ((s.logs.intersperse ['\n']).flatten)
  | .workspaceSummary => some do return .summary (← webSummary)
  | .readFile path => some (readFile path)
  | .fixed => some (pure .nothing)
  | .other name => some (fail (.thrown ("Command ".toList++name++
      " is available only in the desktop application.".toList)))
  | _ => none

/-- Commands that edit the object and save it at the end. -/
def mutation : Command → Op Reply
  | .saveConfig cfg => saveConfig sha collation env cfg
  | .removeProtectedPath cfg sourcePath => removeProtectedPath env cfg sourcePath
  | .relocateDestination destinationId newPath => relocateDestination env destinationId newPath
  | .toggleSafeMode desired => toggleSafeMode sha collation env desired
  | .runNow => do return .simulated (← runBackup sha collation (env.now 0) (env.stamp 0))
  | .verify => do return .verified (← verifyState sha (env.now 0) (env.stamp 0))
  | .restoreVersion request keepNewerVersions => restoreVersion sha env request keepNewerVersions
  | .restoreFiles request relPaths => restoreFiles sha collation env request relPaths
  | .writeFile path text => writeFile collation env path text
  | .deleteFile path => deleteFile env path
  | .importFiles imported => importFiles sha collation env imported
  | .corruptReplica => corruptReplica env
  | .repairReplica => repairReplica sha env
  | .reset => reset sha collation env
  | .scheduled => do
      let s ← current
      if s.config.safeMode then return .nothing
      else
        let _ ← runBackup sha collation (env.now 0) (env.stamp 0)
        return .nothing
  | _ => pure .nothing

def persistState : Action Session WebError Unit :=
  match env.storage with
  | .absent => pure ()
  | .works => do
      let s ← read
      check s.work.state.strays.isEmpty .notCloned
      step fun s => {s with persisted := some s.work.state}
  | .fails => fail .notSaved

def onWork {α : Type} (op : Op α) : Action Session WebError α :=
  zoom Session.work (fun w s => {s with work := w}) op

def mutate (operation : Op Reply) : Action Session WebError Reply := do
  let result ← onWork operation
  persistState env
  return result

def invokeWebCommand (command : Command) : Action Session WebError Reply :=
  match readCommand sha collation command with
  | some selector => onWork selector
  | none => mutate env (mutation sha collation env command)

end Transport

end WebEngine
end BackupSync
