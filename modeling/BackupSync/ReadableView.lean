import BackupSync.VersionStore
import BackupSync.ScanSnapshot

/-!
# The readable view of a source

sync_source_readable_view publishes one folder for each source in a destination
that is not encrypted: the newest version under Latest, each other version of the
index under Previous Versions. Folders the program made carry a marker file, one
kind for the folder of a source and one for the tree of a version; whatever has
no marker belongs to somebody else.

The state is the listing of the destination, down to the entries of Previous
Versions. Every change is one step: a rename, the removal of a tree, the creation
of a folder, each stage of a staged tree. A staging folder gets its marker before
it is renamed, and may stay behind where a call is cut or cannot clean up. Looks
for what is there are taken to succeed, but for the index; links are left out.
-/
namespace BackupSync.ReadableView
open Checks Interruptible Interruptible.Action ContentHash RelativePath ScanSnapshot

inductive ViewError where
  | readIndex
  | parseIndex
  | unsafeIndex (reason : VersionIndex.UnsafeId)
  | sourceMismatch
  | createDestination
  | listDestination
  | unreadableMarker
  | sourceOccupied (name : Str)
  | sourceStageExists (name : Str)
  | createSourceStage
  | publishSource
  | notRealDirectory
  | unownedLatest
  | duplicateVersion (id : Str)
  | versionOccupied (name : Str)
  | renameVersion
  | targetExists
  | versionStageExists (name : Str)
  | buildVersion (id : Str)
  | markVersion (id : Str)
  | publishVersion (id : Str)
  | refusedUnowned
  | removeVersion
  deriving DecidableEq, Repr

/-- What stands at the place of a marker file; a broken one is no regular file or does not parse. -/
inductive Marker where
  | absent
  | broken
  | names (value : Str)
  deriving DecidableEq, Repr

def readJsonMarker : Marker → Except ViewError (Option Str)
  | .absent => .ok none
  | .broken => .error .unreadableMarker
  | .names value => .ok (some value)

/-- An entry of a view folder, with the version marker of a directory. -/
inductive ViewEntry (Content : Type) where
  | file (content : Content)
  | directory (marker : Marker) (content : Content)
  deriving DecidableEq, Repr

inductive PreviousFolder (Content : Type) where
  | absent
  | file (content : Content)
  | directory (entries : Map Str (ViewEntry Content))

/-- The folder of a source; others are its entries apart from the two and the marker. -/
structure SourceFolder (Content : Type) where
  latest : Option (ViewEntry Content)
  previous : PreviousFolder Content
  others : Map Str (ViewEntry Content)

/-- An entry of the destination, with the source marker of a directory. -/
inductive TopEntry (Content : Type) where
  | file (content : Content)
  | directory (marker : Marker) (folder : SourceFolder Content)

abbrev Shelf (Content : Type) := Map Str (TopEntry Content)

/-- The paths at which version trees are kept. -/
inductive ViewPlace where
  | latest
  | previous (name : Str)
  deriving DecidableEq, Repr

variable {Content : Type}

namespace ViewEntry

def marker : ViewEntry Content → Marker
  | file _ => .absent
  | directory m _ => m

def readVersionMarker (e : ViewEntry Content) : Except ViewError (Option Str) :=
  readJsonMarker e.marker

/-- The version whose managed tree this is. -/
def versionId (e : ViewEntry Content) : Option Str :=
  match e.marker with
  | .names id => some id
  | _ => none

end ViewEntry

namespace SourceFolder

def empty : SourceFolder Content := ⟨none,.absent,∅⟩

def older (s : SourceFolder Content) : Map Str (ViewEntry Content) :=
  match s.previous with
  | .directory entries => entries
  | _ => ∅

def entry (s : SourceFolder Content) : ViewPlace → Option (ViewEntry Content)
  | .latest => s.latest
  | .previous name => s.older[name]?

/-- An entry beside a place, in the same folder. -/
def beside (s : SourceFolder Content) (name : Str) : ViewPlace → Option (ViewEntry Content)
  | .latest => s.others[name]?
  | .previous _ => s.older[name]?

def put (place : ViewPlace) (e : ViewEntry Content) (s : SourceFolder Content) :
    SourceFolder Content :=
  match place with
  | .latest => {s with latest := some e}
  | .previous name => {s with previous := .directory (s.older.insert name e)}

def remove (place : ViewPlace) (s : SourceFolder Content) : SourceFolder Content :=
  match place with
  | .latest => {s with latest := none}
  | .previous name => {s with previous := .directory (s.older.erase name)}

/-- A new entry beside a place. -/
def putBeside (place : ViewPlace) (name : Str) (e : ViewEntry Content) (s : SourceFolder Content) :
    SourceFolder Content :=
  match place with
  | .latest => {s with others := s.others.insert name e}
  | .previous _ => s.put (.previous name) e

def removeBeside (place : ViewPlace) (name : Str) (s : SourceFolder Content) : SourceFolder Content :=
  match place with
  | .latest => {s with others := s.others.erase name}
  | .previous _ => s.remove (.previous name)

/-- The rename of an entry beside a place to it. -/
def publish (place : ViewPlace) (name : Str) (s : SourceFolder Content) : SourceFolder Content :=
  match s.beside name place with
  | none => s
  | some e => (s.removeBeside place name).put place e

/-- The rename of an entry. -/
def move (source target : ViewPlace) (s : SourceFolder Content) : SourceFolder Content :=
  match s.entry source with
  | none => s
  | some e => (s.remove source).put target e

end SourceFolder

/-- A point of local time. -/
structure LocalTime where
  year : Int
  month : Nat
  day : Nat
  hour : Nat
  minute : Nat
  second : Nat
  deriving DecidableEq, Repr

def padded (width n : Nat) : Str :=
  List.replicate (width-(Nat.toDigits 10 n).length) '0'++Nat.toDigits 10 n

/-- The format %Y-%m-%d at %H.%M.%S; a year of more or fewer than four digits has a sign. -/
def LocalTime.format (t : LocalTime) : Str :=
  (if t.year < 0 then ['-'] else if 9999 < t.year then ['+'] else [])++padded 4 t.year.natAbs++
    "-".toList++padded 2 t.month++"-".toList++padded 2 t.day++" at ".toList++
    padded 2 t.hour++".".toList++padded 2 t.minute++".".toList++padded 2 t.second

/-- A path as its lossy text and, where it has one in Unicode, its file name. -/
structure SourcePath where
  text : Str
  name : Option Str
  deriving DecidableEq, Repr

def SourcePath.ofText (path : Str) : SourcePath := ⟨path,fileName path⟩

/-- What remove_dir_all makes of the staging folder of a source; its result is not looked at. -/
inductive Clearing where
  | removed | unmarked | kept
  deriving DecidableEq, Repr

structure PublishEnv where
  /-- The first names of each listing. -/
  order : List Str
  processId : Nat
  listable : Bool
  stageCreated : Bool
  markerWritten : Bool
  renamed : Bool
  clearing : Clearing
  deriving DecidableEq, Repr

/-- What remove_dir_all leaves of a tree where it fails, with the marker or without it. -/
structure Leftover (Content : Type) where
  marked : Bool
  content : Content

def Leftover.entry (marker : Marker) (left : Leftover Content) : ViewEntry Content :=
  .directory (if left.marked then marker else .absent) left.content

/-- How the staging of a tree goes. -/
structure Staging (Content : Type) where
  /-- What is there while the tree is built, or nothing where the folder is not created. -/
  begun : Option Content
  built : Option Content
  marked : Bool
  renamed : Bool
  /-- What is left where a failed call cannot clean up. -/
  left : Option (Leftover Content)

/-- What one call meets outside the view. -/
structure ViewEnv (Content : Type) extends PublishEnv where
  indexAccess : Access
  destinationIsDir : Bool
  destinationCreated : Bool
  localTime : Int → Option LocalTime
  /-- How build_version_tree_from_store and what follows it go for each version. -/
  staging : VersionInfo → Staging Content
  /-- What is left of the tree at a place if it cannot be removed. -/
  removal : ViewPlace → Option (Leftover Content)

abbrev ViewOp (Content α : Type) := Action (SourceFolder Content) ViewError α

variable (sha : Sha256) (env : ViewEnv Content) (source : Str)

def shortHash : Str := (sourceId sha source).take 8

def shortId (v : VersionInfo) : Str := v.id.take 15

def readableVersionName (v : VersionInfo) : Str :=
  ((env.localTime v.createdAtUnix).map (·.format)).getD v.id

def alternateVersionName (v : VersionInfo) : Str :=
  readableVersionName env v++" — ".toList++shortId v

def versionStage (v : VersionInfo) : Str :=
  ".backup-sync-version-stage-".toList++(Nat.toDigits 10 env.processId : Str)++"-".toList++
    shortHash sha source++"-".toList++shortId v

def availableVersionPath (entries : Map Str (ViewEntry Content))
    (v : VersionInfo) : Except ViewError Str :=
  match entries[readableVersionName env v]? with
  | none => .ok (readableVersionName env v)
  | some e => do
      if (← e.readVersionMarker) = some v.id then .ok (readableVersionName env v)
      else if entries[alternateVersionName env v]?.isSome then
        .error (.versionOccupied (alternateVersionName env v))
      else .ok (alternateVersionName env v)

/-- The step of previous_versions_by_id for one entry. -/
def noteVersion (entries : Map Str (ViewEntry Content))
    (found : Map Str Str) (name : Str) :
    Except ViewError (Map Str Str) :=
  match entries[name]? with
  | none => .ok found
  | some e => do
      match ← e.readVersionMarker with
      | none => .ok found
      | some id =>
          if found[id]?.isSome then .error (.duplicateVersion id)
          else .ok (found.insert id name)

def previousVersionsById (entries : Map Str (ViewEntry Content)) :
    Except ViewError (Map Str Str) :=
  (listed env.order entries.keys).foldlM (noteVersion entries) ∅

def ensureRealDirectory : ViewOp Content Unit := do
  let s ← read
  match s.previous with
  | .absent => step fun s => {s with previous := .directory ∅}
  | .file _ => fail .notRealDirectory
  | .directory _ => pure ()

/-- fs::rename of a tree, which does not replace a tree. -/
def renameTree (start target : ViewPlace) : ViewOp Content Unit := do
  let s ← read
  check (s.entry target).isNone .renameVersion
  step (·.move start target)

def removeManagedVersionTree (place : ViewPlace) : ViewOp Content Unit := do
  let s ← read
  match ← lift (((s.entry place).map (·.readVersionMarker)).getD (.ok none)) with
  | none => fail .refusedUnowned
  | some id => match env.removal place with
    | none => step (·.remove place)
    | some left => stepThenFail (·.put place (left.entry (.names id))) .removeVersion

/-- The tree is built beside its place, gets its marker and then its name. -/
def stageVersion (v : VersionInfo) (target : ViewPlace) : ViewOp Content Unit := do
  let begun ← lift (orElse (env.staging v).begun (.buildVersion v.id))
  step (·.putBeside target (versionStage sha env source v) (.directory .absent begun))
  let content ← lift (orElse (env.staging v).built (.buildVersion v.id))
  step (·.putBeside target (versionStage sha env source v) (.directory .absent content))
  check (env.staging v).marked (.markVersion v.id)
  step (·.putBeside target (versionStage sha env source v) (.directory (.names v.id) content))
  check (env.staging v).renamed (.publishVersion v.id)
  step (·.publish target (versionStage sha env source v))

def clearVersionStage (v : VersionInfo) (target : ViewPlace) : ViewOp Content Unit := do
  let s ← read
  match s.beside (versionStage sha env source v) target with
  | none => pure ()
  | some e => match (env.staging v).left with
    | none => step (·.removeBeside target (versionStage sha env source v))
    | some left => step (·.putBeside target (versionStage sha env source v) (left.entry e.marker))

def materializeManagedVersion (v : VersionInfo) (target : ViewPlace) : ViewOp Content Unit := do
  let s ← read
  check (s.entry target).isNone .targetExists
  check (s.beside (versionStage sha env source v) target).isNone
    (.versionStageExists (versionStage sha env source v))
  match ← attempt (stageVersion sha env source v target) with
  | .ok _ => pure ()
  | .error e => do
      clearVersionStage sha env source v target
      fail e

/-- The old latest tree becomes a previous one or goes. -/
def archiveLatest (latest : VersionInfo) (previous : List VersionInfo) : ViewOp Content Unit := do
  let s ← read
  match s.latest with
  | none => pure ()
  | some e =>
      match ← lift e.readVersionMarker with
      | none => fail .unownedLatest
      | some id =>
          if id = latest.id then pure ()
          else match previous.find? (·.id = id) with
            | some v => do
                let target ← lift (availableVersionPath env s.older v)
                renameTree .latest (.previous target)
            | none => removeManagedVersionTree env .latest

/-- The body of the loop over the previous versions. -/
def placeVersion (existing : Map Str Str) (v : VersionInfo) :
    ViewOp Content (Map Str Str) := do
  let s ← read
  match existing[v.id]? with
  | some name =>
      if name ≠ readableVersionName env v ∧ s.older[readableVersionName env v]?.isNone then do
        renameTree (.previous name) (.previous (readableVersionName env v))
        return existing.insert v.id (readableVersionName env v)
      else return existing
  | none => do
      let target ← lift (availableVersionPath env s.older v)
      materializeManagedVersion sha env source v (.previous target)
      return existing.insert v.id target

def removeUnlisted (previous : List VersionInfo) (existing : Map Str Str)
    (id : Str) : ViewOp Content Unit :=
  match existing[id]? with
  | none => pure ()
  | some name =>
      if previous.any (·.id = id) then pure ()
      else removeManagedVersionTree env (.previous name)

def syncVersions (latest : VersionInfo) (previous : List VersionInfo) : ViewOp Content Unit := do
  ensureRealDirectory
  archiveLatest env latest previous
  let s ← read
  let existing ← lift (previousVersionsById env s.older)
  let existing ← previous.foldlM (placeVersion sha env source) existing
  (listed env.order existing.keys).foldlM (fun _ id => removeUnlisted env previous existing id) ()
  let s ← read
  if s.latest.isNone then materializeManagedVersion sha env source latest .latest else pure ()

namespace Shelf

def folder (name : Str) (shelf : Shelf Content) : SourceFolder Content :=
  match shelf[name]? with
  | some (.directory _ s) => s
  | _ => .empty

def setFolder (name : Str) (s : SourceFolder Content) (shelf : Shelf Content) : Shelf Content :=
  match shelf[name]? with
  | some (.directory marker _) => shelf.insert name (.directory marker s)
  | _ => shelf

end Shelf

def findSourceView (shelf : Shelf Content) : List Str → Except ViewError (Option Str)
  | [] => .ok none
  | name::names => match shelf[name]? with
    | some (.directory marker _) => do
        if (← readJsonMarker marker) = some source then .ok (some name)
        else findSourceView shelf names
    | _ => findSourceView shelf names

/-- char::is_control. -/
def isControl (c : Char) : Bool := c.toNat < 32 || (127 ≤ c.toNat && c.toNat < 160)

def cleanedChar (c : Char) : Char :=
  if c ∈ "/\\:*?\"<>|".toList || isControl c then '-' else c

def readableSourceName (name : Option Str) : Str :=
  let raw := (name.filter fun name => !name.all isWhitespace).getD "Backup".toList
  let cleaned := trimMatches (fun c => c = '.' || c = ' ') (raw.map cleanedChar)
  if cleaned.isEmpty then "Backup".toList else cleaned

section Sources
variable (env : PublishEnv) (path : SourcePath)

/-- The name for the folder of a source that has none yet. -/
def sourceTarget (shelf : Shelf Content) : Str :=
  if shelf[readableSourceName path.name]?.isSome then
    readableSourceName path.name++" — ".toList++shortHash sha path.text
  else readableSourceName path.name

def sourceStage : Str :=
  ".backup-sync-source-stage-".toList++(Nat.toDigits 10 env.processId : Str)++"-".toList++
    shortHash sha path.text

def writeJsonMarker : Action (Shelf Content) ViewError Unit :=
  if env.markerWritten then
    step fun shelf => shelf.insert (sourceStage sha env path) (.directory (.names path.text) .empty)
  else fail .publishSource

/-- fs::rename of the staging folder. -/
def renameStage (target : Str) : Action (Shelf Content) ViewError Unit :=
  if env.renamed then
    step fun shelf => match shelf[sourceStage sha env path]? with
      | some e => (shelf.erase (sourceStage sha env path)).insert target e
      | none => shelf
  else fail .publishSource

def clearStage : Action (Shelf Content) ViewError Unit :=
  match env.clearing with
  | .removed => step fun shelf => shelf.erase (sourceStage sha env path)
  | .unmarked => step fun shelf => shelf.insert (sourceStage sha env path) (.directory .absent .empty)
  | .kept => pure ()

def publishSource (target : Str) : Action (Shelf Content) ViewError Str := do
  check env.stageCreated .createSourceStage
  step fun shelf => shelf.insert (sourceStage sha env path) (.directory .absent .empty)
  match ← attempt (do
    writeJsonMarker sha env path
    renameStage sha env path target) with
  | .ok _ => return target
  | .error e => do
      clearStage sha env path
      fail e

def findOrCreateSourceView : Action (Shelf Content) ViewError Str := do
  check env.listable .listDestination
  let shelf ← read
  match ← lift (findSourceView path.text shelf (listed env.order shelf.keys)) with
  | some name => return name
  | none => do
      let target := sourceTarget sha path shelf
      check shelf[target]?.isNone (.sourceOccupied target)
      check shelf[sourceStage sha env path]?.isNone
        (.sourceStageExists (sourceStage sha env path))
      publishSource sha env path target

end Sources

def removeLatestTree : ViewOp Content Unit := do
  let s ← read
  let marker ← lift ((s.latest.map (·.readVersionMarker)).getD (.ok none))
  if marker.isSome then removeManagedVersionTree env .latest else pure ()

/-- The trees go, and Previous Versions too once nothing is left in it. -/
def removePreviousTrees : ViewOp Content Unit := do
  let s ← read
  match s.previous with
  | .directory entries => do
      let existing ← lift (previousVersionsById env entries)
      (listed env.order existing.keys).foldlM (fun _ id => removeUnlisted env [] existing id) ()
      let s ← read
      if s.older.isEmpty then step fun s => {s with previous := .absent} else pure ()
  | _ => pure ()

def SourceFolder.isBare (s : SourceFolder Content) : Bool :=
  s.latest.isNone && s.others.isEmpty && match s.previous with
    | .absent => true
    | _ => false

def removeGeneratedPlaintextView : Action (Shelf Content) ViewError Unit := do
  if env.destinationIsDir then do
    let shelf ← read
    match ← lift (findSourceView source shelf (listed env.order shelf.keys)) with
    | none => pure ()
    | some name => do
        zoom (Shelf.folder name) (Shelf.setFolder name) (do
          removeLatestTree env
          removePreviousTrees env)
        let shelf ← read
        if (shelf.folder name).isBare then do
          step fun shelf => shelf.insert name (.directory .absent (shelf.folder name))
          step fun shelf => shelf.erase name
        else pure ()
  else pure ()

section Sync
variable {Text : Type} [StoreText Text] (dir : SourceDir Text) (watched : WatchedPath)
  (encrypted : Bool)

/-- The index of the source, where one is seen. -/
def committedIndex : Except ViewError (Option VersionIndex) := do
  match ← env.indexAccess.read dir.index .readIndex with
  | none => return none
  | some text =>
      let index ← orElse (StoreText.readIndex text) .parseIndex
      index.validateVersionIndex.mapError .unsafeIndex
      require (index.sourcePath = watched.path) .sourceMismatch
      return some index

def previousVersions (versions : List VersionInfo) (latest : VersionInfo) : List VersionInfo :=
  versions.filter fun v => v.id ≠ latest.id

def syncSourceReadableView : Action (Shelf Content) ViewError (Option Str) := do
  if !watched.enabled || watched.kind ≠ .directory then return none
  else if encrypted then do
    removeGeneratedPlaintextView env watched.path
    return none
  else do
    let index ← lift (committedIndex env dir watched)
    match index.bind (·.versions.getLast?) with
    | none => return none
    | some latest => do
        check env.destinationCreated .createDestination
        let name ← findOrCreateSourceView sha env.toPublishEnv (.ofText watched.path)
        zoom (Shelf.folder name) (Shelf.setFolder name) (syncVersions sha env watched.path latest
          (previousVersions ((index.map (·.versions)).getD []) latest))
        return some name

end Sync
end BackupSync.ReadableView
