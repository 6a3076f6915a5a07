import BackupSync.Checks
import BackupSync.ScanSnapshot
import BackupSync.BlobCodec

/-!
# Destinations and watched paths of a configuration

Only the settings the versioned store depends on are kept. Validation covers the
destinations, their replication targets and the watched paths, in the order of
the source. What the operating system says about a path is a separate record.
The checks of numeric tuning values are left out; they restrict none of the
fields below except the chunk sizes of the codec.
-/
namespace BackupSync
open Checks RelativePath

structure Destination where
  id : Str
  path : Str
  maxBackupsPerFile : Option Nat
  replicateTo : List Str
  deriving DecidableEq, Repr

structure Config where
  maxBackupsPerFile : Nat
  minFreeSpaceBytes : Option Nat
  freeSpaceSafetyBufferBytes : Nat
  replicationEnabled : Bool
  replicationMirrorManifests : Bool
  replicationMaxManifestDeletesPerCycle : Nat
  safetyThreshold : ℚ
  scan : ScanOptions
  codec : BlobCodec
  watched : List WatchedPath
  destinations : List Destination

/-- What the checks ask the file system. -/
structure PathProbe where
  pathExists : Str → Bool
  isFile : Str → Bool
  creatable : Str → Bool

inductive ConfigError where
  | tooManyWatched (limit : Nat)
  | noDestinations
  | emptyDestinationId
  | duplicateDestinationId (id : Str)
  | zeroBackups (id : Str)
  | emptyPath (id : Str)
  | destinationIsRoot (id : Str)
  | destinationIsFile (id : Str)
  | notWritable (id : Str)
  | emptyTarget (id : Str)
  | selfTarget (id : Str)
  | unknownTarget (id target : Str)
  | watchedIsRoot (path : Str)
  | duplicatePair (path destinationId : Str)
  | missingDestination (destinationId : Str)
  | watchedInsideDestination (path destination : Str)
  | destinationInsideWatched (path destination : Str)
  deriving DecidableEq, Repr

namespace Configuration

def maxWatched : Nat := 500

/-- str::trim leaves nothing. -/
def isBlank (s : Str) : Bool := s.all isWhitespace

/-- Path::parent is there. -/
def hasParent (path : Str) : Bool :=
  match (components path).getLast? with
  | none => false
  | some .rootDir => false
  | some _ => true

/-- Path::starts_with. -/
def startsWith (path base : Str) : Bool := (components base).isPrefixOf (components path)

/-- The map from id to destination; a later entry replaces an earlier one. -/
def destinationById (cfg : Config) (id : Str) : Option Destination :=
  cfg.destinations.reverse.find? fun d => d.id = id

/-- The configuration as the file system understands it, given the folder that each destination
path leads to: paths that lead to one folder are one. -/
def resolvedBy (place : Str → Str) (cfg : Config) : Config :=
  {cfg with destinations := cfg.destinations.map fun d => {d with path := place d.path}}

theorem destinationById_resolvedBy (place : Str → Str) (cfg : Config) (id : Str) :
    destinationById (resolvedBy place cfg) id =
      (destinationById cfg id).map fun d => {d with path := place d.path} := by
  unfold destinationById resolvedBy
  dsimp only
  rw [← List.map_reverse,List.find?_map]
  rfl

def validateCount (cfg : Config) : Except ConfigError Unit :=
  require (cfg.watched.length ≤ maxWatched) (.tooManyWatched maxWatched)

def validateOneDestination (cfg : Config) (probe : PathProbe) (ids : List Str) (d : Destination) :
    Except ConfigError Unit := do
  require (!isBlank d.id) .emptyDestinationId
  require (d.id ∉ ids) (.duplicateDestinationId d.id)
  require (d.maxBackupsPerFile.getD cfg.maxBackupsPerFile ≠ 0) (.zeroBackups d.id)
  require (!d.path.isEmpty) (.emptyPath d.id)
  require (hasParent d.path) (.destinationIsRoot d.id)
  require (!(probe.pathExists d.path && probe.isFile d.path)) (.destinationIsFile d.id)
  require (!probe.pathExists d.path || probe.creatable d.path) (.notWritable d.id)

/-- The loop over the destinations, with the ids already seen. -/
def validateDestinations (cfg : Config) (probe : PathProbe) :
    List Str → List Destination → Except ConfigError Unit
  | _,[] => .ok ()
  | ids,d::ds => do
      validateOneDestination cfg probe ids d
      validateDestinations cfg probe (d.id::ids) ds

def validateTarget (cfg : Config) (d : Destination) (target : Str) : Except ConfigError Unit := do
  require (!isBlank target) (.emptyTarget d.id)
  require (target ≠ d.id) (.selfTarget d.id)
  require (destinationById cfg target).isSome (.unknownTarget d.id target)

def validateReplicationTargets (cfg : Config) : Except ConfigError Unit :=
  cfg.destinations.forM fun d => d.replicateTo.forM (validateTarget cfg d)

def validateAndIndex (cfg : Config) (probe : PathProbe) : Except ConfigError Unit := do
  require (!cfg.destinations.isEmpty) .noDestinations
  validateDestinations cfg probe [] cfg.destinations
  validateReplicationTargets cfg

/-- A watched path and its destination, as the set of the pairs already seen compares them. -/
abbrev PairKey := List Component × Str

def pairKey (w : WatchedPath) : PairKey := (components w.path,w.destinationId)

def validateWatched (cfg : Config) (seen : List PairKey) (w : WatchedPath) :
    Except ConfigError Unit := do
  require (hasParent w.path) (.watchedIsRoot w.path)
  require (pairKey w ∉ seen) (.duplicatePair w.path w.destinationId)
  let d ← orElse (destinationById cfg w.destinationId) (.missingDestination w.destinationId)
  require (!startsWith w.path d.path) (.watchedInsideDestination w.path d.path)
  require (!startsWith d.path w.path) (.destinationInsideWatched w.path d.path)

/-- The loop over the watched paths, with the pairs already seen. -/
def validatePaths (cfg : Config) : List PairKey → List WatchedPath → Except ConfigError Unit
  | _,[] => .ok ()
  | seen,w::ws => do
      validateWatched cfg seen w
      validatePaths cfg (pairKey w::seen) ws

def validate (cfg : Config) (probe : PathProbe) : Except ConfigError Unit := do
  validateCount cfg
  validateAndIndex cfg probe
  validatePaths cfg [] cfg.watched

/-- What validation guarantees of the destinations of the watched paths. -/
structure Accepted (cfg : Config) : Prop where
  ids : (cfg.destinations.map Destination.id).Nodup
  watched : ∀ w ∈ cfg.watched, ∃ d, destinationById cfg w.destinationId = some d

theorem nodup_of_validateDestinations {cfg : Config} {probe : PathProbe} {ids : List Str}
    {ds : List Destination} (h : validateDestinations cfg probe ids ds = .ok ()) :
    (ds.map Destination.id).Nodup ∧ ∀ d ∈ ds, d.id ∉ ids := by
  induction ds generalizing ids with
  | nil => simp
  | cons d ds ih =>
      obtain ⟨hd,h⟩ := then_eq_ok.mp h
      obtain ⟨-,hd⟩ := then_eq_ok.mp hd
      obtain ⟨hfresh,-⟩ := then_eq_ok.mp hd
      have hfresh : d.id ∉ ids := by simpa using require_eq_ok.mp hfresh
      obtain ⟨hnodup,hout⟩ := ih h
      rw [List.map_cons,List.nodup_cons]
      refine ⟨⟨?_,hnodup⟩,?_⟩
      · intro hmem
        obtain ⟨d',hd',he⟩ := List.mem_map.mp hmem
        exact hout d' hd' (by simp [he])
      · intro d' hd'
        rcases List.mem_cons.mp hd' with rfl | hd'
        · exact hfresh
        · exact fun hmem => hout d' hd' (List.mem_cons_of_mem _ hmem)

theorem watched_of_validatePaths {cfg : Config} {seen : List PairKey} {ws : List WatchedPath}
    (h : validatePaths cfg seen ws = .ok ()) : ∀ w ∈ ws,
      ∃ d, destinationById cfg w.destinationId = some d := by
  induction ws generalizing seen with
  | nil => simp
  | cons w ws ih =>
      obtain ⟨hw,h⟩ := then_eq_ok.mp h
      intro w' hw'
      rcases List.mem_cons.mp hw' with rfl | hw'
      · obtain ⟨-,hw⟩ := then_eq_ok.mp hw
        obtain ⟨-,hw⟩ := then_eq_ok.mp hw
        obtain ⟨d,hd,-⟩ := bind_eq_ok.mp hw
        exact ⟨d,orElse_eq_ok.mp hd⟩
      · exact ih h w' hw'

theorem accepted_of_validate {cfg : Config} {probe : PathProbe}
    (h : validate cfg probe = .ok ()) : Accepted cfg := by
  obtain ⟨-,h⟩ := then_eq_ok.mp h
  obtain ⟨hindex,hpaths⟩ := then_eq_ok.mp h
  obtain ⟨-,hindex⟩ := then_eq_ok.mp hindex
  obtain ⟨hdest,-⟩ := then_eq_ok.mp hindex
  exact ⟨(nodup_of_validateDestinations hdest).1,watched_of_validatePaths hpaths⟩

/-- With distinct ids the first destination of an id is the last one. -/
theorem find?_id_eq {ds : List Destination} (h : (ds.map Destination.id).Nodup) (id : Str) :
    (ds.find? fun d => d.id == id) = ds.reverse.find? fun d => d.id = id := by
  induction ds with
  | nil => rfl
  | cons d ds ih =>
      rw [List.map_cons,List.nodup_cons] at h
      rw [List.find?_cons,List.reverse_cons,List.find?_append,← ih h.2]
      by_cases hd : d.id = id
      · subst hd
        have hnone : (ds.find? fun d' => d'.id == d.id) = none := by
          rw [List.find?_eq_none]
          intro d' hd' he
          exact h.1 (List.mem_map.mpr ⟨d',hd',by simpa using he⟩)
        rw [hnone]
        simp
      · have hne : (d.id == id) = false := by simpa using hd
        rw [hne]
        simp [hd]

theorem Accepted.find?_eq {cfg : Config} (h : Accepted cfg) (id : Str) :
    (cfg.destinations.find? fun d => d.id == id) = destinationById cfg id := find?_id_eq h.ids id

theorem Accepted.resolvedBy {cfg : Config} (h : Accepted cfg) (place : Str → Str) :
    Accepted (resolvedBy place cfg) := by
  constructor
  · simpa [Configuration.resolvedBy,Function.comp_def] using h.ids
  · intro w hw
    obtain ⟨d,hd⟩ := h.watched w hw
    rw [destinationById_resolvedBy,hd]
    exact ⟨_,rfl⟩

end Configuration
end BackupSync
