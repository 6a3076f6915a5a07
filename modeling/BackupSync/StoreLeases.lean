import BackupSync.Checks
import BackupSync.LinkedPaths
import BackupSync.OrderedLocks
import BackupSync.RelativePath

/-!
# Leases on destination stores

An operation takes a lease on the store of every destination it works on: an
exclusive lock on a file below the destination. The path of a destination is made
absolute, reduced lexically and then resolved by the operating system, and the
leases of an operation are taken in the order of the resolved paths, each once.
The store itself is reached through the path as it was configured.

The metadata directory below a destination and the lock file in it are the
program's own and not links, so a lease is told apart by the directory it is for.
-/
namespace BackupSync
open Checks RelativePath LinkedTree

/-- What path resolution depends on. Names are those a Unix file system can hold. -/
structure HostFs where
  tree : LinkedTree Str
  legal : ∀ loc e, tree.entry loc = some e → ∀ n ∈ loc, LegalName n
  cwd : List Str
  cwd_dir : tree.entry cwd = some .dir
  /-- How many links are followed before the resolution gives up. -/
  maxLinks : Nat

inductive LeaseError where
  | destinationUnavailable
  | destinationNotADirectory
  deriving DecidableEq, Repr

namespace StoreLeases

def storeDir : Str := ".backup_sync".toList

def storeVersion : Str := "v1".toList

def operationLockFile : Str := "operation.lock".toList

def stepOf : Component → Option (PathStep Str)
  | .rootDir => none
  | .curDir => none
  | .parentDir => some .up
  | .normal n => some (.name n)

def osSteps (path : Str) : List (PathStep Str) := (components path).filterMap stepOf

section
variable (fs : HostFs)

/-- The directory the operating system finds under a path. -/
def osDirectory (path : Str) : Option (List Str) :=
  (fs.tree.follow fs.maxLinks (if isAbsolute path then [] else fs.cwd) (osSteps path)).filter
    fun loc => fs.tree.entry loc = some .dir

/-- The place of the store; it is reached through the path as given. -/
def storeRoot (path : Str) : Option (List Str) :=
  (osDirectory fs path).map (·++[storeDir,storeVersion])

/-- PathBuf::pop succeeds. -/
def canPop (path : List Component) : Bool :=
  match path.getLast? with
  | none => false
  | some .rootDir => false
  | some _ => true

/-- The body of the loop of lexically_normalize. -/
def pushComponent (normalized : List Component) : Component → List Component
  | .curDir => normalized
  | .parentDir => if canPop normalized then normalized.dropLast else normalized++[.parentDir]
  | .rootDir => [.rootDir]
  | .normal n => normalized++[.normal n]

def lexicallyNormalize (path : List Component) : List Component := path.foldl pushComponent []

/-- A relative path is joined to the working directory. -/
def absoluteComponents (path : Str) : List Component :=
  if isAbsolute path then components path else .rootDir::fs.cwd.map .normal++components path

def validateAndNormalizeDestination (path : Str) : Except LeaseError (List Str) := do
  let absolute := lexicallyNormalize (absoluteComponents fs path)
  let loc ← orElse (fs.tree.follow fs.maxLinks [] (absolute.filterMap stepOf)) .destinationUnavailable
  require (fs.tree.entry loc = some .dir) .destinationNotADirectory
  return loc

/-- The file acquire_store_lease locks. -/
def leaseFile (path : Str) : Except LeaseError (List Str) := do
  let root ← validateAndNormalizeDestination fs path
  return root++[storeDir,operationLockFile]

/-- The leases of acquire_store_leases, in the order in which they are taken. -/
def leasePlan (paths : List Str) : Except LeaseError (List (List Str)) := do
  let roots ← paths.mapM (validateAndNormalizeDestination fs)
  return (Std.ExtTreeSet.ofList roots compare).toList

end

variable {fs : HostFs} {path : Str} {loc dst : List Str}

/-- The steps of a path from the root. -/
def absoluteSteps (fs : HostFs) (path : Str) : List (PathStep Str) :=
  if isAbsolute path then osSteps path else fs.cwd.map .name++osSteps path

def componentOf : PathStep Str → Component
  | .up => .parentDir
  | .name n => .normal n

theorem filterMap_stepOf_map (steps : List (PathStep Str)) :
    (steps.map componentOf).filterMap stepOf = steps := by
  induction steps with
  | nil => rfl
  | cons s steps ih =>
      rw [List.map_cons,List.filterMap_cons,ih]
      cases s <;> rfl

theorem canPop_root (done : List (PathStep Str)) :
    canPop (.rootDir::done.map componentOf) = !done.isEmpty := by
  induction done using List.reverseRecOn with
  | nil => rfl
  | append_singleton done s _ =>
      have hlast : (.rootDir::(done++[s]).map componentOf).getLast? = some (componentOf s) := by
        rw [List.map_append,← List.cons_append]
        exact List.getLast?_concat
      rw [canPop,hlast]
      cases s <;> simp [componentOf]

/-- Behind the root the loop is the lexical reduction. -/
theorem foldl_pushComponent {comps : List Component} (h : .rootDir ∉ comps)
    (done : List (PathStep Str)) :
    comps.foldl pushComponent (.rootDir::done.map componentOf) =
      .rootDir::(reduce done (comps.filterMap stepOf)).map componentOf := by
  induction comps generalizing done with
  | nil => rfl
  | cons c comps ih =>
      rw [List.mem_cons,not_or] at h
      rw [List.foldl_cons]
      cases c with
      | rootDir => exact absurd rfl h.1
      | curDir => exact ih h.2 done
      | parentDir =>
          have hstep : (Component.parentDir::comps).filterMap stepOf =
              .up::comps.filterMap stepOf := rfl
          rw [pushComponent,canPop_root,hstep,reduce,← ih h.2]
          cases hd : done.isEmpty with
          | true =>
              rw [List.isEmpty_iff.mp hd]
              rfl
          | false =>
              have hne : done ≠ [] := by
                rintro rfl
                cases hd
              rw [Bool.not_false,if_pos rfl,if_neg Bool.false_ne_true,
                List.dropLast_cons_of_ne_nil (by simpa using hne),List.map_dropLast]
      | normal n =>
          have hstep : (Component.normal n::comps).filterMap stepOf =
              .name n::comps.filterMap stepOf := rfl
          rw [pushComponent,hstep,reduce,← ih h.2,List.map_append]
          rfl

theorem pieceComponent_ne_rootDir (piece : Str) : pieceComponent piece ≠ some .rootDir := by
  fun_cases pieceComponent piece <;> simp

theorem rootDir_not_mem_pieces (pieces : List Str) :
    .rootDir ∉ pieces.filterMap pieceComponent := by
  intro h
  obtain ⟨piece,-,hp⟩ := List.mem_filterMap.mp h
  exact pieceComponent_ne_rootDir piece hp

theorem components_slash (rest : Str) :
    components ('/' :: rest) = .rootDir::(rest.splitOn '/').filterMap pieceComponent := by
  have hsplit : ('/' :: rest).splitOn '/' = []::rest.splitOn '/' :=
    List.splitOn_append_cons_self [] rest
  unfold components
  rw [hsplit]
  dsimp only
  rw [if_neg (List.splitOn_ne_nil '/' rest)]
  rfl

theorem rootDir_not_mem_relative (h : isAbsolute path = false) : .rootDir ∉ components path := by
  unfold components
  obtain ⟨first,rest,hsplit⟩ := List.exists_cons_of_ne_nil (List.splitOn_ne_nil '/' path)
  rw [hsplit]
  dsimp only
  rw [List.mem_append,not_or]
  refine ⟨?_,rootDir_not_mem_pieces rest⟩
  split
  · rcases eq_of_splitOn hsplit with ⟨rfl,-⟩ | ⟨t,rfl⟩
    · simp
    · simp [isAbsolute] at h
  · simp
  · rename_i piece _ _
    rw [Option.mem_toList]
    exact pieceComponent_ne_rootDir _

/-- What is left of a path after its lexical normalisation. -/
theorem filterMap_lexicallyNormalize (fs : HostFs) (path : Str) :
    (lexicallyNormalize (absoluteComponents fs path)).filterMap stepOf =
      reduce [] (absoluteSteps fs path) := by
  have hbehind : ∀ comps : List Component, .rootDir ∉ comps →
      (lexicallyNormalize (.rootDir::comps)).filterMap stepOf =
        reduce [] (comps.filterMap stepOf) := by
    intro comps hc
    have hfold : lexicallyNormalize (.rootDir::comps) =
        comps.foldl pushComponent (.rootDir::([] : List (PathStep Str)).map componentOf) := rfl
    rw [hfold,foldl_pushComponent hc]
    exact filterMap_stepOf_map _
  unfold absoluteComponents absoluteSteps osSteps
  cases ha : isAbsolute path with
  | true =>
      obtain ⟨rest,rfl⟩ : ∃ rest, path = '/' :: rest := by
        cases path with
        | nil => cases ha
        | cons c rest => exact ⟨rest,by simpa [isAbsolute] using ha⟩
      rw [if_pos rfl,if_pos rfl,components_slash,hbehind _ (rootDir_not_mem_pieces _)]
      rfl
  | false =>
      rw [if_neg Bool.false_ne_true,if_neg Bool.false_ne_true]
      have hc : .rootDir ∉ fs.cwd.map Component.normal++components path := by
        rw [List.mem_append,not_or]
        exact ⟨by simp,rootDir_not_mem_relative ha⟩
      have hcwd : (fs.cwd.map Component.normal).filterMap stepOf = fs.cwd.map .name := by
        induction fs.cwd with
        | nil => rfl
        | cons n names ih =>
            rw [List.map_cons,List.map_cons,List.filterMap_cons,ih]
            rfl
      rw [List.cons_append,hbehind _ hc,List.filterMap_append,hcwd]

theorem validateAndNormalizeDestination_eq_ok :
    validateAndNormalizeDestination fs path = .ok loc ↔
      ∃ k ≤ fs.maxLinks, fs.tree.Leads k [] (reduce [] (absoluteSteps fs path)) loc := by
  unfold validateAndNormalizeDestination
  dsimp only
  rw [filterMap_lexicallyNormalize,bind_eq_ok]
  constructor
  · rintro ⟨loc',hfollow,h⟩
    obtain ⟨hdir,h⟩ := then_eq_ok.mp h
    cases h
    exact leads_of_follow (of_decide_eq_true (require_eq_ok.mp hdir)) (orElse_eq_ok.mp hfollow)
  · rintro ⟨k,hk,hl⟩
    refine ⟨loc,orElse_eq_ok.mpr (hl.follow hk),then_eq_ok.mpr ⟨?_,rfl⟩⟩
    exact require_eq_ok.mpr (decide_eq_true (hl.entry fs.tree.root))

/-- A path is resolved as its steps from the root. -/
theorem osDirectory_eq_some : osDirectory fs path = some loc ↔
    ∃ k ≤ fs.maxLinks, fs.tree.Leads k [] (absoluteSteps fs path) loc := by
  have hstart : ∀ k, fs.tree.Leads k (if isAbsolute path then [] else fs.cwd) (osSteps path) loc →
      fs.tree.Leads k [] (absoluteSteps fs path) loc := by
    intro k hl
    unfold absoluteSteps
    cases ha : isAbsolute path with
    | true =>
        rw [ha] at hl
        exact hl
    | false =>
        rw [ha] at hl
        have htrans := (leads_names fs.cwd_dir).trans hl
        rwa [Nat.zero_add] at htrans
  have hback : ∀ k, fs.tree.Leads k [] (absoluteSteps fs path) loc →
      ∃ j ≤ k, fs.tree.Leads j (if isAbsolute path then [] else fs.cwd) (osSteps path) loc := by
    intro k hl
    unfold absoluteSteps at hl
    cases ha : isAbsolute path with
    | true =>
        rw [ha] at hl
        exact ⟨k,Nat.le_refl k,hl⟩
    | false =>
        rw [ha] at hl
        obtain ⟨i,j,mid,rfl,hcwd,hrest⟩ := hl.split
        obtain rfl := hcwd.unique (leads_names fs.cwd_dir)
        exact ⟨j,Nat.le_add_left j i,hrest⟩
  have hentry : fs.tree.entry (if isAbsolute path then [] else fs.cwd) = some .dir :=
    entry_start fs.cwd_dir (isAbsolute path)
  unfold osDirectory
  rw [Option.filter_eq_some_iff]
  constructor
  · rintro ⟨hfollow,hdir⟩
    obtain ⟨k,hk,hl⟩ := leads_of_follow (of_decide_eq_true hdir) hfollow
    exact ⟨k,hk,hstart k hl⟩
  · rintro ⟨k,hk,hl⟩
    obtain ⟨j,hj,hl⟩ := hback k hl
    exact ⟨hl.follow (by omega),decide_eq_true (hl.entry hentry)⟩

end StoreLeases
end BackupSync
