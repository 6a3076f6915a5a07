import BackupSync.Checks
import BackupSync.CivilTime
import BackupSync.ContentHash
import BackupSync.Interruptible

/-!
# The per-file copy engine

A run plans the files that changed since they were recorded and copies each of
them below the files directory of its destination. The name of a copy starts with
the second of the clock at which it was named. The record of a source lists its
copies, whichever destination they are in, and a copy that is recorded prunes
that list to the allowed number by the time stamps in the names.

Partial copies under temporary names, the activity list and the texts of the
errors are left out. A file that is pruned and not found counts as removed; one
that cannot be removed ends the item with an error.
-/
namespace BackupSync
open Checks Interruptible Interruptible.Action ContentHash CivilTime

/-- A copy by its destination, the directory of its source and its name. -/
structure CopyPath where
  root : Str
  dir : Str
  name : Str
  deriving DecidableEq, Repr

structure FileState where
  len : Nat
  mtime : Int
  lastHash : Option Str
  backups : List CopyPath
  stableCycles : Nat
  deriving DecidableEq, Repr

/-- What the scan found; the key is the text of the path. -/
structure SourceMeta where
  path : Str
  fileName : Str
  len : Nat
  mtime : Int
  destinationRoot : Str
  maxCopies : Nat
  deriving DecidableEq, Repr

inductive PlanReason where
  | newFile | sizeChanged | timestampChanged | contentHashChanged | hashCheckFailed
  deriving DecidableEq, Repr

structure PlannedItem where
  src : Str
  fileName : Str
  len : Nat
  mtime : Int
  reason : PlanReason
  precomputedHash : Option Str
  destinationRoot : Str
  maxCopies : Nat
  deriving DecidableEq, Repr

structure Executor where
  minFreeSpaceBytes : Option Nat
  freeSpaceSafetyBufferBytes : Nat
  deriving DecidableEq, Repr

/-- What the file system and the clock say while one item is copied. -/
structure ItemEnv where
  sourceExists : Bool
  /-- The source when its turn comes. -/
  source : Bytes
  /-- What the hash is computed of, and what is copied; both may have changed by then. -/
  hashed : Option Bytes
  copied : Option Bytes
  directoryCreated : Bool
  now : Nat
  freeSpace : Option Nat
  sourceLen : Option Nat
  renamed : Bool
  removable : CopyPath → Bool

inductive EngineError where
  | sourceMissing | hash | createDirectory | freeSpace | noSpace | belowMinimum | copy | stat
  | sizeMismatch | rename | noCopiesAllowed | remove
  deriving DecidableEq, Repr

/-- The copies on disk and the recorded state. -/
structure CopyWorld where
  disk : CopyPath → Option Bytes
  files : Str → Option FileState

namespace CopyEngine

abbrev Op (α : Type) := Action CopyWorld EngineError α

def CopyWorld.empty : CopyWorld := ⟨fun _ => none,fun _ => none⟩

section Model
variable (sha : Sha256)

def backupFilename (fileName : Str) (now : Nat) : Str := stamp now++('_':: '_'::fileName)

def copyPath (item : PlannedItem) (now : Nat) : CopyPath :=
  ⟨item.destinationRoot,sourceId sha item.src,backupFilename item.fileName now⟩

/-- The text in front of the first double underscore. -/
def beforeMark : Str → Str
  | [] => []
  | [c] => [c]
  | c::d::rest => if c = '_' ∧ d = '_' then [] else c::beforeMark (d::rest)

def parseTimestamp (p : CopyPath) : Option Int := readStamp (beforeMark p.name)

def sortKey (p : CopyPath) : Int := (parseTimestamp p).getD (2^63-1)

/-- The copies to remove and the copies to keep. -/
def partition (max : Nat) (existing : List CopyPath) :
    Except EngineError (List CopyPath × List CopyPath) :=
  if max = 0 then .error .noCopiesAllowed
  else if existing.length ≤ max then .ok ([],existing)
  else
    let ordered := existing.insertionSort fun p q => sortKey p ≤ sortKey q
    .ok (ordered.take (ordered.length-max),ordered.drop (ordered.length-max))

def putCopy (p : CopyPath) (content : Option Bytes) (w : CopyWorld) : CopyWorld :=
  {w with disk := Function.update w.disk p content}

def removePruned (env : ItemEnv) : List CopyPath → Op Unit
  | [] => pure ()
  | p::pruned => do
      let w ← read
      match w.disk p with
      | none => removePruned env pruned
      | some _ => do
          check (env.removable p) .remove
          step (putCopy p none)
          removePruned env pruned

def enforceOnDisk (env : ItemEnv) (max : Nat) (existing : List CopyPath) : Op (List CopyPath) := do
  let (pruned,retained) ← lift (partition max existing)
  removePruned env pruned
  return retained

def setFile (key : Str) (e : FileState) (w : CopyWorld) : CopyWorld :=
  {w with files := Function.update w.files key (some e)}

/-- The record of a source with one more copy. -/
def pushed (w : CopyWorld) (item : PlannedItem) (hash : Str) (final : CopyPath) : FileState :=
  ⟨item.len,item.mtime,some hash,((w.files item.src).map FileState.backups).getD []++[final],0⟩

def recordBackupState (env : ItemEnv) (item : PlannedItem) (hash : Str) (final : CopyPath) :
    Op Unit := do
  let w ← read
  let entry := pushed w item hash final
  step (setFile item.src entry)
  let retained ← enforceOnDisk env item.maxCopies entry.backups
  step (setFile item.src {entry with backups := retained})

def computeHash (item : PlannedItem) (env : ItemEnv) : Except EngineError Str :=
  match item.precomputedHash with
  | some hash => .ok hash
  | none => match env.hashed with
    | some content => .ok (sha256Hex sha content)
    | none => .error .hash

def ensureFreeSpace (exec : Executor) (env : ItemEnv) (len : Nat) : Except EngineError Unit :=
  match env.freeSpace with
  | none => .error .freeSpace
  | some free =>
      if free < min (len+exec.freeSpaceSafetyBufferBytes) (2^64-1) then .error .noSpace
      else match exec.minFreeSpaceBytes with
        | some least => if free < least then .error .belowMinimum else .ok ()
        | none => .ok ()

def verifyTempSize (env : ItemEnv) (copied : Bytes) : Except EngineError Unit :=
  match env.sourceLen with
  | none => .error .stat
  | some len => if len = copied.length then .ok () else .error .sizeMismatch

def backupOne (exec : Executor) (item : PlannedItem) (env : ItemEnv) : Op Unit := do
  check env.sourceExists .sourceMissing
  let hash ← lift (computeHash sha item env)
  check env.directoryCreated .createDirectory
  let final := copyPath sha item env.now
  lift (ensureFreeSpace exec env item.len)
  let copied ← lift (orElse env.copied .copy)
  lift (verifyTempSize env copied)
  check env.renamed .rename
  step (putCopy final (some copied))
  recordBackupState env item hash final

/-- The items in turn, each with how it ended. -/
def execute (exec : Executor) :
    List (PlannedItem × ItemEnv) → Op (List (PlannedItem × ItemEnv × Bool))
  | [] => pure []
  | (item,env)::rest => do
      let result ← attempt (backupOne sha exec item env)
      let others ← execute exec rest
      return (item,env,result.isOk)::others

/-- What the plan decides for one file, with the new count of stable cycles. -/
def planReason (hashCheckInterval : Nat) (m : SourceMeta) (checked : Option Bytes) (s : FileState) :
    Option (PlanReason × Option Str) × Nat :=
  if s.len ≠ m.len then (some (.sizeChanged,none),0)
  else if s.mtime ≠ m.mtime then (some (.timestampChanged,none),0)
  else match s.lastHash with
    | none => (none,min (s.stableCycles+1) (2^32-1))
    | some last =>
        if s.stableCycles%hashCheckInterval = 0 then
          match checked with
          | none => (some (.hashCheckFailed,none),0)
          | some content =>
              if sha256Hex sha content ≠ last then
                (some (.contentHashChanged,some (sha256Hex sha content)),0)
              else (none,min (s.stableCycles+1) (2^32-1))
        else (none,min (s.stableCycles+1) (2^32-1))

def planned (m : SourceMeta) (reason : PlanReason) (precomputedHash : Option Str) : PlannedItem :=
  ⟨m.path,m.fileName,m.len,m.mtime,reason,precomputedHash,m.destinationRoot,m.maxCopies⟩

/-- The plan, where each file comes with the content its hash check would read. -/
def plan (hashCheckInterval : Nat) : List (SourceMeta × Option Bytes) → Op (List PlannedItem)
  | [] => pure []
  | (m,checked)::files => do
      let w ← read
      match w.files m.path with
      | none => do
          let items ← plan hashCheckInterval files
          return planned m .newFile none::items
      | some s => do
          let (decision,cycles) := planReason sha hashCheckInterval m checked s
          step (setFile m.path {s with stableCycles := cycles})
          let items ← plan hashCheckInterval files
          match decision with
          | none => return items
          | some (reason,hash) => return planned m reason hash::items

/-- What one run meets. -/
structure RunInput where
  exec : Executor
  hashCheckInterval : Nat
  files : List (SourceMeta × Option Bytes)
  env : Nat → ItemEnv

/-- A plan and its execution. -/
def run (input : RunInput) : Op (List (PlannedItem × ItemEnv × Bool)) := do
  let items ← plan sha input.hashCheckInterval input.files
  execute sha input.exec (items.zipIdx.map fun item => (item.1,input.env item.2))

end Model

section Names

theorem beforeMark_append {front : Str} (h : '_' ∉ front) (back : Str) :
    beforeMark (front++('_':: '_'::back)) = front := by
  induction front with
  | nil => simp [beforeMark]
  | cons c front ih =>
      rw [List.mem_cons,not_or] at h
      have hrest := ih h.2
      cases front with
      | nil => simp [beforeMark,Ne.symm h.1]
      | cons d front =>
          simp only [List.cons_append] at hrest ⊢
          rw [beforeMark,if_neg (fun hc => h.1 hc.1.symm),hrest]

/-- The time in the name of a copy is read back. -/
theorem parseTimestamp_copyPath {sha : Sha256} {item : PlannedItem} {now : Nat}
    (h : now < 253402300800) : parseTimestamp (copyPath sha item now) = some (now : Int) := by
  have hmark : '_' ∉ stamp now := not_mem_stamp (by decide) (by decide) h
  unfold parseTimestamp copyPath backupFilename
  dsimp only
  rw [beforeMark_append hmark,readStamp_stamp h]

end Names

section Retention
variable {env : ItemEnv} {w t : CopyWorld}

/-- A list in the order of its time stamps is cut at the front. -/
theorem partition_ordered {max : Nat} {existing : List CopyPath} (hmax : 0 < max)
    (h : existing.Pairwise fun p q => sortKey p ≤ sortKey q) :
    partition max existing =
      .ok (existing.take (existing.length-max),existing.drop (existing.length-max)) := by
  unfold partition
  rw [if_neg (by omega)]
  split
  · rename_i hfits
    rw [Nat.sub_eq_zero_of_le hfits,List.take_zero,List.drop_zero]
  · have hsorted : existing.insertionSort (fun p q => sortKey p ≤ sortKey q) = existing :=
      List.Pairwise.insertionSort_eq h
    dsimp only
    rw [hsorted]

/-- The disk without some of the copies. -/
def without (pruned : List CopyPath) (w : CopyWorld) : CopyWorld :=
  {w with disk := fun p => if p ∈ pruned then none else w.disk p}

theorem without_nil (w : CopyWorld) : without [] w = w := by
  simp [without]

theorem without_cons_of_missing {p : CopyPath} {pruned : List CopyPath} (h : w.disk p = none) :
    without (p::pruned) w = without pruned w := by
  unfold without
  congr 1
  funext q
  by_cases hq : q = p
  · simp [hq,h]
  · simp [hq]

theorem without_update (p : CopyPath) (pruned : List CopyPath) (w : CopyWorld) :
    without pruned (putCopy p none w) = without (p::pruned) w := by
  unfold without putCopy
  congr 1
  funext q
  by_cases hq : q = p
  · simp [hq]
  · simp [hq]

theorem spec_removePruned (pruned : List CopyPath)
    (h : ∀ p ∈ pruned, env.removable p = true) :
    Spec (fun u => u = w) (removePruned env pruned) (fun _ t => t = without pruned w)
      (fun _ _ => False) (fun _ => True) := by
  induction pruned generalizing w with
  | nil =>
      refine spec_pure _ ?_
      rintro _ rfl
      exact (without_nil _).symm
  | cons p pruned ih =>
      have hp := h p List.mem_cons_self
      have hrest := fun q hq => h q (List.mem_cons_of_mem _ hq)
      refine spec_read_bind ?_
      rintro u rfl
      refine spec_pre (P := fun v => v = u) ?_ fun _ hv => hv.1
      cases hdisk : u.disk p with
      | none =>
          refine spec_conseq (ih hrest) (fun _ hv => hv) ?_ (fun _ _ hf => hf) fun _ _ => trivial
          rintro _ t rfl
          exact (without_cons_of_missing hdisk).symm
      | some content =>
          refine spec_check_cases (fun hfalse => ?_) fun _ => ?_
          · rw [hp] at hfalse
            cases hfalse
          · refine spec_bind (R := fun _ t => t = putCopy p none u) ?_ fun _ => ?_
            · refine spec_step ?_
              rintro _ rfl
              exact ⟨rfl,trivial⟩
            · refine spec_conseq (ih hrest) (fun _ hv => hv) ?_ (fun _ _ hf => hf) fun _ _ => trivial
              rintro _ t rfl
              exact without_update p pruned u

theorem spec_enforceOnDisk {max : Nat} {existing : List CopyPath} (hmax : 0 < max)
    (hordered : existing.Pairwise fun p q => sortKey p ≤ sortKey q)
    (h : ∀ p ∈ existing.take (existing.length-max), env.removable p = true) :
    Spec (fun u => u = w) (enforceOnDisk env max existing)
      (fun retained t => retained = existing.drop (existing.length-max) ∧
        t = without (existing.take (existing.length-max)) w)
      (fun _ _ => False) (fun _ => True) := by
  unfold enforceOnDisk
  rw [partition_ordered hmax hordered]
  refine spec_lift_bind (fun e he => ?_) fun parts hparts => ?_
  · cases he
  · cases hparts
    refine spec_bind (R := fun _ t => t = without (existing.take (existing.length-max)) w) ?_ ?_
    · exact spec_removePruned _ h
    · exact fun _ => spec_pure _ fun _ ht => ⟨rfl,ht⟩

end Retention

section Items
variable {sha : Sha256} {exec : Executor} {item : PlannedItem} {env : ItemEnv} {w : CopyWorld}

/-- The recorded copies of a source. -/
def copiesOf (w : CopyWorld) (key : Str) : List CopyPath :=
  ((w.files key).map FileState.backups).getD []

/-- The copies of a source with the one that an item makes. -/
def copiesWith (sha : Sha256) (w : CopyWorld) (item : PlannedItem) (env : ItemEnv) :
    List CopyPath :=
  copiesOf w item.src++[copyPath sha item env.now]

/-- How many of them are too many. -/
def excess (sha : Sha256) (w : CopyWorld) (item : PlannedItem) (env : ItemEnv) : Nat :=
  (copiesWith sha w item env).length-item.maxCopies

/-- The state after an item that was copied. -/
def afterCopy (sha : Sha256) (w : CopyWorld) (item : PlannedItem) (env : ItemEnv) (content : Bytes)
    (hash : Str) : CopyWorld where
  disk p := if p ∈ (copiesWith sha w item env).take (excess sha w item env) then none
    else if p = copyPath sha item env.now then some content else w.disk p
  files := Function.update w.files item.src
    (some ⟨item.len,item.mtime,some hash,(copiesWith sha w item env).drop (excess sha w item env),0⟩)

theorem spec_recordBackupState {content : Bytes} {hash : Str} (hmax : 0 < item.maxCopies)
    (hordered : (copiesWith sha w item env).Pairwise fun p q => sortKey p ≤ sortKey q)
    (h : ∀ p ∈ (copiesWith sha w item env).take (excess sha w item env), env.removable p = true) :
    Spec (fun u => u = putCopy (copyPath sha item env.now) (some content) w)
      (recordBackupState env item hash (copyPath sha item env.now))
      (fun _ t => t = afterCopy sha w item env content hash) (fun _ _ => False) (fun _ => True) := by
  refine spec_read_bind ?_
  rintro u rfl
  refine spec_pre (P := fun v => v = _) ?_ fun _ hv => hv.1
  refine spec_bind (R := fun _ t => t = setFile item.src ⟨item.len,item.mtime,some hash,
    copiesWith sha w item env,0⟩ (putCopy (copyPath sha item env.now) (some content) w)) ?_ fun _ => ?_
  · refine spec_step ?_
    rintro _ rfl
    exact ⟨rfl,trivial⟩
  refine spec_bind (spec_enforceOnDisk hmax hordered h) fun retained => ?_
  refine spec_step ?_
  rintro _ ⟨rfl,rfl⟩
  refine ⟨?_,trivial⟩
  unfold setFile without afterCopy putCopy
  simp only [Function.update_idem]
  congr 1
  funext p
  rw [Function.update_apply]
  rfl

theorem spec_backupOne (hmax : 0 < item.maxCopies)
    (hordered : (copiesWith sha w item env).Pairwise fun p q => sortKey p ≤ sortKey q)
    (h : ∀ p ∈ (copiesWith sha w item env).take (excess sha w item env), env.removable p = true) :
    Spec (fun u => u = w) (backupOne sha exec item env)
      (fun _ t => ∃ content hash, env.copied = some content ∧ computeHash sha item env = .ok hash ∧
        t = afterCopy sha w item env content hash)
      (fun _ t => t = w) (fun _ => True) := by
  refine spec_check_bind (fun _ hu => hu) fun _ => ?_
  refine spec_lift_bind (fun _ _ _ hu => hu) fun hash hhash => ?_
  refine spec_check_bind (fun _ hu => hu) fun _ => ?_
  refine spec_lift_bind (fun _ _ _ hu => hu) fun _ _ => ?_
  refine spec_lift_bind (fun _ _ _ hu => hu) fun content hcontent => ?_
  refine spec_lift_bind (fun _ _ _ hu => hu) fun _ _ => ?_
  refine spec_check_bind (fun _ hu => hu) fun _ => ?_
  refine spec_bind (R := fun _ t => t = putCopy (copyPath sha item env.now) (some content) w) ?_
    fun _ => ?_
  · refine spec_step ?_
    rintro _ rfl
    exact ⟨rfl,trivial⟩
  · refine spec_conseq (spec_recordBackupState hmax hordered h) (fun _ hu => hu) ?_
      (fun _ _ hf => hf.elim) fun _ _ => trivial
    rintro _ t rfl
    exact ⟨content,hash,orElse_eq_ok.mp hcontent,hhash,rfl⟩

end Items

end CopyEngine
end BackupSync
