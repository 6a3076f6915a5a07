import BackupSync.Configuration
import BackupSync.StoreCopy

/-!
# Moving storage to another folder

relocate_destination_cmd pauses backups, copies and verifies the store, saves the
configuration that names the new folder, restarts the daemon and only then
removes the old folder. Every exit before that restores the configuration it
loaded; the outcome of the restoring save is ignored or mentioned in a warning.
A main destination can also change places with a configured secondary one, in
which case no folder is copied or removed.

The configuration file, the configuration the daemon was last started with, its
pause flag and the two folders are the state. A save that fails can leave
anything in the file, a removal that fails any part of the folder.
-/
namespace BackupSync
open Checks Interruptible Interruptible.Action RelativePath BackupSync.Configuration StoreCopy

structure SavedConfig where
  settings : Config
  backupRoot : Str
  intervalSeconds : Nat
  safeMode : Bool

inductive ConfigFile where
  | missing
  | damaged
  | saved (cfg : SavedConfig)

structure MoveState where
  config : ConfigFile
  /-- The file the running daemon was started with, after a restart that succeeded. -/
  daemon : Option ConfigFile
  paused : Bool
  oldFolder : Option StorageFolder
  newFolder : Option NewFolder

inductive RelocationError where
  | configLoad
  | destinationNotFound
  | samePath
  | filesystemRoot
  | notMainStorage
  | saveRejected (error : ConfigError)
  | saveFailed
  | daemonOffline
  | daemonUnreachable
  | restartFailed
  | pauseSave
  | pauseDaemon
  | moveFailed (error : CopyError)
  | moveStopped
  | promotionFailed
  | promotionStopped
  | activationSave
  | activationFailed (rolledBack : Bool)
  deriving DecidableEq

/-- The exits on which the command tries to save the loaded configuration again. -/
def RelocationError.restores : RelocationError → Bool
  | .pauseDaemon | .moveFailed _ | .moveStopped | .promotionFailed | .promotionStopped
  | .activationSave | .activationFailed _ => true
  | _ => false

inductive RelocationOperation where
  | movedToNewLocation | promotedExistingSecondary
  deriving DecidableEq, Repr

structure RelocationResult where
  config : SavedConfig
  operation : RelocationOperation
  filesMoved : Nat
  bytesMoved : Nat
  oldLocationRemoved : Bool

structure SaveEnv where
  probe : PathProbe
  /-- A write that fails leaves some file. -/
  write : Except ConfigFile Unit

structure LoadEnv where
  readable : Bool
  /-- The configuration for a missing file, where it may be created. -/
  defaults : Option SavedConfig
  bootstrap : Except ConfigFile Unit
  /-- The environment overrides; an unparsable one is an error. -/
  interval : Except Unit (Option Nat)
  safeMode : Except Unit (Option Bool)
  probe : PathProbe

inductive PauseReply where
  | acknowledged
  | offline
  /-- The reply got lost, with the request or after it. -/
  | lost (applied : Bool)
  deriving DecidableEq, Repr

structure RelocateEnv where
  load : LoadEnv
  canonical : Str → Option Str
  pauseSave : SaveEnv
  pause : PauseReply
  /-- The result of verify_secondary_can_be_main, its error, or the end of its task. -/
  verification : Option (Except Unit SavedConfig)
  copy : CopyEnv
  /-- The new folder as a copying task left it that did not come to its end. -/
  copyStopped : Option (Option NewFolder)
  activationSave : SaveEnv
  restart : Except (Option ConfigFile) Unit
  restoreSave : SaveEnv
  restorePause : PauseReply
  rollbackRestart : Except (Option ConfigFile) Unit
  /-- What a removal that failed has left. -/
  removal : Except StorageFolder Unit

namespace Relocation

abbrev Op (α : Type) := Action MoveState RelocationError α

def defaultDestinationId : Str := "default".toList

def normalizeLoadedConfig (cfg : SavedConfig) : SavedConfig :=
  {cfg with settings := {cfg.settings with
    destinations :=
      if cfg.settings.destinations.isEmpty then [⟨defaultDestinationId,cfg.backupRoot,none,[]⟩]
      else cfg.settings.destinations
    watched := cfg.settings.watched.map fun w =>
      if isBlank w.destinationId then {w with destinationId := defaultDestinationId} else w}}

def applyEnvLayering (env : LoadEnv) (cfg : SavedConfig) : Except RelocationError SavedConfig := do
  let interval ← env.interval.mapError fun _ => .configLoad
  let safeMode ← env.safeMode.mapError fun _ => .configLoad
  return {cfg with
    intervalSeconds := interval.getD cfg.intervalSeconds
    safeMode := safeMode.getD cfg.safeMode}

def writeConfig (write : Except ConfigFile Unit) (cfg : SavedConfig) : Op Unit :=
  match write with
  | .ok () => step fun st => {st with config := .saved cfg}
  | .error left => stepThenFail (fun st => {st with config := left}) .saveFailed

def loadFromSource (env : LoadEnv) : Op SavedConfig := do
  let st ← read
  match st.config with
  | .saved cfg => do
      check env.readable .configLoad
      return normalizeLoadedConfig cfg
  | .damaged => fail .configLoad
  | .missing => do
      let cfg ← lift (orElse env.defaults .configLoad)
      mapFailure (fun _ => .configLoad) (writeConfig env.bootstrap cfg)
      return cfg

def getConfig (env : LoadEnv) : Op SavedConfig := do
  let cfg ← loadFromSource env
  let cfg ← lift (applyEnvLayering env cfg)
  lift ((validate cfg.settings env.probe).mapError fun _ => .configLoad)
  return cfg

def saveConfig (env : SaveEnv) (cfg : SavedConfig) : Op Unit := do
  lift ((validate cfg.settings env.probe).mapError .saveRejected)
  writeConfig env.write cfg

def setSafeMode (reply : PauseReply) (enabled : Bool) : Op Unit :=
  match reply with
  | .acknowledged => step fun st => {st with paused := enabled}
  | .offline => fail .daemonOffline
  | .lost false => fail .daemonUnreachable
  | .lost true => stepThenFail (fun st => {st with paused := enabled}) .daemonUnreachable

/-- A daemon that comes up has read the configuration file. -/
def restartDaemon (outcome : Except (Option ConfigFile) Unit) : Op Unit :=
  match outcome with
  | .ok () => step fun st => {st with daemon := some st.config}
  | .error left => stepThenFail (fun st => {st with daemon := left}) .restartFailed

def pathsReferToSameLocation (canonical : Str → Option Str) (left right : Str) : Bool :=
  decide (components left = components right) ||
    match canonical left,canonical right with
    | some l,some r => decide (l = r)
    | _,_ => false

/-- The configured destination that a path leads to, other than the one that is moved. -/
def existingDestination (canonical : Str → Option Str) (cfg : Config) (index : Nat) (path : Str) :
    Option Nat :=
  (List.range cfg.destinations.length).find? fun i => i ≠ index &&
    (cfg.destinations[i]?.any fun d => pathsReferToSameLocation canonical d.path path)

def withPath (cfg : SavedConfig) (index : Nat) (path : Str) : SavedConfig :=
  {cfg with
    settings := {cfg.settings with
      destinations := cfg.settings.destinations.modify index fun d => {d with path := path}}
    backupRoot := if index = 0 then path else cfg.backupRoot}

/-- The compensation before the new configuration is active. -/
def restoreOriginal (env : RelocateEnv) (original : SavedConfig) : Op Unit := do
  let _ ← attempt (saveConfig env.restoreSave original)
  let _ ← attempt (setSafeMode env.restorePause original.safeMode)
  return ()

/-- The compensation after a restart that failed, with its verdict. -/
def rollBack (env : RelocateEnv) (original : SavedConfig) : Op Bool := do
  let saved ← attempt (saveConfig env.restoreSave original)
  let restarted ← attempt (restartDaemon env.rollbackRestart)
  return saved.isOk && restarted.isOk

/-- Saves the configuration and restarts the daemon with it. -/
def activate (env : RelocateEnv) (original next : SavedConfig) : Op Unit := do
  match ← attempt (saveConfig env.activationSave next) with
  | .error _ => do
      restoreOriginal env original
      fail .activationSave
  | .ok () => match ← attempt (restartDaemon env.restart) with
    | .error _ => do
        let rolledBack ← rollBack env original
        fail (.activationFailed rolledBack)
    | .ok () => pure ()

def copyStore (sha : Sha256) (env : RelocateEnv) (safetyBuffer : Nat) : Op CopyStats := do
  let st ← read
  match env.copyStopped with
  | some left => stepThenFail (fun st => {st with newFolder := left}) .moveStopped
  | none =>
      zoom MoveState.newFolder (fun folder st => {st with newFolder := folder})
        (mapFailure .moveFailed (copyAndVerifyStore sha env.copy st.oldFolder safetyBuffer))

/-- The removal of the old folder; a failure becomes a warning. -/
def removeOld (env : RelocateEnv) : Op Bool :=
  match env.removal with
  | .ok () => do
      step fun st => {st with oldFolder := none}
      return true
  | .error left => do
      step fun st => {st with oldFolder := some left}
      return false

def moveToNewLocation (sha : Sha256) (env : RelocateEnv) (original : SavedConfig) (index : Nat)
    (newPath : Str) : Op RelocationResult := do
  match ← attempt (copyStore sha env original.settings.freeSpaceSafetyBufferBytes) with
  | .error e => do
      restoreOriginal env original
      fail e
  | .ok stats => do
      activate env original (withPath original index newPath)
      let removed ← removeOld env
      return ⟨withPath original index newPath,.movedToNewLocation,stats.files,stats.bytes,removed⟩

def promoteExistingSecondary (env : RelocateEnv) (original : SavedConfig) : Op RelocationResult := do
  match env.verification with
  | none => do
      restoreOriginal env original
      fail .promotionStopped
  | some (.error _) => do
      restoreOriginal env original
      fail .promotionFailed
  | some (.ok next) => do
      activate env original next
      return ⟨next,.promotedExistingSecondary,0,0,false⟩

/-- Saves the paused configuration and asks the daemon to stop starting backups. -/
def pauseBackups (env : RelocateEnv) (original : SavedConfig) : Op Unit := do
  mapFailure (fun _ => .pauseSave) (saveConfig env.pauseSave {original with safeMode := true})
  match ← attempt (setSafeMode env.pause true) with
  | .ok () => pure ()
  | .error .daemonOffline => pure ()
  | .error _ => do
      let _ ← attempt (saveConfig env.restoreSave original)
      fail .pauseDaemon

def relocateDestinationCmd (sha : Sha256) (env : RelocateEnv) (destinationId newPath : Str) :
    Op RelocationResult := do
  let original ← getConfig env.load
  let index ← lift (orElse (original.settings.destinations.findIdx? fun d => d.id = destinationId)
    .destinationNotFound)
  let oldPath := (original.settings.destinations[index]?.map Destination.path).getD []
  check (components oldPath ≠ components newPath) .samePath
  check (hasParent newPath) .filesystemRoot
  let existing := existingDestination env.canonical original.settings index newPath
  check (existing.isNone || index == 0) .notMainStorage
  pauseBackups env original
  match existing with
  | some _ => promoteExistingSecondary env original
  | none => moveToNewLocation sha env original index newPath

section Pieces
variable {P : Option StorageFolder → Option NewFolder → Prop} {Q : MoveState → Prop}

/-- What is known of the two folders. -/
def Folders (P : Option StorageFolder → Option NewFolder → Prop) (st : MoveState) : Prop :=
  P st.oldFolder st.newFolder

def SaveSucceeds (env : SaveEnv) (cfg : SavedConfig) : Prop :=
  validate cfg.settings env.probe = .ok () ∧ env.write = .ok ()

theorem spec_writeConfig (write : Except ConfigFile Unit) (cfg : SavedConfig) :
    Spec (Folders P) (writeConfig write cfg) (fun _ st => Folders P st ∧ st.config = .saved cfg)
      (fun _ st => Folders P st ∧ ∃ left, write = .error left) (Folders P) := by
  unfold writeConfig
  cases write with
  | ok u => exact spec_step fun st h => ⟨⟨h,rfl⟩,h⟩
  | error left => exact spec_stepThenFail fun st h => ⟨⟨h,left,rfl⟩,h⟩

/-- A save touches neither folder, and fails only where it cannot succeed. -/
theorem spec_saveConfig (env : SaveEnv) (cfg : SavedConfig) :
    Spec (Folders P) (saveConfig env cfg) (fun _ st => Folders P st ∧ st.config = .saved cfg)
      (fun _ st => Folders P st ∧ ¬ SaveSucceeds env cfg) (Folders P) := by
  refine spec_lift_bind ?_ fun _ _ => ?_
  · intro e he st h
    refine ⟨h,?_⟩
    rintro ⟨hvalid,-⟩
    rw [hvalid] at he
    cases he
  · refine spec_conseq (spec_writeConfig env.write cfg) (fun _ h => h) (fun _ _ h => h) ?_
      fun _ h => h
    rintro _ st ⟨h,left,hleft⟩
    refine ⟨h,?_⟩
    rintro ⟨-,hwrite⟩
    rw [hleft] at hwrite
    cases hwrite

/-- The pause flag is all that a request to the daemon changes. -/
theorem spec_setSafeMode (reply : PauseReply) (enabled : Bool)
    (hQ : ∀ st, Q st → Q {st with paused := enabled}) :
    Spec Q (setSafeMode reply enabled) (fun _ => Q) (fun _ => Q) Q := by
  unfold setSafeMode
  split
  · exact spec_step fun st h => ⟨hQ st h,hQ st h⟩
  · exact spec_fail _ fun st h => h
  · exact spec_fail _ fun st h => h
  · exact spec_stepThenFail fun st h => ⟨hQ st h,hQ st h⟩

theorem spec_restartDaemon (outcome : Except (Option ConfigFile) Unit) (file : ConfigFile) :
    Spec (fun st => Folders P st ∧ st.config = file) (restartDaemon outcome)
      (fun _ st => Folders P st ∧ st.config = file ∧ st.daemon = some file)
      (fun _ st => Folders P st ∧ st.config = file) (Folders P) := by
  unfold restartDaemon
  split
  · refine spec_step ?_
    rintro st ⟨h,rfl⟩
    exact ⟨⟨h,rfl,rfl⟩,h⟩
  · exact spec_stepThenFail fun st h => ⟨h,h.1⟩

/-- The configuration is the given one if the restoring save could succeed. -/
def Restored (env : RelocateEnv) (original : SavedConfig) (st : MoveState) : Prop :=
  SaveSucceeds env.restoreSave original → st.config = .saved original

theorem spec_restoringSave (env : RelocateEnv) (original : SavedConfig)
    {E : RelocationError → MoveState → Prop} :
    Spec (Folders P) (attempt (saveConfig env.restoreSave original))
      (fun _ st => Folders P st ∧ Restored env original st) E (Folders P) := by
  apply spec_attempt
  refine spec_conseq (spec_saveConfig env.restoreSave original) (fun _ h => h) ?_ ?_ fun _ h => h
  · exact fun _ st h => ⟨h.1,fun _ => h.2⟩
  · exact fun _ st h => ⟨h.1,fun hs => absurd hs h.2⟩

theorem spec_restoreOriginal (env : RelocateEnv) (original : SavedConfig) :
    Spec (Folders P) (restoreOriginal env original)
      (fun _ st => Folders P st ∧ Restored env original st) (fun _ _ => False) (Folders P) := by
  refine spec_bind (spec_restoringSave env original) fun _ => ?_
  refine spec_bind (R := fun _ st => Folders P st ∧ Restored env original st)
    (spec_attempt (spec_conseq (spec_setSafeMode env.restorePause original.safeMode ?_)
      (fun _ h => h) (fun _ _ h => h) (fun _ _ h => h) fun _ h => h.1)) fun _ => ?_
  · exact fun st h => h
  · exact spec_pure _ fun _ h => h

theorem spec_rollBack (env : RelocateEnv) (original : SavedConfig) :
    Spec (Folders P) (rollBack env original)
      (fun _ st => Folders P st ∧ Restored env original st) (fun _ _ => False) (Folders P) := by
  refine spec_bind (spec_restoringSave env original) fun _ => ?_
  refine spec_bind (R := fun _ st => Folders P st ∧ Restored env original st) ?_ fun _ => ?_
  · apply spec_attempt
    refine spec_forall fun s hs => ?_
    refine spec_conseq (spec_restartDaemon env.rollbackRestart s.config) ?_ ?_ ?_ fun _ h => h
    · rintro _ rfl
      exact ⟨hs.1,rfl⟩
    · exact fun _ st h => ⟨h.1,fun hsave => h.2.1.trans (hs.2 hsave)⟩
    · exact fun _ st h => ⟨h.1,fun hsave => h.2.trans (hs.2 hsave)⟩
  · exact spec_pure _ fun _ h => h

/-- The new configuration is in use, or the command has tried to restore the old one. -/
theorem spec_activate (env : RelocateEnv) (original next : SavedConfig) :
    Spec (Folders P) (activate env original next)
      (fun _ st => Folders P st ∧ st.config = .saved next ∧ st.daemon = some (.saved next))
      (fun e st => e.restores = true ∧ Folders P st ∧ Restored env original st) (Folders P) := by
  have hfail : ∀ e : RelocationError, e.restores = true →
      Spec (fun st => Folders P st ∧ Restored env original st) (fail e : Op Unit)
        (fun _ st => Folders P st ∧ st.config = .saved next ∧ st.daemon = some (.saved next))
        (fun e st => e.restores = true ∧ Folders P st ∧ Restored env original st) (Folders P) :=
    fun e he => spec_fail e fun st h => ⟨he,h⟩
  refine spec_attempt_bind (spec_saveConfig env.activationSave next) ?_ ?_
  · intro _
    refine spec_attempt_bind (spec_restartDaemon env.restart (.saved next)) ?_ ?_
    · exact fun _ => spec_pure _ fun _ h => h
    · intro _
      refine spec_bind (R := fun _ st => Folders P st ∧ Restored env original st) ?_ fun _ => ?_
      · exact spec_conseq (spec_rollBack env original) (fun _ h => h.1) (fun _ _ h => h)
          (fun _ _ h => h.elim) fun _ h => h
      · exact hfail _ rfl
  · intro _
    refine spec_bind (R := fun _ st => Folders P st ∧ Restored env original st) ?_ fun _ => ?_
    · exact spec_conseq (spec_restoreOriginal env original) (fun _ h => h.1) (fun _ _ h => h)
        (fun _ _ h => h.elim) fun _ h => h
    · exact hfail _ rfl

/-- Every regular file of the old folder has a copy with its hash in the new one. -/
def AllVerified (sha : Sha256) (old : Option StorageFolder) (new : Option NewFolder) : Prop :=
  ∃ folder, old = some folder ∧ ∀ source ∈ folder.files, Verified sha new source

theorem spec_copyStore (sha : Sha256) (env : RelocateEnv) (safetyBuffer : Nat)
    (old : Option StorageFolder) :
    Spec (Folders fun o _ => o = old) (copyStore sha env safetyBuffer)
      (fun _ => Folders fun o n => o = old ∧ AllVerified sha old n)
      (fun e st => e.restores = true ∧ Folders (fun o _ => o = old) st)
      (Folders fun o _ => o = old) := by
  refine spec_read_bind fun s hs => ?_
  have hs : s.oldFolder = old := hs
  split
  · refine spec_stepThenFail ?_
    rintro _ ⟨rfl,-⟩
    exact ⟨⟨rfl,hs⟩,hs⟩
  · rw [hs]
    refine spec_pre ?_ fun _ h => h.1
    have hcopy : Spec (fun t => t = s.newFolder) (mapFailure RelocationError.moveFailed
        (copyAndVerifyStore sha env.copy old safetyBuffer)) (fun _ t => AllVerified sha old t)
        (fun e _ => e.restores = true) fun _ => True := by
      apply spec_mapFailure
      refine spec_conseq (spec_returns _ s.newFolder) (fun _ h => h) ?_ (fun _ _ _ => rfl)
        fun _ h => h
      exact fun stats t h => verified_copyAndVerifyStore h
    refine spec_conseq (spec_zoom MoveState.newFolder _ hcopy rfl) (fun _ h => h) ?_ ?_ ?_
    · rintro _ _ ⟨n,rfl,h⟩
      exact ⟨hs,h⟩
    · rintro e _ ⟨n,rfl,h⟩
      exact ⟨h,hs⟩
    · rintro _ ⟨n,rfl,-⟩
      exact hs

end Pieces

section Command
variable (sha : Sha256) (env : RelocateEnv) (destinationId newPath : Str)

/-- The new folder has everything, the saved configuration names it for the destination, and the
daemon was restarted with this configuration. -/
structure Moved (old : Option StorageFolder) (st : MoveState) : Prop where
  verified : AllVerified sha old st.newFolder
  saved : ∃ next, st.config = .saved next ∧ st.daemon = some (.saved next) ∧
    ∃ d ∈ next.settings.destinations, d.id = destinationId ∧ d.path = newPath

/-- The old folder is as it was, or the move has been completed. -/
def Safe (old : Option StorageFolder) (st : MoveState) : Prop :=
  st.oldFolder = old ∨ Moved sha destinationId newPath old st

/-- How the command leaves the state on an error. -/
def Compensated (original : SavedConfig) (old : Option StorageFolder) (e : RelocationError)
    (st : MoveState) : Prop :=
  st.oldFolder = old ∧ (e.restores = true → Restored env original st)

variable {sha env destinationId newPath} {original : SavedConfig} {old : Option StorageFolder}

theorem named_withPath {index : Nat}
    (h : (original.settings.destinations.findIdx? fun d => d.id = destinationId) = some index) :
    ∃ d ∈ (withPath original index newPath).settings.destinations,
      d.id = destinationId ∧ d.path = newPath := by
  obtain ⟨hlt,hid,-⟩ := List.findIdx?_eq_some_iff_getElem.mp h
  refine ⟨{original.settings.destinations[index] with path := newPath},?_,by simpa using hid,rfl⟩
  apply List.mem_of_getElem? (i := index)
  simp [withPath,List.getElem?_eq_getElem hlt]

theorem spec_removeOld :
    Spec (Moved sha destinationId newPath old) (removeOld env)
      (fun _ => Moved sha destinationId newPath old) (fun _ _ => False)
      (Moved sha destinationId newPath old) := by
  unfold removeOld
  split
  all_goals
    refine spec_bind (R := fun _ => Moved sha destinationId newPath old) (spec_step ?_) fun _ => ?_
    · exact fun st h => ⟨⟨h.verified,h.saved⟩,⟨h.verified,h.saved⟩⟩
    · exact spec_pure _ fun _ h => h

theorem spec_moveToNewLocation {index : Nat}
    (hindex : (original.settings.destinations.findIdx? fun d => d.id = destinationId) =
      some index) :
    Spec (Folders fun o _ => o = old) (moveToNewLocation sha env original index newPath)
      (fun _ => Safe sha destinationId newPath old) (Compensated env original old)
      (Safe sha destinationId newPath old) := by
  have hsafe : ∀ st, Folders (fun o _ => o = old) st → Safe sha destinationId newPath old st :=
    fun st h => .inl h
  refine spec_attempt_bind (spec_conseq (spec_copyStore sha env _ old) (fun _ h => h)
    (fun _ _ h => h) (fun _ _ h => h) hsafe) ?_ ?_
  · intro stats
    refine spec_bind (R := fun _ => Moved sha destinationId newPath old) ?_ fun _ => ?_
    · refine spec_conseq (spec_activate env original (withPath original index newPath))
        (fun _ h => h) ?_ ?_ ?_
      · exact fun _ st h => ⟨h.1.2,_,h.2.1,h.2.2,named_withPath hindex⟩
      · exact fun e st h => ⟨h.2.1.1,fun _ => h.2.2⟩
      · exact fun st h => .inl h.1
    · refine spec_bind (R := fun _ => Moved sha destinationId newPath old) ?_ fun _ => ?_
      · exact spec_conseq spec_removeOld (fun _ h => h) (fun _ _ h => h) (fun _ _ h => h.elim)
          fun _ h => .inr h
      · exact spec_pure _ fun _ h => .inr h
  · intro e
    refine spec_bind (R := fun _ st => Folders (fun o _ => o = old) st ∧ Restored env original st)
      ?_ fun _ => ?_
    · exact spec_conseq (spec_restoreOriginal env original) (fun _ h => h.2) (fun _ _ h => h)
        (fun _ _ h => h.elim) hsafe
    · exact spec_fail e fun st h => ⟨h.1,fun _ => h.2⟩

theorem spec_promoteExistingSecondary :
    Spec (Folders fun o _ => o = old) (promoteExistingSecondary env original)
      (fun _ => Safe sha destinationId newPath old) (Compensated env original old)
      (Safe sha destinationId newPath old) := by
  have hrestore : ∀ e : RelocationError, Spec (Folders fun o _ => o = old) (do
      restoreOriginal env original
      fail e : Op RelocationResult) (fun _ => Safe sha destinationId newPath old)
      (Compensated env original old) (Safe sha destinationId newPath old) := by
    intro e
    refine spec_bind (R := fun _ st => Folders (fun o _ => o = old) st ∧ Restored env original st)
      ?_ fun _ => ?_
    · exact spec_conseq (spec_restoreOriginal env original) (fun _ h => h) (fun _ _ h => h)
        (fun _ _ h => h.elim) fun _ h => .inl h
    · exact spec_fail e fun st h => ⟨h.1,fun _ => h.2⟩
  unfold promoteExistingSecondary
  split
  · exact hrestore _
  · exact hrestore _
  · refine spec_bind (R := fun _ => Folders fun o _ => o = old) ?_ fun _ => ?_
    · refine spec_conseq (spec_activate env original _) (fun _ h => h) (fun _ _ h => h.1) ?_
        fun _ h => .inl h
      exact fun e st h => ⟨h.2.1,fun _ => h.2.2⟩
    · exact spec_pure _ fun _ h => .inl h

theorem spec_pauseBackups :
    Spec (Folders fun o _ => o = old) (pauseBackups env original)
      (fun _ => Folders fun o _ => o = old) (Compensated env original old)
      (Folders fun o _ => o = old) := by
  refine spec_bind (R := fun _ => Folders fun o _ => o = old) ?_ fun _ => ?_
  · apply spec_mapFailure
    refine spec_conseq (spec_saveConfig env.pauseSave _) (fun _ h => h) (fun _ _ h => h.1) ?_
      fun _ h => h
    exact fun e st h => ⟨h.1,fun hr => absurd hr (by decide)⟩
  · have hstop : Spec (Folders fun o _ => o = old) (do
        let _ ← attempt (saveConfig env.restoreSave original)
        fail .pauseDaemon : Op Unit) (fun _ => Folders fun o _ => o = old)
        (Compensated env original old) (Folders fun o _ => o = old) := by
      refine spec_bind (spec_restoringSave env original) fun _ => ?_
      exact spec_fail _ fun st h => ⟨h.1,fun _ => h.2⟩
    refine spec_attempt_bind (spec_setSafeMode env.pause true ?_) ?_ ?_
    · exact fun st h => h
    · exact fun _ => spec_pure _ fun _ h => h
    · intro e
      split
      · rename_i heq
        cases heq
      · exact spec_pure _ fun _ h => h
      · exact hstop

theorem spec_loadFromSource (load : LoadEnv) :
    Spec (Folders fun o _ => o = old) (loadFromSource load) (fun _ => Folders fun o _ => o = old)
      (fun e st => Folders (fun o _ => o = old) st ∧ e.restores = false)
      (Folders fun o _ => o = old) := by
  refine spec_read_bind fun s hs => ?_
  refine spec_pre (P := Folders fun o _ => o = old) ?_ fun _ h => h.2
  split
  · refine spec_check_bind (fun _ h => ⟨h,rfl⟩) fun _ => ?_
    exact spec_pure _ fun _ h => h
  · exact spec_fail _ fun _ h => ⟨h,rfl⟩
  · refine spec_lift_bind ?_ fun cfg _ => ?_
    · intro e he st h
      obtain ⟨-,rfl⟩ := orElse_eq_error.mp he
      exact ⟨h,rfl⟩
    · refine spec_bind (R := fun _ => Folders fun o _ => o = old) ?_ fun _ => ?_
      · apply spec_mapFailure
        exact spec_conseq (spec_writeConfig load.bootstrap cfg) (fun _ h => h) (fun _ _ h => h.1)
          (fun _ _ h => ⟨h.1,rfl⟩) fun _ h => h
      · exact spec_pure _ fun _ h => h

theorem spec_getConfig (load : LoadEnv) :
    Spec (Folders fun o _ => o = old) (getConfig load) (fun _ => Folders fun o _ => o = old)
      (fun e st => Folders (fun o _ => o = old) st ∧ e.restores = false)
      (Folders fun o _ => o = old) := by
  refine spec_bind (spec_loadFromSource load) fun cfg => ?_
  refine spec_lift_bind ?_ fun layered _ => ?_
  · intro e he st h
    refine ⟨h,?_⟩
    rcases bind_eq_error.mp he with he | ⟨interval,-,he⟩
    · obtain ⟨_,-,rfl⟩ := mapError_eq_error.mp he
      rfl
    · rcases bind_eq_error.mp he with he | ⟨safeMode,-,he⟩
      · obtain ⟨_,-,rfl⟩ := mapError_eq_error.mp he
        rfl
      · cases he
  · refine spec_lift_bind ?_ fun _ _ => ?_
    · intro e he st h
      obtain ⟨_,-,rfl⟩ := mapError_eq_error.mp he
      exact ⟨h,rfl⟩
    · exact spec_pure _ fun _ h => h

theorem spec_relocateDestinationCmd (s : MoveState) :
    Spec (fun t => t = s) (relocateDestinationCmd sha env destinationId newPath)
      (fun _ => Safe sha destinationId newPath s.oldFolder)
      (fun e t => t.oldFolder = s.oldFolder ∧ (e.restores = true → ∃ original u,
        Returns (getConfig env.load) s original u ∧ Restored env original t))
      (Safe sha destinationId newPath s.oldFolder) := by
  have hsafe : ∀ t, Folders (fun o _ => o = s.oldFolder) t →
      Safe sha destinationId newPath s.oldFolder t := fun t h => .inl h
  refine spec_bind (R := fun original t => Returns (getConfig env.load) s original t ∧
    Folders (fun o _ => o = s.oldFolder) t) ?_ fun original => ?_
  · refine spec_conseq (Spec.remember (spec_getConfig env.load) rfl) (fun _ h => h) (fun _ _ h => h)
      ?_ hsafe
    exact fun e t h => ⟨h.1,fun hr => absurd hr (by simp [h.2])⟩
  refine spec_forall fun u hu => ?_
  obtain ⟨hload,hold⟩ := hu
  have hcomp : ∀ (e : RelocationError) (t : MoveState), Compensated env original s.oldFolder e t →
      t.oldFolder = s.oldFolder ∧ (e.restores = true → ∃ original u,
        Returns (getConfig env.load) s original u ∧ Restored env original t) :=
    fun e t h => ⟨h.1,fun hr => ⟨original,u,hload,h.2 hr⟩⟩
  have hearly : ∀ (e : RelocationError), e.restores = false → ∀ t, t = u →
      t.oldFolder = s.oldFolder ∧ (e.restores = true → ∃ original u,
        Returns (getConfig env.load) s original u ∧ Restored env original t) := by
    rintro e he _ rfl
    exact ⟨hold,fun hr => absurd hr (by simp [he])⟩
  refine spec_lift_bind ?_ fun index hindex => ?_
  · intro e he
    obtain ⟨-,rfl⟩ := orElse_eq_error.mp he
    exact hearly _ rfl
  refine spec_check_bind (hearly _ rfl) fun _ => ?_
  refine spec_check_bind (hearly _ rfl) fun _ => ?_
  refine spec_check_bind (hearly _ rfl) fun _ => ?_
  refine spec_bind (R := fun _ => Folders fun o _ => o = s.oldFolder) ?_ fun _ => ?_
  · refine spec_conseq spec_pauseBackups ?_ (fun _ _ h => h) hcomp hsafe
    rintro _ rfl
    exact hold
  · split
    · exact spec_conseq spec_promoteExistingSecondary (fun _ h => h) (fun _ _ h => h) hcomp
        fun _ h => h
    · exact spec_conseq (spec_moveToNewLocation (orElse_eq_ok.mp hindex)) (fun _ h => h)
        (fun _ _ h => h) hcomp fun _ h => h

/-- In every state the command goes through the old folder is untouched, unless all its files are
verified at the new path, the configuration names that path and the daemon was restarted with it.
On an error the old folder is as it was, and a restoring save that can succeed has put the loaded
configuration back. -/
theorem relocation_keeps_old_folder (s : MoveState) :
    (∀ t ∈ (relocateDestinationCmd sha env destinationId newPath s).states,
      t.oldFolder = s.oldFolder ∨ Moved sha destinationId newPath s.oldFolder t) ∧
    ∀ e t, Fails (relocateDestinationCmd sha env destinationId newPath) s e t →
      t.oldFolder = s.oldFolder ∧ (e.restores = true → ∃ original u,
        Returns (getConfig env.load) s original u ∧
          (SaveSucceeds env.restoreSave original → t.config = .saved original)) := by
  have hspec := @spec_relocateDestinationCmd sha env destinationId newPath s
  constructor
  · intro t ht
    exact hspec.states (fun _ _ h => h) (fun _ _ h => .inl h.1) rfl ht
  · intro e t hf
    exact hspec.fails rfl hf

/-- A configuration with one destination and no watched path. -/
def mainOnly : SavedConfig where
  settings :=
    { maxBackupsPerFile := 1
      minFreeSpaceBytes := none
      freeSpaceSafetyBufferBytes := 0
      replicationEnabled := false
      replicationMirrorManifests := false
      replicationMaxManifestDeletesPerCycle := 0
      safetyThreshold := 0
      scan := ⟨false,.ok fun _ => false,2⟩
      codec := ⟨none,false,1,3⟩
      watched := []
      destinations := [⟨"main".toList,"/mnt/main".toList,none,[]⟩] }
  backupRoot := "/mnt/main".toList
  intervalSeconds := 60
  safeMode := false

def openProbe : PathProbe := ⟨fun _ => true,fun _ => false,fun _ => true⟩

/-- A move in which only the restart fails. -/
def restartRefused : RelocateEnv where
  load := ⟨true,none,.ok (),.ok none,.ok none,openProbe⟩
  canonical _ := none
  pauseSave := ⟨openProbe,.ok ()⟩
  pause := .acknowledged
  verification := none
  copy := ⟨false,true,true,true,true,false,fun _ => true,fun _ => true,fun _ => true,some 9,
    fun _ => true,fun _ => .ok [1,2],fun _ => true,fun _ => true,fun _ => true⟩
  copyStopped := none
  activationSave := ⟨openProbe,.ok ()⟩
  restart := .error none
  restoreSave := ⟨openProbe,.ok ()⟩
  restorePause := .acknowledged
  rollbackRestart := .ok ()
  removal := .ok ()

/-- A folder with one file in a directory. -/
def oneBlob : StorageFolder :=
  ⟨.dir "blobs".toList (.file "b".toList [1,2] .nil) .nil,by decide⟩

def beforeMove : MoveState := ⟨.saved mainOnly,none,false,some oneBlob,none⟩

/-- The configuration of before is saved again and the old folder is still there. -/
theorem relocation_keeps_old_folder_restart_refused :
    ∃ t, Fails (relocateDestinationCmd (.ofTable []) restartRefused "main".toList "/mnt/new".toList)
        beforeMove (.activationFailed true) t ∧
      t.oldFolder = some oneBlob ∧ t.config = .saved mainOnly := by
  have hresult : ((relocateDestinationCmd (.ofTable []) restartRefused "main".toList
      "/mnt/new".toList beforeMove).result.map fun _ => ()) = .error (.activationFailed true) := by
    decide +kernel
  have hfails : Fails (relocateDestinationCmd (.ofTable []) restartRefused "main".toList
      "/mnt/new".toList) beforeMove (.activationFailed true) _ := ⟨map_eq_error.mp hresult,rfl⟩
  obtain ⟨hold,hrestored⟩ := (relocation_keeps_old_folder beforeMove).2 _ _ hfails
  obtain ⟨original,u,hload,hsaved⟩ := hrestored rfl
  have hload' : Returns (getConfig restartRefused.load) beforeMove mainOnly beforeMove := ⟨rfl,rfl⟩
  obtain ⟨rfl,-⟩ := returns_unique hload hload'
  exact ⟨_,hfails,hold,hsaved ⟨by decide +kernel,rfl⟩⟩

end Command

end Relocation
end BackupSync
