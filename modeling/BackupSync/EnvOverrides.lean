import BackupSync.Promotion
import BackupSync.SourceRemoval

/-!
# Environment overrides and the configuration file

The loader puts the overrides of the environment over what the file says. Three
commands of the user interface load the configuration, change it and save it:
the switch for safe mode, the move of a storage folder and the removal of a
protected path. What they save is what they loaded, with the overrides in it.
-/
namespace BackupSync
open Checks Interruptible Interruptible.Action RelativePath BackupSync.Configuration Relocation
  Promotion SourceRemoval

namespace EnvOverrides

section Variables

inductive EnvVar where
  | unset
  | notUnicode
  | value (text : Str)
  deriving DecidableEq, Repr

def readNonEmptyEnv : EnvVar → Except Unit (Option Str)
  | .unset => .ok none
  | .notUnicode => .error ()
  | .value text => .ok (if trim text = [] then none else some (trim text))

def parseEnvU64 (raw : Str) : Except Unit Nat :=
  let digits := if raw.head? = some '+' then raw.tail else raw
  let number := digits.foldl (fun n c => n*10+(c.toNat - '0'.toNat)) 0
  if digits ≠ [] ∧ digits.all Char.isDigit ∧ number < 2^64 then .ok number else .error ()

def parseEnvBool (raw : Str) : Except Unit Bool :=
  let word := (trim raw).map Char.toLower
  if word ∈ ["1".toList,"true".toList,"yes".toList,"on".toList] then .ok true
  else if word ∈ ["0".toList,"false".toList,"no".toList,"off".toList] then .ok false
  else .error ()

def override {α : Type} (parse : Str → Except Unit α) (v : EnvVar) : Except Unit (Option α) := do
  match ← readNonEmptyEnv v with
  | none => return none
  | some raw => (parse raw).map some

structure Variables where
  intervalSeconds : EnvVar
  safeMode : EnvVar

/-- The loader sees the overrides of these variables. -/
def Variables.SeenBy (vars : Variables) (env : LoadEnv) : Prop :=
  env.interval = override parseEnvU64 vars.intervalSeconds ∧
    env.safeMode = override parseEnvBool vars.safeMode

end Variables

section Commands

/-- The configuration and the folders of a move, with the destinations. -/
abbrev Desk (Text Content : Type) := MoveState × Sites Text Content

inductive CommandError where
  | config (error : RelocationError)
  | notFound
  | otherEntries
  | changed
  | invalid (error : ConfigError)
  | history (error : StoreError)

structure ToggleEnv where
  load : LoadEnv
  save : SaveEnv
  reply : PauseReply

structure SafeModeUpdateResult where
  safeMode : Bool
  appliedLive : Bool
  warning : Option Str
  deriving DecidableEq, Repr

def toggleSafeModeCmd (env : ToggleEnv) (desired : Option Bool) : Op SafeModeUpdateResult := do
  let cfg ← getConfig env.load
  let next := desired.getD (!cfg.safeMode)
  saveConfig env.save {cfg with safeMode := next}
  match ← attempt (setSafeMode env.reply next) with
  | .ok () => return ⟨next,true,none⟩
  | .error _ => return ⟨next,false,some ("Preference saved for the next daemon start; " ++
      "the background service is not currently responding.").toList⟩

structure RemoveEnv (Text Content : Type) where
  load : LoadEnv
  /-- The comparison of two serialized configurations. -/
  sameValue : SavedConfig → SavedConfig → Bool
  probe : PathProbe
  leases : Except StoreError Unit
  canonical : Str → Except StoreError Str
  sites : Str → SiteEnv Text Content
  save : SaveEnv
  restart : Except (Option ConfigFile) Unit

def withoutSource (cfg : SavedConfig) (sourcePath : Str) (kind : WatchedKind) : SavedConfig :=
  {cfg with settings := {cfg.settings with
    watched := cfg.settings.watched.filter fun w =>
      components w.path ≠ components sourcePath || w.kind ≠ kind}}

variable {Text Content : Type} [StoreText Text] (sha : Sha256)

def onFile {α : Type} (op : Op α) : Action (Desk Text Content) CommandError α :=
  mapFailure .config (zoom Prod.fst (fun st desk => (st,desk.2)) op)

def onSites {α : Type} (op : Action (Sites Text Content) StoreError α) :
    Action (Desk Text Content) CommandError α :=
  mapFailure .history (zoom Prod.snd (fun sites desk => (desk.1,sites)) op)

/-- Whether the daemon was restarted is part of the answer, not an error. -/
def removeProtectedPathCmd (env : RemoveEnv Text Content) (requested : SavedConfig)
    (sourcePath : Str) (kind : WatchedKind) : Action (Desk Text Content) CommandError Bool := do
  let previous ← onFile (getConfig env.load)
  check (previous.settings.watched.any fun w =>
    decide (components w.path = components sourcePath) && decide (w.kind = kind)) .notFound
  check (!requested.settings.watched.any fun w =>
    decide (components w.path = components sourcePath)) .otherEntries
  check (env.sameValue requested (withoutSource previous sourcePath kind)) .changed
  lift ((validate requested.settings env.probe).mapError .invalid)
  onSites (lift env.leases)
  onSites (HistoryRemoval.removeHistoryLoop env.canonical
    (fun root => Sites.within root (removeHistoryAt sha sourcePath (env.sites root))) []
    (previous.settings.destinations.map Destination.path))
  onFile (saveConfig env.save requested)
  let restarted ← onFile (attempt (restartDaemon env.restart))
  return restarted.isOk

/-- The commands that load the configuration, change it and save it. -/
inductive ConfigCommand (Text Content : Type) where
  | toggleSafeMode (env : ToggleEnv) (desired : Option Bool)
  | relocateDestination (env : RelocateEnv) (destinationId newPath : Str)
  | removeProtectedPath (env : RemoveEnv Text Content) (requested : SavedConfig)
      (sourcePath : Str) (kind : WatchedKind)

namespace ConfigCommand

def load : ConfigCommand Text Content → LoadEnv
  | .toggleSafeMode env _ => env.load
  | .relocateDestination env _ _ => env.load
  | .removeProtectedPath env _ _ _ => env.load

def run : ConfigCommand Text Content → Action (Desk Text Content) CommandError Unit
  | .toggleSafeMode env desired => do
      let _ ← onFile (toggleSafeModeCmd env desired)
      return ()
  | .relocateDestination env destinationId newPath => do
      let _ ← onFile (relocateDestinationCmd sha env destinationId newPath)
      return ()
  | .removeProtectedPath env requested sourcePath kind => do
      let _ ← removeProtectedPathCmd sha env requested sourcePath kind
      return ()

/-- The two configurations differ in the fields the command is meant to change and nowhere else. -/
def Meant : ConfigCommand Text Content → SavedConfig → SavedConfig → Prop
  | .toggleSafeMode _ _,file,saved => saved = {file with safeMode := saved.safeMode}
  | .relocateDestination _ _ _,file,saved => saved = {file with
      settings := {file.settings with destinations := saved.settings.destinations}
      backupRoot := saved.backupRoot}
  | .removeProtectedPath _ _ _ _,file,saved => saved = {file with
      settings := {file.settings with watched := saved.settings.watched}}

/-- A saved file, after normalising both. -/
def Saves (c : ConfigCommand Text Content) (file : SavedConfig) (found : ConfigFile) : Prop :=
  ∃ saved, found = .saved saved ∧
    c.Meant (normalizeLoadedConfig file) (normalizeLoadedConfig saved)

/-- The variables say nothing else than the file, as far as the command is not meant to change it. -/
def Transparent (vars : Variables) (file : SavedConfig) : ConfigCommand Text Content → Prop
  | .toggleSafeMode _ _ => ∀ n, override parseEnvU64 vars.intervalSeconds = .ok (some n) →
      n = file.intervalSeconds
  | _ => (∀ n, override parseEnvU64 vars.intervalSeconds = .ok (some n) →
        n = file.intervalSeconds) ∧
      ∀ b, override parseEnvBool vars.safeMode = .ok (some b) → b = file.safeMode

/-- A verified promotion is the answer of verify_secondary_can_be_main for the loaded configuration,
and configurations that serialize alike are the same. -/
def Genuine (prim : Primitives) (loaded : SavedConfig) : ConfigCommand Text Content → Prop
  | .toggleSafeMode _ _ => True
  | .relocateDestination env _ _ => ∀ next, env.verification = some (.ok next) →
      ∃ (penv : PromotionEnv) (index checked : Nat) (disk : Disk Text),
        verifySecondaryCanBeMain sha prim penv loaded index disk = .ok (next,checked)
  | .removeProtectedPath env _ _ _ => ∀ a b, env.sameValue a b = true → a = b

end ConfigCommand

end Commands

section Files
variable {A : ConfigFile → Prop}

/-- What is known of the configuration file. -/
def Holds (A : ConfigFile → Prop) (st : MoveState) : Prop := A st.config

theorem keeps_writeConfig {write : Except ConfigFile Unit} {cfg : SavedConfig}
    (hcfg : A (.saved cfg)) (hleft : ∀ left, write = .error left → A left) :
    Keeps (Holds A) (writeConfig write cfg) := by
  unfold writeConfig
  cases write with
  | ok u => exact keeps_step fun _ _ => hcfg
  | error left => exact triple_stepThenFail fun _ _ => hleft left rfl

theorem keeps_saveConfig {env : SaveEnv} {cfg : SavedConfig} (hcfg : A (.saved cfg))
    (hleft : ∀ left, env.write = .error left → A left) :
    Keeps (Holds A) (saveConfig env cfg) :=
  keeps_lift_bind fun _ _ => keeps_writeConfig hcfg hleft

theorem keeps_setSafeMode (reply : PauseReply) (enabled : Bool) :
    Keeps (Holds A) (setSafeMode reply enabled) :=
  spec_setSafeMode reply enabled fun _ h => h

theorem keeps_restartDaemon (outcome : Except (Option ConfigFile) Unit) :
    Keeps (Holds A) (restartDaemon outcome) := by
  unfold restartDaemon
  split
  · exact keeps_step fun _ h => h
  · exact triple_stepThenFail fun _ h => h

theorem keeps_copyStore (sha : Sha256) (env : RelocateEnv) (safetyBuffer : Nat) :
    Keeps (Holds A) (copyStore sha env safetyBuffer) := by
  refine keeps_read_bind fun st => ?_
  split
  · exact triple_stepThenFail fun _ h => h
  · refine Keeps.zoom (I := fun _ => True) ?_ (fun _ _ => trivial) fun _ _ h _ => h
    exact fun _ _ => ⟨fun _ _ => trivial,fun _ _ => trivial,fun _ _ => trivial⟩

theorem keeps_removeOld (env : RelocateEnv) : Keeps (Holds A) (removeOld env) := by
  unfold removeOld
  split
  · exact keeps_bind (keeps_step fun _ h => h) fun _ => keeps_pure _
  · exact keeps_bind (keeps_step fun _ h => h) fun _ => keeps_pure _

section Relocate
variable {env : RelocateEnv} {original : SavedConfig}

theorem keeps_restoreOriginal (horiginal : A (.saved original))
    (hrestore : ∀ left, env.restoreSave.write = .error left → A left) :
    Keeps (Holds A) (restoreOriginal env original) := by
  refine keeps_bind (keeps_saveConfig horiginal hrestore).attempt fun _ => ?_
  exact keeps_bind (keeps_setSafeMode _ _).attempt fun _ => keeps_pure _

theorem keeps_restoring {α : Type} (horiginal : A (.saved original))
    (hrestore : ∀ left, env.restoreSave.write = .error left → A left) (e : RelocationError) :
    Keeps (Holds A) (do
      restoreOriginal env original
      fail e : Op α) :=
  keeps_bind (keeps_restoreOriginal horiginal hrestore) fun _ => triple_fail e fun _ h => h

theorem keeps_rollBack (horiginal : A (.saved original))
    (hrestore : ∀ left, env.restoreSave.write = .error left → A left) :
    Keeps (Holds A) (rollBack env original) := by
  refine keeps_bind (keeps_saveConfig horiginal hrestore).attempt fun _ => ?_
  exact keeps_bind (keeps_restartDaemon _).attempt fun _ => keeps_pure _

theorem keeps_activate {next : SavedConfig} (horiginal : A (.saved original))
    (hnext : A (.saved next)) (hrestore : ∀ left, env.restoreSave.write = .error left → A left)
    (hactivate : ∀ left, env.activationSave.write = .error left → A left) :
    Keeps (Holds A) (activate env original next) := by
  refine keeps_bind (keeps_saveConfig hnext hactivate).attempt fun saved => ?_
  cases saved with
  | error e => exact keeps_restoring horiginal hrestore _
  | ok u =>
      refine keeps_bind (keeps_restartDaemon env.restart).attempt fun restarted => ?_
      cases restarted with
      | error e =>
          exact keeps_bind (keeps_rollBack horiginal hrestore) fun _ => triple_fail _ fun _ h => h
      | ok u => exact keeps_pure _

theorem keeps_pauseBackups (horiginal : A (.saved original))
    (hpaused : A (.saved {original with safeMode := true}))
    (hpause : ∀ left, env.pauseSave.write = .error left → A left)
    (hrestore : ∀ left, env.restoreSave.write = .error left → A left) :
    Keeps (Holds A) (pauseBackups env original) := by
  refine keeps_bind (keeps_saveConfig hpaused hpause).mapFailure fun _ => ?_
  refine keeps_bind (keeps_setSafeMode _ _).attempt fun reply => ?_
  split
  · exact keeps_pure _
  · exact keeps_pure _
  · refine keeps_bind (keeps_saveConfig horiginal hrestore).attempt fun _ => ?_
    exact triple_fail _ fun _ h => h

end Relocate
end Files

section Loading
variable {env : LoadEnv} {s u : MoveState} {file loaded : SavedConfig}

theorem triple_loadFromSource {A : ConfigFile → Prop} (hs : A s.config)
    (hnew : s.config = .missing → ∀ cfg, env.defaults = some cfg → A (.saved cfg))
    (hleft : ∀ left, env.bootstrap = .error left → A left) :
    Triple (fun t => t = s) (loadFromSource env) (fun _ => Holds A) (Holds A) := by
  have hstart : ∀ t, t = s ∧ t = s → Holds A t := by
    rintro t ⟨rfl,-⟩
    exact hs
  refine triple_read_bind ?_
  rintro t rfl
  refine triple_conseq (P := Holds A) ?_ hstart (fun _ _ h => h) fun _ h => h
  cases hfile : t.config with
  | saved cfg => exact keeps_check_bind fun _ => keeps_pure _
  | damaged => exact triple_fail _ fun _ h => h
  | missing =>
      refine keeps_lift_bind fun cfg hcfg => ?_
      have hdefault := hnew hfile cfg (orElse_eq_ok.mp hcfg)
      exact keeps_bind (keeps_writeConfig hdefault hleft).mapFailure fun _ => keeps_pure _

/-- A file that was missing is loaded as the default that was put in its place. -/
theorem defaults_of_missing (h : Returns (loadFromSource env) s file u)
    (hmissing : s.config = .missing) : env.defaults = some file := by
  have hr := returns_read_bind.mp h
  rw [hmissing] at hr
  obtain ⟨cfg,hcfg,hr⟩ := returns_lift_bind.mp hr
  obtain ⟨_,_,-,hr⟩ := returns_bind.mp hr
  obtain ⟨rfl,-⟩ := returns_pure.mp hr
  exact orElse_eq_ok.mp hcfg

theorem applyEnvLayering_eq_ok : applyEnvLayering env file = .ok loaded ↔
    ∃ interval safeMode, env.interval = .ok interval ∧ env.safeMode = .ok safeMode ∧
      loaded = {file with
        intervalSeconds := interval.getD file.intervalSeconds
        safeMode := safeMode.getD file.safeMode} := by
  constructor
  · intro h
    obtain ⟨interval,hinterval,h⟩ := bind_eq_ok.mp h
    obtain ⟨safeMode,hsafe,h⟩ := bind_eq_ok.mp h
    cases h
    exact ⟨interval,safeMode,mapError_eq_ok.mp hinterval,mapError_eq_ok.mp hsafe,rfl⟩
  · rintro ⟨interval,safeMode,hinterval,hsafe,rfl⟩
    exact bind_eq_ok.mpr ⟨interval,mapError_eq_ok.mpr hinterval,
      bind_eq_ok.mpr ⟨safeMode,mapError_eq_ok.mpr hsafe,rfl⟩⟩

theorem returns_getConfig : Returns (getConfig env) s loaded u ↔
    ∃ file, Returns (loadFromSource env) s file u ∧ applyEnvLayering env file = .ok loaded ∧
      (validate loaded.settings env.probe).mapError (fun _ => RelocationError.configLoad) =
        .ok () := by
  unfold getConfig
  simp only [returns_bind,returns_lift,returns_pure]
  constructor
  · rintro ⟨file,t,hfile,layered,_,⟨hlayered,rfl⟩,_,_,⟨hvalid,rfl⟩,rfl,rfl⟩
    exact ⟨file,hfile,hlayered,hvalid⟩
  · rintro ⟨file,hfile,hlayered,hvalid⟩
    exact ⟨file,u,hfile,loaded,u,⟨hlayered,rfl⟩,(),u,⟨hvalid,rfl⟩,rfl,rfl⟩

end Loading

section Meant
variable {Text Content : Type} {c : ConfigCommand Text Content}
  {file loaded saved : SavedConfig} {vars : Variables}

namespace ConfigCommand

theorem meant_refl (c : ConfigCommand Text Content) (cfg : SavedConfig) : c.Meant cfg cfg := by
  cases c with
  | toggleSafeMode env desired => rfl
  | relocateDestination env destinationId newPath => rfl
  | removeProtectedPath env requested sourcePath kind => rfl

theorem Meant.normalize (h : c.Meant file saved) :
    c.Meant (normalizeLoadedConfig file) (normalizeLoadedConfig saved) := by
  cases c with
  | toggleSafeMode env desired => exact congrArg normalizeLoadedConfig h
  | relocateDestination env destinationId newPath =>
      have h : saved = _ := h
      unfold Meant
      rw [h]
      rfl
  | removeProtectedPath env requested sourcePath kind =>
      have h : saved = _ := h
      unfold Meant
      rw [h]
      rfl

theorem Meant.intervalSeconds_eq (h : c.Meant file saved) :
    saved.intervalSeconds = file.intervalSeconds := by
  cases c with
  | toggleSafeMode env desired =>
      have h : saved = _ := h
      rw [h]
  | relocateDestination env destinationId newPath =>
      have h : saved = _ := h
      rw [h]
  | removeProtectedPath env requested sourcePath kind =>
      have h : saved = _ := h
      rw [h]

/-- Only the switch for safe mode is meant to change it. -/
theorem Meant.safeMode_eq (h : c.Meant file saved) :
    (∃ env desired, c = .toggleSafeMode env desired) ∨ saved.safeMode = file.safeMode := by
  cases c with
  | toggleSafeMode env desired => exact .inl ⟨env,desired,rfl⟩
  | relocateDestination env destinationId newPath =>
      have h : saved = _ := h
      rw [h]
      exact .inr rfl
  | removeProtectedPath env requested sourcePath kind =>
      have h : saved = _ := h
      rw [h]
      exact .inr rfl

theorem transparent_iff : c.Transparent vars file ↔
    (∀ n, override parseEnvU64 vars.intervalSeconds = .ok (some n) → n = file.intervalSeconds) ∧
      ((∃ env desired, c = .toggleSafeMode env desired) ∨
        ∀ b, override parseEnvBool vars.safeMode = .ok (some b) → b = file.safeMode) := by
  cases c with
  | toggleSafeMode env desired => simp [Transparent]
  | relocateDestination env destinationId newPath => simp [Transparent]
  | removeProtectedPath env requested sourcePath kind => simp [Transparent]

/-- The loaded configuration differs from the file as the overrides say. -/
theorem layered_eq (hvars : vars.SeenBy c.load) (hlayered : applyEnvLayering c.load file = .ok loaded) :
    ∃ interval safeMode, override parseEnvU64 vars.intervalSeconds = .ok interval ∧
      override parseEnvBool vars.safeMode = .ok safeMode ∧
      loaded = {file with
        intervalSeconds := interval.getD file.intervalSeconds
        safeMode := safeMode.getD file.safeMode} := by
  obtain ⟨interval,safeMode,hinterval,hsafe,hloaded⟩ := applyEnvLayering_eq_ok.mp hlayered
  exact ⟨interval,safeMode,hvars.1.symm.trans hinterval,hvars.2.symm.trans hsafe,hloaded⟩

/-- Under transparent variables a command starts from the file, up to the switch it sets. -/
theorem meant_of_transparent (hvars : vars.SeenBy c.load)
    (hlayered : applyEnvLayering c.load file = .ok loaded) (h : c.Transparent vars file) :
    loaded = {file with safeMode := loaded.safeMode} ∧
      ((∃ env desired, c = .toggleSafeMode env desired) ∨ loaded = file) := by
  obtain ⟨interval,safeMode,hinterval,hsafe,rfl⟩ := layered_eq hvars hlayered
  obtain ⟨hsame,hmode⟩ := transparent_iff.mp h
  have hseconds : interval.getD file.intervalSeconds = file.intervalSeconds := by
    cases interval with
    | none => rfl
    | some n => exact hsame n hinterval
  rw [hseconds]
  refine ⟨rfl,hmode.imp_right fun hmode => ?_⟩
  cases safeMode with
  | none => rfl
  | some b =>
      have hb := hmode b hsafe
      subst hb
      rfl

/-- What a command makes of the loaded configuration is a meant change of the file exactly where the
variables are transparent. -/
theorem meant_normalized_iff (hvars : vars.SeenBy c.load)
    (hlayered : applyEnvLayering c.load file = .ok loaded) (hsaved : c.Meant loaded saved) :
    c.Meant (normalizeLoadedConfig file) (normalizeLoadedConfig saved) ↔ c.Transparent vars file := by
  constructor
  · intro h
    obtain ⟨interval,safeMode,hinterval,hsafe,rfl⟩ := layered_eq hvars hlayered
    have hseconds : interval.getD file.intervalSeconds = file.intervalSeconds :=
      hsaved.intervalSeconds_eq.symm.trans h.intervalSeconds_eq
    refine transparent_iff.mpr ⟨?_,?_⟩
    · intro n hn
      rw [hinterval] at hn
      cases hn
      exact hseconds
    · rcases hsaved.safeMode_eq with htoggle | hmode
      · exact .inl htoggle
      · rcases h.safeMode_eq with htoggle | hmode'
        · exact .inl htoggle
        · refine .inr fun b hb => ?_
          rw [hsafe] at hb
          cases hb
          exact hmode.symm.trans hmode'
  · intro h
    obtain ⟨hfile,htoggle | rfl⟩ := meant_of_transparent hvars hlayered h
    · obtain ⟨env,desired,rfl⟩ := htoggle
      apply Meant.normalize
      have hsaved : saved = {loaded with safeMode := saved.safeMode} := hsaved
      change saved = {file with safeMode := saved.safeMode}
      rw [hsaved,hfile]
    · exact hsaved.normalize

end ConfigCommand
end Meant

section Commands
variable {sha : Sha256}

variable {s t : MoveState}

theorem returns_saveConfig {env : SaveEnv} {cfg : SavedConfig}
    (h : Returns (saveConfig env cfg) s () t) : t.config = .saved cfg := by
  have hspec := @spec_saveConfig (fun _ _ => True) env cfg
  exact (hspec.returns trivial h).2

theorem config_of_keeps {α : Type} {m : Op α} (h : ∀ A, Keeps (Holds A) m) {a : α}
    (hr : Returns m s a t) : t.config = s.config :=
  (h fun found => found = s.config).returns rfl hr

theorem returns_toggle {env : ToggleEnv} {desired : Option Bool} {r : SafeModeUpdateResult}
    (h : Returns (toggleSafeModeCmd env desired) s r t) :
    ∃ loaded u b, Returns (getConfig env.load) s loaded u ∧
      t.config = .saved {loaded with safeMode := b} := by
  obtain ⟨loaded,u,hload,h⟩ := returns_bind.mp h
  obtain ⟨_,v,hsave,h⟩ := returns_bind.mp h
  obtain ⟨reply,w,hreply,h⟩ := returns_bind.mp h
  have hw := config_of_keeps (fun A => (keeps_setSafeMode _ _).attempt) hreply
  have ht : t = w := by
    cases reply with
    | ok u => exact (returns_pure.mp h).2
    | error e => exact (returns_pure.mp h).2
  refine ⟨loaded,u,desired.getD (!loaded.safeMode),hload,?_⟩
  rw [ht,hw]
  exact returns_saveConfig hsave

theorem returns_activate {env : RelocateEnv} {original next : SavedConfig}
    (h : Returns (activate env original next) s () t) : t.config = .saved next := by
  have hspec := @spec_activate (fun _ _ => True) env original next
  exact (hspec.returns trivial h).2.1

theorem returns_restoring {α : Type} {env : RelocateEnv} {original : SavedConfig}
    {e : RelocationError} {a : α} : ¬ Returns (do
      restoreOriginal env original
      fail e : Op α) s a t := by
  intro h
  obtain ⟨_,_,-,h⟩ := returns_bind.mp h
  exact returns_fail h

theorem returns_relocate {env : RelocateEnv} {destinationId newPath : Str} {r : RelocationResult}
    (h : Returns (relocateDestinationCmd sha env destinationId newPath) s r t) :
    ∃ loaded u saved, Returns (getConfig env.load) s loaded u ∧ t.config = .saved saved ∧
      ((∃ index, saved = withPath loaded index newPath) ∨ env.verification = some (.ok saved)) := by
  obtain ⟨loaded,u,hload,h⟩ := returns_bind.mp h
  obtain ⟨index,-,h⟩ := returns_lift_bind.mp h
  obtain ⟨-,h⟩ := returns_check_bind.mp h
  obtain ⟨-,h⟩ := returns_check_bind.mp h
  obtain ⟨-,h⟩ := returns_check_bind.mp h
  obtain ⟨_,v,-,h⟩ := returns_bind.mp h
  split at h
  · unfold promoteExistingSecondary at h
    split at h
    · exact absurd h returns_restoring
    · exact absurd h returns_restoring
    · rename_i next hnext
      obtain ⟨_,w,hactivate,h⟩ := returns_bind.mp h
      obtain ⟨-,rfl⟩ := returns_pure.mp h
      exact ⟨loaded,u,next,hload,returns_activate hactivate,.inr hnext⟩
  · obtain ⟨copied,w,-,h⟩ := returns_bind.mp h
    cases copied with
    | error e => exact absurd h returns_restoring
    | ok stats =>
        obtain ⟨_,x,hactivate,h⟩ := returns_bind.mp h
        obtain ⟨removed,y,hremove,h⟩ := returns_bind.mp h
        obtain ⟨-,rfl⟩ := returns_pure.mp h
        refine ⟨loaded,u,_,hload,?_,.inl ⟨index,rfl⟩⟩
        rw [config_of_keeps (fun A => keeps_removeOld env) hremove]
        exact returns_activate hactivate

end Commands

section Desks
variable {Text Content : Type} {A : ConfigFile → Prop}

theorem returns_onFile {α : Type} {op : Op α} {desk t : Desk Text Content} {a : α} :
    Returns (onFile op) desk a t ↔ ∃ u, Returns op desk.1 a u ∧ t = (u,desk.2) := by
  unfold onFile
  rw [returns_mapFailure,returns_zoom]

/-- What is known of the configuration file on a desk. -/
def FileOf (A : ConfigFile → Prop) (desk : Desk Text Content) : Prop := Holds A desk.1

theorem keeps_onFile {α : Type} {op : Op α} (h : Keeps (Holds A) op) :
    Keeps (FileOf A) (onFile op : Action (Desk Text Content) CommandError α) := by
  apply Keeps.mapFailure
  exact h.zoom (fun _ h => h) fun _ _ _ h => h

theorem keeps_onSites {α : Type} (op : Action (Sites Text Content) StoreError α) :
    Keeps (FileOf A) (onSites op) := by
  apply Keeps.mapFailure
  refine Keeps.zoom (I := fun _ => True) ?_ (fun _ _ => trivial) fun _ _ h _ => h
  exact fun _ _ => ⟨fun _ _ => trivial,fun _ _ => trivial,fun _ _ => trivial⟩

theorem triple_onFile {α : Type} {op : Op α} {desk : Desk Text Content}
    {Q : α → MoveState → Prop} (h : Triple (fun t => t = desk.1) op Q (Holds A)) :
    Triple (fun t => t = desk) (onFile op) (fun a t => Q a t.1) (FileOf A) := by
  apply spec_mapFailure
  refine spec_conseq (spec_zoom Prod.fst (fun st desk => (st,desk.2)) h rfl) (fun _ h => h) ?_ ?_ ?_
  · rintro a t ⟨u,rfl,hu⟩
    exact hu
  · rintro e t ⟨u,rfl,hu⟩
    exact hu
  · rintro t ⟨u,rfl,hu⟩
    exact hu

end Desks

section Returning
variable {Text Content : Type} [StoreText Text] {sha : Sha256} {prim : Primitives}
  {c : ConfigCommand Text Content}

theorem returns_remove {env : RemoveEnv Text Content} {requested : SavedConfig} {sourcePath : Str}
    {kind : WatchedKind} {desk t : Desk Text Content} {r : Bool}
    (h : Returns (removeProtectedPathCmd sha env requested sourcePath kind) desk r t) :
    ∃ loaded u, Returns (getConfig env.load) desk.1 loaded u ∧ t.1.config = .saved requested ∧
      env.sameValue requested (withoutSource loaded sourcePath kind) = true := by
  obtain ⟨loaded,d₁,hload,h⟩ := returns_bind.mp h
  obtain ⟨-,h⟩ := returns_check_bind.mp h
  obtain ⟨-,h⟩ := returns_check_bind.mp h
  obtain ⟨hsame,h⟩ := returns_check_bind.mp h
  obtain ⟨_,-,h⟩ := returns_lift_bind.mp h
  obtain ⟨_,d₂,-,h⟩ := returns_bind.mp h
  obtain ⟨_,d₃,-,h⟩ := returns_bind.mp h
  obtain ⟨_,d₄,hsave,h⟩ := returns_bind.mp h
  obtain ⟨restarted,d₅,hrestart,h⟩ := returns_bind.mp h
  obtain ⟨-,rfl⟩ := returns_pure.mp h
  obtain ⟨u,hget,-⟩ := returns_onFile.mp hload
  obtain ⟨v,hsaved,rfl⟩ := returns_onFile.mp hsave
  obtain ⟨w,hrestarted,rfl⟩ := returns_onFile.mp hrestart
  refine ⟨loaded,u,hget,?_,hsame⟩
  dsimp only
  rw [config_of_keeps (fun A => (keeps_restartDaemon env.restart).attempt) hrestarted]
  exact returns_saveConfig hsaved

/-- A command that returns has saved a change of the loaded configuration that it is meant to make. -/
theorem returns_run {desk t : Desk Text Content} {file : SavedConfig} {u : MoveState}
    (hload : Returns (loadFromSource c.load) desk.1 file u)
    (hgenuine : ∀ loaded, applyEnvLayering c.load file = .ok loaded → c.Genuine sha prim loaded)
    (h : Returns (c.run sha) desk () t) :
    ∃ loaded saved, applyEnvLayering c.load file = .ok loaded ∧ t.1.config = .saved saved ∧
      c.Meant loaded saved := by
  have hlayered : ∀ {loaded v}, Returns (getConfig c.load) desk.1 loaded v →
      applyEnvLayering c.load file = .ok loaded := by
    intro loaded v hr
    obtain ⟨file',hfile',hlayered,-⟩ := returns_getConfig.mp hr
    obtain ⟨rfl,-⟩ := returns_unique hload hfile'
    exact hlayered
  cases c with
  | toggleSafeMode env desired =>
      obtain ⟨_,d,hr,h⟩ := returns_bind.mp h
      obtain ⟨-,rfl⟩ := returns_pure.mp h
      obtain ⟨v,hcmd,rfl⟩ := returns_onFile.mp hr
      obtain ⟨loaded,_,b,hget,hsaved⟩ := returns_toggle hcmd
      exact ⟨loaded,_,hlayered hget,hsaved,rfl⟩
  | relocateDestination env destinationId newPath =>
      obtain ⟨_,d,hr,h⟩ := returns_bind.mp h
      obtain ⟨-,rfl⟩ := returns_pure.mp h
      obtain ⟨v,hcmd,rfl⟩ := returns_onFile.mp hr
      obtain ⟨loaded,_,saved,hget,hsaved,hcases⟩ := returns_relocate hcmd
      refine ⟨loaded,saved,hlayered hget,hsaved,?_⟩
      rcases hcases with ⟨index,rfl⟩ | hverified
      · rfl
      · obtain ⟨penv,index,checked,disk,hverify⟩ := hgenuine loaded (hlayered hget) saved hverified
        obtain ⟨rfl,-⟩ := verifySecondaryCanBeMain_eq_ok hverify
        rfl
  | removeProtectedPath env requested sourcePath kind =>
      obtain ⟨_,d,hcmd,h⟩ := returns_bind.mp h
      obtain ⟨-,rfl⟩ := returns_pure.mp h
      obtain ⟨loaded,_,hget,hsaved,hsame⟩ := returns_remove hcmd
      have hrequested := hgenuine loaded (hlayered hget) _ _ hsame
      refine ⟨loaded,requested,hlayered hget,hsaved,?_⟩
      rw [hrequested]
      rfl

end Returning

section States
variable {Text Content : Type} [StoreText Text] {sha : Sha256} {prim : Primitives}
  {c : ConfigCommand Text Content} {A : ConfigFile → Prop} {file : SavedConfig}

variable {s u : MoveState}

theorem triple_getConfig {env : LoadEnv} (hload : Returns (loadFromSource env) s file u)
    (hs : A s.config) (hfile : A (.saved file))
    (hleft : ∀ left, env.bootstrap = .error left → A left) : Triple (fun t => t = s) (getConfig env)
      (fun loaded t => applyEnvLayering env file = .ok loaded ∧ Holds A t) (Holds A) := by
  have hnew : s.config = .missing → ∀ cfg, env.defaults = some cfg → A (.saved cfg) := by
    intro hmissing cfg hcfg
    rw [defaults_of_missing hload hmissing] at hcfg
    cases hcfg
    exact hfile
  have hkeep : Triple (fun t => t = s) (getConfig env) (fun _ => Holds A) (Holds A) := by
    refine triple_bind (triple_loadFromSource hs hnew hleft) fun cfg => ?_
    refine keeps_lift_bind fun layered _ => ?_
    exact keeps_lift_bind fun _ _ => keeps_pure _
  refine spec_post (Spec.remember hkeep rfl) ?_
  rintro loaded t ⟨hr,ht⟩
  obtain ⟨file',hfile',hlayered,-⟩ := returns_getConfig.mp hr
  obtain ⟨rfl,-⟩ := returns_unique hload hfile'
  exact ⟨hlayered,ht⟩

/-- After the load, a fact about the loaded configuration is used beside the invariant. -/
theorem triple_after_load {σ ε α : Type} {I : σ → Prop} {φ : Prop} {m : Action σ ε α}
    (h : φ → Keeps I m) : Triple (fun t => φ ∧ I t) m (fun _ => I) I := by
  apply triple_forall
  rintro s ⟨hφ,hs⟩
  refine spec_pre (h hφ) ?_
  rintro _ rfl
  exact hs

theorem triple_toggle {env : ToggleEnv} {desired : Option Bool}
    (hload : Returns (loadFromSource env.load) s file u) (hs : A s.config) (hfile : A (.saved file))
    (hsaves : ∀ loaded b, applyEnvLayering env.load file = .ok loaded →
      A (.saved {loaded with safeMode := b}))
    (hleft : ∀ left, .error left ∈ [env.load.bootstrap,env.save.write] → A left) :
    Triple (fun t => t = s) (toggleSafeModeCmd env desired) (fun _ => Holds A) (Holds A) := by
  refine triple_bind (triple_getConfig hload hs hfile fun left h => hleft left (by simp [h]))
    fun loaded => triple_after_load fun hlayered => ?_
  refine keeps_bind (keeps_saveConfig (hsaves loaded _ hlayered) fun left h => hleft left
    (by simp [h])) fun _ => ?_
  refine keeps_bind (keeps_setSafeMode _ _).attempt fun reply => ?_
  cases reply with
  | ok u => exact keeps_pure _
  | error e => exact keeps_pure _

theorem triple_relocate {env : RelocateEnv} {destinationId newPath : Str}
    (hload : Returns (loadFromSource env.load) s file u) (hs : A s.config) (hfile : A (.saved file))
    (hsaves : ∀ loaded, applyEnvLayering env.load file = .ok loaded → A (.saved loaded) ∧
      A (.saved {loaded with safeMode := true}) ∧
      (∀ index, A (.saved (withPath loaded index newPath))) ∧
      ∀ next, env.verification = some (.ok next) → A (.saved next))
    (hleft : ∀ left, .error left ∈ [env.load.bootstrap,env.pauseSave.write,env.activationSave.write,
      env.restoreSave.write] → A left) :
    Triple (fun t => t = s) (relocateDestinationCmd sha env destinationId newPath)
      (fun _ => Holds A) (Holds A) := by
  have hpause : ∀ left, env.pauseSave.write = .error left → A left :=
    fun left h => hleft left (by simp [h])
  have hactivate : ∀ left, env.activationSave.write = .error left → A left :=
    fun left h => hleft left (by simp [h])
  have hrestore : ∀ left, env.restoreSave.write = .error left → A left :=
    fun left h => hleft left (by simp [h])
  refine triple_bind (triple_getConfig hload hs hfile fun left h => hleft left (by simp [h]))
    fun loaded => triple_after_load fun hlayered => ?_
  obtain ⟨hloaded,hpaused,hmoved,hpromoted⟩ := hsaves loaded hlayered
  refine keeps_lift_bind fun index _ => ?_
  refine keeps_check_bind fun _ => keeps_check_bind fun _ => keeps_check_bind fun _ => ?_
  refine keeps_bind (keeps_pauseBackups hloaded hpaused hpause hrestore) fun _ => ?_
  split
  · unfold promoteExistingSecondary
    split
    · exact keeps_restoring hloaded hrestore _
    · exact keeps_restoring hloaded hrestore _
    · rename_i next hnext
      exact keeps_bind (keeps_activate hloaded (hpromoted next hnext) hrestore hactivate)
        fun _ => keeps_pure _
  · refine keeps_bind (keeps_copyStore sha env _).attempt fun copied => ?_
    cases copied with
    | error e => exact keeps_restoring hloaded hrestore e
    | ok stats =>
        refine keeps_bind (keeps_activate hloaded (hmoved index) hrestore hactivate) fun _ => ?_
        exact keeps_bind (keeps_removeOld env) fun _ => keeps_pure _

theorem triple_remove {env : RemoveEnv Text Content} {requested : SavedConfig} {sourcePath : Str}
    {kind : WatchedKind} {desk : Desk Text Content}
    (hload : Returns (loadFromSource env.load) desk.1 file u) (hs : A desk.1.config)
    (hfile : A (.saved file)) (hsaves : ∀ loaded, applyEnvLayering env.load file = .ok loaded →
      env.sameValue requested (withoutSource loaded sourcePath kind) = true → A (.saved requested))
    (hleft : ∀ left, .error left ∈ [env.load.bootstrap,env.save.write] → A left) :
    Triple (fun t => t = desk) (removeProtectedPathCmd sha env requested sourcePath kind)
      (fun _ => FileOf A) (FileOf A) := by
  refine triple_bind (triple_onFile (triple_getConfig hload hs hfile fun left h =>
    hleft left (by simp [h]))) fun loaded => triple_after_load fun hlayered => ?_
  refine keeps_check_bind fun _ => keeps_check_bind fun _ => keeps_check_bind fun hsame => ?_
  refine keeps_lift_bind fun _ _ => ?_
  refine keeps_bind (keeps_onSites _) fun _ => keeps_bind (keeps_onSites _) fun _ => ?_
  refine keeps_bind (keeps_onFile (keeps_saveConfig (hsaves loaded hlayered hsame) fun left h =>
    hleft left (by simp [h]))) fun _ => ?_
  exact keeps_bind (keeps_onFile (keeps_restartDaemon env.restart).attempt) fun _ => keeps_pure _

namespace ConfigCommand

/-- How each write of the configuration file goes. -/
def writes : ConfigCommand Text Content → List (Except ConfigFile Unit)
  | .toggleSafeMode env _ => [env.load.bootstrap,env.save.write]
  | .relocateDestination env _ _ => [env.load.bootstrap,env.pauseSave.write,
      env.activationSave.write,env.restoreSave.write]
  | .removeProtectedPath env _ _ _ => [env.load.bootstrap,env.save.write]

/-- The file of a move that is under way, with safe mode switched on. -/
def Pauses : ConfigCommand Text Content → SavedConfig → ConfigFile → Prop
  | .relocateDestination _ _ _,file,found => ∃ saved, found = .saved saved ∧
      normalizeLoadedConfig saved = {normalizeLoadedConfig file with safeMode := true}
  | _,_,_ => False

/-- The file as it was, what a failing write left of it, or a change that is meant. -/
def Seen (c : ConfigCommand Text Content) (start : ConfigFile) (file : SavedConfig)
    (found : ConfigFile) : Prop :=
  found = start ∨ .error found ∈ c.writes ∨ c.Saves file found ∨ c.Pauses file found

end ConfigCommand

theorem triple_run {desk : Desk Text Content} {vars : Variables} (hvars : vars.SeenBy c.load)
    (hload : Returns (loadFromSource c.load) desk.1 file u)
    (hgenuine : ∀ loaded, applyEnvLayering c.load file = .ok loaded → c.Genuine sha prim loaded)
    (htransparent : c.Transparent vars file) :
    Triple (fun t => t = desk) (c.run sha) (fun _ => FileOf (c.Seen desk.1.config file))
      (FileOf (c.Seen desk.1.config file)) := by
  have hstart : c.Seen desk.1.config file desk.1.config := .inl rfl
  have hleft : ∀ left, .error left ∈ c.writes → c.Seen desk.1.config file left :=
    fun left h => .inr (.inl h)
  have hmeant : ∀ saved, c.Meant file saved → c.Seen desk.1.config file (.saved saved) :=
    fun saved h => .inr (.inr (.inl ⟨saved,rfl,h.normalize⟩))
  have hfile := hmeant file (c.meant_refl file)
  have hlayers := fun loaded hlayered =>
    @ConfigCommand.meant_of_transparent Text Content c file loaded vars hvars hlayered htransparent
  cases c with
  | toggleSafeMode env desired =>
      refine triple_bind (triple_onFile (triple_toggle hload hstart hfile ?_ hleft)) fun _ =>
        keeps_pure _
      intro loaded b hlayered
      apply hmeant
      rw [(hlayers loaded hlayered).1]
      rfl
  | relocateDestination env destinationId newPath =>
      refine triple_bind (triple_onFile (triple_relocate hload hstart hfile ?_ hleft)) fun _ =>
        keeps_pure _
      intro loaded hlayered
      obtain ⟨env',desired,hc⟩ | rfl := (hlayers loaded hlayered).2
      · cases hc
      · refine ⟨hfile,.inr (.inr (.inr ⟨_,rfl,rfl⟩)),fun index => hmeant _ rfl,fun next hnext => ?_⟩
        obtain ⟨penv,index,checked,disk,hverify⟩ := hgenuine loaded hlayered next hnext
        obtain ⟨rfl,-⟩ := verifySecondaryCanBeMain_eq_ok hverify
        exact hmeant _ rfl
  | removeProtectedPath env requested sourcePath kind =>
      refine triple_bind (triple_remove hload hstart hfile ?_ hleft) fun _ => keeps_pure _
      intro loaded hlayered hsame
      obtain ⟨env',desired,hc⟩ | rfl := (hlayers loaded hlayered).2
      · cases hc
      · rw [hgenuine loaded hlayered _ _ hsame]
        exact hmeant _ rfl

/-- Where the variables are transparent, no state of a command shows another change of the file than
the meant one, and a command that returns shows none exactly where they are. -/
theorem overrides_stay_out_of_file (sha : Sha256) (prim : Primitives)
    (c : ConfigCommand Text Content) (vars : Variables) (desk : Desk Text Content)
    (file : SavedConfig) (u : MoveState) (hvars : vars.SeenBy c.load)
    (hload : Returns (loadFromSource c.load) desk.1 file u)
    (hgenuine : ∀ loaded, applyEnvLayering c.load file = .ok loaded → c.Genuine sha prim loaded) :
    (c.Transparent vars file →
      ∀ t ∈ (c.run sha desk).states, c.Seen desk.1.config file t.1.config) ∧
    ∀ t, Returns (c.run sha) desk () t → (c.Saves file t.1.config ↔ c.Transparent vars file) := by
  constructor
  · intro htransparent t ht
    exact (triple_run hvars hload hgenuine htransparent).states (fun _ _ h => h) rfl ht
  · intro t ht
    obtain ⟨loaded,saved,hlayered,hsaved,hmeant⟩ := returns_run hload hgenuine ht
    rw [← ConfigCommand.meant_normalized_iff hvars hlayered hmeant]
    unfold ConfigCommand.Saves
    rw [hsaved]
    simp

/-- The switch for safe mode with every step going well, under a given interval variable. -/
def plainToggle (interval : EnvVar) : ConfigCommand PlainText Unit :=
  .toggleSafeMode
    ⟨⟨true,none,.ok (),override parseEnvU64 interval,override parseEnvBool .unset,openProbe⟩,
      ⟨openProbe,.ok ()⟩,.acknowledged⟩ (some true)

def mainDesk : Desk PlainText Unit := (⟨.saved mainOnly,none,false,none,none⟩,∅)

theorem plainToggle_run (interval : EnvVar) (seconds : Option Nat)
    (h : override parseEnvU64 interval = .ok seconds) :
    Returns ((plainToggle interval).run (.ofTable [])) mainDesk ()
      (⟨.saved {mainOnly with
        intervalSeconds := seconds.getD 60
        safeMode := true},none,true,none,none⟩,∅) := by
  unfold plainToggle
  rw [h]
  exact ⟨rfl,rfl⟩

theorem overrides_stay_out_of_file_same_interval :
    ∃ t, Returns ((plainToggle (.value " 60".toList)).run (.ofTable [])) mainDesk () t ∧
      (plainToggle (.value " 60".toList)).Saves mainOnly t.1.config := by
  have hinterval : override parseEnvU64 (.value " 60".toList) = .ok (some 60) := by decide +kernel
  have hrun := plainToggle_run _ _ hinterval
  refine ⟨_,hrun,?_⟩
  have hall := overrides_stay_out_of_file (.ofTable []) .transparent
    (plainToggle (.value " 60".toList)) ⟨.value " 60".toList,.unset⟩ mainDesk mainOnly mainDesk.1
    ⟨rfl,rfl⟩ ⟨rfl,rfl⟩ fun _ _ => trivial
  refine (hall.2 _ hrun).mpr ?_
  intro n hn
  rw [hinterval] at hn
  cases hn
  rfl

/-- The interval of the environment ends up in the file of a user who switched safe mode on. -/
theorem toggle_saves_override :
    ∃ t, Returns ((plainToggle (.value "120".toList)).run (.ofTable [])) mainDesk () t ∧
      ¬ (plainToggle (.value "120".toList)).Saves mainOnly t.1.config := by
  have hinterval : override parseEnvU64 (.value "120".toList) = .ok (some 120) := by decide +kernel
  refine ⟨_,plainToggle_run _ _ hinterval,?_⟩
  rintro ⟨saved,hsaved,hmeant⟩
  cases hsaved
  have hseconds := hmeant.intervalSeconds_eq
  exact absurd hseconds (by decide)

end States

end EnvOverrides
end BackupSync
