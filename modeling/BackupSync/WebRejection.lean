import BackupSync.WebRestore

/-!
# Rejected commands of the browser engine

A command makes all its checks before it edits the state, and what follows its first
edit cannot fail, as long as the sections of the configuration are there and what is
found for its destinations are vaults. The save
comes last: when it fails the command is rejected and its edits stay in the object
that later commands read.
-/
namespace BackupSync.WebEngine
open Checks Interruptible Interruptible.Action

section Completeness

/-- All sections of a configuration are there, and no destination has the name of an inherited
member. -/
structure Complete (config : WebConfig) : Prop where
  watched : config.watched.isSome = true
  destinations : config.destinations.isSome = true
  sampleLimit : config.simulationSampleLimit.isSome = true
  names : OwnNames config

/-- The configuration is complete and the record of vaults holds vaults only. -/
structure Ready (s : WebState) : Prop where
  config : Complete s.config
  strays : s.strays = []

theorem Ready.plain {s : WebState} (h : Ready s) : Plain s := ⟨h.strays,h.config.names⟩

theorem ready_createSeedState (now : Nat) : Ready (createSeedState now) :=
  ⟨⟨rfl,rfl,rfl,ownNames_defaultConfig⟩,rfl⟩

theorem Ready.safeMode {s : WebState} (h : Ready s) (on : Bool) : Ready {s with
    config := {s.config with safeMode := on}
    status := {s.status with safeMode := on}} :=
  ⟨⟨h.config.watched,h.config.destinations,h.config.sampleLimit,h.config.names⟩,h.strays⟩

theorem Ready.setBlob {s : WebState} (h : Ready s) (id hash : Str) (bytes : Bytes) :
    Ready (setBlob id hash bytes s) := by
  unfold WebEngine.setBlob
  split
  · exact ⟨h.config,h.strays⟩
  · exact h

theorem ready_edit {sha : Sha256} {collation : Collation} {c : Command}
    (hsaved : ∀ config, c.config = some config → Complete config) (w t : Work)
    (h : Edit sha collation c w t) (hw : Ready w.state) : Ready t.state := by
  obtain ⟨hstrays,hnames⟩ := plain_edit (fun config hc => (hsaved config hc).names) w t h hw.plain
  cases h with
  | @aside _ _ f hf =>
      refine ⟨?_,hstrays⟩
      change Complete (f w.state).config
      rw [hf.config]
      exact hw.config
  | safeMode on => exact hw.safeMode on
  | config next hconfig => exact ⟨hsaved _ hconfig,hstrays⟩
  | promote hd hmain hother => exact ⟨⟨hw.config.watched,rfl,hw.config.sampleLimit,hnames⟩,hstrays⟩
  | moveTo index newPath hd => exact ⟨⟨hw.config.watched,rfl,hw.config.sampleLimit,hnames⟩,hstrays⟩
  | damage => exact hw.setBlob _ _ _
  | fresh env => exact ready_createSeedState _
  | stray hplain => exact absurd hw.plain hplain
  | _ => exact ⟨hw.config,hstrays⟩

theorem ready_seedState (sha : Sha256) (collation : Collation) (env : WebEnv)
    (history : List (Str × List WebFile)) : Ready (seedState sha collation env history).state := by
  have hedit := @ready_edit sha collation .reset (fun config h => by cases h)
  exact edits_seedState (I := fun w => Ready w.state) hedit (ready_createSeedState _)

end Completeness

section Smooth
variable {α β : Type} {sha : Sha256} {collation : Collation} {w : Work}

/-- From a state that is ready the operation returns, in such a state. -/
def Smooth (op : Op α) : Prop :=
  Spec (fun w => Ready w.state) op (fun _ w => Ready w.state) (fun _ _ => False) (fun _ => True)

theorem smooth_pure (a : α) : Smooth (pure a : Op α) := spec_pure _ fun _ hw => hw

theorem smooth_bind {op : Op α} {f : α → Op β} (hop : Smooth op) (hf : ∀ a, Smooth (f a)) :
    Smooth (op >>= f) := spec_bind hop hf

theorem smooth_modify {f : WebState → WebState} (hf : ∀ s, Ready s → Ready (f s)) :
    Smooth (modify f) := spec_step fun w hw => ⟨hf w.state hw,trivial⟩

theorem smooth_log (stamp message : Str) : Smooth (log stamp message) := by
  refine smooth_modify fun s hs => ⟨?_,(logged_strays _ _ _).trans hs.strays⟩
  rw [logged_config]
  exact hs.config

/-- An edit of neither the configuration nor the names in the record. -/
theorem smooth_edit {f : WebState → WebState} (hconfig : ∀ s, (f s).config = s.config)
    (hstrays : ∀ s, (f s).strays = s.strays) : Smooth (modify f) := by
  refine smooth_modify fun s hs => ⟨?_,(hstrays s).trans hs.strays⟩
  rw [hconfig]
  exact hs.config

theorem smooth_check_bind {b : Bool} {e : WebError} (hb : b = true) {f : Unit → Op α}
    (hf : Smooth (f ())) : Smooth (check b e >>= f) := by
  refine spec_check_cases (fun hfalse => ?_) fun _ => hf
  rw [hb] at hfalse
  cases hfalse

/-- After a smooth operation the state is not the one before, but there is no error either. -/
theorem Smooth.from {op : Op α} (h : Smooth op) (hw : Ready w.state)
    {E : WebError → Work → Prop} : Spec (fun t => t = w) op (fun _ _ => True) E (fun _ => True) :=
  spec_conseq h (fun _ ht => ht ▸ hw) (fun _ _ _ => trivial) (fun _ _ hf => hf.elim) fun _ _ => trivial

theorem primaryId_of_complete {config : WebConfig} (h : Complete config) :
    ∃ id, primaryId config = .ok id := by
  obtain ⟨destinations,hd⟩ := Option.isSome_iff_exists.mp h.destinations
  refine ⟨(destinations.head?.map WebDestination.id).getD "primary".toList,?_⟩
  unfold primaryId present
  rw [hd]
  rfl

theorem smooth_primaryVault : Smooth primaryVault := by
  refine spec_current_bind fun w hw => ?_
  obtain ⟨id,hid⟩ := primaryId_of_complete hw.config
  refine spec_lift_bind (fun e he => ?_) fun id' hid' => ?_
  · rw [hid] at he
    cases he
  · split
    · rename_i found hfound
      obtain ⟨v,rfl,-⟩ := vault_of_member hw.strays (hw.config.names.primaryId hid') hfound
      exact spec_lift (fun _ _ t ht => ht ▸ hw) fun _ he => by cases he
    · refine spec_pre (P := fun t => Ready t.state) ?_ fun t ht => ht ▸ hw
      exact smooth_bind (smooth_edit (fun _ => rfl) fun _ => rfl) fun _ => smooth_pure _

theorem smooth_webSummary : Smooth webSummary := by
  refine smooth_bind smooth_primaryVault fun v => ?_
  refine spec_current_bind fun w hw => ?_
  refine spec_lift_bind (fun e he => ?_) fun _ _ => spec_pure _ fun t ht => ht ▸ hw
  obtain ⟨destinations,hd⟩ := Option.isSome_iff_exists.mp hw.config.destinations
  rw [hd] at he
  cases he

theorem smooth_summary : Smooth (do return Reply.summary (← webSummary)) :=
  smooth_bind smooth_webSummary fun _ => smooth_pure _

theorem smooth_cutVaults (keep : WebManifest → Bool) : Smooth (cutVaults env keep) := by
  refine spec_current_bind fun w hw => ?_
  rw [if_pos hw.strays]
  exact spec_pre (smooth_edit (fun _ => rfl) fun _ => rfl) fun t ht => ht ▸ hw

theorem smooth_removeSourceHistory (sourcePaths : List Str) :
    Smooth (removeSourceHistory env sourcePaths) := by
  refine spec_current_bind fun w hw => ?_
  refine spec_pre (P := fun t => Ready t.state) ?_ fun t ht => ht ▸ hw
  exact smooth_bind (smooth_cutVaults _) fun _ => smooth_pure _

theorem smooth_cutNewer (keepNewerVersions : Bool) (sourcePath : Str) (selected : WebManifest) :
    Smooth (cutNewer env keepNewerVersions sourcePath selected) := by
  unfold cutNewer
  split
  · exact smooth_pure _
  · refine spec_current_bind fun w hw => ?_
    obtain ⟨id,hid⟩ := primaryId_of_complete hw.config
    refine spec_lift_bind (fun e he => ?_) fun id' _ => ?_
    · rw [hid] at he
      cases he
    · refine spec_pre (P := fun t => Ready t.state) ?_ fun t ht => ht ▸ hw
      exact smooth_bind (smooth_cutVaults _) fun _ => smooth_pure _

theorem previewState_of_ready {s : WebState} (h : Ready s) :
    ∃ preview, previewState sha collation s = .ok preview := by
  obtain ⟨id,hid⟩ := primaryId_of_complete h.config
  obtain ⟨limit,hlimit⟩ := Option.isSome_iff_exists.mp h.config.sampleLimit
  have hvault := vaultOf_of_strays h.strays (h.config.names.primaryId hid)
  unfold previewState
  simp only [hid,hlimit,bind,Except.bind,hvault]
  exact ⟨_,rfl⟩

theorem smooth_runBackup (now : Nat) (stamp : Str) : Smooth (runBackup sha collation now stamp) := by
  refine spec_current_bind fun w hw => ?_
  have hstay : ∀ t, t = w → Ready t.state := fun t ht => ht ▸ hw
  obtain ⟨watched,hwatched⟩ := Option.isSome_iff_exists.mp hw.config.watched
  obtain ⟨destinations,hd⟩ := Option.isSome_iff_exists.mp hw.config.destinations
  obtain ⟨preview,hpreview⟩ := @previewState_of_ready sha collation w.state hw
  refine spec_lift_bind (fun e he => ?_) fun items _ => ?_
  · rw [hwatched] at he
    cases he
  split
  · exact spec_pre (smooth_bind (smooth_log _ _) fun _ => smooth_pure _) hstay
  refine spec_lift_bind (fun e he => ?_) fun preview' _ => ?_
  · rw [hpreview] at he
    cases he
  split
  · exact spec_pre (smooth_bind (smooth_log _ _) fun _ => smooth_pure _) hstay
  refine spec_lift_bind (fun e he => ?_) fun destinations' hd' => ?_
  · rw [hd] at he
    cases he
  refine spec_check_cases (fun hfalse => ?_) fun _ => ?_
  · rw [hw.strays] at hfalse
    cases hfalse
  rw [hw.plain.dropWhile_usable (orElse_eq_ok.mp hd')]
  refine spec_bind (R := fun _ t => Ready t.state) ?_ fun _ => ?_
  · exact spec_step fun t ht => ht ▸ ⟨⟨hw.config,hw.strays⟩,trivial⟩
  · exact smooth_bind (smooth_log _ _) fun _ => smooth_pure _

theorem smooth_verifyState (now : Nat) (stamp : Str) : Smooth (verifyState sha now stamp) := by
  refine spec_current_bind fun w hw => ?_
  refine spec_pre (P := fun t => Ready t.state) ?_ fun t ht => ht ▸ hw
  refine smooth_check_bind (by rw [hw.strays]; rfl) ?_
  refine smooth_bind (smooth_edit (fun _ => rfl) fun _ => rfl) fun _ => ?_
  exact smooth_bind (smooth_log _ _) fun _ => smooth_pure _

end Smooth

section Rejections
variable {sha : Sha256} {collation : Collation} {env : WebEnv} {w : Work}

/-- An operation from one state, where an error leaves that state. -/
def Undone {α : Type} (w : Work) (op : Op α) : Prop :=
  Spec (fun t => t = w) op (fun _ _ => True) (fun _ t => t.state = w.state) (fun _ => True)

variable {α : Type}

theorem undone_lift_bind {β : Type} {r : Except WebError β} {f : β → Op α}
    (h : ∀ b, r = .ok b → Undone w (f b)) : Undone w (lift r >>= f) :=
  spec_lift_bind (fun _ _ _ ht => ht ▸ rfl) h

theorem undone_check_bind {b : Bool} {e : WebError} {f : Unit → Op α} (h : b = true → Undone w (f ())) :
    Undone w (check b e >>= f) :=
  spec_check_bind (fun _ ht => ht ▸ rfl) h

theorem undone_current_bind {f : WebState → Op α} (h : Undone w (f w.state)) :
    Undone w (current >>= f) := by
  refine spec_current_bind fun u hu => ?_
  rw [hu]
  exact h

variable (hw : Ready w.state)
include hw

theorem undone_saveConfig {cfg : Option Payload}
    (hcfg : ∀ p, cfg = some p → p.cloneable = true ∧ Complete p.config) :
    Undone w (saveConfig sha collation env cfg) := by
  refine undone_lift_bind fun payload hpayload => undone_current_bind ?_
  obtain ⟨hclone,hcomplete⟩ := hcfg payload (orElse_eq_ok.mp hpayload)
  refine undone_lift_bind fun previous _ => undone_lift_bind fun watched _ => ?_
  refine Smooth.from ?_ hw
  refine smooth_bind (smooth_removeSourceHistory _) fun removed => smooth_check_bind hclone ?_
  refine smooth_bind (smooth_modify fun _ hs => ⟨hcomplete,hs.strays⟩) fun _ => ?_
  refine smooth_bind (smooth_log _ _) fun _ => ?_
  split
  · exact smooth_bind (smooth_runBackup _ _) fun _ => smooth_pure _
  · exact smooth_pure _

theorem undone_removeProtectedPath {cfg : Option Payload} (sourcePath : Str)
    (hcfg : ∀ p, cfg = some p → p.cloneable = true ∧ Complete p.config) :
    Undone w (removeProtectedPath env cfg sourcePath) := by
  refine undone_lift_bind fun payload hpayload => undone_check_bind fun _ => undone_current_bind ?_
  obtain ⟨hclone,hcomplete⟩ := hcfg payload (orElse_eq_ok.mp hpayload)
  refine undone_lift_bind fun previous _ => undone_check_bind fun _ => ?_
  refine undone_lift_bind fun watched _ => undone_check_bind fun _ => ?_
  refine Smooth.from ?_ hw
  refine smooth_bind (smooth_removeSourceHistory _) fun removed => smooth_check_bind hclone ?_
  refine smooth_bind (smooth_modify fun _ hs => ⟨hcomplete,hs.strays⟩) fun _ => ?_
  refine smooth_bind (smooth_edit (fun _ => rfl) fun _ => rfl) fun _ => ?_
  exact smooth_bind (smooth_log _ _) fun _ => smooth_pure _

theorem undone_relocateDestination (sha : Sha256) (collation : Collation)
    (destinationId newPath : Str) :
    Undone w (relocateDestination env destinationId newPath) := by
  refine undone_current_bind ?_
  have hdone : ∀ message (reply : WebState → Reply), Smooth (do
      log (env.stamp 0) message
      let s ← current
      return reply s) := by
    intro message reply
    refine smooth_bind (smooth_log _ _) fun _ => ?_
    exact spec_current_bind fun u hu => spec_pure _ fun t ht => ht ▸ hu
  -- The destinations are those of the state that the edit is made in.
  have hedit : ∀ {f : WebState → WebState} {k : Unit → Op Reply},
      Edit sha collation (.relocateDestination destinationId newPath) w (Work.edit f w) →
      (∀ u, Smooth (k u)) → Undone w (modify f >>= k) := by
    intro f k hedit hk
    have hready := ready_edit (fun _ h => by cases h) w _ hedit hw
    refine spec_bind (R := fun _ t => Ready t.state) ?_ fun u => ?_
    · exact spec_step fun t ht => ht ▸ ⟨hready,trivial⟩
    · exact spec_conseq (hk u) (fun _ ht => ht) (fun _ _ _ => trivial) (fun _ _ hf => hf.elim)
        fun _ _ => trivial
  refine undone_lift_bind fun destinations hd => undone_lift_bind fun index _ => ?_
  have hd := orElse_eq_ok.mp hd
  refine undone_check_bind fun _ => ?_
  split
  · refine undone_check_bind fun _ => undone_lift_bind fun main hmain => ?_
    refine undone_lift_bind fun other hother => ?_
    exact hedit (.promote hd (orElse_eq_ok.mp hmain) (orElse_eq_ok.mp hother)) fun _ => hdone _ _
  · refine undone_lift_bind fun vault _ => ?_
    exact hedit (.moveTo index newPath hd) fun _ => hdone _ _

theorem undone_toggleSafeMode (desired : Bool) :
    Undone w (toggleSafeMode sha collation env desired) := by
  refine Smooth.from (smooth_bind (smooth_modify ?_) fun _ => ?_) hw
  · exact fun s hs => hs.safeMode desired
  refine smooth_bind (smooth_log _ _) fun _ => ?_
  split
  · exact smooth_pure _
  · exact smooth_bind (smooth_runBackup _ _) fun _ => smooth_pure _

section Vault
variable {id : Str} {v : Vault} (hid : primaryId w.state.config = .ok id)
  (hv : w.state.vaults[id]? = some v)
include hid hv

omit hw in
theorem spec_primaryVault : Spec (fun t => t = w) primaryVault (fun _ t => t = w)
    (fun _ t => t.state = w.state) (fun _ => True) := by
  refine spec_current_bind fun u hu => ?_
  subst hu
  refine spec_lift_bind (fun _ _ _ ht => ht ▸ rfl) fun id' hid' => ?_
  rw [hid] at hid'
  cases hid'
  rw [member_eq_some.mpr hv]
  exact spec_lift (fun _ _ t ht => ht) fun _ he => by cases he

omit hw in
/-- With its vault there, the search for a manifest does not change the state. -/
theorem spec_manifestById (sourcePath versionId : Str) :
    Spec (fun t => t = w) (manifestById sourcePath versionId) (fun _ t => t = w)
      (fun _ t => t.state = w.state) (fun _ => True) :=
  spec_bind (spec_primaryVault hid hv) fun _ =>
    spec_lift (fun _ _ _ ht => ht) fun _ _ _ ht => ht ▸ rfl

omit hw in
theorem spec_restoredFiles (entries : List WebEntry) :
    Spec (fun t => t = w) (restoredFiles sha entries) (fun _ t => t = w)
      (fun _ t => t.state = w.state) (fun _ => True) :=
  spec_bind (spec_primaryVault hid hv) fun _ =>
    spec_lift (fun _ _ _ ht => ht) fun _ _ _ ht => ht ▸ rfl

theorem undone_restoreVersion (request : Option VersionRequest) (keepNewerVersions : Bool) :
    Undone w (restoreVersion sha env request keepNewerVersions) := by
  refine undone_lift_bind fun request _ => ?_
  refine spec_bind (spec_manifestById hid hv _ _) fun manifest => ?_
  refine spec_bind (spec_restoredFiles hid hv _) fun files => undone_current_bind ?_
  refine Smooth.from ?_ hw
  refine smooth_bind (smooth_edit (fun _ => rfl) fun _ => rfl) fun _ => ?_
  refine smooth_bind (smooth_cutNewer _ _ _) fun removed => ?_
  refine smooth_bind (smooth_edit (fun _ => rfl) fun _ => rfl) fun _ => ?_
  exact smooth_bind (smooth_log _ _) fun _ => smooth_pure _

theorem undone_restoreFiles (request : Option VersionRequest) (relPaths : List Str) :
    Undone w (restoreFiles sha collation env request relPaths) := by
  refine undone_lift_bind fun request _ => ?_
  refine spec_bind (spec_manifestById hid hv _ _) fun manifest => ?_
  refine spec_bind (spec_restoredFiles hid hv _) fun files => ?_
  refine Smooth.from ?_ hw
  refine smooth_bind (smooth_edit (fun _ => rfl) fun _ => rfl) fun _ => ?_
  exact smooth_bind (smooth_log _ _) fun _ => smooth_pure _

omit hw in
theorem undone_listVersionFiles (request : Option VersionRequest) (query : Str) (limit : Nat) :
    Undone w (listVersionFiles collation request query limit) := by
  refine undone_lift_bind fun request _ => ?_
  refine spec_bind (spec_manifestById hid hv _ _) fun manifest => ?_
  exact spec_pure _ fun _ _ => trivial

end Vault

theorem undone_writeFile (path text : Str) : Undone w (writeFile collation env path text) := by
  refine undone_lift_bind fun normalized _ => undone_check_bind fun _ => ?_
  refine Smooth.from ?_ hw
  refine smooth_bind (smooth_edit (fun _ => rfl) fun _ => rfl) fun _ => ?_
  exact smooth_bind (smooth_log _ _) fun _ => smooth_summary

/-- The files are filtered before the check, which fails only when nothing was taken away. -/
theorem undone_deleteFile (path : Str) : Undone w (deleteFile env path) := by
  refine undone_lift_bind fun normalized _ => undone_current_bind ?_
  refine spec_bind (R := fun _ t => t = Work.edit (fun s => {s with
    files := w.state.files.filter fun file => file.relPath ≠ normalized}) w) ?_ fun _ => ?_
  · refine spec_step fun t ht => ?_
    rw [ht]
    exact ⟨rfl,trivial⟩
  · refine spec_check_cases (fun hfalse => ?_) fun _ => ?_
    · intro t ht
      have hlength := of_decide_eq_false hfalse
      have hkept : (w.state.files.filter fun file => decide (file.relPath ≠ normalized)) =
          w.state.files := by
        refine List.Sublist.eq_of_length List.filter_sublist ?_
        simpa using hlength
      rw [ht,Work.edit,hkept]
    · refine spec_conseq (smooth_bind (smooth_log _ _) fun _ => smooth_summary) ?_
        (fun _ _ _ => trivial) (fun _ _ hf => hf.elim) fun _ _ => trivial
      intro t ht
      rw [ht]
      exact ⟨hw.config,hw.strays⟩

theorem undone_importFiles (imported : List ImportedFile) :
    Undone w (importFiles sha collation env imported) := by
  refine undone_check_bind fun _ => undone_check_bind fun _ => undone_current_bind ?_
  refine undone_lift_bind fun files _ => ?_
  refine Smooth.from ?_ hw
  refine smooth_bind (smooth_edit (fun _ => rfl) fun _ => rfl) fun _ => ?_
  refine smooth_bind (smooth_log _ _) fun _ => ?_
  split
  · exact smooth_summary
  · exact smooth_bind (smooth_runBackup _ _) fun _ => smooth_summary

theorem undone_corruptReplica : Undone w (corruptReplica env) := by
  refine undone_current_bind (undone_lift_bind fun destinations _ => undone_check_bind fun _ => ?_)
  refine undone_lift_bind ?_
  rintro ⟨id,found⟩ _
  refine undone_lift_bind fun mirror _ => undone_lift_bind ?_
  rintro ⟨hash,blob⟩ _
  refine Smooth.from ?_ hw
  refine smooth_bind (smooth_modify fun s hs => hs.setBlob _ _ _) fun _ => ?_
  refine smooth_bind (smooth_edit (fun _ => rfl) fun _ => rfl) fun _ => ?_
  exact smooth_bind (smooth_log _ _) fun _ => smooth_summary

theorem undone_repairReplica : Undone w (repairReplica sha env) := by
  refine undone_current_bind (undone_lift_bind fun destinations _ => ?_)
  refine undone_lift_bind ?_
  rintro ⟨_,primary⟩ _
  refine undone_lift_bind ?_
  rintro ⟨id,found⟩ _
  refine undone_lift_bind fun mirror _ => undone_check_bind fun _ => undone_check_bind fun _ => ?_
  refine Smooth.from ?_ hw
  refine smooth_bind (smooth_edit (fun _ => rfl) fun _ => rfl) fun _ => ?_
  refine smooth_bind (smooth_log _ _) fun _ => smooth_bind (smooth_verifyState _ _) fun _ => ?_
  exact smooth_bind smooth_webSummary fun _ => smooth_pure _

omit hw in
theorem undone_reset : Undone w (reset sha collation env) := by
  refine spec_read_bind fun u hu => ?_
  refine spec_bind (R := fun _ t => Ready t.state) ?_ fun _ => ?_
  · exact spec_step fun _ _ => ⟨ready_seedState sha collation env u.history,trivial⟩
  · exact spec_conseq smooth_summary (fun _ ht => ht) (fun _ _ _ => trivial) (fun _ _ hf => hf.elim)
      fun _ _ => trivial

end Rejections

section Transport
variable {sha : Sha256} {collation : Collation} {env : WebEnv} {s : Session}

/-- A command that looks for a version of the first vault. -/
def Command.asksForVersion : Command → Bool
  | .listVersionFiles _ _ _ => true
  | .restoreVersion _ _ => true
  | .restoreFiles _ _ => true
  | _ => false

/-- The configuration that a command is sent, as it was sent. -/
def Command.payload : Command → Option Payload
  | .saveConfig cfg => cfg
  | .removeProtectedPath cfg _ => cfg
  | _ => none

/-- What a command needs so that it is either done or has no effect. -/
structure Orderly (c : Command) (env : WebEnv) (s : WebState) : Prop where
  saves : env.storage ≠ .fails
  payload : ∀ p, c.payload = some p → p.cloneable = true ∧ Complete p.config
  vault : c.asksForVersion = true → ∃ id v, primaryId s.config = .ok id ∧ s.vaults[id]? = some v

theorem undone_readCommand {c : Command} {w : Work} (hw : Ready w.state)
    (hc : Orderly c env w.state) {op : Op Reply} (h : readCommand sha collation c = some op) :
    Undone w op := by
  cases c with
  | loadConfig =>
      cases h
      exact undone_current_bind (spec_pure _ fun _ _ => trivial)
  | getStatus =>
      cases h
      exact undone_current_bind (undone_lift_bind fun _ _ => spec_pure _ fun _ _ => trivial)
  | testAccess =>
      cases h
      exact undone_current_bind (undone_lift_bind fun _ _ => spec_pure _ fun _ _ => trivial)
  | runSimulate =>
      cases h
      exact undone_current_bind (undone_lift_bind fun _ _ => spec_pure _ fun _ _ => trivial)
  | listVersions =>
      cases h
      exact (smooth_bind smooth_primaryVault fun _ => smooth_pure _).from hw
  | listVersionFiles request query limit =>
      cases h
      obtain ⟨id,v,hid,hv⟩ := hc.vault rfl
      exact undone_listVersionFiles hid hv request query limit
  | logTail =>
      cases h
      exact undone_current_bind (spec_pure _ fun _ _ => trivial)
  | workspaceSummary =>
      cases h
      exact smooth_summary.from hw
  | readFile path =>
      cases h
      refine undone_lift_bind fun normalized _ => undone_current_bind ?_
      exact undone_lift_bind fun _ _ => spec_pure _ fun _ _ => trivial
  | fixed =>
      cases h
      exact spec_pure _ fun _ _ => trivial
  | other name =>
      cases h
      exact spec_fail _ fun _ ht => ht ▸ rfl
  | _ => cases h

theorem undone_mutation {c : Command} {w : Work} (hw : Ready w.state)
    (hc : Orderly c env w.state) : Undone w (mutation sha collation env c) := by
  cases c with
  | saveConfig cfg => exact undone_saveConfig hw hc.payload
  | removeProtectedPath cfg sourcePath => exact undone_removeProtectedPath hw sourcePath hc.payload
  | relocateDestination destinationId newPath => exact undone_relocateDestination hw sha collation _ _
  | toggleSafeMode desired => exact undone_toggleSafeMode hw desired
  | runNow => exact (smooth_bind (smooth_runBackup _ _) fun _ => smooth_pure _).from hw
  | verify => exact (smooth_bind (smooth_verifyState _ _) fun _ => smooth_pure _).from hw
  | restoreVersion request keepNewerVersions =>
      obtain ⟨id,v,hid,hv⟩ := hc.vault rfl
      exact undone_restoreVersion hw hid hv request keepNewerVersions
  | restoreFiles request relPaths =>
      obtain ⟨id,v,hid,hv⟩ := hc.vault rfl
      exact undone_restoreFiles hw hid hv request relPaths
  | writeFile path text => exact undone_writeFile hw path text
  | deleteFile path => exact undone_deleteFile hw path
  | importFiles imported => exact undone_importFiles hw imported
  | corruptReplica => exact undone_corruptReplica hw
  | repairReplica => exact undone_repairReplica hw
  | reset => exact undone_reset
  | scheduled =>
      refine undone_current_bind ?_
      split
      · exact spec_pure _ fun _ _ => trivial
      · exact (smooth_bind (smooth_runBackup _ _) fun _ => smooth_pure _).from hw
  | _ => exact spec_pure _ fun _ _ => trivial

/-- Neither the object nor the database changed. -/
def Unchanged (s t : Session) : Prop :=
  t.work.state = s.work.state ∧ t.persisted = s.persisted

theorem spec_onWork {op : Op Reply} (h : Undone s.work op) (hs : Ready s.work.state)
    (hkeeps : Keeps (fun w => Ready w.state) op) :
    Spec (fun t => t = s) (onWork op) (fun _ t => Ready t.work.state) (fun _ t => Unchanged s t)
      (fun _ => True) := by
  have hundone := spec_zoom Session.work (fun w s => {s with work := w}) h rfl
  rintro t rfl
  refine ⟨fun _ _ => trivial,(keeps_onWork hkeeps t hs).2.1,fun e he => ?_⟩
  obtain ⟨u,hu,hstate⟩ := (hundone t rfl).2.2 e he
  have hstore : (onWork op t).store = {t with work := u} := hu
  rw [hstore]
  exact ⟨hstate,rfl⟩

theorem config_eq (c : Command) : c.config = c.payload.map Payload.config := by
  cases c <;> rfl

theorem spec_invokeWebCommand {c : Command} (hs : Ready s.work.state)
    (hc : Orderly c env s.work.state) :
    Spec (fun t => t = s) (invokeWebCommand sha collation env c) (fun _ _ => True)
      (fun _ t => Unchanged s t) (fun _ => True) := by
  have hedit := @ready_edit sha collation c fun config hconfig => by
    rw [config_eq] at hconfig
    obtain ⟨p,hp,rfl⟩ := Option.map_eq_some_iff.mp hconfig
    exact (hc.payload p hp).2
  unfold invokeWebCommand
  cases hop : readCommand sha collation c with
  | some op =>
      exact spec_post (spec_onWork (undone_readCommand hs hc hop) hs (edits_readCommand hedit hop))
        (fun _ _ _ => trivial)
  | none =>
      refine spec_bind (spec_onWork (undone_mutation hs hc) hs (edits_mutation hedit)) fun _ => ?_
      refine spec_bind (R := fun _ _ => True) ?_ fun _ => spec_pure _ fun _ _ => trivial
      unfold persistState
      cases hstorage : env.storage with
      | absent => exact spec_pure _ fun _ _ => trivial
      | works =>
          refine spec_read_bind fun t ht => spec_check_cases (fun hfalse => ?_) fun _ => ?_
          · rw [ht.strays] at hfalse
            cases hfalse
          · exact spec_step fun _ _ => ⟨trivial,trivial⟩
      | fails => exact absurd hstorage hc.saves

/-- The sessions that commands reach from a new workspace, where every saved configuration is
complete. -/
inductive CompleteRun (sha : Sha256) (collation : Collation) : Session → Prop where
  | seed (env : WebEnv) (persisted : Option WebState) :
      CompleteRun sha collation ⟨seedState sha collation env [],persisted⟩
  | command {s : Session} (c : Command) (env : WebEnv) : CompleteRun sha collation s →
      (∀ config, c.config = some config → Complete config) →
      CompleteRun sha collation (invokeWebCommand sha collation env c s).store

theorem ready_of_run (h : CompleteRun sha collation s) : Ready s.work.state := by
  induction h with
  | seed env persisted => exact ready_seedState sha collation env []
  | command c env _ hsaved ih =>
      have hkeeps := @keeps_of_edits sha collation env (fun w => Ready w.state) c (ready_edit hsaved)
      exact hkeeps.store ih

def unsafeWrite : Action Session WebError Reply :=
  invokeWebCommand seedSha plainOrder calmEnv (.writeFile "../notes.txt".toList "hello".toList)

/-- The same state with a database that takes nothing. -/
def failingEnv : WebEnv := ⟨fun i => 1700000100+i,fun _ => "later".toList,.fails,fun _ => true⟩

def failingWrite : Action Session WebError Reply :=
  invokeWebCommand seedSha plainOrder failingEnv (.writeFile "notes.txt".toList "hello".toList)

/-- The only destination has the name of an inherited member. -/
def inheritedSave : Action Session WebError Reply :=
  invokeWebCommand seedSha plainOrder calmEnv (.saveConfig (some ⟨destinationsConfig
    [⟨"constructor".toList,[],"browser-vault://primary".toList⟩],true⟩))

end Transport

end BackupSync.WebEngine
