import BackupSync.WebVaults

/-!
# The edits of the browser engine

Every command of the browser engine is a sequence of the edits that are listed here,
whether it returns or is rejected. A condition that the edits of a command keep is
kept by the command, so no later proof walks through the commands again.
-/
namespace BackupSync.WebEngine
open Checks Interruptible ContentHash

section Actions
variable {α : Type} {P C : Work → Prop} {Q : α → Work → Prop} {E : WebError → Work → Prop}
  {I : Work → Prop}

theorem spec_current_bind {f : WebState → Op α}
    (h : ∀ w, P w → Spec (fun t => t = w) (f w.state) Q E C) : Spec P (current >>= f) Q E C :=
  fun w hw => h w hw w rfl

theorem keeps_current_bind {f : WebState → Op α} (h : ∀ s, Keeps I (f s)) :
    Keeps I (current >>= f) :=
  spec_current_bind fun w hw => spec_pre (h w.state) fun _ ht => ht ▸ hw

theorem keeps_modify {f : WebState → WebState} (h : ∀ w, I w → I (Work.edit f w)) :
    Keeps I (modify f) := keeps_step h

end Actions

/-- The configuration that a command saves. -/
def Command.config : Command → Option WebConfig
  | .saveConfig cfg => cfg.map Payload.config
  | .removeProtectedPath cfg _ => cfg.map Payload.config
  | _ => none

theorem memberAt_eq_some {s : WebState} {d : Option WebDestination} {id : Str} {found : Option Vault}
    (h : memberAt s d = some (id,found)) : ∃ destination, d = some destination ∧
      destination.id = id ∧ member s id = some found := by
  unfold memberAt at h
  cases d with
  | none => cases h
  | some d =>
      change (if d.id = [] then none else (member s d.id >>= fun v => some (d.id,v))) = _ at h
      split at h
      · cases h
      · obtain ⟨v,hv,h⟩ := Option.bind_eq_some_iff.mp h
        cases h
        exact ⟨d,rfl,rfl,hv⟩

/-- An edit of anything but the vaults, the files, the counter and the configuration. -/
structure Aside (f : WebState → WebState) : Prop where
  vaults : ∀ s, (f s).vaults = s.vaults
  strays : ∀ s, (f s).strays = s.strays
  files : ∀ s, (f s).files = s.files
  sequence : ∀ s, (f s).sequence = s.sequence
  config : ∀ s, (f s).config = s.config

/-- The files of entries of a manifest in the first vault. -/
structure Restorable (sha : Sha256) (s : WebState) (entries : List WebEntry) (files : List WebFile) :
    Prop where
  found : ∃ id v m, primaryId s.config = .ok id ∧ s.vaults[id]? = some v ∧ m ∈ v.manifests ∧
    entries.Sublist m.entries ∧ entries.mapM (restoreEntry sha v) = .ok files

/-- One edit of a command. Nothing is said about the edits of a state that is not plain. -/
inductive Edit (sha : Sha256) (collation : Collation) : Command → Work → Work → Prop where
  | aside {c w f} : Aside f → Edit sha collation c w (Work.edit f w)
  | cut {c w} (keep : WebManifest → Bool) : Edit sha collation c w (Work.edit (cutAll keep) w)
  | missing {c w id} : primaryId w.state.config = .ok id → w.state.vaults[id]? = none →
      Edit sha collation c w (Work.edit (fun s => {s with vaults := s.vaults.insert id newVault}) w)
  | commit {c w destinations} (now items : Nat) : w.state.config.destinations = some destinations →
      Edit sha collation c w (commitVersion sha collation now destinations items w)
  | safeMode {c w} (on : Bool) : Edit sha collation c w (Work.edit (fun s => {s with
      config := {s.config with safeMode := on}
      status := {s.status with safeMode := on}}) w)
  | config {c w config} (next : Option Str) : c.config = some config →
      Edit sha collation c w (Work.edit (useConfig config next) w)
  | promote {c w destinations main other existing} :
      w.state.config.destinations = some destinations → destinations[0]? = some main →
      destinations[existing]? = some other →
      Edit sha collation c w (Work.edit (promote destinations main other existing) w)
  | moveTo {c w destinations} (index : Nat) (newPath : Str) :
      w.state.config.destinations = some destinations →
      Edit sha collation c w (Work.edit (moveTo destinations index newPath) w)
  | restore {c w entries files} : Restorable sha w.state entries files →
      Edit sha collation c w (Work.edit (fun s => {s with files := files}) w)
  | merge {c w entries files} : Restorable sha w.state entries files →
      Edit sha collation c w (Work.edit (fun s =>
        {s with files := sortFiles collation (files.foldl setFile (byPath s.files))}) w)
  | write {path text : Str} {w normalized} (mtime : Int) :
      normalizeWorkspacePath path = .ok normalized →
      Edit sha collation (.writeFile path text) w
        (Work.edit (writtenFile collation normalized (utf8 text) mtime) w)
  | delete {c w} (keep : WebFile → Bool) :
      Edit sha collation c w (Work.edit (fun s => {s with files := w.state.files.filter keep}) w)
  | importing {imported : List ImportedFile} {w files} (env : WebEnv) :
      imported.zipIdx.foldlM (importFile env) (byPath w.state.files) = .ok files →
      Edit sha collation (.importFiles imported) w (Work.edit (fun s =>
        {s with files := sortFiles collation files,integrity := .notChecked}) w)
  | damage {w id hash bytes} :
      Edit sha collation .corruptReplica w (Work.edit (setBlob id hash bytes) w)
  | repair {c w id primary mirror} {id' : Str} : w.state.vaults[id']? = some primary →
      w.state.vaults[id]? = some mirror → Edit sha collation c w (Work.edit (fun s =>
        {s with vaults := s.vaults.insert id (repairVault sha primary mirror).1}) w)
  | fresh {w} (env : WebEnv) :
      Edit sha collation .reset w ⟨createSeedState (env.now 0),w.history⟩
  | architecture {w} (now : Nat) : Edit sha collation .reset w (Work.edit (editArchitecture now) w)
  | stray {c w t} : ¬ Plain w.state → Edit sha collation c w t

/-- A state stays plain, unless a configuration with inherited names is saved. -/
theorem plain_edit {sha : Sha256} {collation : Collation} {c : Command}
    (hsaved : ∀ config, c.config = some config → OwnNames config) (w t : Work)
    (h : Edit sha collation c w t) (hw : Plain w.state) : Plain t.state := by
  cases h with
  | @aside _ _ f hf =>
      refine ⟨(hf.strays w.state).trans hw.strays,?_⟩
      change OwnNames (f w.state).config
      rw [hf.config]
      exact hw.names
  | config next hconfig => exact ⟨hw.strays,hsaved _ hconfig⟩
  | promote hd hmain hother =>
      rw [Work.edit,hw.promote_eq hd hmain hother]
      refine ⟨hw.strays,?_⟩
      intro ds hds
      cases hds
      rw [map_id_setPath,map_id_setPath]
      exact hw.names _ hd
  | moveTo index newPath hd =>
      refine ⟨hw.strays,?_⟩
      intro ds hds
      cases hds
      rw [map_id_setPath]
      exact hw.names _ hd
  | @damage _ id hash bytes =>
      change Plain (setBlob id hash bytes w.state)
      unfold setBlob
      split
      · exact ⟨hw.strays,hw.names⟩
      · exact hw
  | fresh env => exact ⟨rfl,ownNames_defaultConfig⟩
  | stray hplain => exact absurd hw hplain
  | _ => exact ⟨hw.strays,hw.names⟩

section Operations
variable {sha : Sha256} {collation : Collation} {env : WebEnv} {c : Command} {I : Work → Prop}
  (hI : ∀ w t, Edit sha collation c w t → I w → I t)
include hI

theorem edits_aside {f : WebState → WebState} (hf : Aside f) : Keeps I (modify f) :=
  keeps_modify fun w hw => hI w _ (.aside hf) hw

theorem edits_log (stamp message : Str) : Keeps I (log stamp message) := by
  have hf : Aside (logged stamp message) := by constructor <;> simp
  unfold log
  exact edits_aside hI hf

/-- An edit that is known at the state it is made in, and what follows. -/
theorem edits_modify_bind {α : Type} {w : Work} (hw : I w) {f : WebState → WebState}
    (h : Edit sha collation c w (Work.edit f w)) {k : Unit → Op α} (hk : Keeps I (k ())) :
    Spec (fun t => t = w) (modify f >>= k) (fun _ => I) (fun _ => I) I := by
  have hstep := hI w _ h hw
  refine spec_bind (R := fun _ => I) ?_ fun _ => hk
  exact spec_step fun t ht => ht ▸ ⟨hstep,hstep⟩

/-- An operation has to keep a condition in plain states only. -/
theorem keeps_of_plain {α : Type} {op : Op α} (h : ∀ w, I w → Plain w.state →
    Spec (fun t => t = w) op (fun _ => I) (fun _ => I) I) : Keeps I op := by
  refine spec_forall fun w hw => ?_
  by_cases hplain : Plain w.state
  · exact h w hw hplain
  · have hall : ∀ t, I t := fun t => hI w t (.stray hplain) hw
    exact fun _ _ => ⟨fun t _ => hall t,fun _ _ => hall _,fun _ _ => hall _⟩

theorem edits_cutVaults (keep : WebManifest → Bool) : Keeps I (cutVaults env keep) := by
  refine keeps_of_plain hI fun w hw hplain => spec_current_bind fun u hu => ?_
  subst hu
  rw [if_pos hplain.strays]
  exact spec_pre (keeps_modify fun w hw => hI w _ (.cut _) hw) fun _ ht => ht ▸ hw

theorem edits_removeSourceHistory (sourcePaths : List Str) :
    Keeps I (removeSourceHistory env sourcePaths) := by
  apply keeps_current_bind
  intro s
  exact keeps_bind (edits_cutVaults hI _) fun _ => keeps_pure _

theorem edits_cutNewer (keepNewerVersions : Bool) (sourcePath : Str) (selected : WebManifest) :
    Keeps I (cutNewer env keepNewerVersions sourcePath selected) := by
  unfold cutNewer
  split
  · exact keeps_pure _
  · apply keeps_current_bind
    intro s
    apply keeps_lift_bind
    intro id _
    exact keeps_bind (edits_cutVaults hI _) fun _ => keeps_pure _

/-- The vault that is returned is the first vault of the state. -/
theorem edits_primaryVault : Triple I primaryVault
    (fun v w => I w ∧ ∃ id, primaryId w.state.config = .ok id ∧ w.state.vaults[id]? = some v) I := by
  refine spec_current_bind fun w hw => ?_
  refine spec_lift_bind (fun _ _ t ht => ht ▸ hw) fun id hid => ?_
  cases hfound : member w.state id with
  | some found =>
      refine spec_lift (fun v hv t ht => ?_) fun _ _ t ht => ht ▸ hw
      rw [orElse_eq_ok.mp hv] at hfound
      rw [ht]
      exact ⟨hw,id,hid,member_eq_some.mp hfound⟩
  | none =>
      have hstep := hI w _ (.missing hid (getElem?_of_member hfound)) hw
      refine spec_bind (R := fun _ t => I t ∧ primaryId t.state.config = .ok id ∧
        t.state.vaults[id]? = some newVault) ?_ fun _ => ?_
      · refine spec_step fun t ht => ?_
        rw [ht]
        exact ⟨⟨hstep,hid,getElem?_insert_self⟩,hstep⟩
      · exact spec_pure _ fun t ht => ⟨ht.1,id,ht.2⟩

theorem edits_webSummary : Keeps I webSummary := by
  refine triple_bind (edits_primaryVault hI) fun v => ?_
  refine triple_conseq (P := I) (Q := fun _ => I) ?_ (fun _ h => h.1) (fun _ _ h => h) fun _ h => h
  apply keeps_current_bind
  intro s
  exact keeps_lift_bind fun _ _ => keeps_pure _

theorem edits_summary : Keeps I (do return Reply.summary (← webSummary)) :=
  keeps_bind (edits_webSummary hI) fun _ => keeps_pure _

/-- A manifest that is found belongs to the first vault. -/
theorem edits_manifestById (sourcePath versionId : Str) : Triple I (manifestById sourcePath versionId)
    (fun m w => I w ∧ ∃ id v, primaryId w.state.config = .ok id ∧ w.state.vaults[id]? = some v ∧
      m ∈ v.manifests) I := by
  refine triple_bind (edits_primaryVault hI) fun v => ?_
  refine spec_lift ?_ fun _ _ w hw => hw.1
  rintro m hm w ⟨hw,id,hid,hv⟩
  exact ⟨hw,id,v,hid,hv,List.mem_of_find?_eq_some (orElse_eq_ok.mp hm)⟩

omit hI in
theorem edits_restoredFiles {m : WebManifest} {entries : List WebEntry}
    (hentries : entries.Sublist m.entries) :
    Triple (fun w => I w ∧ ∃ id v, primaryId w.state.config = .ok id ∧
        w.state.vaults[id]? = some v ∧ m ∈ v.manifests)
      (restoredFiles sha entries) (fun files w => I w ∧ Restorable sha w.state entries files) I := by
  refine spec_forall fun w hw => ?_
  obtain ⟨hw,id,v,hid,hv,hm⟩ := hw
  have hvault : Spec (fun t => t = w) primaryVault (fun v' t => t = w ∧ v' = v) (fun _ => I) I := by
    refine spec_current_bind fun u hu => ?_
    refine spec_lift_bind (fun _ _ t ht => ht ▸ hu ▸ hw) fun id' hid' => ?_
    subst hu
    rw [hid] at hid'
    cases hid'
    rw [member_eq_some.mpr hv]
    exact spec_lift (fun v' hv' t ht => ⟨ht,(Option.some.inj (orElse_eq_ok.mp hv')).symm⟩)
      fun _ _ t ht => ht ▸ hw
  refine spec_bind hvault fun v' => ?_
  refine spec_lift ?_ ?_
  · rintro files hfiles t ⟨rfl,rfl⟩
    exact ⟨hw,id,v',m,hid,hv,hm,hentries,hfiles⟩
  · rintro _ _ t ⟨rfl,-⟩
    exact hw

theorem edits_runBackup (now : Nat) (stamp : Str) : Keeps I (runBackup sha collation now stamp) := by
  refine keeps_of_plain hI fun w hw hplain => spec_current_bind fun u hu => ?_
  subst hu
  have hstay : ∀ t, t = u → I t := fun t ht => ht ▸ hw
  have hlog := fun message => edits_log hI stamp message
  refine spec_lift_bind (fun _ _ => hstay) fun watched _ => ?_
  split
  · exact spec_pre (keeps_bind (hlog _) fun _ => keeps_pure _) hstay
  refine spec_lift_bind (fun _ _ => hstay) fun preview _ => ?_
  split
  · exact spec_pre (keeps_bind (hlog _) fun _ => keeps_pure _) hstay
  refine spec_lift_bind (fun _ _ => hstay) fun destinations hd => ?_
  have hd := orElse_eq_ok.mp hd
  refine spec_check_bind hstay fun _ => ?_
  rw [hplain.dropWhile_usable hd]
  have hstep := hI u _ (.commit now preview.items hd) hw
  refine spec_bind (R := fun _ => I) ?_ fun _ => keeps_bind (hlog _) fun _ => keeps_pure _
  exact spec_step fun t ht => ht ▸ ⟨hstep,hstep⟩

theorem edits_verifyState (now : Nat) (stamp : Str) : Keeps I (verifyState sha now stamp) := by
  apply keeps_current_bind
  intro s
  refine keeps_check_bind fun _ => ?_
  refine keeps_bind (edits_aside hI ⟨fun _ => rfl,fun _ => rfl,fun _ => rfl,fun _ => rfl,fun _ => rfl⟩)
    fun _ => ?_
  exact keeps_bind (edits_log hI _ _) fun _ => keeps_pure _

end Operations

section Commands
variable {sha : Sha256} {collation : Collation} {env : WebEnv} {I : Work → Prop}

theorem edits_saveConfig {cfg : Option Payload}
    (hI : ∀ w t, Edit sha collation (.saveConfig cfg) w t → I w → I t) :
    Keeps I (saveConfig sha collation env cfg) := by
  refine keeps_lift_bind fun payload hpayload => ?_
  have hconfig : (Command.saveConfig cfg).config = some payload.config := by
    rw [orElse_eq_ok.mp hpayload]
    rfl
  apply keeps_current_bind
  intro s
  refine keeps_lift_bind fun previous _ => keeps_lift_bind fun watched _ => ?_
  refine keeps_bind (edits_removeSourceHistory hI _) fun removed => keeps_check_bind fun _ => ?_
  refine keeps_bind (keeps_modify fun w hw => hI w _ (.config _ hconfig) hw) fun _ => ?_
  refine keeps_bind (edits_log hI _ _) fun _ => ?_
  split
  · exact keeps_bind (edits_runBackup hI _ _) fun _ => keeps_pure _
  · exact keeps_pure _

theorem edits_removeProtectedPath {cfg : Option Payload} {sourcePath : Str}
    (hI : ∀ w t, Edit sha collation (.removeProtectedPath cfg sourcePath) w t → I w → I t) :
    Keeps I (removeProtectedPath env cfg sourcePath) := by
  refine keeps_lift_bind fun payload hpayload => ?_
  have hconfig : (Command.removeProtectedPath cfg sourcePath).config = some payload.config := by
    rw [orElse_eq_ok.mp hpayload]
    rfl
  refine keeps_check_bind fun _ => ?_
  apply keeps_current_bind
  intro s
  refine keeps_lift_bind fun previous _ => keeps_check_bind fun _ => ?_
  refine keeps_lift_bind fun watched _ => keeps_check_bind fun _ => ?_
  refine keeps_bind (edits_removeSourceHistory hI _) fun removed => keeps_check_bind fun _ => ?_
  refine keeps_bind (keeps_modify fun w hw => hI w _ (.config _ hconfig) hw) fun _ => ?_
  refine keeps_bind (edits_aside hI ⟨fun _ => rfl,fun _ => rfl,fun _ => rfl,fun _ => rfl,fun _ => rfl⟩)
    fun _ => ?_
  exact keeps_bind (edits_log hI _ _) fun _ => keeps_pure _

variable {c : Command} (hI : ∀ w t, Edit sha collation c w t → I w → I t)
include hI

theorem edits_relocateDestination (destinationId newPath : Str) :
    Keeps I (relocateDestination env destinationId newPath) := by
  refine spec_current_bind fun w hw => ?_
  have hstay : ∀ t, t = w → I t := fun t ht => ht ▸ hw
  have hdone : ∀ message (reply : WebState → Reply), Keeps I (do
      log (env.stamp 0) message
      let s ← current
      return reply s) :=
    fun message reply => keeps_bind (edits_log hI _ _) fun _ => keeps_current_bind fun _ => keeps_pure _
  refine spec_lift_bind (fun _ _ => hstay) fun destinations hd => ?_
  have hd := orElse_eq_ok.mp hd
  refine spec_lift_bind (fun _ _ => hstay) fun index _ => spec_check_bind hstay fun _ => ?_
  split
  · rename_i existing _
    refine spec_check_bind hstay fun _ => ?_
    refine spec_lift_bind (fun _ _ => hstay) fun main hmain => ?_
    refine spec_lift_bind (fun _ _ => hstay) fun other hother => ?_
    refine edits_modify_bind hI hw ?_ (hdone _ fun s => .relocated ⟨s.config,_,0,0,false⟩)
    exact .promote hd (orElse_eq_ok.mp hmain) (orElse_eq_ok.mp hother)
  · refine spec_lift_bind (fun _ _ => hstay) fun vault _ => ?_
    exact edits_modify_bind hI hw (.moveTo index newPath hd)
      (hdone _ fun s => .relocated ⟨s.config,_,_,_,true⟩)

theorem edits_toggleSafeMode (desired : Bool) :
    Keeps I (toggleSafeMode sha collation env desired) := by
  refine keeps_bind (keeps_modify fun w hw => hI w _ (.safeMode desired) hw) fun _ => ?_
  refine keeps_bind (edits_log hI _ _) fun _ => ?_
  split
  · exact keeps_pure _
  · exact keeps_bind (edits_runBackup hI _ _) fun _ => keeps_pure _

theorem edits_listVersionFiles (request : Option VersionRequest) (query : Str) (limit : Nat) :
    Keeps I (listVersionFiles collation request query limit) := by
  refine keeps_lift_bind fun request _ => ?_
  refine triple_bind (edits_manifestById hI _ _) fun m => ?_
  exact spec_pure _ fun _ hw => hw.1

theorem edits_restoreVersion (request : Option VersionRequest) (keepNewerVersions : Bool) :
    Keeps I (restoreVersion sha env request keepNewerVersions) := by
  refine keeps_lift_bind fun request _ => ?_
  refine triple_bind (edits_manifestById hI _ _) fun manifest => ?_
  refine triple_bind (edits_restoredFiles (List.Sublist.refl _)) fun files => ?_
  refine spec_current_bind fun w hw => ?_
  refine edits_modify_bind hI hw.1 (.restore hw.2) ?_
  refine keeps_bind (edits_cutNewer hI _ _ _) fun removed => ?_
  refine keeps_bind (edits_aside hI ⟨fun _ => rfl,fun _ => rfl,fun _ => rfl,fun _ => rfl,fun _ => rfl⟩)
    fun _ => ?_
  exact keeps_bind (edits_log hI _ _) fun _ => keeps_pure _

theorem edits_restoreFiles (request : Option VersionRequest) (relPaths : List Str) :
    Keeps I (restoreFiles sha collation env request relPaths) := by
  refine keeps_lift_bind fun request _ => ?_
  refine triple_bind (edits_manifestById hI _ _) fun manifest => ?_
  refine triple_bind (edits_restoredFiles List.filter_sublist) fun files => ?_
  refine spec_forall fun w hw => ?_
  refine edits_modify_bind hI hw.1 (.merge hw.2) ?_
  exact keeps_bind (edits_log hI _ _) fun _ => keeps_pure _

omit hI in
theorem keeps_readFile (path : Str) : Keeps I (readFile path) := by
  refine keeps_lift_bind fun normalized _ => ?_
  exact keeps_current_bind fun _ => keeps_lift_bind fun _ _ => keeps_pure _

theorem edits_deleteFile (path : Str) : Keeps I (deleteFile env path) := by
  refine keeps_lift_bind fun normalized _ => ?_
  refine spec_current_bind fun w hw => ?_
  refine edits_modify_bind hI hw (.delete _) ?_
  exact keeps_check_bind fun _ => keeps_bind (edits_log hI _ _) fun _ => edits_summary hI

theorem edits_repairReplica : Keeps I (repairReplica sha env) := by
  refine keeps_of_plain hI fun w hw hplain => spec_current_bind fun u hu => ?_
  subst hu
  have hstay : ∀ t, t = u → I t := fun t ht => ht ▸ hw
  refine spec_lift_bind (fun _ _ => hstay) fun destinations hd => ?_
  refine spec_lift_bind (fun _ _ => hstay) ?_
  rintro ⟨id',primary⟩ hprimary
  refine spec_lift_bind (fun _ _ => hstay) ?_
  rintro ⟨id,found⟩ hfound
  refine spec_lift_bind (fun _ _ => hstay) fun mirror hmirror => ?_
  refine spec_check_bind hstay fun _ => spec_check_bind hstay fun _ => ?_
  obtain ⟨d,hfirst,rfl,hprimary⟩ := memberAt_eq_some (orElse_eq_ok.mp hprimary)
  obtain ⟨-,-,-,hfound⟩ := memberAt_eq_some (orElse_eq_ok.mp hfound)
  rw [orElse_eq_ok.mp hmirror] at hfound
  obtain ⟨v,rfl,hv⟩ := vault_of_member hplain.strays
    (hplain.names _ (orElse_eq_ok.mp hd) (List.mem_map_of_mem (List.mem_of_getElem? hfirst))) hprimary
  refine edits_modify_bind hI hw (.repair hv (member_eq_some.mp hfound)) ?_
  refine keeps_bind (edits_log hI _ _) fun _ => keeps_bind (edits_verifyState hI _ _) fun _ => ?_
  exact keeps_bind (edits_webSummary hI) fun _ => keeps_pure _

end Commands

section Dispatch
variable {sha : Sha256} {collation : Collation} {env : WebEnv} {I : Work → Prop}

theorem edits_writeFile {path text : Str}
    (hI : ∀ w t, Edit sha collation (.writeFile path text) w t → I w → I t) :
    Keeps I (writeFile collation env path text) := by
  refine keeps_lift_bind fun normalized hnormalized => keeps_check_bind fun _ => ?_
  refine keeps_bind (keeps_modify fun w hw => hI w _ (.write _ hnormalized) hw) fun _ => ?_
  exact keeps_bind (edits_log hI _ _) fun _ => edits_summary hI

theorem edits_importFiles {imported : List ImportedFile}
    (hI : ∀ w t, Edit sha collation (.importFiles imported) w t → I w → I t) :
    Keeps I (importFiles sha collation env imported) := by
  refine keeps_check_bind fun _ => keeps_check_bind fun _ => ?_
  refine spec_current_bind fun w hw => ?_
  refine spec_lift_bind (fun _ _ t ht => ht ▸ hw) fun files hfiles => ?_
  refine edits_modify_bind hI hw (.importing env hfiles) ?_
  refine keeps_bind (edits_log hI _ _) fun _ => ?_
  split
  · exact edits_summary hI
  · exact keeps_bind (edits_runBackup hI _ _) fun _ => edits_summary hI

theorem edits_corruptReplica (hI : ∀ w t, Edit sha collation .corruptReplica w t → I w → I t) :
    Keeps I (corruptReplica env) := by
  apply keeps_current_bind
  intro s
  refine keeps_lift_bind fun destinations _ => keeps_check_bind fun _ => ?_
  refine keeps_lift_bind ?_
  rintro ⟨id,found⟩ _
  refine keeps_lift_bind fun mirror _ => keeps_lift_bind ?_
  rintro ⟨hash,blob⟩ _
  refine keeps_bind (keeps_modify fun w hw => hI w _ .damage hw) fun _ => ?_
  refine keeps_bind (edits_aside hI ⟨fun _ => rfl,fun _ => rfl,fun _ => rfl,fun _ => rfl,fun _ => rfl⟩)
    fun _ => ?_
  exact keeps_bind (edits_log hI _ _) fun _ => edits_summary hI

/-- A new workspace, from the empty one that it starts with. -/
theorem edits_seedState (hI : ∀ w t, Edit sha collation .reset w t → I w → I t)
    {history : List (Str × List WebFile)} (hstart : I ⟨createSeedState (env.now 0),history⟩) :
    I (seedState sha collation env history) := by
  have hsteps : Keeps I (seedSteps sha collation env) := by
    refine keeps_bind (edits_runBackup hI _ _) fun _ => ?_
    refine keeps_bind (keeps_modify fun w hw => hI w _ (.architecture _) hw) fun _ => ?_
    refine keeps_bind (edits_runBackup hI _ _) fun _ => ?_
    exact keeps_bind (edits_verifyState hI _ _) fun _ => keeps_pure _
  exact hsteps.store hstart

theorem edits_reset (hI : ∀ w t, Edit sha collation .reset w t → I w → I t) :
    Keeps I (reset sha collation env) := by
  refine spec_read_bind fun w hw => ?_
  have hfresh : I (seedState sha collation env w.history) :=
    edits_seedState hI (hI w _ (.fresh env) hw)
  refine spec_bind (R := fun _ => I) ?_ fun _ => edits_summary hI
  exact spec_step fun _ _ => ⟨hfresh,hfresh⟩

theorem edits_readCommand {c : Command} (hI : ∀ w t, Edit sha collation c w t → I w → I t)
    {op : Op Reply} (h : readCommand sha collation c = some op) : Keeps I op := by
  cases c with
  | loadConfig =>
      cases h
      exact keeps_current_bind fun _ => keeps_pure _
  | getStatus =>
      cases h
      exact keeps_current_bind fun _ => keeps_lift_bind fun _ _ => keeps_pure _
  | testAccess =>
      cases h
      exact keeps_current_bind fun _ => keeps_lift_bind fun _ _ => keeps_pure _
  | runSimulate =>
      cases h
      exact keeps_current_bind fun _ => keeps_lift_bind fun _ _ => keeps_pure _
  | listVersions =>
      cases h
      refine triple_bind (edits_primaryVault hI) fun v => ?_
      exact spec_pure _ fun _ hw => hw.1
  | listVersionFiles request query limit =>
      cases h
      exact edits_listVersionFiles hI request query limit
  | logTail =>
      cases h
      exact keeps_current_bind fun _ => keeps_pure _
  | workspaceSummary =>
      cases h
      exact edits_summary hI
  | readFile path =>
      cases h
      exact keeps_readFile path
  | fixed =>
      cases h
      exact keeps_pure _
  | other name =>
      cases h
      exact triple_fail _ fun _ hw => hw
  | _ => cases h

theorem edits_mutation {c : Command} (hI : ∀ w t, Edit sha collation c w t → I w → I t) :
    Keeps I (mutation sha collation env c) := by
  cases c with
  | saveConfig cfg => exact edits_saveConfig hI
  | removeProtectedPath cfg sourcePath => exact edits_removeProtectedPath hI
  | relocateDestination destinationId newPath => exact edits_relocateDestination hI _ _
  | toggleSafeMode desired => exact edits_toggleSafeMode hI desired
  | runNow => exact keeps_bind (edits_runBackup hI _ _) fun _ => keeps_pure _
  | verify => exact keeps_bind (edits_verifyState hI _ _) fun _ => keeps_pure _
  | restoreVersion request keepNewerVersions => exact edits_restoreVersion hI _ _
  | restoreFiles request relPaths => exact edits_restoreFiles hI _ _
  | writeFile path text => exact edits_writeFile hI
  | deleteFile path => exact edits_deleteFile hI path
  | importFiles imported => exact edits_importFiles hI
  | corruptReplica => exact edits_corruptReplica hI
  | repairReplica => exact edits_repairReplica hI
  | reset => exact edits_reset hI
  | scheduled =>
      refine keeps_current_bind fun s => ?_
      split
      · exact keeps_pure _
      · exact keeps_bind (edits_runBackup hI _ _) fun _ => keeps_pure _
  | _ => exact keeps_pure _

theorem keeps_persistState : Keeps (fun s : Session => I s.work) (persistState env) := by
  unfold persistState
  cases env.storage with
  | absent => exact keeps_pure _
  | works => exact keeps_read_bind fun _ => keeps_check_bind fun _ => keeps_step fun s hs => hs
  | fails => exact triple_fail _ fun _ hs => hs

theorem keeps_onWork {α : Type} {op : Op α} (h : Keeps I op) :
    Keeps (fun s : Session => I s.work) (onWork op) :=
  h.zoom (fun _ hs => hs) fun _ _ _ hu => hu

/-- What the edits of a command keep, the command keeps. -/
theorem keeps_of_edits {c : Command} (hI : ∀ w t, Edit sha collation c w t → I w → I t) :
    Keeps (fun s : Session => I s.work) (invokeWebCommand sha collation env c) := by
  unfold invokeWebCommand
  cases hop : readCommand sha collation c with
  | some op => exact keeps_onWork (edits_readCommand hI hop)
  | none =>
      refine keeps_bind (keeps_onWork (edits_mutation hI)) fun _ => ?_
      exact keeps_bind keeps_persistState fun _ => keeps_pure _

end Dispatch

end BackupSync.WebEngine
