import BackupSync.WebRestore

/-!
# Promotion of a secondary destination in the browser

Main storage changes places with a secondary destination without a look at the
secondary's vault. The vaults of all destinations hold the same manifests with all
their blobs as long as no blob was damaged and no destination was added after the
first versions; then the promoted vault is what the desktop would have accepted.
-/
namespace BackupSync.WebEngine
open Checks Interruptible ContentHash

section Mirrors

def destinationIds (config : WebConfig) : List Str :=
  (config.destinations.getD []).map WebDestination.id

theorem ownNames_iff {config : WebConfig} :
    OwnNames config ↔ (destinationIds config).Disjoint inheritedNames := by
  unfold OwnNames destinationIds
  cases config.destinations with
  | none => simp [List.disjoint_nil_left]
  | some destinations => simp

/-- The vaults of all destinations hold the same manifests. -/
structure Mirrored (w : Work) : Prop where
  distinct : (destinationIds w.state.config).Nodup
  same : ∃ manifests, ∀ id ∈ destinationIds w.state.config, ∃ v,
    w.state.vaults[id]? = some v ∧ v.manifests = manifests

variable {w : Work} {f : WebState → WebState}

theorem Mirrored.frame (h : Mirrored w) (hvaults : (f w.state).vaults = w.state.vaults)
    (hids : destinationIds (f w.state).config = destinationIds w.state.config) :
    Mirrored (Work.edit f w) := by
  have hids : destinationIds (Work.edit f w).state.config = destinationIds w.state.config := hids
  have hvaults : (Work.edit f w).state.vaults = w.state.vaults := hvaults
  constructor
  · rw [hids]
    exact h.distinct
  · rw [hids,hvaults]
    exact h.same

theorem Mirrored.cutAll (h : Mirrored w) (keep : WebManifest → Bool) :
    Mirrored (Work.edit (cutAll keep) w) := by
  obtain ⟨manifests,hsame⟩ := h.same
  refine ⟨h.distinct,manifests.filter keep,?_⟩
  intro id hid
  obtain ⟨v,hv,hmanifests⟩ := hsame id hid
  refine ⟨cut keep v,?_,?_⟩
  · change (WebEngine.cutAll keep w.state).vaults[id]? = _
    rw [getElem?_cutAll,hv]
    rfl
  · change v.manifests.filter keep = _
    rw [hmanifests]

theorem Mirrored.missing (h : Mirrored w) {id : Str} (hid : w.state.vaults[id]? = none) :
    Mirrored (Work.edit (fun s => {s with vaults := s.vaults.insert id newVault}) w) := by
  obtain ⟨manifests,hsame⟩ := h.same
  refine ⟨h.distinct,manifests,?_⟩
  intro id' hid'
  obtain ⟨v,hv,hmanifests⟩ := hsame id' hid'
  refine ⟨v,?_,hmanifests⟩
  change (w.state.vaults.insert id newVault)[id']? = _
  rw [getElem?_insert_of_ne,hv]
  rintro rfl
  rw [hid] at hv
  cases hv

variable {destinations : List WebDestination}

theorem Mirrored.commitVersion {sha : Sha256} {collation : Collation} (h : Mirrored w)
    (hd : w.state.config.destinations = some destinations) (now items : Nat) :
    Mirrored (commitVersion sha collation now destinations items w) := by
  have hids : destinationIds w.state.config = destinations.map WebDestination.id := by
    unfold destinationIds
    rw [hd]
    rfl
  have hnodup := h.distinct
  rw [hids] at hnodup
  obtain ⟨manifests,hsame⟩ := h.same
  refine ⟨h.distinct,prune (max 1 w.state.config.maxBackupsPerFile).toNat w.state.sourcePath
    (manifests++[nextManifest sha collation now w.state]),?_⟩
  intro id hid
  obtain ⟨v,hv,hmanifests⟩ := hsame id hid
  refine ⟨storedVault w.state.files (max 1 w.state.config.maxBackupsPerFile).toNat
    (nextManifest sha collation now w.state) v,?_,?_⟩
  · change (storeVersions destinations (nextManifest sha collation now w.state) w.state).1[id]? = _
    unfold storeVersions
    have hmem : id ∈ destinations.map WebDestination.id := hids ▸ hid
    rw [getElem?_foldl_storeVersion _ _ hnodup,if_pos hmem,hv]
    rfl
  · rw [← hmanifests]
    rfl

/-- Another vault with the same manifests takes the place of one. -/
theorem Mirrored.insert (h : Mirrored w) {id : Str} {v v' : Vault} (hv : w.state.vaults[id]? = some v)
    (hmanifests : v'.manifests = v.manifests) :
    Mirrored (Work.edit (fun s => {s with vaults := s.vaults.insert id v'}) w) := by
  obtain ⟨manifests,hsame⟩ := h.same
  refine ⟨h.distinct,manifests,?_⟩
  intro id' hid'
  obtain ⟨u,hu,hmanifests'⟩ := hsame id' hid'
  by_cases hid : id = id'
  · subst hid
    rw [hv] at hu
    cases hu
    exact ⟨v',getElem?_insert_self,hmanifests.trans hmanifests'⟩
  · refine ⟨u,?_,hmanifests'⟩
    change (w.state.vaults.insert id v')[id']? = _
    rw [getElem?_insert_of_ne (Ne.symm hid),hu]

theorem mem_destinationIds {config : WebConfig} (hd : config.destinations = some destinations)
    {i : Nat} {d : WebDestination} (hi : destinations[i]? = some d) :
    d.id ∈ destinationIds config := by
  unfold destinationIds
  rw [hd]
  exact List.mem_map_of_mem (List.mem_of_getElem? hi)

theorem destinationIds_setPath {config : WebConfig} {destinations : List WebDestination}
    (hd : config.destinations = some destinations) {root : Str} (i : Nat) (path : Str) :
    destinationIds {config with
      backupRoot := root, destinations := some (setPath i path destinations)} =
      destinationIds config := by
  unfold destinationIds
  rw [hd]
  exact map_id_setPath i path destinations

theorem destinationIds_promote {s : WebState} (hd : s.config.destinations = some destinations)
    (main other : WebDestination) (existing : Nat) :
    destinationIds (promote destinations main other existing s).config = destinationIds s.config := by
  unfold destinationIds promote
  rw [hd]
  change ((setPath existing main.path (setPath 0 other.path destinations)).map WebDestination.id) = _
  rw [map_id_setPath,map_id_setPath]
  rfl

theorem Mirrored.promote (h : Mirrored w) (hplain : Plain w.state)
    (hd : w.state.config.destinations = some destinations) {main other : WebDestination}
    {existing : Nat} (hmain : destinations[0]? = some main)
    (hother : destinations[existing]? = some other) :
    Mirrored (Work.edit (promote destinations main other existing) w) := by
  have hids := destinationIds_promote hd main other existing
  obtain ⟨manifests,hsame⟩ := h.same
  obtain ⟨v,hv,hvsame⟩ := hsame main.id (mem_destinationIds hd hmain)
  obtain ⟨u,hu,husame⟩ := hsame other.id (mem_destinationIds hd hother)
  rw [hplain.promote_eq hd hmain hother] at hids
  rw [Work.edit,hplain.promote_eq hd hmain hother]
  refine ⟨?_,manifests,?_⟩
  · rw [hids]
    exact h.distinct
  · rw [hids]
    intro id hid
    dsimp only
    rw [hv,hu]
    by_cases ho : other.id = id
    · subst ho
      exact ⟨v,getElem?_insert_self,hvsame⟩
    rw [getElem?_insert_of_ne (Ne.symm ho)]
    by_cases hm : main.id = id
    · subst hm
      exact ⟨u,getElem?_insert_self,husame⟩
    · rw [getElem?_insert_of_ne (Ne.symm hm)]
      exact hsame id hid

theorem mirrored_createSeedState (now : Nat) (history : List (Str × List WebFile)) :
    Mirrored ⟨createSeedState now,history⟩ := by
  constructor
  · change ["primary".toList,"mirror".toList].Nodup
    decide
  · refine ⟨[],?_⟩
    intro id hid
    change id ∈ ["primary".toList,"mirror".toList] at hid
    rcases List.mem_cons.mp hid with rfl | hid
    · refine ⟨newVault,?_,rfl⟩
      change (((∅ : Map Str Vault).insert "primary".toList newVault).insert
        "mirror".toList newVault)["primary".toList]? = some newVault
      rw [getElem?_insert_of_ne (by decide),getElem?_insert_self]
    · obtain rfl := List.mem_singleton.mp hid
      exact ⟨newVault,getElem?_insert_self,rfl⟩

end Mirrors

section Runs
variable {sha : Sha256} {collation : Collation}

/-- A configuration that is saved names no destination twice and none that was not there. -/
def AddsNoDestination (c : Command) (config : WebConfig) : Prop :=
  ∀ saved, c.config = some saved → (destinationIds saved).Nodup ∧
    destinationIds saved ⊆ destinationIds config

theorem AddsNoDestination.ownNames {c : Command} {config saved : WebConfig}
    (h : AddsNoDestination c config) (hconfig : OwnNames config) (hsaved : c.config = some saved) :
    OwnNames saved :=
  ownNames_iff.mpr fun _ hid => ownNames_iff.mp hconfig ((h saved hsaved).2 hid)

theorem mirrored_edit {c : Command} (w t : Work) (h : Edit sha collation c w t)
    (hw : (Mirrored w ∧ AddsNoDestination c w.state.config) ∧ Plain w.state) :
    (Mirrored t ∧ AddsNoDestination c t.state.config) ∧ Plain t.state := by
  obtain ⟨⟨hm,hadds⟩,hplain⟩ := hw
  refine ⟨?_,plain_edit (fun _ => hadds.ownNames hplain.names) w t h hplain⟩
  have hkept : ∀ {config : WebConfig}, destinationIds config = destinationIds w.state.config →
      AddsNoDestination c config := by
    intro config hids saved hsaved
    rw [hids]
    exact hadds saved hsaved
  cases h with
  | @aside _ _ f hf =>
      have hids : destinationIds (f w.state).config = destinationIds w.state.config := by
        rw [hf.config]
      exact ⟨hm.frame (hf.vaults _) hids,hkept hids⟩
  | cut keep => exact ⟨hm.cutAll keep,hadds⟩
  | missing _ hv => exact ⟨hm.missing hv,hadds⟩
  | commit now items hd => exact ⟨hm.commitVersion hd now items,hadds⟩
  | safeMode on => exact ⟨hm.frame rfl rfl,hadds⟩
  | @config _ _ config next hconfig =>
      obtain ⟨hnodup,hsub⟩ := hadds config hconfig
      obtain ⟨manifests,hsame⟩ := hm.same
      refine ⟨⟨hnodup,manifests,fun id hid => hsame id (hsub hid)⟩,?_⟩
      intro saved hsaved
      rw [hconfig] at hsaved
      cases hsaved
      exact ⟨hnodup,fun _ hid => hid⟩
  | promote hd hmain hother =>
      exact ⟨hm.promote hplain hd hmain hother,hkept (destinationIds_promote hd _ _ _)⟩
  | moveTo index newPath hd =>
      have hids := @destinationIds_setPath w.state.config _ hd
        (if index = 0 then newPath else w.state.config.backupRoot) index newPath
      exact ⟨hm.frame rfl hids,hkept hids⟩
  | restore hr => exact ⟨hm.frame rfl rfl,hadds⟩
  | merge hr => exact ⟨hm.frame rfl rfl,hadds⟩
  | write mtime hpath => exact ⟨hm.frame rfl rfl,hadds⟩
  | delete keep => exact ⟨hm.frame rfl rfl,hadds⟩
  | importing env hfiles => exact ⟨hm.frame rfl rfl,hadds⟩
  | @damage _ id hash bytes =>
      cases hv : w.state.vaults[id]? with
      | none =>
          have hsame : setBlob id hash bytes w.state = w.state := by
            unfold setBlob
            rw [hv]
          exact ⟨hm.frame (by rw [hsame]) (by rw [hsame]),hkept (by rw [Work.edit,hsame])⟩
      | some v =>
          have hset : Work.edit (setBlob id hash bytes) w = Work.edit (fun s => {s with
              vaults := s.vaults.insert id {v with blobs := v.blobs.insert hash bytes}}) w := by
            unfold Work.edit setBlob
            rw [hv]
          rw [hset]
          exact ⟨hm.insert hv rfl,hadds⟩
  | repair hprimary hmirror =>
      exact ⟨hm.insert hmirror (manifests_repairVault _ _),hadds⟩
  | fresh env =>
      refine ⟨mirrored_createSeedState _ _,?_⟩
      intro saved hsaved
      cases hsaved
  | architecture now => exact ⟨hm.frame rfl rfl,hadds⟩
  | stray hstray => exact absurd hplain hstray

/-- The sessions that commands reach from a new workspace, where no blob is damaged on purpose and no
destination is added. -/
inductive Undisturbed (sha : Sha256) (collation : Collation) : Session → Prop where
  | seed (env : WebEnv) (persisted : Option WebState) :
      Undisturbed sha collation ⟨seedState sha collation env [],persisted⟩
  | command {s : Session} (c : Command) (env : WebEnv) : Undisturbed sha collation s →
      c ≠ .corruptReplica → AddsNoDestination c s.work.state.config →
      Undisturbed sha collation (invokeWebCommand sha collation env c s).store

theorem mirrored_of_undisturbed {s : Session} (h : Undisturbed sha collation s) :
    Mirrored s.work ∧ Plain s.work.state := by
  induction h with
  | seed env persisted =>
      have hstart : (Mirrored ⟨createSeedState (env.now 0),[]⟩ ∧
          AddsNoDestination .reset (createSeedState (env.now 0)).config) ∧
          Plain (createSeedState (env.now 0)) :=
        ⟨⟨mirrored_createSeedState _ _,fun _ hsaved => by cases hsaved⟩,rfl,ownNames_defaultConfig⟩
      have hseed := edits_seedState (@mirrored_edit sha collation .reset) hstart
      exact ⟨hseed.1.1,hseed.2⟩
  | command c env _ _ hadds ih =>
      have hkeeps := @keeps_of_edits sha collation env _ c mirrored_edit
      have hnext := hkeeps.store ⟨⟨ih.1,hadds⟩,ih.2⟩
      exact ⟨hnext.1.1,hnext.2⟩

theorem reached_of_undisturbed {s : Session} (h : Undisturbed sha collation s) :
    Reached sha collation Set.univ s := by
  induction h with
  | seed env persisted => exact .seed env persisted (Set.subset_univ _)
  | command c env hrun hcorrupt hadds ih =>
      refine .command c env ih hcorrupt (Set.subset_univ _) fun config hconfig => ⟨?_,?_⟩
      · intro destinations hd
        have hnodup := (hadds config hconfig).1
        unfold destinationIds at hnodup
        rw [hd] at hnodup
        exact hnodup
      · exact hadds.ownNames (mirrored_of_undisturbed hrun).2.names hconfig

end Runs

section Promotion
variable {sha : Sha256} {collation : Collation} {env : WebEnv} {s t : Session}

/-- The promoted vault has every blob of its manifests, and no watched source has a newer version in
the old vault than in it. -/
structure Verified (sha : Sha256) (watched : List WebWatched) (old promoted : Vault) : Prop where
  blobs : ∀ m ∈ promoted.manifests, ∀ e ∈ m.entries, ∃ b, promoted.blobs[e.sha256]? = some b ∧
    sha256Hex sha b = e.sha256
  current : ∀ item ∈ watched, ∀ m ∈ old.manifests, m.sourcePath = item.path →
    ∃ m' ∈ promoted.manifests, m'.sourcePath = item.path ∧ m.createdAtUnix ≤ m'.createdAtUnix

theorem returns_of_mutate {op : Op Reply} {reply : Reply} (h : Returns (mutate env op) s reply t) :
    Returns op s.work reply t.work := by
  obtain ⟨reply',u,hop,h⟩ := returns_bind.mp h
  obtain ⟨_,v,hpersist,h⟩ := returns_bind.mp h
  obtain ⟨rfl,rfl⟩ := returns_pure.mp h
  obtain ⟨w,hwork,rfl⟩ := returns_zoom.mp hop
  unfold persistState at hpersist
  cases hstorage : env.storage with
  | absent =>
      rw [hstorage] at hpersist
      obtain ⟨-,rfl⟩ := returns_pure.mp hpersist
      exact hwork
  | works =>
      rw [hstorage] at hpersist
      obtain ⟨-,hpersist⟩ := returns_check_bind.mp (returns_read_bind.mp hpersist)
      rw [returns_step.mp hpersist]
      exact hwork
  | fails =>
      rw [hstorage] at hpersist
      exact absurd hpersist returns_fail

/-- A switch puts the vault of another destination in the place of the first one. -/
theorem promoted_vault {w u : Work} (hplain : Plain w.state) {destinationId newPath : Str}
    {result : RelocationResult}
    (h : Returns (relocateDestination env destinationId newPath) w (.relocated result) u)
    (hkind : result.operation = .promotedExistingSecondary) :
    destinationId ∈ destinationIds w.state.config ∧ ∃ id ∈ destinationIds w.state.config,
      u.state.vaults[destinationId]? = some (w.state.vaults[id]?.getD newVault) := by
  obtain ⟨s,w',hcurrent,h⟩ := returns_bind.mp h
  obtain ⟨rfl,rfl⟩ := returns_current.mp hcurrent
  obtain ⟨destinations,hd,h⟩ := returns_lift_bind.mp h
  have hd := orElse_eq_ok.mp hd
  obtain ⟨index,hindex,h⟩ := returns_lift_bind.mp h
  have hindex := orElse_eq_ok.mp hindex
  obtain ⟨-,h⟩ := returns_check_bind.mp h
  cases hexisting : destinations.findIdx? fun d => d.id ≠ destinationId ∧ d.path = newPath with
  | none =>
      rw [hexisting] at h
      obtain ⟨_,-,h⟩ := returns_lift_bind.mp h
      obtain ⟨_,_,-,h⟩ := returns_bind.mp h
      obtain ⟨_,_,-,h⟩ := returns_bind.mp h
      obtain ⟨_,_,-,h⟩ := returns_bind.mp h
      obtain ⟨hreply,-⟩ := returns_pure.mp h
      cases hreply
      cases hkind
  | some existing =>
      rw [hexisting] at h
      obtain ⟨hzero,h⟩ := returns_check_bind.mp h
      obtain ⟨main,hmain,h⟩ := returns_lift_bind.mp h
      obtain ⟨other,hother,h⟩ := returns_lift_bind.mp h
      have hmain := orElse_eq_ok.mp hmain
      have hother := orElse_eq_ok.mp hother
      obtain ⟨_,u₁,hpromote,h⟩ := returns_bind.mp h
      obtain ⟨_,u₂,hlog,h⟩ := returns_bind.mp h
      obtain ⟨_,u₃,hcurrent,h⟩ := returns_bind.mp h
      obtain ⟨-,rfl⟩ := returns_pure.mp h
      obtain ⟨-,rfl⟩ := returns_current.mp hcurrent
      have hid : main.id = destinationId := by
        obtain rfl := of_decide_eq_true hzero
        obtain ⟨hlt,hp,-⟩ := List.findIdx?_eq_some_iff_getElem.mp hindex
        rw [List.getElem?_eq_getElem hlt] at hmain
        cases hmain
        exact of_decide_eq_true hp
      have hne : other.id ≠ main.id := by
        obtain ⟨hlt,hp,-⟩ := List.findIdx?_eq_some_iff_getElem.mp hexisting
        rw [List.getElem?_eq_getElem hlt] at hother
        cases hother
        rw [hid]
        exact (of_decide_eq_true hp).1
      have hvaults : u.state.vaults = u₁.state.vaults := by
        unfold log at hlog
        rw [returns_step.mp hlog]
        exact logged_vaults _ _ _
      rw [← hid]
      refine ⟨mem_destinationIds hd hmain,other.id,mem_destinationIds hd hother,?_⟩
      rw [hvaults,returns_step.mp hpromote,Work.edit,hplain.promote_eq hd hmain hother]
      dsimp only
      rw [getElem?_insert_of_ne (Ne.symm hne),getElem?_insert_self]

theorem promoted_copies_verified (h : Undisturbed sha collation s) {destinationId newPath : Str}
    {result : RelocationResult}
    (hreturns : Returns (invokeWebCommand sha collation env (.relocateDestination destinationId newPath))
      s (.relocated result) t)
    (hkind : result.operation = .promotedExistingSecondary) :
    Verified sha (s.work.state.config.watched.getD [])
      (s.work.state.vaults[destinationId]?.getD newVault)
      (t.work.state.vaults[destinationId]?.getD newVault) := by
  obtain ⟨hsound,hplain⟩ := backed_of_reached (reached_of_undisturbed h)
  obtain ⟨manifests,hsame⟩ := (mirrored_of_undisturbed h).1.same
  obtain ⟨hmain,id,hid,hpromoted⟩ := promoted_vault hplain (returns_of_mutate hreturns) hkind
  obtain ⟨old,hold,holdSame⟩ := hsame destinationId hmain
  obtain ⟨v,hv,hvSame⟩ := hsame id hid
  rw [hold,hpromoted,hv]
  constructor
  · intro m hm e he
    obtain ⟨b,-,hb,hhash⟩ := (hsound.vaults id v hv).1.blob hm he
    exact ⟨b,hb,hhash⟩
  · intro item _ m hm hpath
    refine ⟨m,?_,hpath,le_refl _⟩
    change m ∈ v.manifests
    rw [hvSame,← holdSame]
    exact hm

end Promotion

section Switches

def operationOf : Except WebError Reply → Option RelocationKind
  | .ok (.relocated result) => some result.operation
  | _ => none

theorem relocated_of_operation {m : Action Session WebError Reply} {s : Session}
    {kind : RelocationKind} (h : operationOf (m s).result = some kind) :
    ∃ result, Returns m s (.relocated result) (m s).store ∧ result.operation = kind := by
  cases hresult : (m s).result with
  | error e =>
      rw [hresult] at h
      cases h
  | ok reply =>
      rw [hresult] at h
      cases reply with
      | relocated result =>
          cases h
          exact ⟨result,⟨hresult,rfl⟩,rfl⟩
      | _ => cases h

/-- Main storage is switched with the mirror of a new workspace. -/
def switchToMirror (sha : Sha256) : Action Session WebError Reply :=
  invokeWebCommand sha plainOrder calmEnv
    (.relocateDestination "primary".toList "browser-vault://mirror".toList)

theorem promoted_copies_verified_mirror :
    operationOf (switchToMirror seedSha (seedSession seedSha)).result =
      some .promotedExistingSecondary ∧
    Verified seedSha ((seedSession seedSha).work.state.config.watched.getD [])
      ((seedSession seedSha).work.state.vaults["primary".toList]?.getD newVault)
      ((switchToMirror seedSha (seedSession seedSha)).store.work.state.vaults["primary".toList]?.getD
        newVault) := by
  have hoperation : operationOf (switchToMirror seedSha (seedSession seedSha)).result =
      some .promotedExistingSecondary := by decide +kernel
  obtain ⟨result,hreturns,hkind⟩ := relocated_of_operation hoperation
  have hsession : Undisturbed seedSha plainOrder (seedSession seedSha) := .seed calmEnv none
  exact ⟨hoperation,@promoted_copies_verified seedSha plainOrder calmEnv (seedSession seedSha) _ hsession
    "primary".toList "browser-vault://mirror".toList result hreturns hkind⟩

/-- A third destination, saved while backups are paused. -/
def addedConfig : WebConfig :=
  {defaultConfig with
    safeMode := true
    destinations := some [⟨"primary".toList,[],"browser-vault://primary".toList⟩,
      ⟨"mirror".toList,[],"browser-vault://mirror".toList⟩,
      ⟨"extra".toList,[],"browser-vault://extra".toList⟩]}

def addedSession : Session :=
  (invokeWebCommand seedSha plainOrder calmEnv (.saveConfig (some ⟨addedConfig,true⟩))
    (seedSession seedSha)).store

def switchToExtra : Action Session WebError Reply :=
  invokeWebCommand seedSha plainOrder calmEnv
    (.relocateDestination "primary".toList "browser-vault://extra".toList)

/-- The new destination becomes Main storage although it has no version. -/
theorem empty_secondary_promoted :
    operationOf (switchToExtra addedSession).result = some .promotedExistingSecondary ∧
    ¬ Verified seedSha (addedSession.work.state.config.watched.getD [])
      (addedSession.work.state.vaults["primary".toList]?.getD newVault)
      ((switchToExtra addedSession).store.work.state.vaults["primary".toList]?.getD newVault) := by
  have hold : ((addedSession.work.state.vaults["primary".toList]?.getD newVault).manifests.map
      WebManifest.sourcePath) = [portfolio,portfolio] := by decide +kernel
  have hnew : (((switchToExtra addedSession).store.work.state.vaults["primary".toList]?.getD
      newVault).manifests.map WebManifest.id) = [] := by decide +kernel
  refine ⟨by decide +kernel,?_⟩
  intro h
  have hmem : portfolio ∈
      (addedSession.work.state.vaults["primary".toList]?.getD newVault).manifests.map
        WebManifest.sourcePath := by
    rw [hold]
    exact List.mem_cons_self
  obtain ⟨m,hm,hpath⟩ := List.mem_map.mp hmem
  have hwatched : (⟨portfolio,true⟩ : WebWatched) ∈
      addedSession.work.state.config.watched.getD [] := by decide +kernel
  obtain ⟨m',hm',-⟩ := h.current _ hwatched m hm hpath
  rw [List.map_eq_nil_iff.mp hnew] at hm'
  cases hm'

end Switches

end BackupSync.WebEngine
