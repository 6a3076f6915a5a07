import BackupSync.WebVersions

/-!
# Restored versions of the browser engine

A version that is listed can be restored, and the workspace then holds the files it
held when the version was made. The hashes of the entries determine the contents as
long as no two of the contents involved have the same hash.
-/
namespace BackupSync.WebEngine
open Checks Interruptible ContentHash

section Entries
variable {sha : Sha256} {collation : Collation} {involved : Set Bytes}
  {history : List (Str × List WebFile)} {v : Vault} {m : WebManifest}

/-- The file of an entry, with the content that the vault has for it. -/
def fileOf (v : Vault) (e : WebEntry) : WebFile :=
  ⟨e.relPath,v.blobs[e.sha256]?.getD [],e.mtimeUnix⟩

theorem mapM_restoreEntry {entries : List WebEntry}
    (h : ∀ e ∈ entries, restoreEntry sha v e = .ok (fileOf v e)) :
    entries.mapM (restoreEntry sha v) = .ok (entries.map (fileOf v)) := by
  induction entries with
  | nil => rfl
  | cons e entries ih =>
      rw [List.mapM_cons,h e List.mem_cons_self,ih fun e he => h e (List.mem_cons_of_mem _ he)]
      rfl

theorem BackedVault.blob (h : BackedVault sha collation involved history v) (hm : m ∈ v.manifests)
    {e : WebEntry} (he : e ∈ m.entries) :
    ∃ b ∈ involved, v.blobs[e.sha256]? = some b ∧ sha256Hex sha b = e.sha256 := by
  have hmem := h.complete m hm e he
  rw [mem_iff_isSome_getElem?] at hmem
  obtain ⟨b,hb⟩ := Option.isSome_iff_exists.mp hmem
  obtain ⟨hknown,hhash⟩ := h.hashed e.sha256 b hb
  exact ⟨b,hknown,hb,hhash⟩

/-- The restored files are those of the workspace, up to their order. -/
theorem BackedVault.restored (h : BackedVault sha collation involved history v)
    (hinj : Set.InjOn (sha256Hex sha) involved) (hm : m ∈ v.manifests) :
    ∃ files, history.lookup m.id = some files ∧
      m.entries.mapM (restoreEntry sha v) = .ok (m.entries.map (fileOf v)) ∧
      (m.entries.map (fileOf v)).Perm files := by
  obtain ⟨files,hlookup,hentries,hsafe⟩ := h.created m hm
  have hfile : ∀ f ∈ files, fileOf v (entryOf sha f) = f := by
    intro f hf
    have he : entryOf sha f ∈ m.entries := by
      rw [hentries]
      exact mem_planEntries.mpr ⟨f,hf,rfl⟩
    obtain ⟨b,hknown,hb,hhash⟩ := h.blob hm he
    have hsame : b = f.bytes := hinj hknown (hsafe.known f hf) hhash
    unfold fileOf
    rw [hb,hsame]
    rfl
  refine ⟨files,hlookup,?_,?_⟩
  · refine mapM_restoreEntry fun e he => ?_
    obtain ⟨b,-,hb,hhash⟩ := h.blob hm he
    rw [hentries] at he
    obtain ⟨f,hf,rfl⟩ := mem_planEntries.mp he
    refine restoreEntry_eq_ok.mpr ⟨hsafe.valid f hf,b,hb,hhash,?_⟩
    unfold fileOf
    rw [hb]
    rfl
  · have hperm := (List.perm_insertionSort
      (fun left right : WebEntry => collation.le left.relPath right.relPath = true)
      (files.map (entryOf sha))).map (fileOf v)
    have hsame : files.map (fileOf v ∘ entryOf sha) = files := by
      conv_rhs => rw [← List.map_id files]
      exact List.map_congr_left hfile
    rw [List.map_map,hsame] at hperm
    rw [hentries]
    exact hperm

theorem find_manifest {manifests : List WebManifest} (h : (manifests.map WebManifest.id).Nodup)
    (hm : m ∈ manifests) :
    (manifests.find? fun c => c.sourcePath = m.sourcePath ∧ c.id = m.id) = some m := by
  induction manifests with
  | nil => cases hm
  | cons c manifests ih =>
      rw [List.map_cons,List.nodup_cons] at h
      rcases List.mem_cons.mp hm with rfl | hm
      · simp
      · have hne : c.id ≠ m.id := by
          intro heq
          exact h.1 (heq ▸ List.mem_map_of_mem hm)
        rw [List.find?_cons_of_neg (by simp [hne])]
        exact ih h.2 hm

end Entries

section Commands
variable {sha : Sha256} {collation : Collation} {env : WebEnv} {w : Work} {id : Str} {v : Vault}

theorem returns_current {t : Work} {s : WebState} :
    Returns current w s t ↔ s = w.state ∧ t = w := by
  unfold current
  rw [returns_read_bind]
  exact returns_pure

theorem returns_primaryVault (hid : primaryId w.state.config = .ok id)
    (hv : w.state.vaults[id]? = some v) : Returns primaryVault w v w := by
  refine returns_bind.mpr ⟨_,_,returns_current.mpr ⟨rfl,rfl⟩,?_⟩
  refine returns_lift_bind.mpr ⟨id,hid,?_⟩
  rw [member_eq_some.mpr hv]
  exact returns_lift.mpr ⟨rfl,rfl⟩

theorem returns_log (stamp message : Str) (w : Work) :
    Returns (log stamp message) w () (Work.edit (logged stamp message) w) := by
  unfold log
  exact returns_step.mpr rfl

theorem returns_cutVaults (hstrays : w.state.strays = []) (keep : WebManifest → Bool) :
    Returns (cutVaults env keep) w () (Work.edit (cutAll keep) w) := by
  refine returns_bind.mpr ⟨_,_,returns_current.mpr ⟨rfl,rfl⟩,?_⟩
  rw [if_pos hstrays]
  exact returns_step.mpr rfl

theorem returns_cutNewer (hid : primaryId w.state.config = .ok id) (hstrays : w.state.strays = [])
    (keepNewerVersions : Bool) (sourcePath : Str) (selected : WebManifest) :
    ∃ n t, Returns (cutNewer env keepNewerVersions sourcePath selected) w n t ∧
      t.state.files = w.state.files ∧ t.state.strays = [] := by
  unfold cutNewer
  cases keepNewerVersions with
  | true => exact ⟨0,w,returns_pure.mpr ⟨rfl,rfl⟩,rfl,hstrays⟩
  | false =>
      exact ⟨_,Work.edit (cutAll (notNewer sourcePath selected)) w,returns_bind.mpr ⟨_,_,
        returns_current.mpr ⟨rfl,rfl⟩,returns_lift_bind.mpr ⟨id,hid,returns_bind.mpr ⟨(),_,
          returns_cutVaults hstrays _,returns_pure.mpr ⟨rfl,rfl⟩⟩⟩⟩,rfl,hstrays⟩

/-- A version of the first vault whose files can be read is restored. -/
theorem returns_restoreVersion (hid : primaryId w.state.config = .ok id)
    (hv : w.state.vaults[id]? = some v) (hstrays : w.state.strays = []) {m : WebManifest}
    (hm : m ∈ v.manifests) (hnodup : (v.manifests.map WebManifest.id).Nodup) {files : List WebFile}
    (hfiles : m.entries.mapM (restoreEntry sha v) = .ok files) (keepNewerVersions : Bool) :
    ∃ reply t, Returns (restoreVersion sha env (some ⟨m.sourcePath,m.id⟩) keepNewerVersions) w reply t ∧
      t.state.files = files ∧ t.state.strays = [] := by
  have hvault := returns_primaryVault hid hv
  have hfound : Returns (manifestById m.sourcePath m.id) w m w := by
    refine returns_bind.mpr ⟨v,w,hvault,returns_lift.mpr ⟨?_,rfl⟩⟩
    exact orElse_eq_ok.mpr (find_manifest hnodup hm)
  have hrestored : Returns (restoredFiles sha m.entries) w files w :=
    returns_bind.mpr ⟨v,w,hvault,returns_lift.mpr ⟨hfiles,rfl⟩⟩
  obtain ⟨n,t,hcut,hsame,hleft⟩ := @returns_cutNewer env
    (Work.edit (fun s => {s with files := files}) w) id hid hstrays keepNewerVersions m.sourcePath m
  refine ⟨.restored ⟨files.length,w.state.files.length-files.length,((files.map fun file =>
    folderOf file.relPath).filter fun folder => folder ≠ []).eraseDups.length,n⟩,Work.edit
    (logged (env.stamp 0) ("restored ".toList++num files.length++" files from ".toList++m.id++
      " into the browser workspace; ".toList++num n++" newer versions removed".toList))
    (Work.edit (fun s => {s with integrity := .healthy}) t),?_,(logged_files _ _ _).trans hsame,
    (logged_strays _ _ _).trans hleft⟩
  refine returns_lift_bind.mpr ⟨_,rfl,?_⟩
  refine returns_bind.mpr ⟨m,w,hfound,?_⟩
  refine returns_bind.mpr ⟨files,w,hrestored,?_⟩
  refine returns_bind.mpr ⟨_,_,returns_current.mpr ⟨rfl,rfl⟩,?_⟩
  refine returns_bind.mpr ⟨(),_,returns_step.mpr rfl,?_⟩
  refine returns_bind.mpr ⟨n,t,hcut,?_⟩
  refine returns_bind.mpr ⟨(),_,returns_step.mpr rfl,?_⟩
  exact returns_bind.mpr ⟨(),_,returns_log _ _ _,returns_pure.mpr ⟨rfl,rfl⟩⟩

theorem returns_mutate (hsave : env.storage ≠ .fails) {s : Session} {op : Op Reply} {reply : Reply}
    {t : Work} (h : Returns op s.work reply t) (hstrays : t.state.strays = []) :
    ∃ u, Returns (mutate env op) s reply u ∧ u.work = t := by
  have hop : Returns (onWork op) s reply {s with work := t} := returns_zoom.mpr ⟨t,h,rfl⟩
  have hpersist : ∃ u, Returns (persistState env) {s with work := t} () u ∧ u.work = t := by
    unfold persistState
    cases hstorage : env.storage with
    | absent => exact ⟨_,returns_pure.mpr ⟨rfl,rfl⟩,rfl⟩
    | works =>
        refine ⟨_,returns_read_bind.mpr (returns_check_bind.mpr ⟨?_,returns_step.mpr rfl⟩),rfl⟩
        change t.state.strays.isEmpty = true
        rw [hstrays]
        rfl
    | fails => exact absurd hstorage hsave
  obtain ⟨u,hsaved,hwork⟩ := hpersist
  refine ⟨u,returns_bind.mpr ⟨_,_,hop,?_⟩,hwork⟩
  exact returns_bind.mpr ⟨(),u,hsaved,returns_pure.mpr ⟨rfl,rfl⟩⟩

/-- A listed version is a manifest of the first vault. -/
theorem mem_of_listed {folders : List FolderVersions} {t : Work}
    (h : Returns listVersions w (.versions folders) t) {folder : FolderVersions}
    (hfolder : folder ∈ folders) {version : Str × Nat} (hversion : version ∈ folder.versions) :
    t = w ∧ ∃ id v, primaryId w.state.config = .ok id ∧ w.state.vaults[id]? = some v ∧
      ∃ m ∈ v.manifests, m.sourcePath = folder.sourcePath ∧ m.id = version.1 := by
  obtain ⟨v,u,hvault,hreply⟩ := returns_bind.mp h
  obtain ⟨heq,rfl⟩ := returns_pure.mp hreply
  cases heq
  obtain ⟨source,-,rfl⟩ := List.mem_map.mp hfolder
  obtain ⟨m,hm,rfl⟩ := List.mem_map.mp hversion
  have hmem := (List.perm_insertionSort _ _).subset hm
  have hsource : m.sourcePath = source := of_decide_eq_true (List.mem_filter.mp hmem).2
  have hmanifest := List.mem_of_mem_filter hmem
  obtain ⟨s,w',hcurrent,hvault⟩ := returns_bind.mp hvault
  obtain ⟨rfl,rfl⟩ := returns_current.mp hcurrent
  obtain ⟨id,hid,hvault⟩ := returns_lift_bind.mp hvault
  cases hfound : member w'.state id with
  | some found =>
      rw [hfound] at hvault
      obtain ⟨hv,rfl⟩ := returns_lift.mp hvault
      rw [orElse_eq_ok.mp hv] at hfound
      exact ⟨rfl,id,v,hid,member_eq_some.mp hfound,m,hmanifest,hsource,rfl⟩
  | none =>
      rw [hfound] at hvault
      obtain ⟨_,_,-,hvault⟩ := returns_bind.mp hvault
      obtain ⟨rfl,-⟩ := returns_pure.mp hvault
      cases hmanifest

end Commands

section Claims
variable {sha : Sha256} {collation : Collation} {involved : Set Bytes} {s : Session}

/-- In every vault the blobs of the manifests are there and have their hashes, and no id occurs
twice. -/
def VaultsSound (sha : Sha256) (s : Session) : Prop :=
  ∀ (id : Str) (v : Vault), s.work.state.vaults[id]? = some v →
    (∀ m ∈ v.manifests, ∀ e ∈ m.entries, ∃ b, v.blobs[e.sha256]? = some b ∧
      sha256Hex sha b = e.sha256) ∧ (v.manifests.map WebManifest.id).Nodup

/-- Every version that is listed can be restored to the files the workspace had when it was made. -/
def ListedRestorable (sha : Sha256) (collation : Collation) (s : Session) : Prop :=
  ∀ env folders t, Returns (invokeWebCommand sha collation env .listVersions) s (.versions folders) t →
    ∀ folder ∈ folders, ∀ version ∈ folder.versions, ∀ (env' : WebEnv) (keepNewerVersions : Bool),
      env'.storage ≠ .fails →
      ∃ reply u files, Returns (invokeWebCommand sha collation env'
          (.restoreVersion (some ⟨folder.sourcePath,version.1⟩) keepNewerVersions)) t reply u ∧
        s.work.history.lookup version.1 = some files ∧ u.work.state.files.Perm files

theorem vaults_stay_sound (hinj : Set.InjOn (sha256Hex sha) involved)
    (h : Reached sha collation involved s) : VaultsSound sha s ∧ ListedRestorable sha collation s := by
  obtain ⟨hsound,hplain⟩ := backed_of_reached h
  refine ⟨?_,?_⟩
  · intro id v hv
    obtain ⟨hvault,-⟩ := hsound.vaults id v hv
    refine ⟨?_,hvault.ids⟩
    intro m hm e he
    obtain ⟨b,-,hb,hhash⟩ := hvault.blob hm he
    exact ⟨b,hb,hhash⟩
  · intro env folders t hlist folder hfolder version hversion env' keepNewerVersions hsave
    obtain ⟨w,hlisted,rfl⟩ := returns_zoom.mp hlist
    obtain ⟨rfl,id,v,hid,hv,m,hm,hsource,hversion⟩ := mem_of_listed hlisted hfolder hversion
    obtain ⟨hvault,-⟩ := hsound.vaults id v hv
    obtain ⟨files,hlookup,hrestored,hperm⟩ := hvault.restored hinj hm
    obtain ⟨reply,t,hreturns,hfiles,hstrays⟩ := @returns_restoreVersion sha env' s.work id v hid hv
      hplain.strays m hm hvault.ids _ hrestored keepNewerVersions
    obtain ⟨u,hmutate,rfl⟩ := returns_mutate hsave hreturns hstrays
    rw [← hsource,← hversion]
    refine ⟨reply,u,files,hmutate,hlookup,?_⟩
    rw [hfiles]
    exact hperm

end Claims

section Seeded

/-- The contents of a new workspace with digests of their own. -/
def seedList : List Bytes := newArchitecture::(seedFiles 0).map WebFile.bytes

def seedSha : Sha256 := .ofTable (seedList.zipIdx.map fun b =>
  (b.1,Vector.replicate 32 (UInt8.ofNat (b.2+1))))

def plainOrder : Collation := ⟨fun _ _ => true,id⟩

def calmEnv : WebEnv := ⟨fun i => 1700000000+i,fun _ => "now".toList,.works,fun _ => true⟩

def seedSession (sha : Sha256) : Session := ⟨seedState sha plainOrder calmEnv [],none⟩

theorem mem_seedList {b : Bytes} (h : b ∈ seedContents) : b ∈ seedList := by
  rcases h with rfl | ⟨f,hf,rfl⟩
  · exact List.mem_cons_self
  · exact List.mem_cons_of_mem _ (List.mem_map_of_mem hf)

theorem injOn_seedSha : Set.InjOn (sha256Hex seedSha) seedContents := by
  have hall : ∀ a ∈ seedList, ∀ b ∈ seedList, sha256Hex seedSha a = sha256Hex seedSha b → a = b := by
    decide +kernel
  exact fun a ha b hb => hall a (mem_seedList ha) b (mem_seedList hb)

theorem vaults_stay_sound_seed :
    VaultsSound seedSha (seedSession seedSha) ∧ ListedRestorable seedSha plainOrder (seedSession seedSha) :=
  vaults_stay_sound injOn_seedSha (.seed calmEnv none (subset_refl _))

/-- The seed configuration with other destinations. -/
def destinationsConfig (destinations : List WebDestination) : WebConfig :=
  {defaultConfig with destinations := some destinations}

/-- The configuration is saved in a new workspace, a note is written and a backup runs. -/
def notedSession (config : WebConfig) : Session :=
  let saved := (invokeWebCommand seedSha plainOrder calmEnv (.saveConfig (some ⟨config,true⟩))
    (seedSession seedSha)).store
  let written := (invokeWebCommand seedSha plainOrder calmEnv
    (.writeFile "notes.txt".toList "hello".toList) saved).store
  (invokeWebCommand seedSha plainOrder calmEnv .runNow written).store

/-- The first destination twice. -/
def doubledSession : Session := notedSession (destinationsConfig
  [⟨"primary".toList,[],"browser-vault://primary".toList⟩,
    ⟨"primary".toList,[],"browser-vault://mirror".toList⟩])

/-- A second destination with the name of an inherited member. -/
def inheritedSession : Session := notedSession (destinationsConfig
  [⟨"primary".toList,[],"browser-vault://primary".toList⟩,
    ⟨"constructor".toList,[],"browser-vault://mirror".toList⟩])

def portfolio : Str := "/Browser Workspace/Portfolio".toList

def listing : Action Session WebError Reply := invokeWebCommand seedSha plainOrder calmEnv .listVersions

def restoreOldest : Action Session WebError Reply :=
  invokeWebCommand seedSha plainOrder calmEnv
    (.restoreVersion (some ⟨portfolio,"v1700000001-1".toList⟩) false)

def primaryVersions (s : Session) : Option (List Str) :=
  s.work.state.vaults["primary".toList]?.map fun v => v.manifests.map WebManifest.id

theorem injOn_noted : Set.InjOn (sha256Hex seedSha) ({utf8 "hello".toList} ∪ seedContents) := by
  have hall : ∀ a ∈ utf8 "hello".toList::seedList, ∀ b ∈ utf8 "hello".toList::seedList,
      sha256Hex seedSha a = sha256Hex seedSha b → a = b := by decide +kernel
  have hmem : ∀ b ∈ ({utf8 "hello".toList} ∪ seedContents : Set Bytes),
      b ∈ utf8 "hello".toList::seedList := by
    rintro b (rfl | hb)
    · exact List.mem_cons_self
    · exact List.mem_cons_of_mem _ (mem_seedList hb)
  exact fun a ha b hb => hall a (hmem a ha) b (hmem b hb)

/-- No two of the contents have one hash. With the first destination twice the version that is made
then is in the vault twice; with a destination named after an inherited member it is in the first
vault although the backup failed, and a listed version is not restored any more. -/
theorem doubled_destination_repeats_id :
    Set.InjOn (sha256Hex seedSha) ({utf8 "hello".toList} ∪ seedContents) ∧
    (primaryVersions doubledSession = some ["v1700000004-3".toList,"v1700000004-3".toList,
      "v1700000003-2".toList,"v1700000001-1".toList] ∧ ¬ VaultsSound seedSha doubledSession) ∧
    primaryVersions inheritedSession = some ["v1700000004-3".toList,"v1700000003-2".toList,
      "v1700000001-1".toList] ∧
    (restoreOldest inheritedSession).result = .error .typeError ∧
    ¬ ListedRestorable seedSha plainOrder inheritedSession := by
  have hids : primaryVersions doubledSession = some ["v1700000004-3".toList,"v1700000004-3".toList,
      "v1700000003-2".toList,"v1700000001-1".toList] := by decide +kernel
  have hfails : (restoreOldest inheritedSession).result = .error .typeError := by decide +kernel
  refine ⟨injOn_noted,⟨hids,?_⟩,by decide +kernel,hfails,?_⟩
  · intro h
    obtain ⟨v,hv,hlist⟩ := Option.map_eq_some_iff.mp hids
    have hnodup := (h "primary".toList v hv).2
    rw [hlist] at hnodup
    exact absurd hnodup (by decide)
  · intro h
    have hlisted : (listing inheritedSession).result = .ok (.versions [⟨portfolio,
        [("v1700000004-3".toList,1700000004),("v1700000003-2".toList,1700000003),
          ("v1700000001-1".toList,1700000001)]⟩]) := by decide +kernel
    have hthen : (restoreOldest (listing inheritedSession).store).result = .error .typeError := by
      decide +kernel
    obtain ⟨reply,u,files,⟨hresult,-⟩,-⟩ := h calmEnv _ _ ⟨hlisted,rfl⟩ _ List.mem_cons_self
      ("v1700000001-1".toList,1700000001) (by decide) calmEnv false (by decide)
    cases hthen.symm.trans hresult

end Seeded

end BackupSync.WebEngine
