import BackupSync.WebSteps

/-!
# Versions of the browser engine and their restoration

Every blob of a vault has the hash it is stored under, every blob of a manifest is
there, and the entries of a manifest are those of the workspace when the version was
made. All commands but the one that damages a blob on purpose keep this, as long as
no saved configuration gives two destinations the same id, or one of them the name of
an inherited member: the vault of the one would get each version twice, and a backup
would fail at the other after those before it got the version.
-/
namespace BackupSync.WebEngine
open Checks Interruptible ContentHash

section Files

/-- Files with safe paths, one file for each path, and with contents that are involved. -/
structure Safe (involved : Set Bytes) (files : List WebFile) : Prop where
  paths : (files.map WebFile.relPath).Nodup
  valid : ∀ f ∈ files, validateRestorePath f.relPath = .ok ()
  known : ∀ f ∈ files, f.bytes ∈ involved

variable {involved : Set Bytes} {files files' : List WebFile} {f : WebFile}

theorem Safe.perm (h : Safe involved files) (hperm : files'.Perm files) : Safe involved files' := by
  refine ⟨?_,?_,?_⟩
  · exact (hperm.map WebFile.relPath).nodup_iff.mpr h.paths
  · exact fun f hf => h.valid f (hperm.subset hf)
  · exact fun f hf => h.known f (hperm.subset hf)

theorem Safe.filter (h : Safe involved files) (p : WebFile → Bool) :
    Safe involved (files.filter p) := by
  refine ⟨?_,?_,?_⟩
  · exact h.paths.sublist (List.filter_sublist.map _)
  · exact fun f hf => h.valid f (List.mem_of_mem_filter hf)
  · exact fun f hf => h.known f (List.mem_of_mem_filter hf)

theorem Safe.append (h : Safe involved files) (hvalid : validateRestorePath f.relPath = .ok ())
    (hknown : f.bytes ∈ involved) (hnew : f.relPath ∉ files.map WebFile.relPath) :
    Safe involved (files++[f]) := by
  refine ⟨?_,?_,?_⟩
  · rw [List.map_append,List.map_singleton,← List.concat_eq_append,List.nodup_concat]
    exact ⟨hnew,h.paths⟩
  · intro g hg
    rcases List.mem_append.mp hg with hg | hg
    · exact h.valid g hg
    · rw [List.mem_singleton.mp hg]
      exact hvalid
  · intro g hg
    rcases List.mem_append.mp hg with hg | hg
    · exact h.known g hg
    · rw [List.mem_singleton.mp hg]
      exact hknown

theorem map_relPath_replace (f : WebFile) (files : List WebFile) :
    (files.map fun g => if g.relPath = f.relPath then f else g).map WebFile.relPath =
      files.map WebFile.relPath := by
  rw [List.map_map]
  apply List.map_congr_left
  intro g _
  by_cases hg : g.relPath = f.relPath
  · simp [hg]
  · simp [hg]

theorem Safe.setFile (h : Safe involved files) (hvalid : validateRestorePath f.relPath = .ok ())
    (hknown : f.bytes ∈ involved) : Safe involved (setFile files f) := by
  unfold WebEngine.setFile
  split
  · refine ⟨?_,?_,?_⟩
    · rw [map_relPath_replace]
      exact h.paths
    · intro g hg
      obtain ⟨g',hg',rfl⟩ := List.mem_map.mp hg
      split
      · exact hvalid
      · exact h.valid g' hg'
    · intro g hg
      obtain ⟨g',hg',rfl⟩ := List.mem_map.mp hg
      split
      · exact hknown
      · exact h.known g' hg'
  · rename_i hnew
    refine h.append hvalid hknown ?_
    simpa using hnew

theorem Safe.foldl_setFile (h : Safe involved files)
    (hmore : ∀ f ∈ files', validateRestorePath f.relPath = .ok () ∧ f.bytes ∈ involved) :
    Safe involved (files'.foldl WebEngine.setFile files) := by
  induction files' generalizing files with
  | nil => exact h
  | cons f rest ih =>
      obtain ⟨hvalid,hknown⟩ := hmore f List.mem_cons_self
      exact ih (h.setFile hvalid hknown) fun g hg => hmore g (List.mem_cons_of_mem _ hg)

theorem safe_nil : Safe involved [] := ⟨List.nodup_nil,by simp,by simp⟩

theorem Safe.byPath (h : Safe involved files) : Safe involved (byPath files) :=
  safe_nil.foldl_setFile fun f hf => ⟨h.valid f hf,h.known f hf⟩

theorem Safe.sortFiles (h : Safe involved files) (collation : Collation) :
    Safe involved (sortFiles collation files) := h.perm (List.perm_insertionSort _ _)

theorem Safe.replaceFile (h : Safe involved files) {path : Str} {bytes : Bytes} {mtime : Int}
    (hknown : bytes ∈ involved) : Safe involved (replaceFile path bytes mtime files) := by
  have hpaths : ∀ files : List WebFile, (WebEngine.replaceFile path bytes mtime files).map
      WebFile.relPath = files.map WebFile.relPath := by
    intro files
    induction files with
    | nil => rfl
    | cons g files ih =>
        rw [WebEngine.replaceFile]
        split
        · rename_i hg
          rw [List.map_cons,List.map_cons,hg]
        · rw [List.map_cons,List.map_cons,ih]
  have hbytes : ∀ files : List WebFile, (∀ f ∈ files, f.bytes ∈ involved) →
      ∀ f ∈ WebEngine.replaceFile path bytes mtime files, f.bytes ∈ involved := by
    intro files hall
    induction files with
    | nil => exact hall
    | cons g files ih =>
        rw [WebEngine.replaceFile]
        have hrest := fun f hf => hall f (List.mem_cons_of_mem _ hf)
        split
        · exact List.forall_mem_cons.mpr ⟨hknown,hrest⟩
        · exact List.forall_mem_cons.mpr ⟨hall g List.mem_cons_self,ih hrest⟩
  refine ⟨?_,?_,hbytes files h.known⟩
  · rw [hpaths]
    exact h.paths
  · intro f hf
    have hmem : f.relPath ∈ files.map WebFile.relPath := by
      rw [← hpaths files]
      exact List.mem_map_of_mem hf
    obtain ⟨g,hg,hpath⟩ := List.mem_map.mp hmem
    rw [← hpath]
    exact h.valid g hg

theorem Safe.writtenFile {s : WebState} (h : Safe involved s.files) {collation : Collation} {path : Str}
    (hvalid : validateRestorePath path = .ok ()) {bytes : Bytes} (hknown : bytes ∈ involved)
    {mtime : Int} : Safe involved (writtenFile collation path bytes mtime s).files := by
  change Safe involved (if _ then _ else _)
  split
  · exact h.replaceFile hknown
  · rename_i hnew
    refine Safe.sortFiles (h.append hvalid hknown ?_) collation
    simpa using hnew

theorem find_file (h : (files.map WebFile.relPath).Nodup) (hf : f ∈ files) :
    (files.find? fun file => file.relPath = f.relPath) = some f := by
  induction files with
  | nil => cases hf
  | cons g files ih =>
      rw [List.map_cons,List.nodup_cons] at h
      rcases List.mem_cons.mp hf with rfl | hf
      · simp
      · have hne : g.relPath ≠ f.relPath := by
          intro heq
          exact h.1 (heq ▸ List.mem_map_of_mem hf)
        rw [List.find?_cons_of_neg (by simpa using hne)]
        exact ih h.2 hf

end Files

section Vaults
variable {sha : Sha256} {collation : Collation} {involved : Set Bytes}

theorem mem_planEntries {files : List WebFile} {e : WebEntry} :
    e ∈ planEntries sha collation files ↔ ∃ f ∈ files, entryOf sha f = e := by
  unfold planEntries
  rw [(List.perm_insertionSort _ _).mem_iff,List.mem_map]

/-- A vault whose blobs have their hashes and whose manifests are complete and tell the workspace
they were made of. -/
structure BackedVault (sha : Sha256) (collation : Collation) (involved : Set Bytes)
    (history : List (Str × List WebFile)) (v : Vault) : Prop where
  hashed : ∀ (hash : Str) (b : Bytes), v.blobs[hash]? = some b → b ∈ involved ∧ sha256Hex sha b = hash
  complete : ∀ m ∈ v.manifests, ∀ e ∈ m.entries, e.sha256 ∈ v.blobs
  ids : (v.manifests.map WebManifest.id).Nodup
  created : ∀ m ∈ v.manifests, ∃ files, history.lookup m.id = some files ∧
    m.entries = planEntries sha collation files ∧ Safe involved files

/-- The numbers in the ids of a vault are below a bound. -/
def Issued (n : Nat) (v : Vault) : Prop :=
  ∀ m ∈ v.manifests, ∃ t q, m.id = versionIdOf t q ∧ q < n

variable {history : List (Str × List WebFile)} {v : Vault} {files : List WebFile} {n : Nat}

theorem backedVault_newVault : BackedVault sha collation involved history newVault := by
  constructor <;> simp [newVault]

theorem issued_newVault : Issued n newVault := by simp [Issued,newVault]

theorem Issued.ne (h : Issued n v) {m : WebManifest} (hm : m ∈ v.manifests) (t : Nat) :
    m.id ≠ versionIdOf t n := by
  obtain ⟨t',q,hid,hq⟩ := h m hm
  intro heq
  have := versionIdOf_sequence (hid.symm.trans heq)
  omega

theorem BackedVault.cut (h : BackedVault sha collation involved history v) (keep : WebManifest → Bool) :
    BackedVault sha collation involved history (cut keep v) := by
  have hmanifests : (WebEngine.cut keep v).manifests = v.manifests.filter keep := rfl
  refine ⟨?_,?_,?_,?_⟩
  · intro hash b hb
    rw [getElem?_cut] at hb
    split at hb
    · exact h.hashed hash b hb
    · cases hb
  · intro m hm e he
    rw [hmanifests] at hm
    have hold := h.complete m (List.mem_of_mem_filter hm) e he
    rw [mem_iff_isSome_getElem?] at hold ⊢
    rw [getElem?_cut,if_pos (mem_referenced.mpr ⟨m,hm,e,he,rfl⟩)]
    exact hold
  · rw [hmanifests]
    exact h.ids.sublist (List.filter_sublist.map _)
  · intro m hm
    rw [hmanifests] at hm
    exact h.created m (List.mem_of_mem_filter hm)

theorem Issued.cut (h : Issued n v) (keep : WebManifest → Bool) : Issued n (cut keep v) :=
  fun m hm => h m (List.mem_of_mem_filter hm)

theorem Issued.mono {k : Nat} (h : Issued n v) (hle : n ≤ k) : Issued k v := by
  intro m hm
  obtain ⟨t,q,hid,hq⟩ := h m hm
  exact ⟨t,q,hid,by omega⟩

/-- A new version does not change what the history says about the versions of a vault. -/
theorem BackedVault.grow (h : BackedVault sha collation involved history v) (hissued : Issued n v)
    (t : Nat) (files : List WebFile) :
    BackedVault sha collation involved ((versionIdOf t n,files)::history) v := by
  refine ⟨h.hashed,h.complete,h.ids,?_⟩
  intro m hm
  obtain ⟨files',hlookup,hrest⟩ := h.created m hm
  refine ⟨files',?_,hrest⟩
  rw [List.lookup_cons,beq_false_of_ne (hissued.ne hm t)]
  exact hlookup

theorem issued_stored {keep : Nat} {manifest : WebManifest} {t : Nat} (h : Issued n v)
    (hid : manifest.id = versionIdOf t n) : Issued (n+1) (storedVault files keep manifest v) := by
  intro m hm
  rcases List.mem_append.mp (mem_prune hm) with hm | hm
  · exact h.mono (Nat.le_succ n) m hm
  · rw [List.mem_singleton.mp hm]
    exact ⟨t,n,hid,Nat.lt_succ_self n⟩

/-- A version of the workspace is stored completely. -/
theorem BackedVault.stored (h : BackedVault sha collation involved history v) (hissued : Issued n v)
    (hsafe : Safe involved files) {keep : Nat} {manifest : WebManifest} {t : Nat}
    (hid : manifest.id = versionIdOf t n)
    (hentries : manifest.entries = planEntries sha collation files) :
    BackedVault sha collation involved ((manifest.id,files)::history)
      (storedVault files keep manifest v) := by
  have hgrown : BackedVault sha collation involved ((manifest.id,files)::history) v := by
    rw [hid]
    exact h.grow hissued t files
  have hfind : ∀ e ∈ manifest.entries, ∃ f ∈ files, entryOf sha f = e ∧
      (files.find? fun file => file.relPath = e.relPath) = some f := by
    intro e he
    rw [hentries] at he
    obtain ⟨f,hf,rfl⟩ := mem_planEntries.mp he
    exact ⟨f,hf,rfl,find_file hsafe.paths hf⟩
  have hcases : ∀ m ∈ (storedVault files keep manifest v).manifests, m ∈ v.manifests ∨ m = manifest :=
    fun m hm => (List.mem_append.mp (mem_prune hm)).imp_right List.mem_singleton.mp
  refine ⟨?_,?_,?_,?_⟩
  · intro hash b hb
    rcases withBlobs_cases hb with hb | ⟨e,he,rfl,f,hf,rfl⟩
    · exact h.hashed hash b hb
    · obtain ⟨f',hf',rfl,hfound⟩ := hfind e he
      rw [hfound] at hf
      cases hf
      exact ⟨hsafe.known _ hf',rfl⟩
  · intro m hm e he
    rcases hcases m hm with hm | rfl
    · have hold := h.complete m hm e he
      rw [mem_iff_isSome_getElem?] at hold
      obtain ⟨b,hb⟩ := Option.isSome_iff_exists.mp hold
      have hnow := @getElem?_withBlobs_of_mem files manifest.entries _ _ _ hb
      exact mem_of_getElem? hnow
    · obtain ⟨f,-,-,hf⟩ := hfind e he
      exact mem_withBlobs he hf
  · obtain ⟨whole,hperm,hsub⟩ :=
      prune_subperm keep manifest.sourcePath (v.manifests++[manifest])
    refine List.Nodup.sublist (hsub.map WebManifest.id) ?_
    rw [(hperm.map WebManifest.id).nodup_iff,List.map_append,List.map_singleton,
      ← List.concat_eq_append,List.nodup_concat]
    refine ⟨?_,h.ids⟩
    intro hmem
    obtain ⟨m,hm,heq⟩ := List.mem_map.mp hmem
    exact hissued.ne hm t (heq.trans hid)
  · intro m hm
    rcases hcases m hm with hm | rfl
    · exact hgrown.created m hm
    · exact ⟨files,by simp,hentries,hsafe⟩

end Vaults

section Works

/-- No two destinations have the same id. -/
def Distinct (config : WebConfig) : Prop :=
  ∀ destinations, config.destinations = some destinations →
    (destinations.map WebDestination.id).Nodup

structure VaultsBacked (sha : Sha256) (collation : Collation) (involved : Set Bytes) (w : Work) : Prop where
  vaults : ∀ (id : Str) (v : Vault), w.state.vaults[id]? = some v →
    BackedVault sha collation involved w.history v ∧ Issued w.state.sequence v
  files : Safe involved w.state.files
  distinct : Distinct w.state.config

variable {sha : Sha256} {collation : Collation} {involved : Set Bytes} {w : Work}

theorem VaultsBacked.vault (h : VaultsBacked sha collation involved w) (id : Str) :
    BackedVault sha collation involved w.history (w.state.vaults[id]?.getD newVault) ∧
      Issued w.state.sequence (w.state.vaults[id]?.getD newVault) := by
  cases hv : w.state.vaults[id]? with
  | none => exact ⟨backedVault_newVault,issued_newVault⟩
  | some v => exact h.vaults id v hv

theorem VaultsBacked.aside {f : WebState → WebState} (hf : Aside f)
    (h : VaultsBacked sha collation involved w) :
    VaultsBacked sha collation involved (Work.edit f w) := by
  refine ⟨?_,?_,?_⟩
  · intro id v hv
    change (f w.state).vaults[id]? = some v at hv
    rw [hf.vaults] at hv
    change BackedVault sha collation involved w.history v ∧ Issued (f w.state).sequence v
    rw [hf.sequence]
    exact h.vaults id v hv
  · change Safe involved (f w.state).files
    rw [hf.files]
    exact h.files
  · change Distinct (f w.state).config
    rw [hf.config]
    exact h.distinct

theorem VaultsBacked.setFiles {f : WebState → WebState} (h : VaultsBacked sha collation involved w)
    (hvaults : (f w.state).vaults = w.state.vaults) (hsafe : Safe involved (f w.state).files)
    (hsequence : (f w.state).sequence = w.state.sequence)
    (hconfig : (f w.state).config = w.state.config) :
    VaultsBacked sha collation involved (Work.edit f w) := by
  refine ⟨?_,hsafe,?_⟩
  · intro id v hv
    change (f w.state).vaults[id]? = some v at hv
    rw [hvaults] at hv
    change BackedVault sha collation involved w.history v ∧ Issued (f w.state).sequence v
    rw [hsequence]
    exact h.vaults id v hv
  · change Distinct (f w.state).config
    rw [hconfig]
    exact h.distinct

theorem VaultsBacked.cutAll (h : VaultsBacked sha collation involved w) (keep : WebManifest → Bool) :
    VaultsBacked sha collation involved (Work.edit (cutAll keep) w) := by
  refine ⟨?_,h.files,h.distinct⟩
  intro id v hv
  change (WebEngine.cutAll keep w.state).vaults[id]? = some v at hv
  rw [getElem?_cutAll] at hv
  obtain ⟨old,hold,rfl⟩ := Option.map_eq_some_iff.mp hv
  obtain ⟨hsound,hissued⟩ := h.vaults id old hold
  exact ⟨hsound.cut keep,hissued.cut keep⟩

/-- A vault is put in the place of another. -/
theorem VaultsBacked.insert (h : VaultsBacked sha collation involved w) {id : Str} {v : Vault}
    (hv : BackedVault sha collation involved w.history v) (hissued : Issued w.state.sequence v) :
    VaultsBacked sha collation involved
      (Work.edit (fun s => {s with vaults := s.vaults.insert id v}) w) := by
  refine ⟨?_,h.files,h.distinct⟩
  intro id' v' hv'
  change (w.state.vaults.insert id v)[id']? = some v' at hv'
  by_cases hid : id = id'
  · subst hid
    rw [getElem?_insert_self] at hv'
    cases hv'
    exact ⟨hv,hissued⟩
  · rw [getElem?_insert_of_ne (Ne.symm hid)] at hv'
    exact h.vaults id' v' hv'

theorem VaultsBacked.useConfig (h : VaultsBacked sha collation involved w) {config : WebConfig}
    (hconfig : Distinct config) (next : Option Str) :
    VaultsBacked sha collation involved (Work.edit (useConfig config next) w) :=
  ⟨h.vaults,h.files,hconfig⟩

variable {destinations : List WebDestination}

theorem VaultsBacked.promote (h : VaultsBacked sha collation involved w) (hplain : Plain w.state)
    (hd : w.state.config.destinations = some destinations) {main other : WebDestination}
    {existing : Nat} (hmain : destinations[0]? = some main)
    (hother : destinations[existing]? = some other) :
    VaultsBacked sha collation involved (Work.edit (promote destinations main other existing) w) := by
  rw [Work.edit,hplain.promote_eq hd hmain hother]
  refine ⟨?_,h.files,?_⟩
  · intro id v hv
    change ((w.state.vaults.insert main.id _).insert other.id _)[id]? = some v at hv
    by_cases hother : other.id = id
    · subst hother
      rw [getElem?_insert_self] at hv
      cases hv
      exact h.vault main.id
    · rw [getElem?_insert_of_ne (Ne.symm hother)] at hv
      by_cases hmain : main.id = id
      · subst hmain
        rw [getElem?_insert_self] at hv
        cases hv
        exact h.vault other.id
      · rw [getElem?_insert_of_ne (Ne.symm hmain)] at hv
        exact h.vaults id v hv
  · intro ds hds
    cases hds
    rw [map_id_setPath,map_id_setPath]
    exact h.distinct destinations hd

theorem VaultsBacked.moveTo (h : VaultsBacked sha collation involved w)
    (hd : w.state.config.destinations = some destinations) (index : Nat) (newPath : Str) :
    VaultsBacked sha collation involved (Work.edit (moveTo destinations index newPath) w) := by
  refine ⟨h.vaults,h.files,?_⟩
  intro ds hds
  cases hds
  rw [map_id_setPath]
  exact h.distinct destinations hd

theorem VaultsBacked.commitVersion (h : VaultsBacked sha collation involved w)
    (hd : w.state.config.destinations = some destinations) (now items : Nat) :
    VaultsBacked sha collation involved (commitVersion sha collation now destinations items w) := by
  refine ⟨?_,h.files,h.distinct⟩
  intro id v hv
  change (storeVersions destinations (nextManifest sha collation now w.state) w.state).1[id]? =
    some v at hv
  unfold storeVersions at hv
  rw [getElem?_foldl_storeVersion _ _ (h.distinct destinations hd)] at hv
  split at hv
  · cases hv
    obtain ⟨hsound,hissued⟩ := h.vault id
    exact ⟨hsound.stored hissued h.files rfl rfl,issued_stored hissued rfl⟩
  · obtain ⟨hsound,hissued⟩ := h.vaults id v hv
    exact ⟨hsound.grow hissued _ _,hissued.mono (Nat.le_succ _)⟩

end Works

section Restoration
variable {sha : Sha256} {collation : Collation} {involved : Set Bytes} {v : Vault}

theorem restoreEntry_eq_ok {e : WebEntry} {f : WebFile} : restoreEntry sha v e = .ok f ↔
    validateRestorePath e.relPath = .ok () ∧ ∃ b, v.blobs[e.sha256]? = some b ∧
      sha256Hex sha b = e.sha256 ∧ f = ⟨e.relPath,b,e.mtimeUnix⟩ := by
  unfold restoreEntry
  cases hvalid : validateRestorePath e.relPath with
  | error e =>
      constructor
      · intro h
        cases h
      · rintro ⟨h,-⟩
        cases h
  | ok u =>
      cases hb : v.blobs[e.sha256]? with
      | none =>
          constructor
          · intro h
            cases h
          · rintro ⟨-,b,h,-⟩
            cases h
      | some b =>
          by_cases hhash : sha256Hex sha b = e.sha256
          · constructor
            · intro h
              change (if sha256Hex sha b = e.sha256 then pure _ else throw _ :
                Except WebError WebFile) = _ at h
              rw [if_pos hhash] at h
              cases h
              exact ⟨rfl,b,rfl,hhash,rfl⟩
            · rintro ⟨-,b',hb',-,rfl⟩
              cases hb'
              change (if sha256Hex sha b = e.sha256 then pure _ else throw _ :
                Except WebError WebFile) = _
              rw [if_pos hhash]
              rfl
          · constructor
            · intro h
              change (if sha256Hex sha b = e.sha256 then pure _ else throw _ :
                Except WebError WebFile) = _ at h
              rw [if_neg hhash] at h
              cases h
            · rintro ⟨-,b',hb',hhash',-⟩
              cases hb'
              exact absurd hhash' hhash

/-- Restored files have the paths of the entries, and their contents come from the vault. -/
theorem restored_of_mapM {entries : List WebEntry} {files : List WebFile}
    (h : entries.mapM (restoreEntry sha v) = .ok files) :
    files.map WebFile.relPath = entries.map WebEntry.relPath ∧
      ∀ f ∈ files, validateRestorePath f.relPath = .ok () ∧
        ∃ hash : Str, v.blobs[hash]? = some f.bytes := by
  induction entries generalizing files with
  | nil =>
      cases h
      exact ⟨rfl,by simp⟩
  | cons e entries ih =>
      rw [List.mapM_cons] at h
      obtain ⟨f,hf,h⟩ := bind_eq_ok.mp h
      obtain ⟨rest,hrest,h⟩ := bind_eq_ok.mp h
      cases h
      obtain ⟨hvalid,b,hb,-,rfl⟩ := restoreEntry_eq_ok.mp hf
      obtain ⟨hpaths,hall⟩ := ih hrest
      refine ⟨?_,?_⟩
      · rw [List.map_cons,List.map_cons,hpaths]
      · exact List.forall_mem_cons.mpr ⟨⟨hvalid,e.sha256,hb⟩,hall⟩

/-- The paths of a manifest are those of the workspace it was made of. -/
theorem paths_planEntries (files : List WebFile) :
    ((planEntries sha collation files).map WebEntry.relPath).Perm (files.map WebFile.relPath) := by
  have hperm := (List.perm_insertionSort
    (fun left right : WebEntry => collation.le left.relPath right.relPath = true)
    (files.map (entryOf sha))).map WebEntry.relPath
  rw [List.map_map] at hperm
  exact hperm

/-- Files that are restored are safe. -/
theorem VaultsBacked.restorable {w : Work} (h : VaultsBacked sha collation involved w)
    {entries : List WebEntry}
    {files : List WebFile} (hr : Restorable sha w.state entries files) : Safe involved files := by
  obtain ⟨id,v,m,-,hv,hm,hsub,hfiles⟩ := hr.found
  obtain ⟨hvault,-⟩ := h.vaults id v hv
  obtain ⟨made,-,hentries,hsafe⟩ := hvault.created m hm
  have hpaths : (m.entries.map WebEntry.relPath).Nodup := by
    rw [hentries]
    exact (paths_planEntries made).nodup_iff.mpr hsafe.paths
  obtain ⟨hsame,hall⟩ := restored_of_mapM hfiles
  refine ⟨?_,?_,?_⟩
  · rw [hsame]
    exact hpaths.sublist (hsub.map WebEntry.relPath)
  · exact fun f hf => (hall f hf).1
  · intro f hf
    obtain ⟨-,hash,hb⟩ := hall f hf
    exact (hvault.hashed hash f.bytes hb).1

end Restoration

section Imports
variable {involved : Set Bytes} {env : WebEnv}

theorem validate_of_normalize {path normalized : Str}
    (h : normalizeWorkspacePath path = .ok normalized) :
    validateRestorePath normalized = .ok () := by
  unfold normalizeWorkspacePath at h
  obtain ⟨u,hvalid,h⟩ := bind_eq_ok.mp h
  split at h
  · cases h
  · cases h
    exact hvalid

theorem safe_importFiles {imported : List (ImportedFile × Nat)} {files files' : List WebFile}
    (h : Safe involved files) (hknown : ∀ i ∈ imported, i.1.bytes ∈ involved)
    (hfold : imported.foldlM (importFile env) files = .ok files') : Safe involved files' := by
  induction imported generalizing files with
  | nil =>
      cases hfold
      exact h
  | cons i rest ih =>
      rw [List.foldlM_cons] at hfold
      obtain ⟨next,hnext,hfold⟩ := bind_eq_ok.mp hfold
      refine ih ?_ (fun j hj => hknown j (List.mem_cons_of_mem _ hj)) hfold
      unfold importFile at hnext
      obtain ⟨path,hpath,hnext⟩ := bind_eq_ok.mp hnext
      split at hnext
      · cases hnext
      · cases hnext
        exact h.setFile (validate_of_normalize hpath) (hknown i List.mem_cons_self)

end Imports

section Repairs
variable {sha : Sha256} {collation : Collation} {involved : Set Bytes} {env : WebEnv}
  {history : List (Str × List WebFile)} {v primary : Vault} {hash : Str} {b : Bytes}

theorem BackedVault.insertBlob (h : BackedVault sha collation involved history v) (hb : b ∈ involved)
    (hhash : sha256Hex sha b = hash) :
    BackedVault sha collation involved history {v with blobs := v.blobs.insert hash b} := by
  refine ⟨?_,?_,h.ids,h.created⟩
  · intro hash' b' hb'
    by_cases heq : hash = hash'
    · subst heq
      rw [getElem?_insert_self] at hb'
      cases hb'
      exact ⟨hb,hhash⟩
    · rw [getElem?_insert_of_ne (Ne.symm heq)] at hb'
      exact h.hashed hash' b' hb'
  · intro m hm e he
    exact mem_insert.mpr (.inr (h.complete m hm e he))

theorem BackedVault.repairBlob (h : BackedVault sha collation involved history v)
    (hprimary : BackedVault sha collation involved history primary) (n : Nat) (hash : Str) :
    BackedVault sha collation involved history (repairBlob sha primary (v,n) hash).1 := by
  unfold WebEngine.repairBlob
  split
  · exact h
  split
  · cases hb : primary.blobs[hash]? with
    | none => exact h
    | some b =>
        obtain ⟨hknown,hhash⟩ := hprimary.hashed hash b hb
        exact h.insertBlob hknown hhash
  · exact h

theorem BackedVault.repair (h : BackedVault sha collation involved history v)
    (hprimary : BackedVault sha collation involved history primary) :
    BackedVault sha collation involved history (repairVault sha primary v).1 := by
  have hall : ∀ (hashes : List Str) (repaired : Vault × Nat),
      BackedVault sha collation involved history repaired.1 →
      BackedVault sha collation involved history
        (hashes.foldl (WebEngine.repairBlob sha primary) repaired).1 := by
    intro hashes
    induction hashes with
    | nil => exact fun _ hv => hv
    | cons hash rest ih => exact fun _ hv => ih _ (hv.repairBlob hprimary _ hash)
  exact hall _ _ h

/-- What the files of a new workspace contain. -/
def seedContents : Set Bytes := {b | b = newArchitecture ∨ ∃ f ∈ seedFiles 0, f.bytes = b}

theorem vaultsBacked_createSeedState (hseed : seedContents ⊆ involved) (now : Nat) :
    VaultsBacked sha collation involved ⟨createSeedState now,history⟩ := by
  refine ⟨?_,⟨?_,?_,?_⟩,?_⟩
  · intro id v hv
    change (((∅ : Map Str Vault).insert "primary".toList newVault).insert
      "mirror".toList newVault)[id]? = some v at hv
    have hnew : v = newVault := by
      by_cases hmirror : "mirror".toList = id
      · subst hmirror
        rw [getElem?_insert_self] at hv
        exact (Option.some.inj hv).symm
      · rw [getElem?_insert_of_ne (Ne.symm hmirror)] at hv
        by_cases hprimary : "primary".toList = id
        · subst hprimary
          rw [getElem?_insert_self] at hv
          exact (Option.some.inj hv).symm
        · rw [getElem?_insert_of_ne (Ne.symm hprimary),Std.ExtTreeMap.getElem?_empty] at hv
          cases hv
    rw [hnew]
    exact ⟨backedVault_newVault,issued_newVault⟩
  · change ["README.md".toList,"docs/architecture.md".toList,"src/app.ts".toList].Nodup
    decide
  · intro f hf
    have hpath : f.relPath ∈ ["README.md".toList,"docs/architecture.md".toList,
        "src/app.ts".toList] := List.mem_map_of_mem hf
    have hvalid : ∀ path ∈ ["README.md".toList,"docs/architecture.md".toList,
        "src/app.ts".toList], validateRestorePath path = .ok () := by decide +kernel
    exact hvalid f.relPath hpath
  · intro f hf
    have hsame : (seedFiles (now-120)).map WebFile.bytes = (seedFiles 0).map WebFile.bytes := rfl
    have hbytes : f.bytes ∈ (seedFiles 0).map WebFile.bytes := hsame ▸ List.mem_map_of_mem hf
    obtain ⟨g,hg,heq⟩ := List.mem_map.mp hbytes
    exact hseed (.inr ⟨g,hg,heq⟩)
  · intro destinations hd
    cases hd
    decide

end Repairs

section Runs
variable {sha : Sha256} {collation : Collation} {involved : Set Bytes}

/-- The contents that a command brings into the workspace. -/
def Command.contents : Command → Set Bytes
  | .writeFile _ text => {utf8 text}
  | .importFiles imported => {b | ∃ i ∈ imported, i.bytes = b}
  | .reset => seedContents
  | _ => ∅

/-- No edit of a command takes the soundness away, unless it damages a blob or gives two
destinations the same id. -/
theorem vaultsBacked_edit {c : Command} (hcorrupt : c ≠ .corruptReplica)
    (hcontents : c.contents ⊆ involved)
    (hdistinct : ∀ config, c.config = some config → Distinct config) (w t : Work)
    (h : Edit sha collation c w t) (hplain : Plain w.state)
    (hw : VaultsBacked sha collation involved w) : VaultsBacked sha collation involved t := by
  cases h with
  | aside hf => exact hw.aside hf
  | cut keep => exact hw.cutAll keep
  | missing hid hv => exact hw.insert backedVault_newVault issued_newVault
  | commit now items hd => exact hw.commitVersion hd now items
  | safeMode on => exact ⟨hw.vaults,hw.files,hw.distinct⟩
  | config next hconfig => exact hw.useConfig (hdistinct _ hconfig) next
  | promote hd hmain hother => exact hw.promote hplain hd hmain hother
  | moveTo index newPath hd => exact hw.moveTo hd index newPath
  | restore hr => exact hw.setFiles rfl (hw.restorable hr) rfl rfl
  | merge hr =>
      have hsafe := hw.restorable hr
      refine hw.setFiles rfl (Safe.sortFiles ?_ collation) rfl rfl
      exact hw.files.byPath.foldl_setFile fun f hf => ⟨hsafe.valid f hf,hsafe.known f hf⟩
  | write mtime hpath =>
      refine hw.setFiles rfl ?_ rfl rfl
      exact hw.files.writtenFile (validate_of_normalize hpath) (hcontents rfl)
  | delete keep => exact hw.setFiles rfl (hw.files.filter keep) rfl rfl
  | importing env hfiles =>
      refine hw.setFiles rfl (Safe.sortFiles ?_ collation) rfl rfl
      refine safe_importFiles hw.files.byPath ?_ hfiles
      intro i hi
      obtain ⟨-,-,himported⟩ := List.mem_zipIdx hi
      rw [himported]
      exact hcontents ⟨_,List.getElem_mem _,rfl⟩
  | damage => exact absurd rfl hcorrupt
  | repair hprimary hmirror =>
      obtain ⟨hsource,-⟩ := hw.vaults _ _ hprimary
      obtain ⟨hvault,hissued⟩ := hw.vaults _ _ hmirror
      refine hw.insert (hvault.repair hsource) ?_
      unfold Issued
      rw [manifests_repairVault]
      exact hissued
  | fresh env => exact vaultsBacked_createSeedState hcontents _
  | architecture now =>
      exact hw.setFiles rfl (hw.files.replaceFile (hcontents (.inl rfl))) rfl rfl
  | stray hstray => exact absurd hplain hstray

/-- The invariant of a session: its vaults are sound and its record holds vaults only. -/
def Backed (sha : Sha256) (collation : Collation) (involved : Set Bytes) (w : Work) : Prop :=
  VaultsBacked sha collation involved w ∧ Plain w.state

theorem backed_edit {c : Command} (hcorrupt : c ≠ .corruptReplica) (hcontents : c.contents ⊆ involved)
    (hsaved : ∀ config, c.config = some config → Distinct config ∧ OwnNames config) (w t : Work)
    (h : Edit sha collation c w t) (hw : Backed sha collation involved w) :
    Backed sha collation involved t :=
  ⟨vaultsBacked_edit hcorrupt hcontents (fun config hc => (hsaved config hc).1) w t h hw.2 hw.1,
    plain_edit (fun config hc => (hsaved config hc).2) w t h hw.2⟩

theorem backed_seedState (hseed : seedContents ⊆ involved) (env : WebEnv)
    (history : List (Str × List WebFile)) :
    Backed sha collation involved (seedState sha collation env history) := by
  refine edits_seedState (backed_edit ?_ hseed ?_)
    ⟨vaultsBacked_createSeedState hseed _,rfl,ownNames_defaultConfig⟩
  · intro h
    cases h
  · intro config h
    cases h

/-- The sessions that commands reach from a new workspace, where no blob is damaged on purpose, no two
destinations of a saved configuration have the same id and none the name of an inherited member. -/
inductive Reached (sha : Sha256) (collation : Collation) (involved : Set Bytes) : Session → Prop where
  | seed (env : WebEnv) (persisted : Option WebState) : seedContents ⊆ involved →
      Reached sha collation involved ⟨seedState sha collation env [],persisted⟩
  | command {s : Session} (c : Command) (env : WebEnv) : Reached sha collation involved s →
      c ≠ .corruptReplica → c.contents ⊆ involved →
      (∀ config, c.config = some config → Distinct config ∧ OwnNames config) →
      Reached sha collation involved (invokeWebCommand sha collation env c s).store

theorem backed_of_reached {s : Session} (h : Reached sha collation involved s) :
    Backed sha collation involved s.work := by
  induction h with
  | seed env persisted hseed => exact backed_seedState hseed env []
  | command c env _ hcorrupt hcontents hsaved ih =>
      have hkeeps := @keeps_of_edits sha collation env _ c (backed_edit hcorrupt hcontents hsaved)
      exact hkeeps.store ih

end Runs

end BackupSync.WebEngine
