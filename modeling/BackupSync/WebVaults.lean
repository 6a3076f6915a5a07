import BackupSync.WebEngine

/-!
# The vaults of the browser engine

What each operation on a vault leaves of its manifests and blobs. A manifest is
never changed: a version is stored once in the vault of each destination, old
versions are dropped, and blobs go only when no manifest of their vault refers to
them. Version ids carry a number that only grows, so an id is not issued twice.
-/
namespace BackupSync.WebEngine
open Checks

section Logs
variable (stamp message : Str) (s : WebState)

@[simp] theorem logged_vaults : (logged stamp message s).vaults = s.vaults := by simp only [logged]

@[simp] theorem logged_files : (logged stamp message s).files = s.files := by simp only [logged]

@[simp] theorem logged_sequence : (logged stamp message s).sequence = s.sequence := by
  simp only [logged]

@[simp] theorem logged_strays : (logged stamp message s).strays = s.strays := by simp only [logged]

@[simp] theorem logged_config : (logged stamp message s).config = s.config := by simp only [logged]

end Logs

section Members

/-- No destination has the name of a member that every object inherits. -/
def OwnNames (config : WebConfig) : Prop :=
  ∀ destinations, config.destinations = some destinations →
    (destinations.map WebDestination.id).Disjoint inheritedNames

/-- The record of vaults holds vaults only, and it is asked for no inherited member. -/
structure Plain (s : WebState) : Prop where
  strays : s.strays = []
  names : OwnNames s.config

variable {s : WebState} {id : Str} {v : Vault}

theorem member_eq_some : member s id = some (some v) ↔ s.vaults[id]? = some v := by
  unfold member
  cases s.vaults[id]? with
  | some u => simp
  | none =>
      dsimp only
      split <;> simp

theorem getElem?_of_member (h : member s id = none) : s.vaults[id]? = none := by
  unfold member at h
  cases hv : s.vaults[id]? with
  | none => rfl
  | some v =>
      rw [hv] at h
      cases h

theorem member_of_strays (h : s.strays = []) (hid : id ∉ inheritedNames) :
    member s id = s.vaults[id]?.map some := by
  unfold member
  cases s.vaults[id]? with
  | some v => rfl
  | none => simp [h,hid]

theorem vault_of_member (h : s.strays = []) (hid : id ∉ inheritedNames) {found : Option Vault}
    (hfound : member s id = some found) : ∃ v, found = some v ∧ s.vaults[id]? = some v := by
  rw [member_of_strays h hid] at hfound
  obtain ⟨v,hv,rfl⟩ := Option.map_eq_some_iff.mp hfound
  exact ⟨v,rfl,hv⟩

theorem member_getD (h : s.strays = []) (hid : id ∉ inheritedNames) :
    (member s id).getD (some newVault) = some (s.vaults[id]?.getD newVault) := by
  rw [member_of_strays h hid]
  cases s.vaults[id]? <;> rfl

theorem vaultOf_of_strays (h : s.strays = []) (hid : id ∉ inheritedNames) :
    vaultOf s id = .ok (s.vaults[id]?.getD newVault) := by
  unfold vaultOf
  rw [member_getD h hid]
  rfl

theorem OwnNames.primaryId {config : WebConfig} (h : OwnNames config)
    (hid : primaryId config = .ok id) : id ∉ inheritedNames := by
  obtain ⟨destinations,hd,hid⟩ := bind_eq_ok.mp hid
  cases hid
  cases destinations with
  | nil => decide
  | cons d rest => exact h _ (orElse_eq_ok.mp hd) List.mem_cons_self

theorem ownNames_defaultConfig : OwnNames defaultConfig := by
  intro destinations hd
  cases hd
  have hall : ∀ id ∈ ["primary".toList,"mirror".toList], id ∉ inheritedNames := by decide
  exact fun id hid => hall id hid

/-- A backup finds something to use as a vault for every destination. -/
theorem Plain.dropWhile_usable (h : Plain s) {destinations : List WebDestination}
    (hd : s.config.destinations = some destinations) : destinations.dropWhile (usable s) = [] := by
  rw [List.dropWhile_eq_nil_iff]
  intro d hmem
  unfold usable
  rw [member_of_strays h.strays (h.names _ hd (List.mem_map_of_mem hmem))]
  cases s.vaults[d.id]? <;> rfl

theorem map_id_setPath (index : Nat) (path : Str) (destinations : List WebDestination) :
    (setPath index path destinations).map WebDestination.id = destinations.map WebDestination.id := by
  unfold setPath
  induction destinations generalizing index with
  | nil => simp
  | cons d rest ih =>
      cases index with
      | zero => simp
      | succ index => simp [ih]

/-- In a plain state a switch puts each vault under the id of the other. -/
theorem Plain.promote_eq (h : Plain s) {destinations : List WebDestination}
    (hd : s.config.destinations = some destinations) {main other : WebDestination} {existing : Nat}
    (hmain : destinations[0]? = some main) (hother : destinations[existing]? = some other) :
    promote destinations main other existing s = {s with
      config := {s.config with
        backupRoot := other.path
        destinations := some (setPath existing main.path (setPath 0 other.path destinations))}
      vaults := (s.vaults.insert main.id (s.vaults[other.id]?.getD newVault)).insert other.id
        (s.vaults[main.id]?.getD newVault)} := by
  have hown : ∀ {i : Nat} {d : WebDestination}, destinations[i]? = some d → d.id ∉ inheritedNames :=
    fun hi => h.names _ hd (List.mem_map_of_mem (List.mem_of_getElem? hi))
  unfold promote
  rw [member_getD h.strays (hown hmain),member_getD h.strays (hown hother)]
  simp [put,h.strays]

end Members

section Cuts
variable {keep : WebManifest → Bool} {v : Vault} {s : WebState}

theorem mem_referenced {manifests : List WebManifest} {hash : Str} :
    hash ∈ referenced manifests ↔ ∃ m ∈ manifests, ∃ e ∈ m.entries, e.sha256 = hash := by
  simp [referenced,List.mem_eraseDups]

theorem getElem?_cut (hash : Str) : (cut keep v).blobs[hash]? =
    if hash ∈ referenced (v.manifests.filter keep) then v.blobs[hash]? else none := by
  unfold cut
  rw [Std.ExtTreeMap.getElem?_filter']
  cases v.blobs[hash]? with
  | none => simp
  | some b => simp [Option.filter]

theorem getElem?_cutAll (id : Str) :
    (cutAll keep s).vaults[id]? = s.vaults[id]?.map (cut keep) := by
  unfold cutAll
  exact Std.ExtTreeMap.getElem?_map

theorem mem_prune {n : Nat} {sourcePath : Str} {manifests : List WebManifest} {m : WebManifest}
    (h : m ∈ prune n sourcePath manifests) : m ∈ manifests := by
  rcases List.mem_append.mp h with h | h
  · exact List.mem_of_mem_filter h
  · have hmem := (List.perm_insertionSort _ _).subset (List.mem_of_mem_take h)
    exact List.mem_of_mem_filter hmem

/-- What is left after pruning is a part of the manifests in another order. -/
theorem prune_subperm (n : Nat) (sourcePath : Str) (manifests : List WebManifest) :
    ∃ whole, whole.Perm manifests ∧ (prune n sourcePath manifests).Sublist whole := by
  refine ⟨(manifests.filter fun m => m.sourcePath ≠ sourcePath)++
    byAge (manifests.filter fun m => m.sourcePath = sourcePath),?_,?_⟩
  · have hsort : (byAge (manifests.filter fun m => m.sourcePath = sourcePath)).Perm _ :=
      List.perm_insertionSort _ _
    have hsplit := List.filter_append_perm (fun m => decide (m.sourcePath ≠ sourcePath)) manifests
    refine (hsort.append_left _).trans ?_
    simpa using hsplit
  · exact (List.Sublist.refl _).append (List.take_sublist _ _)

end Cuts

section Blobs
variable {files : List WebFile}

theorem addBlob_fst (copied : Blobs × Nat × Nat) (entry : WebEntry) :
    (addBlob files copied entry).1 = (addBlob files (copied.1,0,0) entry).1 := by
  unfold addBlob
  dsimp only
  split
  · rfl
  · cases files.find? fun file => file.relPath = entry.relPath <;> rfl

/-- The blobs of a vault after a version. -/
def withBlobs (files : List WebFile) (entries : List WebEntry) (blobs : Blobs) : Blobs :=
  entries.foldl (fun b e => (addBlob files (b,0,0) e).1) blobs

theorem foldl_addBlob_fst (entries : List WebEntry) (copied : Blobs × Nat × Nat) :
    (entries.foldl (addBlob files) copied).1 = withBlobs files entries copied.1 := by
  induction entries generalizing copied with
  | nil => rfl
  | cons e entries ih =>
      rw [List.foldl_cons,ih,addBlob_fst]
      rfl

/-- A vault after a version. -/
def storedVault (files : List WebFile) (keep : Nat) (manifest : WebManifest) (v : Vault) : Vault :=
  ⟨withBlobs files manifest.entries v.blobs,
    prune keep manifest.sourcePath (v.manifests++[manifest])⟩

theorem storeVersion_fst (keep : Nat) (manifest : WebManifest)
    (stored : Map Str Vault × Nat × Nat) (d : WebDestination) :
    (storeVersion files keep manifest stored d).1 = stored.1.insert d.id
      (storedVault files keep manifest (stored.1[d.id]?.getD newVault)) := by
  unfold storeVersion storedVault
  rw [← foldl_addBlob_fst manifest.entries (_,stored.2)]

/-- Every destination gets the version once, if no two of them have the same id. -/
theorem getElem?_foldl_storeVersion (keep : Nat) (manifest : WebManifest)
    {destinations : List WebDestination} (hnodup : (destinations.map WebDestination.id).Nodup)
    (stored : Map Str Vault × Nat × Nat) (id : Str) :
    (destinations.foldl (storeVersion files keep manifest) stored).1[id]? =
      if id ∈ destinations.map WebDestination.id then
        some (storedVault files keep manifest (stored.1[id]?.getD newVault))
      else stored.1[id]? := by
  induction destinations generalizing stored with
  | nil => simp
  | cons d rest ih =>
      rw [List.map_cons,List.nodup_cons] at hnodup
      rw [List.foldl_cons,ih hnodup.2,storeVersion_fst]
      by_cases hid : d.id = id
      · subst hid
        rw [if_neg hnodup.1,getElem?_insert_self,if_pos (by simp)]
      · rw [getElem?_insert_of_ne (Ne.symm hid)]
        simp [Ne.symm hid]

theorem getElem?_withBlobs_of_mem {entries : List WebEntry} {blobs : Blobs} {hash : Str} {b : Bytes}
    (h : blobs[hash]? = some b) : (withBlobs files entries blobs)[hash]? = some b := by
  induction entries generalizing blobs with
  | nil => exact h
  | cons e entries ih =>
      apply ih
      unfold addBlob
      dsimp only
      split
      · exact h
      · rename_i hmissing
        cases files.find? fun file => file.relPath = e.relPath with
        | none => exact h
        | some f =>
            dsimp only
            rw [getElem?_insert_of_ne,h]
            rintro rfl
            exact hmissing (mem_of_getElem? h)

/-- A blob of the new vault was there before or is a file of the workspace. -/
theorem withBlobs_cases {entries : List WebEntry} {blobs : Blobs} {hash : Str} {b : Bytes}
    (h : (withBlobs files entries blobs)[hash]? = some b) :
    blobs[hash]? = some b ∨ ∃ e ∈ entries, e.sha256 = hash ∧ ∃ f,
      (files.find? fun file => file.relPath = e.relPath) = some f ∧ f.bytes = b := by
  induction entries generalizing blobs with
  | nil => exact .inl h
  | cons e entries ih =>
      rcases ih h with hb | ⟨e',he',hhash,hf⟩
      · unfold addBlob at hb
        dsimp only at hb
        split at hb
        · exact .inl hb
        · cases hfind : files.find? fun file => file.relPath = e.relPath with
          | none =>
              rw [hfind] at hb
              exact .inl hb
          | some f =>
              rw [hfind] at hb
              dsimp only at hb
              by_cases hhash : e.sha256 = hash
              · subst hhash
                rw [getElem?_insert_self] at hb
                exact .inr ⟨e,List.mem_cons_self,rfl,f,hfind,Option.some.inj hb⟩
              · rw [getElem?_insert_of_ne (Ne.symm hhash)] at hb
                exact .inl hb
      · exact .inr ⟨e',List.mem_cons_of_mem _ he',hhash,hf⟩

theorem mem_withBlobs {entries : List WebEntry} {blobs : Blobs} {e : WebEntry} (he : e ∈ entries)
    {f : WebFile} (hf : (files.find? fun file => file.relPath = e.relPath) = some f) :
    e.sha256 ∈ withBlobs files entries blobs := by
  induction entries generalizing blobs with
  | nil => cases he
  | cons e' entries ih =>
      rcases List.mem_cons.mp he with rfl | he
      · have hnow : e.sha256 ∈ (addBlob files (blobs,0,0) e).1 := by
          unfold addBlob
          dsimp only
          split
          · assumption
          · rw [hf]
            exact Std.ExtTreeMap.mem_insert_self
        obtain ⟨b,hb⟩ := exists_of_mem hnow
        have hlater := @getElem?_withBlobs_of_mem files entries _ _ _ hb
        exact mem_iff_isSome_getElem?.mpr (by
          change ((withBlobs files entries (addBlob files (blobs,0,0) e).1)[e.sha256]?).isSome
          rw [hlater]
          rfl)
      · exact ih he

end Blobs

section Repairs
variable {sha : Sha256}

theorem manifests_repairVault (primary mirror : Vault) :
    (repairVault sha primary mirror).1.manifests = mirror.manifests := by
  have hone : ∀ (v : Vault × Nat) hash, (repairBlob sha primary v hash).1.manifests = v.1.manifests := by
    intro v hash
    unfold repairBlob
    split
    · rfl
    split
    · cases primary.blobs[hash]? with
      | none => rfl
      | some b => rfl
    · rfl
  have hall : ∀ (hashes : List Str) (v : Vault × Nat),
      (hashes.foldl (repairBlob sha primary) v).1.manifests = v.1.manifests := by
    intro hashes
    induction hashes with
    | nil => exact fun v => rfl
    | cons hash rest ih => exact fun v => (ih _).trans (hone v hash)
  exact hall _ _

end Repairs

section Ids

theorem num_injective {a b : Nat} (h : num a = num b) : a = b := by
  have ha := @Nat.ofDigitChars_toDigits 10 a (by decide) (by decide)
  have hb := @Nat.ofDigitChars_toDigits 10 b (by decide) (by decide)
  unfold num at h
  rw [← ha,h,hb]

theorem dash_not_mem_num (n : Nat) : '-' ∉ num n := by
  intro h
  exact absurd (Nat.isDigit_of_mem_toDigits (by decide) (by decide) h) (by decide)

/-- The number at the end of an id can be read off. -/
theorem versionIdOf_sequence {t t' q q' : Nat} (h : versionIdOf t q = versionIdOf t' q') : q = q' := by
  have hread : ∀ t q, ((versionIdOf t q).reverse.takeWhile fun c => c ≠ '-').reverse = num q := by
    intro t q
    have hdash : ∀ c ∈ (num q).reverse, decide (c ≠ '-') = true := by
      intro c hc
      have hne : c ≠ '-' := by
        rintro rfl
        exact dash_not_mem_num q (List.mem_reverse.mp hc)
      exact decide_eq_true hne
    unfold versionIdOf
    rw [List.reverse_append,List.reverse_cons,List.append_assoc,
      List.takeWhile_append_of_pos hdash]
    simp
  apply num_injective
  rw [← hread t q,h,hread]

end Ids

end BackupSync.WebEngine
