import BackupSync.BackupRestore

/-!
# What a restored tree has to do with its manifest

Entries of an accepted manifest are told apart by their texts, while the tree is
built from the names the texts resolve to. A restore that returns has refused every
manifest in which a file stands where a directory is needed. Two file entries whose
texts resolve to the same names are both written, and the last one stays. So the
tree is faithful to the manifest exactly if such entries have the same hash.
-/
namespace BackupSync
open Checks Interruptible RelativePath ContentHash RestoreVersion RestoredTree StoreCompleteness
  BackupRestore

namespace RestoredManifest

variable {sha : Sha256} {prim : Primitives} {codec : BlobCodec}
  {blobs : Map BlobPath Bytes} {tree : Tree} {m : Manifest} {env : RestoreEnv}
  {names : List Str} {dirs : List ManifestEntry} {files planned : List PlannedFile}

/-- The files and directories of a manifest are there and no other files. -/
structure Faithful (sha : Sha256) (m : Manifest) (tree : Tree) : Prop where
  file : ∀ (k : Str) (e : ManifestEntry), m.entries[k]? = some e → e.kind = .file → ∃ content,
    tree[resolve k]? = some (.file content) ∧ e.sha256 = some (sha256Hex sha content)
  dir : ∀ (k : Str) (e : ManifestEntry), m.entries[k]? = some e → e.kind = .dir →
    tree[resolve k]? = some .dir
  only : ∀ (names : List Str) (content : Bytes), tree[names]? = some (.file content) → ∃ k e,
    m.entries[k]? = some e ∧ e.kind = .file ∧ resolve k = names

/-- File entries for the same place have the same hash. -/
def Consistent (m : Manifest) : Prop :=
  ∀ (k k' : Str) (e e' : ManifestEntry), m.entries[k]? = some e → m.entries[k']? = some e' →
    e.kind = .file → e'.kind = .file → resolve k = resolve k' → e.sha256 = e'.sha256

instance (m : Manifest) : Decidable (Consistent m) :=
  decidable_of_iff (∀ i ∈ m.entries.toList, ∀ j ∈ m.entries.toList, i.2.kind = .file →
      j.2.kind = .file → resolve i.1 = resolve j.1 → i.2.sha256 = j.2.sha256)
    ⟨fun h k k' e e' he he' => h (k,e) (mem_toList_iff_getElem?_eq_some.mpr he) (k',e')
        (mem_toList_iff_getElem?_eq_some.mpr he'),
      fun h _ hi _ hj => h _ _ _ _ (mem_toList_iff_getElem?_eq_some.mp hi)
        (mem_toList_iff_getElem?_eq_some.mp hj)⟩

/-- A file is above no entry and in the place of no directory. -/
def FilesAreLeaves (m : Manifest) : Prop :=
  ∀ (k k' : Str) (e e' : ManifestEntry), m.entries[k]? = some e → m.entries[k']? = some e' →
    e.kind = .file → resolve k <+: resolve k' → e'.kind = .file ∧ resolve k' = resolve k

/-- A tree in which the given directories and files have been built. -/
structure Built (sha : Sha256) (dirs : List ManifestEntry) (files : List PlannedFile) (tree : Tree) :
    Prop where
  parent : ∀ (names : List Str) (node : Node), tree[names]? = some node → names ≠ [] →
    tree[names.dropLast]? = some .dir
  dir : ∀ e ∈ dirs, e.kind = .dir → tree[resolve e.relPath]? = some .dir
  file : ∀ pf ∈ files, ∃ content, tree[resolve pf.relPath]? = some (.file content)
  only : ∀ (names : List Str) (content : Bytes), tree[names]? = some (.file content) →
    ∃ pf ∈ files, resolve pf.relPath = names ∧ pf.expectedSha256 = sha256Hex sha content

theorem built_empty : Built sha [] [] (∅ : Tree) := by
  constructor <;> simp

theorem getElem?_insert_names {names' : List Str} {node : Node} :
    (tree.insert names node)[names']? = if names = names' then some node else tree[names']? := by
  simp [getElem?_insert]

theorem Built.dir_above {node : Node} (h : Built sha dirs files tree) {p : List Str}
    (hn : tree[names]? = some node) (hp : p <+: names) (hne : p ≠ names) : tree[p]? = some .dir := by
  induction names using List.reverseRecOn generalizing node with
  | nil => exact absurd (List.prefix_nil.mp hp) hne
  | append_singleton names name ih =>
      have hparent := h.parent _ _ hn (by simp)
      rw [List.dropLast_concat] at hparent
      rcases List.prefix_concat_iff.mp hp with rfl | hp
      · exact absurd rfl hne
      · by_cases he : p = names
        · exact he ▸ hparent
        · exact ih hparent hp he

/-- Nothing lies below a file. -/
theorem Built.leaf {node : Node} {content : Bytes} (h : Built sha dirs files tree) {p : List Str}
    (hfile : tree[p]? = some (.file content)) (hn : tree[names]? = some node) (hp : p <+: names) :
    p = names := by
  by_contra hne
  have hdir := h.dir_above hn hp hne
  rw [hfile] at hdir
  cases hdir

/-- A new directory below one that is there. -/
theorem Built.insertDir (h : Built sha dirs files tree) (hnew : tree[names]? = none)
    (hparent : names ≠ [] → tree[names.dropLast]? = some .dir) :
    Built sha dirs files (tree.insert names .dir) := by
  constructor
  · intro n node hn hne
    rw [getElem?_insert_names] at hn ⊢
    split
    · rfl
    · split at hn
      · rename_i heq
        exact heq ▸ hparent (heq ▸ hne)
      · exact h.parent n node hn hne
  · intro e he hk
    rw [getElem?_insert_names]
    split
    · rfl
    · exact h.dir e he hk
  · intro pf hpf
    obtain ⟨content,hc⟩ := h.file pf hpf
    refine ⟨content,?_⟩
    rw [getElem?_insert_names,if_neg ?_]
    · exact hc
    · rintro rfl
      rw [hnew] at hc
      cases hc
  · intro n content hn
    rw [getElem?_insert_names] at hn
    split at hn
    · cases hn
    · exact h.only n content hn

/-- A file in a place that is not a directory. -/
theorem Built.insertFile {pf : PlannedFile} {content : Bytes} (h : Built sha dirs files tree)
    (hparent : tree[(resolve pf.relPath).dropLast]? = some .dir)
    (hfree : tree[resolve pf.relPath]? ≠ some .dir)
    (hhash : pf.expectedSha256 = sha256Hex sha content) :
    Built sha dirs (files++[pf]) (tree.insert (resolve pf.relPath) (.file content)) := by
  have hdir : ∀ n : List Str, tree[n]? = some .dir →
      (tree.insert (resolve pf.relPath) (.file content))[n]? = some .dir := by
    intro n hn
    rw [getElem?_insert_names,if_neg ?_]
    · exact hn
    · rintro rfl
      exact hfree hn
  constructor
  · intro n node hn hne
    apply hdir
    rw [getElem?_insert_names] at hn
    split at hn
    · rename_i heq
      exact heq ▸ hparent
    · exact h.parent n node hn hne
  · intro e he hk
    exact hdir _ (h.dir e he hk)
  · intro pf' hpf'
    rw [getElem?_insert_names]
    split
    · exact ⟨content,rfl⟩
    · rename_i hne
      rcases List.mem_append.mp hpf' with hpf' | hpf'
      · exact h.file pf' hpf'
      · obtain rfl := List.mem_singleton.mp hpf'
        exact absurd rfl hne
  · intro n content' hn
    rw [getElem?_insert_names] at hn
    split at hn
    · rename_i heq
      cases hn
      exact ⟨pf,List.mem_append_right _ (List.mem_singleton_self _),heq,hhash⟩
    · obtain ⟨pf',hpf',hrest⟩ := h.only n content' hn
      exact ⟨pf',List.mem_append_left _ hpf',hrest⟩

section Build
variable {s t : RestoreTree}

theorem returns_createDir {u : Unit} (hr : Returns (createDir env names) s u t)
    (h : Built sha dirs files s.nodes) (hparent : names ≠ [] → s.nodes[names.dropLast]? = some .dir) :
    Built sha dirs files t.nodes ∧ t.nodes[names]? = some .dir := by
  have hr := returns_read_bind.mp hr
  cases hn : s.nodes[names]? with
  | none =>
      rw [hn] at hr
      obtain ⟨-,hr⟩ := returns_check_bind.mp hr
      obtain rfl := returns_step.mp hr
      exact ⟨h.insertDir hn hparent,getElem?_insert_self⟩
  | some node =>
      rw [hn] at hr
      cases node with
      | dir =>
          obtain ⟨-,rfl⟩ := returns_pure.mp hr
          exact ⟨h,hn⟩
      | file content => exact absurd hr returns_fail

theorem returns_createDirAll {u : Unit} (hr : Returns (createDirAll env names) s u t)
    (h : Built sha dirs files s.nodes) :
    Built sha dirs files t.nodes ∧ t.nodes[names]? = some .dir := by
  induction names using List.reverseRecOn generalizing t with
  | nil =>
      obtain ⟨v,w,hfirst,hr⟩ := returns_bind.mp hr
      obtain ⟨-,rfl⟩ := returns_pure.mp hr
      exact returns_createDir hfirst h (absurd rfl)
  | append_singleton names name ih =>
      have hsplit : (names++[name]).inits = names.inits++[names++[name]] := by
        simp [List.inits_append]
      rw [createDirAll,hsplit,List.foldlM_append] at hr
      obtain ⟨v,w,hfirst,hr⟩ := returns_bind.mp hr
      obtain ⟨hb,hdir⟩ := ih hfirst
      obtain ⟨_,x,hlast,hr⟩ := returns_bind.mp hr
      obtain ⟨-,rfl⟩ := returns_pure.mp hr
      refine returns_createDir hlast hb fun _ => ?_
      rwa [List.dropLast_concat]

theorem returns_buildDir {e : ManifestEntry} {created created' : Nat}
    (hr : Returns (buildDir env created e) s created' t) (h : Built sha dirs [] s.nodes) :
    Built sha (dirs++[e]) [] t.nodes := by
  have hadd : Built sha dirs [] t.nodes → (e.kind = .dir → t.nodes[resolve e.relPath]? = some .dir) →
      Built sha (dirs++[e]) [] t.nodes := by
    intro hb hdir
    refine ⟨hb.parent,?_,hb.file,hb.only⟩
    intro e' he' hk
    rcases List.mem_append.mp he' with he' | he'
    · exact hb.dir e' he' hk
    · obtain rfl := List.mem_singleton.mp he'
      exact hdir hk
  unfold buildDir at hr
  split at hr
  · rename_i hk
    obtain ⟨-,rfl⟩ := returns_pure.mp hr
    exact hadd h fun hdir => absurd hdir hk
  · have hr := returns_read_bind.mp hr
    split at hr
    · rename_i hmem
      obtain ⟨-,rfl⟩ := returns_pure.mp hr
      apply hadd h
      intro _
      obtain ⟨node,hnode⟩ := exists_of_mem hmem.2
      cases node with
      | dir => exact hnode
      | file content =>
          obtain ⟨pf,hpf,-⟩ := h.only _ content hnode
          cases hpf
    · obtain ⟨_,w,hdirs,hr⟩ := returns_bind.mp hr
      obtain ⟨-,rfl⟩ := returns_pure.mp hr
      obtain ⟨hb,hdir⟩ := returns_createDirAll hdirs h
      exact hadd hb fun _ => hdir

theorem returns_buildFile {pf : PlannedFile} {u : Unit}
    (hr : Returns (buildFile sha prim codec blobs env pf) s u t)
    (h : Built sha dirs files s.nodes) : Built sha dirs (files++[pf]) t.nodes := by
  obtain ⟨_,s₁,hparents,hr⟩ := returns_bind.mp hr
  obtain ⟨hb₁,-⟩ := returns_createDirAll hparents h
  obtain ⟨_,s₂,hwrite,hr⟩ := returns_bind.mp hr
  have hb₂ : Built sha dirs (files++[pf]) s₂.nodes := by
    obtain ⟨_,s₃,hagain,hwrite⟩ := returns_bind.mp hwrite
    obtain ⟨hb₃,hparent⟩ := returns_createDirAll hagain hb₁
    obtain ⟨-,hwrite⟩ := returns_check_bind.mp hwrite
    obtain ⟨blob,-,hwrite⟩ := returns_lift_bind.mp hwrite
    obtain ⟨-,hwrite⟩ := returns_check_bind.mp hwrite
    obtain ⟨content,-,hwrite⟩ := returns_lift_bind.mp hwrite
    obtain ⟨hhash,hwrite⟩ := returns_check_bind.mp hwrite
    obtain ⟨hfree,hwrite⟩ := returns_check_bind.mp (returns_read_bind.mp hwrite)
    obtain rfl := returns_step.mp hwrite
    rw [Bool.and_eq_true,decide_eq_true_eq] at hfree
    exact hb₃.insertFile hparent hfree.2 (eq_of_beq hhash).symm
  unfold restoreMtime at hr
  split at hr
  · obtain ⟨-,rfl⟩ := returns_pure.mp hr
    exact hb₂
  · obtain ⟨-,hr⟩ := returns_check_bind.mp hr
    obtain rfl := returns_step.mp hr
    exact hb₂

theorem returns_buildRestoreTree {result : RestoreResult} (hs : s.nodes = ∅)
    (hr : Returns (buildRestoreTree sha prim codec blobs env m planned) s result t) :
    Built sha m.entryValues planned t.nodes := by
  obtain ⟨_,s₁,hroot,hr⟩ := returns_bind.mp hr
  obtain ⟨created,s₂,hdirs,hr⟩ := returns_bind.mp hr
  obtain ⟨_,s₃,hfiles,hr⟩ := returns_bind.mp hr
  obtain ⟨-,rfl⟩ := returns_pure.mp hr
  have hb₁ : Built sha [] [] s₁.nodes :=
    (returns_createDirAll hroot (hs ▸ built_empty : Built sha [] [] s.nodes)).1
  have hb₂ : Built sha ([]++m.entryValues) [] s₂.nodes := by
    refine returns_foldlM_done (fun done _ u => Built sha done [] u.nodes) ?_ hb₁ hdirs
    intro e _ done b u b' u' h hstep
    exact returns_buildDir hstep h
  have hb₃ : Built sha ([]++m.entryValues) ([]++planned) t.nodes := by
    refine returns_foldlM_done (fun done _ u => Built sha ([]++m.entryValues) done u.nodes) ?_ hb₂ hfiles
    intro pf _ done b u b' u' h hstep
    exact returns_buildFile hstep h
  exact hb₃

end Build

/-- The planned files are the file entries, each with its hash. -/
structure PlanOf (m : Manifest) (planned : List PlannedFile) : Prop where
  file : ∀ e ∈ m.entryValues, e.kind = .file → ∃ pf ∈ planned, pf.relPath = e.relPath ∧
    e.sha256 = some pf.expectedSha256
  entry : ∀ pf ∈ planned, ∃ e ∈ m.entryValues, e.kind = .file ∧ e.relPath = pf.relPath ∧
    e.sha256 = some pf.expectedSha256

theorem planEntry_eq_ok {e : ManifestEntry} {pf : PlannedFile}
    (h : planEntry sha blobs e = some (.ok pf)) :
    e.kind = .file ∧ e.relPath = pf.relPath ∧ e.sha256 = some pf.expectedSha256 := by
  unfold planEntry at h
  split at h
  · cases h
  · rename_i hk
    refine ⟨not_not.mp hk,?_⟩
    split at h
    · cases h
    · rename_i hash hhash
      split at h
      · cases h
        exact ⟨rfl,hhash⟩
      · cases h

theorem planOf_of_preflight {cfg : Config} {freeSpace : Option Nat}
    (h : preflightRestore sha cfg m blobs freeSpace = .ok planned) : PlanOf m planned := by
  obtain ⟨hmissing,h⟩ := then_eq_ok.mp h
  obtain ⟨-,h⟩ := then_eq_ok.mp h
  cases h
  constructor
  · intro e he hk
    have hplan : ∃ pf, planEntry sha blobs e = some (.ok pf) := by
      have hsome : ∃ plan, planEntry sha blobs e = some plan := by
        unfold planEntry
        rw [if_neg (not_not_intro hk)]
        split
        · exact ⟨_,rfl⟩
        · split
          · exact ⟨_,rfl⟩
          · exact ⟨_,rfl⟩
      obtain ⟨plan,hplan⟩ := hsome
      cases plan with
      | ok pf => exact ⟨pf,hplan⟩
      | error missing =>
          have hmem : missing ∈ missingOf (m.entryValues.filterMap (planEntry sha blobs)) :=
            List.mem_filterMap.mpr ⟨_,List.mem_filterMap.mpr ⟨e,he,hplan⟩,rfl⟩
          rw [List.isEmpty_iff.mp (require_eq_ok.mp hmissing)] at hmem
          cases hmem
    obtain ⟨pf,hplan⟩ := hplan
    obtain ⟨-,hrel,hhash⟩ := planEntry_eq_ok hplan
    exact ⟨pf,List.mem_filterMap.mpr ⟨_,List.mem_filterMap.mpr ⟨e,he,hplan⟩,rfl⟩,hrel.symm,hhash⟩
  · intro pf hpf
    obtain ⟨plan,hplan,hok⟩ := List.mem_filterMap.mp hpf
    obtain ⟨e,he,hpe⟩ := List.mem_filterMap.mp hplan
    cases plan with
    | error missing => cases hok
    | ok pf' =>
        cases hok
        exact ⟨e,he,planEntry_eq_ok hpe⟩

theorem Built.faithful_iff (hb : Built sha m.entryValues planned tree) (hp : PlanOf m planned)
    (hk : m.Keyed) : Faithful sha m tree ↔ Consistent m := by
  constructor
  · intro hf k k' e e' he he' hfile hfile' hsame
    obtain ⟨content,hnode,hhash⟩ := hf.file k e he hfile
    obtain ⟨content',hnode',hhash'⟩ := hf.file k' e' he' hfile'
    rw [hsame,hnode'] at hnode
    cases hnode
    rw [hhash,hhash']
  · intro hc
    constructor
    · intro k e he hfile
      have hmem := Manifest.mem_entryValues.mpr ⟨k,he⟩
      obtain ⟨pf,hpf,hrel,hhash⟩ := hp.file e hmem hfile
      obtain ⟨content,hnode⟩ := hb.file pf hpf
      rw [hrel,hk k e he] at hnode
      obtain ⟨pf',hpf',hsame,hexpected⟩ := hb.only _ content hnode
      obtain ⟨e',he',hfile',hrel',hhash'⟩ := hp.entry pf' hpf'
      obtain ⟨k',hk'⟩ := Manifest.mem_entryValues.mp he'
      have heq : e.sha256 = e'.sha256 := by
        apply hc k k' e e' he hk' hfile hfile'
        rw [← hk k' e' hk',hrel',hsame]
      exact ⟨content,hnode,by rw [heq,hhash',hexpected]⟩
    · intro k e he hdir
      have hnode := hb.dir e (Manifest.mem_entryValues.mpr ⟨k,he⟩) hdir
      rwa [hk k e he] at hnode
    · intro names content hnode
      obtain ⟨pf,hpf,hsame,-⟩ := hb.only names content hnode
      obtain ⟨e,he,hfile,hrel,-⟩ := hp.entry pf hpf
      obtain ⟨k,hk'⟩ := Manifest.mem_entryValues.mp he
      exact ⟨k,e,hk',hfile,by rw [← hk k e hk',hrel,hsame]⟩

theorem Built.files_are_leaves (hb : Built sha m.entryValues planned tree) (hp : PlanOf m planned)
    (hk : m.Keyed) : FilesAreLeaves m := by
  have hfile : ∀ (k : Str) (e : ManifestEntry), m.entries[k]? = some e → e.kind = .file →
      ∃ content, tree[resolve k]? = some (.file content) := by
    intro k e he hkind
    obtain ⟨pf,hpf,hrel,-⟩ := hp.file e (Manifest.mem_entryValues.mpr ⟨k,he⟩) hkind
    obtain ⟨content,hnode⟩ := hb.file pf hpf
    exact ⟨content,by rw [← hk k e he,← hrel,hnode]⟩
  have hnode : ∀ (k : Str) (e : ManifestEntry), m.entries[k]? = some e →
      ∃ node, tree[resolve k]? = some node := by
    intro k e he
    cases hkind : e.kind with
    | file =>
        obtain ⟨content,h⟩ := hfile k e he hkind
        exact ⟨_,h⟩
    | dir =>
        have h := hb.dir e (Manifest.mem_entryValues.mpr ⟨k,he⟩) hkind
        rw [hk k e he] at h
        exact ⟨_,h⟩
  intro k k' e e' he he' hkind hpre
  obtain ⟨content,hcontent⟩ := hfile k e he hkind
  obtain ⟨node,hn⟩ := hnode k' e' he'
  have hsame : resolve k = resolve k' := hb.leaf hcontent hn hpre
  refine ⟨?_,hsame.symm⟩
  cases hkind' : e'.kind with
  | file => rfl
  | dir =>
      have hdir := hb.dir e' (Manifest.mem_entryValues.mpr ⟨k',he'⟩) hkind'
      rw [hk k' e' he',← hsame,hcontent] at hdir
      cases hdir

section Restore
variable {Text : Type} [StoreText Text] {cfg : Config} {disk : Disk Text} {req : RestoreRequest}
  {area area' : RestoreArea} {result : RestoreResult}

/-- The tree staged for a request, and the manifest it was built from. -/
def Staged (sha : Sha256) (prim : Primitives) (cfg : Config) (disk : Disk Text)
    (req : RestoreRequest) (env : RestoreEnv) (stage : RestoreTree) (m : Manifest)
    (staged : RestoreTree) : Prop :=
  ∃ root planned built, destinationRootForSource cfg req.sourcePath = .ok root ∧
    loadManifestForRequest sha req env (disk.store root) = .ok m ∧
    preflightRestore sha cfg m (visibleBlobs env (disk.store root).blobs) env.freeSpace =
      .ok planned ∧
    Returns (buildRestoreTree sha prim cfg.codec (disk.store root).blobs env m planned) stage built
      staged

omit [StoreText Text] in
theorem state_countRemoved {removed : Nat} (hr : Returns (countRemoved req env m) area removed area') :
    area' = area := by
  have hr := returns_read_bind.mp hr
  split at hr
  · exact (returns_pure.mp (returns_check_bind.mp hr).2).2
  · exact (returns_pure.mp hr).2

theorem returns_stageTree {planned : List PlannedFile}
    (hr : Returns (stageTree sha prim codec blobs env m planned) area result area') :
    ∃ built staged, Returns (buildRestoreTree sha prim codec blobs env m planned) area.stage built
      staged ∧ area' = {area with stage := staged} := by
  obtain ⟨r,u,hattempt,hr⟩ := returns_bind.mp hr
  obtain ⟨hresult,hstore⟩ := returns_attempt.mp hattempt
  cases r with
  | ok built =>
      obtain ⟨-,rfl⟩ := returns_pure.mp hr
      obtain ⟨staged,hbuild,hset⟩ := returns_zoom.mp ⟨hresult,hstore⟩
      exact ⟨built,staged,hbuild,hset⟩
  | error e =>
      dsimp only at hr
      split at hr
      · exact absurd hr returns_stepThenFail
      · exact absurd hr returns_fail

/-- A restore that returns has put a complete staged tree at the target. -/
theorem returns_restoreVersion
    (hr : Returns (restoreVersion sha prim cfg disk req env) area result area') :
    ∃ m, Staged sha prim cfg disk req env area.stage m area'.target := by
  obtain ⟨_,-,hr⟩ := returns_lift_bind.mp hr
  obtain ⟨root,hroot,hr⟩ := returns_lift_bind.mp hr
  obtain ⟨-,hr⟩ := returns_check_bind.mp hr
  obtain ⟨m,hload,hr⟩ := returns_lift_bind.mp hr
  obtain ⟨-,hr⟩ := returns_check_bind.mp hr
  obtain ⟨-,hr⟩ := returns_check_bind.mp (returns_read_bind.mp hr)
  obtain ⟨-,hr⟩ := returns_check_bind.mp hr
  obtain ⟨planned,hplan,hr⟩ := returns_lift_bind.mp hr
  obtain ⟨-,hr⟩ := returns_check_bind.mp hr
  obtain ⟨-,hr⟩ := returns_check_bind.mp hr
  obtain ⟨removed,u₁,hcount,hr⟩ := returns_bind.mp hr
  obtain ⟨built,u₂,hstage,hr⟩ := returns_bind.mp hr
  obtain ⟨_,u₃,haside,hr⟩ := returns_bind.mp hr
  obtain ⟨_,u₄,hin,hr⟩ := returns_bind.mp hr
  obtain ⟨_,u₅,hprev,hr⟩ := returns_bind.mp hr
  obtain ⟨-,rfl⟩ := returns_pure.mp hr
  obtain rfl := state_countRemoved hcount
  obtain ⟨built',staged,hbuild,rfl⟩ := returns_stageTree hstage
  have hstaged : u₃.stage = staged := by
    have haside := returns_read_bind.mp haside
    split at haside
    · obtain ⟨-,haside⟩ := returns_check_bind.mp haside
      rw [returns_step.mp haside]
    · rw [(returns_pure.mp haside).2]
  have htarget : u₄.target = staged := by
    have hin := returns_read_bind.mp hin
    split at hin
    · rw [returns_step.mp hin,← hstaged]
    · split at hin
      · exact absurd hin returns_stepThenFail
      · exact absurd hin returns_fail
  have hlast : area'.target = u₄.target := by
    have hprev := returns_read_bind.mp hprev
    split at hprev
    · rw [returns_step.mp hprev]
    · rw [(returns_pure.mp hprev).2]
  rw [hlast,htarget]
  exact ⟨m,root,planned,built',hroot,hload,hplan,hbuild⟩

/-- A manifest that was restored is accepted, no file of it stands in the way of another entry, and
the tree is faithful to it exactly if file entries for the same place have the same hash. -/
theorem restored_faithful_iff (hstage : area.stage = .absent)
    (hr : Returns (restoreVersion sha prim cfg disk req env) area result area') :
    ∃ root m, destinationRootForSource cfg req.sourcePath = .ok root ∧
      loadManifestForRequest sha req env (disk.store root) = .ok m ∧
      m.validateManifest = .ok () ∧ FilesAreLeaves m ∧
      (Faithful sha m area'.target.nodes ↔ Consistent m) := by
  obtain ⟨m,root,planned,built,hroot,hload,hplan,hbuild⟩ := returns_restoreVersion hr
  have hvalid : m.validateManifest = .ok () := by
    obtain ⟨-,h⟩ := then_eq_ok.mp hload
    obtain ⟨text,-,h⟩ := bind_eq_ok.mp h
    obtain ⟨-,h⟩ := then_eq_ok.mp h
    obtain ⟨m',-,h⟩ := bind_eq_ok.mp h
    obtain ⟨hv,h⟩ := then_eq_ok.mp h
    cases h
    exact mapError_eq_ok.mp hv
  have hkeyed : m.Keyed := fun k e he => (Manifest.validateManifest_eq_ok.mp hvalid k e he).2.1
  have hb := returns_buildRestoreTree (by rw [hstage]; rfl) hbuild
  have hp := planOf_of_preflight hplan
  exact ⟨root,m,hroot,hload,hvalid,hb.files_are_leaves hp hkeyed,hb.faithful_iff hp hkeyed⟩

end Restore

def notesEntry (relPath text : String) : Str × ManifestEntry :=
  (relPath.toList,⟨.file,relPath.toList,2,0,0,some (sha256Hex notesSha (ascii text))⟩)

def manifestWith (entries : List (Str × ManifestEntry)) : Manifest :=
  ⟨1,"/home/notes".toList,0,none,none,[],.ofList entries compare⟩

/-- The first backup with another manifest, and the blobs of both contents. -/
def storeWith (entries : List (Str × ManifestEntry)) : Store PlainText :=
  (firstStore.putManifest notesId (manifestName morning.text)
    (.manifest (manifestWith entries))).putBlob
    (blobPath notesSha (sha256Hex notesSha (ascii "ho"))) (ascii "ho")

def restoreEntries (entries : List (Str × ManifestEntry)) :
    Outcome RestoreArea RestoreError RestoreResult :=
  restoreNotes notesJob.codec (storeWith entries) morning.text emptyArea

/-- Two files in different places. -/
theorem restored_faithful_iff_two_places :
    Faithful notesSha (manifestWith [notesEntry "a/b" "hi",notesEntry "a/c" "ho"])
      (restoreEntries [notesEntry "a/b" "hi",notesEntry "a/c" "ho"]).store.target.nodes := by
  have hr : Returns (restoreNotes notesJob.codec
      (storeWith [notesEntry "a/b" "hi",notesEntry "a/c" "ho"]) morning.text) emptyArea ⟨2,0,0⟩
      (restoreEntries [notesEntry "a/b" "hi",notesEntry "a/c" "ho"]).store :=
    ⟨by decide +kernel,rfl⟩
  obtain ⟨root,m,hroot,hload,-,-,hiff⟩ := restored_faithful_iff rfl hr
  have hroot' : destinationRootForSource (notesConfig notesJob.codec) "/home/notes".toList =
      .ok "/mnt/main".toList := by decide +kernel
  obtain rfl := Except.ok.inj (hroot'.symm.trans hroot)
  rw [Disk.store_setStore_self] at hload
  have hload' : loadManifestForRequest notesSha
      ⟨"/home/notes".toList,morning.text,.toDirectory,true⟩ calmRestore
      (storeWith [notesEntry "a/b" "hi",notesEntry "a/c" "ho"]) =
      .ok (manifestWith [notesEntry "a/b" "hi",notesEntry "a/c" "ho"]) := by decide +kernel
  obtain rfl := Except.ok.inj (hload'.symm.trans hload)
  exact hiff.mpr (by decide +kernel)

/-- Two accepted keys name the same file. The restore returns, and the file has the content of the
second entry only. -/
theorem colliding_keys_are_restored :
    (manifestWith [notesEntry "a/b" "hi",notesEntry "a//b" "ho"]).validateManifest = .ok () ∧
    (restoreEntries [notesEntry "a/b" "hi",notesEntry "a//b" "ho"]).result = .ok ⟨2,0,0⟩ ∧
    ¬ Faithful notesSha (manifestWith [notesEntry "a/b" "hi",notesEntry "a//b" "ho"])
      (restoreEntries [notesEntry "a/b" "hi",notesEntry "a//b" "ho"]).store.target.nodes := by
  refine ⟨by decide +kernel,by decide +kernel,?_⟩
  intro hf
  have hentry : (manifestWith [notesEntry "a/b" "hi",notesEntry "a//b" "ho"]).entries[
      ("a//b".toList : Str)]? = some (notesEntry "a//b" "ho").2 := by decide +kernel
  obtain ⟨content,hnode,hhash⟩ := hf.file _ _ hentry rfl
  have hnode' : (restoreEntries
      [notesEntry "a/b" "hi",notesEntry "a//b" "ho"]).store.target.nodes[resolve "a//b".toList]? =
      some (.file (ascii "hi")) := by decide +kernel
  obtain rfl : content = ascii "hi" := by
    rw [hnode'] at hnode
    cases hnode
    rfl
  exact absurd hhash (by decide +kernel)

end RestoredManifest
end BackupSync
