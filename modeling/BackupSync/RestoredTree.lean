import BackupSync.RestoreVersion

/-!
# The tree a restore builds

A manifest describes a tree when its entries are the nodes below the root, under
texts that resolve to their names, with the hashes of the contents. From such a
manifest, with every blob decoding to the content of its hash and no failing file
system call, the staged tree is that tree, and the restore puts it at the target.

Building only ever adds nodes of the described tree, so no directory is in the
way of a file and no file in the way of a directory.
-/
namespace BackupSync
open Checks Interruptible RelativePath ContentHash RestoreVersion

abbrev Tree := Map (List Str) Node

namespace RestoredTree

/-- A root directory, and a directory above every other node. -/
structure Rooted (tree : Tree) : Prop where
  root : tree[([] : List Str)]? = some .dir
  parent : ∀ (names : List Str) (node : Node), tree[names]? = some node → names ≠ [] →
    tree[names.dropLast]? = some .dir

/-- A path text that names a node below the root. -/
structure NamesNode (k : Str) : Prop where
  ne_nil : resolve k ≠ []
  names_file : namesFile k = true
  accepted : validateRelativePath k = .ok ()

/-- An entry and the node it stands for. -/
def EntryFor (sha : Sha256) (e : ManifestEntry) : Node → Prop
  | .dir => e.kind = .dir ∧ e.sha256 = none
  | .file content => e.kind = .file ∧ e.sha256 = some (sha256Hex sha content)

structure Describes (sha : Sha256) (tree : Tree) (m : Manifest) : Prop where
  entry : ∀ (k : Str) (e : ManifestEntry), m.entries[k]? = some e → e.relPath = k ∧ NamesNode k ∧
    ∃ node, tree[resolve k]? = some node ∧ EntryFor sha e node
  complete : ∀ (names : List Str) (node : Node), tree[names]? = some node → names ≠ [] →
    ∃ k e, m.entries[k]? = some e ∧ resolve k = names

/-- Nothing fails while the tree is built. -/
structure CalmBuild (env : RestoreEnv) : Prop where
  dirCreatable : ∀ names, env.dirCreatable names = true
  tempCreatable : ∀ names, env.tempCreatable names = true
  blobReadable : ∀ k, env.blobReadable k = true
  persistable : ∀ names, env.persistable names = true
  mtimeSettable : ∀ names, env.mtimeSettable names = true

/-- The hash of every file of the tree leads to a blob of its content. -/
def Provides (sha : Sha256) (prim : Primitives) (codec : BlobCodec)
    (blobs : Map BlobPath Bytes) (tree : Tree) : Prop :=
  ∀ (names : List Str) (content : Bytes), tree[names]? = some (.file content) → ∃ blob,
    blobs[blobPath sha (sha256Hex sha content)]? = some blob ∧
    BlobCodec.decodeBlob prim codec.cipher blob = .ok content

variable {sha : Sha256} {prim : Primitives} {codec : BlobCodec}
  {blobs : Map BlobPath Bytes} {tree : Tree} {m : Manifest} {env : RestoreEnv}

theorem Rooted.prefix_dir (h : Rooted tree) {p names : List Str}
    (hn : tree[names]? = some .dir) (hp : p <+: names) : tree[p]? = some .dir := by
  obtain ⟨rest,rfl⟩ := hp
  induction rest using List.reverseRecOn with
  | nil => rwa [List.append_nil] at hn
  | append_singleton rest name ih =>
      refine ih ?_
      have hparent := h.parent _ _ hn (by simp)
      rwa [← List.append_assoc,List.dropLast_concat] at hparent

/-- Part of the tree, with at least the given nodes. -/
structure PartOf (tree : Tree) (S : List Str → Prop) (t : RestoreTree) : Prop where
  within : ∀ (names : List Str) (node : Node), t.nodes[names]? = some node →
    tree[names]? = some node
  has : ∀ names, S names → names ∈ t.nodes

theorem PartOf.mono {S S' : List Str → Prop} {t : RestoreTree} (h : PartOf tree S t)
    (hS : ∀ names, S' names → S names) : PartOf tree S' t :=
  ⟨h.within,fun names hn => h.has names (hS names hn)⟩

theorem PartOf.insert {S : List Str → Prop} {t : RestoreTree} (h : PartOf tree S t)
    {names : List Str} {node : Node} (hn : tree[names]? = some node) :
    PartOf tree (fun n => S n ∨ n = names) {t with nodes := t.nodes.insert names node} := by
  refine ⟨?_,?_⟩
  · intro n nd hnd
    rw [getElem?_insert] at hnd
    split at hnd
    · rename_i heq
      cases hnd
      rwa [← Std.LawfulEqCmp.compare_eq_iff_eq.mp heq]
    · exact h.within n nd hnd
  · rintro n (hS | rfl)
    · exact mem_insert.mpr (.inr (h.has n hS))
    · exact Std.ExtTreeMap.mem_insert_self

/-- A fold whose steps each add nodes adds the nodes of all of them. -/
theorem runs_foldlM_adds {β γ : Type} {f : β → γ → Build β} {N : γ → List Str → Prop}
    {xs : List γ} (hf : ∀ x ∈ xs, ∀ (S : List Str → Prop) (b : β),
      Runs (PartOf tree S) (f b x) fun _ => PartOf tree fun n => S n ∨ N x n)
    (S : List Str → Prop) (b : β) :
    Runs (PartOf tree S) (xs.foldlM f b) fun _ => PartOf tree fun n => S n ∨ ∃ x ∈ xs, N x n := by
  induction xs generalizing S b with
  | nil => exact runs_pure b fun t ht => ht.mono fun n hn => hn.resolve_right (by simp)
  | cons x xs ih =>
      rw [List.foldlM_cons]
      refine runs_bind (hf x List.mem_cons_self S b) fun c => ?_
      have hrest := ih (fun y hy => hf y (List.mem_cons_of_mem _ hy)) (fun n => S n ∨ N x n) c
      refine runs_conseq hrest (fun _ h => h) fun _ t ht => ht.mono ?_
      rintro n (hS | ⟨y,hy,hn⟩)
      · exact .inl (.inl hS)
      · rcases List.mem_cons.mp hy with rfl | hy
        · exact .inl (.inr hn)
        · exact .inr ⟨y,hy,hn⟩

section Build
variable (hc : CalmBuild env) (hr : Rooted tree)
include hc

variable {S : List Str → Prop}

theorem runs_createDir {names : List Str} (hd : tree[names]? = some .dir) :
    Runs (PartOf tree S) (createDir env names)
      fun _ => PartOf tree fun n => S n ∨ n = names := by
  refine runs_read_bind fun t ht => ?_
  cases hn : t.nodes[names]? with
  | none =>
      refine runs_check_bind (hc.dirCreatable names) (runs_step ?_)
      rintro _ rfl
      exact ht.insert hd
  | some node =>
      cases node with
      | dir =>
          refine runs_pure () ?_
          rintro _ rfl
          refine ⟨ht.within,?_⟩
          rintro n (hS | rfl)
          · exact ht.has n hS
          · exact mem_of_getElem? hn
      | file content =>
          have hfile := ht.within names _ hn
          rw [hd] at hfile
          cases hfile

include hr in
theorem runs_createDirAll {names : List Str} (hd : tree[names]? = some .dir) :
    Runs (PartOf tree S) (createDirAll env names)
      fun _ => PartOf tree fun n => S n ∨ n = names := by
  have hdir : ∀ p ∈ names.inits, tree[p]? = some .dir := fun p hp =>
    hr.prefix_dir hd ((List.mem_inits _ _).mp hp)
  have hadds := runs_foldlM_adds (f := fun _ p => createDir env p) (N := fun p n => n = p)
    (fun p hp S _ => runs_createDir hc (S := S) (hdir p hp)) S ()
  refine runs_conseq hadds (fun _ h => h) fun _ t ht => ht.mono ?_
  rintro n (hS | rfl)
  · exact .inl hS
  · exact .inr ⟨n,(List.mem_inits _ _).mpr (List.prefix_refl _),rfl⟩

include hr in
theorem runs_buildDir {e : ManifestEntry} (created : Nat)
    (hd : e.kind = .dir → tree[resolve e.relPath]? = some .dir) :
    Runs (PartOf tree S) (buildDir env created e)
      fun _ => PartOf tree fun n => S n ∨ (e.kind = .dir ∧ n = resolve e.relPath) := by
  unfold buildDir
  by_cases hk : e.kind = .dir
  · rw [if_neg (not_not_intro hk)]
    refine runs_read_bind fun t ht => ?_
    split
    · rename_i hmem
      refine runs_pure created ?_
      rintro _ rfl
      refine ⟨ht.within,?_⟩
      rintro n (hS | ⟨-,rfl⟩)
      · exact ht.has n hS
      · exact hmem.2
    · refine runs_bind (R := fun _ => PartOf tree fun n => S n ∨ n = resolve e.relPath) ?_
        fun _ => runs_pure _ fun u hu => hu.mono ?_
      · exact runs_conseq (runs_createDirAll hc hr (hd hk)) (fun u hu => hu ▸ ht) fun _ _ h => h
      · rintro n (hS | ⟨-,rfl⟩)
        · exact .inl hS
        · exact .inr rfl
  · rw [if_pos hk]
    refine runs_pure created fun t ht => ht.mono ?_
    rintro n (hS | ⟨hdir,-⟩)
    · exact hS
    · exact absurd hdir hk

include hr in
/-- A planned file whose blob decodes to the content of the node ends up at its path. -/
theorem runs_buildFile {pf : PlannedFile} {content blob : Bytes} (hn : NamesNode pf.relPath)
    (hfile : tree[resolve pf.relPath]? = some (.file content))
    (hblob : blobs[pf.blobPath]? = some blob)
    (hdecode : BlobCodec.decodeBlob prim codec.cipher blob = .ok content)
    (hhash : pf.expectedSha256 = sha256Hex sha content) :
    Runs (PartOf tree S) (buildFile sha prim codec blobs env pf)
      fun _ => PartOf tree fun n => S n ∨ n = resolve pf.relPath := by
  have hparent := hr.parent _ _ hfile hn.ne_nil
  have hdrop : ∀ {S : List Str → Prop}, Runs (PartOf tree S)
      (createDirAll env (resolve pf.relPath).dropLast) fun _ => PartOf tree S := fun {S} =>
    runs_conseq (runs_createDirAll hc hr hparent) (fun _ h => h)
      fun _ t ht => ht.mono fun n hS => .inl hS
  refine runs_bind hdrop fun _ => ?_
  refine runs_bind (R := fun _ => PartOf tree fun n => S n ∨ n = resolve pf.relPath) ?_ fun _ => ?_
  · refine runs_bind hdrop fun _ => ?_
    refine runs_check_bind (hc.tempCreatable _) ?_
    refine runs_lift_bind (orElse_eq_ok.mpr hblob) ?_
    refine runs_check_bind (hc.blobReadable _) ?_
    refine runs_lift_bind (mapError_eq_ok.mpr hdecode) ?_
    refine runs_check_bind (by simp [hhash]) ?_
    refine runs_read_bind fun t ht => ?_
    have hnot : t.nodes[resolve pf.relPath]? ≠ some .dir := by
      intro hdir
      have hdir' := ht.within _ _ hdir
      rw [hfile] at hdir'
      cases hdir'
    refine runs_check_bind (by simp [hc.persistable,hn.names_file,hnot]) (runs_step ?_)
    rintro _ rfl
    exact ht.insert hfile
  · unfold restoreMtime
    split
    · exact runs_pure () fun t ht => ht
    · exact runs_check_bind (hc.mtimeSettable _) (runs_step fun t ht => ⟨ht.within,ht.has⟩)

end Build

theorem Describes.dir_node (hd : Describes sha tree m) {e : ManifestEntry}
    (he : ∃ k : Str, m.entries[k]? = some e) (hk : e.kind = .dir) :
    tree[resolve e.relPath]? = some .dir := by
  obtain ⟨k,hke⟩ := he
  obtain ⟨hrel,-,node,hnode,hfor⟩ := hd.entry k e hke
  rw [← hrel] at hnode
  cases node with
  | dir => exact hnode
  | file content =>
      rw [hfor.1] at hk
      cases hk

section Plan
variable (hd : Describes sha tree m) (hp : Provides sha prim codec blobs tree)
include hd hp

/-- Every file entry of a described tree is planned. -/
theorem planEntry_of_describes {e : ManifestEntry} (he : e ∈ m.entryValues) :
    planEntry sha blobs e = none ∨ ∃ content, tree[resolve e.relPath]? = some (.file content) ∧
      planEntry sha blobs e = some (.ok ⟨e.relPath,blobPath sha (sha256Hex sha content),
        sha256Hex sha content,e.mtimeUnix,e.mtimeNanos⟩) := by
  obtain ⟨k,hk⟩ := Manifest.mem_entryValues.mp he
  obtain ⟨hrel,-,node,hnode,hfor⟩ := hd.entry k e hk
  rw [← hrel] at hnode
  cases node with
  | dir => exact .inl (by rw [planEntry,hfor.1]; rfl)
  | file content =>
      obtain ⟨blob,hblob,-⟩ := hp _ content hnode
      refine .inr ⟨content,hnode,?_⟩
      have hmem : blobPath sha (sha256Hex sha content) ∈ blobs :=
        mem_of_getElem? hblob
      rw [planEntry,if_neg (by simp [hfor.1]),hfor.2]
      simp only [hmem,if_true]

/-- Nothing is missing, and the planned files are the files of the tree. -/
theorem preflight_of_describes {cfg : Config} {freeSpace : Option Nat}
    (hspace : ensureRestoreFreeSpace cfg freeSpace (plannedBytes sha blobs m) = .ok ()) :
    ∃ planned, preflightRestore sha cfg m blobs freeSpace = .ok planned ∧
      (∀ pf ∈ planned, ∃ content, NamesNode pf.relPath ∧
        tree[resolve pf.relPath]? = some (.file content) ∧
        pf.blobPath = blobPath sha (sha256Hex sha content) ∧
        pf.expectedSha256 = sha256Hex sha content) ∧
      ∀ e ∈ m.entryValues, e.kind = .file → ∃ pf ∈ planned, pf.relPath = e.relPath := by
  have hmissing : missingOf (m.entryValues.filterMap (planEntry sha blobs)) = [] := by
    refine List.filterMap_eq_nil_iff.mpr fun plan hplan => ?_
    obtain ⟨e,he,hpe⟩ := List.mem_filterMap.mp hplan
    rcases planEntry_of_describes hd hp he with hnone | ⟨content,-,hok⟩
    · rw [hnone] at hpe
      cases hpe
    · rw [hok] at hpe
      cases hpe
      rfl
  refine ⟨plannedOf (m.entryValues.filterMap (planEntry sha blobs)),?_,?_,?_⟩
  · refine then_eq_ok.mpr ⟨require_eq_ok.mpr ?_,then_eq_ok.mpr ⟨hspace,rfl⟩⟩
    rw [hmissing]
    rfl
  · intro pf hpf
    obtain ⟨plan,hplan,hplanned⟩ := List.mem_filterMap.mp hpf
    obtain ⟨e,he,hpe⟩ := List.mem_filterMap.mp hplan
    obtain ⟨k,hk⟩ := Manifest.mem_entryValues.mp he
    obtain ⟨hrel,hnames,-⟩ := hd.entry k e hk
    rcases planEntry_of_describes hd hp he with hnone | ⟨content,hfile,hok⟩
    · rw [hnone] at hpe
      cases hpe
    · rw [hok] at hpe
      cases hpe
      cases hplanned
      exact ⟨content,hrel ▸ hnames,hfile,rfl,rfl⟩
  · intro e he hfile
    rcases planEntry_of_describes hd hp he with hnone | ⟨content,-,hok⟩
    · unfold planEntry at hnone
      rw [if_neg (by simp [hfile])] at hnone
      split at hnone
      · cases hnone
      · split at hnone <;> cases hnone
    · exact ⟨_,List.mem_filterMap.mpr ⟨_,List.mem_filterMap.mpr ⟨e,he,hok⟩,rfl⟩,rfl⟩

end Plan

/-- The staged tree is the described one. -/
theorem runs_buildRestoreTree (hc : CalmBuild env) (hr : Rooted tree) (hd : Describes sha tree m)
    (hp : Provides sha prim codec blobs tree) {planned : List PlannedFile}
    (hplan : ∀ pf ∈ planned, ∃ content, NamesNode pf.relPath ∧
      tree[resolve pf.relPath]? = some (.file content) ∧
      pf.blobPath = blobPath sha (sha256Hex sha content) ∧
      pf.expectedSha256 = sha256Hex sha content)
    (hfiles : ∀ e ∈ m.entryValues, e.kind = .file → ∃ pf ∈ planned, pf.relPath = e.relPath) :
    Runs (fun t => t.nodes = ∅) (buildRestoreTree sha prim codec blobs env m planned)
      fun _ t => t.nodes = tree := by
  have hdirs := runs_foldlM_adds (f := buildDir env) fun e he S created =>
    runs_buildDir hc hr (S := S) created (hd.dir_node (Manifest.mem_entryValues.mp he))
  have hwrites := runs_foldlM_adds (f := fun _ pf => buildFile sha prim codec blobs env pf)
    fun pf hpf S _ => by
      obtain ⟨content,hnames,hfile,hpath,hhash⟩ := hplan pf hpf
      obtain ⟨blob,hblob,hdecode⟩ := hp _ content hfile
      exact runs_buildFile hc hr (S := S) hnames hfile (hpath ▸ hblob) hdecode hhash
  refine runs_bind (R := fun _ => PartOf tree fun n => n = []) ?_ fun _ => ?_
  · refine runs_conseq (runs_createDirAll hc hr (S := fun _ => False) hr.root) ?_
      fun _ t ht => ht.mono fun n hn => .inr hn
    intro t ht
    refine ⟨?_,fun _ h => h.elim⟩
    intro names node hn
    simp [ht] at hn
  refine runs_bind (hdirs _ 0) fun created => ?_
  refine runs_bind (hwrites _ ()) fun _ => runs_pure _ fun t ht => ?_
  refine ext_getElem? fun names => ?_
  cases hn : tree[names]? with
  | none =>
      cases ht' : t.nodes[names]? with
      | none => rfl
      | some node =>
          have hin := ht.within names node ht'
          rw [hn] at hin
          cases hin
  | some node =>
      have hmem : names ∈ t.nodes := by
        by_cases hnil : names = []
        · exact ht.has names (.inl (.inl hnil))
        · obtain ⟨k,e,hk,hres⟩ := hd.complete names node hn hnil
          have he := Manifest.mem_entryValues.mpr ⟨k,hk⟩
          have hrel := (hd.entry k e hk).1
          cases hkind : e.kind with
          | dir => exact ht.has names (.inl (.inr ⟨e,he,hkind,by rw [hrel,hres]⟩))
          | file =>
              obtain ⟨pf,hpf,hpe⟩ := hfiles e he hkind
              exact ht.has names (.inr ⟨pf,hpf,by rw [hpe,hrel,hres]⟩)
      obtain ⟨node',hnode'⟩ := exists_of_mem hmem
      rw [hnode',← hn,ht.within names node' hnode']

/-- Nothing fails around the build either. -/
structure CalmRestore (env : RestoreEnv) : Prop extends CalmBuild env where
  seen : ∀ look, env.seen look = true
  blobSeen : ∀ path, env.blobSeen path = true
  lease : env.lease = true
  manifestReadable : env.manifestReadable = true
  parentCreated : env.parentCreated = true
  codecLoaded : env.codecLoaded = true
  movedAside : env.movedAside = true
  movedIn : env.movedIn = true

/-- The target is free or a directory, and the staging directory is new. -/
structure ReadyArea (area : RestoreArea) : Prop where
  target : area.target.nodes[([] : List Str)]? = none ∨ area.target.nodes[([] : List Str)]? = some .dir
  stage : area.stage.nodes = ∅

theorem RestoreTree.present_iff {t : RestoreTree} :
    t.present = true ↔ t.nodes[([] : List Str)]? ≠ none := by
  rw [RestoreTree.present,Std.ExtTreeMap.contains_iff_mem,mem_iff_isSome_getElem?,
    Option.isSome_iff_ne_none]

theorem visibleBlobs_of_calm (hc : CalmRestore env) : visibleBlobs env blobs = blobs := by
  refine ext_getElem? fun path => ?_
  have hfilter : (visibleBlobs env blobs)[path]? = blobs[path]?.filter fun _ => true := by
    simp [visibleBlobs,getElem?_filter,hc.blobSeen]
  rw [hfilter]
  cases blobs[path]? with
  | none => rfl
  | some blob => rfl

/-- A directory restore of a version whose manifest describes the tree leaves that tree at the
target. -/
theorem runs_restoreVersion {Text : Type} [StoreText Text] {cfg : Config} {disk : Disk Text}
    {req : RestoreRequest} {root : Str} (hc : CalmRestore env) (hr : Rooted tree)
    (hroot : destinationRootForSource cfg req.sourcePath = .ok root)
    (hload : loadManifestForRequest sha req env (disk.store root) = .ok m)
    (hmode : req.mode = .toDirectory) (htarget : req.hasTargetDir = true)
    (hd : Describes sha tree m) (hp : Provides sha prim cfg.codec (disk.store root).blobs tree)
    (hspace : ensureRestoreFreeSpace cfg env.freeSpace
      (plannedBytes sha (disk.store root).blobs m) = .ok ()) :
    Runs ReadyArea (restoreVersion sha prim cfg disk req env)
      fun _ area => area.target.nodes = tree := by
  obtain ⟨planned,hpre,hplan,hfiles⟩ := preflight_of_describes hd hp hspace
  refine runs_lift_bind (then_eq_ok.mp hload).1 ?_
  refine runs_lift_bind hroot ?_
  refine runs_check_bind hc.lease ?_
  refine runs_lift_bind hload ?_
  refine runs_check_bind (by simp [htarget]) ?_
  refine runs_read_bind fun area ha => ?_
  have hdir : (!looksPresent env .target area.target ||
      env.seen .targetKind && area.target.nodes[([] : List Str)]? = some .dir) = true := by
    rcases ha.target with hnone | hdir
    · have hp : area.target.present = false := by
        rw [← Bool.not_eq_true,RestoreTree.present_iff,hnone]
        exact not_not_intro rfl
      simp [looksPresent,hp]
    · simp [hdir,hc.seen]
  have hfree : (!looksPresent env .stage area.stage) = true := by
    rw [looksPresent,RestoreTree.present,ha.stage]
    simp
  refine runs_check_bind hdir ?_
  refine runs_check_bind hc.parentCreated ?_
  refine runs_lift_bind ((congrArg (preflightRestore sha cfg m · env.freeSpace)
    (visibleBlobs_of_calm hc)).trans hpre) ?_
  refine runs_check_bind hc.codecLoaded ?_
  refine runs_check_bind hfree ?_
  refine runs_bind (R := fun _ t => t = area) ?_ fun removed => ?_
  · refine runs_read_bind fun t ht => ?_
    rw [if_neg (by simp [hmode])]
    exact runs_pure 0 fun u hu => hu.trans ht
  refine runs_bind (R := fun _ t => t.stage.nodes = tree) ?_ fun result => ?_
  · have hbuild := runs_buildRestoreTree hc.toCalmBuild hr hd hp hplan hfiles
    refine runs_bind ((hbuild.zoom ha.stage).attempt) ?_
    rintro _ _ ⟨result,rfl,t,rfl,ht⟩
    exact ⟨result,_,returns_pure.mpr ⟨rfl,rfl⟩,ht⟩
  refine runs_bind (R := fun _ t => t.stage.nodes = tree) ?_ fun _ => ?_
  · refine runs_read_bind fun t ht => ?_
    split
    · refine runs_check_bind hc.movedAside (runs_step ?_)
      rintro _ rfl
      exact ht
    · refine runs_pure () ?_
      rintro _ rfl
      exact ht
  refine runs_bind (R := fun _ t => t.target.nodes = tree) ?_ fun _ => ?_
  · refine runs_read_bind fun t ht => ?_
    rw [if_pos hc.movedIn]
    refine runs_step ?_
    rintro _ rfl
    exact ht
  refine runs_bind (R := fun _ t => t.target.nodes = tree) ?_ fun _ => ?_
  · refine runs_read_bind fun t ht => ?_
    rw [if_neg (by simp [hmode])]
    refine runs_pure () ?_
    rintro _ rfl
    exact ht
  exact runs_pure _ fun t ht => ht

end RestoredTree
end BackupSync
