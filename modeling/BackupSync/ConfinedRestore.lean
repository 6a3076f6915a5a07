import BackupSync.RestoredManifest
import BackupSync.RestoreFiles

/-!
# A restore of selected files stays below its root

All targets are checked before the first file is replaced. The check finds the way
to each target clear, and the staged tree shows that no target lies above another
one. Creating parents and replacing targets keeps both facts, so the second check,
made while files are being replaced, never finds a target blocked, and no operation
ever passes through a link.
-/
namespace BackupSync
open Checks Interruptible Interruptible.Action RelativePath ContentHash RestoredManifest
  RestoreFiles

namespace ConfinedRestore

variable {s t u : RestoreSite} {env : RestoreFilesEnv} {planned : List PlannedFile}
  {pf : PlannedFile} {path : List Str} {look : FilesLook}

/-- The requested paths cannot be restored or written. -/
def refused : RestoreFilesError → Bool
  | .unsafePath _ => true
  | .missingContent _ => true
  | .restore (.readBlob _) => true
  | .restore (.decodeBlob _) => true
  | .restore (.hashMismatch _ _) => true
  | .rootSymlink => true
  | .rootNotADirectory => true
  | .symlinkComponent _ => true
  | .parentNotADirectory _ => true
  | .targetSymlink _ => true
  | .targetDirectory _ => true
  | _ => false

/-- Directories above the restore root are only created. -/
def OnlyCreated (above above' : List (Option (FileEntry Bytes))) : Prop :=
  ∀ position : Nat, above'[position]? = above[position]? ∨
    (above[position]? = some none ∧ above'[position]? = some (some .dir))

/-- What changed is a new directory or a file, reached through directories only, and no link or
directory was replaced. -/
structure Confined (s t : RestoreSite) : Prop where
  escaped : t.escaped = s.escaped
  kept : ∀ path e, s.tree.entry path = some e → e = .dir ∨ e = .symlink → t.tree.entry path = some e
  changed : ∀ path, t.tree.entry path ≠ s.tree.entry path →
    (∀ p, p <+: path → p ≠ path → t.tree.entry p = some .dir) ∧
      ((s.tree.entry path = none ∧ t.tree.entry path = some .dir) ∨
        ∃ content, t.tree.entry path = some (.file content))
  above : OnlyCreated s.above t.above

/-- Nothing but the staging directory has changed. -/
structure Same (s t : RestoreSite) : Prop where
  tree : t.tree = s.tree
  above : t.above = s.above
  escaped : t.escaped = s.escaped

/-- A target that can be written. -/
structure Open (tree : FileTree Str Bytes) (path : List Str) : Prop where
  clear : tree.Clear path
  not_dir : tree.entry path ≠ some .dir
  not_symlink : tree.entry path ≠ some .symlink

/-- An entry while the planned files are being replaced. -/
inductive Step (planned : List PlannedFile) (s t : FileTree Str Bytes) (path : List Str) : Prop
  | same (h : t.entry path = s.entry path)
  | created (pf : PlannedFile) (hpf : pf ∈ planned) (habove : path <+: resolve pf.relPath)
      (hne : path ≠ resolve pf.relPath) (hs : s.entry path = none) (ht : t.entry path = some .dir)
  | replaced (pf : PlannedFile) (hpf : pf ∈ planned) (hpath : path = resolve pf.relPath)
      (content : Bytes) (ht : t.entry path = some (.file content))

structure Progress (planned : List PlannedFile) (s t : RestoreSite) : Prop where
  escaped : t.escaped = s.escaped
  step : ∀ path, Step planned s.tree t.tree path
  above : OnlyCreated s.above t.above

/-- What the first check and the staged tree say about the planned files. -/
structure Ready (planned : List PlannedFile) (s : RestoreSite) : Prop where
  names : ∀ pf ∈ planned, resolve pf.relPath ≠ []
  opened : ∀ pf ∈ planned, Open s.tree (resolve pf.relPath)
  leaves : ∀ pf ∈ planned, ∀ pf' ∈ planned, resolve pf.relPath <+: resolve pf'.relPath →
    resolve pf.relPath = resolve pf'.relPath

section Progress

theorem Same.progress (h : Same s t) : Progress planned s t := by
  refine ⟨h.escaped,fun path => .same (by rw [h.tree]),fun position => .inl (by rw [h.above])⟩

theorem Progress.confined (hr : Ready planned s) (h : Progress planned s t) : Confined s t := by
  refine ⟨h.escaped,?_,?_,h.above⟩
  · intro path e he hkind
    rcases h.step path with hsame | ⟨pf,-,-,-,hs,-⟩ | ⟨pf,hpf,rfl,content,-⟩
    · rw [hsame,he]
    · rw [hs] at he
      cases he
    · have hopen := hr.opened pf hpf
      rcases hkind with rfl | rfl
      · exact absurd he hopen.not_dir
      · exact absurd he hopen.not_symlink
  · intro path hne
    have hentry : (s.tree.entry path = none ∧ t.tree.entry path = some .dir) ∨
        ∃ content, t.tree.entry path = some (.file content) := by
      rcases h.step path with hsame | ⟨pf,-,-,-,hs,ht⟩ | ⟨pf,-,-,content,ht⟩
      · exact absurd hsame hne
      · exact .inl ⟨hs,ht⟩
      · exact .inr ⟨content,ht⟩
    refine ⟨?_,hentry⟩
    intro p hp hpne
    rcases hentry with ⟨-,ht⟩ | ⟨content,ht⟩
    · exact t.tree.dir_above ht hp hpne
    · exact t.tree.dir_above ht hp hpne

/-- The targets stay open while others are being replaced. -/
theorem Progress.opened (hr : Ready planned s) (h : Progress planned s t) (hpf : pf ∈ planned) :
    Open t.tree (resolve pf.relPath) := by
  have hs := hr.opened pf hpf
  refine ⟨?_,?_,?_⟩
  · intro p hp hne
    rcases h.step p with hsame | ⟨_,-,-,-,-,ht⟩ | ⟨pf',hpf',rfl,content,-⟩
    · rw [hsame]
      exact hs.clear p hp hne
    · exact .inr ht
    · exact absurd (hr.leaves pf' hpf' pf hpf hp) hne
  · rcases h.step (resolve pf.relPath) with hsame | ⟨pf',hpf',hp,hne,-,-⟩ | ⟨_,-,-,content,ht⟩
    · rw [hsame]
      exact hs.not_dir
    · exact absurd (hr.leaves pf hpf pf' hpf' hp) hne
    · rw [ht]
      simp
  · rcases h.step (resolve pf.relPath) with hsame | ⟨_,-,-,-,-,ht⟩ | ⟨_,-,-,content,ht⟩
    · rw [hsame]
      exact hs.not_symlink
    · rw [ht]
      simp
    · rw [ht]
      simp

theorem Progress.createDir (h : Progress planned s t) (hpf : pf ∈ planned)
    (hp : path <+: resolve pf.relPath) (hne : path ≠ resolve pf.relPath)
    (hfree : t.tree.entry path = none) (hacc : t.tree.Accepts path .dir) :
    Progress planned s {t with tree := t.tree.put path .dir} := by
  refine ⟨h.escaped,?_,h.above⟩
  intro p
  by_cases he : p = path
  · subst he
    refine .created pf hpf hp hne ?_ (FileTree.entry_put_self hacc)
    rcases h.step p with hsame | ⟨_,-,-,-,hs,-⟩ | ⟨_,-,-,content,ht⟩
    · rw [← hsame,hfree]
    · exact hs
    · rw [hfree] at ht
      cases ht
  · have hput : (t.tree.put path .dir).entry p = t.tree.entry p := FileTree.entry_put_of_ne he
    rcases h.step p with hsame | ⟨pf',hpf',hp',hne',hs,ht⟩ | ⟨pf',hpf',hpath,content,ht⟩
    · exact .same (hput.trans hsame)
    · exact .created pf' hpf' hp' hne' hs (hput.trans ht)
    · exact .replaced pf' hpf' hpath content (hput.trans ht)

theorem Progress.replaceFile (h : Progress planned s t) (hpf : pf ∈ planned) {content : Bytes}
    (hacc : t.tree.Accepts (resolve pf.relPath) (.file content)) :
    Progress planned s {t with tree := t.tree.put (resolve pf.relPath) (.file content)} := by
  refine ⟨h.escaped,?_,h.above⟩
  intro p
  by_cases he : p = resolve pf.relPath
  · subst he
    exact .replaced pf hpf rfl content (FileTree.entry_put_self hacc)
  · have hput : (t.tree.put (resolve pf.relPath) (.file content)).entry p = t.tree.entry p :=
      FileTree.entry_put_of_ne he
    rcases h.step p with hsame | ⟨pf',hpf',hp',hne',hs,ht⟩ | ⟨pf',hpf',hpath,content',ht⟩
    · exact .same (hput.trans hsame)
    · exact .created pf' hpf' hp' hne' hs (hput.trans ht)
    · exact .replaced pf' hpf' hpath content' (hput.trans ht)

theorem Progress.createAncestor (h : Progress planned s t) {position : Nat}
    (hs : s.above[position]? = some none) :
    Progress planned s {t with above := t.above.set position (some .dir)} := by
  refine ⟨h.escaped,h.step,?_⟩
  intro i
  by_cases he : position = i
  · subst he
    have hlt : position < t.above.length := by
      rcases h.above position with hsame | ⟨-,ht⟩
      · rw [hs] at hsame
        exact (List.getElem?_eq_some_iff.mp hsame).1
      · exact (List.getElem?_eq_some_iff.mp ht).1
    exact .inr ⟨hs,by simp [hlt]⟩
  · rcases h.above i with hsame | ⟨hnone,ht⟩
    · exact .inl (by simpa [List.getElem?_set,he] using hsame)
    · exact .inr ⟨hnone,by simpa [List.getElem?_set,he] using ht⟩

end Progress

/-- An error that does not concern the requested paths, while files are being replaced. -/
def Interrupted (planned : List PlannedFile) (s : RestoreSite) (e : RestoreFilesError)
    (t : RestoreSite) : Prop :=
  refused e = false ∧ Progress planned s t

theorem mem_pushed {current rest : List Str} (h : path ∈ pushed current rest) :
    path <+: current++rest := by
  induction rest generalizing current with
  | nil => cases h
  | cons name rest ih =>
      have hassoc : current++name::rest = current++[name]++rest := by simp
      rw [hassoc]
      rcases List.mem_cons.mp h with rfl | h
      · exact List.prefix_append _ _
      · exact ih h

theorem dropLast_ne {names : List Str} (h : names ≠ []) : names.dropLast ≠ names := by
  intro he
  have hlength := congrArg List.length he
  rw [List.length_dropLast] at hlength
  have hpos := List.length_pos_iff.mpr h
  omega

/-- A parent of a target lies properly above it. -/
theorem above_of_mem_parentPaths {relPath : Str} (hne : resolve relPath ≠ [])
    (h : path ∈ parentPaths relPath) : path <+: resolve relPath ∧ path ≠ resolve relPath := by
  have hp : path <+: (resolve relPath).dropLast := by simpa using mem_pushed h
  refine ⟨hp.trans (List.dropLast_prefix _),?_⟩
  rintro rfl
  exact dropLast_ne hne ((List.dropLast_prefix _).eq_of_length_le hp.length_le)

section Commit
variable (hr : Ready planned s) (hpf : pf ∈ planned)
include hr hpf

/-- On the way to a planned target a look tells the truth. -/
theorem spec_lstat (hp : path <+: resolve pf.relPath) :
    Spec (Progress planned s) (lstat env look path)
      (fun r t => Progress planned s t ∧ r = t.tree.entry path) (Interrupted planned s)
      (Progress planned s) := by
  refine spec_read_bind fun u hu => spec_check_bind (fun t ht => ⟨rfl,ht.2⟩) fun _ => ?_
  rw [FileTree.lookup_of_clear ((hu.opened hr hpf).clear.on_way hp)]
  refine spec_lift ?_ ?_
  · rintro _ ⟨⟩ t ⟨rfl,ht⟩
    exact ⟨ht,rfl⟩
  · intro e he
    cases he

/-- Properly above a planned target there is a directory or nothing. -/
theorem spec_lstat_above_bind {α : Type} {f : Option (FileEntry Bytes) → RestoreFiles.Op α}
    {Q : α → RestoreSite → Prop} (hp : path <+: resolve pf.relPath) (hne : path ≠ resolve pf.relPath)
    (hnone : Spec (Progress planned s) (f none) Q (Interrupted planned s) (Progress planned s))
    (hdir : Spec (Progress planned s) (f (some .dir)) Q (Interrupted planned s) (Progress planned s)) :
    Spec (Progress planned s) (lstat env look path >>= f) Q (Interrupted planned s)
      (Progress planned s) := by
  refine spec_bind (spec_lstat hr hpf hp) fun r => spec_forall ?_
  rintro t ⟨ht,rfl⟩
  rcases (ht.opened hr hpf).clear path hp hne with he | he
  · rw [he]
    exact spec_pre hnone (fun _ h => h ▸ ht)
  · rw [he]
    exact spec_pre hdir (fun _ h => h ▸ ht)

theorem spec_validateRestoreRoot : Spec (Progress planned s) (validateRestoreRoot env look)
    (fun _ => Progress planned s) (Interrupted planned s) (Progress planned s) := by
  apply spec_lstat_above_bind hr hpf List.nil_prefix (hr.names pf hpf).symm
  · exact spec_pure _ fun _ h => h
  · exact spec_pure _ fun _ h => h

theorem spec_checkParents (paths : List (List Str))
    (hpaths : ∀ path ∈ paths, path <+: resolve pf.relPath ∧ path ≠ resolve pf.relPath) :
    Spec (Progress planned s) (checkParents env look paths) (fun _ => Progress planned s)
      (Interrupted planned s) (Progress planned s) := by
  induction paths with
  | nil => exact spec_pure _ fun _ h => h
  | cons path paths ih =>
      obtain ⟨hp,hne⟩ := hpaths path List.mem_cons_self
      apply spec_lstat_above_bind hr hpf hp hne
      · exact spec_pure _ fun _ h => h
      · exact ih fun p h => hpaths p (List.mem_cons_of_mem _ h)

theorem spec_validateTargetPath : Spec (Progress planned s) (validateTargetPath env look pf.relPath)
    (fun _ => Progress planned s) (Interrupted planned s) (Progress planned s) := by
  refine spec_bind (spec_validateRestoreRoot hr hpf) fun _ => ?_
  refine spec_bind (spec_checkParents hr hpf _ fun path h =>
    above_of_mem_parentPaths (hr.names pf hpf) h) fun _ => ?_
  refine spec_bind (spec_lstat hr hpf List.prefix_rfl) fun r => ?_
  split
  · refine spec_of_false ?_
    rintro t ⟨ht,he⟩
    exact (ht.opened hr hpf).not_symlink he.symm
  · refine spec_of_false ?_
    rintro t ⟨ht,he⟩
    exact (ht.opened hr hpf).not_dir he.symm
  · exact spec_pure _ fun _ h => h.1
  · exact spec_pure _ fun _ h => h.1

theorem spec_createDirectory (hp : path <+: resolve pf.relPath) (hne : path ≠ resolve pf.relPath) :
    Spec (Progress planned s) (createDirectory env path) (fun _ => Progress planned s)
      (Interrupted planned s) (Progress planned s) := by
  refine spec_read_bind fun u hu => spec_check_bind (fun t ht => ⟨rfl,ht.2⟩) fun _ => ?_
  have hclear := (hu.opened hr hpf).clear.on_way hp
  rcases FileTree.reach_of_clear hclear with hreach | hreach
  · rw [hreach]
    refine spec_check_bind (fun t ht => ⟨rfl,ht.2⟩) fun hfree => spec_step ?_
    rintro t ⟨rfl,ht⟩
    have hnone := Option.isNone_iff_eq_none.mp hfree
    have hacc : t.tree.Accepts path .dir :=
      ⟨FileTree.parent_of_inside hclear hreach,fun _ => rfl⟩
    have hnext := ht.createDir hpf hp hne hnone hacc
    exact ⟨hnext,hnext⟩
  · rw [hreach]
    exact spec_fail _ fun t ht => ⟨rfl,ht.2⟩

omit hr hpf in
theorem missingAncestors_eq_ok {position missing : Nat} {above : List (Option (FileEntry Bytes))}
    (h : missingAncestors env position above = .ok missing) :
    ∀ i < missing, above[i]? = some none := by
  induction above generalizing position missing with
  | nil => cases h
  | cons found above ih =>
      obtain ⟨-,h⟩ := then_eq_ok.mp h
      cases found with
      | none =>
          obtain ⟨rest,hrest,h⟩ := bind_eq_ok.mp h
          cases h
          intro i hi
          cases i with
          | zero => rfl
          | succ i => exact ih hrest i (by omega)
      | some e =>
          cases e with
          | dir =>
              cases h
              intro i hi
              cases hi
          | file _ => cases h
          | symlink => cases h
          | other => cases h

omit hr hpf in
theorem missingAncestors_eq_error {position : Nat} {above : List (Option (FileEntry Bytes))}
    {e : RestoreFilesError} (h : missingAncestors env position above = .error e) :
    refused e = false := by
  induction above generalizing position with
  | nil =>
      cases h
      rfl
  | cons found above ih =>
      unfold missingAncestors at h
      cases hlook : env.ancestorReinspected position with
      | false =>
          rw [hlook] at h
          cases h
          rfl
      | true =>
          rw [hlook] at h
          cases found with
          | none =>
              cases hrest : missingAncestors env (position+1) above with
              | ok missing =>
                  rw [hrest] at h
                  cases h
              | error e' =>
                  rw [hrest] at h
                  cases h
                  exact ih hrest
          | some entry =>
              cases entry with
              | dir => cases h
              | file _ =>
                  cases h
                  rfl
              | symlink =>
                  cases h
                  rfl
              | other =>
                  cases h
                  rfl

omit hr hpf in
theorem spec_createAncestors (positions : List Nat)
    (hs : ∀ position ∈ positions, s.above[position]? = some none) :
    Spec (Progress planned s) (positions.foldlM (fun _ position => createAncestor env position) ())
      (fun _ => Progress planned s) (Interrupted planned s) (Progress planned s) := by
  refine spec_foldlM (fun _ _ => Progress planned s) ?_ [] ()
  intro position hmem _ _
  refine spec_check_bind (fun t ht => ⟨rfl,ht⟩) fun _ => ?_
  refine spec_bind (R := fun _ => Progress planned s) (spec_step fun t ht => ?_) fun _ => ?_
  · have hnext := ht.createAncestor (hs position hmem)
    exact ⟨hnext,hnext⟩
  · exact spec_check (fun _ _ ht => ht) fun t ht => ⟨rfl,ht⟩

theorem spec_createSafeDirectoryPath (relPath : Str) :
    Spec (Progress planned s) (createSafeDirectoryPath env relPath) (fun _ => Progress planned s)
      (Interrupted planned s) (Progress planned s) := by
  apply spec_lstat_above_bind hr hpf List.nil_prefix (hr.names pf hpf).symm
  · refine spec_read_bind fun u hu => ?_
    refine spec_lift_bind (fun e he t ht => ⟨missingAncestors_eq_error he,ht.2⟩) fun missing hmissing => ?_
    refine spec_bind (R := fun _ => Progress planned s) ?_ fun _ => ?_
    · refine spec_pre (spec_createAncestors _ ?_) (fun _ h => h.2)
      intro position hmem
      have hnone := missingAncestors_eq_ok hmissing position
        (List.mem_range.mp (List.mem_reverse.mp hmem))
      rcases hu.above position with hsame | ⟨-,hdir⟩
      · rw [← hsame,hnone]
      · rw [hnone] at hdir
        cases hdir
    · refine spec_bind (spec_createDirectory hr hpf List.nil_prefix (hr.names pf hpf).symm) fun _ => ?_
      exact spec_check_bind (fun t ht => ⟨rfl,ht⟩) fun _ => spec_pure _ fun _ h => h
  · exact spec_pure _ fun _ h => h

theorem spec_createParents (paths : List (List Str)) (created : Nat)
    (hpaths : ∀ path ∈ paths, path <+: resolve pf.relPath ∧ path ≠ resolve pf.relPath) :
    Spec (Progress planned s) (paths.foldlM (createParent env look) created)
      (fun _ => Progress planned s) (Interrupted planned s) (Progress planned s) := by
  refine spec_foldlM (fun _ _ => Progress planned s) ?_ [] created
  intro path hmem _ n
  obtain ⟨hp,hne⟩ := hpaths path hmem
  apply spec_lstat_above_bind hr hpf hp hne
  · exact spec_bind (spec_createDirectory hr hpf hp hne) fun _ => spec_pure _ fun _ h => h
  · exact spec_pure _ fun _ h => h

theorem spec_replaceFileFromStaged : Spec (Progress planned s) (replaceFileFromStaged env pf)
    (fun _ => Progress planned s) (Interrupted planned s) (Progress planned s) := by
  refine spec_read_bind fun u hu => spec_lift_bind ?_ fun content _ => ?_
  · intro e he t ht
    refine ⟨?_,ht.2⟩
    split at he
    · cases he
    · cases he
      rfl
  refine spec_check_bind (fun t ht => ⟨rfl,ht.2⟩) fun _ => ?_
  have hclear := (hu.opened hr hpf).clear
  rcases FileTree.reach_of_clear hclear with hreach | hreach
  · rw [hreach]
    refine spec_check_bind (fun t ht => ⟨rfl,ht.2⟩) fun hfree => spec_step ?_
    rintro t ⟨rfl,ht⟩
    have hacc : t.tree.Accepts (resolve pf.relPath) (.file content) :=
      ⟨FileTree.parent_of_inside hclear hreach,fun hdir => absurd hdir (of_decide_eq_true hfree)⟩
    have hnext := ht.replaceFile hpf hacc
    exact ⟨hnext,hnext⟩
  · rw [hreach]
    exact spec_fail _ fun t ht => ⟨rfl,ht.2⟩

theorem spec_commitFile (result : RestoreResult) :
    Spec (Progress planned s) (commitFile env result pf) (fun _ => Progress planned s)
      (Interrupted planned s) (Progress planned s) := by
  refine spec_bind (R := fun _ => Progress planned s) ?_ fun created => ?_
  · refine spec_bind (spec_createSafeDirectoryPath hr hpf _) fun _ => ?_
    refine spec_bind (spec_validateRestoreRoot hr hpf) fun _ => ?_
    refine spec_bind (spec_createParents hr hpf _ _ fun path h =>
      above_of_mem_parentPaths (hr.names pf hpf) h) fun _ => ?_
    exact spec_bind (spec_validateTargetPath hr hpf) fun _ => spec_pure _ fun _ h => h
  · exact spec_bind (spec_replaceFileFromStaged hr hpf) fun _ => spec_pure _ fun _ h => h

end Commit

section Check

theorem spec_lstat_unchanged : Spec (Same s) (lstat env look path)
    (fun r t => Same s t ∧ (s.tree.Clear path → r = s.tree.entry path)) (fun _ => Same s) (Same s) := by
  refine spec_read_bind fun u hu => spec_check_bind (fun t ht => ht.2) fun _ => ?_
  refine spec_lift ?_ fun e _ t ht => ht.2
  rintro r hr t ⟨-,ht⟩
  refine ⟨ht,?_⟩
  intro hclear
  rw [hu.tree,FileTree.lookup_of_clear hclear] at hr
  cases hr
  rfl

/-- A root that passes is a directory or missing. -/
theorem spec_validateRestoreRoot_unchanged : Spec (Same s) (validateRestoreRoot env look)
    (fun _ t => Same s t ∧ (s.tree.entry [] = none ∨ s.tree.entry [] = some .dir)) (fun _ => Same s)
    (Same s) := by
  refine spec_bind spec_lstat_unchanged fun r => ?_
  split
  · exact spec_pure _ fun t ht => ⟨ht.1,.inl (ht.2 FileTree.clear_nil).symm⟩
  · exact spec_pure _ fun t ht => ⟨ht.1,.inr (ht.2 FileTree.clear_nil).symm⟩
  · exact spec_fail _ fun t ht => ht.1
  · exact spec_fail _ fun t ht => ht.1

/-- Parents that pass leave the way to the target clear. -/
theorem spec_checkParents_unchanged {current : List Str} (rest : List Str)
    (hclear : s.tree.Clear current)
    (hentry : s.tree.entry current = none ∨ s.tree.entry current = some .dir) :
    Spec (Same s) (checkParents env look (pushed current rest))
      (fun _ t => Same s t ∧ s.tree.Clear (current++rest) ∧
        (s.tree.entry (current++rest) = none ∨ s.tree.entry (current++rest) = some .dir))
      (fun _ => Same s) (Same s) := by
  induction rest generalizing current with
  | nil =>
      rw [List.append_nil]
      exact spec_pure _ fun t ht => ⟨ht,hclear,hentry⟩
  | cons name rest ih =>
      have hassoc : current++name::rest = current++[name]++rest := by simp
      have hnext := hclear.concat hentry name
      rw [hassoc]
      refine spec_bind spec_lstat_unchanged fun r => ?_
      split
      · exact spec_fail _ fun t ht => ht.1
      · refine spec_fact fun hr => ?_
        exact ih hnext (.inr (hr hnext).symm)
      · exact spec_fail _ fun t ht => ht.1
      · refine spec_pure _ ?_
        rintro t ⟨ht,hr⟩
        have hgap := (hr hnext).symm
        have hp : current++[name] <+: current++[name]++rest := List.prefix_append _ _
        exact ⟨ht,hnext.of_gap hgap hp,.inl (FileTree.none_below hgap hp)⟩

theorem spec_validateTargetPath_unchanged {relPath : Str} (hne : resolve relPath ≠ []) :
    Spec (Same s) (validateTargetPath env look relPath)
      (fun _ t => Same s t ∧ Open s.tree (resolve relPath)) (fun _ => Same s) (Same s) := by
  refine spec_bind spec_validateRestoreRoot_unchanged fun _ => spec_fact fun hroot => ?_
  refine spec_bind (spec_checkParents_unchanged _ FileTree.clear_nil hroot) fun _ => spec_fact ?_
  rintro ⟨hclear,hentry⟩
  have htarget : s.tree.Clear (resolve relPath) := by
    have h := hclear.concat hentry ((resolve relPath).getLast hne)
    rwa [List.nil_append,List.dropLast_append_getLast] at h
  refine spec_bind spec_lstat_unchanged fun r => spec_fact fun hr => ?_
  have hfound := hr htarget
  split
  · exact spec_fail _ fun t ht => ht
  · exact spec_fail _ fun t ht => ht
  · rename_i hsymlink hdir
    refine spec_pure _ fun t ht => ⟨ht,htarget,?_,?_⟩
    · rw [← hfound]
      exact fun h => hdir (Option.some.inj h)
    · rw [← hfound]
      exact fun h => hsymlink (Option.some.inj h)
  · refine spec_pure _ fun t ht => ⟨ht,htarget,?_,?_⟩
    · rw [← hfound]
      simp
    · rw [← hfound]
      simp

/-- The first check, over all planned files. -/
theorem spec_checkAll (hnames : ∀ pf ∈ planned, resolve pf.relPath ≠ []) : Spec (Same s)
    (planned.foldlM (fun _ pf => validateTargetPath env (.checking pf.relPath) pf.relPath) ())
    (fun _ t => Same s t ∧ ∀ pf ∈ planned, Open s.tree (resolve pf.relPath)) (fun _ => Same s)
    (Same s) := by
  refine spec_foldlM_forall ?_ ()
  intro pf hpf _
  exact spec_validateTargetPath_unchanged (hnames pf hpf)

end Check

section Stage
variable {sha : Sha256} {prim : Primitives} {codec : BlobCodec}
  {blobs : Map BlobPath Bytes}

theorem built_emptyStage : Built sha [] [] emptyStage.nodes := by
  have h : Built sha [] [] (Std.ExtTreeMap.insert ∅ [] .dir) :=
    built_empty.insertDir (by simp) fun hne => absurd rfl hne
  exact h

/-- Staging changes nothing else, and shows that the planned files can stand side by side. -/
theorem spec_stageFiles : Spec (fun t => Same s t ∧ t.stage = emptyStage)
    (stageFiles env sha prim codec blobs planned)
    (fun _ t => Same s t ∧ ∀ pf ∈ planned, ∀ pf' ∈ planned, resolve pf.relPath <+: resolve pf'.relPath →
      resolve pf.relPath = resolve pf'.relPath)
    (fun _ => Same s) (Same s) := by
  refine spec_forall ?_
  rintro u ⟨hu,hstage⟩
  have hsame : ∀ staged, Same s {u with stage := staged} := fun _ => ⟨hu.tree,hu.above,hu.escaped⟩
  refine spec_conseq (spec_zoom RestoreSite.stage (fun t site => {site with stage := t})
    (spec_returns _ u.stage) rfl) (fun _ h => h) ?_ ?_ ?_
  · rintro _ _ ⟨staged,rfl,hr⟩
    refine ⟨hsame staged,?_⟩
    have hb : Built sha [] [] u.stage.nodes := hstage ▸ built_emptyStage
    have hbuilt : Built sha [] ([]++planned) staged.nodes := by
      refine returns_foldlM_done (fun done _ t => Built sha [] done t.nodes) ?_ hb
        (returns_mapFailure.mp hr)
      intro pf _ done _ t _ t' h hstep
      exact returns_buildFile hstep h
    intro pf hpf pf' hpf' hp
    obtain ⟨content,hfile⟩ := hbuilt.file pf hpf
    obtain ⟨content',hfile'⟩ := hbuilt.file pf' hpf'
    exact hbuilt.leaf hfile hfile' hp
  · rintro _ _ ⟨staged,rfl,-⟩
    exact hsame staged
  · rintro _ ⟨staged,rfl,-⟩
    exact hsame staged

end Stage

section Plan
variable {sha : Sha256} {m : Manifest} {blobs : Map BlobPath Bytes}

theorem planFile_eq_ok {relPath : Str} {pf : PlannedFile} {len : Nat}
    (h : planFile sha m blobs relPath = .ok (pf,len)) : pf.relPath = relPath := by
  unfold planFile at h
  split at h
  · cases h
  · split at h
    · cases h
    · split at h
      · cases h
      · split at h
        · cases h
          rfl
        · cases h

theorem mem_planPaths {seen relPaths : List Str}
    {plans : List (Except MissingFile (PlannedFile × Nat))} {plan : Except MissingFile (PlannedFile × Nat)}
    (h : planPaths sha m blobs seen relPaths = .ok plans) (hplan : plan ∈ plans) :
    ∃ relPath, validateRelativePath relPath = .ok () ∧ plan = planFile sha m blobs relPath := by
  induction relPaths generalizing seen plans with
  | nil =>
      cases h
      cases hplan
  | cons relPath relPaths ih =>
      obtain ⟨hvalid,h⟩ := then_eq_ok.mp h
      split at h
      · exact ih h hplan
      · obtain ⟨rest,hrest,h⟩ := bind_eq_ok.mp h
        cases h
        rcases List.mem_cons.mp hplan with rfl | hplan
        · exact ⟨relPath,hvalid,rfl⟩
        · exact ih hrest hplan

theorem names_of_planRequest {relPaths : List Str} {bytes : Nat}
    (h : planRequest sha m blobs relPaths = .ok (planned,bytes)) :
    ∀ pf ∈ planned, resolve pf.relPath ≠ [] := by
  obtain ⟨plans,hplans,h⟩ := bind_eq_ok.mp h
  obtain ⟨-,h⟩ := then_eq_ok.mp h
  cases h
  intro pf hpf
  obtain ⟨⟨pf',len⟩,hmem,rfl⟩ := List.mem_map.mp hpf
  obtain ⟨plan,hplan,hok⟩ := List.mem_filterMap.mp hmem
  obtain ⟨relPath,hvalid,rfl⟩ := mem_planPaths (mapError_eq_ok.mp hplans) hplan
  split at hok
  · cases hok
  · rename_i planned' heq
    cases hok
    rw [planFile_eq_ok heq]
    exact resolve_ne_nil hvalid

end Plan

/-- How a restore may end with an error. -/
def Stopped (s : RestoreSite) (e : RestoreFilesError) (t : RestoreSite) : Prop :=
  Confined s t ∧ (refused e = true → Same s t)

theorem Same.confined (h : Same s t) : Confined s t := by
  refine ⟨h.escaped,?_,?_,fun position => .inl (by rw [h.above])⟩
  · intro path e he _
    rw [h.tree,he]
  · intro path hne
    exact absurd (by rw [h.tree]) hne

theorem Same.stopped {e : RestoreFilesError} (h : Same s t) : Stopped s e t := ⟨h.confined,fun _ => h⟩

section Restore
variable {sha : Sha256} {prim : Primitives} {codec : BlobCodec}
  {blobs : Map BlobPath Bytes}

theorem spec_commitAll (hr : Ready planned s) (result : RestoreResult) :
    Spec (Same s) (planned.foldlM (commitFile env) result) (fun _ => Confined s) (Stopped s)
      (Confined s) := by
  have hfold : Spec (Progress planned s) (planned.foldlM (commitFile env) result)
      (fun _ => Progress planned s) (Interrupted planned s) (Progress planned s) :=
    spec_foldlM (fun _ _ => Progress planned s) (fun pf hpf _ b => spec_commitFile hr hpf b) [] result
  refine spec_conseq hfold (fun _ h => h.progress) (fun _ _ h => h.confined hr) ?_
    fun _ h => h.confined hr
  rintro e t ⟨he,ht⟩
  refine ⟨ht.confined hr,?_⟩
  intro hrefused
  rw [he] at hrefused
  cases hrefused

theorem spec_restorePlanned (hnames : ∀ pf ∈ planned, resolve pf.relPath ≠ []) :
    Spec (fun t => Same s t ∧ t.stage = emptyStage) (restorePlanned env sha prim codec blobs planned)
      (fun _ => Confined s) (Stopped s) (Confined s) := by
  refine spec_bind (spec_conseq spec_stageFiles (fun _ h => h) (fun _ _ h => h)
    (fun _ _ h => h.stopped) fun _ h => h.confined) fun _ => spec_fact fun hleaves => ?_
  refine spec_bind (spec_conseq (spec_checkAll hnames) (fun _ h => h) (fun _ _ h => h)
    (fun _ _ h => h.stopped) fun _ h => h.confined) fun _ => spec_fact fun hopen => ?_
  exact spec_commitAll ⟨hnames,hopen,hleaves⟩ _

/-- The staging directory is not part of what is confined. -/
theorem Confined.unstage (h : Confined s t) (stage : RestoreTree) : Confined s {t with stage := stage} :=
  ⟨h.escaped,h.kept,h.changed,h.above⟩

theorem Stopped.unstage {e : RestoreFilesError} (h : Stopped s e t) (stage : RestoreTree) :
    Stopped s e {t with stage := stage} := by
  refine ⟨h.1.unstage stage,?_⟩
  intro he
  exact ⟨(h.2 he).tree,(h.2 he).above,(h.2 he).escaped⟩

theorem spec_withStage {α : Type} {body : RestoreFiles.Op α}
    (h : Spec (fun t => Same s t ∧ t.stage = emptyStage) body (fun _ => Confined s) (Stopped s)
      (Confined s)) :
    Spec (Same s) (withStage env body) (fun _ => Confined s) (Stopped s) (Confined s) := by
  have hempty : Spec (Same s) (step fun site => {site with stage := emptyStage})
      (fun _ t => Same s t ∧ t.stage = emptyStage) (Stopped s) (Confined s) := by
    refine spec_step fun t ht => ⟨⟨⟨ht.tree,ht.above,ht.escaped⟩,rfl⟩,ht.confined.unstage _⟩
  refine spec_bind hempty fun _ => ?_
  refine spec_attempt_bind h (fun a => ?_) fun e => ?_
  · dsimp only
    split
    · refine spec_bind (R := fun _ => Confined s) ?_ fun _ => spec_pure a fun _ ht => ht
      exact spec_step fun t ht => ⟨ht.unstage _,ht.unstage _⟩
    · exact spec_pure a fun _ ht => ht
  · dsimp only
    split
    · exact spec_stepThenFail fun t ht => ⟨ht.unstage _,ht.1.unstage _⟩
    · exact spec_fail e fun _ ht => ht

theorem spec_restoreFiles {Text : Type} [StoreText Text] {cfg : Config} {disk : Disk Text}
    {req : RestoreFilesRequest} :
    Spec (Same s) (restoreFiles env sha prim cfg disk req) (fun _ => Confined s) (Stopped s)
      (Confined s) := by
  have hstop : ∀ {e : RestoreFilesError} t, Same s t → Stopped s e t := fun _ h => h.stopped
  refine spec_check_bind hstop fun _ => spec_lift_bind (fun _ _ => hstop) fun _ _ => ?_
  refine spec_lift_bind (fun _ _ => hstop) fun root _ => spec_check_bind hstop fun _ => ?_
  refine spec_lift_bind (fun _ _ => hstop) fun m _ => spec_check_bind hstop fun _ => ?_
  refine spec_bind (spec_conseq spec_validateRestoreRoot_unchanged (fun _ h => h) (fun _ _ h => h.1)
    (fun _ => hstop) fun _ h => h.confined) fun _ => ?_
  refine spec_lift_bind (fun _ _ => hstop) ?_
  rintro ⟨planned,bytes⟩ hplan
  refine spec_read_bind fun site _ => spec_pre (P := Same s) ?_ fun _ h => h.2
  refine spec_lift_bind (fun _ _ => hstop) fun _ _ => spec_lift_bind (fun _ _ => hstop) fun _ _ => ?_
  refine spec_check_bind hstop fun _ => spec_check_bind hstop fun _ => ?_
  exact spec_withStage (spec_restorePlanned (names_of_planRequest hplan))

/-- Whatever the tree and the requested paths: after every step only directories and files reached
through directories have been created or replaced, and no link or directory was replaced; a restore
refused because of its paths, contents or targets has changed nothing. -/
theorem restore_files_confined {Text : Type} [StoreText Text] (env : RestoreFilesEnv) (sha : Sha256)
    (prim : Primitives) (cfg : Config) (disk : Disk Text) (req : RestoreFilesRequest) (s : RestoreSite) :
    (∀ t ∈ (restoreFiles env sha prim cfg disk req s).states, Confined s t) ∧
      ∀ e t, Fails (restoreFiles env sha prim cfg disk req) s e t → refused e = true →
        t.tree = s.tree ∧ t.above = s.above ∧ t.escaped = s.escaped := by
  have hspec : Spec (Same s) (restoreFiles env sha prim cfg disk req) (fun _ => Confined s) (Stopped s)
      (Confined s) := spec_restoreFiles
  have hs : Same s s := ⟨rfl,rfl,rfl⟩
  constructor
  · intro t ht
    exact hspec.states (fun _ _ h => h) (fun _ _ h => h.1) hs ht
  · intro e t hf hrefused
    have hsame := (hspec.fails hs hf).2 hrefused
    exact ⟨hsame.tree,hsame.above,hsame.escaped⟩

end Restore

end ConfinedRestore
end BackupSync
