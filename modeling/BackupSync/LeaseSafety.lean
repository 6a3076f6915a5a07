import BackupSync.StoreLeases

/-!
# What the leases guarantee

The leases of an operation are taken in the order of their paths, each once, so
operations never wait for each other in a circle, whatever their paths are.

Whether two operations on one store ask for the same lease is another question.
The lexical normalisation takes back the name before a step up, also if that name
is a link and the operating system goes up from its target. The lease is then one
for another directory than the one the store is in.
-/
namespace BackupSync
open Checks RelativePath LinkedTree LockTable StoreLeases

namespace LeaseSafety

/-- The order of paths in which leases are taken. -/
def Before (a b : List Str) : Prop := compare a b = .lt

instance : Std.Irrefl Before := ⟨fun a h => by
  have hself : compare a a = .eq := Std.ReflCmp.compare_self
  rw [Before,hself] at h
  cases h⟩

instance : IsTrans (List Str) Before := ⟨fun _ _ _ hab hbc => Std.TransCmp.lt_trans hab hbc⟩

/-- The lists of leases some operation may take, on whatever file system it finds. -/
def LeasePlan (plan : List (List Str)) : Prop := ∃ fs paths, leasePlan fs paths = .ok plan

theorem leasePlan_sorted {plan : List (List Str)} (h : LeasePlan plan) : plan.Pairwise Before := by
  obtain ⟨fs,paths,h⟩ := h
  obtain ⟨roots,-,h⟩ := bind_eq_ok.mp h
  cases h
  exact Std.ExtTreeSet.ordered_toList

section Deadlock
variable {P : Type} [DecidableEq P]

/-- In every state of every interleaving: no circle of operations each waiting for a lease of the
next, none that waits for one of its own, and an operation that fails comes to its end on its own
and then holds no lease. -/
theorem leases_never_deadlock (s : LockTable P (List Str)) (hs : Reached LeasePlan s) :
    (∀ p, ¬ Relation.TransGen s.WaitsFor p p) ∧
    (∀ p held lease wanted, s.phase p = .acquiring held (lease::wanted) →
      s.owner lease ≠ some p) ∧
    (∀ p held failed, s.phase p = .releasing held failed →
      ∃ t, Relation.ReflTransGen (Step LeasePlan) s t ∧ t.phase p = .finished failed) ∧
    ∀ p failed, s.phase p = .finished failed → ∀ lease, s.owner lease ≠ some p := by
  have horder : s.InOrder Before := hs.inOrder fun _ => leasePlan_sorted
  refine ⟨horder.no_cycle,?_,fun p held failed hp => finishes LeasePlan hp,?_⟩
  · intro p held lease wanted hp hown
    exact horder.no_cycle p (.single ⟨lease,held,wanted,hp,hown⟩)
  · intro p failed hp lease
    exact horder.finished_free hp lease

end Deadlock

section Protection
variable {fs : HostFs} {p q : Str} {loc dst : List Str}

/-- Walking along the path, every step up leads back into the directory in which the name it takes
back was found. -/
def RetracesPath (fs : HostFs) (path : Str) : Prop :=
  fs.tree.Retraces fs.maxLinks [] [] (absoluteSteps fs path)

/-- Two paths of one directory share their lease file, it lies beside the store, and no two
operations work on the directory at the same time. -/
def ProtectsStore (fs : HostFs) (p q : Str) : Prop :=
  ∀ loc, osDirectory fs p = some loc → osDirectory fs q = some loc →
    (∃ file root, leaseFile fs p = .ok file ∧ leaseFile fs q = .ok file ∧
      storeRoot fs p = some root ∧ root.dropLast = file.dropLast) ∧
    ∀ (P : Type) [DecidableEq P] (s : LockTable P (List Str)), Reached LeasePlan s →
      ∀ a b ps qs planA planB, p ∈ ps → q ∈ qs → leasePlan fs ps = .ok planA →
        leasePlan fs qs = .ok planB → s.phase a = .working planA → s.phase b = .working planB → a = b

theorem validate_of_retraces (hos : osDirectory fs p = some loc) (hr : RetracesPath fs p) :
    validateAndNormalizeDestination fs p = .ok loc := by
  obtain ⟨k,hk,hl⟩ := osDirectory_eq_some.mp hos
  obtain ⟨j,hj,hl⟩ := leads_reduce .root hl hk hr
  exact validateAndNormalizeDestination_eq_ok.mpr ⟨j,by omega,hl⟩

theorem leaseFile_of_validate (h : validateAndNormalizeDestination fs p = .ok loc) :
    leaseFile fs p = .ok (loc++[storeDir,operationLockFile]) := by
  rw [leaseFile,h]
  rfl

theorem mem_leasePlan {ps : List Str} {plan : List (List Str)} (hp : p ∈ ps)
    (h : validateAndNormalizeDestination fs p = .ok loc) (hplan : leasePlan fs ps = .ok plan) :
    loc ∈ plan := by
  obtain ⟨roots,hroots,hplan⟩ := bind_eq_ok.mp hplan
  cases hplan
  obtain ⟨root,hmem,hroot⟩ := exists_of_mapM_eq_ok hroots hp
  rw [h] at hroot
  cases hroot
  rw [Std.ExtTreeSet.mem_toList,Std.ExtTreeSet.mem_ofList]
  simpa using hmem

theorem protects_of_validate (hp : ∀ loc, osDirectory fs p = some loc →
      validateAndNormalizeDestination fs p = .ok loc)
    (hq : ∀ loc, osDirectory fs q = some loc → validateAndNormalizeDestination fs q = .ok loc) :
    ProtectsStore fs p q := by
  intro loc hosp hosq
  have hvp := hp loc hosp
  have hvq := hq loc hosq
  refine ⟨⟨loc++[storeDir,operationLockFile],loc++[storeDir,storeVersion],
    leaseFile_of_validate hvp,leaseFile_of_validate hvq,?_,?_⟩,?_⟩
  · rw [storeRoot,hosp]
    rfl
  · simp [List.dropLast_append_of_ne_nil]
  · intro P _ s hs a b ps qs planA planB hps hqs hplanA hplanB ha hb
    have horder : s.InOrder Before := hs.inOrder fun _ => leasePlan_sorted
    apply horder.exclusive (l := loc)
    · rw [ha]
      exact mem_leasePlan hps hvp hplanA
    · rw [hb]
      exact mem_leasePlan hqs hvq hplanB

/-- The path of a link with a step up behind it. -/
def behindLink (loc : List Str) (n : Str) : Str := '/' :: relString (loc++[n,"..".toList])

theorem absoluteSteps_behindLink (fs : HostFs) {loc : List Str} {n : Str}
    (h : ∀ m ∈ loc++[n], LegalName m) :
    absoluteSteps fs (behindLink loc n) = loc.map .name++[.name n,.up] := by
  have hsplit : (relString (loc++[n,"..".toList])).splitOn '/' = loc++[n,"..".toList] := by
    apply List.splitOn_intercalate '/'
    · intro m hm
      rw [← List.singleton_append,← List.append_assoc,List.mem_append] at hm
      rcases hm with hm | hm
      · exact (h m hm).no_slash
      · obtain rfl := List.mem_singleton.mp hm
        decide
    · simp
  have hname : ∀ m, LegalName m → pieceComponent m = some (.normal m) := fun m hm =>
    pieceComponent.eq_4 m hm.ne_nil hm.ne_dot hm.ne_dotdot
  have hnames : ∀ names : List Str, (∀ m ∈ names, LegalName m) →
      (names.filterMap pieceComponent).filterMap stepOf = names.map .name := by
    intro names hn
    induction names with
    | nil => rfl
    | cons m names ih =>
        rw [List.filterMap_cons_some (hname m (hn m List.mem_cons_self)),List.filterMap_cons,
          ih fun k hk => hn k (List.mem_cons_of_mem _ hk)]
        rfl
  have hall := hnames (loc++[n]) h
  have habs : isAbsolute (behindLink loc n) = true := by
    simp [isAbsolute,behindLink]
  rw [absoluteSteps,if_pos habs,osSteps,behindLink,components_slash,hsplit,List.filterMap_cons]
  rw [← List.singleton_append,← List.append_assoc,List.filterMap_append,List.filterMap_append,hall]
  simp [pieceComponent,stepOf]

/-- The lease of the path behind a link is one for the directory the link is in. -/
theorem sibling_of_protects {n : Str} {absolute : Bool} {target : List (PathStep Str)} {k : Nat}
    (h : ProtectsStore fs (behindLink loc n) (behindLink loc n))
    (he : fs.tree.entry (loc++[n]) = some (.link absolute target)) (hk : k ≤ fs.maxLinks)
    (hd : fs.tree.Leads k loc [.name n] dst) : dst.dropLast = loc := by
  have hsteps := absoluteSteps_behindLink fs (fs.legal _ _ he)
  have hloc : fs.tree.entry loc = some .dir := by
    have hparent := fs.tree.parent _ _ he (by simp)
    rwa [List.dropLast_concat] at hparent
  have hway : fs.tree.Leads k [] (loc.map .name++[.name n,.up]) dst.dropLast := by
    have hup : fs.tree.Leads 0 dst [.up] dst.dropLast := .up .here
    have htrans := (leads_names hloc).trans (hd.trans hup)
    rwa [Nat.zero_add,Nat.add_zero] at htrans
  have hos : osDirectory fs (behindLink loc n) = some dst.dropLast :=
    osDirectory_eq_some.mpr ⟨k,hk,by rw [hsteps]; exact hway⟩
  have hreduced : reduce [] (absoluteSteps fs (behindLink loc n)) = loc.map .name := by
    rw [hsteps,reduce_append,reduce_names,List.nil_append,reduce,reduce]
    simp [reduce]
  have hvalid : validateAndNormalizeDestination fs (behindLink loc n) = .ok loc :=
    validateAndNormalizeDestination_eq_ok.mpr
      ⟨0,Nat.zero_le _,by rw [hreduced]; exact leads_names hloc⟩
  obtain ⟨⟨file,root,hfile,-,hroot,hsame⟩,-⟩ := h dst.dropLast hos hos
  rw [leaseFile_of_validate hvalid] at hfile
  cases hfile
  rw [storeRoot,hos] at hroot
  cases hroot
  rw [List.dropLast_append_of_ne_nil (by simp),List.dropLast_append_of_ne_nil (by simp)] at hsame
  exact List.append_cancel_right hsame

/-- Paths whose steps up lead back where they came from are protected. On a file system all paths
are exactly if every link to a directory points to one beside it. -/
theorem lease_protects_store (fs : HostFs) :
    (∀ p q, RetracesPath fs p → RetracesPath fs q → ProtectsStore fs p q) ∧
    ((∀ p q, ProtectsStore fs p q) ↔ fs.tree.SiblingLinks fs.maxLinks) := by
  have hretraces : ∀ p q, RetracesPath fs p → RetracesPath fs q → ProtectsStore fs p q :=
    fun p q hp hq => protects_of_validate (fun _ hos => validate_of_retraces hos hp)
      fun _ hos => validate_of_retraces hos hq
  refine ⟨hretraces,?_,?_⟩
  · intro h loc n absolute target he k hk dst hd
    exact sibling_of_protects (h _ _) he hk hd
  · intro hs p q
    have hroot : Nested ([] : List (List Str)) [] := rfl
    exact hretraces p q (retraces_of_siblings hs hroot _) (retraces_of_siblings hs hroot _)

end Protection

def backupAt (disk : String) : List Str := [disk.toList,"backup".toList]

/-- A home directory with a link to photos on another disk, and a backup directory on each side. -/
def photosTable : List (List Str × LinkedEntry Str) := [
  (["home".toList],.dir),
  (["home".toList,"photos".toList],.link true [.name "disk".toList,.name "photos".toList]),
  (backupAt "home",.dir),
  (["disk".toList],.dir),
  (["disk".toList,"photos".toList],.dir),
  (backupAt "disk",.dir)]

def photosFs : HostFs where
  tree := LinkedTree.ofTable photosTable (by decide)
  legal := by
    intro loc e he n hn
    have hall : ∀ item ∈ photosTable, ∀ n ∈ item.1, LegalName n := by decide
    exact hall _ (mem_of_entry_ofTable he (List.ne_nil_of_mem hn)) n hn
  cwd := []
  cwd_dir := by decide
  maxLinks := 40

def besidePhotos : Str := "/home/photos/../backup".toList

def diskBackup : Str := "/disk/backup".toList

/-- A task that takes a single lease and starts to work. -/
theorem works_alone {P : Type} [DecidableEq P] {s : LockTable P (List Str)} {a : P} {loc : List Str}
    (hs : Reached LeasePlan s) (ha : s.phase a = .idle) (hplan : LeasePlan [loc])
    (hfree : s.owner loc = none) :
    Reached LeasePlan (((((s.move a (.acquiring [] [loc])).own loc (some a)).move a
      (.acquiring [loc] [])).move a (.working [loc]))) :=
  ((hs.tail (.start ha hplan)).tail (.lock (phase_move_self _ s) hfree)).tail
    (.work (phase_move_self _ _))

/-- A step up behind the link: two operations on one store lock different files and work at the
same time. -/
theorem step_behind_link_unprotected :
    osDirectory photosFs besidePhotos = some (backupAt "disk") ∧
    osDirectory photosFs diskBackup = some (backupAt "disk") ∧
    leaseFile photosFs besidePhotos = .ok (backupAt "home"++[storeDir,operationLockFile]) ∧
    leaseFile photosFs diskBackup = .ok (backupAt "disk"++[storeDir,operationLockFile]) ∧
    (∃ s : LockTable Bool (List Str), Reached LeasePlan s ∧
      leasePlan photosFs [besidePhotos] = .ok [backupAt "home"] ∧
      leasePlan photosFs [diskBackup] = .ok [backupAt "disk"] ∧
      s.phase true = .working [backupAt "home"] ∧ s.phase false = .working [backupAt "disk"]) ∧
    ¬ ProtectsStore photosFs besidePhotos diskBackup := by
  have hosp : osDirectory photosFs besidePhotos = some (backupAt "disk") := by decide +kernel
  have hosq : osDirectory photosFs diskBackup = some (backupAt "disk") := by decide +kernel
  have hfp : leaseFile photosFs besidePhotos =
      .ok (backupAt "home"++[storeDir,operationLockFile]) := by decide +kernel
  have hfq : leaseFile photosFs diskBackup =
      .ok (backupAt "disk"++[storeDir,operationLockFile]) := by decide +kernel
  have hplanp : leasePlan photosFs [besidePhotos] = .ok [backupAt "home"] := by decide +kernel
  have hplanq : leasePlan photosFs [diskBackup] = .ok [backupAt "disk"] := by decide +kernel
  have hfirst := works_alone (P := Bool) (a := true) Relation.ReflTransGen.refl rfl
    ⟨photosFs,_,hplanp⟩ rfl
  have hboth := works_alone (a := false) hfirst rfl ⟨photosFs,_,hplanq⟩ rfl
  refine ⟨hosp,hosq,hfp,hfq,⟨_,hboth,hplanp,hplanq,rfl,rfl⟩,?_⟩
  intro h
  obtain ⟨⟨file,-,hp,hq,-⟩,-⟩ := h _ hosp hosq
  rw [hfp] at hp
  rw [hfq] at hq
  cases hp
  exact absurd hq (by decide)

/-- Two operations meet at a lease: the one that waits does not hold up the other one. -/
theorem leases_never_deadlock_contended : ∃ s : LockTable Bool (List Str),
    Reached LeasePlan s ∧ s.WaitsFor false true ∧ (∀ p, ¬ Relation.TransGen s.WaitsFor p p) ∧
    ∀ p held lease wanted, s.phase p = .acquiring held (lease::wanted) → s.owner lease ≠ some p := by
  have hplans : leasePlan photosFs [diskBackup,besidePhotos,diskBackup] =
      .ok [backupAt "disk",backupAt "home"] := by decide +kernel
  have hplan : leasePlan photosFs [diskBackup] = .ok [backupAt "disk"] := by decide +kernel
  let s : LockTable Bool (List Str) := ((initial.move true (.acquiring [] [backupAt "disk",
    backupAt "home"])).own (backupAt "disk") (some true)).move true
      (.acquiring [backupAt "disk"] [backupAt "home"])
  have hs : Reached LeasePlan s := (Relation.ReflTransGen.refl.tail
    (.start rfl ⟨photosFs,_,hplans⟩)).tail (.lock (phase_move_self _ _) rfl)
  have ht : Reached LeasePlan (s.move false (.acquiring [] [backupAt "disk"])) :=
    hs.tail (.start rfl ⟨photosFs,_,hplan⟩)
  obtain ⟨hcycle,hself,-⟩ := leases_never_deadlock _ ht
  exact ⟨_,ht,⟨backupAt "disk",[],[],phase_move_self _ _,rfl⟩,hcycle,hself⟩

end LeaseSafety
end BackupSync
