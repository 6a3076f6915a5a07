import BackupSync.RestoredManifest

/-!
# A restore as a transaction

Until the swap a restore works in its staging directory only. The swap moves the
target aside, moves the staged tree in and, if that fails, moves the target back.
Whatever fails, the original tree is at the target or beside it until the complete
staged tree is at the target.

The rollback is attempted only if a look at the moved-aside tree finds it, so after
an error the original can be left beside the target for two reasons: the rollback
rename failed, or the look did.
-/
namespace BackupSync
open Interruptible ContentHash RestoreVersion RestoredManifest StoreCompleteness BackupRestore

namespace RestoreTransaction

variable {Text : Type} [StoreText Text] {sha : Sha256} {prim : Primitives} {codec : BlobCodec}
  {blobs : Map BlobPath Bytes} {m : Manifest} {env : RestoreEnv}
  {planned : List PlannedFile} {cfg : Config} {disk : Disk Text} {req : RestoreRequest}
  {area area' t : RestoreArea} {result : RestoreResult} {e : RestoreError}

/-- The look before the rollback succeeds, and so does the rename. -/
def RollsBack (env : RestoreEnv) : Prop := env.seen .rollbackPrevious = true ∧ env.rolledBack = true

/-- The original is at the target, or beside it because it was not rolled back. -/
def Rescued (env : RestoreEnv) (area area' : RestoreArea) : Prop :=
  area'.target = area.target ∨
    (¬ RollsBack env ∧ area'.target = .absent ∧ area'.previous = area.target)

/-- The original is on disk, or the complete staged tree is at the target. -/
def NothingLost (sha : Sha256) (prim : Primitives) (cfg : Config) (disk : Disk Text)
    (req : RestoreRequest) (env : RestoreEnv) (area t : RestoreArea) : Prop :=
  t.target = area.target ∨ t.previous = area.target ∨
    ∃ m, Staged sha prim cfg disk req env area.stage m t.target

@[simp] theorem looksPresent_absent (look : Look) : looksPresent env look .absent = false := by
  simp [looksPresent,RestoreTree.present,RestoreTree.absent]

theorem spec_stageTree : Spec (fun t => t = area) (stageTree sha prim codec blobs env m planned)
    (fun _ t => ∃ built staged, Returns (buildRestoreTree sha prim codec blobs env m planned)
      area.stage built staged ∧ t = {area with stage := staged})
    (fun _ t => t.target = area.target) fun t => t.target = area.target := by
  have hbuild := spec_zoom RestoreArea.stage (fun t area => {area with stage := t})
    (spec_returns (buildRestoreTree sha prim codec blobs env m planned) area.stage) rfl
  have hstage : ∀ t, (∃ u : RestoreTree, t = {area with stage := u} ∧ True) → t.target = area.target := by
    rintro _ ⟨u,rfl,-⟩
    rfl
  refine spec_attempt_bind (spec_conseq hbuild (fun _ h => h) (fun _ _ h => h) (fun _ _ h => h) hstage)
    (fun built => ?_) fun e => ?_
  · apply spec_pure
    rintro t ⟨staged,ht,hr⟩
    exact ⟨built,staged,hr,ht⟩
  · have herror : ∀ t, (∃ u : RestoreTree, t = {area with stage := u} ∧
        Fails (buildRestoreTree sha prim codec blobs env m planned) area.stage e u) →
        t.target = area.target := by
      rintro t ⟨u,hu,-⟩
      exact hstage t ⟨u,hu,trivial⟩
    dsimp only
    split
    · exact spec_stepThenFail fun t ht => ⟨herror t ht,herror t ht⟩
    · exact spec_fail e herror

/-- The target is where it was, or it has been moved aside. -/
def Swapping (area : RestoreArea) (staged : RestoreTree) (t : RestoreArea) : Prop :=
  t.stage = staged ∧ ((t.target = area.target ∧ t.previous = .absent) ∨
    (t.target = .absent ∧ t.previous = area.target ∧ area.target.present = true))

theorem spec_moveAside {staged : RestoreTree} (hprev : area.previous = .absent) :
    Spec (fun t => t = {area with stage := staged}) (moveAside env) (fun _ => Swapping area staged)
      (fun _ t => t.target = area.target) fun t => t.target = area.target ∨ t.previous = area.target := by
  refine spec_read_bind fun u hu => ?_
  subst hu
  split
  · rename_i hseen
    rw [looksPresent,Bool.and_eq_true] at hseen
    refine spec_check_bind ?_ fun _ => spec_step ?_
    · rintro _ ⟨rfl,-⟩
      rfl
    · rintro _ ⟨rfl,-⟩
      exact ⟨⟨rfl,.inr ⟨rfl,rfl,hseen.2⟩⟩,.inr rfl⟩
  · apply spec_pure
    rintro _ ⟨rfl,-⟩
    exact ⟨rfl,.inl ⟨rfl,hprev⟩⟩

/-- The staged tree moves in, or the target moves back if the look at it succeeds. -/
theorem spec_moveIn {staged : RestoreTree} :
    Spec (Swapping area staged) (moveIn env) (fun _ t => t.target = staged)
      (fun _ t => Rescued env area t)
      fun t => t.target = staged ∨ t.target = area.target ∨ t.previous = area.target := by
  refine spec_read_bind fun u hu => ?_
  split
  · refine spec_step ?_
    rintro _ ⟨rfl,-⟩
    exact ⟨hu.1,.inl hu.1⟩
  · split
    · rename_i hback
      refine spec_stepThenFail ?_
      rintro _ ⟨rfl,-,hold | hold⟩
      · simp [hold.2] at hback
      · exact ⟨.inl hold.2.1,.inr (.inl hold.2.1)⟩
    · rename_i hback
      refine spec_fail _ ?_
      rintro _ ⟨rfl,-,hold | hold⟩
      · exact .inl hold.1
      · refine .inr ⟨?_,hold.1,hold.2.1⟩
        rintro ⟨hseen,hrolled⟩
        have hlook : looksPresent env .rollbackPrevious area.target = true := by
          simp [looksPresent,hseen,hold.2.2]
        simp [hold.1,hold.2.1,hlook,hrolled] at hback

theorem spec_removePrevious {staged : RestoreTree} :
    Spec (fun t => t.target = staged) (removePrevious req env) (fun _ t => t.target = staged)
      (fun _ _ => False) fun t => t.target = staged := by
  refine spec_read_bind fun u hu => ?_
  split
  · refine spec_step ?_
    rintro _ ⟨rfl,-⟩
    exact ⟨hu,hu⟩
  · refine spec_pure _ ?_
    rintro _ ⟨rfl,-⟩
    exact hu

theorem spec_countRemoved : Spec (fun t => t = area) (countRemoved req env m) (fun _ t => t = area)
    (fun _ t => t = area) fun _ => False := by
  refine spec_read_bind fun v hv => ?_
  split
  · exact spec_check_bind (fun _ h => h.1.trans hv) fun _ => spec_pure _ fun _ h => h.1.trans hv
  · exact spec_pure _ fun _ h => h.1.trans hv

theorem spec_restoreVersion (hprev : area.previous = .absent) :
    Spec (fun t => t = area) (restoreVersion sha prim cfg disk req env)
      (fun _ t => ∃ m, Staged sha prim cfg disk req env area.stage m t.target)
      (fun _ t => Rescued env area t) (NothingLost sha prim cfg disk req env area) := by
  have hself : ∀ t, t = area → Rescued env area t := by
    rintro _ rfl
    exact .inl rfl
  have hlift : ∀ {α : Type} {r : Except RestoreError α} (e : RestoreError), r = .error e →
      ∀ t, t = area → Rescued env area t := fun _ _ => hself
  refine spec_lift_bind hlift fun _ _ => ?_
  refine spec_lift_bind hlift fun root hroot => ?_
  refine spec_check_bind hself fun _ => ?_
  refine spec_lift_bind hlift fun m hload => ?_
  refine spec_check_bind hself fun _ => ?_
  refine spec_read_bind fun u hu => ?_
  subst hu
  refine spec_conseq (P := fun t => t = u) ?_ (fun _ h => h.1) (fun _ _ h => h) (fun _ _ h => h)
    fun _ h => h
  refine spec_check_bind hself fun _ => ?_
  refine spec_check_bind hself fun _ => ?_
  refine spec_lift_bind hlift fun planned hplan => ?_
  refine spec_check_bind hself fun _ => ?_
  refine spec_check_bind hself fun _ => ?_
  refine spec_bind (spec_conseq spec_countRemoved (fun _ h => h) (fun _ _ h => h)
    (fun _ => hself) fun _ h => h.elim) fun removed => ?_
  refine spec_bind (spec_conseq spec_stageTree (fun _ h => h) (fun _ _ h => h)
    (fun _ _ h => .inl h) fun _ h => .inl h) fun built => spec_forall ?_
  rintro _ ⟨built',staged,hbuild,rfl⟩
  have hs : Staged sha prim cfg disk req env u.stage m staged :=
    ⟨root,planned,built',hroot,hload,hplan,hbuild⟩
  have hin : ∀ t : RestoreArea, t.target = staged → NothingLost sha prim cfg disk req env u t :=
    fun t ht => .inr (.inr ⟨m,ht ▸ hs⟩)
  refine spec_bind (spec_conseq (spec_moveAside hprev) (fun _ h => h) (fun _ _ h => h)
    (fun _ _ h => .inl h) ?_) fun _ => ?_
  · rintro t (h | h)
    · exact .inl h
    · exact .inr (.inl h)
  refine spec_bind (spec_conseq spec_moveIn (fun _ h => h) (fun _ _ h => h) (fun _ _ h => h) ?_)
    fun _ => ?_
  · rintro t (h | h | h)
    · exact hin t h
    · exact .inl h
    · exact .inr (.inl h)
  refine spec_bind (spec_conseq spec_removePrevious (fun _ h => h) (fun _ _ h => h)
    (fun _ _ h => h.elim) hin) fun _ => spec_pure _ ?_
  intro t ht
  exact ⟨m,ht ▸ hs⟩

/-- Whatever the file system calls return: after an error the original is at the target, or intact
beside it if it was not rolled back; a returned restore has the staged tree at the target; and after
every step one of the two is on disk. -/
theorem restore_transactional (area : RestoreArea) (hprev : area.previous = .absent) :
    (∀ e area', Fails (restoreVersion sha prim cfg disk req env) area e area' →
      Rescued env area area') ∧
    (∀ result area', Returns (restoreVersion sha prim cfg disk req env) area result area' →
      ∃ m, Staged sha prim cfg disk req env area.stage m area'.target) ∧
    ∀ t ∈ (restoreVersion sha prim cfg disk req env area).states,
      NothingLost sha prim cfg disk req env area t := by
  have hspec := @spec_restoreVersion Text _ sha prim env cfg disk req area hprev
  refine ⟨fun e area' h => hspec.fails rfl h,fun result area' h => hspec.returns rfl h,?_⟩
  intro t ht
  refine hspec.states (fun _ _ h => .inr (.inr h)) ?_ rfl ht
  rintro e u (h | h)
  · exact .inl h
  · exact .inr (.inl h.2.2)

/-- A directory with one file, as a restore finds it at the target. -/
def oldTree : RestoreTree :=
  ⟨.ofList [([],.dir),(["old".toList],.file (ascii "ho"))] compare,∅⟩

def restoreOver (env : RestoreEnv) : Outcome RestoreArea RestoreError RestoreResult :=
  restoreVersion notesSha .transparent (notesConfig notesJob.codec)
    (Disk.setStore "/mnt/main".toList firstStore ∅)
    ⟨"/home/notes".toList,morning.text,.toDirectory,true⟩ env ⟨oldTree,.absent,.absent⟩

/-- Both renames of a swap over an existing directory. -/
theorem restore_transactional_over_directory :
    (restoreOver calmRestore).result = .ok ⟨1,0,0⟩ ∧
    (restoreOver calmRestore).store.previous = oldTree ∧
    ∃ m, Staged notesSha .transparent (notesConfig notesJob.codec)
      (Disk.setStore "/mnt/main".toList firstStore ∅)
      ⟨"/home/notes".toList,morning.text,.toDirectory,true⟩ calmRestore .absent m
      (restoreOver calmRestore).store.target := by
  have hr : (restoreOver calmRestore).result = .ok ⟨1,0,0⟩ := by decide +kernel
  refine ⟨hr,by decide +kernel,?_⟩
  exact (restore_transactional ⟨oldTree,.absent,.absent⟩ rfl).2.1 _ _ ⟨hr,rfl⟩

/-- The rename of the staged tree fails, and so does the look at the moved-aside tree. -/
def unseenPrevious : RestoreEnv :=
  {calmRestore with
    seen := fun look => look ≠ .rollbackPrevious
    movedIn := false}

/-- The rollback rename would have succeeded and is not attempted: the target is gone after the
error. -/
theorem rollback_skipped_after_failed_look :
    (restoreOver unseenPrevious).result = .error .moveIn ∧ unseenPrevious.rolledBack = true ∧
    oldTree.present = true ∧ (restoreOver unseenPrevious).store.target.present = false ∧
    (restoreOver unseenPrevious).store.previous = oldTree :=
  ⟨by decide +kernel,rfl,by decide +kernel,by decide +kernel,by decide +kernel⟩

end RestoreTransaction
end BackupSync
