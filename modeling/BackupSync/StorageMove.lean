import BackupSync.Promotion

/-!
# A move of the storage while a cycle runs

relocate_destination_cmd pauses backups through a flag that the daemon looks at
when a cycle starts. It then lists the old folder, copies and checks file by
file, activates the new folder, restarts the daemon and deletes the old one,
without the lease that other operations on a store take. A cycle that was past
the check goes on writing to the old store meanwhile.

The command and the daemon are the two sides of one transition system. A backup
goes through the states of its run one by one; the listing finds at least what
was there all the time; a copied file is what the old store had at that moment.
An exit of the command with an error ends a run and is not a step here. The old
store stays as it was when the folder was deleted.

What the old index lists when the folder is deleted is listed and complete in
the new store, if from the listing to the deletion the cycle publishes no index
and touches no manifest or blob that is there. The version of an index published
after it was copied is lost.
-/
namespace BackupSync
open Interruptible.Action ContentHash BackupFolder StoreInvariant StoreCompleteness BlobInvariant
  SafetyScans ReplicatedVersions KeptVersions

/-- The files of a store. -/
inductive StoreFile where
  | index (sid : Str)
  | manifest (sid name : Str)
  | report (sid : Str)
  | blob (path : BlobPath)
  deriving DecidableEq

namespace StorageMove

variable {Text : Type}

/-- The content of a file. -/
def fileAt (st : Store Text) : StoreFile → Option (Text ⊕ Bytes)
  | .index sid => (st.dir sid).index.map .inl
  | .manifest sid name => (st.dir sid).manifests[name]?.map .inl
  | .report sid => (st.dir sid).report.map .inl
  | .blob path => st.blobs[path]?.map .inr

/-- The new store with a copy of a file that is there. -/
def copyFile (old : Store Text) (file : StoreFile) (new : Store Text) : Option (Store Text) :=
  match file with
  | .index sid => (old.dir sid).index.map fun text => new.putIndex sid text
  | .manifest sid name => (old.dir sid).manifests[name]?.map fun text =>
      new.putManifest sid name text
  | .report sid => (old.dir sid).report.map fun text => new.putReport sid text
  | .blob path => old.blobs[path]?.map fun blob => new.putBlob path blob

/-- A store with the states that the running backup will still go through. -/
structure Writer (Text : Type) where
  store : Store Text
  pending : List (Store Text)

/-- Where the command is. -/
inductive Phase where
  | working
  | paused
  /-- The files found so far, and those that were there all the time. -/
  | listing (found : List StoreFile) (steady : Set StoreFile)
  | copying (todo : List StoreFile)
  | checking (file : StoreFile) (todo : List StoreFile)
  | copied
  | active
  | removed
  | returned

/-- From the listing to the deletion. -/
def Phase.moving : Phase → Prop
  | .listing _ _ | .copying _ | .checking _ _ | .copied | .active => True
  | _ => False

/-- The old folder is there. -/
def Phase.present : Phase → Prop
  | .removed | .returned => False
  | _ => True

/-- The restarted daemon is at work. -/
def Phase.restarted : Phase → Prop
  | .active | .removed => True
  | _ => False

structure World (Text : Type) where
  phase : Phase
  old : Writer Text
  /-- The daemon is in a cycle that has passed the check of the flag. -/
  cycling : Bool
  new : Writer Text

inductive Event where
  | startCycle | endCycle
  | backup (job : FolderJob) (env : BackupEnv)
  | write
  | pause | list
  | see (file : StoreFile)
  | listed
  | copy | verify | finish
  | restart (killed : Bool)
  | backupNew (job : FolderJob) (env : BackupEnv)
  | writeNew
  | remove | answer

variable [StoreText Text]

/-- While the listing goes on, only files that are still there have been there all the time. -/
def Phase.after (st : Store Text) : Phase → Phase
  | .listing found steady => .listing found {file ∈ steady | (fileAt st file).isSome}
  | phase => phase

/-- What can happen; digest is the hash the check of a copy compares. -/
inductive Step {Digest : Type} (sha : Sha256) (prim : Primitives) (digest : Text ⊕ Bytes → Digest) :
    World Text → Event → World Text → Prop
  | startCycle {old new : Writer Text} {cycling : Bool} :
      Step sha prim digest ⟨.working,old,cycling,new⟩ .startCycle ⟨.working,old,true,new⟩
  | endCycle {phase : Phase} {st : Store Text} {cycling : Bool} {new : Writer Text} :
      Step sha prim digest ⟨phase,⟨st,[]⟩,cycling,new⟩ .endCycle ⟨phase,⟨st,[]⟩,false,new⟩
  | backup {phase : Phase} {st : Store Text} {new : Writer Text} (job : FolderJob)
      (env : BackupEnv) : phase.present →
      Step sha prim digest ⟨phase,⟨st,[]⟩,true,new⟩ (.backup job env)
        ⟨phase,⟨st,(backupOneFolder sha prim job env st).trail⟩,true,new⟩
  | write {phase : Phase} {st t : Store Text} {pending : List (Store Text)} {cycling : Bool}
      {new : Writer Text} : phase.present →
      Step sha prim digest ⟨phase,⟨st,t::pending⟩,cycling,new⟩ .write
        ⟨phase.after t,⟨t,pending⟩,cycling,new⟩
  | pause {old new : Writer Text} {cycling : Bool} :
      Step sha prim digest ⟨.working,old,cycling,new⟩ .pause ⟨.paused,old,cycling,new⟩
  | list {old new : Writer Text} {cycling : Bool} :
      Step sha prim digest ⟨.paused,old,cycling,new⟩ .list
        ⟨.listing [] {file | (fileAt old.store file).isSome},old,cycling,new⟩
  | see {found : List StoreFile} {steady : Set StoreFile} {old new : Writer Text} {cycling : Bool}
      (file : StoreFile) : (fileAt old.store file).isSome →
      Step sha prim digest ⟨.listing found steady,old,cycling,new⟩ (.see file)
        ⟨.listing (found++[file]) steady,old,cycling,new⟩
  | listed {found : List StoreFile} {steady : Set StoreFile} {old new : Writer Text}
      {cycling : Bool} : (∀ file ∈ steady, file ∈ found) →
      Step sha prim digest ⟨.listing found steady,old,cycling,new⟩ .listed
        ⟨.copying found,old,cycling,new⟩
  | copy {file : StoreFile} {todo : List StoreFile} {old : Writer Text} {cycling : Bool}
      {new copied : Store Text} : copyFile old.store file new = some copied →
      Step sha prim digest ⟨.copying (file::todo),old,cycling,⟨new,[]⟩⟩ .copy
        ⟨.checking file todo,old,cycling,⟨copied,[]⟩⟩
  | verify {file : StoreFile} {todo : List StoreFile} {old new : Writer Text} {cycling : Bool}
      {ours theirs : Text ⊕ Bytes} : fileAt old.store file = some ours →
      fileAt new.store file = some theirs → digest ours = digest theirs →
      Step sha prim digest ⟨.checking file todo,old,cycling,new⟩ .verify
        ⟨.copying todo,old,cycling,new⟩
  | finish {old new : Writer Text} {cycling : Bool} :
      Step sha prim digest ⟨.copying [],old,cycling,new⟩ .finish ⟨.copied,old,cycling,new⟩
  | restartKilled {old new : Writer Text} {cycling : Bool} :
      Step sha prim digest ⟨.copied,old,cycling,new⟩ (.restart true)
        ⟨.active,⟨old.store,[]⟩,false,new⟩
  | restartBeside {old new : Writer Text} {cycling : Bool} :
      Step sha prim digest ⟨.copied,old,cycling,new⟩ (.restart false) ⟨.active,old,cycling,new⟩
  | backupNew {phase : Phase} {old : Writer Text} {cycling : Bool} {st : Store Text}
      (job : FolderJob) (env : BackupEnv) : phase.restarted →
      Step sha prim digest ⟨phase,old,cycling,⟨st,[]⟩⟩ (.backupNew job env)
        ⟨phase,old,cycling,⟨st,(backupOneFolder sha prim job env st).trail⟩⟩
  | writeNew {phase : Phase} {old : Writer Text} {cycling : Bool} {st t : Store Text}
      {pending : List (Store Text)} : phase.restarted →
      Step sha prim digest ⟨phase,old,cycling,⟨st,t::pending⟩⟩ .writeNew
        ⟨phase,old,cycling,⟨t,pending⟩⟩
  | remove {old new : Writer Text} {cycling : Bool} :
      Step sha prim digest ⟨.active,old,cycling,new⟩ .remove ⟨.removed,old,cycling,new⟩
  | answer {old new : Writer Text} {cycling : Bool} :
      Step sha prim digest ⟨.removed,old,cycling,new⟩ .answer ⟨.returned,old,cycling,new⟩

/-- Runs of steps that are all allowed. -/
inductive Run {Digest : Type} (sha : Sha256) (prim : Primitives) (digest : Text ⊕ Bytes → Digest)
    (allowed : World Text → Event → World Text → Prop) (start : World Text) : World Text → Prop
  | start : Run sha prim digest allowed start start
  | step {w w' : World Text} (e : Event) : Run sha prim digest allowed start w →
      Step sha prim digest w e w' → allowed w e w' → Run sha prim digest allowed start w'

variable {Digest : Type} {sha : Sha256} {prim : Primitives} {digest : Text ⊕ Bytes → Digest}
  {base st t old new copied : Store Text} {file : StoreFile} {sid id : Str}

section Files
omit [StoreText Text]

theorem fileAt_copyFile_self (h : copyFile old file new = some copied) :
    fileAt copied file = fileAt old file := by
  cases file with
  | index sid =>
      obtain ⟨text,htext,rfl⟩ := Option.map_eq_some_iff.mp h
      simp [fileAt,Store.putIndex,htext]
  | manifest sid name =>
      obtain ⟨text,htext,rfl⟩ := Option.map_eq_some_iff.mp h
      simp [fileAt,Store.putManifest,htext]
  | report sid =>
      obtain ⟨text,htext,rfl⟩ := Option.map_eq_some_iff.mp h
      simp [fileAt,Store.putReport,htext]
  | blob path =>
      obtain ⟨blob,hblob,rfl⟩ := Option.map_eq_some_iff.mp h
      simp [fileAt,Store.putBlob,hblob]

/-- A directory changes only in the file that is put there. -/
theorem fileAt_setDir {d : SourceDir Text} {file' : StoreFile}
    (hindex : file' = .index sid → d.index = (new.dir sid).index)
    (hmanifest : ∀ name, file' = .manifest sid name →
      d.manifests[name]? = (new.dir sid).manifests[name]?)
    (hreport : file' = .report sid → d.report = (new.dir sid).report) :
    fileAt (new.setDir sid d) file' = fileAt new file' := by
  cases file' with
  | index sid' =>
      by_cases he : sid' = sid
      · subst he
        simp [fileAt,hindex rfl]
      · simp [fileAt,Store.dir_setDir_of_ne he]
  | manifest sid' name =>
      by_cases he : sid' = sid
      · subst he
        simp [fileAt,hmanifest name rfl]
      · simp [fileAt,Store.dir_setDir_of_ne he]
  | report sid' =>
      by_cases he : sid' = sid
      · subst he
        simp [fileAt,hreport rfl]
      · simp [fileAt,Store.dir_setDir_of_ne he]
  | blob path => rfl

theorem fileAt_copyFile_of_ne {file' : StoreFile} (hne : file' ≠ file)
    (h : copyFile old file new = some copied) : fileAt copied file' = fileAt new file' := by
  cases file with
  | index sid =>
      obtain ⟨text,-,rfl⟩ := Option.map_eq_some_iff.mp h
      exact fileAt_setDir (fun he => absurd he hne) (fun _ _ => rfl) fun _ => rfl
  | manifest sid name =>
      obtain ⟨text,-,rfl⟩ := Option.map_eq_some_iff.mp h
      refine fileAt_setDir (fun _ => rfl) ?_ fun _ => rfl
      rintro name' rfl
      have hname : name ≠ name' := by
        rintro rfl
        exact hne rfl
      simp [getElem?_insert,hname]
  | report sid =>
      obtain ⟨text,-,rfl⟩ := Option.map_eq_some_iff.mp h
      exact fileAt_setDir (fun _ => rfl) (fun _ _ => rfl) fun he => absurd he hne
  | blob path =>
      obtain ⟨blob,-,rfl⟩ := Option.map_eq_some_iff.mp h
      cases file' with
      | blob path' =>
          have hpath : path ≠ path' := by
            rintro rfl
            exact hne rfl
          simp [fileAt,Store.putBlob,getElem?_insert,hpath]
      | index sid => rfl
      | manifest sid name => rfl
      | report sid => rfl

/-- No index is published, and no manifest or blob that is there changes. -/
structure Adds (st t : Store Text) : Prop where
  index : ∀ sid, (t.dir sid).index = (st.dir sid).index
  manifest : ∀ (sid name : Str) (text : Text), (st.dir sid).manifests[name]? = some text →
    (t.dir sid).manifests[name]? = some text
  blob : ∀ (path : BlobPath) (blob : Bytes), st.blobs[path]? = some blob →
    t.blobs[path]? = some blob

theorem Adds.refl (st : Store Text) : Adds st st :=
  ⟨fun _ => rfl,fun _ _ _ h => h,fun _ _ h => h⟩

theorem Adds.trans {u : Store Text} (h : Adds st t) (h' : Adds t u) : Adds st u :=
  ⟨fun sid => (h'.index sid).trans (h.index sid),
    fun sid name text hname => h'.manifest sid name text (h.manifest sid name text hname),
    fun path blob hpath => h'.blob path blob (h.blob path blob hpath)⟩

/-- The files a version depends on. -/
def Needed (base : Store Text) : StoreFile → Prop
  | .report _ => False
  | .index sid => ((base.dir sid).index).isSome
  | .manifest sid name => ((base.dir sid).manifests[name]?).isSome
  | .blob path => (base.blobs[path]?).isSome

theorem fileAt_of_adds (h : Adds base st) (hneeded : Needed base file) :
    fileAt st file = fileAt base file := by
  cases file with
  | report sid => exact hneeded.elim
  | index sid => rw [fileAt,fileAt,h.index sid]
  | manifest sid name =>
      obtain ⟨text,htext⟩ := Option.isSome_iff_exists.mp hneeded
      rw [fileAt,fileAt,h.manifest sid name text htext,htext]
  | blob path =>
      obtain ⟨blob,hblob⟩ := Option.isSome_iff_exists.mp hneeded
      rw [fileAt,fileAt,h.blob path blob hblob,hblob]

theorem isSome_of_needed (hneeded : Needed base file) : (fileAt base file).isSome := by
  cases file with
  | report sid => exact hneeded.elim
  | index sid => simpa [fileAt,Needed] using hneeded
  | manifest sid name => simpa [fileAt,Needed] using hneeded
  | blob path => simpa [fileAt,Needed] using hneeded

end Files

section Transfer

/-- What the old store listed is listed, with the manifest and the blobs it had. -/
structure Transferred (base st : Store Text) : Prop where
  listed : ∀ sid id, IndexLists base sid id → IndexLists st sid id
  manifest : ∀ (sid id : Str) (mtext : Text), IndexLists base sid id →
    (base.dir sid).manifests[manifestName id]? = some mtext →
    (st.dir sid).manifests[manifestName id]? = some mtext
  blob : ∀ path ∈ base.blobs, path ∈ st.blobs

theorem transferred_of_files (h : ∀ file, Needed base file → fileAt st file = fileAt base file) :
    Transferred base st := by
  constructor
  · rintro sid id ⟨text,index,htext,hread,hid⟩
    have hfile := h (.index sid) (Option.isSome_of_eq_some htext)
    rw [fileAt,fileAt,htext] at hfile
    obtain ⟨text',htext',he⟩ := Option.map_eq_some_iff.mp hfile
    obtain rfl := Sum.inl.inj he
    exact ⟨text',index,htext',hread,hid⟩
  · intro sid id mtext _ hmanifest
    have hfile := h (.manifest sid (manifestName id)) (Option.isSome_of_eq_some hmanifest)
    rw [fileAt,fileAt,hmanifest] at hfile
    obtain ⟨mtext',hmtext',he⟩ := Option.map_eq_some_iff.mp hfile
    obtain rfl := Sum.inl.inj he
    exact hmtext'
  · intro path hpath
    obtain ⟨blob,hblob⟩ := exists_of_mem hpath
    have hfile := h (.blob path) (Option.isSome_of_eq_some hblob)
    rw [fileAt,fileAt,hblob] at hfile
    obtain ⟨blob',hblob',-⟩ := Option.map_eq_some_iff.mp hfile
    exact mem_of_getElem? hblob'

/-- A backup below the limit takes nothing back. -/
theorem transferred_backup {job : FolderJob} {env : BackupEnv} (hroom : BelowLimit sha job env st)
    (h : Transferred base st) :
    ∀ t ∈ (backupOneFolder sha prim job env st).trail, Transferred base t := by
  intro t ht
  have ht : t ∈ (backupOneFolder sha prim job env st).states := List.mem_append_left _ ht
  have hmoves := moves_backup ht
  have hgains : ∀ path : BlobPath,
      Gains sha prim job.codec (fun u : Store Text => path ∈ u.blobs) := by
    intro path u hash blob _ hpath
    exact mem_putBlob blob hpath
  constructor
  · intro sid id hlisted
    exact (listed_of_moves hroom (h.listed sid id hlisted) hmoves).1
  · intro sid id mtext hlisted hmanifest
    exact (listed_of_moves hroom (h.listed sid id hlisted) hmoves).2 mtext
      (h.manifest sid id mtext hlisted hmanifest)
  · intro path hpath
    exact (triple_backup_of (fun _ _ _ hmem => hmem) (hgains path) hroom (h.blob path hpath)).states
      (fun _ _ hmem => hmem) rfl ht

end Transfer

section Invariant

/-- The stores that calls can leave whose collections see every manifests folder. -/
abbrev SightedStore (sha : Sha256) (prim : Primitives) (st : Store Text) : Prop :=
  ReachableBy sha prim StoreCall.Sighted st

/-- How far the move has come, from a complete old store at the start of the listing. -/
def Stage (sha : Sha256) (prim : Primitives) (old new : Writer Text) : Phase → Prop
  | .working | .paused =>
      new = ⟨.empty,[]⟩ ∧ ∀ st ∈ old.store::old.pending, SightedStore sha prim st
  | .listing _ steady => new = ⟨.empty,[]⟩ ∧ ∃ base, Complete sha base ∧ Adds base old.store ∧
      ∀ file, Needed base file → file ∈ steady
  | .copying todo | .checking _ todo => new.pending = [] ∧ ∃ base, Complete sha base ∧
      Adds base old.store ∧
      ∀ file, Needed base file → file ∈ todo ∨ fileAt new.store file = fileAt base file
  | .copied | .active | .removed | .returned => ∃ base, Complete sha base ∧ Adds base old.store ∧
      ∀ st ∈ new.store::new.pending, Transferred base st

/-- From the listing to the deletion the old store only gains files beside its indexes, and the new
store is backed up to only where retention has nothing to do. The collections of the backups to the
old store see every manifests folder. -/
structure Careful (sha : Sha256) (w : World Text) (e : Event) (w' : World Text) : Prop where
  adds : w.phase.moving → Adds w.old.store w'.old.store
  sighted : ∀ job env, e = .backup job env → ∀ sid, env.gc.manifestsSeen sid = true
  room : ∀ job env, e = .backupNew job env → BelowLimit sha job env w.new.store

theorem reachable_backup {job : FolderJob} {env : BackupEnv}
    (hsighted : ∀ sid, env.gc.manifestsSeen sid = true) (h : SightedStore sha prim st) :
    ∀ t ∈ (backupOneFolder sha prim job env st).trail, SightedStore sha prim t := by
  intro t ht
  exact .call ⟨.backup job env,hsighted⟩ h (List.mem_append_left _ ht)

/-- The running cycle takes one more step on the old store. -/
theorem stage_write {pending : List (Store Text)} {writer : Writer Text} {phase : Phase}
    (hpresent : phase.present) (hadds : phase.moving → Adds st t)
    (h : Stage sha prim ⟨st,t::pending⟩ writer phase) :
    Stage sha prim ⟨t,pending⟩ writer (phase.after t) := by
  cases phase with
  | working => exact ⟨h.1,fun u hu => h.2 u (List.mem_cons_of_mem _ hu)⟩
  | paused => exact ⟨h.1,fun u hu => h.2 u (List.mem_cons_of_mem _ hu)⟩
  | listing found steady =>
      obtain ⟨hnew,base,hcomplete,hbase,hsteady⟩ := h
      have hbase' := hbase.trans (hadds trivial)
      refine ⟨hnew,base,hcomplete,hbase',?_⟩
      intro file hneeded
      refine ⟨hsteady file hneeded,?_⟩
      rw [fileAt_of_adds hbase' hneeded]
      exact isSome_of_needed hneeded
  | copying todo =>
      obtain ⟨hnew,base,hcomplete,hbase,hfiles⟩ := h
      exact ⟨hnew,base,hcomplete,hbase.trans (hadds trivial),hfiles⟩
  | checking file todo =>
      obtain ⟨hnew,base,hcomplete,hbase,hfiles⟩ := h
      exact ⟨hnew,base,hcomplete,hbase.trans (hadds trivial),hfiles⟩
  | copied =>
      obtain ⟨base,hcomplete,hbase,hnew⟩ := h
      exact ⟨base,hcomplete,hbase.trans (hadds trivial),hnew⟩
  | active =>
      obtain ⟨base,hcomplete,hbase,hnew⟩ := h
      exact ⟨base,hcomplete,hbase.trans (hadds trivial),hnew⟩
  | removed => exact hpresent.elim
  | returned => exact hpresent.elim

/-- A backup to the old store is started, or the running one is cut. -/
theorem stage_pending {pending pending' : List (Store Text)} {writer : Writer Text} {phase : Phase}
    (hpending : SightedStore sha prim st → ∀ t ∈ pending', SightedStore sha prim t)
    (h : Stage sha prim ⟨st,pending⟩ writer phase) : Stage sha prim ⟨st,pending'⟩ writer phase := by
  have hearly : ∀ {φ : Prop}, (φ ∧ ∀ u ∈ st::pending, SightedStore sha prim u) →
      φ ∧ ∀ u ∈ st::pending', SightedStore sha prim u := by
    rintro φ ⟨hnew,hreach⟩
    have hst := hreach st List.mem_cons_self
    exact ⟨hnew,List.forall_mem_cons.mpr ⟨hst,hpending hst⟩⟩
  cases phase with
  | working => exact hearly h
  | paused => exact hearly h
  | listing found steady => exact h
  | copying todo => exact h
  | checking file todo => exact h
  | copied => exact h
  | active => exact h
  | removed => exact h
  | returned => exact h

/-- The restarted daemon changes the new store. -/
theorem stage_new {old writer writer' : Writer Text} {phase : Phase} (hphase : phase.restarted)
    (hnew : ∀ base, (∀ u ∈ writer.store::writer.pending, Transferred base u) →
      ∀ u ∈ writer'.store::writer'.pending, Transferred base u)
    (h : Stage sha prim old writer phase) : Stage sha prim old writer' phase := by
  cases phase with
  | active =>
      obtain ⟨base,hcomplete,hbase,hall⟩ := h
      exact ⟨base,hcomplete,hbase,hnew base hall⟩
  | removed =>
      obtain ⟨base,hcomplete,hbase,hall⟩ := h
      exact ⟨base,hcomplete,hbase,hnew base hall⟩
  | working => exact hphase.elim
  | paused => exact hphase.elim
  | listing found steady => exact hphase.elim
  | copying todo => exact hphase.elim
  | checking file todo => exact hphase.elim
  | copied => exact hphase.elim
  | returned => exact hphase.elim

/-- One file arrives in the new store as it is in the old one. -/
theorem stage_copy {todo : List StoreFile} {old : Writer Text} {pending : List (Store Text)}
    (hcopy : copyFile old.store file new = some copied)
    (h : Stage sha prim old ⟨new,pending⟩ (.copying (file::todo))) :
    Stage sha prim old ⟨copied,pending⟩ (.checking file todo) := by
  obtain ⟨hpending,base,hcomplete,hbase,hfiles⟩ := h
  refine ⟨hpending,base,hcomplete,hbase,?_⟩
  intro file' hneeded
  by_cases he : file' = file
  · subst he
    right
    exact (fileAt_copyFile_self hcopy).trans (fileAt_of_adds hbase hneeded)
  · rcases hfiles file' hneeded with hmem | hsame
    · exact .inl ((List.mem_cons.mp hmem).resolve_left he)
    · exact .inr ((fileAt_copyFile_of_ne he hcopy).trans hsame)

theorem stage_step {w w' : World Text} {e : Event} (hstep : Step sha prim digest w e w')
    (hok : Careful sha w e w') (h : Stage sha prim w.old w.new w.phase) :
    Stage sha prim w'.old w'.new w'.phase := by
  cases hstep with
  | startCycle => exact h
  | endCycle => exact h
  | backup job env _ =>
      exact stage_pending (fun hst => reachable_backup (hok.sighted job env rfl) hst) h
  | write hpresent => exact stage_write hpresent hok.adds h
  | pause => exact h
  | list =>
      obtain ⟨hnew,hreach⟩ := h
      have hcomplete := complete_of_reachable (hreach _ List.mem_cons_self)
      exact ⟨hnew,_,hcomplete,Adds.refl _,fun file hneeded => isSome_of_needed hneeded⟩
  | see file _ => exact h
  | listed hfound =>
      obtain ⟨hnew,base,hcomplete,hbase,hsteady⟩ := h
      exact ⟨by rw [hnew],base,hcomplete,hbase,
        fun file hneeded => .inl (hfound file (hsteady file hneeded))⟩
  | copy hcopy => exact stage_copy hcopy h
  | verify _ _ _ => exact h
  | finish =>
      obtain ⟨hpending,base,hcomplete,hbase,hfiles⟩ := h
      refine ⟨base,hcomplete,hbase,?_⟩
      rw [hpending]
      refine List.forall_mem_singleton.mpr (transferred_of_files fun file hneeded => ?_)
      exact (hfiles file hneeded).resolve_left List.not_mem_nil
  | restartKilled => exact stage_pending (fun _ => by simp) h
  | restartBeside => exact h
  | backupNew job env hphase =>
      refine stage_new hphase ?_ h
      intro base hall
      have hst := hall _ List.mem_cons_self
      exact List.forall_mem_cons.mpr ⟨hst,transferred_backup (hok.room job env rfl) hst⟩
  | writeNew hphase =>
      refine stage_new hphase ?_ h
      intro base hall u hu
      exact hall u (List.mem_cons_of_mem _ hu)
  | remove => exact h
  | answer => exact h

end Invariant

/-- The version has a manifest whose files have their blobs. -/
def CompleteVersion (sha : Sha256) (st : Store Text) (sid id : Str) : Prop :=
  ∃ mtext m, (st.dir sid).manifests[manifestName id]? = some mtext ∧
    StoreText.readManifest mtext = some m ∧
    ∀ (k : Str) (e : ManifestEntry), m.entries[k]? = some e → e.kind = .file →
      ∃ hash, e.sha256 = some hash ∧ blobPath sha hash ∈ st.blobs

theorem completeVersion_of_transferred (hcomplete : Complete sha base) (h : Transferred base st)
    (hlisted : IndexLists base sid id) : CompleteVersion sha st sid id := by
  obtain ⟨text,index,htext,hread,hid⟩ := hlisted
  obtain ⟨index',hread',hversions⟩ := hcomplete sid text htext
  obtain rfl := Option.some.inj (hread.symm.trans hread')
  obtain ⟨v,hv,rfl⟩ := List.mem_map.mp hid
  obtain ⟨mtext,m,hmanifest,hm,hfiles⟩ := hversions v hv
  refine ⟨mtext,m,h.manifest sid v.id mtext ⟨text,index,htext,hread,hid⟩ hmanifest,hm,?_⟩
  intro k e he hkind
  obtain ⟨hash,hhash,hpath⟩ := hfiles k e he hkind
  exact ⟨hash,hhash,h.blob _ hpath⟩

/-- Before the command is called: backups have made the old store, the new one is empty. -/
structure Ready (sha : Sha256) (prim : Primitives) (w : World Text) : Prop where
  phase : w.phase = .working
  old : ∀ st ∈ w.old.store::w.old.pending, SightedStore sha prim st
  new : w.new = ⟨.empty,[]⟩

theorem stage_run {start w : World Text} (hstart : Ready sha prim start)
    (hrun : Run sha prim digest (Careful sha) start w) : Stage sha prim w.old w.new w.phase := by
  induction hrun with
  | start =>
      rw [hstart.phase]
      exact ⟨hstart.new,hstart.old⟩
  | step e _ hstep hok ih => exact stage_step hstep hok ih

/-- When the command has returned, every version that the old store listed at its deletion is listed
and complete in the new one, if the cycles beside it were careful. -/
theorem move_keeps_versions {start w : World Text} (hstart : Ready sha prim start)
    (hrun : Run sha prim digest (Careful sha) start w) (hreturned : w.phase = .returned) :
    ∀ sid id, IndexLists w.old.store sid id →
      IndexLists w.new.store sid id ∧ CompleteVersion sha w.new.store sid id := by
  have hstage := stage_run hstart hrun
  rw [hreturned] at hstage
  obtain ⟨base,hcomplete,hbase,hnew⟩ := hstage
  have htransferred := hnew _ List.mem_cons_self
  rintro sid id ⟨text,index,htext,hread,hid⟩
  have hlisted : IndexLists base sid id :=
    ⟨text,index,(hbase.index sid).symm.trans htext,hread,hid⟩
  exact ⟨htransferred.listed sid id hlisted,
    completeVersion_of_transferred hcomplete htransferred hlisted⟩

section Schedules
variable {allowed : World Text → Event → World Text → Prop} {start : World Text}
  {writer : Writer Text} {cycling : Bool}

/-- The files of a store, in some order. -/
def allFiles (st : Store Text) : List StoreFile :=
  (st.sources.toList.flatMap fun item =>
    (item.2.index.toList.map fun _ => StoreFile.index item.1)++
      item.2.manifests.keys.map (StoreFile.manifest item.1)++
      item.2.report.toList.map fun _ => StoreFile.report item.1)++
    st.blobs.keys.map StoreFile.blob

omit [StoreText Text] in
theorem mem_sources (hne : st.dir sid ≠ .empty) : (sid,st.dir sid) ∈ st.sources.toList := by
  rw [mem_toList_iff_getElem?_eq_some]
  unfold Store.dir at hne ⊢
  cases hd : st.sources[sid]? with
  | none =>
      rw [hd] at hne
      exact absurd rfl hne
  | some d => rfl

omit [StoreText Text] in
theorem mem_allFiles (h : (fileAt st file).isSome) : file ∈ allFiles st := by
  cases file with
  | blob path =>
      apply List.mem_append_right
      refine List.mem_map_of_mem (mem_keys.mpr ?_)
      simpa [fileAt] using h
  | manifest sid name =>
      have hne : st.dir sid ≠ .empty := by
        intro he
        simp [fileAt,he,SourceDir.empty] at h
      apply List.mem_append_left
      refine List.mem_flatMap.mpr ⟨_,mem_sources hne,?_⟩
      have hname : name ∈ (st.dir sid).manifests := by simpa [fileAt] using h
      simp [hname]
  | index sid | report sid =>
      have hne : st.dir sid ≠ .empty := by
        intro he
        simp [fileAt,he,SourceDir.empty] at h
      apply List.mem_append_left
      refine List.mem_flatMap.mpr ⟨_,mem_sources hne,?_⟩
      obtain ⟨text,htext⟩ := Option.isSome_iff_exists.mp (by simpa [fileAt] using h)
      simp [htext]

/-- The event is the start of a backup. -/
def Event.starts : Event → Bool
  | .backup _ _ | .backupNew _ _ => true
  | _ => false

/-- Steps that leave the old store alone are allowed. -/
def AllowsQuiet (allowed : World Text → Event → World Text → Prop) : Prop :=
  ∀ w e w', w'.old.store = w.old.store → e.starts = false → allowed w e w'

theorem allowsQuiet_careful :
    AllowsQuiet (Careful sha : World Text → Event → World Text → Prop) := by
  intro w e w' hold hquiet
  constructor
  · intro _
    rw [hold]
    exact Adds.refl _
  · rintro job env rfl
    cases hquiet
  · rintro job env rfl
    cases hquiet

/-- A listing during which the old store stands still. -/
theorem run_see {found files : List StoreFile} {steady : Set StoreFile} {fresh : Writer Text}
    (hquiet : AllowsQuiet allowed) (hfiles : ∀ file ∈ files, (fileAt writer.store file).isSome)
    (h : Run sha prim digest allowed start ⟨.listing found steady,writer,cycling,fresh⟩) :
    Run sha prim digest allowed start ⟨.listing (found++files) steady,writer,cycling,fresh⟩ := by
  induction files generalizing found with
  | nil => simpa using h
  | cons file files ih =>
      have hsee := h.step (.see file) (.see file (hfiles file List.mem_cons_self))
        (hquiet _ _ _ rfl rfl)
      simpa using ih (fun f hf => hfiles f (List.mem_cons_of_mem _ hf)) hsee

/-- The new store with copies of the files. -/
def copies (old : Store Text) (files : List StoreFile) (new : Store Text) : Store Text :=
  files.foldl (fun new file => (copyFile old file new).getD new) new

omit [StoreText Text] in
theorem copyFile_isSome (h : (fileAt old file).isSome) (new : Store Text) :
    ∃ copied, copyFile old file new = some copied := by
  apply Option.isSome_iff_exists.mp
  cases file with
  | index sid => simpa [fileAt,copyFile] using h
  | manifest sid name => simpa [fileAt,copyFile] using h
  | report sid => simpa [fileAt,copyFile] using h
  | blob path => simpa [fileAt,copyFile] using h

theorem run_copy {todo : List StoreFile} (hquiet : AllowsQuiet allowed)
    (htodo : ∀ file ∈ todo, (fileAt writer.store file).isSome)
    (h : Run sha prim digest allowed start ⟨.copying todo,writer,cycling,⟨new,[]⟩⟩) :
    Run sha prim digest allowed start
      ⟨.copied,writer,cycling,⟨copies writer.store todo new,[]⟩⟩ := by
  induction todo generalizing new with
  | nil => exact h.step .finish .finish (hquiet _ _ _ rfl rfl)
  | cons file todo ih =>
      have hthere := htodo file List.mem_cons_self
      obtain ⟨copied,hcopied⟩ := copyFile_isSome hthere new
      obtain ⟨content,hcontent⟩ := Option.isSome_iff_exists.mp hthere
      have hcopy := h.step .copy (.copy hcopied) (hquiet _ _ _ rfl rfl)
      have hsame := (fileAt_copyFile_self hcopied).trans hcontent
      have hverify := hcopy.step .verify (.verify hcontent hsame rfl) (hquiet _ _ _ rfl rfl)
      have hrest := ih (fun f hf => htodo f (List.mem_cons_of_mem _ hf)) hverify
      rw [copies,List.foldl_cons,hcopied]
      exact hrest

/-- From the pause to the end of the copy, without a step of the daemon. -/
theorem run_copied (hquiet : AllowsQuiet allowed)
    (hfiles : ∀ file ∈ allFiles writer.store, (fileAt writer.store file).isSome)
    (h : Run sha prim digest allowed start ⟨.working,writer,cycling,⟨.empty,[]⟩⟩) :
    Run sha prim digest allowed start
      ⟨.copied,writer,cycling,⟨copies writer.store (allFiles writer.store) .empty,[]⟩⟩ := by
  have hpause := h.step .pause .pause (hquiet _ _ _ rfl rfl)
  have hlist := hpause.step .list .list (hquiet _ _ _ rfl rfl)
  have hsee := run_see hquiet hfiles hlist
  have hlisted := hsee.step .listed (.listed fun file hfile => mem_allFiles hfile)
    (hquiet _ _ _ rfl rfl)
  exact run_copy hquiet hfiles hlisted

/-- The restart, the deletion and the answer. -/
theorem run_returned {fresh : Writer Text} (hquiet : AllowsQuiet allowed)
    (h : Run sha prim digest allowed start ⟨.copied,writer,cycling,fresh⟩) :
    Run sha prim digest allowed start ⟨.returned,⟨writer.store,[]⟩,false,fresh⟩ := by
  have hrestart := h.step (.restart true) .restartKilled (hquiet _ _ _ rfl rfl)
  have hremove := hrestart.step .remove .remove (hquiet _ _ _ rfl rfl)
  exact hremove.step .answer .answer (hquiet _ _ _ rfl rfl)

/-- The running backup comes to its end after the copy. -/
theorem run_writes {pending : List (Store Text)} {fresh : Writer Text}
    (h : Run sha prim digest (fun _ _ _ => True) start ⟨.copied,⟨st,pending⟩,cycling,fresh⟩) :
    Run sha prim digest (fun _ _ _ => True) start
      ⟨.copied,⟨pending.getLastD st,[]⟩,cycling,fresh⟩ := by
  induction pending generalizing st with
  | nil => exact h
  | cons t pending ih =>
      have hwrite := h.step .write (.write trivial) trivial
      have hrest := ih hwrite
      rwa [List.getLastD_cons]

end Schedules

/-- A digest that tells all contents apart. -/
def contents (content : PlainText ⊕ Bytes) : PlainText ⊕ Bytes := content

/-- The daemon has not started a cycle. -/
def idle (st : Store PlainText) : World PlainText := ⟨.working,⟨st,[]⟩,false,⟨.empty,[]⟩⟩

theorem ready_firstStore : Ready notesSha .transparent (idle firstStore) :=
  ⟨rfl,List.forall_mem_singleton.mpr (reachable_firstStore fun _ => rfl),rfl⟩

def movedStore : Store PlainText := copies firstStore (allFiles firstStore) .empty

/-- Without a cycle at work the version of the first backup arrives. -/
theorem move_keeps_versions_idle :
    IndexLists movedStore notesId morning.text ∧
      CompleteVersion notesSha movedStore notesId morning.text := by
  have hrun : Run notesSha .transparent contents (Careful notesSha) (idle firstStore)
      ⟨.returned,⟨firstStore,[]⟩,false,⟨movedStore,[]⟩⟩ :=
    run_returned allowsQuiet_careful (run_copied allowsQuiet_careful (by decide +kernel) .start)
  exact move_keeps_versions ready_firstStore hrun rfl _ _ (by decide +kernel)

/-- A backup that started before the pause and publishes its index after the copy. -/
theorem move_loses_late_version :
    ∃ w : World PlainText, Ready notesSha .transparent (idle firstStore) ∧
      Run notesSha .transparent contents (fun _ _ _ => True) (idle firstStore) w ∧
      w.phase = .returned ∧
      IndexLists w.old.store notesId secondLater.text ∧
      ¬ IndexLists w.new.store notesId
        secondLater.text := by
  have hquiet : @AllowsQuiet PlainText fun _ _ _ => True := fun _ _ _ _ _ => trivial
  have hcycle : Run notesSha .transparent contents (fun _ _ _ => True) (idle firstStore)
      ⟨.working,⟨firstStore,[]⟩,true,⟨.empty,[]⟩⟩ := .step .startCycle .start .startCycle trivial
  have hbackup := hcycle.step (.backup Promotion.recoveryJob Promotion.laterEnv)
    (.backup _ _ trivial) trivial
  have hcopied := run_writes (run_copied hquiet (by decide +kernel) hbackup)
  refine ⟨_,ready_firstStore,run_returned hquiet hcopied,rfl,?_,?_⟩
  · decide +kernel
  · decide +kernel

end StorageMove
end BackupSync
