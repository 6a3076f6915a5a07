import BackupSync.StateFile
import BackupSync.DaemonInterleaving

/-!
# What a daemon finds at its next start

The interleaved tasks of a daemon write their copies of the stored state to the state
file through the store of that file. A daemon may stop at any time, between two steps
of its tasks or while a copy is being written, and the machine may lose power then.

The journal of the interleaved model names the copies by their commits. The store's
calls refine its writes: the journal's file is the state a reader would find.
-/
namespace BackupSync
open Interruptible DurableFile DaemonState DaemonCycle StateFile

/-- A daemon, its state file, and the last commit whose write has returned. -/
structure DaemonOnDisk where
  daemon : Daemon
  disk : Slot Char
  confirmed : Option Nat

namespace DaemonRestart
open Daemon

/-- The journal after a write to the file; the write counts if the copy can be seen there. -/
def written (text : StateText StoredState) (journal : Journal StoredState) (commit : Nat)
    (snapshot : StoredState) (disk : Slot Char) : Journal StoredState :=
  journal.write commit snapshot (decide (disk.seen = onDisk (some (text.render snapshot))))

def confirm (m : DaemonOnDisk) (commit : Nat) : Except PersistError Unit → Option Nat
  | .ok _ => some commit
  | .error _ => m.confirmed

/-- The copy has been written by the store, whatever its calls met, and its task is done. -/
def persisted (text : StateText StoredState) (env : PersistEnv) (m : DaemonOnDisk) (commit : Nat)
    (snapshot : StoredState) (d' : Daemon) : DaemonOnDisk :=
  let o := persist text env snapshot m.disk
  ⟨{d' with commitLock := none,journal := written text m.daemon.journal commit snapshot o.store},
    o.store,confirm m commit o.result⟩

/-- One access of the interleaved tasks. -/
inductive DiskStep (cfg : DaemonConfig) (text : StateText StoredState) (m : DaemonOnDisk) :
    DaemonOnDisk → Prop
  | other {d' : Daemon} : Step cfg m.daemon d' → d'.journal.file = m.daemon.journal.file →
      d'.journal.written = m.daemon.journal.written → DiskStep cfg text m {m with daemon := d'}
  | persistCycle {commit : Nat} {snapshot : StoredState} (env : PersistEnv) :
      m.daemon.cycle = .persisting commit snapshot →
      DiskStep cfg text m (persisted text env m commit snapshot {m.daemon with cycle := .idle})
  | persistVerify {commit : Nat} {snapshot : StoredState} (env : PersistEnv) :
      m.daemon.verify = .persisting commit snapshot →
      DiskStep cfg text m (persisted text env m commit snapshot {m.daemon with verify := .idle})

/-- A copy that a task is about to write. -/
def Writing (d : Daemon) (commit : Nat) (snapshot : StoredState) : Prop :=
  d.cycle = .persisting commit snapshot ∨ d.verify = .persisting commit snapshot

/-- The state file of a daemon that stops, between two steps or while a copy is written. -/
inductive Stops (text : StateText StoredState) (m : DaemonOnDisk) : Slot Char → Prop
  | idle : Stops text m m.disk
  | writing {commit : Nat} {snapshot : StoredState} (env : PersistEnv) {disk : Slot Char} :
      Writing m.daemon commit snapshot → disk ∈ (persist text env snapshot m.disk).states →
      Stops text m disk
  | cut {disk disk' : Slot Char} : Stops text m disk → Cut disk disk' → Stops text m disk'

/-- The state is the one the daemon started from or the copy of a commit, and no commit that
is confirmed came after it. -/
def NotOlder (file : StoredState) (m : DaemonOnDisk) (s : StoredState) : Prop :=
  (m.confirmed = none ∧ s = file) ∨
    ∃ n, m.daemon.journal.copies[n]? = some s ∧ ∀ c, m.confirmed = some c → c ≤ n

section Invariant
variable {cfg : DaemonConfig} {text : StateText StoredState} {default initial file : StoredState}

/-- The content is that of the journal's file. -/
def Shows (text : StateText StoredState) (default : StoredState) (m : DaemonOnDisk) :
    Option (List Char) → Prop :=
  Among text default (· = m.daemon.journal.file)

structure OnDisk (cfg : DaemonConfig) (text : StateText StoredState)
    (default initial file : StoredState) (m : DaemonOnDisk) : Prop where
  reaches : Reaches cfg (boot initial file) m.daemon
  holds : Holds (Shows text default m) (Among text default (NotOlder file m)) m.disk
  confirmed : ∀ c, m.confirmed = some c → c ∈ m.daemon.journal.written

variable {m m' : DaemonOnDisk} {journal : Journal StoredState} {commit : Nat}
  {snapshot : StoredState} {disk : Slot Char}

theorem OnDisk.inFlight (h : OnDisk cfg text default initial file m)
    (hw : Writing m.daemon commit snapshot) : m.daemon.journal.InFlight commit snapshot := by
  have hs := (DaemonInterleaving.accounted_of_reaches h.reaches).serialized
  rcases hw with hw | hw
  · exact hs.cycleCopy commit snapshot hw
  · exact hs.verifyCopy commit snapshot hw

/-- The copy in flight is newer than every confirmed one. -/
theorem OnDisk.notOlder_inFlight (h : OnDisk cfg text default initial file m)
    (hw : Writing m.daemon commit snapshot) : NotOlder file m snapshot := by
  have hf := h.inFlight hw
  refine .inr ⟨commit,hf.copied,?_⟩
  intro c hc
  exact (hf.later c (h.confirmed c hc)).le

/-- While the copy is written, the file is the old one or the copy. -/
theorem OnDisk.triple_persist (h : OnDisk cfg text default initial file m)
    (hw : Writing m.daemon commit snapshot) (env : PersistEnv) :
    Triple (fun disk => disk = m.disk) (persist text env snapshot)
      (fun _ => Replaced (text.render snapshot))
      (Holds (fun c => Shows text default m c ∨ c = some (text.render snapshot))
        (Among text default (NotOlder file m))) := by
  have hlater : Among text default (NotOlder file m) (some (text.render snapshot)) :=
    among_render (h.notOlder_inFlight hw)
  refine triple_conseq (StateFile.triple_persist text env (.inr rfl) hlater) ?_ (fun _ _ hd => hd)
    fun _ hd => hd
  rintro _ rfl
  exact h.holds.mono (fun c hc => .inl hc) fun c hc => hc

/-- Later copies and the same confirmed commit. -/
theorem NotOlder.extend {s : StoredState} (h : NotOlder file m s)
    (hconfirmed : m'.confirmed = m.confirmed)
    (hcopies : m.daemon.journal.copies <+: m'.daemon.journal.copies) : NotOlder file m' s := by
  rcases h with ⟨hnone,rfl⟩ | ⟨n,hn,hle⟩
  · exact .inl ⟨hconfirmed.trans hnone,rfl⟩
  · obtain ⟨rest,hrest⟩ := hcopies
    refine .inr ⟨n,?_,?_⟩
    · rw [← hrest,List.getElem?_append_left (List.getElem?_eq_some_iff.mp hn).1]
      exact hn
    · rwa [hconfirmed]

theorem copies_written : (written text journal commit snapshot disk).copies = journal.copies := by
  unfold written Journal.write
  split <;> rfl

theorem file_written_seen (h : disk.seen = onDisk (some (text.render snapshot))) :
    (written text journal commit snapshot disk).file = snapshot ∧
      commit ∈ (written text journal commit snapshot disk).written := by
  unfold written
  rw [decide_eq_true h]
  exact ⟨rfl,List.mem_append_right _ (List.mem_singleton_self _)⟩

theorem file_written_unseen (h : disk.seen ≠ onDisk (some (text.render snapshot))) :
    written text journal commit snapshot disk = journal := by
  unfold written
  rw [decide_eq_false h]
  rfl

theorem written_mono {n : Nat} (h : n ∈ journal.written) :
    n ∈ (written text journal commit snapshot disk).written := by
  by_cases hseen : disk.seen = onDisk (some (text.render snapshot))
  · unfold written
    rw [decide_eq_true hseen]
    exact List.mem_append_left _ h
  · rwa [file_written_unseen hseen]

theorem onDisk_write (h : OnDisk cfg text default initial file m)
    (hw : Writing m.daemon commit snapshot) (env : PersistEnv)
    {d' : Daemon} (hreach : Reaches cfg (boot initial file) d')
    (hjournal : d'.journal = written text m.daemon.journal commit snapshot
      (persist text env snapshot m.disk).store) :
    OnDisk cfg text default initial file ⟨d',(persist text env snapshot m.disk).store,
      confirm m commit (persist text env snapshot m.disk).result⟩ := by
  obtain ⟨-,hok,herr⟩ := h.triple_persist hw env m.disk rfl
  cases hr : (persist text env snapshot m.disk).result with
  | ok u =>
      have hdone := hok u hr
      obtain ⟨hfile,hmem⟩ := @file_written_seen text m.daemon.journal commit _ _ hdone.1
      refine ⟨hreach,holds_of_survivors hdone.1 hdone.2 (among_render ?_) (among_render ?_),?_⟩
      · exact (hjournal ▸ hfile).symm
      · refine .inr ⟨commit,?_,fun c hc => (Option.some.inj hc).ge⟩
        rw [hjournal,copies_written]
        exact (h.inFlight hw).copied
      · rintro c ⟨⟩
        exact hjournal ▸ hmem
  | error e =>
      have hleft := herr e hr
      have hcopies : m.daemon.journal.copies <+: d'.journal.copies := by
        rw [hjournal,copies_written]
      refine ⟨hreach,⟨hleft.survives,?_,?_⟩,?_⟩
      · obtain ⟨c,hc,hseen⟩ := hleft.now
        refine ⟨c,?_,hseen⟩
        by_cases hnew : (persist text env snapshot m.disk).store.seen =
            onDisk (some (text.render snapshot))
        · rw [onDisk_inj (hseen.symm.trans hnew)]
          apply among_render
          exact (hjournal ▸ (file_written_seen hnew).1).symm
        · have hold : Shows text default m c := by
            refine hc.resolve_right ?_
            rintro rfl
            exact hnew hseen
          have hsame : d'.journal = m.daemon.journal := hjournal.trans (file_written_unseen hnew)
          refine hold.mono fun s hs => ?_
          rw [hsame]
          exact hs
      · intro f hf
        obtain ⟨c,hc,rfl⟩ := hleft.later f hf
        exact ⟨c,hc.mono fun s hs => hs.extend rfl hcopies,rfl⟩
      · intro c hc
        rw [hjournal]
        exact written_mono (h.confirmed c hc)

theorem copies_step {d d' : Daemon} (h : Step cfg d d') :
    d.journal.copies <+: d'.journal.copies := by
  cases h with
  | merge hphase => exact List.prefix_append _ _
  | applyVerify hphase => exact List.prefix_append _ _
  | @persistCycle commit snapshot succeeds hphase => cases succeeds <;> exact List.prefix_rfl
  | @persistVerify commit snapshot succeeds hphase => cases succeeds <;> exact List.prefix_rfl
  | _ => exact List.prefix_rfl

theorem onDisk_step (h : OnDisk cfg text default initial file m) (hstep : DiskStep cfg text m m') :
    OnDisk cfg text default initial file m' := by
  cases hstep with
  | other hd hfile hwritten =>
      refine ⟨h.reaches.tail hd,h.holds.mono ?_ ?_,?_⟩
      · intro c hc
        exact hc.mono fun s hs => hs.trans hfile.symm
      · intro c hc
        exact hc.mono fun s hs => hs.extend rfl (copies_step hd)
      · intro c hc
        rw [hwritten]
        exact h.confirmed c hc
  | persistCycle env hphase =>
      exact onDisk_write h (.inl hphase) env (h.reaches.tail (.persistCycle _ hphase)) rfl
  | persistVerify env hphase =>
      exact onDisk_write h (.inr hphase) env (h.reaches.tail (.persistVerify _ hphase)) rfl

/-- The daemon has just loaded its state file. -/
def started (initial file : StoredState) (disk : Slot Char) : DaemonOnDisk :=
  ⟨boot initial file,disk,none⟩

theorem onDisk_started {c : Option (List Char)} (hc : decode text default c = some file) :
    OnDisk cfg text default initial file (started initial file (.settled (onDisk c))) where
  reaches := .refl
  holds := holds_of_survivors rfl rfl ⟨file,rfl,hc⟩ ⟨file,.inl ⟨rfl,rfl⟩,hc⟩
  confirmed _ hc := by cases hc

theorem onDisk_of_steps {c : Option (List Char)} (hc : decode text default c = some file)
    (h : Relation.ReflTransGen (DiskStep cfg text) (started initial file (.settled (onDisk c))) m) :
    OnDisk cfg text default initial file m := by
  induction h with
  | refl => exact onDisk_started hc
  | tail _ hstep ih => exact onDisk_step ih hstep

/-- Whenever the daemon stops, what is left is not older than the last confirmed commit. -/
theorem holds_of_stops (h : OnDisk cfg text default initial file m)
    (hstop : Stops text m disk) :
    Holds (Among text default (NotOlder file m)) (Among text default (NotOlder file m)) disk := by
  induction hstop with
  | idle => exact h.holds.forget
  | writing env hw hmem =>
      refine (Triple.states (h.triple_persist hw env) ?_ rfl hmem).forget
      intro _ disk hdone
      exact hdone.holds (.inr rfl) (among_render (h.notOlder_inFlight hw))
  | cut _ hcut ih => exact ih.cut hcut

end Invariant

instance encodableChar : Encodable Char :=
  Encodable.ofLeftInverse Char.toNat Char.ofNat Char.ofNat_toNat

instance encodableStr : Encodable Str := inferInstanceAs (Encodable (List Char))

deriving instance Encodable for SafetyWarning

deriving instance Encodable for StoredState

end DaemonRestart
end BackupSync
