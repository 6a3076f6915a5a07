import BackupSync.BackupCycle
import BackupSync.ReplicaContents

/-!
# Committed versions under replication

A version is committed while the index of its source lists it and its manifest
file is there. Replication publishes the index of the source store whole, so a
version that the replica had committed on its own survives a pair exactly when
that index lists it too. Where each pair that is carried out meets this condition
in its turn for the watched paths of its target, no committed version is lost,
also if a pair fails part of the way. Destinations that lead to one folder are one
store.

Validation does not ask for the condition. A source that is backed up to two
destinations, one of them replicated to the other, loses the version of the
second in the same cycle.
-/
namespace BackupSync
open Interruptible Interruptible.Action ContentHash Replication ReplicaContents BackupCycle
  StoreCompleteness BackupSync.Configuration

namespace ReplicatedVersions

variable {Text : Type} [StoreText Text] [DecidableEq Text] {sha : Sha256} {prim : Primitives}
  {codec : BlobCodec} {src : Store Text} {env : PairEnv} {cfg : Config} {sid id : Str}

/-- A version in the index of its source, with its manifest file. -/
def Committed (sid id : Str) (st : Store Text) : Prop :=
  ∃ text index, (st.dir sid).index = some text ∧ StoreText.readIndex text = some index ∧
    id ∈ index.ids ∧ manifestName id ∈ (st.dir sid).manifests

/-- Where the store has an index for the source, that index lists the version. -/
def Lists (src : Store Text) (sid id : Str) : Prop :=
  ∀ text index, (src.dir sid).index = some text → StoreText.readIndex text = some index →
    id ∈ index.ids

section Steps
omit [DecidableEq Text]
variable {s t : Store Text}

theorem Committed.of_dir (h : Committed sid id s) (hi : (t.dir sid).index = (s.dir sid).index)
    (hm : manifestName id ∈ (s.dir sid).manifests → manifestName id ∈ (t.dir sid).manifests) :
    Committed sid id t := by
  obtain ⟨text,index,htext,hread,hid,hfile⟩ := h
  exact ⟨text,index,hi.trans htext,hread,hid,hm hfile⟩

theorem committed_setDir {sid' : Str} {d : SourceDir Text} (h : Committed sid id s)
    (hd : sid' = sid → d.index = (s.dir sid).index ∧
      (manifestName id ∈ (s.dir sid).manifests → manifestName id ∈ d.manifests)) :
    Committed sid id (s.setDir sid' d) := by
  by_cases he : sid' = sid
  · subst he
    refine h.of_dir ?_ ?_
    · rw [Store.dir_setDir_self]
      exact (hd rfl).1
    · rw [Store.dir_setDir_self]
      exact (hd rfl).2
  · refine h.of_dir ?_ ?_
    · rw [Store.dir_setDir_of_ne (Ne.symm he)]
    · rw [Store.dir_setDir_of_ne (Ne.symm he)]
      exact fun hmem => hmem

end Steps

section Pair
omit [DecidableEq Text] in
/-- A version that the source store lists too stays committed. -/
theorem undisturbed_committed (hlists : Lists src sid id) :
    Undisturbed sha prim codec src (Committed sid id) := by
  constructor
  · exact fun s hs => hs
  · intro s sid' d hi hm hs
    refine committed_setDir hs ?_
    rintro rfl
    exact ⟨hi,fun hmem => by rwa [hm]⟩
  · intro s sid' id' text m _ _ _ hs
    refine committed_setDir hs ?_
    rintro rfl
    exact ⟨rfl,fun hmem => mem_insert.mpr (.inr hmem)⟩
  · exact fun s hash blob _ hs => hs
  · intro s sid' d text index htext hread hm hs
    by_cases he : sid' = sid
    · subst he
      have hid := hlists text index htext hread
      obtain ⟨v,hv,rfl⟩ := List.mem_map.mp hid
      obtain ⟨mtext,m,-,hfile,-,-⟩ := hm.version v hv
      exact ⟨text,index,hm.index_eq,hread,hid,mem_of_getElem? hfile⟩
    · exact committed_setDir hs fun he' => absurd he' he

/-- A pair that returns keeps the committed versions of a source exactly when the source store
lists them all. -/
theorem kept_iff_lists {s t : Store Text} {srcId : Str}
    (hr : Returns (replicateOnePair sha prim codec src env cfg srcId) s pair t)
    (hseen : env.storeSeen = true) (hsources : src.sourcesExist = true) :
    (∀ id, Committed sid id s → Committed sid id t) ↔
      ∀ id, Committed sid id s → Lists src sid id := by
  constructor
  · intro h id hid text index htext hread
    obtain ⟨index',hread',hm⟩ := returns_replicateOnePair hr hseen hsources sid text htext
    obtain rfl := Option.some.inj (hread.symm.trans hread')
    obtain ⟨text'',index'',htext'',hread'',hmem,-⟩ := h id hid
    obtain rfl := Option.some.inj (hm.index_eq.symm.trans htext'')
    obtain rfl := Option.some.inj (hread.symm.trans hread'')
    exact hmem
  · intro h id hid
    have hkept : Undisturbed sha prim codec src (Committed sid id) := undisturbed_committed (h id hid)
    exact (keeps_replicateOnePair hkept srcId).returns hid hr

end Pair

section Run

/-- The target of the pair is there, and so is the store it copies. -/
def Executed (p : PairAttempt) (env : PairEnv) (disk : Disk Text) : Prop :=
  env.replicaAvailable = true ∧ storeExists (disk.store p.src.path) env = true

/-- A pair that is carried out does not stand in the way of what its target has committed for a
watched path. -/
def Covers (sha : Sha256) (cfg : Config) (p : PairAttempt) (env : PairEnv) (disk : Disk Text) : Prop :=
  Executed p env disk → ∀ dst, p.dst = some dst → ∀ w ∈ enabledWatched cfg, ∀ d,
    destinationById cfg w.destinationId = some d → d.path = dst.path →
    ∀ id, Committed (sourceId sha w.path) id (disk.store d.path) →
      Lists (disk.store p.src.path) (sourceId sha w.path) id

/-- The condition holds of each pair in turn, in the state the pairs before it have left. -/
def InTurn (P : PairAttempt → PairEnv → Disk Text → Prop) (sha : Sha256) (prim : Primitives)
    (cfg : Config) (env : ReplicationEnv) : List (PairAttempt × Nat) → Disk Text → Prop
  | [],_ => True
  | item::items,disk => P item.1 (env.pair item.2) disk ∧ InTurn P sha prim cfg env items
      (attemptPair sha prim cfg item.1 (env.pair item.2) disk).store

/-- Where a replication comes to its pairs, the condition holds of each in turn. -/
def EachPair (P : PairAttempt → PairEnv → Disk Text → Prop) (sha : Sha256) (prim : Primitives)
    (cfg : Config) (env : ReplicationEnv) (disk : Disk Text) : Prop :=
  cfg.replicationEnabled = true → env.leased = true →
    InTurn P sha prim cfg env (configuredPairs cfg).zipIdx disk

variable {w : WatchedPath} {d : Destination}

/-- A pair that is not carried out leaves its target alone. -/
theorem store_replicateOnePair {s : Store Text} (srcId : Str)
    (h : ¬ (env.replicaAvailable = true ∧ storeExists src env = true)) :
    (replicateOnePair sha prim codec src env cfg srcId s).store = s := by
  have hkeeps : Keeps (fun t : Store Text => t = s)
      (replicateOnePair sha prim codec src env cfg srcId) := by
    refine keeps_check_bind fun havailable => ?_
    rw [if_neg fun hexists => h ⟨havailable,hexists⟩]
    exact keeps_pure _
  exact hkeeps.store rfl

/-- What a pair does to the store of one path. -/
theorem store_attemptPair {p : PairAttempt} {disk : Disk Text} {path : Str} {I : Store Text → Prop}
    (hI : Executed p env disk → ∀ dst, p.dst = some dst → path = dst.path →
      Undisturbed sha prim cfg.codec (disk.store p.src.path) I) (h : I (disk.store path)) :
    I ((attemptPair sha prim cfg p env disk).store.store path) := by
  unfold attemptPair
  cases hdst : p.dst with
  | none => exact h
  | some dst =>
      change I ((disk.setStore dst.path _).store path)
      by_cases he : path = dst.path
      · subst he
        rw [Disk.store_setStore_self]
        by_cases hexec : Executed p env disk
        · exact (keeps_replicateOnePair (hI hexec dst hdst rfl) _).store h
        · rw [store_replicateOnePair _ hexec]
          exact h
      · rw [Disk.store_setStore_of_ne he]
        exact h

theorem returns_replicatePair (renv : ReplicationEnv) (summary : ReplicationSummary)
    (item : PairAttempt × Nat) (disk : Disk Text) : ∃ summary',
    Returns (replicatePair sha prim cfg renv summary item) disk summary'
      (attemptPair sha prim cfg item.1 (renv.pair item.2) disk).store := by
  have hattempt : ∃ outcome, (attemptPair sha prim cfg item.1 (renv.pair item.2) disk).result =
      .ok outcome := by
    unfold attemptPair
    cases item.1.dst with
    | none => exact ⟨none,rfl⟩
    | some dst => exact ⟨some _,rfl⟩
  obtain ⟨outcome,houtcome⟩ := hattempt
  exact ⟨_,returns_bind.mpr ⟨outcome,_,⟨houtcome,rfl⟩,returns_pure.mpr ⟨rfl,rfl⟩⟩⟩

/-- What every pair keeps that meets the condition, the replication keeps. -/
theorem replication_keeps {P : PairAttempt → PairEnv → Disk Text → Prop} {J : Disk Text → Prop}
    (hstep : ∀ p env disk, P p env disk → J disk → J (attemptPair sha prim cfg p env disk).store)
    {renv : ReplicationEnv} {disk : Disk Text} (h : EachPair P sha prim cfg renv disk) (hJ : J disk) :
    J (replicateConfiguredStores sha prim cfg renv disk).store := by
  have hpairs : ∀ (items : List (PairAttempt × Nat)) (summary : ReplicationSummary) (u : Disk Text),
      InTurn P sha prim cfg renv items u → J u →
      J (items.foldlM (replicatePair sha prim cfg renv) summary u).store := by
    intro items
    induction items with
    | nil => exact fun _ _ _ hu => hu
    | cons item items ih =>
        intro summary u hturn hu
        obtain ⟨summary',hr⟩ := @returns_replicatePair Text _ _ sha prim cfg renv summary item u
        rw [List.foldlM_cons,store_bind hr]
        exact ih summary' _ hturn.2 (hstep _ _ _ hturn.1 hu)
  unfold replicateConfiguredStores
  split
  · rename_i henabled
    cases hl : renv.leased with
    | false => exact hJ
    | true =>
        have hcheck : Returns (check true ReplicationError.leases) disk () disk := ⟨rfl,rfl⟩
        rw [store_bind hcheck,store_bind_pure]
        exact hpairs _ _ _ (h henabled hl) hJ
  · exact hJ

/-- What a cycle has committed at the destination of a watched path is there after replication,
if every pair that is carried out covers its target; a pair that returns keeps what its target had
committed for a source only if it covers it. The stores are those of the folders that the paths of
the destinations lead to. -/
theorem replication_keeps_committed (place : Str → Str) (cfg : Config) (cycle : CycleEnv)
    (renv : ReplicationEnv) (disk : Disk Text)
    (hcov : EachPair (Covers sha (resolvedBy place cfg)) sha prim (resolvedBy place cfg) renv
      (runBackupCycle sha prim (resolvedBy place cfg) cycle disk).store) :
    (∀ w ∈ enabledWatched cfg, ∀ d, destinationById cfg w.destinationId = some d →
      ∀ id, Committed (sourceId sha w.path) id
          ((runBackupCycle sha prim (resolvedBy place cfg) cycle disk).store.store (place d.path)) →
        Committed (sourceId sha w.path) id ((replicateConfiguredStores sha prim
          (resolvedBy place cfg) renv (runBackupCycle sha prim (resolvedBy place cfg) cycle
            disk).store).store.store (place d.path))) ∧
    ∀ (src s t : Store Text) (env : PairEnv) (srcId sid : Str) (pair : PairCounters),
      Returns (replicateOnePair sha prim cfg.codec src env cfg srcId) s pair t →
      env.storeSeen = true → src.sourcesExist = true →
      ((∀ id, Committed sid id s → Committed sid id t) ↔
        ∀ id, Committed sid id s → Lists src sid id) := by
  refine ⟨?_,fun src s t env srcId sid pair hr hseen hs => kept_iff_lists hr hseen hs⟩
  intro w hw d hd id h
  have hd' := destinationById_resolvedBy place cfg w.destinationId
  rw [hd] at hd'
  refine replication_keeps (J := fun u => Committed (sourceId sha w.path) id (u.store (place d.path)))
    ?_ hcov h
  intro p env u hp hu
  refine store_attemptPair ?_ hu
  intro hexec dst hdst he
  exact undisturbed_committed (hp hexec dst hdst w hw _ hd' he id hu)

end Run

def notesTo (destinationId : String) : WatchedPath :=
  {notesJob.watched with destinationId := destinationId.toList}

/-- A second after the first backup. -/
def secondLater : VersionStamp := ⟨"20260102-030406-000000000".toList,by decide⟩

/-- The first destination is reached first, the second one a second later. -/
def calmCycle : CycleEnv where
  canonical := some
  freeSpace _ := some 100
  leased := true
  codecLoaded := true
  folder w := if w.destinationId = "main".toList then firstEnv
    else calmEnv "hi" 7 1767323046 secondLater
  viewSynced _ := true

def calmReplication : ReplicationEnv := ⟨true,fun _ => calmPair⟩

def afterCycle (cfg : Config) : Disk PlainText :=
  (runBackupCycle notesSha .transparent cfg calmCycle ∅).store

def afterReplication (cfg : Config) : Disk PlainText :=
  (replicateConfiguredStores notesSha .transparent cfg calmReplication (afterCycle cfg)).store

theorem committed_of_index {st : Store PlainText} {sid id : Str} (index : VersionIndex)
    (hindex : (st.dir sid).index = some (.index index)) (hid : id ∈ index.ids)
    (hfile : manifestName id ∈ (st.dir sid).manifests) : Committed sid id st :=
  ⟨_,index,hindex,rfl,hid,hfile⟩

/-- A source with one destination keeps its version there. -/
theorem replication_keeps_committed_single_destination :
    Committed notesId morning.text
      ((afterReplication (mirroredConfig [notesTo "main"])).store "/mnt/main".toList) := by
  have hcov : EachPair (Covers notesSha (mirroredConfig [notesTo "main"])) notesSha .transparent
      (mirroredConfig [notesTo "main"]) calmReplication
      (afterCycle (mirroredConfig [notesTo "main"])) := by
    refine fun _ _ => ⟨?_,trivial⟩
    rintro - _ ⟨⟩ w hw d hd hpath
    obtain rfl := List.mem_singleton.mp hw
    cases hd
    exact absurd hpath (by decide)
  refine (replication_keeps_committed (fun path => path) (mirroredConfig [notesTo "main"]) calmCycle
    calmReplication ∅ hcov).1 (notesTo "main")
    (List.mem_singleton_self _) _ rfl morning.text ?_
  exact committed_of_index notesIndex (by decide +kernel) (by decide) (by decide +kernel)

def twiceConfig : Config := mirroredConfig [notesTo "main",notesTo "copy"]

/-- One source is backed up to two destinations and the first is replicated to the second. The
version of the second destination is gone after the cycle that made it. -/
theorem replication_drops_second_backup :
    validate twiceConfig ⟨fun _ => true,fun _ => false,fun _ => true⟩ = .ok () ∧
    Returns (runBackupCycle notesSha .transparent twiceConfig calmCycle) ∅ ⟨2,2,2,4,[]⟩
      (afterCycle twiceConfig) ∧
    Committed notesId secondLater.text ((afterCycle twiceConfig).store "/mnt/copy".toList) ∧
    Returns (replicateConfiguredStores notesSha .transparent twiceConfig calmReplication)
      (afterCycle twiceConfig) ⟨1,1,0,1,0,3,1,[],"replication pairs_ok=1/1 manifests_copied=1".toList++
        " blobs_copied=0 bytes_copied=3 manifests_deleted=1 targets_failed=0".toList⟩
      (afterReplication twiceConfig) ∧
    ¬ Committed notesId secondLater.text
      ((afterReplication twiceConfig).store "/mnt/copy".toList) := by
  refine ⟨by decide +kernel,⟨by decide +kernel,rfl⟩,?_,⟨by decide +kernel,rfl⟩,?_⟩
  · exact committed_of_index
      ⟨1,"/home/notes".toList,[⟨secondLater.text,1767323046⟩],none,none,none⟩
      (by decide +kernel) (by decide) (by decide +kernel)
  · rintro ⟨text,index,htext,hread,hid,-⟩
    have hindex : (((afterReplication twiceConfig).store "/mnt/copy".toList).dir notesId).index =
        some (.index notesIndex) := by decide +kernel
    obtain rfl := Option.some.inj (htext.symm.trans hindex)
    obtain rfl := Option.some.inj hread
    exact absurd hid (by decide)

end ReplicatedVersions
end BackupSync
