import BackupSync.IoPolicy
import BackupSync.DurableFile

/-!
# The state file

The state is written to a temporary file, which is synced and renamed to the path of
the state file; then the directory is synced. All of that is one attempt of a blocking
call, and is done again when any part fails. At the next start the file is read, and a
missing one is the default state; so is one that the look for it does not see.

Serialized text is left to a pair of functions that invert each other. Power cuts and
killed processes may happen at any step of any attempt.
-/
namespace BackupSync
open Checks Interruptible Interruptible.Action DurableFile IoPolicy

/-- The text form of a state. -/
structure StateText (S : Type) where
  render : S → List Char
  parse : List Char → Option S
  parse_render : ∀ s, parse (render s) = some s

/-- The calls of one attempt, in their order. -/
inductive ReplaceStage where
  | create | write | flush | sync | rename | openParent | syncParent
  deriving DecidableEq, Repr

/-- The call that fails, if one does; a failing write may have written a part. -/
structure ReplaceAttempt where
  failing : Option ReplaceStage
  written : Nat
  deriving DecidableEq, Repr

inductive PersistError where
  | createDirectory (e : PolicyError Unit)
  | replace (e : PolicyError ReplaceStage)
  deriving DecidableEq, Repr

inductive LoadError where
  | read (e : PolicyError Unit)
  | parse
  deriving DecidableEq, Repr

/-- The calls are not cancelled; they may find any clock, and anything may fail. -/
structure PersistEnv where
  clock : IoClock
  directoryStart : Nat
  createDirectory : Nat → Bool
  directoryTook : Nat → Nat
  replaceStart : Nat
  replacement : Nat → ReplaceAttempt
  replaceTook : Nat → Nat

structure StateLoadEnv where
  clock : IoClock
  start : Nat
  /-- A look for the file that fails finds nothing. -/
  seen : Bool
  reads : Nat → Bool
  took : Nat → Nat

namespace StateFile
variable {S : Type}

def writeTemp (raw : List Char) (a : ReplaceAttempt) : Action (Slot Char) ReplaceStage Unit :=
  if a.failing = some .write then stepThenFail (Slot.append (raw.take a.written)) .write
  else step (Slot.append raw)

def fillAndRename (raw : List Char) (a : ReplaceAttempt) : Action (Slot Char) ReplaceStage Unit := do
  writeTemp raw a
  check (a.failing ≠ some .flush) .flush
  check (a.failing ≠ some .sync) .sync
  step Slot.syncTemp
  check (a.failing ≠ some .rename) .rename
  step Slot.rename
  check (a.failing ≠ some .openParent) .openParent
  check (a.failing ≠ some .syncParent) .syncParent
  step Slot.syncParent

/-- One attempt to replace the state file; an error before the renaming removes the temporary
file. -/
def replaceStateFile (raw : List Char) (a : ReplaceAttempt) : Action (Slot Char) ReplaceStage Unit := do
  check (a.failing ≠ some .create) .create
  step Slot.create
  match ← attempt (fillAndRename raw a) with
  | .ok () => pure ()
  | .error stage => do
      step Slot.dropTemp
      fail stage

def persist (text : StateText S) (env : PersistEnv) (state : S) :
    Action (Slot Char) PersistError Unit := do
  mapFailure .createDirectory (runWithPolicy bootstrapDefaults env.clock env.directoryStart
    ⟨fun i => check (env.createDirectory i) (),env.directoryTook⟩)
  mapFailure .replace (runWithPolicy bootstrapDefaults env.clock env.replaceStart
    ⟨fun i => replaceStateFile (text.render state) (env.replacement i),env.replaceTook⟩)

def readFile (content : List Char) (env : StateLoadEnv) : TimedOp (Slot Char) Unit (List Char) :=
  ⟨fun i => do check (env.reads i) (); pure content,env.took⟩

def loadOrDefault (text : StateText S) (default : S) (env : StateLoadEnv) :
    Action (Slot Char) LoadError S := do
  match (← Action.read).seen with
  | none => pure default
  | some file =>
      if env.seen then do
        let raw ← mapFailure .read
          (runWithPolicy bootstrapDefaults env.clock env.start (readFile file.content env))
        lift (orElse (text.parse raw) .parse)
      else pure default

section Replacing
variable {now later : Option (List Char) → Prop} {raw : List Char}

/-- The temporary file has the given content. -/
def Filled (now later : Option (List Char) → Prop) (content : List Char) (synced : Bool)
    (s : Slot Char) : Prop :=
  Holds now later s ∧ s.temp = some ⟨content,synced⟩

/-- The file at the path is the new one, and nothing else may survive. -/
def Replaced (raw : List Char) (s : Slot Char) : Prop :=
  s.seen = onDisk (some raw) ∧ s.survivors = [s.seen]

theorem Replaced.holds {s : Slot Char} (h : Replaced raw s) (hnow : now (some raw))
    (hlater : later (some raw)) : Holds now later s := holds_of_survivors h.1 h.2 hnow hlater

theorem triple_writeTemp (a : ReplaceAttempt) :
    Triple (Filled now later [] false) (writeTemp raw a) (fun _ => Filled now later raw false)
      (Holds now later) := by
  unfold writeTemp
  split
  · exact triple_stepThenFail fun s hs => hs.1.append _
  · refine triple_step fun s hs => ⟨⟨hs.1.append raw,?_⟩,hs.1.append raw⟩
    simp [Slot.append,hs.2]

theorem triple_fillAndRename (hnow : now (some raw)) (hlater : later (some raw))
    (a : ReplaceAttempt) :
    Triple (Filled now later [] false) (fillAndRename raw a) (fun _ => Replaced raw)
      (Holds now later) := by
  unfold fillAndRename
  refine triple_bind (triple_writeTemp a) fun _ => ?_
  refine triple_check_bind (fun _ hs => hs.1) fun _ => ?_
  refine triple_check_bind (fun _ hs => hs.1) fun _ => ?_
  refine triple_bind (R := fun _ => Filled now later raw true) (triple_step ?_) fun _ => ?_
  · intro s hs
    refine ⟨⟨hs.1.syncTemp,?_⟩,hs.1.syncTemp⟩
    simp [Slot.syncTemp,hs.2]
  refine triple_check_bind (fun _ hs => hs.1) fun _ => ?_
  refine triple_bind (R := fun _ s => Holds now later s ∧ s.seen = onDisk (some raw))
    (triple_step ?_) fun _ => ?_
  · intro s hs
    have hrename := hs.1.rename hs.2 hnow hlater
    exact ⟨⟨hrename,seen_rename hs.2⟩,hrename⟩
  refine triple_check_bind (fun _ hs => hs.1) fun _ => ?_
  refine triple_check_bind (fun _ hs => hs.1) fun _ => ?_
  exact triple_step fun s hs => ⟨⟨hs.2,rfl⟩,hs.1.syncParent⟩

theorem triple_replaceStateFile (hnow : now (some raw)) (hlater : later (some raw))
    (a : ReplaceAttempt) :
    Triple (Holds now later) (replaceStateFile raw a) (fun _ => Replaced raw) (Holds now later) := by
  unfold replaceStateFile
  refine triple_check_bind (fun _ hs => hs) fun _ => ?_
  refine triple_bind (R := fun _ => Filled now later [] false) (triple_step ?_) fun _ => ?_
  · intro s hs
    exact ⟨⟨hs.create,rfl⟩,hs.create⟩
  refine spec_attempt_bind (triple_fillAndRename hnow hlater a) ?_ ?_
  · intro _
    exact triple_pure () fun _ hs => hs
  · intro stage
    refine triple_bind (R := fun _ => Holds now later) (triple_step ?_) fun _ => ?_
    · intro s hs
      exact ⟨hs.dropTemp,hs.dropTemp⟩
    · exact triple_fail stage fun _ hs => hs

theorem triple_persist (text : StateText S) (env : PersistEnv) {state : S}
    (hnow : now (some (text.render state))) (hlater : later (some (text.render state))) :
    Triple (Holds now later) (persist text env state) (fun _ => Replaced (text.render state))
      (Holds now later) := by
  refine triple_bind (R := fun _ => Holds now later) (spec_mapFailure ?_) fun _ =>
    spec_mapFailure ?_
  · refine triple_runWithPolicy fun i => ?_
    exact triple_check (fun _ _ hs => hs) fun _ hs => hs
  · exact triple_runWithPolicy fun i => triple_replaceStateFile hnow hlater (env.replacement i)

theorem runs_replaceStateFile (hnow : now (some raw)) (hlater : later (some raw))
    {a : ReplaceAttempt} (ha : a.failing = none) :
    Runs (Holds now later) (replaceStateFile raw a) fun _ => Replaced raw := by
  intro s hs
  have hok : (replaceStateFile raw a s).result = .ok () := by
    obtain ⟨failing,written⟩ := a
    obtain rfl : failing = none := ha
    rfl
  exact ⟨(),_,⟨hok,rfl⟩,(triple_replaceStateFile hnow hlater a s hs).2.1 () hok⟩

/-- One good attempt among the first five is enough for each of the two calls. -/
theorem runs_persist (text : StateText S) (env : PersistEnv) {state : S} {i j longest slack : Nat}
    (hcalm : ∀ t, env.clock.cancelled t = false)
    (hslept : ∀ now asked, env.clock.slept now asked ≤ asked+slack)
    (htook : ∀ n, env.directoryTook n ≤ longest ∧ env.replaceTook n ≤ longest)
    (htime : longest+slack ≤ 74*second) (hi : i ≤ 4) (hdirectory : env.createDirectory i = true)
    (hj : j ≤ 4) (hreplace : (env.replacement j).failing = none)
    (hnow : now (some (text.render state))) (hlater : later (some (text.render state))) :
    Runs (Holds now later) (persist text env state) fun _ => Replaced (text.render state) := by
  refine runs_bind (R := fun _ => Holds now later) (runs_mapFailure ?_) fun _ => runs_mapFailure ?_
  · refine runs_bootstrapDefaults hi hcalm hslept (fun n => (htook n).1) htime ?_ ?_
    · intro n _
      exact spec_check (fun _ _ hs => hs) fun _ hs => hs
    · dsimp only
      rw [hdirectory]
      exact runs_pure () fun _ hs => hs
  · refine runs_bootstrapDefaults hj hcalm hslept (fun n => (htook n).2) htime ?_ ?_
    · intro n _
      exact spec_conseq (triple_replaceStateFile hnow hlater (env.replacement n)) (fun _ hs => hs)
        (fun _ _ hs => hs) (fun _ _ hs => hs) fun _ _ => trivial
    · exact runs_replaceStateFile hnow hlater hreplace

end Replacing

/-- The state a start finds in a file. -/
def decode (text : StateText S) (default : S) : Option (List Char) → Option S
  | none => some default
  | some raw => text.parse raw

/-- The content is that of one of the states. -/
def Among (text : StateText S) (default : S) (P : S → Prop) (c : Option (List Char)) : Prop :=
  ∃ s, P s ∧ decode text default c = some s

variable {text : StateText S}

theorem among_render {default : S} {P : S → Prop} {s : S} (h : P s) :
    Among text default P (some (text.render s)) := ⟨s,h,text.parse_render s⟩

theorem Among.mono {default : S} {P P' : S → Prop} {c : Option (List Char)}
    (h : Among text default P c) (hP : ∀ s, P s → P' s) : Among text default P' c := by
  obtain ⟨s,hs,hc⟩ := h
  exact ⟨s,hP s hs,hc⟩

theorem spec_readFile {C : Slot Char → Prop} (content : List Char) (env : StateLoadEnv) :
    Spec C (mapFailure LoadError.read
        (runWithPolicy bootstrapDefaults env.clock env.start (readFile content env)))
      (fun raw d => C d ∧ raw = content) (fun e d => (∃ e', e = .read e') ∧ C d) C := by
  apply spec_mapFailure
  have hcall : Triple C (runWithPolicy bootstrapDefaults env.clock env.start (readFile content env))
      (fun raw d => C d ∧ raw = content) C := by
    refine triple_runWithPolicy fun i => ?_
    refine triple_check_bind (fun _ hs => hs) fun _ => ?_
    exact triple_pure content fun _ hs => ⟨hs,rfl⟩
  refine spec_conseq hcall (fun _ hs => hs) (fun _ _ hs => hs) ?_ fun _ hs => hs
  intro e d hd
  exact ⟨⟨e,rfl⟩,hd⟩

/-- A start gets one of the states or cannot read the file; one whose look fails gets the default
state. -/
def LoadsOne (P : S → Prop) (default : S) (env : StateLoadEnv) (result : Except LoadError S) : Prop :=
  (∃ s, P s ∧ result = .ok s) ∨ (∃ e, result = .error (.read e)) ∨
    (env.seen = false ∧ result = .ok default)

/-- A start gets one of the states that may be in the file, and changes nothing. -/
theorem spec_loadOrDefault {default : S} {P : S → Prop} {d : Slot Char}
    {later : Option (List Char) → Prop} (hd : Holds (Among text default P) later d)
    (env : StateLoadEnv) : Spec (fun t => t = d) (loadOrDefault text default env)
      (fun s t => (P s ∨ env.seen = false ∧ s = default) ∧ t = d)
      (fun e t => (∃ e', e = .read e') ∧ t = d) fun t => t = d := by
  refine spec_read_bind ?_
  rintro _ rfl
  obtain ⟨c,⟨s,hs,hc⟩,hseen⟩ := hd.now
  rw [hseen]
  cases c with
  | none =>
      obtain rfl : default = s := Option.some.inj hc
      exact spec_pure default fun _ h => ⟨.inl hs,h.1⟩
  | some raw =>
      have hparse : text.parse raw = some s := hc
      cases hlook : env.seen with
      | false => exact spec_pure default fun _ h => ⟨.inr ⟨rfl,rfl⟩,h.1⟩
      | true =>
          refine spec_pre (spec_bind (spec_readFile raw env) fun raw' => spec_fact ?_) fun _ h => h.1
          rintro rfl
          rw [hparse]
          refine spec_lift ?_ ?_
          · intro a ha t ht
            cases ha
            exact ⟨.inl hs,ht⟩
          · intro e he
            cases he

theorem loadsOne {default : S} {P : S → Prop} {d : Slot Char} {later : Option (List Char) → Prop}
    (hd : Holds (Among text default P) later d) (env : StateLoadEnv) :
    (loadOrDefault text default env d).store = d ∧
      LoadsOne P default env (loadOrDefault text default env d).result := by
  obtain ⟨-,hok,herr⟩ := spec_loadOrDefault hd env d rfl
  cases hr : (loadOrDefault text default env d).result with
  | ok s =>
      obtain ⟨hs | ⟨hlook,rfl⟩,hstore⟩ := hok s hr
      · exact ⟨hstore,.inl ⟨s,hs,rfl⟩⟩
      · exact ⟨hstore,.inr (.inr ⟨hlook,rfl⟩)⟩
  | error e =>
      obtain ⟨⟨e',rfl⟩,hstore⟩ := herr e hr
      exact ⟨hstore,.inr (.inl ⟨e',rfl⟩)⟩

/-! ## The life of a state file -/

/-- A state file after any calls, with the states that may be found in it: that of the last call
that returned and those of the calls since, or none where no call has returned. A call may fail, and
the process or the machine may stop during one or between two. -/
inductive Reached (text : StateText S) (default : S) : Slot Char → List S → Prop
  | fresh : Reached text default (.settled none) [default]
  | persisted {d : Slot Char} {states : List S} (env : PersistEnv) (state : S) :
      Reached text default d states → (persist text env state d).result = .ok () →
      Reached text default (persist text env state d).store [state]
  | failed {d : Slot Char} {states : List S} (env : PersistEnv) (state : S) {e : PersistError} :
      Reached text default d states → (persist text env state d).result = .error e →
      Reached text default (persist text env state d).store (state::states)
  | killed {d d' : Slot Char} {states : List S} (env : PersistEnv) (state : S) :
      Reached text default d states → d' ∈ (persist text env state d).states →
      Reached text default d' (state::states)
  | cut {d d' : Slot Char} {states : List S} :
      Reached text default d states → Cut d d' → Reached text default d' states

section Life
variable {text : StateText S} {default : S} {d : Slot Char} {states : List S}

/-- One of the states, in the file or in what may become of it. -/
def Recent (text : StateText S) (default : S) (states : List S) : Slot Char → Prop :=
  Holds (Among text default (· ∈ states)) (Among text default (· ∈ states))

theorem Recent.mono {states' : List S} (h : Recent text default states d)
    (hsub : states ⊆ states') : Recent text default states' d :=
  Holds.mono h (fun _ hc => hc.mono fun _ hs => hsub hs) fun _ hc => hc.mono fun _ hs => hsub hs

theorem triple_persist_recent (text : StateText S) (default : S) (states : List S)
    (env : PersistEnv) (state : S) :
    Triple (Recent text default states) (persist text env state)
      (fun _ => Recent text default [state]) (Recent text default (state::states)) := by
  have hnew : Among text default (· ∈ state::states) (some (text.render state)) :=
    among_render List.mem_cons_self
  refine spec_conseq (triple_persist text env hnew hnew) ?_ ?_ (fun _ _ h => h) fun _ h => h
  · intro d hd
    exact Recent.mono hd (List.subset_cons_self _ _)
  · intro _ d hd
    exact hd.holds (among_render List.mem_cons_self) (among_render List.mem_cons_self)

theorem Reached.recent (h : Reached text default d states) : Recent text default states d := by
  induction h with
  | fresh =>
      have hfirst : Among text default (· ∈ [default]) none :=
        ⟨default,List.mem_singleton_self _,rfl⟩
      exact holds_of_survivors rfl rfl hfirst hfirst
  | persisted env state _ hok ih => exact (triple_persist_recent text default _ env state _ ih).2.1 () hok
  | failed env state _ herr ih => exact (triple_persist_recent text default _ env state _ ih).2.2 _ herr
  | killed env state _ hmem ih =>
      refine Triple.states (triple_persist_recent text default _ env state) ?_ ih hmem
      intro _ d hd
      exact Recent.mono hd (List.cons_subset_cons _ (List.nil_subset _))
  | cut _ hcut ih => exact ih.cut hcut

/-- However the calls, failures, stops and power cuts followed each other, the next start does not
find a torn file: it gets the state of the last call that returned or of one since, or it cannot
read the file, or does not see it; and it leaves the file alone. -/
theorem restart_loads_recent (h : Reached text default d states) (env : StateLoadEnv) :
    (loadOrDefault text default env d).store = d ∧
      LoadsOne (· ∈ states) default env (loadOrDefault text default env d).result :=
  loadsOne h.recent env

end Life

/-- A text form for any states that can be numbered. -/
def tally (S : Type) [Encodable S] : StateText S where
  render s := List.replicate (Encodable.encode s) 'x'
  parse c := Encodable.decode c.length
  parse_render s := by simp

/-- The first attempt to replace the file fails after the renaming, the second while it writes. -/
def troubledPersist : PersistEnv where
  clock := exactClock none
  directoryStart := 0
  createDirectory n := n ≠ 0
  directoryTook _ := second
  replaceStart := 3*second
  replacement n := ⟨if n = 0 then some .syncParent else if n = 1 then some .write else none,1⟩
  replaceTook _ := second

def smoothPersist : PersistEnv :=
  ⟨exactClock none,0,fun _ => true,fun _ => 1,5,fun _ => ⟨none,0⟩,fun _ => 1⟩

def smoothLoad : StateLoadEnv := ⟨exactClock none,0,true,fun _ => true,fun _ => 1⟩

/-- The second call was cut after the renaming, before the directory was synced. -/
theorem restart_loads_recent_cut : ∃ d, Reached (tally Bool) false d [false,true] ∧
    d.seen = some ⟨['x'],true⟩ ∧ (loadOrDefault (tally Bool) false smoothLoad d).store = d ∧
    LoadsOne (· ∈ [false,true]) false smoothLoad
      (loadOrDefault (tally Bool) false smoothLoad d).result := by
  have hfirst : Reached (tally Bool) false _ [true] :=
    .persisted smoothPersist true .fresh (by decide +kernel)
  have hkilled : Reached (tally Bool) false
      ⟨some ⟨[],true⟩,[some ⟨[],true⟩,some ⟨['x'],true⟩],none⟩ [false,true] :=
    .killed smoothPersist false hfirst (by decide +kernel)
  have hcut : Reached (tally Bool) false (.settled (some ⟨['x'],true⟩)) [false,true] :=
    .cut hkilled (.cut (List.mem_cons_of_mem _ List.mem_cons_self) (.synced ['x']))
  exact ⟨_,hcut,rfl,restart_loads_recent hcut smoothLoad⟩

/-- Failures of the file system that pass do not cost a state: one good attempt among the first
five of each call is enough for the state to be written, and from then on every start that sees the
file and can read it gets it, whatever power cuts come between. -/
theorem persist_survives {text : StateText S} {default : S} {d d' : Slot Char} {states : List S}
    (h : Reached text default d states) (env : PersistEnv) {state : S} {i j longest slack : Nat}
    (hcalm : ∀ t, env.clock.cancelled t = false)
    (hslept : ∀ now asked, env.clock.slept now asked ≤ asked+slack)
    (htook : ∀ n, env.directoryTook n ≤ longest ∧ env.replaceTook n ≤ longest)
    (htime : longest+slack ≤ 74*second) (hi : i ≤ 4) (hdirectory : env.createDirectory i = true)
    (hj : j ≤ 4) (hreplace : (env.replacement j).failing = none)
    (hcuts : Relation.ReflTransGen Cut (persist text env state d).store d') (load : StateLoadEnv) :
    (persist text env state d).result = .ok () ∧
      LoadsOne (· = state) default load (loadOrDefault text default load d').result := by
  have hnew : Among text default (· ∈ state::states) (some (text.render state)) :=
    among_render List.mem_cons_self
  have hold := h.recent.mono (List.subset_cons_self state states)
  obtain ⟨u,_,⟨hok,-⟩,-⟩ := runs_persist text env hcalm hslept htook htime hi hdirectory hj hreplace
    hnew hnew d hold
  have hafter : Reached text default d' [state] := by
    induction hcuts with
    | refl => exact .persisted env state h hok
    | tail _ hcut ih => exact .cut ih hcut
  refine ⟨hok,?_⟩
  rcases (loadsOne hafter.recent load).2 with ⟨s,hs,hr⟩ | herr
  · exact .inl ⟨s,List.mem_singleton.mp hs,hr⟩
  · exact .inr herr

/-- The first two attempts to replace the file fail, one of them after the renaming. -/
theorem persist_survives_troubled :
    (persist (tally Bool) troubledPersist true (.settled none)).result = .ok () ∧
      LoadsOne (· = true) false smoothLoad (loadOrDefault (tally Bool) false smoothLoad
        (persist (tally Bool) troubledPersist true (.settled none)).store).result :=
  @persist_survives _ (tally Bool) false _ _ [false] .fresh troubledPersist true 1 2 second 0
    (fun _ => rfl) (fun _ _ => le_rfl) (fun _ => ⟨le_rfl,le_rfl⟩) (by decide) (by decide) rfl
    (by decide) rfl .refl smoothLoad

end StateFile
end BackupSync
