import BackupSync.Checks

/-!
# The socket of the daemon

A daemon that starts looks at the path of its socket. A socket of its own user that
refuses a connection is left over from a daemon that has died: it is looked at
again, removed if device, inode and owner are still the same, and the new socket is
bound in its place. At the end the daemon closes its listener and removes the socket
in the same way. Everything else at the path is left alone and the start fails.

Any number of daemons start, end and die in any order. A step is one access to the
path. Between the second look of a daemon and its removal others may act, and the
file system may give the inode of a removed socket to a new one; where neither
happens at a bind, a daemon that has bound its socket keeps it.
-/
namespace BackupSync
open Checks

namespace IpcEndpoint

structure EndpointIdentity where
  device : Nat
  inode : Nat
  owner : Nat
  deriving DecidableEq, Repr

/-- What symlink_metadata tells about a path. -/
structure Metadata where
  isSocket : Bool
  device : Nat
  inode : Nat
  uid : Nat
  deriving DecidableEq, Repr

inductive EndpointError where
  | directory
  | inspect
  | notASocket
  | foreignOwner (owner expected : Nat)
  | changed
  | remove
  | alreadyRunning
  | conflict
  | probeTimedOut
  | bind
  | secure
  | disappeared
  | killed
  deriving DecidableEq, Repr

def Metadata.identity (m : Metadata) : EndpointIdentity := ⟨m.device,m.inode,m.uid⟩

/-- The identity of the socket at the path. Nothing there is no error; something else is. -/
def endpointIdentity (effectiveUserId : Nat) (found : Option Metadata) :
    Except EndpointError (Option EndpointIdentity) :=
  match found with
  | none => .ok none
  | some m => do
      require m.isSocket .notASocket
      require (m.uid = effectiveUserId) (.foreignOwner m.uid effectiveUserId)
      return some m.identity

/-- Where a daemon is between its start and its end. -/
inductive Phase where
  | idle
  | inspecting
  /-- A connection to the socket that was found is attempted. -/
  | probing (stale : EndpointIdentity)
  /-- The socket refused and is looked at again. -/
  | checking (stale : EndpointIdentity)
  | removing (stale : EndpointIdentity)
  | binding
  | securing
  | identifying
  | serving (identity : EndpointIdentity)
  /-- The listener is closed and the socket is looked at again. -/
  | cleaning (identity : EndpointIdentity)
  | clearing (identity : EndpointIdentity)
  | ended (error : Option EndpointError)
  deriving DecidableEq, Repr

namespace Phase

/-- The daemon has a listener. -/
def bound : Phase → Bool
  | securing => true
  | identifying => true
  | serving _ => true
  | _ => false

/-- The identity that a second look compares with. -/
def rechecks : Phase → Option EndpointIdentity
  | checking stale => some stale
  | cleaning identity => some identity
  | _ => none

/-- The daemon has not got past its first look, or has ended. -/
def outside : Phase → Bool
  | idle => true
  | inspecting => true
  | ended _ => true
  | _ => false

/-- The next step removes what is at the path. -/
def removes : Phase → Bool
  | removing _ => true
  | clearing _ => true
  | _ => false

end Phase

/-- The phase after the first look. -/
def afterInspection : Except EndpointError (Option EndpointIdentity) → Phase
  | .ok none => .binding
  | .ok (some stale) => .probing stale
  | .error e => .ended (some e)

/-- The phase after the second look of remove_endpoint_if_unchanged. -/
def afterCheck (expected : EndpointIdentity) (go absent : Phase) :
    Except EndpointError (Option EndpointIdentity) → Phase
  | .ok none => absent
  | .ok (some actual) => if actual = expected then go else .ended (some .changed)
  | .error e => .ended (some e)

/-- The phase after the look at the socket just bound. -/
def afterBind : Except EndpointError (Option EndpointIdentity) → Phase
  | .ok none => .ended (some .disappeared)
  | .ok (some identity) => .serving identity
  | .error e => .ended (some e)

/-- What is at the path, with the daemon that listens there. -/
structure Entry (P : Type) where
  metadata : Metadata
  listener : Option P

/-- The path of the socket and the daemons. -/
structure Endpoint (P : Type) where
  entry : Option (Entry P)
  phase : P → Phase

namespace Endpoint

variable {P : Type} [DecidableEq P]

def move (p : P) (ph : Phase) (s : Endpoint P) : Endpoint P :=
  {s with phase := Function.update s.phase p ph}

def look (effectiveUserId : Nat) (s : Endpoint P) :
    Except EndpointError (Option EndpointIdentity) :=
  endpointIdentity effectiveUserId (s.entry.map (·.metadata))

/-- A listener that is closed leaves its socket at the path. -/
def close (p : P) (e : Entry P) : Entry P :=
  if e.listener = some p then {e with listener := none} else e

def drop (p : P) (s : Endpoint P) : Endpoint P := {s with entry := s.entry.map (close p)}

/-- A daemon that does not get to serve loses its listener. -/
def settle (p : P) (ph : Phase) (s : Endpoint P) : Endpoint P :=
  if ph.bound then s.move p ph else (s.drop p).move p ph

end Endpoint

open Endpoint Phase

section Steps
variable {P : Type} [DecidableEq P] (allows : Endpoint P → P → EndpointIdentity → Prop)
  (effectiveUserId : Nat)

/-- One access to the path by one daemon. A bind is possible where the first argument allows it. -/
inductive Step : Endpoint P → Endpoint P → Prop
  | start {s : Endpoint P} {p : P} (hp : s.phase p = .idle) : Step s (s.move p .inspecting)
  | inspect {s : Endpoint P} {p : P} (hp : s.phase p = .inspecting) :
      Step s (s.move p (afterInspection (s.look effectiveUserId)))
  | connected {s : Endpoint P} {p q : P} {e : Entry P} {stale : EndpointIdentity}
      (hp : s.phase p = .probing stale) (he : s.entry = some e) (hq : e.listener = some q) :
      Step s (s.move p (.ended (some .alreadyRunning)))
  | refused {s : Endpoint P} {p : P} {e : Entry P} {stale : EndpointIdentity}
      (hp : s.phase p = .probing stale) (he : s.entry = some e) (hq : e.listener = none) :
      Step s (s.move p (.checking stale))
  | notFound {s : Endpoint P} {p : P} {stale : EndpointIdentity}
      (hp : s.phase p = .probing stale) (he : s.entry = none) : Step s (s.move p .binding)
  | check {s : Endpoint P} {p : P} {stale : EndpointIdentity} (hp : s.phase p = .checking stale) :
      Step s (s.move p (afterCheck stale (.removing stale) .binding (s.look effectiveUserId)))
  | remove {s : Endpoint P} {p : P} {stale : EndpointIdentity} (hp : s.phase p = .removing stale)
      (he : s.entry.isSome) : Step s (Endpoint.move p .binding {s with entry := none})
  | bind {s : Endpoint P} {p : P} {device inode : Nat} (hp : s.phase p = .binding)
      (he : s.entry = none) (hallows : allows s p ⟨device,inode,effectiveUserId⟩) :
      Step s (Endpoint.move p .securing
        {s with entry := some ⟨⟨true,device,inode,effectiveUserId⟩,some p⟩})
  | secure {s : Endpoint P} {p : P} (hp : s.phase p = .securing) : Step s (s.move p .identifying)
  | identify {s : Endpoint P} {p : P} (hp : s.phase p = .identifying) :
      Step s (s.settle p (afterBind (s.look effectiveUserId)))
  | stop {s : Endpoint P} {p : P} {identity : EndpointIdentity} (hp : s.phase p = .serving identity) :
      Step s ((s.drop p).move p (.cleaning identity))
  | clean {s : Endpoint P} {p : P} {identity : EndpointIdentity}
      (hp : s.phase p = .cleaning identity) : Step s
      (s.move p (afterCheck identity (.clearing identity) (.ended none) (s.look effectiveUserId)))
  | clear {s : Endpoint P} {p : P} {identity : EndpointIdentity}
      (hp : s.phase p = .clearing identity) (he : s.entry.isSome) :
      Step s (Endpoint.move p (.ended none) {s with entry := none})
  /-- Each access can fail, and the process can end at any time. -/
  | fail {s : Endpoint P} {p : P} {error : EndpointError} (hp : ∀ o, s.phase p ≠ .ended o) :
      Step s ((s.drop p).move p (.ended (some error)))

/-- Nobody has moved yet and nobody listens; the path may hold anything. -/
def Started (s : Endpoint P) : Prop :=
  (∀ p, s.phase p = .idle) ∧ ∀ e, s.entry = some e → e.listener = none

def Reached (s : Endpoint P) : Prop :=
  ∃ s₀, Started s₀ ∧ Relation.ReflTransGen (Step allows effectiveUserId) s₀ s

/-- At a bind nobody is between a second look and the removal, and nobody still compares with the
identity that the new socket gets. -/
def Undisturbed (s : Endpoint P) (_ : P) (identity : EndpointIdentity) : Prop :=
  ∀ q, (s.phase q).removes = false ∧ (s.phase q).rechecks ≠ some identity

end Steps

section Safety
variable {P : Type} [DecidableEq P] {uid : Nat} {s t : Endpoint P} {p q : P} {ph : Phase}

@[simp] theorem phase_move_self (p : P) (ph : Phase) (s : Endpoint P) :
    (s.move p ph).phase p = ph := by
  simp [Endpoint.move]

theorem phase_move_of_ne (h : q ≠ p) (ph : Phase) (s : Endpoint P) :
    (s.move p ph).phase q = s.phase q := by
  simp [Endpoint.move,h]

@[simp] theorem entry_move (ph : Phase) (s : Endpoint P) : (s.move p ph).entry = s.entry := rfl

theorem listener_close {e : Entry P} (h : (close p e).listener = some q) :
    e.listener = some q ∧ q ≠ p := by
  unfold close at h
  split at h
  · cases h
  · rename_i hne
    exact ⟨h,fun hq => hne (hq ▸ h)⟩

@[simp] theorem metadata_close (e : Entry P) : (close p e).metadata = e.metadata := by
  unfold close
  split
  · rfl
  · rfl

omit [DecidableEq P] in
theorem look_eq_some {identity : EndpointIdentity} : s.look uid = .ok (some identity) ↔
    ∃ e, s.entry = some e ∧ e.metadata.isSocket = true ∧ e.metadata.uid = uid ∧
      e.metadata.identity = identity := by
  unfold Endpoint.look endpointIdentity
  cases s.entry with
  | none => simp
  | some e =>
      constructor
      · intro h
        obtain ⟨_,hsocket,h⟩ := bind_eq_ok.mp h
        obtain ⟨_,howner,h⟩ := bind_eq_ok.mp h
        cases h
        exact ⟨e,rfl,require_eq_ok.mp hsocket,of_decide_eq_true (require_eq_ok.mp howner),rfl⟩
      · rintro ⟨_,⟨⟩,hsocket,howner,rfl⟩
        refine bind_eq_ok.mpr ⟨(),require_eq_ok.mpr hsocket,?_⟩
        exact bind_eq_ok.mpr ⟨(),require_eq_ok.mpr (decide_eq_true howner),rfl⟩

/-- What the path has to hold for a daemon in a phase. -/
structure EntryFits (uid : Nat) (entry : Option (Entry P)) (p : P) (ph : Phase) : Prop where
  bound : ph.bound = true →
    ∃ m : Metadata, entry = some ⟨m,some p⟩ ∧ m.isSocket = true ∧ m.uid = uid
  listening : ∀ e, entry = some e → e.listener = some p → ph.bound = true
  rechecked : ∀ identity e, ph.rechecks = some identity → entry = some e →
    e.metadata.identity = identity → e.listener = none
  removed : ∀ e, ph.removes = true → entry = some e → e.listener = none

def AllFit (uid : Nat) (s : Endpoint P) : Prop := ∀ p, EntryFits uid s.entry p (s.phase p)

variable {entry : Option (Entry P)}

omit [DecidableEq P] in
/-- Where nobody listens, every phase without a listener is fine. -/
theorem entryFits_of_dead (hdead : ∀ e, entry = some e → e.listener = none)
    (hbound : ph.bound = false) : EntryFits uid entry p ph := by
  constructor
  · intro hb
    rw [hbound] at hb
    cases hb
  · intro e he hl
    rw [hdead e he] at hl
    cases hl
  · intro identity e _ he _
    exact hdead e he
  · intro e _ he
    exact hdead e he

omit [DecidableEq P] in
theorem allFit_of_started (h : Started s) : AllFit uid s := by
  intro p
  exact entryFits_of_dead h.2 (by rw [h.1 p]; rfl)

omit [DecidableEq P] in
theorem AllFit.unbound (h : AllFit uid s) (hdead : ∀ e, s.entry = some e → e.listener = none) (p : P) :
    (s.phase p).bound = false := by
  by_contra hb
  obtain ⟨m,hm,-⟩ := (h p).bound (by simpa using hb)
  cases hdead _ hm

/-- A phase in which a daemon neither listens nor is about to remove anything. -/
def Detached (ph : Phase) : Prop := ph.bound = false ∧ ph.rechecks = none ∧ ph.removes = false

omit [DecidableEq P] in
theorem entryFits_of_detached (h : Detached ph) (hl : ∀ e, entry = some e → e.listener ≠ some p) :
    EntryFits uid entry p ph := by
  obtain ⟨hbound,hrechecks,hremoves⟩ := h
  constructor
  · intro hb
    rw [hbound] at hb
    cases hb
  · intro e he hlistener
    exact absurd hlistener (hl e he)
  · intro identity e hr
    rw [hrechecks] at hr
    cases hr
  · intro e hr
    rw [hremoves] at hr
    cases hr

omit [DecidableEq P] in
/-- A daemon that listens at the path needs nothing else. -/
theorem entryFits_of_listening {m : Metadata} (hsocket : m.isSocket = true) (howner : m.uid = uid)
    (hbound : ph.bound = true) (hrechecks : ph.rechecks = none) (hremoves : ph.removes = false) :
    EntryFits uid (some ⟨m,some p⟩) p ph := by
  constructor
  · intro _
    exact ⟨m,rfl,hsocket,howner⟩
  · intro _ _ _
    exact hbound
  · intro identity e hr
    rw [hrechecks] at hr
    cases hr
  · intro e hr
    rw [hremoves] at hr
    cases hr

/-- One daemon moves and the path may change: the others have to agree with it. -/
theorem allFit_update (hp : EntryFits uid entry p ph)
    (hothers : ∀ q, q ≠ p → EntryFits uid entry q (s.phase q)) :
    AllFit uid (Endpoint.move p ph {s with entry := entry}) := by
  intro q
  by_cases hq : q = p
  · subst hq
    rw [phase_move_self]
    exact hp
  · rw [phase_move_of_ne hq]
    exact hothers q hq

theorem AllFit.move (h : AllFit uid s) (hp : EntryFits uid s.entry p ph) : AllFit uid (s.move p ph) :=
  allFit_update hp fun q _ => h q

omit [DecidableEq P] in
theorem AllFit.not_listening (h : AllFit uid s) (hp : (s.phase p).bound = false) (e : Entry P)
    (he : s.entry = some e) : e.listener ≠ some p := by
  intro hl
  have hb := (h p).listening e he hl
  rw [hp] at hb
  cases hb

theorem AllFit.move_detached (h : AllFit uid s) (hp : (s.phase p).bound = false) (hph : Detached ph) :
    AllFit uid (s.move p ph) :=
  h.move (entryFits_of_detached hph (h.not_listening hp))

theorem plain_afterInspection (found : Except EndpointError (Option EndpointIdentity)) :
    Detached (afterInspection found) := by
  rcases found with e | _ | stale
  · exact ⟨rfl,rfl,rfl⟩
  · exact ⟨rfl,rfl,rfl⟩
  · exact ⟨rfl,rfl,rfl⟩

/-- The second look leads to a removal only if the socket is the one that was found dead. -/
theorem AllFit.check (h : AllFit uid s) {expected : EndpointIdentity} {go absent : Phase}
    (hp : (s.phase p).bound = false) (hre : (s.phase p).rechecks = some expected)
    (hgo : go.bound = false) (habsent : Detached absent) :
    AllFit uid (s.move p (afterCheck expected go absent (s.look uid))) := by
  have hended (e : EndpointError) : Detached (.ended (some e)) := ⟨rfl,rfl,rfl⟩
  rcases hlook : s.look uid with e | _ | actual
  · exact h.move_detached hp (hended e)
  · exact h.move_detached hp habsent
  · unfold afterCheck
    dsimp only
    split
    · rename_i heq
      subst heq
      obtain ⟨e,he,-,-,hidentity⟩ := look_eq_some.mp hlook
      have hdead := (h p).rechecked actual e hre he hidentity
      refine h.move (entryFits_of_dead ?_ hgo)
      intro e' he'
      rw [he] at he'
      cases he'
      exact hdead
    · exact h.move_detached hp (hended _)

/-- What is removed is a socket that nobody listens on. -/
theorem AllFit.erase (h : AllFit uid s) (hp : (s.phase p).removes = true) (hph : ph.bound = false) :
    AllFit uid (Endpoint.move p ph {s with entry := none}) := by
  have hdead : ∀ e, s.entry = some e → e.listener = none := fun e he => (h p).removed e hp he
  refine allFit_update (entryFits_of_dead (by simp) hph) ?_
  intro q _
  exact entryFits_of_dead (by simp) (h.unbound hdead q)

theorem AllFit.bind (h : AllFit uid s) {device inode : Nat} (he : s.entry = none)
    (hallows : Undisturbed s p ⟨device,inode,uid⟩) :
    AllFit uid (Endpoint.move p .securing
      {s with entry := some ⟨⟨true,device,inode,uid⟩,some p⟩}) := by
  refine allFit_update (entryFits_of_listening rfl rfl rfl rfl rfl) ?_
  intro q hq
  obtain ⟨hremoves,hrechecks⟩ := hallows q
  constructor
  · intro hb
    rw [h.unbound (by simp [he]) q] at hb
    cases hb
  · intro e hnew hl
    cases hnew
    cases hl
    exact absurd rfl hq
  · intro identity e hr hnew hidentity
    cases hnew
    rw [← hidentity] at hr
    exact absurd hr hrechecks
  · intro e hr
    rw [hremoves] at hr
    cases hr

theorem entryFits_close (h : EntryFits uid entry q ph) (hq : q ≠ p) :
    EntryFits uid (entry.map (close p)) q ph := by
  have hclosed : ∀ e, entry.map (close p) = some e →
      ∃ e₀, entry = some e₀ ∧ close p e₀ = e := fun e he => Option.map_eq_some_iff.mp he
  have hdead : ∀ e₀ : Entry P, e₀.listener = none → (close p e₀).listener = none := by
    intro e₀ hl
    unfold close
    rw [if_neg (by rw [hl]; simp)]
    exact hl
  constructor
  · intro hb
    obtain ⟨m,rfl,hsocket,howner⟩ := h.bound hb
    refine ⟨m,?_,hsocket,howner⟩
    simp [close,hq]
  · intro e he hl
    obtain ⟨e₀,he₀,rfl⟩ := hclosed e he
    exact h.listening e₀ he₀ (listener_close hl).1
  · intro identity e hr he hidentity
    obtain ⟨e₀,he₀,rfl⟩ := hclosed e he
    rw [metadata_close] at hidentity
    exact hdead e₀ (h.rechecked identity e₀ hr he₀ hidentity)
  · intro e hr he
    obtain ⟨e₀,he₀,rfl⟩ := hclosed e he
    exact hdead e₀ (h.removed e₀ hr he₀)

/-- A daemon closes its listener. -/
theorem AllFit.drop (h : AllFit uid s) (hp : EntryFits uid (s.entry.map (close p)) p ph) :
    AllFit uid ((s.drop p).move p ph) :=
  allFit_update hp fun q hq => entryFits_close (h q) hq

theorem not_listening_close (e : Entry P) (he : entry.map (close p) = some e) :
    e.listener ≠ some p := by
  obtain ⟨e₀,-,rfl⟩ := Option.map_eq_some_iff.mp he
  exact fun hl => (listener_close hl).2 rfl

/-- Every step of every daemon keeps the sockets of the others. -/
theorem Step.allFit (hstep : Step Undisturbed uid s t) (h : AllFit uid s) : AllFit uid t := by
  cases hstep with
  | start hp => exact h.move_detached (by rw [hp]; rfl) ⟨rfl,rfl,rfl⟩
  | inspect hp => exact h.move_detached (by rw [hp]; rfl) (plain_afterInspection _)
  | connected hp he hq => exact h.move_detached (by rw [hp]; rfl) ⟨rfl,rfl,rfl⟩
  | refused hp he hq =>
      refine h.move (entryFits_of_dead ?_ rfl)
      intro e' he'
      rw [he] at he'
      cases he'
      exact hq
  | notFound hp he => exact h.move_detached (by rw [hp]; rfl) ⟨rfl,rfl,rfl⟩
  | check hp => exact h.check (by rw [hp]; rfl) (by rw [hp]; rfl) rfl ⟨rfl,rfl,rfl⟩
  | remove hp he => exact h.erase (by rw [hp]; rfl) rfl
  | bind hp he hallows => exact h.bind he hallows
  | @secure p hp =>
      obtain ⟨m,he,hsocket,howner⟩ := (h p).bound (by rw [hp]; rfl)
      apply h.move
      rw [he]
      exact entryFits_of_listening hsocket howner rfl rfl rfl
  | @identify p hp =>
      obtain ⟨m,he,hsocket,howner⟩ := (h p).bound (by rw [hp]; rfl)
      have hlook : s.look uid = .ok (some m.identity) :=
        look_eq_some.mpr ⟨_,he,hsocket,howner,rfl⟩
      rw [hlook]
      apply h.move
      rw [he]
      exact entryFits_of_listening hsocket howner rfl rfl rfl
  | @stop p identity hp =>
      obtain ⟨m,he,-⟩ := (h p).bound (by rw [hp]; rfl)
      refine h.drop (entryFits_of_dead ?_ rfl)
      intro e hclosed
      rw [he] at hclosed
      cases hclosed
      simp [close]
  | clean hp => exact h.check (by rw [hp]; rfl) (by rw [hp]; rfl) rfl ⟨rfl,rfl,rfl⟩
  | clear hp he => exact h.erase (by rw [hp]; rfl) rfl
  | fail hp => exact h.drop (entryFits_of_detached ⟨rfl,rfl,rfl⟩ not_listening_close)

theorem Reached.allFit (hs : Reached Undisturbed uid s) : AllFit uid s := by
  obtain ⟨s₀,hstarted,hrun⟩ := hs
  induction hrun with
  | refl => exact allFit_of_started hstarted
  | tail _ hstep ih => exact hstep.allFit ih

end Safety

section Runs
variable {P : Type} [DecidableEq P] {allows : Endpoint P → P → EndpointIdentity → Prop} {uid : Nat}
  {s₀ s t : Endpoint P} {p q : P} {e : Entry P}

@[simp] theorem move_move (a b : Phase) (s : Endpoint P) : (s.move p a).move p b = s.move p b := by
  simp [Endpoint.move]

@[simp] theorem move_entry_move (a b : Phase) (entry : Option (Entry P)) (s : Endpoint P) :
    Endpoint.move p b {s.move p a with entry := entry} =
      Endpoint.move p b {s with entry := entry} :=
  move_move a b {s with entry := entry}

/-- What is at the path is a socket of the user. -/
def Own (uid : Nat) (s : Endpoint P) : Prop :=
  ∀ e, s.entry = some e → e.metadata.isSocket = true ∧ e.metadata.uid = uid

theorem own_drop (h : Own uid s) : Own uid (s.drop p) := by
  intro e he
  obtain ⟨e₀,he₀,rfl⟩ := Option.map_eq_some_iff.mp he
  rw [metadata_close]
  exact h e₀ he₀

theorem Step.own (hstep : Step allows uid s t) (h : Own uid s) : Own uid t := by
  cases hstep with
  | start hp => exact h
  | inspect hp => exact h
  | connected hp he hq => exact h
  | refused hp he hq => exact h
  | notFound hp he => exact h
  | check hp => exact h
  | remove hp he => simp [Own]
  | bind hp he hallows =>
      intro e he
      cases he
      exact ⟨rfl,rfl⟩
  | secure hp => exact h
  | identify hp =>
      unfold Endpoint.settle
      split
      · exact h
      · exact own_drop h
  | stop hp => exact own_drop h
  | clean hp => exact h
  | clear hp he => simp [Own]
  | fail hp => exact own_drop h

theorem run_own (h : Own uid s₀) (hrun : Relation.ReflTransGen (Step allows uid) s₀ s) :
    Own uid s := by
  induction hrun with
  | refl => exact h
  | tail _ hstep ih => exact hstep.own ih

/-- A daemon that finds a dead socket of its user comes to the removal. -/
theorem reaches_removing (hp : s.phase p = .idle) (he : s.entry = some e)
    (hown : e.metadata.isSocket = true ∧ e.metadata.uid = uid) (hdead : e.listener = none) :
    Relation.ReflTransGen (Step allows uid) s (s.move p (.removing e.metadata.identity)) := by
  have hlook (ph : Phase) : (s.move p ph).look uid = .ok (some e.metadata.identity) :=
    look_eq_some.mpr ⟨e,he,hown.1,hown.2,rfl⟩
  have hinspect : Step allows uid (s.move p .inspecting)
      (s.move p (.probing e.metadata.identity)) := by
    have h := @Step.inspect P _ allows uid _ p (phase_move_self p .inspecting s)
    rwa [hlook,move_move] at h
  have hrefused : Step allows uid (s.move p (.probing e.metadata.identity))
      (s.move p (.checking e.metadata.identity)) := by
    have h := @Step.refused P _ allows uid _ p _ _
      (phase_move_self p (.probing e.metadata.identity) s) he hdead
    rwa [move_move] at h
  have hcheck : Step allows uid (s.move p (.checking e.metadata.identity))
      (s.move p (.removing e.metadata.identity)) := by
    have h := @Step.check P _ allows uid _ p _
      (phase_move_self p (.checking e.metadata.identity) s)
    rwa [hlook,move_move,afterCheck,if_pos rfl] at h
  exact (((Relation.ReflTransGen.single (.start hp)).tail hinspect).tail hrefused).tail hcheck

/-- A daemon that finds the path free comes to serve, with the numbers the bind gives it. -/
theorem reaches_serving {device inode : Nat} (hp : s.phase p = .binding) (he : s.entry = none)
    (hallows : allows s p ⟨device,inode,uid⟩) :
    Relation.ReflTransGen (Step allows uid) s (Endpoint.move p (.serving ⟨device,inode,uid⟩)
      {s with entry := some ⟨⟨true,device,inode,uid⟩,some p⟩}) := by
  let bound : Endpoint P := {s with entry := some ⟨⟨true,device,inode,uid⟩,some p⟩}
  have hlook : (bound.move p .identifying).look uid = .ok (some ⟨device,inode,uid⟩) :=
    look_eq_some.mpr ⟨_,rfl,rfl,rfl,rfl⟩
  have hsecure : Step allows uid (bound.move p .securing) (bound.move p .identifying) := by
    have h := @Step.secure P _ allows uid _ p (phase_move_self p .securing bound)
    rwa [move_move] at h
  have hidentify : Step allows uid (bound.move p .identifying)
      (bound.move p (.serving ⟨device,inode,uid⟩)) := by
    have h := @Step.identify P _ allows uid _ p (phase_move_self p .identifying bound)
    rw [hlook] at h
    have hserving : (bound.move p .identifying).settle p (.serving ⟨device,inode,uid⟩) =
        bound.move p (.serving ⟨device,inode,uid⟩) := move_move _ _ bound
    rwa [afterBind,hserving] at h
  exact ((Relation.ReflTransGen.single (.bind hp he hallows)).tail hsecure).tail hidentify

/-- A dead socket of the user is replaced. -/
theorem replaces_dead {device inode : Nat} (hp : s.phase p = .removing e.metadata.identity)
    (he : s.entry.isSome)
    (hallows : allows (Endpoint.move p .binding {s with entry := none}) p ⟨device,inode,uid⟩) :
    Relation.ReflTransGen (Step allows uid) s (Endpoint.move p (.serving ⟨device,inode,uid⟩)
      {s with entry := some ⟨⟨true,device,inode,uid⟩,some p⟩}) := by
  have hremove : Step allows uid s (Endpoint.move p .binding {s with entry := none}) :=
    .remove hp he
  have hserve := reaches_serving (phase_move_self p .binding {s with entry := none}) rfl hallows
  rw [move_entry_move] at hserve
  exact hserve.head hremove

/-- A path with nothing at it is bound at once. -/
theorem binds_free {device inode : Nat} (hp : s.phase p = .idle) (he : s.entry = none)
    (hallows : allows (s.move p .binding) p ⟨device,inode,uid⟩) :
    Relation.ReflTransGen (Step allows uid) s (Endpoint.move p (.serving ⟨device,inode,uid⟩)
      {s with entry := some ⟨⟨true,device,inode,uid⟩,some p⟩}) := by
  have hinspect : Step allows uid (s.move p .inspecting) (s.move p .binding) := by
    have h := @Step.inspect P _ allows uid _ p (phase_move_self p .inspecting s)
    have hlook : (s.move p .inspecting).look uid = .ok none := by
      unfold Endpoint.look
      rw [entry_move,he]
      rfl
    rwa [hlook,move_move] at h
  have hserve := reaches_serving (phase_move_self p .binding s) he hallows
  rw [move_entry_move] at hserve
  exact (hserve.head hinspect).head (.start hp)

/-- Whatever daemons have done before and wherever they died: if nobody listens at the path, a new
daemon can come to serve without a step of anybody else. -/
theorem comes_up_after_crashes (hown : Own uid s₀)
    (hrun : Relation.ReflTransGen (Step allows uid) s₀ s)
    (hdead : ∀ e, s.entry = some e → e.listener = none) (hp : s.phase p = .idle) :
    ∃ t identity, Relation.ReflTransGen (Step (fun _ _ _ => True) uid) s t ∧
      t.phase p = .serving identity ∧ (∃ m, t.entry = some ⟨m,some p⟩) ∧
      ∀ q, q ≠ p → t.phase q = s.phase q := by
  let t : Endpoint P := Endpoint.move p (.serving ⟨0,0,uid⟩)
    {s with entry := some ⟨⟨true,0,0,uid⟩,some p⟩}
  suffices hreach : Relation.ReflTransGen (Step (fun _ _ _ => True) uid) s t from
    ⟨t,_,hreach,phase_move_self p _ _,⟨_,rfl⟩,fun q hq => phase_move_of_ne hq _ _⟩
  cases he : s.entry with
  | none => exact binds_free hp he trivial
  | some e =>
      have hreplace := @replaces_dead P _ (fun _ _ _ => True) uid
        (s.move p (.removing e.metadata.identity)) p e 0 0 (phase_move_self p _ s)
        (by rw [entry_move,he]; rfl) trivial
      rw [move_entry_move] at hreplace
      exact (reaches_removing hp he (run_own hown hrun e he) (hdead e he)).trans hreplace

/-- A dead socket and new daemons. -/
def afterCrash (P : Type) : Endpoint P := ⟨some ⟨⟨true,1,7,1000⟩,none⟩,fun _ => .idle⟩

theorem comes_up_after_crashes_dead_socket : ∃ t identity,
    Relation.ReflTransGen (Step (fun _ _ _ => True) 1000) (afterCrash Unit) t ∧
      t.phase () = .serving identity := by
  have hown : Own 1000 (afterCrash Unit) := by
    intro e he
    cases he
    exact ⟨rfl,rfl⟩
  have hdead : ∀ e, (afterCrash Unit).entry = some e → e.listener = none := by
    intro e he
    cases he
    rfl
  obtain ⟨t,identity,hreach,hserving,-⟩ := @comes_up_after_crashes Unit _ (fun _ _ _ => True) 1000
    _ _ () hown .refl hdead rfl
  exact ⟨t,identity,hreach,hserving⟩

/-- The path holds the given entry and nobody has got past it. -/
def Untouched (e : Entry P) (s : Endpoint P) : Prop :=
  s.entry = some e ∧ ∀ p, (s.phase p).outside = true

theorem Untouched.move {ph : Phase} (h : Untouched e s) (hph : ph.outside = true) :
    Untouched e (s.move p ph) := by
  refine ⟨h.1,?_⟩
  intro q
  by_cases hq : q = p
  · subst hq
    rw [phase_move_self]
    exact hph
  · rw [phase_move_of_ne hq]
    exact h.2 q

omit [DecidableEq P] in
theorem outside_afterInspection (he : s.entry = some e)
    (hforeign : ¬ (e.metadata.isSocket = true ∧ e.metadata.uid = uid)) :
    (afterInspection (s.look uid)).outside = true := by
  rcases hlook : s.look uid with error | _ | identity
  · rfl
  · unfold Endpoint.look endpointIdentity at hlook
    rw [he] at hlook
    obtain ⟨_,-,hlook⟩ := bind_eq_ok.mp hlook
    obtain ⟨_,-,hlook⟩ := bind_eq_ok.mp hlook
    cases hlook
  · obtain ⟨e',he',hsocket,howner,-⟩ := look_eq_some.mp hlook
    rw [he] at he'
    cases he'
    exact absurd ⟨hsocket,howner⟩ hforeign

theorem Step.untouched (hforeign : ¬ (e.metadata.isSocket = true ∧ e.metadata.uid = uid))
    (hdead : e.listener = none) (hstep : Step allows uid s t) (h : Untouched e s) :
    Untouched e t := by
  have hnot : ∀ {p : P} {ph : Phase}, s.phase p = ph → ph.outside = false → Untouched e t := by
    intro p ph hp hph
    have hout := h.2 p
    rw [hp,hph] at hout
    cases hout
  cases hstep with
  | start hp => exact h.move rfl
  | inspect hp => exact h.move (outside_afterInspection h.1 hforeign)
  | connected hp he hq => exact hnot hp rfl
  | refused hp he hq => exact hnot hp rfl
  | notFound hp he => exact hnot hp rfl
  | check hp => exact hnot hp rfl
  | remove hp he => exact hnot hp rfl
  | bind hp he hallows => exact hnot hp rfl
  | secure hp => exact hnot hp rfl
  | identify hp => exact hnot hp rfl
  | stop hp => exact hnot hp rfl
  | clean hp => exact hnot hp rfl
  | clear hp he => exact hnot hp rfl
  | @fail p error hp =>
      have hmap : s.entry.map (close p) = s.entry := by
        rw [h.1]
        simp [close,hdead]
      have hsame : s.drop p = s := by
        unfold Endpoint.drop
        rw [hmap]
      rw [hsame]
      exact h.move rfl

/-- What is not a socket of the user stays at the path in every run, and no daemon starts. -/
theorem foreign_entry_stays (hstarted : Started s₀) (he : s₀.entry = some e)
    (hforeign : ¬ (e.metadata.isSocket = true ∧ e.metadata.uid = uid))
    (hrun : Relation.ReflTransGen (Step allows uid) s₀ s) :
    s.entry = some e ∧ ∀ p, (s.phase p).bound = false := by
  have hs : Untouched e s := by
    induction hrun with
    | refl => exact ⟨he,fun p => by rw [hstarted.1 p]; rfl⟩
    | tail _ hstep ih => exact hstep.untouched hforeign (hstarted.2 e he) ih
  refine ⟨hs.1,?_⟩
  intro p
  have hout := hs.2 p
  cases hp : s.phase p with
  | securing => simp [hp,outside] at hout
  | identifying => simp [hp,outside] at hout
  | serving identity => simp [hp,outside] at hout
  | _ => rfl

/-- A plain file in the place of the socket. -/
def occupiedPath : Endpoint Unit := ⟨some ⟨⟨false,1,7,1000⟩,none⟩,fun _ => .idle⟩

theorem foreign_entry_stays_plain_file :
    ((occupiedPath.move () .inspecting).move () (.ended (some .notASocket))).entry =
      some ⟨⟨false,1,7,1000⟩,none⟩ := by
  have hstarted : Started occupiedPath := by
    refine ⟨fun _ => rfl,?_⟩
    intro e he
    cases he
    rfl
  have hinspect : Step Undisturbed 1000 (occupiedPath.move () .inspecting)
      ((occupiedPath.move () .inspecting).move () (.ended (some .notASocket))) :=
    .inspect (phase_move_self () _ _)
  exact (foreign_entry_stays hstarted rfl (by decide)
    (.tail (.single (.start rfl)) hinspect)).1

/-- Two daemons that have both found the same dead socket can both come to serve: the second one
then removes the socket of the first. -/
theorem both_serve_after_race (hpq : p ≠ q) (he : s.entry = some e)
    (hown : e.metadata.isSocket = true ∧ e.metadata.uid = uid) (hdead : e.listener = none)
    (hp : s.phase p = .idle) (hq : s.phase q = .idle) (mine yours : Nat) :
    ∃ t, Relation.ReflTransGen (Step (fun _ _ _ => True) uid) s t ∧
      t.phase p = .serving ⟨0,mine,uid⟩ ∧ t.phase q = .serving ⟨0,yours,uid⟩ ∧
      t.entry = some ⟨⟨true,0,yours,uid⟩,some q⟩ := by
  let both : Endpoint P :=
    (s.move p (.removing e.metadata.identity)).move q (.removing e.metadata.identity)
  have hfirst : Relation.ReflTransGen (Step (fun _ _ _ => True) uid) s both := by
    refine (reaches_removing hp he hown hdead).trans ?_
    refine reaches_removing ?_ he hown hdead
    rw [phase_move_of_ne hpq.symm]
    exact hq
  have hbothp : both.phase p = .removing e.metadata.identity := by
    rw [phase_move_of_ne hpq,phase_move_self]
  let one : Endpoint P := Endpoint.move p (.serving ⟨0,mine,uid⟩)
    {both with entry := some ⟨⟨true,0,mine,uid⟩,some p⟩}
  have hsecond : Relation.ReflTransGen (Step (fun _ _ _ => True) uid) both one :=
    replaces_dead hbothp (Option.isSome_of_eq_some he) trivial
  have honeq : one.phase q = .removing e.metadata.identity := by
    rw [phase_move_of_ne hpq.symm]
    exact phase_move_self q _ _
  have hthird : Relation.ReflTransGen (Step (fun _ _ _ => True) uid) one
      (Endpoint.move q (.serving ⟨0,yours,uid⟩)
        {one with entry := some ⟨⟨true,0,yours,uid⟩,some q⟩}) :=
    replaces_dead honeq rfl trivial
  refine ⟨_,(hfirst.trans hsecond).trans hthird,?_,phase_move_self q _ _,rfl⟩
  rw [phase_move_of_ne hpq]
  exact phase_move_self p _ _

theorem both_serve_after_race_dead_socket : ∃ t,
    Relation.ReflTransGen (Step (fun _ _ _ => True) 1000) (afterCrash Bool) t ∧
      t.phase true = .serving ⟨0,8,1000⟩ ∧ t.phase false = .serving ⟨0,9,1000⟩ ∧
      t.entry = some ⟨⟨true,0,9,1000⟩,some false⟩ :=
  @both_serve_after_race _ _ 1000 _ true false _ Bool.false_ne_true.symm rfl ⟨rfl,rfl⟩ rfl rfl rfl 8 9

end Runs

/-- Nothing at the path and two daemons to start. -/
def freshPath : Endpoint Bool := ⟨none,fun _ => .idle⟩

end IpcEndpoint
end BackupSync
