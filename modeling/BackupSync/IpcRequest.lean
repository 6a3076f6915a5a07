import BackupSync.ContentHash

/-!
# Reading a request from a client

The daemon reads a request in pieces of at most a chunk, appends each piece to a
buffer and parses the whole buffer again. An error at the end of the input asks
for the next piece, any other one ends the exchange. The parser is a parameter;
what is known of it is stated where a JSON text is defined. The transport is the
list of what arrives, and a list that has run out is a client that stays silent.
-/
namespace BackupSync
open ContentHash

namespace IpcRequest

/-- What a client may ask. -/
inductive Request
  | status
  | statusWithContext (requestId source : Str)
  | health
  | healthWithContext (requestId source : Str)
  | readiness
  | readinessWithContext (requestId source : Str)
  | setSafeMode (enabled : Bool) (requestId source : Option Str)
  | clearSafetyWarning
  | clearSafetyWarningWithContext (requestId source : Str)
  deriving DecidableEq, Repr

/-- An error of the parser, with its class. -/
structure ParseError where
  isEof : Bool
  message : Str
  deriving DecidableEq, Repr

abbrev Parser := Bytes → Except ParseError Request

inductive ReadError
  | read (error : Str)
  | timedOut
  | empty
  | exceeded (maxRequestBytes : Nat)
  | parse (error : ParseError)
  deriving DecidableEq, Repr

/-- What the transport brings next. -/
inductive Arrival
  | bytes (data : Bytes)
  | endOfFile
  | failure (error : Str)
  | silence
  deriving DecidableEq, Repr

/-- What one read within the timeout gives. -/
inductive ReadOutcome
  | bytes (data : Bytes)
  | failed (error : Str)
  | timedOut
  deriving DecidableEq, Repr

/-- One read into a chunk; what does not fit stays for the next one. -/
def readChunk (capacity : Nat) : List Arrival → ReadOutcome × List Arrival
  | [] => (.timedOut,[])
  | .bytes data::later => (.bytes (data.take capacity),
      if data.length ≤ capacity then later else .bytes (data.drop capacity)::later)
  | .endOfFile::later => (.bytes [],later)
  | .failure error::later => (.failed error,later)
  | .silence::later => (.timedOut,later)

def pending : List Arrival → Nat
  | [] => 0
  | .bytes data::later => data.length+1+pending later
  | .endOfFile::later => 1+pending later
  | .failure _::later => 1+pending later
  | .silence::later => 1+pending later

theorem pending_readChunk {capacity : Nat} {arrivals later : List Arrival} {data : Bytes}
    (hcapacity : 0 < capacity) (h : readChunk capacity arrivals = (.bytes data,later)) :
    pending later < pending arrivals := by
  cases arrivals with
  | nil => simp [readChunk] at h
  | cons arrival rest =>
      cases arrival with
      | bytes all =>
          obtain ⟨-,rfl⟩ := Prod.mk.inj h
          by_cases hfits : all.length ≤ capacity
          · simp [hfits,pending]
          · simp [hfits,pending]
            omega
      | endOfFile =>
          obtain ⟨-,rfl⟩ := Prod.mk.inj h
          simp [pending]
      | failure error => simp [readChunk] at h
      | silence => simp [readChunk] at h

/-- What the loop does after a read: it goes on with a buffer or has the request. -/
inductive Progress
  | more (buf : Bytes)
  | done (request : Request)
  deriving DecidableEq, Repr

section Reading
variable (fromSlice : Parser) (maxRequestBytes readChunkBytes : Nat)

def parseBuffer (buf : Bytes) (sawBytes : Bool) : Except ReadError Progress :=
  match fromSlice buf with
  | .ok request => .ok (.done request)
  | .error e => if e.isEof && sawBytes then .ok (.more buf) else .error (.parse e)

def takeIn (buf data : Bytes) : Except ReadError Progress :=
  if data = [] then
    if buf = [] then .error .empty else parseBuffer fromSlice buf false
  else if maxRequestBytes < (buf++data).length then .error (.exceeded maxRequestBytes)
  else parseBuffer fromSlice (buf++data) true

def readLoop (buf : Bytes) (arrivals : List Arrival) : Except ReadError Request :=
  match _h : readChunk (max readChunkBytes 1) arrivals with
  | (.failed error,_) => .error (.read error)
  | (.timedOut,_) => .error .timedOut
  | (.bytes data,later) =>
      match takeIn fromSlice maxRequestBytes buf data with
      | .error e => .error e
      | .ok (.done request) => .ok request
      | .ok (.more buf) => readLoop buf later
termination_by pending arrivals
decreasing_by exact pending_readChunk (by omega) _h

def readRequest (arrivals : List Arrival) : Except ReadError Request :=
  readLoop fromSlice maxRequestBytes readChunkBytes [] arrivals

end Reading

section Loop
variable {fromSlice : Parser} {maxRequestBytes readChunkBytes : Nat} {request : Request}
  {arrivals later : List Arrival} {buf buf' data : Bytes}

theorem readLoop_more (h : readChunk (max readChunkBytes 1) arrivals = (.bytes data,later))
    (hmore : takeIn fromSlice maxRequestBytes buf data = .ok (.more buf')) :
    readLoop fromSlice maxRequestBytes readChunkBytes buf arrivals =
      readLoop fromSlice maxRequestBytes readChunkBytes buf' later := by
  rw [readLoop]
  split
  all_goals
    rename_i heq
    rw [h] at heq
    cases heq
  rw [hmore]

theorem readLoop_done (h : readChunk (max readChunkBytes 1) arrivals = (.bytes data,later))
    (hdone : takeIn fromSlice maxRequestBytes buf data = .ok (.done request)) :
    readLoop fromSlice maxRequestBytes readChunkBytes buf arrivals = .ok request := by
  rw [readLoop]
  split
  all_goals
    rename_i heq
    rw [h] at heq
    cases heq
  rw [hdone]

theorem parseBuffer_eq_done {sawBytes : Bool} :
    parseBuffer fromSlice buf sawBytes = .ok (.done request) ↔ fromSlice buf = .ok request := by
  unfold parseBuffer
  cases fromSlice buf with
  | ok request' => simp
  | error e =>
      dsimp only
      split
      · simp
      · simp

theorem takeIn_bytes (hdata : data ≠ []) (hsize : (buf++data).length ≤ maxRequestBytes) :
    takeIn fromSlice maxRequestBytes buf data = parseBuffer fromSlice (buf++data) true := by
  unfold takeIn
  rw [if_neg hdata,if_neg (by omega)]

end Loop

section Splits
variable {fromSlice : Parser} {maxRequestBytes readChunkBytes : Nat} {request : Request}

/-- The blanks of JSON. -/
def isJsonSpace (b : UInt8) : Bool := b == 0x20 || b == 0x09 || b == 0x0A || b == 0x0D

/-- A JSON text of a request: the parser reads the request from it, also where blanks follow, and
misses the rest of the input on every shorter piece. -/
structure JsonText (fromSlice : Parser) (request : Request) where
  bytes : Bytes
  nonempty : bytes ≠ []
  whole : ∀ spaces : Bytes, spaces.all isJsonSpace = true →
    fromSlice (bytes++spaces) = .ok request
  cut : ∀ n, n < bytes.length → ∃ e, fromSlice (bytes.take n) = .error e ∧ e.isEof = true

theorem readChunk_split {capacity : Nat} {piece : Bytes} {pieces : List Bytes}
    {rest : List Arrival} (hcapacity : 0 < capacity) (hne : ∀ p ∈ piece::pieces, p ≠ []) :
    ∃ (data : Bytes) (pieces' : List Bytes), data ≠ [] ∧ (∀ p ∈ pieces', p ≠ []) ∧
      (piece::pieces).flatten = data++pieces'.flatten ∧
      readChunk capacity ((piece::pieces).map .bytes++rest) =
        (.bytes data,pieces'.map .bytes++rest) := by
  have hpiece : piece ≠ [] := hne piece (by simp)
  have hpieces : ∀ p ∈ pieces, p ≠ [] := fun p hp => hne p (List.mem_cons_of_mem _ hp)
  have hpos := List.length_pos_of_ne_nil hpiece
  by_cases hfits : piece.length ≤ capacity
  · refine ⟨piece,pieces,hpiece,hpieces,rfl,?_⟩
    simp [readChunk,hfits,List.take_of_length_le hfits]
  · refine ⟨piece.take capacity,piece.drop capacity::pieces,?_,?_,?_,?_⟩
    · apply List.ne_nil_of_length_pos
      rw [List.length_take]
      omega
    · intro p hp
      rcases List.mem_cons.mp hp with rfl | hp
      · apply List.ne_nil_of_length_pos
        rw [List.length_drop]
        omega
      · exact hpieces p hp
    · simp [← List.append_assoc,List.take_append_drop]
    · simp [readChunk,hfits]

/-- A buffer that is part of a text: the loop waits until the text is whole. -/
theorem readLoop_split (text : JsonText fromSlice request) {spaces : Bytes}
    (hspaces : spaces.all isJsonSpace = true)
    (hlimit : (text.bytes++spaces).length ≤ maxRequestBytes) {buf : Bytes} {pieces : List Bytes}
    {rest : List Arrival} (hne : ∀ p ∈ pieces, p ≠ [])
    (hall : buf++pieces.flatten = text.bytes++spaces) (hbuf : buf.length < text.bytes.length) :
    readLoop fromSlice maxRequestBytes readChunkBytes buf (pieces.map .bytes++rest) =
      .ok request := by
  induction hn : pieces.flatten.length using Nat.strong_induction_on generalizing buf pieces with
  | h n ih =>
      have hlength := congrArg List.length hall
      simp only [List.length_append] at hlength hlimit
      cases pieces with
      | nil =>
          simp only [List.flatten_nil,List.length_nil] at hlength
          omega
      | cons piece pieces =>
          obtain ⟨data,pieces',hdata,hne',hflat,hread⟩ :=
            @readChunk_split (max readChunkBytes 1) piece pieces rest (by omega) hne
          have hpos := List.length_pos_of_ne_nil hdata
          rw [hflat,← List.append_assoc] at hall
          have hsize : (buf++data).length ≤ maxRequestBytes := by
            have hsum := congrArg List.length hall
            simp only [List.length_append] at hsum ⊢
            omega
          have htake := @takeIn_bytes fromSlice maxRequestBytes buf data hdata hsize
          by_cases hwhole : (buf++data).length < text.bytes.length
          · have hcut : buf++data = text.bytes.take (buf++data).length := by
              rw [← List.take_append_of_le_length (Nat.le_of_lt hwhole),← hall,List.take_left]
            obtain ⟨e,hparse,heof⟩ := text.cut _ hwhole
            rw [← hcut] at hparse
            have hmore : takeIn fromSlice maxRequestBytes buf data = .ok (.more (buf++data)) := by
              simp [htake,parseBuffer,hparse,heof]
            rw [readLoop_more hread hmore]
            apply ih pieces'.flatten.length ?_ hne' hall hwhole rfl
            rw [← hn,hflat,List.length_append]
            omega
          · have hlonger : text.bytes <+: buf++data :=
              List.prefix_of_prefix_length_le (List.prefix_append _ spaces)
                ⟨pieces'.flatten,hall⟩ (by omega)
            obtain ⟨blank,hblank⟩ := hlonger
            rw [← hblank,List.append_assoc] at hall
            have hblanks : blank.all isJsonSpace = true := by
              rw [← List.append_cancel_left hall,List.all_append,Bool.and_eq_true] at hspaces
              exact hspaces.1
            apply readLoop_done hread
            rw [htake,parseBuffer_eq_done,← hblank]
            exact text.whole blank hblanks

/-- However a request is split on its way, the daemon reads it. -/
theorem readRequest_split (fromSlice : Parser) (request : Request)
    (text : JsonText fromSlice request) (spaces : Bytes) (maxRequestBytes readChunkBytes : Nat)
    (pieces : List Bytes) (rest : List Arrival) (hspaces : spaces.all isJsonSpace = true)
    (hlimit : (text.bytes++spaces).length ≤ maxRequestBytes) (hne : ∀ p ∈ pieces, p ≠ [])
    (hsplit : pieces.flatten = text.bytes++spaces) :
    readRequest fromSlice maxRequestBytes readChunkBytes (pieces.map .bytes++rest) =
      .ok request :=
  readLoop_split text hspaces hlimit hne hsplit (List.length_pos_of_ne_nil text.nonempty)

end Splits

section Status

def statusBytes : Bytes := utf8 "\x7b\"type\":\"Status\"\x7d".toList

/-- A parser that knows one request. -/
def statusParser : Parser := fun buf =>
  if statusBytes.isPrefixOf buf && (buf.drop statusBytes.length).all isJsonSpace then .ok .status
  else .error ⟨buf.isPrefixOf statusBytes,"expected a request".toList⟩

def statusText : JsonText statusParser .status where
  bytes := statusBytes
  nonempty := by decide +kernel
  whole := by
    intro spaces hspaces
    simp [statusParser,hspaces]
  cut := by
    intro n hn
    have hshort : statusBytes.isPrefixOf (statusBytes.take n) = false := by
      rw [Bool.eq_false_iff]
      intro h
      have hlength := (List.isPrefixOf_iff_prefix.mp h).length_le
      rw [List.length_take] at hlength
      omega
    refine ⟨⟨(statusBytes.take n).isPrefixOf statusBytes,"expected a request".toList⟩,?_,?_⟩
    · simp [statusParser,hshort]
    · simp [List.take_prefix]

theorem readRequest_split_status :
    readRequest statusParser 32 4 ([statusBytes.take 9,statusBytes.drop 9++[0x0A]].map .bytes++
      [.endOfFile]) = .ok .status :=
  readRequest_split statusParser .status statusText [0x0A] 32 4 _ [.endOfFile] (by decide)
    (by decide +kernel) (by decide +kernel) (by decide +kernel)

end Status

end IpcRequest
end BackupSync
