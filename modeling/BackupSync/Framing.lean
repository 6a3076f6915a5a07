import BackupSync.Checks

/-!
# Framed streams of chunks

A stream is a sequence of frames. A frame is a length of four bytes, most
significant first, and that many bytes; the top bit of the length marks the last
frame. What a frame carries is produced from a chunk and its position by an
arbitrary encoder and turned back by a decoder, either of which may fail.

Reading undoes writing whenever the decoder undoes the encoder on each chunk.
Bytes after the last frame are not looked at. The reader takes fuel; one more
than the number of bytes is always enough for what a writer produced.

The reads that cut a byte string into chunks are modelled by a list of wishes,
so that every pattern of short reads is available.
-/
namespace BackupSync.Framing
open Checks

variable {α ε : Type}

structure FrameErrors (ε : Type) where
  tooLarge : Nat → ε
  unexpectedEof : ε

def u32Bytes (n : Nat) : List UInt8 :=
  [UInt8.ofNat (n/16777216),UInt8.ofNat (n/65536),UInt8.ofNat (n/256),UInt8.ofNat n]

def u32OfBytes (bytes : List UInt8) : Nat := bytes.foldl (fun n b => 256*n+b.toNat) 0

theorem u32OfBytes_u32Bytes {n : Nat} (h : n < 4294967296) : u32OfBytes (u32Bytes n) = n := by
  simp only [u32Bytes,u32OfBytes,List.foldl_cons,List.foldl_nil,UInt8.toNat_ofNat']
  omega

def readExact (err : FrameErrors ε) (n : Nat) (input : List UInt8) :
    Except ε (List UInt8 × List UInt8) :=
  if n ≤ input.length then .ok (input.take n,input.drop n) else .error err.unexpectedEof

theorem readExact_append {err : FrameErrors ε} {n : Nat} {bytes : List UInt8}
    (h : bytes.length = n) (rest : List UInt8) :
    readExact err n (bytes++rest) = .ok (bytes,rest) := by
  subst h
  rw [readExact,if_pos (by simp),List.take_left,List.drop_left]

def maxFrameBytes : Nat := 0x7FFFFFFF

def writeFramedChunk (err : FrameErrors ε) (chunk : List UInt8) (isLast : Bool) :
    Except ε (List UInt8) :=
  if chunk.length > maxFrameBytes then .error (err.tooLarge chunk.length)
  else .ok (u32Bytes (chunk.length+if isLast then 0x80000000 else 0)++chunk)

def readFramedChunk (err : FrameErrors ε) (input : List UInt8) :
    Except ε (List UInt8 × Bool × List UInt8) := do
  let (lenBytes,input) ← readExact err 4 input
  let raw := u32OfBytes lenBytes
  let (chunk,rest) ← readExact err (raw%0x80000000) input
  return (chunk,raw/0x80000000%2 == 1,rest)

theorem writeFramedChunk_ok {err : FrameErrors ε} {chunk : List UInt8}
    (h : chunk.length ≤ maxFrameBytes) (isLast : Bool) :
    ∃ w, writeFramedChunk err chunk isLast = .ok w := ⟨_,if_neg (Nat.not_lt.mpr h)⟩

theorem readFramedChunk_write {err : FrameErrors ε} {chunk w : List UInt8} {isLast : Bool}
    (h : writeFramedChunk err chunk isLast = .ok w) (rest : List UInt8) :
    readFramedChunk err (w++rest) = .ok (chunk,isLast,rest) := by
  unfold writeFramedChunk at h
  split at h
  · cases h
  · rename_i hlen
    cases h
    rw [Nat.not_lt,maxFrameBytes] at hlen
    have hraw : u32OfBytes (u32Bytes (chunk.length+if isLast then 0x80000000 else 0)) =
        chunk.length+if isLast then 0x80000000 else 0 := by
      apply u32OfBytes_u32Bytes
      split <;> omega
    have hmod : (chunk.length+if isLast then 0x80000000 else 0)%0x80000000 = chunk.length := by
      split <;> omega
    have hbit : ((chunk.length+if isLast then 0x80000000 else 0)/0x80000000%2 == 1) = isLast := by
      cases isLast <;> simp <;> omega
    rw [List.append_assoc]
    refine bind_eq_ok.mpr ⟨_,readExact_append (rfl : (u32Bytes _).length = 4) (chunk++rest),?_⟩
    dsimp only
    rw [hraw]
    refine bind_eq_ok.mpr ⟨(chunk,rest),?_,?_⟩
    · rw [hmod]
      exact readExact_append rfl rest
    · dsimp only
      rw [hbit]
      rfl

/-- The frames of a nonempty sequence of chunks, counted from a position. -/
def encodeStream (err : FrameErrors ε) (enc : Nat → Bool → α → Except ε (List UInt8)) :
    Nat → α → List α → Except ε (List UInt8)
  | i,p,[] => do
      let c ← enc i true p
      writeFramedChunk err c true
  | i,p,q::ps => do
      let c ← enc i false p
      let w ← writeFramedChunk err c false
      let rest ← encodeStream err enc (i+1) q ps
      return w++rest

def decodeStream (err : FrameErrors ε)
    (dec : Nat → Bool → List UInt8 → Except ε (List UInt8)) :
    Nat → Nat → List UInt8 → Except ε (List UInt8)
  | 0,_,_ => .error err.unexpectedEof
  | fuel+1,i,input => do
      let (c,isLast,rest) ← readFramedChunk err input
      let pt ← dec i isLast c
      if isLast then return pt
      else
        let more ← decodeStream err dec fuel (i+1) rest
        return pt++more

section RoundTrip
variable {err : FrameErrors ε} {enc : Nat → Bool → α → Except ε (List UInt8)}
  {dec : Nat → Bool → List UInt8 → Except ε (List UInt8)} {plain : α → List UInt8}

theorem decodeStream_frame {fuel i : Nat} {isLast : Bool} {c w pt rest : List UInt8}
    (hw : writeFramedChunk err c isLast = .ok w) (hd : dec i isLast c = .ok pt) :
    decodeStream err dec (fuel+1) i (w++rest) =
      if isLast then .ok pt else (pt++·) <$> decodeStream err dec fuel (i+1) rest := by
  rw [decodeStream,readFramedChunk_write hw]
  change (do let q ← dec i isLast c; _ : Except ε _) = _
  rw [hd]
  cases isLast with
  | true => rfl
  | false =>
      change (do let more ← decodeStream err dec fuel (i+1) rest; return pt++more) = _
      cases decodeStream err dec fuel (i+1) rest <;> rfl

/-- A frame is at least its length field. -/
theorem four_le_length_of_write {chunk w : List UInt8} {isLast : Bool}
    (h : writeFramedChunk err chunk isLast = .ok w) : 4 ≤ w.length := by
  unfold writeFramedChunk at h
  split at h
  · cases h
  · cases h
    simp [u32Bytes]

/-- Reading undoes writing, whatever follows the stream. -/
theorem decodeStream_encodeStream {i : Nat} {p : α} {ps : List α} {w : List UInt8}
    (h : ∀ j isLast q c, q ∈ p::ps → enc j isLast q = .ok c → dec j isLast c = .ok (plain q))
    (hw : encodeStream err enc i p ps = .ok w) {fuel : Nat} (hfuel : w.length < fuel)
    (rest : List UInt8) :
    decodeStream err dec fuel i (w++rest) = .ok ((p::ps).flatMap plain) := by
  induction ps generalizing i p w fuel with
  | nil =>
      obtain ⟨c,hc,hf⟩ := bind_eq_ok.mp hw
      obtain ⟨fuel,rfl⟩ : ∃ n, fuel = n+1 := ⟨fuel-1,by omega⟩
      rw [decodeStream_frame hf (h _ _ _ _ List.mem_cons_self hc)]
      simp
  | cons q ps ih =>
      obtain ⟨c,hc,hw⟩ := bind_eq_ok.mp hw
      obtain ⟨w₁,hf,hw⟩ := bind_eq_ok.mp hw
      obtain ⟨w₂,hs,hw⟩ := bind_eq_ok.mp hw
      cases hw
      obtain ⟨fuel,rfl⟩ : ∃ n, fuel = n+1 := ⟨fuel-1,by omega⟩
      have hlen := four_le_length_of_write hf
      rw [List.length_append] at hfuel
      have htail := ih (fun j isLast r c hr => h j isLast r c (List.mem_cons_of_mem _ hr)) hs
        (by omega : w₂.length < fuel)
      rw [List.append_assoc,decodeStream_frame hf (h _ _ _ _ List.mem_cons_self hc),htail]
      rfl

/-- Every position before the last one has been encoded. -/
theorem exists_of_encodeStream_ok {i j : Nat} {p : α} {ps : List α} {w : List UInt8}
    (h : encodeStream err enc i p ps = .ok w) (hj : j < ps.length) :
    ∃ q c, enc (i+j) false q = .ok c := by
  induction ps generalizing i j p w with
  | nil => cases hj
  | cons q ps ih =>
      obtain ⟨c,hc,h⟩ := bind_eq_ok.mp h
      obtain ⟨w₁,-,h⟩ := bind_eq_ok.mp h
      obtain ⟨w₂,hrest,-⟩ := bind_eq_ok.mp h
      cases j with
      | zero => exact ⟨p,c,hc⟩
      | succ j =>
          obtain ⟨r,d,hd⟩ := ih hrest (Nat.lt_of_succ_lt_succ hj)
          rw [Nat.add_right_comm] at hd
          exact ⟨r,d,hd⟩

/-- Writing succeeds when every chunk encodes to a frame that is not too large. -/
theorem encodeStream_ok {i : Nat} {p : α} {ps : List α}
    (h : ∀ j isLast q, q ∈ p::ps → (isLast = false → j < i+ps.length) →
      ∃ c, enc j isLast q = .ok c ∧ c.length ≤ maxFrameBytes) :
    ∃ w, encodeStream err enc i p ps = .ok w := by
  induction ps generalizing i p with
  | nil =>
      obtain ⟨c,hc,hlen⟩ := h i true p List.mem_cons_self nofun
      obtain ⟨w,hw⟩ := @writeFramedChunk_ok ε err c hlen true
      exact ⟨w,bind_eq_ok.mpr ⟨c,hc,hw⟩⟩
  | cons q ps ih =>
      obtain ⟨c,hc,hlen⟩ := h i false p List.mem_cons_self (fun _ => by simp)
      obtain ⟨w₁,hw₁⟩ := @writeFramedChunk_ok ε err c hlen false
      obtain ⟨w₂,hw₂⟩ := @ih (i+1) q (fun j isLast r hr hj =>
        h j isLast r (List.mem_cons_of_mem _ hr) (fun hl => by
          have := hj hl
          rw [List.length_cons]
          omega))
      exact ⟨w₁++w₂,bind_eq_ok.mpr ⟨c,hc,bind_eq_ok.mpr ⟨w₁,hw₁,bind_eq_ok.mpr ⟨w₂,hw₂,rfl⟩⟩⟩⟩

end RoundTrip

/-- Successive reads of at most limit bytes; a wish may ask for fewer. -/
def readChunks (limit : Nat) : Nat → List Nat → List UInt8 → List (List UInt8)
  | _,_,[] => []
  | 0,_,_::_ => []
  | fuel+1,wishes,b::bytes =>
      let n := max 1 (min limit (wishes.headD limit))
      (b::bytes).take n::readChunks limit fuel wishes.tail ((b::bytes).drop n)

theorem flatten_readChunks {limit fuel : Nat} {wishes : List Nat} {bytes : List UInt8}
    (h : bytes.length ≤ fuel) : (readChunks limit fuel wishes bytes).flatten = bytes := by
  induction fuel generalizing wishes bytes with
  | zero =>
      obtain rfl : bytes = [] := List.eq_nil_of_length_eq_zero (by omega)
      rfl
  | succ fuel ih =>
      cases bytes with
      | nil => rfl
      | cons b bytes =>
          rw [readChunks,List.flatten_cons,ih,List.take_append_drop]
          rw [List.length_drop]
          rw [List.length_cons] at h ⊢
          omega

theorem length_of_mem_readChunks {limit fuel : Nat} {wishes : List Nat} {bytes c : List UInt8}
    (hl : 1 ≤ limit) (h : c ∈ readChunks limit fuel wishes bytes) : c.length ≤ limit := by
  induction fuel generalizing wishes bytes with
  | zero => cases bytes <;> simp [readChunks] at h
  | succ fuel ih =>
      cases bytes with
      | nil => simp [readChunks] at h
      | cons b bytes =>
          rw [readChunks,List.mem_cons] at h
          rcases h with rfl | h
          · rw [List.length_take]
            omega
          · exact ih h

end BackupSync.Framing
