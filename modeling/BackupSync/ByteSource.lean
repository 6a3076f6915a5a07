import BackupSync.Framing

/-!
# Sources that deliver short reads

A source holds the bytes that have not been read. Each read is given the size of a
buffer and delivers at least one byte, unless the buffer is empty or the source has
ended; how many of the bytes asked for it delivers is up to a list of wishes.

Code that fills a buffer before it looks at it does not depend on the wishes. Such
code is compared with a function on the bytes themselves: the two fail with the same
error, or return the same value and leave the same bytes.
-/
namespace BackupSync
open Checks Framing

structure ByteSource where
  rest : List UInt8
  wishes : List Nat
  deriving DecidableEq, Repr

namespace ByteSource

variable {α β ε : Type}

def read (n : Nat) (src : ByteSource) : List UInt8 × ByteSource :=
  let k := min n (max 1 (src.wishes.headD n))
  (src.rest.take k,⟨src.rest.drop k,src.wishes.tail⟩)

theorem read_append (n : Nat) (src : ByteSource) :
    (src.read n).1++(src.read n).2.rest = src.rest := List.take_append_drop _ _

theorem length_read_le (n : Nat) (src : ByteSource) : (src.read n).1.length ≤ n := by
  simp only [read,List.length_take]
  omega

/-- Only a source that has ended delivers nothing. -/
theorem read_eq_nil {n : Nat} {src : ByteSource} (hn : 0 < n) :
    (src.read n).1 = [] ↔ src.rest = [] := by
  rw [read,List.take_eq_nil_iff]
  constructor
  · intro h
    rcases h with h | h
    · omega
    · exact h
  · exact .inr

/-- The loop that reads until a buffer of n bytes is full or the source ends. -/
def fillFrom : Nat → Nat → List UInt8 → ByteSource → List UInt8 × ByteSource
  | 0,_,filled,src => (filled,src)
  | fuel+1,n,filled,src =>
      if filled.length < n then
        let (got,src) := src.read (n-filled.length)
        if got.isEmpty then (filled,src) else fillFrom fuel n (filled++got) src
      else (filled,src)

def fill (n : Nat) (src : ByteSource) : List UInt8 × ByteSource := fillFrom n n [] src

theorem fillFrom_eq {fuel n : Nat} {filled : List UInt8} {src : ByteSource} (hle : filled.length ≤ n)
    (hfuel : n ≤ filled.length+fuel) :
    (fillFrom fuel n filled src).1 = filled++src.rest.take (n-filled.length) ∧
      (fillFrom fuel n filled src).2.rest = src.rest.drop (n-filled.length) := by
  induction fuel generalizing filled src with
  | zero =>
      have hfull : n-filled.length = 0 := by omega
      simp [fillFrom,hfull]
  | succ fuel ih =>
      rw [fillFrom]
      split
      · rename_i hlt
        have happend := src.read_append (n-filled.length)
        have hlength := src.length_read_le (n-filled.length)
        have hnil := @read_eq_nil (n-filled.length) src (by omega)
        generalize src.read (n-filled.length) = got at happend hlength hnil
        obtain ⟨got,src'⟩ := got
        dsimp only at happend hlength hnil ⊢
        split
        · rename_i hempty
          have hgot := List.isEmpty_iff.mp hempty
          have hrest := hnil.mp hgot
          rw [hgot,hrest,List.nil_append] at happend
          rw [hrest,happend]
          simp
        · rename_i hempty
          have hpos : 0 < got.length := List.length_pos_iff.mpr fun h => hempty (List.isEmpty_iff.mpr h)
          have hlen : (filled++got).length = filled.length+got.length := List.length_append
          obtain ⟨hbytes,hrest⟩ := @ih (filled++got) src' (by omega) (by omega)
          have hsplit : n-filled.length = got.length+(n-(filled++got).length) := by omega
          rw [hbytes,hrest,← happend,hsplit,List.take_length_add_append,List.drop_length_add_append]
          simp
      · rename_i hfull
        have hzero : n-filled.length = 0 := by omega
        simp [hzero]

/-- Filling a buffer takes its size from the source, whatever the reads deliver. -/
theorem fill_eq (n : Nat) (src : ByteSource) :
    (src.fill n).1 = src.rest.take n ∧ (src.fill n).2.rest = src.rest.drop n :=
  @fillFrom_eq n n [] src (Nat.zero_le _) (by simp)

/-- Two runs, one on a source and one on its bytes, that end in the same way. -/
def Agree (x : Except ε (α × ByteSource)) (y : Except ε (α × List UInt8)) : Prop :=
  (∃ e, x = .error e ∧ y = .error e) ∨ ∃ a src, x = .ok (a,src) ∧ y = .ok (a,src.rest)

/-- The two go on in the same way. -/
theorem Agree.bind {x : Except ε (α × ByteSource)} {y : Except ε (α × List UInt8)}
    {f : α × ByteSource → Except ε (β × ByteSource)} {g : α × List UInt8 → Except ε (β × List UInt8)}
    (h : Agree x y) (hfg : ∀ a src, Agree (f (a,src)) (g (a,src.rest))) : Agree (x >>= f) (y >>= g) := by
  rcases h with ⟨e,rfl,rfl⟩ | ⟨a,src,rfl,rfl⟩
  · exact .inl ⟨e,rfl,rfl⟩
  · exact hfg a src

/-- A check that does not depend on the source. -/
theorem Agree.check {b : Bool} {e : ε} {x : Except ε (α × ByteSource)}
    {y : Except ε (α × List UInt8)} (h : Agree x y) :
    Agree (do require b e; x) (do require b e; y) := by
  cases b with
  | false => exact .inl ⟨e,rfl,rfl⟩
  | true => exact h

end ByteSource

/-- The reads of a source until it has ended. -/
theorem readChunks_cons {limit fuel : Nat} {src : ByteSource} (hl : 1 ≤ limit) (hr : src.rest ≠ []) :
    readChunks limit (fuel+1) src.wishes src.rest =
      (src.read limit).1::readChunks limit fuel (src.read limit).2.wishes (src.read limit).2.rest := by
  obtain ⟨b,bytes,hb⟩ := List.exists_cons_of_ne_nil hr
  have hn : max 1 (min limit (src.wishes.headD limit)) = min limit (max 1 (src.wishes.headD limit)) := by
    omega
  rw [hb,readChunks,hn]
  simp only [ByteSource.read,hb]

end BackupSync
