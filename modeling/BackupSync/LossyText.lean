import Mathlib

/-!
# Lossy decoding and lines

Bytes decoded as UTF-8, where each maximal piece that starts a character without
completing it is one replacement character, and the lines of a text. Bytes below
0x80 are never part of a longer character, so decoding splits at each of them,
and the lines split at each line feed.
-/
namespace LossyText

section Decoding

/-- The ranges of the bytes that complete a character after its first byte. -/
def continuations (b : UInt8) : Option (List (UInt8 × UInt8)) :=
  if b < 0x80 then some []
  else if 0xC2 ≤ b ∧ b ≤ 0xDF then some [(0x80,0xBF)]
  else if b = 0xE0 then some [(0xA0,0xBF),(0x80,0xBF)]
  else if 0xE1 ≤ b ∧ b ≤ 0xEC then some [(0x80,0xBF),(0x80,0xBF)]
  else if b = 0xED then some [(0x80,0x9F),(0x80,0xBF)]
  else if 0xEE ≤ b ∧ b ≤ 0xEF then some [(0x80,0xBF),(0x80,0xBF)]
  else if b = 0xF0 then some [(0x90,0xBF),(0x80,0xBF),(0x80,0xBF)]
  else if 0xF1 ≤ b ∧ b ≤ 0xF3 then some [(0x80,0xBF),(0x80,0xBF),(0x80,0xBF)]
  else if b = 0xF4 then some [(0x80,0x8F),(0x80,0xBF),(0x80,0xBF)]
  else none

/-- The bytes in front that lie in the ranges, one after the other. -/
def following : List (UInt8 × UInt8) → List UInt8 → List UInt8
  | r::ranges, b::bytes => if r.1 ≤ b ∧ b ≤ r.2 then b::following ranges bytes else []
  | [], _ => []
  | _::_, [] => []

/-- The payload bits of a first byte that so many bytes follow. -/
def leadPayload (b : UInt8) : Nat → Nat
  | 0 => b.toNat
  | n+1 => b.toNat%2^(5-n)

def assemble (b : UInt8) (rest : List UInt8) : Char :=
  Char.ofNat (rest.foldl (fun value c => value*64+c.toNat%64) (leadPayload b rest.length))

def replacement : Char := Char.ofNat 0xFFFD

/-- The character a byte starts, and how many of the bytes after it belong to it. -/
def decodeFirst (b : UInt8) (bytes : List UInt8) : Char × Nat :=
  match continuations b with
  | none => (replacement,0)
  | some ranges =>
      let rest := following ranges bytes
      (if rest.length = ranges.length then assemble b rest else replacement,rest.length)

def decodeLossy : List UInt8 → List Char
  | [] => []
  | b::bytes => (decodeFirst b bytes).1::decodeLossy (bytes.drop (decodeFirst b bytes).2)
termination_by bytes => bytes.length
decreasing_by
  simp only [List.length_drop,List.length_cons]
  omega

@[simp] theorem decodeLossy_nil : decodeLossy [] = [] := by
  rw [decodeLossy]

theorem decodeLossy_cons (b : UInt8) (bytes : List UInt8) : decodeLossy (b::bytes) =
    (decodeFirst b bytes).1::decodeLossy (bytes.drop (decodeFirst b bytes).2) := by
  rw [decodeLossy]

theorem length_following_le (ranges : List (UInt8 × UInt8)) (bytes : List UInt8) :
    (following ranges bytes).length ≤ bytes.length := by
  induction ranges generalizing bytes with
  | nil => simp [following]
  | cons r ranges ih =>
      cases bytes with
      | nil => simp [following]
      | cons b bytes =>
          unfold following
          split
          · simpa using ih bytes
          · simp

/-- A byte outside of every range ends what follows. -/
theorem following_append {ranges : List (UInt8 × UInt8)} {y : UInt8}
    (h : ∀ r ∈ ranges, ¬(r.1 ≤ y ∧ y ≤ r.2)) (front back : List UInt8) :
    following ranges (front++y::back) = following ranges front := by
  induction ranges generalizing front with
  | nil => simp [following]
  | cons r ranges ih =>
      have hr := h r (by simp)
      have hranges : ∀ r ∈ ranges, ¬(r.1 ≤ y ∧ y ≤ r.2) :=
        fun r hr => h r (List.mem_cons_of_mem _ hr)
      cases front with
      | nil => simp [following,hr]
      | cons b front =>
          simp only [following,List.cons_append]
          rw [ih hranges front]

theorem le_of_mem_continuations {b : UInt8} {ranges : List (UInt8 × UInt8)}
    (h : continuations b = some ranges) : ∀ r ∈ ranges, 0x80 ≤ r.1 := by
  unfold continuations at h
  repeat' split at h
  all_goals cases h
  all_goals simp

theorem decodeFirst_le (b : UInt8) (bytes : List UInt8) :
    (decodeFirst b bytes).2 ≤ bytes.length := by
  unfold decodeFirst
  cases continuations b with
  | none => simp
  | some ranges => exact length_following_le ranges bytes

theorem decodeFirst_append {y : UInt8} (hy : y < 0x80) (b : UInt8) (front back : List UInt8) :
    decodeFirst b (front++y::back) = decodeFirst b front := by
  unfold decodeFirst
  cases hranges : continuations b with
  | none => rfl
  | some ranges =>
      have hout : ∀ r ∈ ranges, ¬(r.1 ≤ y ∧ y ≤ r.2) := by
        intro r hr hin
        have hlow := le_of_mem_continuations hranges r hr
        exact absurd (UInt8.le_trans hlow hin.1) (UInt8.not_le.mpr hy)
      dsimp only
      rw [following_append hout]

theorem decodeFirst_ascii {y : UInt8} (hy : y < 0x80) (bytes : List UInt8) :
    decodeFirst y bytes = (Char.ofNat y.toNat,0) := by
  simp [decodeFirst,continuations,hy,following,assemble,leadPayload]

/-- Decoding splits at every byte below 0x80. -/
theorem decodeLossy_append {y : UInt8} (hy : y < 0x80) (front back : List UInt8) :
    decodeLossy (front++y::back) = decodeLossy front++Char.ofNat y.toNat::decodeLossy back := by
  induction hn : front.length using Nat.strong_induction_on generalizing front with
  | h n ih =>
      cases front with
      | nil =>
          rw [List.nil_append,decodeLossy_cons,decodeFirst_ascii hy]
          simp
      | cons b front =>
          have hle := decodeFirst_le b front
          rw [List.cons_append,decodeLossy_cons,decodeLossy_cons,decodeFirst_append hy,
            List.drop_append_of_le_length hle,
            ih (front.drop (decodeFirst b front).2).length ?_ _ rfl]
          · simp
          · rw [← hn,List.length_drop,List.length_cons]
            omega

theorem count_le_count_decodeLossy (bytes : List UInt8) :
    bytes.count 0x0A ≤ (decodeLossy bytes).count '\n' := by
  induction hn : bytes.length using Nat.strong_induction_on generalizing bytes with
  | h n ih =>
      by_cases hmem : (0x0A : UInt8) ∈ bytes
      · obtain ⟨front,back,rfl⟩ := List.append_of_mem hmem
        simp only [List.length_append,List.length_cons] at hn
        have hfront := ih front.length (by omega) front rfl
        have hback := ih back.length (by omega) back rfl
        rw [decodeLossy_append (by decide)]
        simp only [List.count_append,List.count_cons]
        simp
        omega
      · rw [List.count_eq_zero_of_not_mem hmem]
        exact Nat.zero_le _

end Decoding

section Lines

def stripReturn (line : List Char) : List Char :=
  if line.getLast? = some '\r' then line.dropLast else line

/-- The lines from where a line has begun; only a line feed takes a carriage return with it. -/
def linesFrom (line : List Char) : List Char → List (List Char)
  | [] => if line = [] then [] else [line]
  | c::text => if c = '\n' then stripReturn line::linesFrom [] text else linesFrom (line++[c]) text

def lines (text : List Char) : List (List Char) := linesFrom [] text

theorem linesFrom_append (line front back : List Char) :
    ∃ first, linesFrom line (front ++ '\n'::back) = first++lines back := by
  induction front generalizing line with
  | nil => exact ⟨[stripReturn line],by simp [linesFrom,lines]⟩
  | cons c front ih =>
      by_cases hc : c = '\n'
      · obtain ⟨first,hfirst⟩ := ih []
        exact ⟨stripReturn line::first,by simp [linesFrom,hc,hfirst]⟩
      · obtain ⟨first,hfirst⟩ := ih (line++[c])
        exact ⟨first,by simp [linesFrom,hc,hfirst]⟩

/-- What follows a line feed has the same lines as a text of its own. -/
theorem lines_append (front back : List Char) :
    ∃ first, lines (front ++ '\n'::back) = first++lines back :=
  linesFrom_append [] front back

theorem count_le_length_linesFrom (line text : List Char) :
    text.count '\n' ≤ (linesFrom line text).length := by
  induction text generalizing line with
  | nil => simp
  | cons c text ih =>
      by_cases hc : c = '\n'
      · simpa [linesFrom,hc] using ih []
      · simpa [linesFrom,hc] using ih (line++[c])

theorem count_le_length_lines (text : List Char) : text.count '\n' ≤ (lines text).length :=
  count_le_length_linesFrom [] text

end Lines

section Last
variable {α : Type}

/-- The last elements of a list, at most so many. -/
def lastOf (n : Nat) (l : List α) : List α := l.drop (l.length-n)

theorem lastOf_append {n : Nat} {back : List α} (h : n ≤ back.length) (front : List α) :
    lastOf n (front++back) = lastOf n back := by
  unfold lastOf
  rw [List.length_append,List.drop_append,List.drop_eq_nil_of_le (by omega),List.nil_append]
  congr 1
  omega

end Last
end LossyText
