import BackupSync.RelativePath

/-!
# Content hashes and blob names

SHA-256 is a parameter: a function from byte strings to 32 bytes and nothing
more. Its lower-case hexadecimal form is the name of a blob and the hash field
of a manifest entry, and it also names the directory of a source.

A well-formed hash leads to a blob below a directory of two characters, and the
last component of the path is the hash itself. Malformed text is redirected to
the name of its own digest below an invalid directory.
-/
namespace BackupSync

abbrev Bytes := List UInt8

instance lawfulBEqBytes : LawfulBEq Bytes := inferInstance

structure Sha256 where
  digest : Bytes → Bytes
  digest_length : ∀ input, (digest input).length = 32

/-- A digest given on finitely many inputs; it is zero elsewhere. -/
def Sha256.ofTable (table : List (Bytes × Vector UInt8 32)) : Sha256 where
  digest input := ((table.lookup input).getD (Vector.replicate 32 0)).toList
  digest_length _ := Vector.length_toList

/-- A digest with other values on finitely many inputs. -/
def Sha256.updated (sha : Sha256) (table : List (Bytes × Vector UInt8 32)) : Sha256 where
  digest input := ((table.lookup input).map Vector.toList).getD (sha.digest input)
  digest_length input := by
    cases table.lookup input with
    | none => exact sha.digest_length input
    | some value => exact Vector.length_toList

namespace ContentHash

def hexByte (b : UInt8) : Str := [Nat.digitChar (b.toNat/16),Nat.digitChar (b.toNat%16)]

def hexLower (bytes : Bytes) : Str := bytes.flatMap hexByte

def isHexByte (c : Char) : Bool := c.isDigit || ('a' ≤ c && c ≤ 'f')

def isLowerHexSha256 (hash : Str) : Bool := hash.length == 64 && hash.all isHexByte

/-- The bytes of a text as the standard library stores it. -/
def utf8 (s : Str) : Bytes := s.flatMap String.utf8EncodeChar

/-- A path below the blob root, by components. -/
abbrev BlobPath := List Str

section
variable (sha : Sha256)

def sha256Hex (input : Bytes) : Str := hexLower (sha.digest input)

def blobPath (hash : Str) : BlobPath :=
  if isLowerHexSha256 hash then [hash.take 2,hash]
  else ["__invalid__".toList,sha256Hex sha (utf8 hash)]

/-- The directory name of a source below the sources root. -/
def sourceId (sourcePath : Str) : Str := sha256Hex sha (utf8 sourcePath)

end

theorem length_hexLower (bytes : Bytes) : (hexLower bytes).length = 2*bytes.length := by
  induction bytes with
  | nil => rfl
  | cons b bytes ih =>
      change (hexByte b++hexLower bytes).length = _
      rw [List.length_append,ih,List.length_cons]
      change 2+2*bytes.length = _
      omega

theorem isHexByte_digitChar : ∀ n < 16, isHexByte (Nat.digitChar n) = true := by decide

theorem all_hexLower (bytes : Bytes) : (hexLower bytes).all isHexByte = true := by
  rw [List.all_eq_true]
  intro c hc
  obtain ⟨b,-,hb⟩ := List.mem_flatMap.mp hc
  have hlt := b.toNat_lt
  rcases List.mem_cons.mp hb with rfl | hb
  · exact isHexByte_digitChar _ (by omega)
  · obtain rfl := List.mem_singleton.mp hb
    exact isHexByte_digitChar _ (by omega)

variable {sha : Sha256}

@[simp] theorem isLowerHexSha256_sha256Hex (input : Bytes) :
    isLowerHexSha256 (sha256Hex sha input) = true := by
  rw [isLowerHexSha256,sha256Hex,length_hexLower,sha.digest_length,all_hexLower]
  rfl

theorem blobPath_of_lowerHex {hash : Str} (h : isLowerHexSha256 hash = true) :
    blobPath sha hash = [hash.take 2,hash] := if_pos h

/-- Distinct well-formed hashes name distinct blobs. -/
theorem blobPath_injective {hash hash' : Str} (h : isLowerHexSha256 hash = true)
    (h' : isLowerHexSha256 hash' = true) (he : blobPath sha hash = blobPath sha hash') :
    hash = hash' := by
  rw [blobPath_of_lowerHex h,blobPath_of_lowerHex h'] at he
  exact (List.cons.inj (List.cons.inj he).2).1

end ContentHash
end BackupSync
