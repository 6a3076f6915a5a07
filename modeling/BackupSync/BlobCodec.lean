import BackupSync.ContentHash
import BackupSync.Framing

/-!
# Blob encodings

A blob holds the bytes of one file: as they are, compressed in chunks, or
encrypted in chunks with or without compression first. The first eight bytes
tell the encodings apart. Compression and the authenticated stream cipher are
parameters of which only their round trips and the growth of their outputs are
assumed.

The writer depends on the whole codec, the reader only on the key. A blob is
read back by every codec that holds the key it was written with, and by every
codec at all when it was not encrypted.
-/
namespace BackupSync
open Checks Framing ContentHash

/-- XChaCha20-Poly1305 in STREAM-BE32 form, one call per chunk, and zstd. -/
structure Primitives where
  encrypt : Bytes → Bytes → Nat → Bool → Bytes → Bytes
  decrypt : Bytes → Bytes → Nat → Bool → Bytes → Option Bytes
  compress : Int → Bytes → Bytes
  decompress : Bytes → Nat → Option Bytes
  decrypt_encrypt : ∀ key nonce i isLast pt,
    decrypt key nonce i isLast (encrypt key nonce i isLast pt) = some pt
  length_encrypt : ∀ key nonce i isLast pt, (encrypt key nonce i isLast pt).length = pt.length+16
  decompress_compress : ∀ level pt, pt ≠ [] → decompress (compress level pt) pt.length = some pt
  length_compress : ∀ level pt, (compress level pt).length ≤ pt.length+pt.length/256+64

/-- Primitives that only add the length of a tag; enough for inputs that are stored plain. -/
def Primitives.transparent : Primitives where
  encrypt _ _ _ _ pt := pt++List.replicate 16 0
  decrypt _ _ _ _ ct := if 16 ≤ ct.length then some (ct.take (ct.length-16)) else none
  compress _ pt := pt
  decompress ct n := if ct.length = n then some ct else none
  decrypt_encrypt _ _ _ _ pt := by simp
  length_encrypt _ _ _ _ pt := by simp
  decompress_compress _ pt _ := by simp
  length_compress _ pt := by omega

structure BlobCipher where
  key : Bytes
  chunkBytes : Nat
  deriving DecidableEq, Repr

structure BlobCodec where
  cipher : Option BlobCipher
  writeCompressionEnabled : Bool
  writeCompressionChunkBytes : Nat
  writeCompressionZstdLevel : Int
  deriving DecidableEq, Repr

inductive CodecError where
  | encryptedWithoutKey
  | unexpectedEof
  | unsupportedVersion (version : UInt8)
  | unsupportedAlgorithm (alg : UInt8)
  | encryptFailed
  | decryptFailed
  | payloadTooShort (bytes : Nat)
  | plaintextTooLong (bytes : Nat)
  | decompressFailed
  | chunkTooLarge (bytes : Nat)
  | plaintextChunkTooLarge (bytes : Nat)
  deriving DecidableEq, Repr

namespace BlobCodec

def encMagic : Bytes := "BSYNCENC".toList.map fun c => UInt8.ofNat c.toNat

def compMagic : Bytes := "BSYNCCMP".toList.map fun c => UInt8.ofNat c.toNat

def encVersion : UInt8 := 1

def algStream : UInt8 := 1

def algStreamZstdChunked : UInt8 := 2

def compVersion : UInt8 := 1

def compAlgZstdChunked : UInt8 := 1

def streamNonceLen : Nat := 19

def maxDecompressedChunkBytes : Nat := 8*1024*1024

def frameErrors : FrameErrors CodecError := ⟨.chunkTooLarge,.unexpectedEof⟩

section
variable (prim : Primitives)

/-- The stream refuses to seal another chunk at its last counter value. -/
def sealChunk (key nonce : Bytes) (position : Nat) (isLast : Bool) (pt : Bytes) :
    Except CodecError Bytes :=
  if !isLast && position == 0xFFFFFFFF then .error .encryptFailed
  else .ok (prim.encrypt key nonce position isLast pt)

def unsealChunk (key nonce : Bytes) (position : Nat) (isLast : Bool) (ct : Bytes) :
    Except CodecError Bytes :=
  if !isLast && position == 0xFFFFFFFF then .error .decryptFailed
  else match prim.decrypt key nonce position isLast ct with
    | some pt => .ok pt
    | none => .error .decryptFailed

def buildZstdPayload (pt : Bytes) (level : Int) : Except CodecError Bytes :=
  if pt.length > 0xFFFFFFFF then .error (.plaintextChunkTooLarge pt.length)
  else .ok (u32Bytes pt.length++if pt.isEmpty then [] else prim.compress level pt)

def bulkDecompress (ct : Bytes) (capacity : Nat) : Except CodecError Bytes :=
  match prim.decompress ct capacity with
  | some pt => .ok pt
  | none => .error .decompressFailed

def decompressZstdPayload (payload : Bytes) : Except CodecError Bytes :=
  if payload.length < 4 then .error (.payloadTooShort payload.length)
  else
    let ptLen := u32OfBytes (payload.take 4)
    let ct := payload.drop 4
    if ptLen > maxDecompressedChunkBytes then .error (.plaintextTooLong ptLen)
    else if ptLen = 0 ∧ ct.isEmpty then .ok []
    else bulkDecompress prim ct ptLen

def encChunk (key nonce : Bytes) (zstdLevel : Option Int) (i : Nat) (isLast : Bool) (pt : Bytes) :
    Except CodecError Bytes :=
  match zstdLevel with
  | none => sealChunk prim key nonce i isLast pt
  | some level => do
      let payload ← buildZstdPayload prim pt level
      sealChunk prim key nonce i isLast payload

def decChunk (key nonce : Bytes) (alg : UInt8) (i : Nat) (isLast : Bool) (ct : Bytes) :
    Except CodecError Bytes := do
  let decoded ← unsealChunk prim key nonce i isLast ct
  if alg = algStreamZstdChunked then decompressZstdPayload prim decoded else return decoded

/-- The loop over the reads of a source; an empty source is one empty last chunk. -/
def encodeChunks (enc : Nat → Bool → Bytes → Except CodecError Bytes) :
    List Bytes → Except CodecError Bytes
  | [] => encodeStream frameErrors enc 0 [] []
  | p::ps => encodeStream frameErrors enc 0 p ps

def encryptFileToWriterEncStream (key nonce : Bytes) (alg : UInt8) (zstdLevel : Option Int)
    (chunks : List Bytes) : Except CodecError Bytes := do
  let frames ← encodeChunks (encChunk prim key nonce zstdLevel) chunks
  return encMagic++[encVersion,alg]++nonce++frames

def compressFileToWriterZstdChunked (level : Int) (chunks : List Bytes) :
    Except CodecError Bytes := do
  let frames ← encodeChunks (fun _ _ pt => buildZstdPayload prim pt level) chunks
  return compMagic++[compVersion,compAlgZstdChunked]++frames

/-- The chunks a source yields; a read asks for at most limit bytes. -/
def sourceChunks (limit : Nat) (wishes : List Nat) (content : Bytes) : List Bytes :=
  readChunks (max 1 limit) content.length wishes content

def writeBlobFromFileToWriter (codec : BlobCodec) (nonce : Vector UInt8 streamNonceLen)
    (wishes : List Nat) (content : Bytes) : Except CodecError Bytes :=
  match codec.cipher with
  | some cipher =>
      let chunks := sourceChunks cipher.chunkBytes wishes content
      if codec.writeCompressionEnabled then
        encryptFileToWriterEncStream prim cipher.key nonce.toList algStreamZstdChunked
          (some codec.writeCompressionZstdLevel) chunks
      else encryptFileToWriterEncStream prim cipher.key nonce.toList algStream none chunks
  | none =>
      if codec.writeCompressionEnabled then
        compressFileToWriterZstdChunked prim codec.writeCompressionZstdLevel
          (sourceChunks codec.writeCompressionChunkBytes wishes content)
      else .ok content

def readEncryptedHeader (input : Bytes) : Except CodecError (UInt8 × Bytes × Bytes) := do
  let (head,input) ← readExact frameErrors 2 input
  let version := head.headD 0
  let alg := head.tail.headD 0
  require (version == encVersion) (.unsupportedVersion version)
  require (alg == algStream || alg == algStreamZstdChunked) (.unsupportedAlgorithm alg)
  let (nonce,rest) ← readExact frameErrors streamNonceLen input
  return (alg,nonce,rest)

def readCompressedHeader (input : Bytes) : Except CodecError Bytes := do
  let (head,rest) ← readExact frameErrors 2 input
  let version := head.headD 0
  let alg := head.tail.headD 0
  require (version == compVersion) (.unsupportedVersion version)
  require (alg == compAlgZstdChunked) (.unsupportedAlgorithm alg)
  return rest

/-- The decoding both readers of a blob share; one writes the bytes, one hashes them. -/
def decodeBlob (cipher : Option BlobCipher) (blob : Bytes) : Except CodecError Bytes :=
  if blob.take 8 = encMagic then
    match cipher with
    | none => .error .encryptedWithoutKey
    | some cipher => do
        let (alg,nonce,rest) ← readEncryptedHeader (blob.drop 8)
        decodeStream frameErrors (decChunk prim cipher.key nonce alg) (rest.length+1) 0 rest
  else if blob.take 8 = compMagic then do
    let rest ← readCompressedHeader (blob.drop 8)
    decodeStream frameErrors (fun _ _ => decompressZstdPayload prim) (rest.length+1) 0 rest
  else .ok blob

def copyBlobPlaintextToWriter (codec : BlobCodec) (blob : Bytes) : Except CodecError Bytes :=
  decodeBlob prim codec.cipher blob

def sha256PlaintextBlob (sha : Sha256) (codec : BlobCodec) (blob : Bytes) :
    Except CodecError Str := do
  let plaintext ← decodeBlob prim codec.cipher blob
  return sha256Hex sha plaintext

end

/-- The chunk sizes configuration validation admits. -/
structure Bounded (codec : BlobCodec) : Prop where
  cipher_le : ∀ cipher ∈ codec.cipher, cipher.chunkBytes ≤ maxDecompressedChunkBytes
  compression_le : codec.writeCompressionChunkBytes ≤ maxDecompressedChunkBytes

/-- The chunk sizes that matter are admitted; a codec that does not compress has no use for one. -/
structure Admitted (codec : BlobCodec) : Prop where
  cipher_le : ∀ cipher ∈ codec.cipher, cipher.chunkBytes ≤ maxDecompressedChunkBytes
  compression_le : codec.writeCompressionEnabled = true →
    codec.writeCompressionChunkBytes ≤ maxDecompressedChunkBytes

theorem Bounded.admitted {codec : BlobCodec} (h : codec.Bounded) : codec.Admitted :=
  ⟨h.cipher_le,fun _ => h.compression_le⟩

/-- Contents the reader would take for an encoding of its own. -/
def MagicPrefixed (content : Bytes) : Prop := encMagic <+: content ∨ compMagic <+: content

variable {prim : Primitives}

theorem unsealChunk_sealChunk {key nonce pt ct : Bytes} {i : Nat} {isLast : Bool}
    (h : sealChunk prim key nonce i isLast pt = .ok ct) :
    unsealChunk prim key nonce i isLast ct = .ok pt := by
  unfold sealChunk at h
  split at h
  · cases h
  · rename_i hn
    cases h
    rw [unsealChunk,if_neg hn,prim.decrypt_encrypt]

theorem decompress_buildZstdPayload {pt payload : Bytes} {level : Int}
    (h : buildZstdPayload prim pt level = .ok payload)
    (hlen : pt.length ≤ maxDecompressedChunkBytes) :
    decompressZstdPayload prim payload = .ok pt := by
  unfold buildZstdPayload at h
  split at h
  · cases h
  · cases h
    rw [maxDecompressedChunkBytes] at hlen
    have hhead : u32OfBytes (u32Bytes pt.length) = pt.length := u32OfBytes_u32Bytes (by omega)
    have htake : (u32Bytes pt.length++if pt.isEmpty then [] else prim.compress level pt).take 4 =
        u32Bytes pt.length := List.take_left' rfl
    have hdrop : (u32Bytes pt.length++if pt.isEmpty then [] else prim.compress level pt).drop 4 =
        if pt.isEmpty then [] else prim.compress level pt := List.drop_left' rfl
    unfold decompressZstdPayload
    rw [if_neg (by simp [u32Bytes])]
    dsimp only
    rw [htake,hdrop,hhead,if_neg (by rw [maxDecompressedChunkBytes]; omega)]
    cases pt with
    | nil => rfl
    | cons b pt =>
        have hd := prim.decompress_compress level (b::pt) (List.cons_ne_nil _ _)
        rw [if_neg (by simp)]
        change bulkDecompress prim (prim.compress level (b::pt)) (b::pt).length = _
        rw [bulkDecompress,hd]

/-- The algorithm byte that goes with a compression level. -/
def algOf (zstdLevel : Option Int) : UInt8 :=
  if zstdLevel.isSome then algStreamZstdChunked else algStream

theorem decChunk_encChunk {key nonce pt ct : Bytes} {zstdLevel : Option Int} {i : Nat}
    {isLast : Bool} (h : encChunk prim key nonce zstdLevel i isLast pt = .ok ct)
    (hlen : pt.length ≤ maxDecompressedChunkBytes) :
    decChunk prim key nonce (algOf zstdLevel) i isLast ct = .ok pt := by
  cases zstdLevel with
  | none => exact bind_eq_ok.mpr ⟨pt,unsealChunk_sealChunk h,rfl⟩
  | some level =>
      obtain ⟨payload,hp,hs⟩ := bind_eq_ok.mp h
      exact bind_eq_ok.mpr ⟨payload,unsealChunk_sealChunk hs,decompress_buildZstdPayload hp hlen⟩

theorem decode_encodeChunks {enc : Nat → Bool → Bytes → Except CodecError Bytes}
    {dec : Nat → Bool → Bytes → Except CodecError Bytes} {chunks : List Bytes} {frames : Bytes}
    (h : ∀ i isLast pt c, pt ∈ []::chunks → enc i isLast pt = .ok c → dec i isLast c = .ok pt)
    (hw : encodeChunks enc chunks = .ok frames) :
    decodeStream frameErrors dec (frames.length+1) 0 frames = .ok chunks.flatten := by
  have key := fun (p : Bytes) (ps : List Bytes) (hmem : ∀ q ∈ p::ps, q ∈ []::chunks)
      (hw : encodeStream frameErrors enc 0 p ps = .ok frames) =>
    @decodeStream_encodeStream _ _ frameErrors enc dec id 0 p ps frames
      (fun j isLast q c hq => h j isLast q c (hmem q hq)) hw _ (Nat.lt_succ_self _) []
  cases chunks with
  | nil => simpa using key [] [] (by simp) hw
  | cons p ps =>
      simpa [List.flatMap_id'] using key p ps (fun q hq => List.mem_cons_of_mem _ hq) hw

theorem readEncryptedHeader_append {nonce rest : Bytes} (zstdLevel : Option Int)
    (hn : nonce.length = streamNonceLen) :
    readEncryptedHeader ([encVersion,algOf zstdLevel]++nonce++rest) =
      .ok (algOf zstdLevel,nonce,rest) := by
  rw [List.append_assoc]
  refine bind_eq_ok.mpr ⟨_,readExact_append (rfl : [encVersion,algOf zstdLevel].length = 2) _,?_⟩
  refine then_eq_ok.mpr ⟨rfl,then_eq_ok.mpr ⟨?_,bind_eq_ok.mpr ⟨_,readExact_append hn rest,rfl⟩⟩⟩
  cases zstdLevel <;> rfl

theorem decodeBlob_encrypted {cipher : BlobCipher} {nonce blob : Bytes} {zstdLevel : Option Int}
    {chunks : List Bytes} (hn : nonce.length = streamNonceLen)
    (hlen : ∀ c ∈ chunks, c.length ≤ maxDecompressedChunkBytes)
    (h : encryptFileToWriterEncStream prim cipher.key nonce (algOf zstdLevel) zstdLevel chunks =
      .ok blob) {reader : BlobCipher} (hk : reader.key = cipher.key) :
    decodeBlob prim (some reader) blob = .ok chunks.flatten := by
  obtain ⟨frames,hf,h⟩ := bind_eq_ok.mp h
  cases h
  have htake : (encMagic++[encVersion,algOf zstdLevel]++nonce++frames).take 8 = encMagic := by
    rw [List.append_assoc,List.append_assoc]
    exact List.take_left' rfl
  have hdrop : (encMagic++[encVersion,algOf zstdLevel]++nonce++frames).drop 8 =
      [encVersion,algOf zstdLevel]++nonce++frames := by
    rw [List.append_assoc,List.append_assoc,List.append_assoc]
    exact List.drop_left' rfl
  unfold decodeBlob
  rw [if_pos htake,hdrop]
  refine bind_eq_ok.mpr ⟨_,readEncryptedHeader_append zstdLevel hn,?_⟩
  rw [hk]
  refine decode_encodeChunks ?_ hf
  intro i isLast pt c hpt hc
  refine decChunk_encChunk hc ?_
  rcases List.mem_cons.mp hpt with rfl | hpt
  · exact Nat.zero_le _
  · exact hlen pt hpt

theorem decodeBlob_compressed {blob : Bytes} {level : Int} {chunks : List Bytes}
    (hlen : ∀ c ∈ chunks, c.length ≤ maxDecompressedChunkBytes)
    (h : compressFileToWriterZstdChunked prim level chunks = .ok blob)
    (reader : Option BlobCipher) : decodeBlob prim reader blob = .ok chunks.flatten := by
  obtain ⟨frames,hf,h⟩ := bind_eq_ok.mp h
  cases h
  have htake : (compMagic++[compVersion,compAlgZstdChunked]++frames).take 8 = compMagic := by
    rw [List.append_assoc]
    exact List.take_left' rfl
  have hdrop : (compMagic++[compVersion,compAlgZstdChunked]++frames).drop 8 =
      [compVersion,compAlgZstdChunked]++frames := by
    rw [List.append_assoc]
    exact List.drop_left' rfl
  unfold decodeBlob
  rw [if_neg (by rw [htake]; decide),if_pos htake,hdrop]
  have hhead : readCompressedHeader ([compVersion,compAlgZstdChunked]++frames) = .ok frames :=
    bind_eq_ok.mpr ⟨_,readExact_append
      (rfl : [compVersion,compAlgZstdChunked].length = 2) frames,rfl⟩
  refine bind_eq_ok.mpr ⟨frames,hhead,decode_encodeChunks ?_ hf⟩
  intro i isLast pt c hpt hc
  refine decompress_buildZstdPayload hc ?_
  rcases List.mem_cons.mp hpt with rfl | hpt
  · exact Nat.zero_le _
  · exact hlen pt hpt

theorem decodeBlob_plain {content : Bytes} (h : ¬ MagicPrefixed content)
    (reader : Option BlobCipher) : decodeBlob prim reader content = .ok content := by
  have hpre : ∀ {magic : Bytes}, magic.length = 8 → content.take 8 = magic → magic <+: content := by
    rintro magic - rfl
    exact List.take_prefix 8 content
  unfold decodeBlob
  rw [if_neg fun he => h (.inl (hpre rfl he)),if_neg fun he => h (.inr (hpre rfl he))]

theorem flatten_sourceChunks (limit : Nat) (wishes : List Nat) (content : Bytes) :
    (sourceChunks limit wishes content).flatten = content :=
  flatten_readChunks (Nat.le_refl _)

theorem length_of_mem_sourceChunks {limit : Nat} {wishes : List Nat} {content c : Bytes}
    (hl : limit ≤ maxDecompressedChunkBytes) (h : c ∈ sourceChunks limit wishes content) :
    c.length ≤ maxDecompressedChunkBytes := by
  have hc := length_of_mem_readChunks (Nat.le_max_left 1 limit) h
  have hmax : 1 ≤ maxDecompressedChunkBytes := by decide
  omega

/-- A written blob is read back with the same key, or with any when it is not encrypted. -/
theorem decodeBlob_writeBlob {codec : BlobCodec} {nonce : Vector UInt8 streamNonceLen}
    {wishes : List Nat} {content blob : Bytes} (hb : codec.Admitted)
    (hm : codec.cipher = none → codec.writeCompressionEnabled = false → ¬ MagicPrefixed content)
    (hw : writeBlobFromFileToWriter prim codec nonce wishes content = .ok blob)
    {reader : Option BlobCipher}
    (hk : ∀ cipher ∈ codec.cipher, ∃ c ∈ reader, c.key = cipher.key) :
    decodeBlob prim reader blob = .ok content := by
  unfold writeBlobFromFileToWriter at hw
  cases hc : codec.cipher with
  | none =>
      rw [hc] at hw
      cases hz : codec.writeCompressionEnabled with
      | false =>
          simp only [hz,Bool.false_eq_true,if_false] at hw
          cases hw
          exact decodeBlob_plain (hm hc hz) reader
      | true =>
          simp only [hz,if_true] at hw
          have h := decodeBlob_compressed
            (fun c hc => length_of_mem_sourceChunks (hb.compression_le hz) hc) hw reader
          rwa [flatten_sourceChunks] at h
  | some cipher =>
      obtain ⟨c,rfl,hkey⟩ := hk cipher hc
      have hlen : ∀ d ∈ sourceChunks cipher.chunkBytes wishes content,
          d.length ≤ maxDecompressedChunkBytes :=
        fun d hd => length_of_mem_sourceChunks (hb.cipher_le cipher hc) hd
      have hn : nonce.toList.length = streamNonceLen := Vector.length_toList
      rw [hc] at hw
      rw [← flatten_sourceChunks cipher.chunkBytes wishes content]
      cases hz : codec.writeCompressionEnabled with
      | false =>
          simp only [hz,Bool.false_eq_true,if_false] at hw
          exact @decodeBlob_encrypted prim cipher _ blob none _ hn hlen hw c hkey
      | true =>
          simp only [hz,if_true] at hw
          exact @decodeBlob_encrypted prim cipher _ blob (some codec.writeCompressionZstdLevel) _
            hn hlen hw c hkey

/-- Every chunk but the last leaves the counter of the stream below its end. -/
def fitsCounter (codec : BlobCodec) (wishes : List Nat) (content : Bytes) : Prop :=
  ∀ cipher ∈ codec.cipher, (sourceChunks cipher.chunkBytes wishes content).length ≤ 0x100000000

/-- The stream has no counter value left for another chunk. -/
theorem encChunk_exhausted (key nonce pt : Bytes) (zstdLevel : Option Int) :
    ¬ ∃ c, encChunk prim key nonce zstdLevel 0xFFFFFFFF false pt = .ok c := by
  rintro ⟨c,hc⟩
  have hseal : ∀ payload, sealChunk prim key nonce 0xFFFFFFFF false payload = .error .encryptFailed :=
    fun payload => rfl
  cases zstdLevel with
  | none =>
      rw [encChunk,hseal] at hc
      cases hc
  | some level =>
      obtain ⟨payload,-,hc⟩ := bind_eq_ok.mp hc
      rw [hseal] at hc
      cases hc

theorem length_le_of_encrypted {key nonce blob : Bytes} {alg : UInt8} {zstdLevel : Option Int}
    {chunks : List Bytes}
    (h : encryptFileToWriterEncStream prim key nonce alg zstdLevel chunks = .ok blob) :
    chunks.length ≤ 0x100000000 := by
  obtain ⟨frames,hframes,-⟩ := bind_eq_ok.mp h
  cases chunks with
  | nil => exact Nat.zero_le _
  | cons p ps =>
      by_contra hlong
      rw [List.length_cons] at hlong
      obtain ⟨q,c,hc⟩ := exists_of_encodeStream_ok hframes (by omega : 0xFFFFFFFF < ps.length)
      rw [Nat.zero_add] at hc
      exact encChunk_exhausted key nonce q zstdLevel ⟨c,hc⟩

theorem fitsCounter_of_writeBlob {codec : BlobCodec} {nonce : Vector UInt8 streamNonceLen}
    {wishes : List Nat} {content blob : Bytes}
    (h : writeBlobFromFileToWriter prim codec nonce wishes content = .ok blob) :
    codec.fitsCounter wishes content := by
  intro cipher hcipher
  unfold writeBlobFromFileToWriter at h
  rw [hcipher] at h
  dsimp only at h
  split at h
  · exact length_le_of_encrypted h
  · exact length_le_of_encrypted h

theorem buildZstdPayload_ok {pt : Bytes} (level : Int)
    (h : pt.length ≤ maxDecompressedChunkBytes) :
    ∃ payload, buildZstdPayload prim pt level = .ok payload ∧
      payload.length ≤ pt.length+pt.length/256+68 := by
  rw [maxDecompressedChunkBytes] at h
  refine ⟨_,if_neg (by omega),?_⟩
  have hc := prim.length_compress level pt
  rw [List.length_append]
  have hhead : (u32Bytes pt.length).length = 4 := rfl
  split
  · rw [List.length_nil]
    omega
  · omega

theorem encodeChunks_ok {enc : Nat → Bool → Bytes → Except CodecError Bytes} {chunks : List Bytes}
    (h : ∀ i isLast pt, pt ∈ []::chunks → (isLast = false → i+1 < chunks.length) →
      ∃ c, enc i isLast pt = .ok c ∧ c.length ≤ maxFrameBytes) :
    ∃ frames, encodeChunks enc chunks = .ok frames := by
  cases chunks with
  | nil =>
      refine encodeStream_ok ?_
      intro j isLast q hq hj
      refine h j isLast q hq fun hl => ?_
      exact absurd (hj hl) (by simp)
  | cons p ps =>
      refine encodeStream_ok ?_
      intro j isLast q hq hj
      refine h j isLast q (List.mem_cons_of_mem _ hq) fun hl => ?_
      have := hj hl
      rw [List.length_cons]
      omega

theorem encChunk_ok {key nonce pt : Bytes} {i : Nat} {isLast : Bool} (zstdLevel : Option Int)
    (h : pt.length ≤ maxDecompressedChunkBytes) (hi : isLast = false → i < 0xFFFFFFFF) :
    ∃ c, encChunk prim key nonce zstdLevel i isLast pt = .ok c ∧ c.length ≤ maxFrameBytes := by
  have hcounter : ¬ (!isLast && i == 0xFFFFFFFF) = true := by
    cases isLast with
    | true => simp
    | false =>
        have := hi rfl
        simp
        omega
  rw [maxDecompressedChunkBytes] at h
  cases zstdLevel with
  | none =>
      refine ⟨_,if_neg hcounter,?_⟩
      rw [prim.length_encrypt,maxFrameBytes]
      omega
  | some level =>
      obtain ⟨payload,hp,hlen⟩ := @buildZstdPayload_ok prim pt level h
      refine ⟨_,bind_eq_ok.mpr ⟨payload,hp,if_neg hcounter⟩,?_⟩
      rw [prim.length_encrypt,maxFrameBytes]
      omega

/-- Writing fails only where the counter of the stream runs out. -/
theorem writeBlob_ok {codec : BlobCodec} (nonce : Vector UInt8 streamNonceLen) {wishes : List Nat}
    {content : Bytes} (hb : codec.Admitted) (hf : codec.fitsCounter wishes content) :
    ∃ blob, writeBlobFromFileToWriter prim codec nonce wishes content = .ok blob := by
  unfold writeBlobFromFileToWriter
  cases hc : codec.cipher with
  | none =>
      cases hz : codec.writeCompressionEnabled with
      | false => exact ⟨content,rfl⟩
      | true =>
          obtain ⟨frames,hw⟩ := @encodeChunks_ok
            (fun _ _ pt => buildZstdPayload prim pt codec.writeCompressionZstdLevel)
            (sourceChunks codec.writeCompressionChunkBytes wishes content) (by
              intro i isLast pt hpt _
              have hlen : pt.length ≤ maxDecompressedChunkBytes := by
                rcases List.mem_cons.mp hpt with rfl | hpt
                · exact Nat.zero_le _
                · exact length_of_mem_sourceChunks (hb.compression_le hz) hpt
              obtain ⟨payload,hp,hle⟩ := @buildZstdPayload_ok prim pt
                codec.writeCompressionZstdLevel hlen
              rw [maxDecompressedChunkBytes] at hlen
              exact ⟨payload,hp,by rw [maxFrameBytes]; omega⟩)
          exact ⟨_,bind_eq_ok.mpr ⟨frames,hw,rfl⟩⟩
  | some cipher =>
      have hcount := hf cipher hc
      have henc : ∀ zstdLevel, ∃ frames, encodeChunks
          (encChunk prim cipher.key nonce.toList zstdLevel)
          (sourceChunks cipher.chunkBytes wishes content) = .ok frames := by
        intro zstdLevel
        refine encodeChunks_ok ?_
        intro i isLast pt hpt hi
        refine encChunk_ok zstdLevel ?_ (fun hl => ?_)
        · rcases List.mem_cons.mp hpt with rfl | hpt
          · exact Nat.zero_le _
          · exact length_of_mem_sourceChunks (hb.cipher_le cipher hc) hpt
        · have := hi hl
          omega
      cases hz : codec.writeCompressionEnabled with
      | false =>
          obtain ⟨frames,hw⟩ := henc none
          exact ⟨_,bind_eq_ok.mpr ⟨frames,hw,rfl⟩⟩
      | true =>
          obtain ⟨frames,hw⟩ := henc (some codec.writeCompressionZstdLevel)
          exact ⟨_,bind_eq_ok.mpr ⟨frames,hw,rfl⟩⟩

end BlobCodec
end BackupSync
