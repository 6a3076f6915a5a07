import BackupSync.StoreCompleteness
import BackupSync.BlobReaders

/-!
# Written blobs are read back

The writer with its two buffers produces the frames of the chunks its reads deliver,
so a framed blob is read back by every reader with the key, whatever the two sides'
reads deliver. A plain blob is its content, and it is read back unless the content
looks like a framed blob itself.
-/
namespace BackupSync
open Checks Interruptible Framing ContentHash BlobCodec SafetyBaseline BackupFolder
  StoreCompleteness BlobReaders

namespace BlobRoundTrip

variable {sha : Sha256} {prim : Primitives}

section Write
variable {enc : Nat → Bool → Bytes → Except CodecError Bytes} {limit fuel position total : Nat}
  {bufA bufB out p : Bytes} {file : ByteSource}

theorem length_overwrite {buf got : Bytes} (h : got.length ≤ buf.length) :
    (BlobStreams.overwrite buf got).length = buf.length := by
  simp only [BlobStreams.overwrite,List.length_append,List.length_drop]
  omega

theorem take_overwrite (buf got : Bytes) : (BlobStreams.overwrite buf got).take got.length = got :=
  List.take_left

theorem frameLoop_last (hrest : file.rest = []) (hp : bufA.take p.length = p) :
    BlobStreams.frameLoop enc (fuel+1) position bufA p.length bufB total out file =
      (fun w => (saturatingAdd total p.length,out++w)) <$> encodeStream frameErrors enc position p [] := by
  have hread : (file.read bufB.length).1 = [] := by simp [ByteSource.read,hrest]
  rw [BlobStreams.frameLoop]
  dsimp only
  rw [hread,hp,encodeStream]
  change (do let chunk ← enc position true p; _ : Except CodecError (Nat × Bytes)) = _
  cases enc position true p with
  | error e => rfl
  | ok chunk =>
      change (do let frame ← writeFramedChunk frameErrors chunk true; _ : Except CodecError (Nat × Bytes)) =
        _ <$> writeFramedChunk frameErrors chunk true
      cases writeFramedChunk frameErrors chunk true with
      | error e => rfl
      | ok frame => rfl

/-- The first buffer holds the chunk to be written, and the chunks after it are still to be read. -/
theorem frameLoop_eq (hl : 1 ≤ limit) (hA : bufA.length = limit) (hB : bufB.length = limit)
    (hp : bufA.take p.length = p) (hfuel : file.rest.length ≤ fuel) :
    BlobStreams.frameLoop enc (fuel+1) position bufA p.length bufB total out file =
      (fun w => (saturatingAdd total (p::readChunks limit fuel file.wishes file.rest).flatten.length,
        out++w)) <$>
      encodeStream frameErrors enc position p (readChunks limit fuel file.wishes file.rest) := by
  induction fuel generalizing position bufA bufB total out p file with
  | zero =>
      have hrest : file.rest = [] := List.eq_nil_of_length_eq_zero (Nat.le_zero.mp hfuel)
      rw [hrest,readChunks,frameLoop_last hrest hp,List.flatten_singleton]
  | succ fuel ih =>
      by_cases hrest : file.rest = []
      · rw [hrest,readChunks,frameLoop_last hrest hp,List.flatten_singleton]
      · have happend := file.read_append limit
        have hlength := file.length_read_le limit
        have hgot : (file.read limit).1 ≠ [] := fun h => hrest ((ByteSource.read_eq_nil hl).mp h)
        have hpos := List.length_pos_iff.mpr hgot
        rw [readChunks_cons hl hrest,BlobStreams.frameLoop,hB]
        generalize file.read limit = got at happend hlength hgot hpos
        obtain ⟨got,src⟩ := got
        dsimp only at happend hlength hgot hpos ⊢
        have hmore : (got.length == 0) = false := beq_eq_false_iff_ne.mpr (by omega)
        have hsrc : src.rest.length ≤ fuel := by
          have h := congrArg List.length happend
          rw [List.length_append] at h
          omega
        rw [hmore,hp,encodeStream]
        cases enc position false p with
        | error e => rfl
        | ok chunk =>
            change (do let frame ← writeFramedChunk frameErrors chunk false; _ :
              Except CodecError (Nat × Bytes)) = _ <$> (do
                let w ← writeFramedChunk frameErrors chunk false; _ : Except CodecError Bytes)
            cases writeFramedChunk frameErrors chunk false with
            | error e => rfl
            | ok frame =>
                have hnext := @ih (position+1) (saturatingAdd total p.length)
                  (BlobStreams.overwrite bufB got) bufA (out++frame) got src
                  (by rw [length_overwrite (by omega),hB]) hA (take_overwrite bufB got) hsrc
                change BlobStreams.frameLoop enc (fuel+1) (position+1) (BlobStreams.overwrite bufB got)
                  got.length bufA (saturatingAdd total p.length) (out++frame) src = _
                rw [hnext,saturatingAdd_add]
                cases encodeStream frameErrors enc (position+1) got
                    (readChunks limit fuel src.wishes src.rest) with
                | error e => rfl
                | ok w =>
                    change Except.ok (_,out++frame++w) = Except.ok (_,out++(frame++w))
                    simp only [List.append_assoc,List.flatten_cons,List.length_append]

/-- The frames written are those of the chunks that the reads deliver. -/
theorem writeFrames_eq (enc : Nat → Bool → Bytes → Except CodecError Bytes) (chunkBytes : Nat)
    (out content : Bytes) (wishes : List Nat) :
    BlobStreams.writeFrames enc chunkBytes out ⟨content,wishes⟩ =
      (fun frames => (saturatingAdd 0 content.length,out++frames)) <$>
        encodeChunks enc (sourceChunks chunkBytes wishes content) := by
  have hmap : ∀ x : Except CodecError Bytes, (do
      let chunk ← x
      let frame ← writeFramedChunk frameErrors chunk true
      return (0,out++frame) : Except CodecError (Nat × Bytes)) =
      (fun frames => (saturatingAdd 0 0,out++frames)) <$> (do
        let chunk ← x
        writeFramedChunk frameErrors chunk true) := by
    intro x
    cases x with
    | error e => rfl
    | ok chunk =>
        change (do let frame ← writeFramedChunk frameErrors chunk true; _ : Except CodecError _) =
          _ <$> writeFramedChunk frameErrors chunk true
        cases writeFramedChunk frameErrors chunk true with
        | error e => rfl
        | ok frame => rfl
  cases content with
  | nil =>
      have hread : ((⟨[],wishes⟩ : ByteSource).read
          (List.replicate (max chunkBytes 1) (0 : UInt8)).length).1 = [] := by simp [ByteSource.read]
      unfold BlobStreams.writeFrames
      dsimp only
      rw [hread]
      exact hmap (enc 0 true [])
  | cons b content =>
      have hlen : (List.replicate (max chunkBytes 1) (0 : UInt8)).length = max 1 chunkBytes := by
        rw [List.length_replicate,Nat.max_comm]
      have hl : 1 ≤ max 1 chunkBytes := Nat.le_max_left _ _
      have hne : (⟨b::content,wishes⟩ : ByteSource).rest ≠ [] := List.cons_ne_nil _ _
      have hchunks := @readChunks_cons (max 1 chunkBytes) content.length ⟨b::content,wishes⟩ hl hne
      have hflat := @flatten_sourceChunks chunkBytes wishes (b::content)
      have happend := (⟨b::content,wishes⟩ : ByteSource).read_append (max 1 chunkBytes)
      have hlength := (⟨b::content,wishes⟩ : ByteSource).length_read_le (max 1 chunkBytes)
      have hgot := fun h => hne ((@ByteSource.read_eq_nil _ ⟨b::content,wishes⟩ hl).mp h)
      have hpos := List.length_pos_iff.mpr hgot
      unfold sourceChunks at hflat ⊢
      unfold BlobStreams.writeFrames
      dsimp only at hchunks hflat happend ⊢
      rw [List.length_cons] at hflat ⊢
      rw [hchunks] at hflat ⊢
      rw [hlen]
      generalize (⟨b::content,wishes⟩ : ByteSource).read (max 1 chunkBytes) = got at *
      obtain ⟨got,src⟩ := got
      dsimp only at *
      have hsrc : src.rest.length ≤ content.length := by
        have h := congrArg List.length happend
        rw [List.length_append,List.length_cons] at h
        omega
      rw [if_neg (by omega),encodeChunks,frameLoop_eq hl (by rw [length_overwrite (by omega),hlen]) hlen
        (take_overwrite _ got) hsrc,hflat,List.length_cons]

/-- The writer with its buffers writes what the chunks of its reads encode to. -/
theorem writeBlob_eq (codec : BlobCodec) (nonce : Vector UInt8 streamNonceLen) (content : Bytes)
    (wishes : List Nat) :
    BlobStreams.writeBlobFromFileToWriter prim codec nonce ⟨content,wishes⟩ =
      (fun blob => (saturatingAdd 0 content.length,blob)) <$>
        writeBlobFromFileToWriter prim codec nonce wishes content := by
  have hframes : ∀ (enc : Nat → Bool → Bytes → Except CodecError Bytes) (chunkBytes : Nat) (out : Bytes),
      BlobStreams.writeFrames enc chunkBytes out ⟨content,wishes⟩ =
        (fun blob => (saturatingAdd 0 content.length,blob)) <$> (do
          let frames ← encodeChunks enc (sourceChunks chunkBytes wishes content)
          return out++frames) := by
    intro enc chunkBytes out
    rw [writeFrames_eq]
    cases encodeChunks enc (sourceChunks chunkBytes wishes content) with
    | error e => rfl
    | ok frames => rfl
  unfold BlobStreams.writeBlobFromFileToWriter writeBlobFromFileToWriter
  cases codec.cipher with
  | none =>
      cases codec.writeCompressionEnabled with
      | false => exact congrArg Except.ok (copyPlainStream_eq [] ⟨content,wishes⟩)
      | true => exact hframes _ _ _
  | some cipher =>
      cases codec.writeCompressionEnabled with
      | false => exact hframes _ _ _
      | true => exact hframes _ _ _

end Write

section Settings
variable {cfg : BlobConfig} {probe probe' : KeyProbe} {codec : BlobCodec}

theorem cipher_of_fromConfig (hcodec : BlobStreams.fromConfig sha cfg probe = .ok codec) :
    codec.cipher.isSome = cfg.encryption.enabled ∧ ∀ cipher ∈ codec.cipher, cipher.chunkBytes =
      if cfg.compression.enabled then max cfg.compression.blobChunkBytes 1
      else max cfg.encryption.blobChunkBytes 1 := by
  obtain ⟨cipher,hcipher,hcodec⟩ := bind_eq_ok.mp hcodec
  cases hcodec
  unfold BlobStreams.cipherFromConfig at hcipher
  split at hcipher
  · rename_i henabled
    obtain ⟨-,hcipher⟩ := then_eq_ok.mp hcipher
    obtain ⟨info,-,hcipher⟩ := bind_eq_ok.mp hcipher
    cases hcipher
    refine ⟨henabled.symm,?_⟩
    rintro cipher ⟨⟩
    rfl
  · rename_i henabled
    cases hcipher
    exact ⟨(Bool.eq_false_iff.mpr henabled).symm,by simp⟩

/-- The chunk sizes of a validated configuration are those the reader accepts. -/
theorem admitted_of_validate (hvalid : BlobStreams.validateBlobConfig sha cfg probe = .ok ())
    (hcodec : BlobStreams.fromConfig sha cfg probe' = .ok codec) : codec.Admitted := by
  obtain ⟨hcomp,henc⟩ := then_eq_ok.mp hvalid
  obtain ⟨hsome,hchunk⟩ := cipher_of_fromConfig hcodec
  have hcompression : cfg.compression.enabled = true →
      cfg.compression.blobChunkBytes ≤ maxDecompressedChunkBytes := by
    intro henabled
    rw [BlobStreams.validateCompression,if_pos henabled] at hcomp
    obtain ⟨-,hcomp⟩ := then_eq_ok.mp hcomp
    obtain ⟨hle,-⟩ := then_eq_ok.mp hcomp
    exact of_decide_eq_true (require_eq_ok.mp hle)
  have hencryption : cfg.encryption.enabled = true →
      cfg.encryption.blobChunkBytes ≤ maxDecompressedChunkBytes := by
    intro henabled
    rw [BlobStreams.validateEncryption,if_pos henabled] at henc
    obtain ⟨-,henc⟩ := then_eq_ok.mp henc
    obtain ⟨hle,-⟩ := then_eq_ok.mp henc
    exact of_decide_eq_true (require_eq_ok.mp hle)
  have hone : 1 ≤ maxDecompressedChunkBytes := by decide
  constructor
  · intro cipher hcipher
    rw [hchunk cipher hcipher]
    split
    · rename_i henabled
      exact Nat.max_le.mpr ⟨hcompression henabled,hone⟩
    · refine Nat.max_le.mpr ⟨hencryption ?_,hone⟩
      rw [← hsome,hcipher]
      rfl
  · intro henabled
    obtain ⟨cipher,-,hcodec⟩ := bind_eq_ok.mp hcodec
    cases hcodec
    exact Nat.max_le.mpr ⟨hcompression henabled,hone⟩

end Settings

/-- In each framed mode, with any admitted chunk size, writing succeeds, and every codec that holds
the key of an encrypted blob reads back the content, however the reads of the two are split. -/
theorem framed_blob_read_back (sha : Sha256) (prim : Primitives) (cfg : BlobConfig)
    (probe probe' : KeyProbe) (codec reader : BlobCodec) (nonce : Vector UInt8 streamNonceLen)
    (content : Bytes) (wishes readWishes : List Nat)
    (hvalid : BlobStreams.validateBlobConfig sha cfg probe = .ok ())
    (hcodec : BlobStreams.fromConfig sha cfg probe' = .ok codec)
    (hframed : cfg.encryption.enabled = true ∨ cfg.compression.enabled = true)
    (hkey : ∀ cipher ∈ codec.cipher, ∃ c ∈ reader.cipher, c.key = cipher.key)
    (hcount : codec.fitsCounter wishes content) :
    ∃ total blob, BlobStreams.writeBlobFromFileToWriter prim codec nonce ⟨content,wishes⟩ =
        .ok (total,blob) ∧
      BlobStreams.copyBlobPlaintextToWriter prim reader ⟨blob,readWishes⟩ = .ok (total,content) := by
  have hadmitted := admitted_of_validate hvalid hcodec
  obtain ⟨blob,hblob⟩ := @writeBlob_ok prim codec nonce wishes content hadmitted hcount
  have hplain : codec.cipher = none → codec.writeCompressionEnabled = false → ¬ MagicPrefixed content := by
    intro hnone hoff
    obtain ⟨hsome,-⟩ := cipher_of_fromConfig hcodec
    obtain ⟨cipher,-,hcodec⟩ := bind_eq_ok.mp hcodec
    cases hcodec
    rcases hframed with henabled | henabled
    · rw [hnone,henabled] at hsome
      cases hsome
    · exact absurd (henabled.symm.trans hoff) (by decide)
  have hdecode := decodeBlob_writeBlob hadmitted hplain hblob hkey
  refine ⟨saturatingAdd 0 content.length,blob,?_,?_⟩
  · rw [writeBlob_eq,hblob]
    rfl
  · rw [BlobStreams.copyBlobPlaintextToWriter,copyBlob_eq,hdecode]
    rfl

/-- Primitives whose compressed chunks are zstd frames of one uncompressed block, as zstd itself
writes very short inputs. -/
def storedFrames : Primitives where
  encrypt := Primitives.transparent.encrypt
  decrypt := Primitives.transparent.decrypt
  compress _ pt := [0x28,0xB5,0x2F,0xFD,0x20,UInt8.ofNat pt.length,UInt8.ofNat (8*pt.length+1),0,0]++pt
  decompress ct n := if ct.length = n+9 then some (ct.drop 9) else none
  decrypt_encrypt := Primitives.transparent.decrypt_encrypt
  length_encrypt := Primitives.transparent.length_encrypt
  decompress_compress _ pt _ := by simp
  length_compress _ pt := by
    simp only [List.length_append,List.length_cons,List.length_nil]
    omega

/-- Compression in chunks of a single byte. -/
def byteChunks : BlobConfig := ⟨⟨false,none,1⟩,⟨true,1,3⟩⟩

theorem framed_blob_read_back_two_chunks : ∃ total blob,
    BlobStreams.writeBlobFromFileToWriter storedFrames ⟨none,true,1,3⟩ (Vector.replicate _ 0)
      ⟨ascii "hi",[]⟩ = .ok (total,blob) ∧
    BlobStreams.copyBlobPlaintextToWriter storedFrames notesJob.codec ⟨blob,[3,1,2]⟩ =
      .ok (total,ascii "hi") :=
  framed_blob_read_back notesSha storedFrames byteChunks ⟨false,false,false,none⟩
    ⟨false,false,false,none⟩ ⟨none,true,1,3⟩ notesJob.codec (Vector.replicate _ 0) (ascii "hi") [] [3,1,2]
    rfl rfl (.inr rfl) (by simp) (by simp [fitsCounter])

section Storable
variable {Text : Type}

/-- The contents a codec can store. An encrypted stream must not run out of counter values. A plain
content must not begin like a framed blob, unless it is a compressed blob of that very content. -/
structure Storable (prim : Primitives) (codec : BlobCodec) (wishes : List Nat) (content : Bytes) :
    Prop where
  counter : codec.fitsCounter wishes content
  plain : codec.cipher = none → codec.writeCompressionEnabled = false →
    ¬ MagicPrefixed content ∨ (compMagic <+: content ∧ decodeBlob prim none content = .ok content)

/-- What decoding asks for is enough. -/
theorem storable_of_decodes {codec : BlobCodec} {nonce : Vector UInt8 streamNonceLen}
    {wishes : List Nat} {content blob : Bytes}
    (hblob : writeBlobFromFileToWriter prim codec nonce wishes content = .ok blob)
    (hdecode : decodeBlob prim codec.cipher blob = .ok content) : Storable prim codec wishes content := by
  refine ⟨fitsCounter_of_writeBlob hblob,?_⟩
  intro hnone hoff
  rw [writeBlobFromFileToWriter,hnone,hoff] at hblob
  cases hblob
  rw [hnone] at hdecode
  by_cases hmagic : MagicPrefixed content
  · refine .inr ⟨?_,hdecode⟩
    rcases hmagic with henc | hcomp
    · have htake : content.take 8 = encMagic := by
        obtain ⟨rest,rfl⟩ := henc
        exact List.take_left' rfl
      rw [decodeBlob,if_pos htake] at hdecode
      cases hdecode
    · exact hcomp
  · exact .inl hmagic

theorem decodes_of_storable {codec : BlobCodec} {nonce : Vector UInt8 streamNonceLen}
    {wishes : List Nat} {content : Bytes} (hadmitted : codec.Admitted)
    (hs : Storable prim codec wishes content) :
    ∃ blob, writeBlobFromFileToWriter prim codec nonce wishes content = .ok blob ∧
      decodeBlob prim codec.cipher blob = .ok content := by
  obtain ⟨blob,hblob⟩ := @writeBlob_ok prim codec nonce wishes content hadmitted hs.counter
  refine ⟨blob,hblob,?_⟩
  by_cases hplain : codec.cipher = none ∧ codec.writeCompressionEnabled = false
  · obtain ⟨hnone,hoff⟩ := hplain
    rcases hs.plain hnone hoff with hmagic | ⟨-,hdecode⟩
    · exact decodeBlob_writeBlob hadmitted (fun _ _ => hmagic) hblob fun cipher hc => ⟨cipher,hc,rfl⟩
    · rw [writeBlobFromFileToWriter,hnone,hoff] at hblob
      cases hblob
      rw [hnone]
      exact hdecode
  · exact decodeBlob_writeBlob hadmitted (fun hnone hoff => absurd ⟨hnone,hoff⟩ hplain) hblob
      fun cipher hc => ⟨cipher,hc,rfl⟩

/-- For an unchanging source and its own hash, one attempt returns and publishes a blob that decodes
to the content exactly if the codec can store the content. -/
theorem write_blob_once_stores_iff (sha : Sha256) (prim : Primitives) (cfg : BlobConfig)
    (probe probe' : KeyProbe) (codec : BlobCodec) (content : Bytes) (wishes : List Nat)
    (nonce : Vector UInt8 streamNonceLen) (st : Store Text)
    (hvalid : BlobStreams.validateBlobConfig sha cfg probe = .ok ())
    (hcodec : BlobStreams.fromConfig sha cfg probe' = .ok codec) :
    (∃ written st', Returns (writeBlobOnce sha prim codec (sha256Hex sha content)
        (blobPath sha (sha256Hex sha content)) ⟨some content,wishes,nonce,.done⟩) st written st' ∧
      ∃ blob, st'.blobs[blobPath sha (sha256Hex sha content)]? = some blob ∧
        decodeBlob prim codec.cipher blob = .ok content) ↔ Storable prim codec wishes content := by
  constructor
  · rintro ⟨written,st',hr,stored,hstored,hdecode⟩
    obtain ⟨_,-,hr⟩ := returns_lift_bind.mp hr
    obtain ⟨content',hcontent,hr⟩ := returns_lift_bind.mp hr
    cases orElse_eq_ok.mp hcontent
    obtain ⟨blob,hblob,hr⟩ := returns_lift_bind.mp hr
    obtain ⟨actual,-,hr⟩ := returns_lift_bind.mp hr
    obtain ⟨-,hr⟩ := returns_check_bind.mp hr
    obtain ⟨-,hr⟩ := returns_publish_bind.mp hr
    obtain ⟨-,rfl⟩ := returns_pure.mp hr
    obtain rfl : blob = stored := by
      have hput : (st.putBlob (blobPath sha (sha256Hex sha content)) blob).blobs[
          blobPath sha (sha256Hex sha content)]? = some blob := getElem?_insert_self
      exact Option.some.inj (hput.symm.trans hstored)
    exact storable_of_decodes (mapError_eq_ok.mp hblob) hdecode
  · intro hs
    obtain ⟨blob,hblob,hdecode⟩ := @decodes_of_storable prim codec nonce wishes content
      (admitted_of_validate hvalid hcodec) hs
    refine ⟨blob.length,st.putBlob (blobPath sha (sha256Hex sha content)) blob,?_,blob,
      getElem?_insert_self,hdecode⟩
    refine returns_lift_bind.mpr ⟨(),validateExpectedBlobHash_sha256Hex sha content,?_⟩
    refine returns_lift_bind.mpr ⟨content,rfl,returns_lift_bind.mpr ⟨blob,?_,?_⟩⟩
    · exact mapError_eq_ok.mpr hblob
    · refine returns_lift_bind.mpr ⟨sha256Hex sha content,?_,?_⟩
      · exact mapError_eq_ok.mpr (bind_eq_ok.mpr ⟨content,hdecode,rfl⟩)
      · refine returns_check_bind.mpr ⟨beq_self_eq_true _,returns_publish_bind.mpr ⟨rfl,?_⟩⟩
        exact returns_pure.mpr ⟨rfl,rfl⟩

end Storable

def plainBlobs : BlobConfig := ⟨⟨false,none,1⟩,⟨false,1,3⟩⟩

theorem write_blob_once_stores_iff_plain_text :
    ∃ written st', Returns (writeBlobOnce notesSha storedFrames notesJob.codec
        (sha256Hex notesSha (ascii "hi")) (blobPath notesSha (sha256Hex notesSha (ascii "hi")))
        ⟨some (ascii "hi"),[],Vector.replicate _ 0,.done⟩) (.empty : Store PlainText) written st' ∧
      ∃ blob, st'.blobs[blobPath notesSha (sha256Hex notesSha (ascii "hi"))]? = some blob ∧
        decodeBlob storedFrames notesJob.codec.cipher blob = .ok (ascii "hi") := by
  have hmagic : ¬ MagicPrefixed (ascii "hi") := by
    unfold MagicPrefixed
    decide
  have hcount : notesJob.codec.fitsCounter [] (ascii "hi") := by
    intro cipher hcipher
    cases hcipher
  have hs : Storable storedFrames notesJob.codec [] (ascii "hi") := ⟨hcount,fun _ _ => .inl hmagic⟩
  exact (write_blob_once_stores_iff notesSha storedFrames plainBlobs ⟨false,false,false,none⟩
    ⟨false,false,false,none⟩ notesJob.codec (ascii "hi") [] (Vector.replicate _ 0) .empty rfl rfl).mpr hs

/-- SHA-256 on a content that begins like an encrypted blob. -/
def magicSha : Sha256 := .ofTable
  [(ascii "BSYNCENC",#v[191,26,159,123,28,73,197,176,106,164,55,207,150,39,98,117,103,93,238,13,185,
      190,234,128,120,66,54,96,109,107,3,144])]

/-- A plain file that holds the eight bytes BSYNCENC is encoded as it is, and then taken for an
encrypted blob by the verification; every attempt fails. -/
theorem magic_content_not_stored :
    BlobStreams.validateBlobConfig magicSha plainBlobs ⟨false,false,false,none⟩ = .ok () ∧
    BlobStreams.fromConfig magicSha plainBlobs ⟨false,false,false,none⟩ = .ok notesJob.codec ∧
    (writeBlobOnce magicSha storedFrames notesJob.codec (sha256Hex magicSha (ascii "BSYNCENC"))
      (blobPath magicSha (sha256Hex magicSha (ascii "BSYNCENC")))
      ⟨some (ascii "BSYNCENC"),[],Vector.replicate _ 0,.done⟩ (.empty : Store PlainText)).result =
      .error (.verifyBlob .encryptedWithoutKey) := by
  refine ⟨rfl,rfl,?_⟩
  decide +kernel

end BlobRoundTrip
end BackupSync
