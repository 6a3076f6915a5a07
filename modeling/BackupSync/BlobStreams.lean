import BackupSync.BlobCodec
import BackupSync.ByteSource
import BackupSync.SafetyBaseline

/-!
# Blob encodings as streams

The loops of the codec over files that may deliver short reads. The writer reads one
chunk ahead with two buffers that are swapped, so that it knows which chunk is the
last. There are two readers: one writes the plaintext, the other one hashes it, and
each has its own loops. Timeouts and failing reads or writes are left out.

The codec is made from the encryption and compression settings and the key file.
-/
namespace BackupSync
open Checks Framing ContentHash BlobCodec SafetyBaseline

structure EncryptionConfig where
  enabled : Bool
  keyId : Option Str
  blobChunkBytes : Nat
  deriving DecidableEq, Repr

structure CompressionConfig where
  enabled : Bool
  blobChunkBytes : Nat
  zstdLevel : Int
  deriving DecidableEq, Repr

structure BlobConfig where
  encryption : EncryptionConfig
  compression : CompressionConfig
  deriving DecidableEq, Repr

/-- The key file at the configured or default path. -/
structure KeyProbe where
  resolved : Bool
  pathExists : Bool
  isFile : Bool
  contents : Option Bytes
  deriving DecidableEq, Repr

inductive BlobConfigError where
  | encryptionChunkZero
  | encryptionChunkTooLarge (limit : Nat)
  | keyPath
  | noKeyFile
  | keyNotAFile
  | missingKeyId
  | readKeyFile
  | keyFileLength (bytes : Nat)
  | keyFileMagic
  | keyFileVersion (version : UInt8)
  | keyIdMismatch (expected actual : Str)
  | compressionChunkZero
  | compressionChunkTooLarge (limit : Nat)
  | zstdLevel (least most : Int)
  deriving DecidableEq, Repr

structure KeyInfo where
  keyId : Str
  key : Bytes
  deriving DecidableEq, Repr

/-- The incremental hasher of the sha2 crate. -/
structure Hasher where
  absorbed : Bytes
  deriving DecidableEq, Repr

namespace Hasher

def new : Hasher := ⟨[]⟩

def update (h : Hasher) (bytes : Bytes) : Hasher := ⟨h.absorbed++bytes⟩

def finalize (sha : Sha256) (h : Hasher) : Bytes := sha.digest h.absorbed

end Hasher

namespace BlobStreams

section Settings
variable (sha : Sha256) (cfg : BlobConfig) (probe : KeyProbe)

def keyMagic : Bytes := "BSYNCKEY".toList.map fun c => UInt8.ofNat c.toNat

def keyVersion : UInt8 := 1

def keyLen : Nat := 32

def loadKeyFile (raw : Bytes) : Except BlobConfigError KeyInfo := do
  require (keyMagic.length+1+keyLen ≤ raw.length) (.keyFileLength raw.length)
  require (raw.take keyMagic.length == keyMagic) .keyFileMagic
  let version := (raw.drop keyMagic.length).headD 0
  require (version == keyVersion) (.keyFileVersion version)
  let key := (raw.drop (keyMagic.length+1)).take keyLen
  return ⟨sha256Hex sha key,key⟩

/-- The key in use, with its id checked against the configured one. -/
def expectedKey : Except BlobConfigError KeyInfo := do
  let expected ← orElse cfg.encryption.keyId .missingKeyId
  let raw ← orElse probe.contents .readKeyFile
  let info ← loadKeyFile sha raw
  require (info.keyId == expected) (.keyIdMismatch expected info.keyId)
  return info

def cipherFromConfig : Except BlobConfigError (Option BlobCipher) :=
  if cfg.encryption.enabled then do
    require probe.resolved .keyPath
    let info ← expectedKey sha cfg probe
    return some ⟨info.key,
      if cfg.compression.enabled then max cfg.compression.blobChunkBytes 1
      else max cfg.encryption.blobChunkBytes 1⟩
  else return none

def fromConfig : Except BlobConfigError BlobCodec := do
  let cipher ← cipherFromConfig sha cfg probe
  return ⟨cipher,cfg.compression.enabled,max cfg.compression.blobChunkBytes 1,
    cfg.compression.zstdLevel⟩

def maxBlobEncryptionChunkBytes : Nat := 8*1024*1024

def maxBlobCompressionChunkBytes : Nat := 8*1024*1024

def minBlobCompressionZstdLevel : Int := 1

def maxBlobCompressionZstdLevel : Int := 22

def validateEncryption : Except BlobConfigError Unit :=
  if cfg.encryption.enabled then do
    require (cfg.encryption.blobChunkBytes != 0) .encryptionChunkZero
    require (cfg.encryption.blobChunkBytes ≤ maxBlobEncryptionChunkBytes)
      (.encryptionChunkTooLarge maxBlobEncryptionChunkBytes)
    require probe.resolved .keyPath
    require probe.pathExists .noKeyFile
    require probe.isFile .keyNotAFile
    let _ ← expectedKey sha cfg probe
    return ()
  else return ()

def validateCompression : Except BlobConfigError Unit :=
  if cfg.compression.enabled then do
    require (cfg.compression.blobChunkBytes != 0) .compressionChunkZero
    require (cfg.compression.blobChunkBytes ≤ maxBlobCompressionChunkBytes)
      (.compressionChunkTooLarge maxBlobCompressionChunkBytes)
    require (minBlobCompressionZstdLevel ≤ cfg.compression.zstdLevel &&
      cfg.compression.zstdLevel ≤ maxBlobCompressionZstdLevel)
      (.zstdLevel minBlobCompressionZstdLevel maxBlobCompressionZstdLevel)
  else return ()

def validateBlobConfig : Except BlobConfigError Unit := do
  validateCompression cfg
  validateEncryption sha cfg probe

end Settings

section Write
variable (prim : Primitives)

/-- A buffer after a read: the bytes read, then what was there before. -/
def overwrite (buf got : Bytes) : Bytes := got++buf.drop got.length

/-- The loop shared by the two framed writers, over the encoding of one chunk: the second buffer
is filled before the first one is written, and then they are swapped. -/
def frameLoop (enc : Nat → Bool → Bytes → Except CodecError Bytes) :
    Nat → Nat → Bytes → Nat → Bytes → Nat → Bytes → ByteSource → Except CodecError (Nat × Bytes)
  | 0,_,_,_,_,_,_,_ => .error .unexpectedEof
  | fuel+1,position,bufA,aLen,bufB,totalPlain,out,file => do
      let (got,file) := file.read bufB.length
      let bufB := overwrite bufB got
      let bLen := got.length
      let isLast := bLen == 0
      let pt := bufA.take aLen
      let totalPlain := saturatingAdd totalPlain aLen
      let chunk ← enc position isLast pt
      let frame ← writeFramedChunk frameErrors chunk isLast
      if isLast then return (totalPlain,out++frame)
      else frameLoop enc fuel (position+1) bufB bLen bufA totalPlain (out++frame) file

/-- Everything after the header. An empty file is one empty last chunk. -/
def writeFrames (enc : Nat → Bool → Bytes → Except CodecError Bytes) (chunkBytes : Nat) (out : Bytes)
    (file : ByteSource) : Except CodecError (Nat × Bytes) := do
  let buf := List.replicate (max chunkBytes 1) 0
  let fuel := file.rest.length
  let (got,file) := file.read buf.length
  if got.length = 0 then do
    let chunk ← enc 0 true []
    let frame ← writeFramedChunk frameErrors chunk true
    return (0,out++frame)
  else frameLoop enc fuel 0 (overwrite buf got) got.length buf 0 out file

def encryptFileToWriterEncStream (chunkBytes : Nat) (key nonce : Bytes) (alg : UInt8)
    (zstdLevel : Option Int) (file : ByteSource) : Except CodecError (Nat × Bytes) :=
  writeFrames (encChunk prim key nonce zstdLevel) chunkBytes (encMagic++[encVersion,alg]++nonce) file

def compressFileToWriterZstdChunked (chunkBytes : Nat) (level : Int) (file : ByteSource) :
    Except CodecError (Nat × Bytes) :=
  writeFrames (fun _ _ pt => buildZstdPayload prim pt level) chunkBytes
    (compMagic++[compVersion,compAlgZstdChunked]) file

def plainBufferBytes : Nat := 64*1024

def copyPlainLoop : Nat → Nat → Bytes → ByteSource → Nat × Bytes
  | 0,total,out,_ => (total,out)
  | fuel+1,total,out,input =>
      let (got,input) := input.read plainBufferBytes
      if got.length = 0 then (total,out)
      else copyPlainLoop fuel (saturatingAdd total got.length) (out++got) input

def copyPlainStream (out : Bytes) (input : ByteSource) : Nat × Bytes :=
  copyPlainLoop (input.rest.length+1) 0 out input

def writeBlobFromFileToWriter (codec : BlobCodec) (nonce : Vector UInt8 streamNonceLen)
    (file : ByteSource) : Except CodecError (Nat × Bytes) :=
  match codec.cipher with
  | some cipher =>
      if codec.writeCompressionEnabled then
        encryptFileToWriterEncStream prim cipher.chunkBytes cipher.key nonce.toList
          algStreamZstdChunked (some codec.writeCompressionZstdLevel) file
      else encryptFileToWriterEncStream prim cipher.chunkBytes cipher.key nonce.toList algStream none file
  | none =>
      if codec.writeCompressionEnabled then
        compressFileToWriterZstdChunked prim codec.writeCompressionChunkBytes
          codec.writeCompressionZstdLevel file
      else .ok (copyPlainStream [] file)

end Write

section Read
variable (sha : Sha256) (prim : Primitives)

inductive ProbedMagic where
  | encrypted | compressed | plain
  deriving DecidableEq, Repr

def probeMagicPrefix (input : ByteSource) : ProbedMagic × Bytes × ByteSource :=
  let (magic,input) := input.fill 8
  if magic.length < 8 then (.plain,magic,input)
  else if magic = encMagic then (.encrypted,[],input)
  else if magic = compMagic then (.compressed,[],input)
  else (.plain,magic,input)

def readExactTimeout (n : Nat) (input : ByteSource) : Except CodecError (Bytes × ByteSource) :=
  let (bytes,input) := input.fill n
  if bytes.length < n then .error .unexpectedEof else .ok (bytes,input)

def readFramedChunk (input : ByteSource) : Except CodecError ((Bytes × Bool) × ByteSource) := do
  let (lenBytes,input) ← readExactTimeout 4 input
  let raw := u32OfBytes lenBytes
  let (buf,input) ← readExactTimeout (raw%0x80000000) input
  return ((buf,raw/0x80000000%2 == 1),input)

structure EncHeader where
  alg : UInt8
  nonce : Bytes
  deriving DecidableEq, Repr

def readEncryptedHeader (input : ByteSource) : Except CodecError (EncHeader × ByteSource) := do
  let (head,input) ← readExactTimeout 2 input
  let version := head.headD 0
  let alg := head.tail.headD 0
  require (version == encVersion) (.unsupportedVersion version)
  require (alg == algStream || alg == algStreamZstdChunked) (.unsupportedAlgorithm alg)
  let (nonce,input) ← readExactTimeout streamNonceLen input
  return (⟨alg,nonce⟩,input)

def readCompressedHeader (input : ByteSource) : Except CodecError (UInt8 × ByteSource) := do
  let (head,input) ← readExactTimeout 2 input
  let version := head.headD 0
  let alg := head.tail.headD 0
  require (version == compVersion) (.unsupportedVersion version)
  require (alg == compAlgZstdChunked) (.unsupportedAlgorithm alg)
  return (alg,input)

def decryptStreamToWriter (key : Bytes) (header : EncHeader) :
    Nat → Nat → Nat → Bytes → ByteSource → Except CodecError (Nat × Bytes)
  | 0,_,_,_,_ => .error .unexpectedEof
  | fuel+1,position,total,out,file => do
      let ((ct,isLast),file) ← readFramedChunk file
      if isLast then do
        let decoded ← unsealChunk prim key header.nonce position true ct
        if header.alg = algStreamZstdChunked then do
          let pt ← decompressZstdPayload prim decoded
          return (saturatingAdd total pt.length,out++pt)
        else return (saturatingAdd total decoded.length,out++decoded)
      else do
        let decoded ← unsealChunk prim key header.nonce position false ct
        if header.alg = algStreamZstdChunked then do
          let pt ← decompressZstdPayload prim decoded
          decryptStreamToWriter key header fuel (position+1) (saturatingAdd total pt.length) (out++pt) file
        else
          decryptStreamToWriter key header fuel (position+1) (saturatingAdd total decoded.length)
            (out++decoded) file

def decryptStreamToHasher (key : Bytes) (header : EncHeader) :
    Nat → Nat → Hasher → ByteSource → Except CodecError Hasher
  | 0,_,_,_ => .error .unexpectedEof
  | fuel+1,position,hasher,file => do
      let ((ct,isLast),file) ← readFramedChunk file
      if isLast then do
        let decoded ← unsealChunk prim key header.nonce position true ct
        if header.alg = algStreamZstdChunked then do
          let pt ← decompressZstdPayload prim decoded
          return hasher.update pt
        else return hasher.update decoded
      else do
        let decoded ← unsealChunk prim key header.nonce position false ct
        if header.alg = algStreamZstdChunked then do
          let pt ← decompressZstdPayload prim decoded
          decryptStreamToHasher key header fuel (position+1) (hasher.update pt) file
        else decryptStreamToHasher key header fuel (position+1) (hasher.update decoded) file

def decompressStreamToWriter : Nat → Nat → Bytes → ByteSource → Except CodecError (Nat × Bytes)
  | 0,_,_,_ => .error .unexpectedEof
  | fuel+1,total,out,input => do
      let ((payload,isLast),input) ← readFramedChunk input
      let pt ← decompressZstdPayload prim payload
      let total := saturatingAdd total pt.length
      if isLast then return (total,out++pt)
      else decompressStreamToWriter fuel total (out++pt) input

def decompressStreamToHasher : Nat → Hasher → ByteSource → Except CodecError Hasher
  | 0,_,_ => .error .unexpectedEof
  | fuel+1,hasher,input => do
      let ((payload,isLast),input) ← readFramedChunk input
      let pt ← decompressZstdPayload prim payload
      if isLast then return hasher.update pt
      else decompressStreamToHasher fuel (hasher.update pt) input

def copyBlobPlaintextToWriterImpl (cipher : Option BlobCipher) (file : ByteSource) :
    Except CodecError (Nat × Bytes) :=
  let (kind,front,file) := probeMagicPrefix file
  match kind with
  | .encrypted => match cipher with
    | none => .error .encryptedWithoutKey
    | some cipher => do
        let (header,file) ← readEncryptedHeader file
        decryptStreamToWriter prim cipher.key header (file.rest.length+1) 0 0 [] file
  | .compressed => do
      let (_,file) ← readCompressedHeader file
      decompressStreamToWriter prim (file.rest.length+1) 0 [] file
  | .plain =>
      let (n,out) := copyPlainStream (if front.isEmpty then [] else front) file
      .ok (saturatingAdd n front.length,out)

/-- The loop of sha256_plaintext_blob over a plain blob. -/
def hashPlainLoop : Nat → Hasher → ByteSource → Hasher
  | 0,hasher,_ => hasher
  | fuel+1,hasher,file =>
      let (got,file) := file.read plainBufferBytes
      if got.length = 0 then hasher else hashPlainLoop fuel (hasher.update got) file

/-- The part of sha256_plaintext_blob that feeds the hasher. -/
def hashPlaintext (cipher : Option BlobCipher) (file : ByteSource) : Except CodecError Hasher :=
  let hasher := Hasher.new
  let (kind,front,file) := probeMagicPrefix file
  match kind with
  | .encrypted => match cipher with
    | none => .error .encryptedWithoutKey
    | some cipher => do
        let (header,file) ← readEncryptedHeader file
        decryptStreamToHasher prim cipher.key header (file.rest.length+1) 0 hasher file
  | .compressed => do
      let (_,file) ← readCompressedHeader file
      decompressStreamToHasher prim (file.rest.length+1) hasher file
  | .plain =>
      let hasher := if front.isEmpty then hasher else hasher.update front
      .ok (hashPlainLoop (file.rest.length+1) hasher file)

def sha256PlaintextBlobImpl (cipher : Option BlobCipher) (file : ByteSource) :
    Except CodecError Str := do
  let hasher ← hashPlaintext prim cipher file
  return hexLower (hasher.finalize sha)

def copyBlobPlaintextToWriter (codec : BlobCodec) (file : ByteSource) : Except CodecError (Nat × Bytes) :=
  copyBlobPlaintextToWriterImpl prim codec.cipher file

def sha256PlaintextBlob (codec : BlobCodec) (file : ByteSource) : Except CodecError Str :=
  sha256PlaintextBlobImpl sha prim codec.cipher file

end Read

end BlobStreams
end BackupSync
