import BackupSync.BlobStreams

/-!
# The two readers of a blob

Both readers compute the decoding of the bytes of the blob, however the reads deliver
them: one writes it, the other one hashes it. Each of their loops is compared with the
loop over the bytes.
-/
namespace BackupSync
open Checks Framing ContentHash BlobCodec SafetyBaseline

namespace BlobReaders

variable {sha : Sha256} {prim : Primitives} {fuel position total : Nat} {out : Bytes}
  {file : ByteSource}

theorem saturatingAdd_add (a b c : Nat) :
    saturatingAdd (saturatingAdd a b) c = saturatingAdd a (b+c) := by
  simp only [saturatingAdd]
  omega

section Parts

theorem agree_readExact (n : Nat) (file : ByteSource) :
    ByteSource.Agree (BlobStreams.readExactTimeout n file) (readExact frameErrors n file.rest) := by
  obtain ⟨hbytes,hrest⟩ := file.fill_eq n
  unfold BlobStreams.readExactTimeout readExact
  generalize file.fill n = filled at hbytes hrest
  obtain ⟨bytes,src⟩ := filled
  dsimp only at hbytes hrest ⊢
  have hlength : bytes.length = min n file.rest.length := by rw [hbytes,List.length_take]
  by_cases hn : n ≤ file.rest.length
  · rw [if_pos hn,if_neg (by omega),hbytes,← hrest]
    exact .inr ⟨_,src,rfl,rfl⟩
  · rw [if_neg hn,if_pos (by omega)]
    exact .inl ⟨_,rfl,rfl⟩

/-- A frame read from a file is the frame at the front of its bytes. -/
theorem agree_readFramedChunk (file : ByteSource) :
    ByteSource.Agree (BlobStreams.readFramedChunk file)
      ((fun r => ((r.1,r.2.1),r.2.2)) <$> readFramedChunk frameErrors file.rest) := by
  rw [readFramedChunk,map_bind]
  refine (agree_readExact 4 file).bind fun lenBytes src => ?_
  dsimp only
  rw [map_bind]
  exact (agree_readExact _ src).bind fun chunk src => .inr ⟨_,src,rfl,rfl⟩

theorem agree_readEncryptedHeader (file : ByteSource) :
    ByteSource.Agree (BlobStreams.readEncryptedHeader file)
      ((fun r => (⟨r.1,r.2.1⟩,r.2.2)) <$> readEncryptedHeader file.rest) := by
  rw [readEncryptedHeader,map_bind]
  refine (agree_readExact 2 file).bind fun head src => ?_
  dsimp only
  rw [map_bind]
  refine .check ?_
  rw [map_bind]
  refine .check ?_
  rw [map_bind]
  exact (agree_readExact _ src).bind fun nonce src => .inr ⟨_,src,rfl,rfl⟩

theorem agree_readCompressedHeader (file : ByteSource) :
    ByteSource.Agree (BlobStreams.readCompressedHeader file)
      ((fun rest => (compAlgZstdChunked,rest)) <$> readCompressedHeader file.rest) := by
  rw [readCompressedHeader,map_bind]
  refine (agree_readExact 2 file).bind fun head src => ?_
  dsimp only
  rw [map_bind]
  refine .check ?_
  cases halg : head.tail.headD 0 == compAlgZstdChunked with
  | false => exact .inl ⟨_,rfl,rfl⟩
  | true =>
      have heq := eq_of_beq halg
      exact .inr ⟨_,src,by rw [heq]; rfl,rfl⟩

end Parts

section Loops
variable {S : Type} {dec : Nat → Bool → Bytes → Except CodecError Bytes} {emit : S → Bytes → S}
  {loop : Nat → Nat → S → ByteSource → Except CodecError S}

/-- A loop over frames that hands each decoded chunk to a sink hands it the decoded stream. -/
theorem loop_eq (hzero : ∀ i s file, loop 0 i s file = .error .unexpectedEof)
    (hsucc : ∀ fuel i s file, loop (fuel+1) i s file = (do
      let ((chunk,isLast),file) ← BlobStreams.readFramedChunk file
      let pt ← dec i isLast chunk
      if isLast then return emit s pt else loop fuel (i+1) (emit s pt) file))
    (hemit : ∀ s a b, emit (emit s a) b = emit s (a++b)) (s : S) :
    loop fuel position s file = emit s <$> decodeStream frameErrors dec fuel position file.rest := by
  induction fuel generalizing position s file with
  | zero =>
      rw [hzero]
      rfl
  | succ fuel ih =>
      rw [hsucc,decodeStream]
      rcases agree_readFramedChunk file with ⟨e,hfile,hbytes⟩ | ⟨frame,src,hfile,hbytes⟩
      · rw [hfile,map_eq_error.mp hbytes]
        rfl
      · rw [hfile]
        obtain ⟨⟨chunk,isLast,rest⟩,hframe,heq⟩ := map_eq_ok.mp hbytes
        cases heq
        rw [hframe]
        change (do let pt ← dec position isLast chunk; _ : Except CodecError S) =
          emit s <$> (do let pt ← dec position isLast chunk; _ : Except CodecError Bytes)
        cases hdec : dec position isLast chunk with
        | error e => rfl
        | ok pt =>
            cases isLast with
            | true => rfl
            | false =>
                change loop fuel (position+1) (emit s pt) src = emit s <$> (do
                  let more ← decodeStream frameErrors dec fuel (position+1) src.rest
                  return pt++more)
                rw [ih]
                cases decodeStream frameErrors dec fuel (position+1) src.rest with
                | error e => rfl
                | ok more => exact congrArg Except.ok (hemit s pt more)

/-- What the writing loops keep: how many bytes they have written, and the bytes. -/
def writeAll (s : Nat × Bytes) (pt : Bytes) : Nat × Bytes := (saturatingAdd s.1 pt.length,s.2++pt)

theorem writeAll_append (s : Nat × Bytes) (a b : Bytes) :
    writeAll (writeAll s a) b = writeAll s (a++b) := by
  simp [writeAll,saturatingAdd_add]

theorem update_append (h : Hasher) (a b : Bytes) : (h.update a).update b = h.update (a++b) := by
  simp [Hasher.update]

theorem decChunk_bind {β : Type} {key nonce ct : Bytes} {alg : UInt8} {isLast : Bool}
    {f : Bytes → Except CodecError β} :
    decChunk prim key nonce alg position isLast ct >>= f =
      unsealChunk prim key nonce position isLast ct >>= fun decoded =>
        if alg = algStreamZstdChunked then decompressZstdPayload prim decoded >>= f else f decoded := by
  rw [decChunk,bind_assoc]
  congr 1
  funext decoded
  split
  · rfl
  · rfl

theorem decryptStreamToWriter_eq (key : Bytes) (header : BlobStreams.EncHeader) (s : Nat × Bytes) :
    BlobStreams.decryptStreamToWriter prim key header fuel position s.1 s.2 file = writeAll s <$>
      decodeStream frameErrors (decChunk prim key header.nonce header.alg) fuel position file.rest := by
  refine @loop_eq fuel position file _ _ writeAll (fun fuel position s file =>
    BlobStreams.decryptStreamToWriter prim key header fuel position s.1 s.2 file) ?_ ?_ writeAll_append s
  · intro position s file
    rfl
  · intro fuel position s file
    rw [BlobStreams.decryptStreamToWriter]
    congr 1
    funext ⟨⟨ct,isLast⟩,file⟩
    dsimp only
    rw [decChunk_bind]
    cases isLast with
    | true => rfl
    | false => rfl

theorem decryptStreamToHasher_eq (key : Bytes) (header : BlobStreams.EncHeader) (h : Hasher) :
    BlobStreams.decryptStreamToHasher prim key header fuel position h file = h.update <$>
      decodeStream frameErrors (decChunk prim key header.nonce header.alg) fuel position file.rest := by
  refine @loop_eq fuel position file _ _ Hasher.update
    (BlobStreams.decryptStreamToHasher prim key header) ?_ ?_ update_append h
  · intro position h file
    rfl
  · intro fuel position h file
    rw [BlobStreams.decryptStreamToHasher]
    congr 1
    funext ⟨⟨ct,isLast⟩,file⟩
    dsimp only
    rw [decChunk_bind]
    cases isLast with
    | true => rfl
    | false => rfl

theorem decompressStreamToWriter_eq (s : Nat × Bytes) :
    BlobStreams.decompressStreamToWriter prim fuel s.1 s.2 file = writeAll s <$>
      decodeStream frameErrors (fun _ _ => decompressZstdPayload prim) fuel 0 file.rest := by
  refine @loop_eq fuel 0 file _ _ writeAll (fun fuel _ s file =>
    BlobStreams.decompressStreamToWriter prim fuel s.1 s.2 file) ?_ ?_ writeAll_append s
  · intro position s file
    rfl
  · intro fuel position s file
    rfl

theorem decompressStreamToHasher_eq (h : Hasher) :
    BlobStreams.decompressStreamToHasher prim fuel h file = h.update <$>
      decodeStream frameErrors (fun _ _ => decompressZstdPayload prim) fuel 0 file.rest := by
  refine @loop_eq fuel 0 file _ _ Hasher.update (fun fuel _ h file =>
    BlobStreams.decompressStreamToHasher prim fuel h file) ?_ ?_ update_append h
  · intro position h file
    rfl
  · intro fuel position h file
    rfl

/-- A loop that reads to the end hands all bytes to its sink. -/
theorem plainLoop_eq {loop : Nat → S → ByteSource → S}
    (hsucc : ∀ fuel s file, loop (fuel+1) s file =
      if (file.read BlobStreams.plainBufferBytes).1.length = 0 then s
      else loop fuel (emit s (file.read BlobStreams.plainBufferBytes).1)
        (file.read BlobStreams.plainBufferBytes).2)
    (hemit : ∀ s a b, emit (emit s a) b = emit s (a++b)) {s : S} (hs : emit s [] = s)
    (hfuel : file.rest.length < fuel) : loop fuel s file = emit s file.rest := by
  induction fuel generalizing s file with
  | zero => omega
  | succ fuel ih =>
      have happend := file.read_append BlobStreams.plainBufferBytes
      rw [hsucc]
      split
      · rename_i hend
        have hrest := (ByteSource.read_eq_nil (by decide)).mp (List.length_eq_zero_iff.mp hend)
        rw [hrest,hs]
      · rename_i hmore
        have hlength := congrArg List.length happend
        rw [List.length_append] at hlength
        have hnext := hemit s (file.read BlobStreams.plainBufferBytes).1 []
        rw [List.append_nil] at hnext
        rw [ih hnext (by omega),hemit,happend]

theorem copyPlainStream_eq (out : Bytes) (input : ByteSource) :
    BlobStreams.copyPlainStream out input = (saturatingAdd 0 input.rest.length,out++input.rest) := by
  refine @plainLoop_eq _ input _ writeAll (fun fuel s file =>
    BlobStreams.copyPlainLoop fuel s.1 s.2 file) ?_ writeAll_append (0,out) ?_ (Nat.lt_succ_self _)
  · intro fuel s file
    rfl
  · simp [writeAll,saturatingAdd]

theorem hashPlainLoop_eq (h : Hasher) (hfuel : file.rest.length < fuel) :
    BlobStreams.hashPlainLoop fuel h file = h.update file.rest := by
  refine @plainLoop_eq _ file _ Hasher.update BlobStreams.hashPlainLoop ?_ update_append h ?_ hfuel
  · intro fuel h file
    rfl
  · simp [Hasher.update]

end Loops

section Dispatch
variable {β : Type} {emit : Bytes → β} {src : ByteSource} {key : Bytes}

/-- What the readers find at the front of a blob. -/
theorem probeMagicPrefix_cases (file : ByteSource) : ∃ src, src.rest = file.rest.drop 8 ∧
    ((file.rest.take 8 = encMagic ∧ BlobStreams.probeMagicPrefix file = (.encrypted,[],src)) ∨
      (file.rest.take 8 ≠ encMagic ∧ file.rest.take 8 = compMagic ∧
        BlobStreams.probeMagicPrefix file = (.compressed,[],src)) ∨
      (file.rest.take 8 ≠ encMagic ∧ file.rest.take 8 ≠ compMagic ∧
        BlobStreams.probeMagicPrefix file = (.plain,file.rest.take 8,src))) := by
  obtain ⟨hbytes,hrest⟩ := file.fill_eq 8
  refine ⟨(file.fill 8).2,hrest,?_⟩
  have hshort : ∀ magic : Bytes, magic.length = 8 → (file.rest.take 8).length < 8 →
      file.rest.take 8 ≠ magic := by
    rintro magic hmagic hlt rfl
    omega
  unfold BlobStreams.probeMagicPrefix
  dsimp only
  rw [hbytes]
  by_cases hlt : (file.rest.take 8).length < 8
  · exact .inr (.inr ⟨hshort encMagic rfl hlt,hshort compMagic rfl hlt,by rw [if_pos hlt]⟩)
  · rw [if_neg hlt]
    by_cases henc : file.rest.take 8 = encMagic
    · exact .inl ⟨henc,by rw [if_pos henc]⟩
    · rw [if_neg henc]
      by_cases hcomp : file.rest.take 8 = compMagic
      · exact .inr (.inl ⟨henc,hcomp,by rw [if_pos hcomp]⟩)
      · exact .inr (.inr ⟨henc,hcomp,by rw [if_neg hcomp]⟩)

/-- After the header of an encrypted blob both readers run their loop over the frames. -/
theorem encrypted_eq {run : BlobStreams.EncHeader → ByteSource → Except CodecError β}
    (hrun : ∀ header file, run header file = emit <$> decodeStream frameErrors
      (decChunk prim key header.nonce header.alg) (file.rest.length+1) 0 file.rest) :
    (do let (header,file) ← BlobStreams.readEncryptedHeader src; run header file) =
      emit <$> (do
        let (alg,nonce,rest) ← readEncryptedHeader src.rest
        decodeStream frameErrors (decChunk prim key nonce alg) (rest.length+1) 0 rest) := by
  rcases agree_readEncryptedHeader src with ⟨e,hfile,hbytes⟩ | ⟨header,file,hfile,hbytes⟩
  · rw [hfile,map_eq_error.mp hbytes]
    rfl
  · obtain ⟨⟨alg,nonce,rest⟩,hread,heq⟩ := map_eq_ok.mp hbytes
    cases heq
    rw [hfile,hread]
    exact hrun _ file

theorem compressed_eq {run : ByteSource → Except CodecError β}
    (hrun : ∀ file, run file = emit <$> decodeStream frameErrors
      (fun _ _ => decompressZstdPayload prim) (file.rest.length+1) 0 file.rest) :
    (do let (_,file) ← BlobStreams.readCompressedHeader src; run file) =
      emit <$> (do
        let rest ← readCompressedHeader src.rest
        decodeStream frameErrors (fun _ _ => decompressZstdPayload prim) (rest.length+1) 0 rest) := by
  rcases agree_readCompressedHeader src with ⟨e,hfile,hbytes⟩ | ⟨alg,file,hfile,hbytes⟩
  · rw [hfile,map_eq_error.mp hbytes]
    rfl
  · obtain ⟨rest,hread,heq⟩ := map_eq_ok.mp hbytes
    cases heq
    rw [hfile,hread]
    exact hrun file

theorem ite_isEmpty (front : Bytes) : (if front.isEmpty then [] else front) = front := by
  cases front with
  | nil => rfl
  | cons b front => rfl

theorem update_unless_empty (h : Hasher) (front : Bytes) :
    (if front.isEmpty then h else h.update front) = h.update front := by
  cases front with
  | nil => simp [Hasher.update]
  | cons b front => rfl

/-- The writing reader writes the decoding of the blob, whatever its reads deliver. -/
theorem copyBlob_eq (cipher : Option BlobCipher) (file : ByteSource) :
    BlobStreams.copyBlobPlaintextToWriterImpl prim cipher file =
      (fun pt => (saturatingAdd 0 pt.length,pt)) <$> decodeBlob prim cipher file.rest := by
  unfold BlobStreams.copyBlobPlaintextToWriterImpl decodeBlob
  obtain ⟨src,hrest,⟨henc,hprobe⟩ | ⟨henc,hcomp,hprobe⟩ | ⟨henc,hcomp,hprobe⟩⟩ :=
    probeMagicPrefix_cases file
  · rw [hprobe,if_pos henc,← hrest]
    cases cipher with
    | none => rfl
    | some cipher => exact encrypted_eq fun header file => decryptStreamToWriter_eq _ header (0,[])
  · rw [hprobe,if_neg henc,if_pos hcomp,← hrest]
    exact compressed_eq fun file => decompressStreamToWriter_eq (0,[])
  · rw [hprobe,if_neg henc,if_neg hcomp]
    dsimp only
    rw [ite_isEmpty,copyPlainStream_eq,hrest,saturatingAdd_add,List.take_append_drop]
    have hlength := congrArg List.length (List.take_append_drop 8 file.rest)
    rw [List.length_append] at hlength
    rw [Nat.add_comm,hlength]
    rfl

/-- The hashing reader hashes the decoding of the blob, whatever its reads deliver. -/
theorem hashPlaintext_eq (cipher : Option BlobCipher) (file : ByteSource) :
    BlobStreams.hashPlaintext prim cipher file =
      Hasher.new.update <$> decodeBlob prim cipher file.rest := by
  unfold BlobStreams.hashPlaintext decodeBlob
  obtain ⟨src,hrest,⟨henc,hprobe⟩ | ⟨henc,hcomp,hprobe⟩ | ⟨henc,hcomp,hprobe⟩⟩ :=
    probeMagicPrefix_cases file
  · rw [hprobe,if_pos henc,← hrest]
    cases cipher with
    | none => rfl
    | some cipher =>
        exact encrypted_eq fun header file => decryptStreamToHasher_eq _ header Hasher.new
  · rw [hprobe,if_neg henc,if_pos hcomp,← hrest]
    exact compressed_eq fun file => decompressStreamToHasher_eq Hasher.new
  · rw [hprobe,if_neg henc,if_neg hcomp]
    dsimp only
    rw [hashPlainLoop_eq _ (Nat.lt_succ_self _),update_unless_empty,update_append,hrest,
      List.take_append_drop]
    rfl

theorem sha256Blob_eq (cipher : Option BlobCipher) (file : ByteSource) :
    BlobStreams.sha256PlaintextBlobImpl sha prim cipher file =
      sha256Hex sha <$> decodeBlob prim cipher file.rest := by
  rw [BlobStreams.sha256PlaintextBlobImpl,hashPlaintext_eq]
  cases decodeBlob prim cipher file.rest with
  | error e => rfl
  | ok pt => rfl

end Dispatch

/-- The verifying reader accepts a blob exactly if the restoring one does, and then returns the hash
of what that one writes; the reads of the two may be split differently. -/
theorem readers_agree (sha : Sha256) (prim : Primitives) (codec : BlobCodec) (blob : Bytes)
    (wishes wishes' : List Nat) (h : Str) :
    BlobStreams.sha256PlaintextBlob sha prim codec ⟨blob,wishes⟩ = .ok h ↔
      ∃ total written, BlobStreams.copyBlobPlaintextToWriter prim codec ⟨blob,wishes'⟩ =
        .ok (total,written) ∧ h = sha256Hex sha written := by
  unfold BlobStreams.sha256PlaintextBlob BlobStreams.copyBlobPlaintextToWriter
  rw [sha256Blob_eq,copyBlob_eq]
  dsimp only
  cases decodeBlob prim codec.cipher blob with
  | error e => simp
  | ok pt => simp [eq_comm]

end BlobReaders
end BackupSync
