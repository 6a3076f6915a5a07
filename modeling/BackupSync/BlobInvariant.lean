import BackupSync.StoreInvariant

/-!
# Stored blobs stay readable

What the calls do to the blobs of a store can be said once: a blob appears only
after it was decoded again and its plaintext was found to have the hash it is
filed under, and otherwise blobs only disappear. An invariant that survives this
survives every step of every call.

The instance used here says that each blob can be read with a given key and
decodes to content of the hash in its path. It is kept by all calls that
encrypted with that key or not at all.
-/
namespace BackupSync
open Checks Interruptible ContentHash GarbageCollection BackupFolder HistoryRemoval StoreInvariant

/-- The blob of a hash decodes to content of that hash. -/
def GoodBlob (sha : Sha256) (prim : Primitives) (codec : BlobCodec) {Text : Type}
    (st : Store Text) (hash : Str) : Prop :=
  ∃ blob, st.blobs[blobPath sha hash]? = some blob ∧
    BlobCodec.sha256PlaintextBlob prim sha codec blob = .ok hash

namespace BlobInvariant

variable {Text : Type} [StoreText Text] {sha : Sha256} {prim : Primitives}
  {I : Store Text → Prop}

/-- An invariant of the blobs alone that blobs may leave. -/
structure Surviving (I : Store Text → Prop) : Prop where
  setDir : ∀ st sid d, I st → I (st.setDir sid d)
  eraseBlob : ∀ st path, I st → I (st.eraseBlob path)

/-- One that verified blobs may join. -/
structure KeptBy (sha : Sha256) (prim : Primitives) (codec : BlobCodec) (I : Store Text → Prop) :
    Prop extends Surviving I where
  putBlob : ∀ st hash blob, BlobCodec.sha256PlaintextBlob prim sha codec blob = .ok hash → I st →
    I (st.putBlob (blobPath sha hash) blob)

/-- Verified blobs may join, whatever else may happen to the invariant. -/
def Gains (sha : Sha256) (prim : Primitives) (codec : BlobCodec) (I : Store Text → Prop) : Prop :=
  ∀ st hash blob, BlobCodec.sha256PlaintextBlob prim sha codec blob = .ok hash → I st →
    I (st.putBlob (blobPath sha hash) blob)

section Calls
variable {job : FolderJob} {env : BackupEnv} {sid : Str}

theorem keeps_gc_of (h : Surviving I) (env : GcEnv) :
    Keeps I (gcUnreferencedBlobs env) :=
  keeps_gc env fun st _ _ hst _ => h.eraseBlob st _ hst

omit [StoreText Text] in
theorem keeps_writeBlobOnce (h : Gains sha prim job.codec I) (hash : Str) (a : BlobAttempt) :
    Keeps I (writeBlobOnce sha prim job.codec hash (blobPath sha hash) a) := by
  refine keeps_lift_bind fun _ _ => ?_
  refine keeps_lift_bind fun content _ => ?_
  refine keeps_lift_bind fun blob _ => ?_
  refine keeps_lift_bind fun actual hactual => ?_
  refine keeps_check_bind fun hsame => ?_
  have hverified : BlobCodec.sha256PlaintextBlob prim sha job.codec blob = .ok hash := by
    rw [← eq_of_beq hsame]
    exact mapError_eq_ok.mp hactual
  exact keeps_bind (keeps_publish fun st hst => h st hash blob hverified hst)
    fun _ => keeps_pure _

omit [StoreText Text] in
theorem keeps_writeBlob (h : Gains sha prim job.codec I) (hash : Str) (env : BlobWriteEnv) :
    Keeps I (writeBlob sha prim job hash (blobPath sha hash) env) := by
  refine keeps_lift_bind fun _ _ => ?_
  refine keeps_check_bind fun _ => ?_
  exact triple_retry (keeps_writeBlobOnce h hash) _

omit [StoreText Text] in
theorem keeps_writeMissingBlob (h : Gains sha prim job.codec I) (prev : Option Manifest)
    (pass : BlobPass) (relPath : Str) :
    Keeps I (writeMissingBlob sha prim job env prev pass relPath) := by
  unfold writeMissingBlob
  split
  · exact keeps_pure _
  · split
    · exact keeps_pure _
    · rename_i hash _
      refine keeps_read_bind fun st => ?_
      split
      · exact keeps_pure _
      · exact keeps_bind (keeps_writeBlob h hash (env.blobWrites relPath)).attempt
          fun _ => keeps_pure _

omit [StoreText Text] in
theorem keeps_writeMissingBlobs (h : Gains sha prim job.codec I) (prev : Option Manifest)
    (snapshot : Manifest) :
    Keeps I (writeMissingBlobsForSnapshot sha prim job env prev snapshot) :=
  keeps_foldlM (keeps_writeMissingBlob h prev) _ _

/-- A scan without a new version writes the index and the report of the source. -/
theorem keeps_finishScan_of (hindex : ∀ st sid text, I st → I (st.putIndex sid text))
    (hreport : ∀ st sid text, I st → I (st.putReport sid text)) (scanned : Scanned)
    (pass : BlobPass) : Keeps I (finishScanWithoutNewVersion sha job env scanned pass) := by
  refine keeps_read_bind fun st => ?_
  refine keeps_bind ?_ fun _ => keeps_bind (keeps_publish fun st hst => hreport st _ _ hst)
    fun _ => keeps_pure _
  unfold writeIndexIf
  split
  · exact keeps_publish fun st hst => hindex st _ _ hst
  · exact keeps_pure _

theorem keeps_finishScan (h : ∀ st sid d, I st → I (st.setDir sid d)) (scanned : Scanned)
    (pass : BlobPass) : Keeps I (finishScanWithoutNewVersion sha job env scanned pass) :=
  keeps_finishScan_of (fun st sid _ => h st sid _) (fun st sid _ => h st sid _) scanned pass

theorem keeps_pruneVersions (h : Surviving I) (pruned : List VersionInfo) :
    Keeps I (pruneVersions env sid pruned) := by
  unfold pruneVersions
  split
  · exact keeps_pure _
  · refine keeps_bind (keeps_foldlM ?_ pruned ()) fun _ => keeps_gc_of h env.gc
    intro _ v
    split
    · exact keeps_step fun st hst => h.setDir st _ _ hst
    · exact keeps_pure _

theorem keeps_commitVersion (h : ∀ st sid d, I st → I (st.setDir sid d)) (scanned : Scanned)
    (id : Str) (pass : BlobPass)
    (hprune : ∀ manifests : Map Str Text,
      Keeps I (pruneVersions env (sourceId sha job.watched.path) (prunedBy job pass.hadReadFailures
        (insertVersion job (pinBaseline job env scanned pass manifests).2.1
          ⟨id,pass.snapshot.createdAtUnix⟩)) : Store.Op Text Unit)) :
    Keeps I (commitVersion sha job env scanned id pass) := by
  refine keeps_read_bind fun st => ?_
  refine keeps_bind (keeps_publish fun st hst => h st _ _ hst) fun _ => ?_
  refine keeps_bind (keeps_publish fun st hst => h st _ _ hst) fun _ => ?_
  refine keeps_bind (keeps_publish fun st hst => h st _ _ hst) fun _ => ?_
  exact keeps_bind (hprune _) fun _ => keeps_pure _

/-- The scan changes a store only by creating the directory of the source. -/
theorem keeps_scanSource_of (h : ∀ st sid, I st → I (st.ensureDir sid)) :
    Keeps I (scanSource sha job env : Store.Op Text Scanned) := by
  refine keeps_read_bind fun st => ?_
  refine keeps_lift_bind fun _ _ => ?_
  refine keeps_check_bind fun _ => ?_
  refine keeps_bind (keeps_publish fun st hst => h st _ hst) fun _ => ?_
  refine keeps_lift_bind fun _ _ => ?_
  refine keeps_lift_bind fun _ _ => ?_
  exact keeps_lift_bind fun _ _ => keeps_pure _

theorem keeps_scanSource (h : ∀ st sid d, I st → I (st.setDir sid d)) :
    Keeps I (scanSource sha job env : Store.Op Text Scanned) :=
  keeps_scanSource_of fun st sid => h st sid _

theorem keeps_backup (h : KeptBy sha prim job.codec I) :
    Keeps I (backupOneFolder sha prim job env) := by
  refine keeps_bind (keeps_scanSource h.setDir) fun scanned => ?_
  split
  · exact keeps_finishScan h.setDir scanned _
  · refine keeps_read_bind fun st => ?_
    refine keeps_bind (keeps_writeMissingBlobs h.putBlob scanned.prev scanned.snapshot)
      fun written => ?_
    dsimp only
    split
    · exact keeps_finishScan h.setDir scanned _
    · exact keeps_commitVersion h.setDir scanned _ _ fun _ => keeps_pruneVersions h.toSurviving _

theorem keeps_removeKept (h : Surviving I) (sourcePath : Str)
    (env : RemoveKeptEnv) : Keeps I (removeKeptSafetyVersion sha sourcePath env) := by
  refine keeps_read_bind fun st => ?_
  refine keeps_lift_bind fun index _ => ?_
  split
  · exact keeps_pure _
  · split
    · refine keeps_bind (keeps_publish fun st hst => h.setDir st _ _ hst) fun _ => ?_
      refine keeps_bind ?_ fun _ => keeps_bind (keeps_gc_of h env.gc) fun _ => keeps_pure _
      refine keeps_read_bind fun t => keeps_check_bind fun _ => ?_
      exact keeps_step fun u hst => h.setDir u _ _ hst
    · exact keeps_bind (keeps_publish fun st hst => h.setDir st _ _ hst) fun _ => keeps_pure _

end Calls

/-- Every blob decodes with the key to content of the hash in its path. -/
def Readable (sha : Sha256) (prim : Primitives) (reader : Option BlobCipher) (st : Store Text) :
    Prop :=
  ∀ (path : BlobPath) (blob : Bytes), st.blobs[path]? = some blob → ∃ content,
    BlobCodec.decodeBlob prim reader blob = .ok content ∧ path = blobPath sha (sha256Hex sha content)

/-- What a writer wrote, a reader can read. -/
def SameKey (writer reader : Option BlobCipher) : Prop :=
  ∀ cipher ∈ writer, ∃ c ∈ reader, c.key = cipher.key

/-- The key matters only for encrypted blobs, and of a cipher only the key. -/
theorem decodeBlob_of_sameKey {writer reader : Option BlobCipher} (hk : SameKey writer reader)
    {blob content : Bytes} (h : BlobCodec.decodeBlob prim writer blob = .ok content) :
    BlobCodec.decodeBlob prim reader blob = .ok content := by
  unfold BlobCodec.decodeBlob at h ⊢
  split
  · rename_i henc
    rw [if_pos henc] at h
    cases writer with
    | none => cases h
    | some cipher =>
        obtain ⟨c,rfl,hkey⟩ := hk cipher rfl
        dsimp only at h ⊢
        rw [hkey]
        exact h
  · rename_i henc
    rw [if_neg henc] at h
    exact h

omit [StoreText Text] in
theorem surviving_readable (reader : Option BlobCipher) :
    Surviving (Readable sha prim reader : Store Text → Prop) := by
  refine ⟨fun _ _ _ h => h,?_⟩
  intro st path h p blob hp
  rw [Store.eraseBlob,getElem?_erase] at hp
  split at hp
  · cases hp
  · exact h p blob hp

omit [StoreText Text] in
theorem keptBy_readable {codec : BlobCodec} {reader : Option BlobCipher}
    (hk : SameKey codec.cipher reader) :
    KeptBy sha prim codec (Readable sha prim reader : Store Text → Prop) := by
  refine ⟨surviving_readable reader,?_⟩
  intro st hash blob hv h p blob' hp
  obtain ⟨content,hdecode,hhash⟩ := bind_eq_ok.mp hv
  obtain rfl := Except.ok.inj hhash
  rw [Store.putBlob,getElem?_insert] at hp
  split at hp
  · rename_i heq
    cases hp
    exact ⟨content,decodeBlob_of_sameKey hk hdecode,(Std.LawfulEqCmp.compare_eq_iff_eq.mp heq).symm⟩
  · exact h p blob' hp

/-- The call encrypts with the reader's key or not at all. -/
def CallReadable (reader : Option BlobCipher) : StoreCall → Prop
  | .backup job _ => SameKey job.codec.cipher reader
  | .removeKept _ _ => True

theorem readable_of_reachable {reader : Option BlobCipher} {A : StoreCall → Prop} {st : Store Text}
    (hA : ∀ call, A call → CallReadable reader call) (h : ReachableBy sha prim A st) :
    Readable sha prim reader st := by
  refine Reachable.invariant ?_ ?_ h
  · intro path blob hp
    simp [Store.empty] at hp
  · rintro ⟨⟨job,env⟩ | ⟨sourcePath,env⟩,hcall⟩
    · exact (keeps_backup (keptBy_readable (hA _ hcall))).void
    · exact (keeps_removeKept (surviving_readable reader) sourcePath env).void

end BlobInvariant
end BackupSync
