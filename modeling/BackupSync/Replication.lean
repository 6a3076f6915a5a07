import BackupSync.Configuration
import BackupSync.HistoryRemoval

/-!
# Copying a store to a replica

replicate_one_pair brings the store of one destination to another one, source
directory by source directory. It checks the index, every manifest and every blob
on the source side, copies what is missing or differs, checks both sides again,
publishes the index and then removes manifests the index does not list, up to a
budget. The source store does not change meanwhile; the replica is the state.

Which looks, reads and copies succeed is an explicit record. A blob is looked at
on behalf of the version that names it, so outcomes may differ between versions
that share it.
-/
namespace BackupSync
open Checks Interruptible Interruptible.Action ContentHash SafetyBaseline

/-- A file of a store, with the version a blob is wanted for. -/
inductive Artifact where
  | index (sid : Str)
  | manifest (sid id : Str)
  | blob (sid id hash : Str)
  | report (sid : Str)
  deriving DecidableEq, Repr

inductive Side where
  | source | replica
  deriving DecidableEq, Repr

/-- When an artifact is looked at. -/
inductive Stage where
  | preflight | copying | repaired | validation
  deriving DecidableEq, Repr

inductive ReplicationError where
  | leases
  | replicaUnavailable
  | createStoreRoot
  | codec
  | createSourcesRoot
  | createBlobsRoot
  | walkSources
  | inspect (side : Side) (a : Artifact)
  | missing (side : Side) (a : Artifact)
  | readFile (side : Side) (a : Artifact)
  | parse (side : Side) (a : Artifact)
  | unsafeIndex (side : Side) (sid : Str) (reason : VersionIndex.UnsafeId)
  | createSourceRoot (sid : Str)
  | createManifestsRoot (sid : Str)
  | invalidHash (hash : Str)
  | decode (a : Artifact) (error : CodecError)
  | hashMismatch (expected actual : Str)
  | copy (a : Artifact)
  | manifestDiffers (id : Str)
  | walkManifests (sid : Str)
  | removeManifest (name : Str)
  | readableView (path : Str)
  deriving DecidableEq, Repr

structure PairCounters where
  manifestsCopied : Nat
  blobsCopied : Nat
  bytesCopied : Nat
  manifestsDeleted : Nat
  deriving DecidableEq, Repr

structure VersionReplicationPlan where
  versionId : Str
  blobs : List Str
  deriving DecidableEq, Repr

/-- The outcomes of the file system calls for one pair of destinations. -/
structure PairEnv where
  replicaAvailable : Bool
  /-- The store directory of the source exists although it is empty. -/
  bareStoreRoot : Bool
  /-- The looks at the store of the source succeed. -/
  storeSeen : Bool
  storeCreated : Bool
  codecLoaded : Bool
  sourcesCreated : Bool
  blobsCreated : Bool
  sourceOrder : List Str
  sourceListed : Str → Bool
  dirCreated : Str → Bool
  manifestsCreated : Str → Bool
  /-- A look finds a regular file or nothing. -/
  inspected : Stage → Side → Artifact → Bool
  readable : Stage → Side → Artifact → Bool
  /-- The bytes written by a copy that succeeded. -/
  copied : Artifact → Option Nat
  manifestsSeen : Str → Bool
  manifestOrder : Str → List Str
  manifestListed : Str → Str → Bool
  manifestRemovable : Str → Str → Bool
  viewSynced : WatchedPath → Bool

namespace Replication

abbrev Op (Text α : Type) := Action (Store Text) ReplicationError α

/-- str::trim_end_matches on the reversed text. -/
def trimJsonRev : Str → Str
  | 'n' :: 'o' :: 's' :: 'j' :: '.' :: rest => trimJsonRev rest
  | s => s

def trimJson (name : Str) : Str := (trimJsonRev name.reverse).reverse

def fileHashes (m : Manifest) : List Str :=
  m.entryValues.filterMap fun e => if e.kind = .file then e.sha256 else none

def validateBlobHash (hash : Str) : Except ReplicationError Unit :=
  require (isLowerHexSha256 hash) (.invalidHash hash)

section
variable {Text : Type} [StoreText Text] [DecidableEq Text] (sha : Sha256) (prim : Primitives)
  (codec : BlobCodec) (src : Store Text) (env : PairEnv)

/-- require_regular_file and the read that follows it. -/
def openFile {α : Type} (stage : Stage) (side : Side) (a : Artifact) (found : Option α) :
    Except ReplicationError α := do
  require (env.inspected stage side a) (.inspect side a)
  let file ← orElse found (.missing side a)
  require (env.readable stage side a) (.readFile side a)
  return file

def requirePlaintextHash (a : Artifact) (blob : Bytes) (hash : Str) :
    Except ReplicationError Unit := do
  let actual ← (BlobCodec.sha256PlaintextBlob prim sha codec blob).mapError (.decode a)
  require (actual == hash) (.hashMismatch hash actual)

/-- The loop over the hashes of a manifest; a hash already planned is only checked for its form. -/
def planBlobs (sid id : Str) : List Str → List Str → Except ReplicationError (List Str)
  | plan,[] => .ok plan
  | plan,hash::hashes => do
      validateBlobHash hash
      if hash ∈ plan then planBlobs sid id plan hashes
      else do
        let blob ← openFile env .preflight .source (.blob sid id hash) src.blobs[blobPath sha hash]?
        requirePlaintextHash sha prim codec (.blob sid id hash) blob hash
        planBlobs sid id (plan++[hash]) hashes

def planVersion (sid : Str) (v : VersionInfo) : Except ReplicationError VersionReplicationPlan := do
  let text ← openFile env .preflight .source (.manifest sid v.id)
    (src.dir sid).manifests[manifestName v.id]?
  let m ← orElse (StoreText.readManifest text) (.parse .source (.manifest sid v.id))
  let blobs ← planBlobs sha prim codec src env sid v.id [] (fileHashes m)
  return ⟨v.id,blobs⟩

def buildReplicationPlans (sid : Str) (index : VersionIndex) :
    Except ReplicationError (List VersionReplicationPlan) :=
  index.versions.mapM (planVersion sha prim codec src env sid)

/-- copy_file_atomic: the rename is its only visible step. -/
def copyFileAtomic (a : Artifact) (publish : Store Text → Store Text) : Op Text Nat := do
  let bytes ← lift (orElse (env.copied a) (.copy a))
  step publish
  return bytes

/-- Whether the replica lacks a manifest or has another one. -/
def manifestNeedsCopy (stage : Stage) (sid id : Str) (dst : Store Text) :
    Except ReplicationError Bool := do
  require (env.inspected stage .replica (.manifest sid id)) (.inspect .replica (.manifest sid id))
  match (dst.dir sid).manifests[manifestName id]? with
  | none => return true
  | some theirs => do
      let ours ← openFile env stage .source (.manifest sid id) (src.dir sid).manifests[manifestName id]?
      require (env.readable stage .replica (.manifest sid id))
        (.readFile .replica (.manifest sid id))
      return !decide (ours = theirs)

def copyManifest (sid id : Str) (pair : PairCounters) : Op Text PairCounters := do
  let dst ← read
  let needed ← lift (manifestNeedsCopy src env .copying sid id dst)
  if needed then do
    let text ← lift (orElse (src.dir sid).manifests[manifestName id]? (.copy (.manifest sid id)))
    let bytes ← copyFileAtomic env (.manifest sid id) (Store.putManifest sid (manifestName id) text)
    return {pair with
      manifestsCopied := pair.manifestsCopied+1
      bytesCopied := saturatingAdd pair.bytesCopied bytes}
  else return pair

/-- blob_matches_plaintext_hash: an unreadable or undecodable blob does not match. -/
def blobMatches (a : Artifact) (blob : Bytes) (hash : Str) : Bool :=
  env.readable .copying .replica a &&
    decide (BlobCodec.sha256PlaintextBlob prim sha codec blob = .ok hash)

def blobNeedsCopy (a : Artifact) (hash : Str) (found : Option Bytes) : Bool :=
  match found with
  | none => true
  | some blob => !blobMatches sha prim codec env a blob hash

/-- The copy of a blob and the check of what was copied. -/
def repairBlob (sid id hash : Str) : Op Text Nat := do
  let blob ← lift (orElse src.blobs[blobPath sha hash]? (.copy (.blob sid id hash)))
  let bytes ← copyFileAtomic env (.blob sid id hash) (Store.putBlob (blobPath sha hash) blob)
  let dst ← read
  let stored ← lift (openFile env .repaired .replica (.blob sid id hash) dst.blobs[blobPath sha hash]?)
  lift (requirePlaintextHash sha prim codec (.blob sid id hash) stored hash)
  return bytes

def copyBlob (sid id : Str) (pair : PairCounters) (hash : Str) : Op Text PairCounters := do
  let dst ← read
  check (env.inspected .copying .replica (.blob sid id hash)) (.inspect .replica (.blob sid id hash))
  if blobNeedsCopy sha prim codec env (.blob sid id hash) hash dst.blobs[blobPath sha hash]? then do
    let bytes ← repairBlob sha prim codec src env sid id hash
    return {pair with
      blobsCopied := pair.blobsCopied+1
      bytesCopied := saturatingAdd pair.bytesCopied bytes}
  else return pair

def copyVersion (sid : Str) (pair : PairCounters) (plan : VersionReplicationPlan) :
    Op Text PairCounters := do
  let pair ← copyManifest src env sid plan.versionId pair
  plan.blobs.foldlM (copyBlob sha prim codec src env sid plan.versionId) pair

/-- The scan report is copied if it is there; a failed copy is passed over. -/
def copyReport (sid : Str) (pair : PairCounters) : Op Text PairCounters := do
  check (env.inspected .copying .source (.report sid)) (.inspect .source (.report sid))
  match (src.dir sid).report with
  | none => return pair
  | some text => do
      check (env.inspected .copying .replica (.report sid)) (.inspect .replica (.report sid))
      match env.copied (.report sid) with
      | none => return pair
      | some bytes => do
          step (Store.putReport sid text)
          return {pair with bytesCopied := saturatingAdd pair.bytesCopied bytes}

def validateManifestArtifacts (side : Side) (sid id : Str) (st : Store Text) :
    Except ReplicationError Unit := do
  let text ← openFile env .validation side (.manifest sid id) (st.dir sid).manifests[manifestName id]?
  let m ← orElse (StoreText.readManifest text) (.parse side (.manifest sid id))
  (fileHashes m).forM fun hash => do
    validateBlobHash hash
    let blob ← openFile env .validation side (.blob sid id hash) st.blobs[blobPath sha hash]?
    requirePlaintextHash sha prim codec (.blob sid id hash) blob hash

/-- files_have_identical_contents before publication, where both files must be there. -/
def requireIdentical (sid id : Str) (dst : Store Text) : Except ReplicationError Unit := do
  let ours ← openFile env .validation .source (.manifest sid id)
    (src.dir sid).manifests[manifestName id]?
  let theirs ← openFile env .validation .replica (.manifest sid id)
    (dst.dir sid).manifests[manifestName id]?
  require (ours = theirs) (.manifestDiffers id)

def validateReplicationPlans (sid : Str) (plans : List VersionReplicationPlan) (dst : Store Text) :
    Except ReplicationError Unit :=
  plans.forM fun plan => do
    requireIdentical src env sid plan.versionId dst
    validateManifestArtifacts sha prim codec env .source sid plan.versionId src
    validateManifestArtifacts sha prim codec env .replica sid plan.versionId dst

/-- The loop over the manifest files of the replica. -/
def mirrorLoop (sid : Str) (keep : List Str) :
    Nat → Nat → List Str → Op Text Nat
  | _,deleted,[] => return deleted
  | remaining,deleted,name::names => do
      check (env.manifestListed sid name) (.walkManifests sid)
      if !".json".toList.isSuffixOf name || keep.contains (trimJson name) then
        mirrorLoop sid keep remaining deleted names
      else match remaining with
        | 0 => return deleted
        | remaining+1 => do
            check (env.manifestRemovable sid name) (.removeManifest name)
            step (Store.eraseManifest sid name)
            mirrorLoop sid keep remaining (deleted+1) names

def mirrorManifestDeletions (budget : Nat) (sid : Str) (index : VersionIndex) : Op Text Nat := do
  let dst ← read
  if budget = 0 || !env.manifestsSeen sid then return 0
  else (mirrorLoop env sid index.ids budget 0
    (listed (env.manifestOrder sid) (dst.dir sid).manifests.keys))

/-- Deletions on the replica where the configuration asks for them. -/
def mirrorIf (cfg : Config) (sid : Str) (index : VersionIndex) (pair : PairCounters) :
    Op Text PairCounters :=
  if cfg.replicationMirrorManifests then do
    let deleted ← mirrorManifestDeletions env cfg.replicationMaxManifestDeletesPerCycle sid index
    return {pair with manifestsDeleted := saturatingAdd pair.manifestsDeleted deleted}
  else return pair

/-- An index file, parsed and checked. -/
def checkedIndex (side : Side) (sid : Str) (text : Text) : Except ReplicationError VersionIndex := do
  require (env.readable .preflight side (.index sid)) (.readFile side (.index sid))
  let index ← orElse (StoreText.readIndex text) (.parse side (.index sid))
  index.validateVersionIndex.mapError (.unsafeIndex side sid)
  return index

def checkReplicaIndex (sid : Str) (dst : Store Text) : Except ReplicationError Unit := do
  require (env.inspected .preflight .replica (.index sid)) (.inspect .replica (.index sid))
  match (dst.dir sid).index with
  | none => return ()
  | some text => do
      let _ ← checkedIndex env .replica sid text
      return ()

/-- From a source directory with an index to its published copy. -/
def replicateIndexed (cfg : Config) (sid : Str) (text : Text) (pair : PairCounters) :
    Op Text PairCounters := do
  let index ← lift (checkedIndex env .source sid text)
  check (env.dirCreated sid) (.createSourceRoot sid)
  step (Store.ensureDir sid)
  let dst ← read
  lift (checkReplicaIndex env sid dst)
  check (env.manifestsCreated sid) (.createManifestsRoot sid)
  let plans ← lift (buildReplicationPlans sha prim codec src env sid index)
  let pair ← plans.foldlM (copyVersion sha prim codec src env sid) pair
  let pair ← copyReport src env sid pair
  let dst ← read
  lift (validateReplicationPlans sha prim codec src env sid plans dst)
  let bytes ← copyFileAtomic env (.index sid) (Store.putIndex sid text)
  mirrorIf env cfg sid index {pair with bytesCopied := saturatingAdd pair.bytesCopied bytes}

/-- One source directory; without an index there is nothing to do. -/
def replicateSource (cfg : Config) (pair : PairCounters) (sid : Str) : Op Text PairCounters := do
  check (env.sourceListed sid) .walkSources
  check (env.inspected .preflight .source (.index sid)) (.inspect .source (.index sid))
  match (src.dir sid).index with
  | none => return pair
  | some text => replicateIndexed sha prim codec src env cfg sid text pair

def storeExists : Bool :=
  env.storeSeen && (src.sourcesExist || !src.blobs.isEmpty || env.bareStoreRoot)

/-- The walk over the source directories, then the readable views of the watched paths. -/
def replicateStore (cfg : Config) (srcId : Str) : Op Text PairCounters := do
  check env.storeCreated .createStoreRoot
  check env.codecLoaded .codec
  check env.sourcesCreated .createSourcesRoot
  step fun dst => {dst with sourcesExist := true}
  check env.blobsCreated .createBlobsRoot
  check src.sourcesExist .walkSources
  let pair ← (listed env.sourceOrder src.sources.keys).foldlM
    (replicateSource sha prim codec src env cfg) ⟨0,0,0,0⟩
  (cfg.watched.filter fun w => w.enabled && w.destinationId == srcId).foldlM
    (fun _ w => check (env.viewSynced w) (.readableView w.path)) ()
  return pair

def replicateOnePair (cfg : Config) (srcId : Str) : Op Text PairCounters := do
  check env.replicaAvailable .replicaUnavailable
  if storeExists src env then replicateStore sha prim codec src env cfg srcId
  else return ⟨0,0,0,0⟩

end

end Replication
end BackupSync
