import BackupSync.SafetyScans
import BackupSync.RestoredManifest

/-!
# Listing versions and finding them again

list_versions goes through the watched entries, each with the index in the store
of its own destination. A restore is asked for by source path and version id
alone, and destination_root_for_source takes the first enabled entry of that
path. A source may be protected to several destinations, one entry each, so what
an entry lists can be in a store that no request for its path leads to.

The two agree on every state of the stores exactly if the first enabled entry of
each listed path is a directory entry for the same folder.
-/
namespace BackupSync
open Checks Interruptible.Action RelativePath ContentHash BackupSync.Configuration RestoreVersion
  StoreCompleteness SafetyScans BackupRestore

inductive ListError where
  | missingDestination (id path : Str)
  | readIndex
  | parseIndex
  | unsafeIndex (reason : VersionIndex.UnsafeId)
  deriving DecidableEq

/-- The outcomes of the file system calls of one listing, by watched entry. -/
structure ListEnv where
  /-- A look that fails finds nothing. -/
  indexSeen : WatchedPath → Bool
  indexReadable : WatchedPath → Bool

structure VersionFileInfo where
  relPath : Str
  len : Nat
  mtimeUnix : Int
  mtimeNanos : Nat
  sha256 : Str
  deriving DecidableEq

structure ListVersionFilesResult where
  totalFiles : Nat
  files : List VersionFileInfo
  deriving DecidableEq

namespace VersionListing

variable {Text : Type} [StoreText Text] (sha : Sha256)

/-- The versions of one entry. -/
def listWatched (cfg : Config) (disk : Disk Text) (env : ListEnv) (w : WatchedPath) :
    Except ListError (Str × List VersionInfo) := do
  let d ← orElse (destinationById cfg w.destinationId) (.missingDestination w.destinationId w.path)
  match ((disk.store d.path).dir (sourceId sha w.path)).index with
  | none => return (w.path,[])
  | some text =>
      if env.indexSeen w then do
        require (env.indexReadable w) .readIndex
        let index ← orElse (StoreText.readIndex text) .parseIndex
        index.validateVersionIndex.mapError .unsafeIndex
        return (w.path,index.versions)
      else return (w.path,[])

def listVersions (cfg : Config) (disk : Disk Text) (env : ListEnv) :
    Except ListError (List (Str × List VersionInfo)) :=
  (cfg.watched.filter fun w => w.enabled && w.kind = .directory).mapM (listWatched sha cfg disk env)

/-- load_manifest_for_request with the destination it resolves. -/
def requestedManifest (cfg : Config) (disk : Disk Text) (req : RestoreRequest) (env : RestoreEnv) :
    Except RestoreError Manifest := do
  require (VersionIndex.validateVersionId req.versionId) .invalidVersionId
  let root ← destinationRootForSource cfg req.sourcePath
  loadManifestForRequest sha req env (disk.store root)

/-- str::to_ascii_lowercase. -/
def lowercase (s : Str) : Str := s.map Char.toLower

/-- The query as it is compared: trimmed, lower case, and none if nothing is left. -/
def normalQuery (query : Option Str) : Option Str :=
  query.map trim |>.filter (· ≠ []) |>.map lowercase

/-- The files of a manifest that have a hash. -/
def fileInfos (m : Manifest) : List VersionFileInfo :=
  m.entryValues.filterMap fun e =>
    if e.kind = .file then e.sha256.map fun hash => ⟨e.relPath,e.len,e.mtimeUnix,e.mtimeNanos,hash⟩
    else none

def listedFiles (query : Option Str) (limit : Nat) (m : Manifest) : ListVersionFilesResult :=
  ⟨(fileInfos m).length,((fileInfos m).filter fun f =>
    (normalQuery query).all fun q => decide (q <:+: lowercase f.relPath)).take (max limit 1)⟩

def listVersionFiles (cfg : Config) (disk : Disk Text) (sourcePath versionId : Str)
    (query : Option Str) (limit : Nat) (env : RestoreEnv) :
    Except RestoreError ListVersionFilesResult := do
  let m ← requestedManifest sha cfg disk ⟨sourcePath,versionId,.inPlace,false⟩ env
  return listedFiles query limit m

variable {sha}

/-- The check of a manifest that was found. -/
def accepted (m : Manifest) : Except RestoreError Manifest := do
  m.validateManifest.mapError .unsafeManifest
  return m

/-- Both requests for a version get to the given manifest, in the given store. -/
structure FindsManifest (sha : Sha256) (prim : Primitives) (cfg : Config) (disk : Disk Text)
    (sourcePath versionId root : Str) (m : Manifest) : Prop where
  files : ∀ query limit env, env.manifestReadable = true →
    listVersionFiles sha cfg disk sourcePath versionId query limit env =
      (accepted m).map (listedFiles query limit)
  restore : ∀ mode target env, env.lease = true → env.manifestReadable = true →
    restoreVersion sha prim cfg disk ⟨sourcePath,versionId,mode,target⟩ env =
      (lift (accepted m) >>= restoreManifest sha prim cfg (disk.store root)
        ⟨sourcePath,versionId,mode,target⟩ env)

/-- The version is in the index of an enabled directory entry of the path. -/
def ListedAt (sha : Sha256) (cfg : Config) (disk : Disk Text) (root path : Str) (v : VersionInfo) :
    Prop :=
  ∃ w ∈ cfg.watched, w.enabled = true ∧ w.kind = .directory ∧ w.path = path ∧
    (∃ d, destinationById cfg w.destinationId = some d ∧ d.path = root) ∧
    ∃ index, Stored (disk.store root) (sourceId sha path) index ∧ v ∈ index.versions

/-- Every listed version is found where it is listed. -/
def ListedFound (sha : Sha256) (prim : Primitives) (cfg : Config) (disk : Disk Text) : Prop :=
  ∀ env out, listVersions sha cfg disk env = .ok out → ∀ path versions, (path,versions) ∈ out →
    ∀ v ∈ versions, ∃ root m, ListedAt sha cfg disk root path v ∧
      HasManifest (disk.store root) (sourceId sha path) v.id m ∧
      FindsManifest sha prim cfg disk path v.id root m

/-- The first enabled entry of the path of a listed entry is for the same folder. -/
def OneHome (cfg : Config) : Prop :=
  ∀ w ∈ cfg.watched, w.enabled = true → w.kind = .directory →
    ∀ first, (cfg.watched.find? fun w' => w'.enabled && samePath w'.path w.path) = some first →
      first.kind = .directory ∧ (destinationById cfg first.destinationId).map Destination.path =
        (destinationById cfg w.destinationId).map Destination.path

variable {prim : Primitives} {cfg : Config} {disk : Disk Text}

/-- A request that resolves to a store gets the manifest this store has for the version. -/
theorem requestedManifest_eq {req : RestoreRequest} {env : RestoreEnv} {root : Str} {m : Manifest}
    (hid : VersionIndex.validateVersionId req.versionId = true)
    (hroot : destinationRootForSource cfg req.sourcePath = .ok root)
    (hm : HasManifest (disk.store root) (sourceId sha req.sourcePath) req.versionId m)
    (hread : env.manifestReadable = true) :
    loadManifestForRequest sha req env (disk.store root) = accepted m ∧
      requestedManifest sha cfg disk req env = accepted m := by
  obtain ⟨text,htext,hm⟩ := hm
  have hload : loadManifestForRequest sha req env (disk.store root) = accepted m := by
    unfold loadManifestForRequest
    rw [hid,htext,hread]
    change (do
      let m ← orElse (StoreText.readManifest text) .parseManifest
      m.validateManifest.mapError .unsafeManifest
      return m) = accepted m
    rw [hm]
    rfl
  refine ⟨hload,?_⟩
  unfold requestedManifest
  rw [hid,hroot]
  exact hload

theorem findsManifest_of_root {path id root : Str} {m : Manifest}
    (hid : VersionIndex.validateVersionId id = true)
    (hroot : destinationRootForSource cfg path = .ok root)
    (hm : HasManifest (disk.store root) (sourceId sha path) id m) :
    FindsManifest sha prim cfg disk path id root m := by
  refine ⟨?_,?_⟩
  · intro query limit env hread
    obtain ⟨-,hreq⟩ := @requestedManifest_eq _ _ sha cfg disk ⟨path,id,.inPlace,false⟩ env root m
      hid hroot hm hread
    unfold listVersionFiles
    rw [hreq]
    rfl
  · intro mode target env hlease hread
    obtain ⟨hload,-⟩ := @requestedManifest_eq _ _ sha cfg disk ⟨path,id,mode,target⟩ env root m
      hid hroot hm hread
    have hrest : restoreVersion sha prim cfg disk ⟨path,id,mode,target⟩ env = (do
        lift (require (VersionIndex.validateVersionId id) .invalidVersionId)
        let root ← lift (destinationRootForSource cfg path)
        check env.lease .lease
        let m ← lift (loadManifestForRequest sha ⟨path,id,mode,target⟩ env (disk.store root))
        restoreManifest sha prim cfg (disk.store root) ⟨path,id,mode,target⟩ env m) := rfl
    rw [hrest,hid,hroot,hlease,← hload]
    rfl

/-- What an entry lists is in the checked index of its own store. -/
theorem listWatched_eq_ok {env : ListEnv} {w : WatchedPath} {path : Str}
    {versions : List VersionInfo} (h : listWatched sha cfg disk env w = .ok (path,versions)) :
    path = w.path ∧ ∃ d, destinationById cfg w.destinationId = some d ∧
      (versions = [] ∨ ∃ index, Stored (disk.store d.path) (sourceId sha w.path) index ∧
        index.validateVersionIndex = .ok () ∧ index.versions = versions) := by
  obtain ⟨d,hd,h⟩ := bind_eq_ok.mp h
  have hd := orElse_eq_ok.mp hd
  split at h
  · cases h
    exact ⟨rfl,d,hd,.inl rfl⟩
  · rename_i text htext
    split at h
    · obtain ⟨-,h⟩ := then_eq_ok.mp h
      obtain ⟨index,hindex,h⟩ := bind_eq_ok.mp h
      obtain ⟨hvalid,h⟩ := then_eq_ok.mp h
      cases h
      exact ⟨rfl,d,hd,.inr ⟨index,⟨text,htext,orElse_eq_ok.mp hindex⟩,mapError_eq_ok.mp hvalid,rfl⟩⟩
    · cases h
      exact ⟨rfl,d,hd,.inl rfl⟩

/-- In an accepted configuration the lookup gives the folder of the first enabled entry. -/
theorem destinationRootForSource_eq_ok (hcfg : Accepted cfg) {path root : Str} :
    destinationRootForSource cfg path = .ok root ↔
      ∃ first, (cfg.watched.find? fun w => w.enabled && samePath w.path path) = some first ∧
        first.kind = .directory ∧
        (destinationById cfg first.destinationId).map Destination.path = some root := by
  unfold destinationRootForSource
  rw [bind_eq_ok]
  refine exists_congr fun first => ?_
  rw [orElse_eq_ok,then_eq_ok,require_eq_ok,bind_eq_ok,hcfg.find?_eq,Option.map_eq_some_iff]
  simp only [decide_eq_true_eq,orElse_eq_ok]
  refine and_congr_right fun _ => and_congr_right fun _ => exists_congr fun d => ?_
  exact and_congr_right fun _ => ⟨fun h => Except.ok.inj h,fun h => congrArg Except.ok h⟩

/-- With one home for each path every listed version of complete stores is found. -/
theorem listedFound_of_oneHome (hcfg : Accepted cfg) (hhome : OneHome cfg)
    (hcomplete : ∀ root, Complete sha (disk.store root)) : ListedFound sha prim cfg disk := by
  intro env out hout path versions hmem v hv
  obtain ⟨w,hw,hlist⟩ := exists_of_mem_mapM_eq_ok hout hmem
  rw [List.mem_filter,Bool.and_eq_true,decide_eq_true_eq] at hw
  obtain ⟨hw,henabled,hkind⟩ := hw
  obtain ⟨rfl,d,hd,rfl | ⟨index,hindex,hvalid,rfl⟩⟩ := listWatched_eq_ok hlist
  · cases hv
  obtain ⟨text,htext,hread⟩ := hindex
  obtain ⟨index',hread',hback⟩ := hcomplete d.path (sourceId sha w.path) text htext
  rw [hread] at hread'
  cases hread'
  obtain ⟨mtext,m,hmtext,hm,-⟩ := hback v hv
  obtain ⟨first,hfirst⟩ : ∃ first,
      (cfg.watched.find? fun w' => w'.enabled && samePath w'.path w.path) = some first := by
    apply Option.isSome_iff_exists.mp
    rw [List.find?_isSome]
    exact ⟨w,hw,by simp [henabled,samePath]⟩
  obtain ⟨hdir,hsame⟩ := hhome w hw henabled hkind first hfirst
  have hroot : destinationRootForSource cfg w.path = .ok d.path :=
    (destinationRootForSource_eq_ok hcfg).mpr ⟨first,hfirst,hdir,by rw [hsame,hd]; rfl⟩
  have hid := (VersionIndex.validateVersionIndex_eq_ok.mp hvalid).1 v hv
  exact ⟨d.path,m,⟨w,hw,henabled,hkind,rfl,⟨d,hd,rfl⟩,index,⟨text,htext,hread⟩,hv⟩,
    ⟨mtext,hmtext,hm⟩,findsManifest_of_root hid hroot ⟨mtext,hmtext,hm⟩⟩

section Home
variable (sha)

/-- A version without entries. -/
def emptyManifest (path : Str) : Manifest := ⟨1,path,0,none,none,[],∅⟩

def homeDir (path : Str) : SourceDir Text :=
  ⟨some (StoreText.writeIndex ⟨1,path,[⟨morning.text,0⟩],none,none,none⟩),
    (∅ : Map Str Text).insert (manifestName morning.text)
      (StoreText.writeManifest (emptyManifest path)),none⟩

/-- One destination has a version of one source, and there is nothing else. -/
def homeDisk (root path : Str) : Disk Text :=
  (∅ : Disk Text).setStore root (Store.empty.setDir (sourceId sha path) (homeDir path))

variable {sha}

theorem dir_homeDisk (root path root' sid : Str) :
    ((homeDisk sha root path : Disk Text).store root').dir sid =
      if root' = root ∧ sid = sourceId sha path then homeDir path else .empty := by
  unfold homeDisk
  by_cases hroot : root' = root
  · subst hroot
    rw [Disk.store_setStore_self]
    by_cases hsid : sid = sourceId sha path
    · subst hsid
      simp
    · rw [Store.dir_setDir_of_ne hsid,if_neg fun h => hsid h.2]
      simp [Store.dir,Store.empty]
  · rw [Disk.store_setStore_of_ne hroot,if_neg fun h => hroot h.1]
    simp [Disk.store,Store.dir,Store.empty]

theorem hasManifest_homeDisk {root path root' sid id : Str} {m : Manifest} :
    HasManifest ((homeDisk sha root path : Disk Text).store root') sid id m ↔
      root' = root ∧ sid = sourceId sha path ∧ id = morning.text ∧ m = emptyManifest path := by
  unfold HasManifest
  rw [dir_homeDisk]
  split
  · rename_i h
    simp only [homeDir,h,true_and,getElem?_insert]
    constructor
    · rintro ⟨text,htext,hm⟩
      split at htext
      · rename_i hname
        cases htext
        rw [StoreText.readManifest_writeManifest] at hm
        exact ⟨(manifestName_injective (by simpa using hname)).symm,(Option.some.inj hm).symm⟩
      · simp at htext
    · rintro ⟨rfl,rfl⟩
      exact ⟨StoreText.writeManifest (emptyManifest path),by simp,by simp⟩
  · rename_i h
    constructor
    · rintro ⟨text,htext,-⟩
      simp [SourceDir.empty] at htext
    · intro h'
      exact absurd ⟨h'.1,h'.2.1⟩ h

theorem complete_homeDisk (root path root' : Str) :
    Complete sha ((homeDisk sha root path : Disk Text).store root') := by
  intro sid text htext
  rw [dir_homeDisk] at htext
  split at htext
  · rename_i h
    cases htext
    refine ⟨_,StoreText.readIndex_writeIndex _,?_⟩
    intro v hv
    rw [List.mem_singleton] at hv
    subst hv
    obtain ⟨mtext,hmtext,hm⟩ : HasManifest ((homeDisk sha root path : Disk Text).store root') sid
      morning.text (emptyManifest path) := hasManifest_homeDisk.mpr ⟨h.1,h.2,rfl,rfl⟩
    refine ⟨mtext,_,hmtext,hm,?_⟩
    intro k e he
    simp [emptyManifest] at he
  · cases htext

/-- Every entry can be listed there, and an entry of the source for the destination lists the
version. -/
theorem listWatched_homeDisk (hcfg : Accepted cfg) (root path : Str) {w : WatchedPath}
    (hw : w ∈ cfg.watched) : ∃ versions,
      listWatched sha cfg (homeDisk sha root path : Disk Text) ⟨fun _ => true,fun _ => true⟩ w =
        .ok (w.path,versions) ∧
      ((destinationById cfg w.destinationId).map Destination.path = some root → w.path = path →
        ⟨morning.text,0⟩ ∈ versions) := by
  obtain ⟨d,hd⟩ := hcfg.watched w hw
  have hdir := @dir_homeDisk Text _ sha root path d.path (sourceId sha w.path)
  unfold listWatched
  rw [hd]
  simp only [orElse,bind,Except.bind,hdir]
  by_cases h : d.path = root ∧ sourceId sha w.path = sourceId sha path
  · have hvalid : (⟨1,path,[⟨morning.text,0⟩],none,none,none⟩ : VersionIndex).validateVersionIndex =
        .ok () := VersionIndex.validateVersionIndex_eq_ok.mpr (by simp [morning.valid])
    refine ⟨[⟨morning.text,0⟩],?_,fun _ _ => List.mem_singleton_self _⟩
    simp [h,homeDir,require,hvalid]
    rfl
  · refine ⟨[],by simp [h,SourceDir.empty]; rfl,?_⟩
    intro hroot hpath
    exact absurd ⟨by simpa using hroot,by rw [hpath]⟩ h

/-- Where the version is found, the lookup leads to its destination. -/
theorem root_of_finds {root path root' : Str} {m : Manifest}
    (hm : HasManifest ((homeDisk sha root path : Disk Text).store root') (sourceId sha path)
      morning.text m)
    (hfind : FindsManifest sha prim cfg (homeDisk sha root path : Disk Text) path morning.text
      root' m) : destinationRootForSource cfg path = .ok root := by
  obtain ⟨-,-,-,rfl⟩ := hasManifest_homeDisk.mp hm
  have haccepted : accepted (emptyManifest path) = .ok (emptyManifest path) := by
    have hvalid : (emptyManifest path).validateManifest = .ok () :=
      Manifest.validateManifest_eq_ok.mpr (by simp [emptyManifest])
    unfold accepted
    rw [hvalid]
    rfl
  have hfiles := hfind.files none 1 calmRestore rfl
  rw [haccepted] at hfiles
  obtain ⟨m',hreq,-⟩ := bind_eq_ok.mp hfiles
  obtain ⟨-,hreq⟩ := then_eq_ok.mp hreq
  obtain ⟨r,hr,hload⟩ := bind_eq_ok.mp hreq
  obtain ⟨-,hload⟩ := then_eq_ok.mp hload
  obtain ⟨text,htext,hload⟩ := bind_eq_ok.mp hload
  obtain ⟨-,hload⟩ := then_eq_ok.mp hload
  obtain ⟨m'',hm'',-⟩ := bind_eq_ok.mp hload
  have hhas : HasManifest ((homeDisk sha root path : Disk Text).store r) (sourceId sha path)
      morning.text m'' := ⟨text,orElse_eq_ok.mp htext,orElse_eq_ok.mp hm''⟩
  rw [hr,(hasManifest_homeDisk.mp hhas).1]

end Home

/-- In an accepted configuration every listed version of complete stores is found by its path and
id exactly if the first enabled entry of each listed path is for the folder it is listed from. The
folders are those that the paths of the destinations lead to. -/
theorem listed_versions_found_iff {probe : PathProbe} (place : Str → Str)
    (hcfg : Configuration.validate cfg probe = .ok ()) :
    (∀ disk : Disk Text, (∀ root, Complete sha (disk.store root)) →
      ListedFound sha prim (resolvedBy place cfg) disk) ↔ OneHome (resolvedBy place cfg) := by
  have hcfg := (accepted_of_validate hcfg).resolvedBy place
  generalize resolvedBy place cfg = cfg at hcfg ⊢
  refine ⟨?_,fun h disk hdisk => listedFound_of_oneHome hcfg h hdisk⟩
  intro h w hw henabled hkind first hfirst
  obtain ⟨d,hd⟩ := hcfg.watched w hw
  have hok : ∀ w' ∈ cfg.watched.filter fun w => w.enabled && w.kind = .directory, ∃ y,
      listWatched sha cfg (homeDisk sha d.path w.path : Disk Text) ⟨fun _ => true,fun _ => true⟩ w' =
        .ok y := by
    intro w' hw'
    obtain ⟨versions,hv,-⟩ := @listWatched_homeDisk Text _ sha cfg hcfg d.path w.path w'
      (List.mem_of_mem_filter hw')
    exact ⟨_,hv⟩
  obtain ⟨out,hout⟩ := mapM_ok_iff.mpr hok
  have hwin : w ∈ cfg.watched.filter fun w => w.enabled && w.kind = .directory := by
    simp [hw,henabled,hkind]
  obtain ⟨⟨path,versions⟩,hmem,hlist⟩ := exists_of_mapM_eq_ok hout hwin
  obtain ⟨versions',hv,hin⟩ := @listWatched_homeDisk Text _ sha cfg hcfg d.path w.path w hw
  rw [hv] at hlist
  cases hlist
  obtain ⟨root,m,-,hm,hfind⟩ := h _ (complete_homeDisk d.path w.path) _ out hout _ _ hmem _
    (hin (by rw [hd]; rfl) rfl)
  obtain ⟨first',hfirst',hdir,hpath⟩ :=
    (destinationRootForSource_eq_ok hcfg).mp (root_of_finds hm hfind)
  rw [hfirst] at hfirst'
  cases hfirst'
  exact ⟨hdir,by rw [hpath,hd]; rfl⟩

def mainAndSpare (first second : WatchedPath) : Config :=
  {notesConfig notesJob.codec with
    watched := [first,second]
    destinations := [⟨"main".toList,"/mnt/main".toList,none,[]⟩,
      ⟨"spare".toList,"/mnt/spare".toList,none,[]⟩]}

def writable : PathProbe := ⟨fun _ => true,fun _ => false,fun _ => true⟩

def spareNotes : WatchedPath := {notesJob.watched with destinationId := "spare".toList}

def sparePhotos : WatchedPath := {spareNotes with path := "/home/photos".toList}

/-- Two sources with a destination each. -/
theorem listed_versions_found_iff_two_sources :
    Configuration.validate (mainAndSpare notesJob.watched sparePhotos) writable = .ok () ∧
    ∀ disk : Disk PlainText, (∀ root, Complete notesSha (disk.store root)) →
      ListedFound notesSha .transparent (mainAndSpare notesJob.watched sparePhotos) disk := by
  have hvalid : Configuration.validate (mainAndSpare notesJob.watched sparePhotos) writable =
      .ok () := by decide +kernel
  refine ⟨hvalid,(listed_versions_found_iff (fun path => path) hvalid).mpr ?_⟩
  have hfinds : ∀ w ∈ (mainAndSpare notesJob.watched sparePhotos).watched,
      ((mainAndSpare notesJob.watched sparePhotos).watched.find? fun w' =>
        w'.enabled && samePath w'.path w.path) = some w := by decide +kernel
  intro w hw _ hkind first hfirst
  obtain rfl := Option.some.inj ((hfinds w hw).symm.trans hfirst)
  exact ⟨hkind,rfl⟩

/-- One source with two destinations, and a version in the second one only. It is listed, and
neither its files nor a restore of it are found. -/
theorem second_destination_not_found :
    Configuration.validate (mainAndSpare notesJob.watched spareNotes) writable = .ok () ∧
    (∀ root, Complete notesSha
      ((homeDisk notesSha "/mnt/spare".toList "/home/notes".toList : Disk PlainText).store root)) ∧
    listVersions notesSha (mainAndSpare notesJob.watched spareNotes)
      (homeDisk notesSha "/mnt/spare".toList "/home/notes".toList : Disk PlainText)
      ⟨fun _ => true,fun _ => true⟩ =
      .ok [("/home/notes".toList,[]),("/home/notes".toList,[⟨morning.text,0⟩])] ∧
    listVersionFiles notesSha (mainAndSpare notesJob.watched spareNotes)
      (homeDisk notesSha "/mnt/spare".toList "/home/notes".toList : Disk PlainText)
      "/home/notes".toList morning.text none 1 calmRestore = .error .readManifest ∧
    (restoreVersion notesSha .transparent (mainAndSpare notesJob.watched spareNotes)
      (homeDisk notesSha "/mnt/spare".toList "/home/notes".toList : Disk PlainText)
      ⟨"/home/notes".toList,morning.text,.toDirectory,true⟩ calmRestore emptyArea).result =
      .error .readManifest ∧
    ¬ ListedFound notesSha .transparent (mainAndSpare notesJob.watched spareNotes)
      (homeDisk notesSha "/mnt/spare".toList "/home/notes".toList : Disk PlainText) := by
  have hlist : listVersions notesSha (mainAndSpare notesJob.watched spareNotes)
      (homeDisk notesSha "/mnt/spare".toList "/home/notes".toList : Disk PlainText)
      ⟨fun _ => true,fun _ => true⟩ =
      .ok [("/home/notes".toList,[]),("/home/notes".toList,[⟨morning.text,0⟩])] := by decide +kernel
  have hroot : destinationRootForSource (mainAndSpare notesJob.watched spareNotes)
      "/home/notes".toList = .ok "/mnt/main".toList := by decide +kernel
  refine ⟨by decide +kernel,complete_homeDisk _ _,hlist,by decide +kernel,by decide +kernel,?_⟩
  intro h
  obtain ⟨root,m,-,hm,hfind⟩ := h _ _ hlist "/home/notes".toList [⟨morning.text,0⟩] (by simp)
    ⟨morning.text,0⟩ (by simp)
  have hspare := root_of_finds hm hfind
  rw [hroot] at hspare
  revert hspare
  decide +kernel

end VersionListing
end BackupSync
