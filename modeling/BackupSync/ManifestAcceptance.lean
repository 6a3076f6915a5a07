import BackupSync.BackupOutcome
import BackupSync.ReadableScan
import BackupSync.StoreCompleteness

/-!
# Whether restore accepts what backup commits

The scanner files an entry under the text of its path, with backslashes turned
into slashes and a leading dot component cut off. The restore side refuses a
whole manifest for one path that is empty, absolute, steps out of the tree or
starts like a Windows drive. Unix allows names that end up so, for instance a
file called c:x or one with a backslash after two dots.

The manifest a call commits is accepted if all names the scan looks at are
portable, and for a call without failures only then. So the manifests of portable
sources are accepted along every run.
-/
namespace BackupSync
open Interruptible RelativePath ContentHash ScanSnapshot BackupFolder StoreInvariant BackupOutcome
  StoreCompleteness

namespace ManifestAcceptance

variable {Text : Type} [StoreText Text] {sha : Sha256} {prim : Primitives} {job : FolderJob}
  {env : BackupEnv} {scanned : Scanned} {st t : Store Text} {r : FolderBackupResult}

/-- Every name of the walk is one the file system can hold. -/
def LegalWalk (walk : List WalkItem) : Prop :=
  ∀ item ∈ walk, ∀ names ∈ entryNames item, ∀ name ∈ names, LegalName name

/-- The names of a walk that the scan looks at. -/
def Seen (opts : ScanOptions) (walk : List WalkItem) (names : List Str) : Prop :=
  ∃ ignore, opts.ignoreSet = .ok ignore ∧ ∃ item ∈ walk, names ∈ entryNames item ∧
    skipped opts ignore names = false

def SourcePortable (opts : ScanOptions) (watched : WatchedPath) (source : SourceContents) : Prop :=
  match watched.kind with
  | .file => validateRelativePath ((fileName watched.path).getD "file".toList) = .ok ()
  | .directory => LegalWalk source.walk ∧ ∀ names, Seen opts source.walk names → Portable names

def PortableCall : StoreCall → Prop
  | .backup job env => SourcePortable job.scan job.watched env.source
  | .removeKept _ _ => True

def PathAccepted (k : Str) : Prop := validateRelativePath k = .ok ()

/-- What was seen is not the root itself, so its path is accepted where it is portable. -/
theorem pathAccepted_iff {opts : ScanOptions} {walk : List WalkItem} {names : List Str}
    (hlegal : LegalWalk walk) (h : Seen opts walk names) :
    PathAccepted (normalizeRel names) ↔ Portable names := by
  obtain ⟨ignore,-,item,hitem,hnames,hs⟩ := h
  have hne : names ≠ [] := by
    rintro rfl
    simp [skipped] at hs
  exact validate_normalizeRel hne fun n hn => (hlegal item hitem names hnames n hn).no_slash

theorem scannedPath_directory {opts : ScanOptions} {watched : WatchedPath} {source : SourceContents}
    {k : Str} (hk : watched.kind = .directory) : ScannedPath opts watched source k ↔
      ∃ names, Seen opts source.walk names ∧ k = normalizeRel names := by
  unfold ScannedPath
  rw [hk]
  constructor
  · rintro ⟨ignore,hi,item,hitem,names,hn,hs,rfl⟩
    exact ⟨names,⟨ignore,hi,item,hitem,hn,hs⟩,rfl⟩
  · rintro ⟨names,⟨ignore,hi,item,hitem,hn,hs⟩,rfl⟩
    exact ⟨ignore,hi,item,hitem,names,hn,hs,rfl⟩

/-- With well-formed entries only the paths are left to check. -/
theorem validateManifest_iff_paths {K : Scope} {m : Manifest} (h : WellFormed K m) :
    m.validateManifest = .ok () ↔ ∀ k ∈ m.entries, PathAccepted k := by
  rw [Manifest.validateManifest_eq_ok]
  constructor
  · intro hall k hk
    obtain ⟨e,he⟩ := exists_of_mem hk
    exact (hall k e he).1
  · intro hall k e he
    have hok := h k e he
    refine ⟨hall k (mem_of_getElem? he),hok.relPath_eq,?_⟩
    intro hash hh
    cases hkind : e.kind with
    | dir =>
        rw [hok.dir hkind] at hh
        cases hh
    | file =>
        obtain ⟨hash',hh',hlow⟩ := hok.file hkind
        rw [hh'] at hh
        cases hh
        exact hlow

theorem wellFormed_left {K : Scope} {prev : Option Manifest} {snapshot left : Manifest}
    (hs : WellFormed K snapshot) (hp : ∀ p ∈ prev, WellFormed K p)
    (h : LeftOf prev snapshot left) : WellFormed K left := by
  intro k e he
  rcases h.origin k e he with he | he
  · exact hs k e he
  · obtain ⟨p,hpm,he⟩ := Option.bind_eq_some_iff.mp he
    exact hp p hpm k e he

/-- Where the paths of what is left of a scan come from. -/
theorem path_origin {prev : Option Manifest} {raw snapshot left : Manifest}
    (hp : PrevKeyed prev)
    (hscan : scanSnapshot sha job.scan job.watched env.source prev env.scannedAt = .ok raw)
    (hent : snapshot.entries = raw.entries) (h : LeftOf prev snapshot left) {k : Str}
    (hk : k ∈ left.entries) : ScannedPath job.scan job.watched env.source k ∨
      ∃ p ∈ prev, k ∈ p.entries := by
  obtain ⟨e,he⟩ := exists_of_mem hk
  have hprev : prevAt prev k = some e → ∃ p ∈ prev, k ∈ p.entries := by
    intro hpe
    obtain ⟨p,hpm,hpe⟩ := Option.bind_eq_some_iff.mp hpe
    exact ⟨p,hpm,mem_of_getElem? hpe⟩
  rcases h.origin k e he with he | he
  · rw [hent] at he
    rcases scanSnapshot_origin hp hscan he with ⟨-,hpath⟩ | hold
    · exact .inl hpath
    · exact .inr (hprev hold)
  · exact .inr (hprev he)

theorem admitted_of_portable {call : StoreCall} (h : PortableCall call) :
    call.Admitted ⟨PathAccepted,False⟩ := by
  refine ⟨?_,nofun⟩
  rintro job env rfl k hk
  simp only [PortableCall,SourcePortable] at h
  cases hkind : job.watched.kind with
  | file =>
      rw [hkind] at h
      unfold ScannedPath at hk
      rw [hkind] at hk
      exact hk ▸ h
  | directory =>
      rw [hkind] at h
      obtain ⟨names,hseen,rfl⟩ := (scannedPath_directory hkind).mp hk
      exact (pathAccepted_iff h.1 hseen).mpr (h.2 names hseen)

/-- The manifest the call compares the source with, if it finds one, is accepted. -/
def PrevAccepted (sha : Sha256) (job : FolderJob) (env : BackupEnv) (st : Store Text) : Prop :=
  ∀ index p, loadIndex env.indexAccess job.watched.path (st.dir (sourceId sha job.watched.path)) =
      .ok index →
    latestManifest env.latestAccess (st.dir (sourceId sha job.watched.path)) index = .ok (some p) →
    p.validateManifest = .ok ()

/-- A scan of a readable directory files exactly the names it looks at. -/
theorem mem_scanSnapshot_readable {prev : Option Manifest} {raw : Manifest} {k : Str}
    (hp : PrevKeyed prev) (hkind : job.watched.kind = .directory)
    (hread : SourceReadable job.watched env.source)
    (hscan : scanSnapshot sha job.scan job.watched env.source prev env.scannedAt = .ok raw) :
    k ∈ raw.entries ↔ ∃ names, Seen job.scan env.source.walk names ∧ k = normalizeRel names := by
  obtain ⟨ignore,hi,hent,-⟩ := scanSnapshot_directory hkind hscan
  unfold SourceReadable at hread
  rw [hkind] at hread
  rw [hent,mem_iff_isSome_getElem?,isSome_scanWalk hp]
  constructor
  · rintro ⟨item,hitem,hr | ⟨hf | hc,-⟩⟩
    · obtain ⟨names,hn,hs,rfl⟩ := (reports_iff (hread item hitem)).mp hr
      exact ⟨names,⟨ignore,hi,item,hitem,hn,hs⟩,rfl⟩
    · cases item with
      | file names read =>
          obtain ⟨-,-,message,hm⟩ := hf
          obtain ⟨e,he⟩ := @scanOneFile_readable sha prev read (hread _ hitem) (normalizeRel names)
          rw [he] at hm
          cases hm
      | _ => exact hf.elim
    · cases item with
      | error path message => exact (hread _ hitem).elim
      | _ => exact hc.elim
  · rintro ⟨names,⟨ignore',hi',item,hitem,hn,hs⟩,rfl⟩
    obtain rfl := Except.ok.inj (hi.symm.trans hi')
    exact ⟨item,hitem,.inl ((reports_iff (hread item hitem)).mpr ⟨names,hn,hs,rfl⟩)⟩

theorem portableCall_firstBackup : PortableCall firstBackup := by
  have hnames : ∀ item ∈ (oneFile "hi" 7).walk, ∀ names ∈ entryNames item,
      names = [] ∨ names = ["a".toList] := by
    intro item hitem names hn
    rcases List.mem_cons.mp hitem with rfl | hitem
    · exact .inl (Option.some.inj hn).symm
    · obtain rfl := List.mem_singleton.mp hitem
      exact .inr (Option.some.inj hn).symm
  refine ⟨?_,?_⟩
  · intro item hitem names hn name hname
    rcases hnames item hitem names hn with rfl | rfl
    · cases hname
    · obtain rfl := List.mem_singleton.mp hname
      decide
  · rintro names ⟨ignore,-,item,hitem,hn,hs⟩
    rcases hnames item hitem names hn with rfl | rfl
    · simp [skipped] at hs
    · decide

/-- A source with one file, whose name starts like a drive. -/
def driveLike : BackupEnv :=
  {firstEnv with
    source := ⟨[.dir [],.file ["c:x".toList] ⟨.ok ⟨2,some (7,0)⟩,.ok (ascii "hi")⟩],
      ⟨.error [],.error []⟩⟩}

end ManifestAcceptance
end BackupSync
