import BackupSync.ReadableScan
import BackupSync.SafetyMachine

/-!
# Incremental scans

A file whose length and modification time are those of its previous entry is not
hashed again. The source changes while it is scanned: an edit can come between two
items of the walk, and between the stat and the read of one file. A stat notes the
length and the time the operating system reports, and an edit is fresh when it
gives the file a length and time that no stat of this path has seen.

An entry of a manifest is then sound at every later moment: its length and time
were seen, and a file that still has them has the content its hash was made from.
Entries carried forward keep this, since it speaks of the present source only. The
code keeps times as seconds and nanoseconds since the epoch and maps every other
time to zero, so two stamps can be told apart by their entries only where the time
is known and not before the epoch.
-/
namespace BackupSync.IncrementalScan
open RelativePath ContentHash ScanSnapshot

/-- The length and modification time the operating system reports. -/
structure Stamp where
  len : Nat
  /-- Nanoseconds since the epoch, where the file system has the time. -/
  time : Option Int
  deriving DecidableEq

/-- The time is known and not before the epoch. -/
def Stamp.Datable (s : Stamp) : Prop := ∃ n : Nat, s.time = some (n : Int)

/-- What scan_one_file makes of the metadata. -/
def Stamp.fileMeta (s : Stamp) : FileMeta :=
  ⟨s.len,s.time.bind fun t =>
    if 0 ≤ t then some (t.toNat/1000000000,t.toNat%1000000000) else none⟩

/-- The length and time as they are written to an entry. -/
def Stamp.recorded (s : Stamp) : Nat × Int × Nat :=
  (s.len,(s.fileMeta.modified.getD (0,0)).1,(s.fileMeta.modified.getD (0,0)).2)

structure SourceFile where
  stamp : Stamp
  content : Bytes

/-- The files of the source, how often each path was edited and which stamps were seen there. -/
structure Source where
  files : List Str → Option SourceFile
  edits : List Str → Nat
  seen : List Str → List Stamp

namespace Source

/-- The file is replaced, created or removed. -/
def edit (w : Source) (names : List Str) (file : Option SourceFile) : Source :=
  {w with
    files := Function.update w.files names file
    edits := Function.update w.edits names (w.edits names+1)}

/-- A stat of the path returns the stamp. -/
def note (w : Source) (names : List Str) (s : Stamp) : Source :=
  {w with seen := Function.update w.seen names (s::w.seen names)}

end Source

section Runs
variable (sha : Sha256) (admits : Stamp → Prop) (paths : Set (List Str))

/-- Any number of edits, each with a stamp that no stat of the path has seen. -/
inductive Edits (w : Source) : Source → Prop
  | none : Edits w w
  | edit {u : Source} {names : List Str} {file : Option SourceFile} : Edits w u →
      (∀ f ∈ file, admits f.stamp ∧ f.stamp ∉ u.seen names) → Edits w (u.edit names file)

/-- One item of the walk. The content of a file is that of its stat if the path was not edited
in between, and any bytes otherwise. -/
inductive Visits (opts : ScanOptions) (ignore : List Str → Bool) (w : Source) :
    WalkItem → Source → Prop
  | error (path : Option (List Str)) (message : Str) : Visits opts ignore w (.error path message) w
  | dir (names : List Str) : Visits opts ignore w (.dir names) w
  | other (names : List Str) : Visits opts ignore w (.other names) w
  | passed {names : List Str} (read : FileRead) : skipped opts ignore names = true →
      Visits opts ignore w (.file names read) w
  | unstatted (names : List Str) (message : Str) (content : Except Str Bytes) :
      Visits opts ignore w (.file names ⟨.error message,content⟩) w
  | read {names : List Str} {f : SourceFile} {content : Except Str Bytes} {u : Source} :
      names ∈ paths → w.files names = some f → Edits admits (w.note names f.stamp) u →
      (∀ c, content = .ok c → u.edits names = w.edits names → c = f.content) →
      Visits opts ignore w (.file names ⟨.ok f.stamp.fileMeta,content⟩) u

/-- A walk with edits before, between and after its items. -/
inductive Walks (opts : ScanOptions) (ignore : List Str → Bool) : Source → List WalkItem →
    Source → Prop
  | done {w u : Source} : Edits admits w u → Walks opts ignore w [] u
  | item {w u v t : Source} {item : WalkItem} {walk : List WalkItem} : Edits admits w u →
      Visits admits paths opts ignore u item v → Walks opts ignore v walk t →
      Walks opts ignore w (item::walk) t

/-- A run of scans of one source, with the manifest of the last one. -/
inductive Run (watched : WatchedPath) : Source → Option Manifest → Prop
  | start {w : Source} : (∀ names f, w.files names = some f → admits f.stamp) →
      (∀ names, w.seen names = []) → Run watched w none
  | edits {w u : Source} {prev : Option Manifest} : Run watched w prev → Edits admits w u →
      Run watched u prev
  | scan {w u : Source} {prev : Option Manifest} {opts : ScanOptions} {ignore : List Str → Bool}
      {walk : List WalkItem} {single : FileRead} {now : Int} {m : Manifest} :
      Run watched w prev → opts.ignoreSet = .ok ignore →
      Walks admits paths opts ignore w walk u →
      scanSnapshot sha opts watched ⟨walk,single⟩ prev now = .ok m → Run watched u (some m)

/-- The walk of a source that does not change and can be read. -/
def StillItem (opts : ScanOptions) (ignore : List Str → Bool) (w : Source) : WalkItem → Prop
  | .error _ _ => False
  | .file names read => skipped opts ignore names = true ∨ names ∈ paths ∧
      ∃ f, w.files names = some f ∧ read = ⟨.ok f.stamp.fileMeta,.ok f.content⟩
  | _ => True

end Runs

/-- Two known times not before the epoch are written differently. -/
theorem recorded_inj {s s' : Stamp} (hs : s.Datable) (hs' : s'.Datable)
    (h : s.recorded = s'.recorded) : s = s' := by
  obtain ⟨len,time⟩ := s
  obtain ⟨len',time'⟩ := s'
  obtain ⟨n,rfl⟩ : ∃ n : Nat, time = some (n : Int) := hs
  obtain ⟨n',rfl⟩ : ∃ n : Nat, time' = some (n : Int) := hs'
  simp only [Stamp.recorded,Stamp.fileMeta,Option.bind_some,Int.natCast_nonneg,if_true,
    Int.toNat_natCast,Option.getD_some,Prod.mk.injEq] at h
  obtain ⟨hlen,hsec,hnano⟩ := h
  have hn : n = n' := by omega
  rw [hlen,hn]

section Edits
variable {admits : Stamp → Prop} {paths : Set (List Str)} {w u : Source}

/-- Edits see nothing. -/
theorem Edits.seen_eq (h : Edits admits w u) : u.seen = w.seen := by
  induction h with
  | none => rfl
  | edit _ _ ih => exact ih

/-- A path was not edited, or its file no longer has a stamp that was seen there. -/
theorem Edits.untouched_or_fresh (h : Edits admits w u) (names : List Str) :
    (u.edits names = w.edits names ∧ u.files names = w.files names) ∨
      (w.edits names < u.edits names ∧
        ∀ f, u.files names = some f → f.stamp ∉ w.seen names) := by
  induction h with
  | none => exact .inl ⟨rfl,rfl⟩
  | @edit u names' file hu hfresh ih =>
      by_cases hn : names = names'
      · subst hn
        right
        have hle : w.edits names ≤ u.edits names := by omega
        constructor
        · simp only [Source.edit,Function.update_self]
          omega
        · intro f hf
          simp only [Source.edit,Function.update_self] at hf
          rw [← hu.seen_eq]
          exact (hfresh f hf).2
      · simpa [Source.edit,Function.update_of_ne hn] using ih

theorem Edits.keep_admits (h : Edits admits w u)
    (hw : ∀ names f, w.files names = some f → admits f.stamp) :
    ∀ names f, u.files names = some f → admits f.stamp := by
  induction h with
  | none => exact hw
  | @edit u names' file _ hfresh ih =>
      intro names f hf
      by_cases hn : names = names'
      · subst hn
        simp only [Source.edit,Function.update_self] at hf
        exact (hfresh f hf).1
      · simp only [Source.edit,Function.update_of_ne hn] at hf
        exact ih names f hf

end Edits

section HashesFresh
variable (sha : Sha256) (paths : Set (List Str))

/-- Every file entry was stamped by a stat, and its hash is that of the file which still has
this stamp. -/
def HashesFresh (w : Source) (entries : Str → Option ManifestEntry) : Prop :=
  ∀ k e, entries k = some e → e.kind = .file → ∀ names ∈ paths, normalizeRel names = k →
    ∃ s ∈ w.seen names, (e.len,e.mtimeUnix,e.mtimeNanos) = s.recorded ∧
      ∀ f, w.files names = some f → f.stamp = s → e.sha256 = some (sha256Hex sha f.content)

/-- All stamps of the source, present and seen, are of known times not before the epoch. -/
structure Dated (w : Source) : Prop where
  files : ∀ names f, w.files names = some f → f.stamp.Datable
  seen : ∀ names, ∀ s ∈ w.seen names, s.Datable

variable {sha paths} {w u : Source} {entries : Str → Option ManifestEntry}

theorem Dated.edits (hw : Dated w) (h : Edits Stamp.Datable w u) : Dated u := by
  refine ⟨h.keep_admits hw.files,?_⟩
  rw [h.seen_eq]
  exact hw.seen

variable {names : List Str}

theorem mem_note {names' : List Str} {s s' : Stamp} :
    s' ∈ (w.note names s).seen names' ↔ (names' = names ∧ s' = s) ∨ s' ∈ w.seen names' := by
  by_cases hn : names' = names
  · subst hn
    simp [Source.note]
  · simp [Source.note,hn]

theorem Dated.note {f : SourceFile} (hw : Dated w) (hf : w.files names = some f) :
    Dated (w.note names f.stamp) := by
  refine ⟨hw.files,?_⟩
  intro names' s hs
  rcases mem_note.mp hs with ⟨-,rfl⟩ | hs
  · exact hw.files names f hf
  · exact hw.seen names' s hs

theorem HashesFresh.edits {admits : Stamp → Prop} (hs : HashesFresh sha paths w entries)
    (h : Edits admits w u) : HashesFresh sha paths u entries := by
  intro k e he hk names hn hrel
  obtain ⟨s,hseen,hstamp,hhash⟩ := hs k e he hk names hn hrel
  refine ⟨s,by rwa [h.seen_eq],hstamp,?_⟩
  intro f hf hfs
  rcases h.untouched_or_fresh names with ⟨-,hsame⟩ | ⟨-,hfresh⟩
  · rw [hsame] at hf
    exact hhash f hf hfs
  · rw [← hfs] at hseen
    exact absurd hseen (hfresh f hf)

theorem HashesFresh.note {s : Stamp} (hs : HashesFresh sha paths w entries) :
    HashesFresh sha paths (w.note names s) entries := by
  intro k e he hk names' hn hrel
  obtain ⟨s',hseen,h⟩ := hs k e he hk names' hn hrel
  exact ⟨s',mem_note.mpr (.inr hseen),h⟩

variable {opts : ScanOptions} {ignore : List Str → Bool} {prev : Option Manifest}

/-- A file of dated stamps scanned at rest is read as it is, whatever was recorded before. -/
theorem reused_hash (hw : Dated w) (hprev : HashesFresh sha paths w (prevAt prev))
    (hn : names ∈ paths) {f : SourceFile} (hf : w.files names = some f) {p : ManifestEntry}
    (hp : prevAt prev (normalizeRel names) = some p) (hk : p.kind = .file)
    (hstamp : (p.len,p.mtimeUnix,p.mtimeNanos) = f.stamp.recorded) :
    p.sha256 = some (sha256Hex sha f.content) := by
  obtain ⟨s,hseen,hs,hhash⟩ := hprev _ p hp hk names hn rfl
  rw [hstamp] at hs
  exact hhash f hf (recorded_inj (hw.files names f hf) (hw.seen names s hseen) hs)

/-- The entry made of a file, hashed or taken over, is sound once the file has been read. -/
theorem hashesFresh_reported (hinj : Set.InjOn normalizeRel paths) (hw : Dated w)
    (hkeyed : PrevKeyed prev) (hprev : HashesFresh sha paths w (prevAt prev)) (hn : names ∈ paths)
    {f : SourceFile} (hf : w.files names = some f)
    (h : Edits Stamp.Datable (w.note names f.stamp) u) {content : Except Str Bytes}
    (hcontent : ∀ c, content = .ok c → u.edits names = w.edits names → c = f.content)
    {e : ManifestEntry}
    (he : scanOneFile sha (normalizeRel names) ⟨.ok f.stamp.fileMeta,content⟩ prev = .ok e) :
    ∀ names' ∈ paths, normalizeRel names' = normalizeRel names →
      ∃ s ∈ u.seen names', (e.len,e.mtimeUnix,e.mtimeNanos) = s.recorded ∧
        ∀ f', u.files names' = some f' → f'.stamp = s →
          e.sha256 = some (sha256Hex sha f'.content) := by
  intro names' hn' hrel
  obtain rfl := hinj hn' hn hrel
  obtain ⟨found,hash,hfound,rfl,hhash⟩ := scanOneFile_eq_ok he
  cases hfound
  have hseen : f.stamp ∈ (w.note names' f.stamp).seen names' := mem_note.mpr (.inl ⟨rfl,rfl⟩)
  refine ⟨f.stamp,by rwa [h.seen_eq],rfl,?_⟩
  intro f' hf' hstamp
  rcases h.untouched_or_fresh names' with ⟨hedits,hsame⟩ | ⟨-,hfresh⟩
  · have hff : f' = f := by
      rw [hsame] at hf'
      exact Option.some.inj (hf'.symm.trans hf)
    subst hff
    rcases hhash with ⟨c,hc,rfl⟩ | ⟨p,hp,hk,hlen,hsec,hnano,hsha⟩
    · rw [hcontent c hc hedits]
    · rw [prevEntry_eq hkeyed] at hp
      rw [← reused_hash hw hprev hn' hf hp hk (by rw [hlen,hsec,hnano]; rfl),hsha]
  · have hnot := hfresh f' hf'
    rw [hstamp] at hnot
    exact absurd hseen hnot

/-- What an item adds to a sound state is its report or a previous entry. -/
theorem hashesFresh_scanItem (hkeyed : PrevKeyed prev) {item : WalkItem} {st : ScanState}
    (hprev : HashesFresh sha paths u (prevAt prev))
    (hst : HashesFresh sha paths u fun k => st.entries[k]?)
    (hreport : HashesFresh sha paths u fun k =>
      (reported sha opts ignore prev item).bind fun r => if r.1 = k then some r.2 else none) :
    HashesFresh sha paths u fun k => (scanItem sha opts ignore prev st item).entries[k]? := by
  intro k e he
  rcases scanItem_origin hkeyed he with h | h | h
  · exact hst k e h
  · refine hreport k e ?_
    simp [h]
  · exact hprev k e h

theorem hashesFresh_none : HashesFresh sha paths u fun _ => none := by
  intro k e he
  cases he

theorem hashesFresh_empty : HashesFresh sha paths u fun k => (⟨∅,[]⟩ : ScanState).entries[k]? := by
  intro k e he
  simp at he

/-- One item of the walk keeps all entries sound, those of before and those found so far. -/
theorem hashesFresh_visits (hinj : Set.InjOn normalizeRel paths) (hw : Dated w)
    (hkeyed : PrevKeyed prev) (hprev : HashesFresh sha paths w (prevAt prev)) {item : WalkItem}
    {st : ScanState} (hst : HashesFresh sha paths w fun k => st.entries[k]?)
    (h : Visits Stamp.Datable paths opts ignore w item u) :
    Dated u ∧ HashesFresh sha paths u (prevAt prev) ∧
      HashesFresh sha paths u fun k => (scanItem sha opts ignore prev st item).entries[k]? := by
  cases h with
  | error path message => exact ⟨hw,hprev,hashesFresh_scanItem hkeyed hprev hst hashesFresh_none⟩
  | other names => exact ⟨hw,hprev,hashesFresh_scanItem hkeyed hprev hst hashesFresh_none⟩
  | dir names =>
      refine ⟨hw,hprev,hashesFresh_scanItem hkeyed hprev hst ?_⟩
      intro k e he hk
      obtain ⟨⟨k',e'⟩,hr,hke⟩ := Option.bind_eq_some_iff.mp he
      obtain ⟨-,-,rfl⟩ := reported_dir hr
      split at hke
      · cases hke
        cases hk
      · cases hke
  | passed read hs =>
      refine ⟨hw,hprev,hashesFresh_scanItem hkeyed hprev hst ?_⟩
      simpa [reported,hs] using hashesFresh_none
  | unstatted names message content =>
      refine ⟨hw,hprev,hashesFresh_scanItem hkeyed hprev hst ?_⟩
      intro k e he
      obtain ⟨⟨k',e'⟩,hr,-⟩ := Option.bind_eq_some_iff.mp he
      obtain ⟨found,hash,hfound,-⟩ := scanOneFile_eq_ok (reported_file hr).2.2
      cases hfound
  | read hn hf hedits hcontent =>
      refine ⟨(hw.note hf).edits hedits,hprev.note.edits hedits,
        hashesFresh_scanItem hkeyed (hprev.note.edits hedits) (hst.note.edits hedits) ?_⟩
      intro k e he hk names' hn' hrel
      obtain ⟨⟨k',e'⟩,hr,hke⟩ := Option.bind_eq_some_iff.mp he
      split at hke
      · rename_i hkk
        cases hke
        obtain ⟨-,hkey,hok⟩ := reported_file hr
        have hkk : k' = k := hkk
        exact hashesFresh_reported hinj hw hkeyed hprev hn hf hedits hcontent hok names' hn'
          (by rw [hrel,← hkk,hkey])
      · cases hke

/-- A whole walk, edits included. -/
theorem hashesFresh_walks (hinj : Set.InjOn normalizeRel paths) (hkeyed : PrevKeyed prev)
    {walk : List WalkItem} (h : Walks Stamp.Datable paths opts ignore w walk u) (hw : Dated w)
    (hprev : HashesFresh sha paths w (prevAt prev)) {st : ScanState}
    (hst : HashesFresh sha paths w fun k => st.entries[k]?) :
    Dated u ∧ HashesFresh sha paths u fun k =>
      (walk.foldl (scanItem sha opts ignore prev) st).entries[k]? := by
  induction h generalizing st with
  | done hedits => exact ⟨hw.edits hedits,hst.edits hedits⟩
  | item hedits hvisit _ ih =>
      obtain ⟨hv,hprev',hst'⟩ := hashesFresh_visits hinj (hw.edits hedits) hkeyed (hprev.edits hedits)
        (hst.edits hedits) hvisit
      exact ih hv hprev' hst'

/-- In every state of a run the last manifest is sound. -/
theorem hashesFresh_run (hinj : Set.InjOn normalizeRel paths) {watched : WatchedPath}
    (hdir : watched.kind = .directory) (h : Run sha Stamp.Datable paths watched w prev) :
    Dated w ∧ PrevKeyed prev ∧ HashesFresh sha paths w (prevAt prev) := by
  induction h with
  | start hfiles hseen =>
      refine ⟨⟨hfiles,?_⟩,?_,hashesFresh_none⟩
      · intro names s hs
        rw [hseen] at hs
        cases hs
      · intro m hm
        cases hm
  | edits _ hedits ih => exact ⟨ih.1.edits hedits,ih.2.1,ih.2.2.edits hedits⟩
  | scan _ hi hwalk hscan ih =>
      obtain ⟨hw,hkeyed,hprev⟩ := ih
      obtain ⟨ignore',hi',hent,-⟩ := scanSnapshot_directory hdir hscan
      rw [hi] at hi'
      cases hi'
      obtain ⟨hu,hm⟩ := hashesFresh_walks hinj hkeyed hwalk hw hprev hashesFresh_empty
      refine ⟨hu,?_,?_⟩
      · intro m' hm'
        cases hm'
        exact scanSnapshot_keyed hkeyed hscan
      · intro k e he
        have he' : _ = some e := he
        simp only [prevAt,Option.bind_some,hent] at he'
        exact hm k e he'

end HashesFresh

variable {sha : Sha256} {paths : Set (List Str)} {w : Source} {opts : ScanOptions}
  {ignore : List Str → Bool} {prev : Option Manifest}

/-- A file found at rest gets the hash of its content, taken over or not. -/
theorem scanOneFile_still (hw : Dated w) (hkeyed : PrevKeyed prev)
    (hprev : HashesFresh sha paths w (prevAt prev)) {names : List Str} (hn : names ∈ paths)
    {f : SourceFile} (hf : w.files names = some f) :
    scanOneFile sha (normalizeRel names) ⟨.ok f.stamp.fileMeta,.ok f.content⟩ prev =
      .ok ⟨.file,normalizeRel names,f.stamp.recorded.1,f.stamp.recorded.2.1,f.stamp.recorded.2.2,
        some (sha256Hex sha f.content)⟩ := by
  obtain ⟨e,he⟩ := @scanOneFile_readable sha prev ⟨.ok f.stamp.fileMeta,.ok f.content⟩
    ⟨⟨_,rfl⟩,_,rfl⟩ (normalizeRel names)
  rw [he]
  obtain ⟨found,hash,hfound,rfl,hhash⟩ := scanOneFile_eq_ok he
  cases hfound
  have hsame : some hash = some (sha256Hex sha f.content) := by
    rcases hhash with ⟨c,hc,rfl⟩ | ⟨p,hp,hk,hlen,hsec,hnano,hsha⟩
    · cases hc
      rfl
    · rw [prevEntry_eq hkeyed] at hp
      rw [← reused_hash hw hprev hn hf hp hk (by rw [hlen,hsec,hnano]; rfl),hsha]
  rw [hsame]
  rfl

/-- With and without the previous manifest, an item found at rest does the same. -/
theorem scanItem_still (hw : Dated w) (hkeyed : PrevKeyed prev)
    (hprev : HashesFresh sha paths w (prevAt prev)) {item : WalkItem}
    (h : StillItem paths opts ignore w item) (st : ScanState) :
    scanItem sha opts ignore prev st item = scanItem sha opts ignore none st item := by
  cases item with
  | error path message => exact h.elim
  | dir names => rfl
  | other names => rfl
  | file names read =>
      rcases h with hs | ⟨hn,f,hf,rfl⟩
      · rw [scanItem,scanItem,if_pos hs,if_pos hs]
      · have hnone : PrevKeyed none := by
          intro m hm
          cases hm
        rw [scanItem,scanItem,scanFile,scanFile,scanOneFile_still hw hkeyed hprev hn hf,
          scanOneFile_still hw hnone hashesFresh_none hn hf]

/-- After any run of scans under edits that are fresh and leave datable stamps, the scan of a
source at rest has the entries of a scan without a previous manifest. -/
theorem incremental_scan_agrees {watched : WatchedPath} (hdir : watched.kind = .directory)
    (hinj : Set.InjOn normalizeRel paths) (hrun : Run sha Stamp.Datable paths watched w prev)
    (hi : opts.ignoreSet = .ok ignore) {walk : List WalkItem}
    (hstill : ∀ item ∈ walk, StillItem paths opts ignore w item) (single single' : FileRead)
    (now now' : Int) :
    ∃ m m', scanSnapshot sha opts watched ⟨walk,single⟩ prev now = .ok m ∧
      scanSnapshot sha opts watched ⟨walk,single'⟩ none now' = .ok m' ∧ m.entries = m'.entries := by
  obtain ⟨hw,hkeyed,hprev⟩ := hashesFresh_run hinj hdir hrun
  have hfold : ∀ st : ScanState, walk.foldl (scanItem sha opts ignore prev) st =
      walk.foldl (scanItem sha opts ignore none) st := by
    induction walk with
    | nil => exact fun _ => rfl
    | cons item walk ih =>
        intro st
        rw [List.foldl_cons,List.foldl_cons,
          scanItem_still hw hkeyed hprev (hstill item List.mem_cons_self)]
        exact ih (fun i hi' => hstill i (List.mem_cons_of_mem _ hi')) _
  unfold scanSnapshot
  rw [hi,hdir]
  refine ⟨_,_,rfl,rfl,?_⟩
  exact congrArg ScanState.entries (hfold _)

section Note
open StoreCompleteness

def notePath : List Str := ["a".toList]

/-- A file of two bytes, last modified at the given time. -/
def note (text : String) (time : Int) : SourceFile := ⟨⟨2,some time⟩,ascii text⟩

def firstSource (time : Int) : Source :=
  ⟨fun names => if names = notePath then some (note "hi" time) else none,fun _ => 0,fun _ => []⟩

def noteWalk (f : SourceFile) : List WalkItem :=
  [.dir [],.file notePath ⟨.ok f.stamp.fileMeta,.ok f.content⟩]

def unread : FileRead := ⟨.error [],.error []⟩

def firstManifest (time : Int) : Manifest :=
  ⟨storeSchemaVersion,notesJob.watched.path,10,none,none,[],
    (scanWalk notesSha notesJob.scan (fun _ => false) none (noteWalk (note "hi" time))).entries⟩

/-- The source after a scan and an edit of the same length. -/
def editedSource (time time' : Int) : Source :=
  ((firstSource time).note notePath ⟨2,some time⟩).edit notePath (some (note "ho" time'))

theorem run_edited {admits : Stamp → Prop} {time time' : Int} (h : admits ⟨2,some time⟩)
    (h' : admits ⟨2,some time'⟩) (hne : time' ≠ time) :
    Run notesSha admits {notePath} notesJob.watched (editedSource time time')
      (some (firstManifest time)) := by
  have hfile : (firstSource time).files notePath = some (note "hi" time) := by
    simp [firstSource]
  have hstart : Run notesSha admits {notePath} notesJob.watched (firstSource time) none := by
    refine .start ?_ fun _ => rfl
    intro names f hf
    simp only [firstSource] at hf
    split at hf
    · cases hf
      exact h
    · cases hf
  have hwalk : Walks admits {notePath} notesJob.scan (fun _ => false) (firstSource time)
      (noteWalk (note "hi" time)) ((firstSource time).note notePath ⟨2,some time⟩) :=
    .item .none (.dir []) (.item .none
      (.read (Set.mem_singleton _) hfile .none fun c hc _ => (Except.ok.inj hc).symm) (.done .none))
  have hscan : scanSnapshot notesSha notesJob.scan notesJob.watched
      ⟨noteWalk (note "hi" time),unread⟩ none 10 = .ok (firstManifest time) := rfl
  refine (hstart.scan rfl hwalk hscan).edits (.edit .none ?_)
  intro f hf
  cases hf
  refine ⟨h',?_⟩
  simpa [Source.note,firstSource,note] using hne

theorem still_edited (time time' : Int) : ∀ item ∈ noteWalk (note "ho" time'),
    StillItem {notePath} notesJob.scan (fun _ => false) (editedSource time time') item := by
  intro item hitem
  simp only [noteWalk,List.mem_cons,List.not_mem_nil,or_false] at hitem
  rcases hitem with rfl | rfl
  · trivial
  · refine .inr ⟨Set.mem_singleton _,note "ho" time',?_,rfl⟩
    simp [editedSource,Source.edit]

/-- An edit that moves the time by one nanosecond is found. -/
theorem incremental_scan_agrees_note :
    ∃ m m', scanSnapshot notesSha notesJob.scan notesJob.watched
        ⟨noteWalk (note "ho" 8),unread⟩ (some (firstManifest 7)) 20 = .ok m ∧
      scanSnapshot notesSha notesJob.scan notesJob.watched ⟨noteWalk (note "ho" 8),unread⟩ none 20 =
        .ok m' ∧ m.entries = m'.entries :=
  incremental_scan_agrees rfl (Set.injOn_singleton _ _) (run_edited ⟨7,rfl⟩ ⟨8,rfl⟩ (by decide)) rfl
    (still_edited 7 8) unread unread 20 20

/-- A file from before the epoch is edited and dated to another time before the epoch. The next
scan takes over the hash of its old content. -/
theorem edit_before_epoch_unnoticed :
    Run notesSha (fun _ => True) {notePath} notesJob.watched (editedSource (-7) (-5))
      (some (firstManifest (-7))) ∧
    (∀ item ∈ noteWalk (note "ho" (-5)),
      StillItem {notePath} notesJob.scan (fun _ => false) (editedSource (-7) (-5)) item) ∧
    ∃ m m' e e', scanSnapshot notesSha notesJob.scan notesJob.watched
        ⟨noteWalk (note "ho" (-5)),unread⟩ (some (firstManifest (-7))) 20 = .ok m ∧
      scanSnapshot notesSha notesJob.scan notesJob.watched ⟨noteWalk (note "ho" (-5)),unread⟩ none
        20 = .ok m' ∧
      m.entries["a".toList]? = some e ∧ m'.entries["a".toList]? = some e' ∧
      e.sha256 = some (sha256Hex notesSha (ascii "hi")) ∧
      e'.sha256 = some (sha256Hex notesSha (ascii "ho")) ∧ e.sha256 ≠ e'.sha256 := by
  refine ⟨run_edited trivial trivial (by decide),still_edited _ _,_,_,
    ⟨.file,"a".toList,2,0,0,some (sha256Hex notesSha (ascii "hi"))⟩,
    ⟨.file,"a".toList,2,0,0,some (sha256Hex notesSha (ascii "ho"))⟩,rfl,rfl,?_,?_,rfl,rfl,?_⟩
  · decide +kernel
  · decide +kernel
  · decide +kernel

end Note

end BackupSync.IncrementalScan
