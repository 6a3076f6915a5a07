import BackupSync.Manifest

/-!
# Scanning a source

scan_snapshot builds the next manifest from the items a directory walk yields.
An item is a directory, a regular file with the outcome of its metadata and
content reads, an entry of another type, or a walk error with the path below the
scan root where there is one. The reads already include their retries; a failed
one carries the text of its error.

Entries come from readable items and from the previous manifest, whose entries
are carried forward where a read failed. The contribution lemma says which path
an item puts into the result, and the origin lemma where an entry of the result
can come from.
-/
namespace BackupSync
open RelativePath ContentHash

inductive WatchedKind where
  | file | directory
  deriving DecidableEq, Repr

structure WatchedPath where
  path : Str
  kind : WatchedKind
  enabled : Bool
  destinationId : Str
  maxBackupsPerFile : Option Nat
  deriving DecidableEq, Repr

structure ScanOptions where
  skipHidden : Bool
  /-- The compiled ignore patterns, or the text of the build error. -/
  ignoreSet : Except Str (List Str → Bool)
  retryDelays : Nat

structure FileMeta where
  len : Nat
  /-- Seconds and nanoseconds since the epoch where the time is known and not earlier. -/
  modified : Option (Nat × Nat)
  deriving DecidableEq, Repr

/-- The outcomes of the two reads scan_one_file may make. -/
structure FileRead where
  stat : Except Str FileMeta
  content : Except Str Bytes

inductive WalkItem where
  | error (path : Option (List Str)) (message : Str)
  | dir (names : List Str)
  | file (names : List Str) (read : FileRead)
  | other (names : List Str)

structure ScanState where
  entries : Entries
  readFailures : List ReadFailure

namespace ScanSnapshot

def walkErrorPath : Str := "<walk_error>".toList

/-- The map from relative path to previous entry; a later entry replaces an earlier one. -/
def prevEntry (prev : Option Manifest) (relPath : Str) : Option ManifestEntry :=
  match prev with
  | none => none
  | some m => (m.entries.toList.map Prod.snd).reverse.find? fun e => e.relPath = relPath

def classifyScanFailure (message : Str) : ReadFailurePhase :=
  if "failed to stat file".toList <:+: message ∨ "metadata".toList <:+: message then .metadata
  else .hash

def scanOneFile (sha : Sha256) (relPath : Str) (read : FileRead) (prev : Option Manifest) :
    Except Str ManifestEntry := do
  let found ← read.stat
  let (mtimeUnix,mtimeNanos) := found.modified.getD (0,0)
  let fromHash (hash : Str) : ManifestEntry :=
    ⟨.file,relPath,found.len,mtimeUnix,mtimeNanos,some hash⟩
  let hashed : Except Str ManifestEntry := do
    let content ← read.content
    return fromHash (sha256Hex sha content)
  match prevEntry prev relPath with
  | none => hashed
  | some e =>
      if e.kind = .file ∧ e.len = found.len ∧ e.mtimeUnix = mtimeUnix ∧
          e.mtimeNanos = mtimeNanos then
        match e.sha256 with
        | some hash => return fromHash hash
        | none => hashed
      else hashed

variable {e : ManifestEntry}

/-- A scanned entry has the length and time of the file, and the hash of its content or the
hash of a previous entry of the same length and time. -/
theorem scanOneFile_eq_ok {sha : Sha256} {relPath : Str} {read : FileRead} {prev : Option Manifest}
    (h : scanOneFile sha relPath read prev = .ok e) :
    ∃ (found : FileMeta) (hash : Str), read.stat = .ok found ∧
      e = ⟨.file,relPath,found.len,(found.modified.getD (0,0)).1,(found.modified.getD (0,0)).2,
        some hash⟩ ∧
      ((∃ content, read.content = .ok content ∧ hash = sha256Hex sha content) ∨
        ∃ p, prevEntry prev relPath = some p ∧ p.kind = .file ∧ p.len = e.len ∧
          p.mtimeUnix = e.mtimeUnix ∧ p.mtimeNanos = e.mtimeNanos ∧ p.sha256 = some hash) := by
  obtain ⟨found,hstat,h⟩ := Checks.bind_eq_ok.mp h
  have hhash : ∀ {e' : ManifestEntry}, (do
      let content ← read.content
      return ⟨.file,relPath,found.len,(found.modified.getD (0,0)).1,(found.modified.getD (0,0)).2,
        some (sha256Hex sha content)⟩ : Except Str ManifestEntry) = .ok e' →
      ∃ content, read.content = .ok content ∧ e' = ⟨.file,relPath,found.len,
        (found.modified.getD (0,0)).1,(found.modified.getD (0,0)).2,
        some (sha256Hex sha content)⟩ := by
    intro e' he
    obtain ⟨content,hc,he⟩ := Checks.bind_eq_ok.mp he
    cases he
    exact ⟨content,hc,rfl⟩
  dsimp only at h
  cases hp : prevEntry prev relPath with
  | none =>
      rw [hp] at h
      obtain ⟨content,hc,rfl⟩ := hhash h
      exact ⟨found,_,hstat,rfl,.inl ⟨content,hc,rfl⟩⟩
  | some p =>
      rw [hp] at h
      dsimp only at h
      split at h
      · rename_i hsame
        cases hs : p.sha256 with
        | none =>
            rw [hs] at h
            obtain ⟨content,hc,rfl⟩ := hhash h
            exact ⟨found,_,hstat,rfl,.inl ⟨content,hc,rfl⟩⟩
        | some hash =>
            rw [hs] at h
            cases h
            exact ⟨found,hash,hstat,rfl,.inr ⟨p,rfl,hsame.1,hsame.2.1,hsame.2.2.1,hsame.2.2.2,hs⟩⟩
      · obtain ⟨content,hc,rfl⟩ := hhash h
        exact ⟨found,_,hstat,rfl,.inl ⟨content,hc,rfl⟩⟩

/-- What lies below a path, by text. -/
def belowPrefix (relPrefix : Str) : Str :=
  if relPrefix.getLast? = some '/' then relPrefix else relPrefix++['/']

/-- A path at or below the prefix that carry_forward_prev_prefix looks for. -/
def UnderPrefix (relPrefix k : Str) : Prop := k = relPrefix ∨ belowPrefix relPrefix <+: k

instance (relPrefix k : Str) : Decidable (UnderPrefix relPrefix k) := by
  unfold UnderPrefix
  infer_instance

/-- The prefixes for which nothing is carried forward. -/
def SilentPrefix (relPrefix : Str) : Prop := relPrefix = [] ∨ relPrefix = walkErrorPath

instance (relPrefix : Str) : Decidable (SilentPrefix relPrefix) := by
  unfold SilentPrefix
  infer_instance

def carryOne (relPrefix : Str) (entries : Entries) (e : ManifestEntry) : Entries :=
  if UnderPrefix relPrefix e.relPath then entries.insertIfNew e.relPath e else entries

def carryForwardPrevPrefix (entries : Entries) (prev : Option Manifest) (relPrefix : Str) :
    Entries :=
  match prev with
  | none => entries
  | some m =>
      if SilentPrefix relPrefix then entries
      else (m.entries.toList.map Prod.snd).foldl (carryOne relPrefix) entries

/-- The path recorded for a walk error. -/
def errorPath (path : Option (List Str)) : Str := (path.map normalizeRel).getD walkErrorPath

def isHidden (names : List Str) : Bool := names.any fun name => name.head? = some '.'

def dirEntry (relPath : Str) : ManifestEntry := ⟨.dir,relPath,0,0,0,none⟩

/-- The insertion of one scanned file, with the carry of its previous entry on failure. -/
def scanFile (sha : Sha256) (opts : ScanOptions) (prev : Option Manifest) (relPath : Str)
    (read : FileRead) (st : ScanState) : ScanState :=
  match scanOneFile sha relPath read prev with
  | .ok entry => {st with entries := st.entries.insert relPath entry}
  | .error message =>
      let failed := st.readFailures++
        [⟨relPath,classifyScanFailure message,opts.retryDelays+1,message⟩]
      match prev.bind fun m => m.entries[relPath]? with
      | some e => ⟨st.entries.insert relPath e,failed⟩
      | none => {st with readFailures := failed}

def skipped (opts : ScanOptions) (ignore : List Str → Bool) (names : List Str) : Bool :=
  names.isEmpty || (opts.skipHidden && isHidden names) || ignore names

def scanItem (sha : Sha256) (opts : ScanOptions) (ignore : List Str → Bool)
    (prev : Option Manifest) (st : ScanState) : WalkItem → ScanState
  | .error path message =>
      let relStr := errorPath path
      ⟨carryForwardPrevPrefix st.entries prev relStr,
        st.readFailures++[⟨relStr,.walk,1,message⟩]⟩
  | .dir names =>
      if skipped opts ignore names then st
      else {st with
        entries := st.entries.insert (normalizeRel names) (dirEntry (normalizeRel names))}
  | .file names read =>
      if skipped opts ignore names then st
      else scanFile sha opts prev (normalizeRel names) read st
  | .other _ => st

def scanWalk (sha : Sha256) (opts : ScanOptions) (ignore : List Str → Bool)
    (prev : Option Manifest) (walk : List WalkItem) : ScanState :=
  walk.foldl (scanItem sha opts ignore prev) ⟨∅,[]⟩

/-- Path::file_name. -/
def fileName (path : Str) : Option Str :=
  match (components path).getLast? with
  | some (.normal name) => some name
  | _ => none

/-- What the scan finds below the scan path of a source. -/
structure SourceContents where
  walk : List WalkItem
  single : FileRead

def scanSnapshot (sha : Sha256) (opts : ScanOptions) (watched : WatchedPath)
    (source : SourceContents) (prev : Option Manifest) (now : Int) : Except Str Manifest := do
  let ignore ← opts.ignoreSet
  let st := match watched.kind with
    | .file => scanFile sha opts prev ((fileName watched.path).getD "file".toList) source.single
        ⟨∅,[]⟩
    | .directory => scanWalk sha opts ignore prev source.walk
  return ⟨storeSchemaVersion,watched.path,now,none,none,st.readFailures,st.entries⟩

/-- The previous manifest, where there is one, files its entries under their own paths. -/
def PrevKeyed (prev : Option Manifest) : Prop := ∀ m ∈ prev, m.Keyed

def prevAt (prev : Option Manifest) (k : Str) : Option ManifestEntry :=
  prev.bind fun m => m.entries[k]?

variable {k : Str}

theorem prevAt_relPath {prev : Option Manifest} (hp : PrevKeyed prev) (h : prevAt prev k = some e) :
    e.relPath = k := by
  cases prev with
  | none => cases h
  | some m => exact hp m rfl k e h

variable {m : Manifest}

theorem mem_values (hm : m.Keyed) :
    (e ∈ m.entries.toList.map Prod.snd ∧ e.relPath = k) ↔ m.entries[k]? = some e := by
  constructor
  · rintro ⟨he,rfl⟩
    obtain ⟨⟨j,e'⟩,hj,rfl⟩ := List.mem_map.mp he
    rw [mem_toList_iff_getElem?_eq_some] at hj
    rwa [hm j e' hj]
  · intro he
    exact ⟨List.mem_map.mpr ⟨(k,e),mem_toList_iff_getElem?_eq_some.mpr he,rfl⟩,
      hm k e he⟩

/-- In any order of the entries, the one with a given relative path is the one filed there. -/
theorem find?_relPath (hm : m.Keyed) {l : List ManifestEntry}
    (hl : ∀ e, e ∈ l ↔ e ∈ m.entries.toList.map Prod.snd) (k : Str) :
    l.find? (fun e => e.relPath = k) = m.entries[k]? := by
  cases hf : l.find? fun e => e.relPath = k with
  | none =>
      rw [List.find?_eq_none] at hf
      cases hk : m.entries[k]? with
      | none => rfl
      | some e =>
          obtain ⟨he,hrel⟩ := (mem_values hm).mpr hk
          exact absurd (decide_eq_true hrel) (hf e ((hl e).mpr he))
  | some e =>
      have hrel := List.find?_some hf
      have he := (hl e).mp (List.mem_of_find?_eq_some hf)
      exact ((mem_values hm).mp ⟨he,of_decide_eq_true hrel⟩).symm

theorem prevEntry_eq {prev : Option Manifest} (hp : PrevKeyed prev) (k : Str) :
    prevEntry prev k = prevAt prev k := by
  cases prev with
  | none => rfl
  | some m => exact find?_relPath (hp m rfl) (fun _ => List.mem_reverse) k

theorem getElem?_carryOne (r : Str) (es : Entries) (e : ManifestEntry) (k : Str) :
    (carryOne r es e)[k]? = es[k]?.or (if e.relPath = k ∧ UnderPrefix r k then some e else none) := by
  unfold carryOne
  by_cases hk : e.relPath = k
  · subst hk
    by_cases hu : UnderPrefix r e.relPath
    · rw [if_pos hu,if_pos ⟨rfl,hu⟩,Std.ExtTreeMap.getElem?_insertIfNew]
      cases hes : es[e.relPath]? with
      | none => simp [mem_iff_isSome_getElem?,hes]
      | some e' => simp [mem_iff_isSome_getElem?,hes]
    · rw [if_neg hu,if_neg fun h => hu h.2,Option.or_none]
  · rw [if_neg fun h : e.relPath = k ∧ _ => hk h.1,Option.or_none]
    split
    · rw [Std.ExtTreeMap.getElem?_insertIfNew]
      simp [hk]
    · rfl

/-- One pass over the previous entries fills the gaps below the prefix. -/
theorem getElem?_foldl_carryOne (r : Str) (l : List ManifestEntry) (es : Entries) (k : Str) :
    (l.foldl (carryOne r) es)[k]? =
      es[k]?.or (if UnderPrefix r k then l.find? (fun e => e.relPath = k) else none) := by
  induction l generalizing es with
  | nil => simp
  | cons e l ih =>
      rw [List.foldl_cons,ih,getElem?_carryOne,Option.or_assoc]
      congr 1
      by_cases hu : UnderPrefix r k
      · by_cases hk : e.relPath = k <;> simp [hu,hk]
      · simp [hu]

theorem getElem?_carryForward {prev : Option Manifest} (hp : PrevKeyed prev) (es : Entries)
    (r k : Str) : (carryForwardPrevPrefix es prev r)[k]? =
      es[k]?.or (if ¬ SilentPrefix r ∧ UnderPrefix r k then prevAt prev k else none) := by
  cases prev with
  | none => simp [carryForwardPrevPrefix,prevAt]
  | some m =>
      have hfind := find?_relPath (hp m rfl) (fun _ => Iff.rfl) k
      simp only [carryForwardPrevPrefix]
      by_cases hs : SilentPrefix r
      · simp [hs]
      · rw [if_neg hs,getElem?_foldl_carryOne,hfind]
        simp [hs,prevAt]

section Items
variable (sha : Sha256) (opts : ScanOptions) (ignore : List Str → Bool) (prev : Option Manifest)

/-- The entry an item reports itself. -/
def reported : WalkItem → Option (Str × ManifestEntry)
  | .dir names =>
      if skipped opts ignore names then none
      else some (normalizeRel names,dirEntry (normalizeRel names))
  | .file names read =>
      if skipped opts ignore names then none
      else match scanOneFile sha (normalizeRel names) read prev with
        | .ok entry => some (normalizeRel names,entry)
        | .error _ => none
  | _ => none

/-- A file that was looked at and could not be read. -/
def FailedAt (k : Str) : WalkItem → Prop
  | .file names read => skipped opts ignore names = false ∧ k = normalizeRel names ∧
      ∃ message, scanOneFile sha (normalizeRel names) read prev = .error message
  | _ => False

/-- A walk error whose prefix is carried forward and reaches the path. -/
def CarriedAt (k : Str) : WalkItem → Prop
  | .error path _ => ¬ SilentPrefix (errorPath path) ∧ UnderPrefix (errorPath path) k
  | _ => False

/-- An item through which the path is in the result. -/
def Contributes (k : Str) (item : WalkItem) : Prop :=
  (∃ e, reported sha opts ignore prev item = some (k,e)) ∨
    ((FailedAt sha opts ignore prev k item ∨ CarriedAt k item) ∧ (prevAt prev k).isSome)

end Items

variable {sha : Sha256} {opts : ScanOptions} {ignore : List Str → Bool} {prev : Option Manifest}

theorem getElem?_scanFile (relPath : Str) (read : FileRead) (st : ScanState) (k : Str) :
    (scanFile sha opts prev relPath read st).entries[k]? =
      if k = relPath then
        match scanOneFile sha relPath read prev with
        | .ok entry => some entry
        | .error _ => (prevAt prev k).or st.entries[k]?
      else st.entries[k]? := by
  unfold scanFile
  cases scanOneFile sha relPath read prev with
  | ok entry =>
      by_cases hk : k = relPath
      · simp [hk]
      · simp [hk,getElem?_insert,Ne.symm hk]
  | error message =>
      change (match prevAt prev relPath with
        | some e => (⟨st.entries.insert relPath e,_⟩ : ScanState)
        | none => _).entries[k]? = _
      by_cases hk : k = relPath
      · subst hk
        cases prevAt prev k with
        | none => simp
        | some e => simp
      · cases prevAt prev relPath with
        | none => simp [hk]
        | some e => simp [hk,getElem?_insert,Ne.symm hk]

theorem reported_file {names : List Str} {read : FileRead}
    (h : reported sha opts ignore prev (.file names read) = some (k,e)) :
    skipped opts ignore names = false ∧ k = normalizeRel names ∧
      scanOneFile sha (normalizeRel names) read prev = .ok e := by
  simp only [reported] at h
  split at h
  · cases h
  · rename_i hs
    cases hf : scanOneFile sha (normalizeRel names) read prev with
    | ok entry =>
        rw [hf] at h
        cases h
        exact ⟨by simpa using hs,rfl,rfl⟩
    | error message =>
        rw [hf] at h
        cases h

theorem reported_dir {names : List Str}
    (h : reported sha opts ignore prev (.dir names) = some (k,e)) :
    skipped opts ignore names = false ∧ k = normalizeRel names ∧ e = dirEntry k := by
  simp only [reported] at h
  split at h
  · cases h
  · rename_i hs
    cases h
    exact ⟨by simpa using hs,rfl,rfl⟩

/-- What one item does to the entry at one path. -/
theorem getElem?_scanItem (hp : PrevKeyed prev) (st : ScanState) (item : WalkItem) (k : Str) :
    (∃ e, reported sha opts ignore prev item = some (k,e) ∧
      (scanItem sha opts ignore prev st item).entries[k]? = some e) ∨
    (FailedAt sha opts ignore prev k item ∧
      (scanItem sha opts ignore prev st item).entries[k]? = (prevAt prev k).or st.entries[k]?) ∨
    (CarriedAt k item ∧
      (scanItem sha opts ignore prev st item).entries[k]? = st.entries[k]?.or (prevAt prev k)) ∨
    (¬ Contributes sha opts ignore prev k item ∧
      (scanItem sha opts ignore prev st item).entries[k]? = st.entries[k]?) := by
  cases item with
  | error path message =>
      have h := getElem?_carryForward hp st.entries (errorPath path) k
      by_cases hc : ¬ SilentPrefix (errorPath path) ∧ UnderPrefix (errorPath path) k
      · rw [if_pos hc] at h
        exact .inr (.inr (.inl ⟨hc,h⟩))
      · rw [if_neg hc,Option.or_none] at h
        refine .inr (.inr (.inr ⟨?_,h⟩))
        rintro (⟨e,he⟩ | ⟨hf | hf,-⟩)
        · cases he
        · exact hf
        · exact hc hf
  | dir names =>
      by_cases hs : skipped opts ignore names = true
      · refine .inr (.inr (.inr ⟨?_,by rw [scanItem,if_pos hs]⟩))
        simp [Contributes,reported,FailedAt,CarriedAt,hs]
      · by_cases hk : normalizeRel names = k
        · refine .inl ⟨dirEntry k,?_,?_⟩
          · simp [reported,hs,hk]
          · simp [scanItem,hs,hk]
        · refine .inr (.inr (.inr ⟨?_,?_⟩))
          · simp [Contributes,reported,FailedAt,CarriedAt,hs,hk]
          · simp [scanItem,hs,getElem?_insert,hk]
  | file names read =>
      by_cases hs : skipped opts ignore names = true
      · refine .inr (.inr (.inr ⟨?_,by rw [scanItem,if_pos hs]⟩))
        simp [Contributes,reported,FailedAt,CarriedAt,hs]
      · have hsc : scanItem sha opts ignore prev st (.file names read) =
            scanFile sha opts prev (normalizeRel names) read st := if_neg hs
        have h := @getElem?_scanFile sha opts prev (normalizeRel names) read st k
        rw [hsc]
        by_cases hk : k = normalizeRel names
        · subst hk
          rw [if_pos rfl] at h
          cases hf : scanOneFile sha (normalizeRel names) read prev with
          | ok entry =>
              rw [hf] at h
              exact .inl ⟨entry,by simp [reported,hs,hf],h⟩
          | error message =>
              rw [hf] at h
              exact .inr (.inl ⟨⟨by simpa using hs,rfl,message,hf⟩,h⟩)
        · rw [if_neg hk] at h
          refine .inr (.inr (.inr ⟨?_,h⟩))
          rintro (⟨e,he⟩ | ⟨hf | hf,-⟩)
          · exact hk (reported_file he).2.1
          · exact hk hf.2.1
          · exact hf
  | other names =>
      refine .inr (.inr (.inr ⟨?_,rfl⟩))
      simp [Contributes,reported,FailedAt,CarriedAt]

theorem isSome_scanItem (hp : PrevKeyed prev) (st : ScanState) (item : WalkItem) (k : Str) :
    (scanItem sha opts ignore prev st item).entries[k]?.isSome ↔
      st.entries[k]?.isSome ∨ Contributes sha opts ignore prev k item := by
  rcases @getElem?_scanItem sha opts ignore prev hp st item k with
    ⟨e,hr,h⟩ | ⟨hf,h⟩ | ⟨hc,h⟩ | ⟨hn,h⟩
  · rw [h]
    exact iff_of_true rfl (.inr (.inl ⟨e,hr⟩))
  · rw [h,Option.isSome_or,Bool.or_eq_true,or_comm]
    refine or_congr_right ⟨fun hi => .inr ⟨.inl hf,hi⟩,?_⟩
    rintro (⟨e,he⟩ | ⟨-,hi⟩)
    · cases item with
      | file names read =>
          obtain ⟨message,hm⟩ := hf.2.2
          rw [(reported_file he).2.2] at hm
          cases hm
      | _ => exact hf.elim
    · exact hi
  · rw [h,Option.isSome_or,Bool.or_eq_true]
    refine or_congr_right ⟨fun hi => .inr ⟨.inr hc,hi⟩,?_⟩
    rintro (⟨e,he⟩ | ⟨-,hi⟩)
    · cases item with
      | error path message => cases he
      | _ => exact hc.elim
    · exact hi
  · rw [h]
    exact (or_iff_left hn).symm

/-- The paths of a scan are those some item contributes. -/
theorem isSome_scanWalk (hp : PrevKeyed prev) (walk : List WalkItem) (k : Str) :
    (scanWalk sha opts ignore prev walk).entries[k]?.isSome ↔
      ∃ item ∈ walk, Contributes sha opts ignore prev k item := by
  have hrun : ∀ st : ScanState, (walk.foldl (scanItem sha opts ignore prev) st).entries[k]?.isSome ↔
      st.entries[k]?.isSome ∨ ∃ item ∈ walk, Contributes sha opts ignore prev k item := by
    induction walk with
    | nil => simp
    | cons item walk ih =>
        intro st
        rw [List.foldl_cons,ih,isSome_scanItem hp,or_assoc]
        simp only [List.mem_cons,exists_eq_or_imp]
  rw [scanWalk,hrun]
  simp

/-- Where the entry at a path can come from after one more item. -/
theorem scanItem_origin (hp : PrevKeyed prev) {st : ScanState} {item : WalkItem}
    (h : (scanItem sha opts ignore prev st item).entries[k]? = some e) :
    st.entries[k]? = some e ∨ reported sha opts ignore prev item = some (k,e) ∨
      prevAt prev k = some e := by
  rcases @getElem?_scanItem sha opts ignore prev hp st item k with
    ⟨e',hr,h'⟩ | ⟨-,h'⟩ | ⟨-,h'⟩ | ⟨-,h'⟩
  all_goals rw [h'] at h
  · cases h
    exact .inr (.inl hr)
  · rcases Option.or_eq_some_iff.mp h with h | ⟨-,h⟩
    · exact .inr (.inr h)
    · exact .inl h
  · rcases Option.or_eq_some_iff.mp h with h | ⟨-,h⟩
    · exact .inl h
    · exact .inr (.inr h)
  · exact .inl h

/-- Every entry of a scan is reported by an item or is the previous entry at its path. -/
theorem scanWalk_origin (hp : PrevKeyed prev) {walk : List WalkItem}
    (h : (scanWalk sha opts ignore prev walk).entries[k]? = some e) :
    (∃ item ∈ walk, reported sha opts ignore prev item = some (k,e)) ∨ prevAt prev k = some e := by
  have hrun : ∀ st : ScanState,
      (walk.foldl (scanItem sha opts ignore prev) st).entries[k]? = some e →
      st.entries[k]? = some e ∨ (∃ item ∈ walk, reported sha opts ignore prev item = some (k,e)) ∨
        prevAt prev k = some e := by
    clear h
    induction walk with
    | nil => exact fun st h => .inl h
    | cons item walk ih =>
        intro st h
        rcases ih _ h with h | ⟨it,hit,hr⟩ | h
        · rcases scanItem_origin hp h with h | h | h
          · exact .inl h
          · exact .inr (.inl ⟨item,List.mem_cons_self,h⟩)
          · exact .inr (.inr h)
        · exact .inr (.inl ⟨it,List.mem_cons_of_mem _ hit,hr⟩)
        · exact .inr (.inr h)
  rcases hrun _ h with h | h
  · simp at h
  · exact h

variable {source : SourceContents}

/-- The directory case of a scan that returns. -/
theorem scanSnapshot_directory {watched : WatchedPath} {now : Int} (hk : watched.kind = .directory)
    (h : scanSnapshot sha opts watched source prev now = .ok m) :
    ∃ ignore, opts.ignoreSet = .ok ignore ∧
      m.entries = (scanWalk sha opts ignore prev source.walk).entries ∧
      m.readFailures = (scanWalk sha opts ignore prev source.walk).readFailures := by
  obtain ⟨ignore,hi,h⟩ := Checks.bind_eq_ok.mp h
  refine ⟨ignore,hi,?_⟩
  dsimp only at h
  rw [hk] at h
  cases h
  exact ⟨rfl,rfl⟩

/-- The entry one readable path yields. -/
def Scans (sha : Sha256) (prev : Option Manifest) (k : Str) (e : ManifestEntry) : Prop :=
  e = dirEntry k ∨ ∃ read, scanOneFile sha k read prev = .ok e

/-- The path of an item that names a directory or a regular file. -/
def entryNames : WalkItem → Option (List Str)
  | .dir names => some names
  | .file names _ => some names
  | _ => none

/-- The relative paths under which a scan can file what it finds. -/
def ScannedPath (opts : ScanOptions) (watched : WatchedPath) (source : SourceContents) (k : Str) :
    Prop :=
  match watched.kind with
  | .file => k = (fileName watched.path).getD "file".toList
  | .directory => ∃ ignore, opts.ignoreSet = .ok ignore ∧ ∃ item ∈ source.walk, ∃ names,
      entryNames item = some names ∧ skipped opts ignore names = false ∧ k = normalizeRel names

/-- Whatever is watched, an entry of the scan was read or was there before. -/
theorem scanSnapshot_origin {watched : WatchedPath} {now : Int} (hp : PrevKeyed prev)
    (h : scanSnapshot sha opts watched source prev now = .ok m) (he : m.entries[k]? = some e) :
    (Scans sha prev k e ∧ ScannedPath opts watched source k) ∨ prevAt prev k = some e := by
  unfold ScannedPath
  cases hk : watched.kind with
  | directory =>
      obtain ⟨ignore,hi,hent,-⟩ := scanSnapshot_directory hk h
      rw [hent] at he
      rcases scanWalk_origin hp he with ⟨item,hmem,hr⟩ | hprev
      · cases item with
        | dir names =>
            obtain ⟨hs,hkey,hdir⟩ := reported_dir hr
            exact .inl ⟨.inl hdir,ignore,hi,_,hmem,names,rfl,hs,hkey⟩
        | file names read =>
            obtain ⟨hs,rfl,hok⟩ := reported_file hr
            exact .inl ⟨.inr ⟨read,hok⟩,ignore,hi,_,hmem,names,rfl,hs,rfl⟩
        | error path message => cases hr
        | other names => cases hr
      · exact .inr hprev
  | file =>
      obtain ⟨ignore,-,h⟩ := Checks.bind_eq_ok.mp h
      dsimp only at h
      rw [hk] at h
      cases h
      dsimp only at he
      rw [getElem?_scanFile] at he
      split at he
      · rename_i hkey
        subst hkey
        split at he
        · rename_i entry hok
          cases he
          exact .inl ⟨.inr ⟨_,hok⟩,rfl⟩
        · simp at he
          exact .inr he
      · simp at he

theorem scanSnapshot_keyed {watched : WatchedPath} {now : Int} (hp : PrevKeyed prev)
    (h : scanSnapshot sha opts watched source prev now = .ok m) : m.Keyed := by
  intro k e he
  rcases scanSnapshot_origin hp h he with ⟨rfl | ⟨read,hok⟩,-⟩ | hprev
  · rfl
  · obtain ⟨found,hash,-,rfl,-⟩ := scanOneFile_eq_ok hok
    rfl
  · exact prevAt_relPath hp hprev

end ScanSnapshot
end BackupSync
