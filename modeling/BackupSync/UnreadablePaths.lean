import BackupSync.ScanSnapshot

/-!
# Unreadable paths and deletions

A path that could not be read must not disappear from the next manifest. A walk
error speaks for the path it names and for everything below; an error on the scan
root, or one without a path, speaks for the whole source. A failed file read
speaks for that file.

Per-file failures and errors on a named directory keep the previous entries. For
an error recorded under the empty path or under the placeholder nothing is
carried forward, so the previous entries survive only where another item of the
walk contributes them.
-/
namespace BackupSync.UnreadablePaths
open RelativePath ScanSnapshot

/-- The paths a walk error speaks for. -/
def ErrorCovers (path : Option (List Str)) (k : Str) : Prop :=
  match path with
  | none => True
  | some [] => True
  | some (n::names) => k = normalizeRel (n::names) ∨ normalizeRel (n::names)++['/'] <+: k

section
variable (sha : Sha256) (opts : ScanOptions) (ignore : List Str → Bool) (prev : Option Manifest)
  (walk : List WalkItem)

/-- A path that some failure of the walk speaks for. -/
def Unreadable (k : Str) : Prop :=
  (∃ path message, .error path message ∈ walk ∧ ErrorCovers path k) ∨
    ∃ item ∈ walk, FailedAt sha opts ignore prev k item

/-- Every previous entry at an unreadable path is still there, scanned again or unchanged. -/
def KeepsUnreadable (m : Manifest) : Prop :=
  ∀ k e, prevAt prev k = some e → Unreadable sha opts ignore prev walk k →
    ∃ e', m.entries[k]? = some e' ∧
      (e' = e ∨ ∃ item ∈ walk, reported sha opts ignore prev item = some (k,e'))

/-- What an error recorded under a silent path speaks for is contributed by another item. -/
def SilentErrorsCovered : Prop :=
  ∀ path message, .error path message ∈ walk → SilentPrefix (errorPath path) →
    ∀ k, (prevAt prev k).isSome → ErrorCovers path k →
      ∃ item ∈ walk, Contributes sha opts ignore prev k item

end

/-- Apart from the silent paths, the carried prefix reaches all an error speaks for. -/
theorem underPrefix_of_errorCovers {path : Option (List Str)} {k : Str}
    (hs : ¬ SilentPrefix (errorPath path)) (h : ErrorCovers path k) :
    UnderPrefix (errorPath path) k := by
  match path with
  | none => exact absurd (.inr rfl) hs
  | some [] => exact absurd (.inl rfl) hs
  | some (n::names) =>
      rcases h with h | h
      · exact .inl h
      · refine .inr ?_
        unfold belowPrefix
        split
        · exact (List.prefix_append _ _).trans h
        · exact h

variable {sha : Sha256} {opts : ScanOptions} {ignore : List Str → Bool} {prev : Option Manifest}

/-- With a contribution at an unreadable path its previous entry is kept. -/
theorem kept_of_contributes (hp : PrevKeyed prev) {walk : List WalkItem} {k : Str}
    {e : ManifestEntry} (he : prevAt prev k = some e)
    (h : ∃ item ∈ walk, Contributes sha opts ignore prev k item) :
    ∃ e', (scanWalk sha opts ignore prev walk).entries[k]? = some e' ∧
      (e' = e ∨ ∃ item ∈ walk, reported sha opts ignore prev item = some (k,e')) := by
  obtain ⟨e',he'⟩ := Option.isSome_iff_exists.mp ((isSome_scanWalk hp walk k).mpr h)
  refine ⟨e',he',?_⟩
  rcases scanWalk_origin hp he' with hr | hprev
  · exact .inr hr
  · rw [he] at hprev
    exact .inl (Option.some.inj hprev).symm

theorem keepsUnreadable_iff {watched : WatchedPath} {source : SourceContents} {now : Int}
    {m : Manifest} (hp : PrevKeyed prev) (hk : watched.kind = .directory)
    (hi : opts.ignoreSet = .ok ignore)
    (h : scanSnapshot sha opts watched source prev now = .ok m) :
    KeepsUnreadable sha opts ignore prev source.walk m ↔
      SilentErrorsCovered sha opts ignore prev source.walk := by
  obtain ⟨ignore',hi',hent,-⟩ := scanSnapshot_directory hk h
  rw [hi] at hi'
  cases hi'
  constructor
  · intro hkeep path message hmem _ k hsome hcov
    obtain ⟨e,he⟩ := Option.isSome_iff_exists.mp hsome
    obtain ⟨e',he',-⟩ := hkeep k e he (.inl ⟨path,message,hmem,hcov⟩)
    rw [hent] at he'
    exact (isSome_scanWalk hp source.walk k).mp (by rw [he']; rfl)
  · intro hcond k e he hun
    rw [hent]
    have hsome : (prevAt prev k).isSome := by rw [he]; rfl
    refine kept_of_contributes hp he ?_
    rcases hun with ⟨path,message,hmem,hcov⟩ | ⟨item,hmem,hf⟩
    · by_cases hs : SilentPrefix (errorPath path)
      · exact hcond path message hmem hs k hsome hcov
      · exact ⟨_,hmem,.inr ⟨.inr ⟨hs,underPrefix_of_errorCovers hs hcov⟩,hsome⟩⟩
    · exact ⟨item,hmem,.inr ⟨.inl hf,hsome⟩⟩

/-- A source of one file, as scanned before. -/
def onceScanned : Manifest :=
  ⟨1,"/home/notes".toList,10,none,none,[],
    Std.ExtTreeMap.ofList [("d".toList,dirEntry "d".toList),
      ("d/a".toList,⟨.file,"d/a".toList,0,7,0,
        some "e3b0c44298fc1c149afbf4c8996fb92427ae41e4649b934ca495991b7852b855".toList⟩)] compare⟩

def notes : WatchedPath := ⟨"/home/notes".toList,.directory,true,"main".toList,none⟩

def plainOptions : ScanOptions := ⟨false,.ok fun _ => false,2⟩

def denied : Str := "permission denied".toList

def noFile : FileRead := ⟨.error denied,.error denied⟩

/-- A second scan of the source that cannot list directory d keeps the file below it. -/
theorem keepsUnreadable_iff_denied_directory :
    ∃ m, scanSnapshot (.ofTable []) plainOptions notes
        ⟨[.dir [],.dir ["d".toList],.error (some ["d".toList]) denied],noFile⟩
        (some onceScanned) 20 = .ok m ∧
      (KeepsUnreadable (.ofTable []) plainOptions (fun _ => false) (some onceScanned)
          [.dir [],.dir ["d".toList],.error (some ["d".toList]) denied] m ↔
        SilentErrorsCovered (.ofTable []) plainOptions (fun _ => false) (some onceScanned)
          [.dir [],.dir ["d".toList],.error (some ["d".toList]) denied]) := by
  have hp : PrevKeyed (some onceScanned) := by
    intro m hm
    cases hm
    decide
  have hscan : scanSnapshot (.ofTable []) plainOptions notes
      ⟨[.dir [],.dir ["d".toList],.error (some ["d".toList]) denied],noFile⟩
      (some onceScanned) 20 = .ok _ := rfl
  exact ⟨_,hscan,keepsUnreadable_iff hp rfl rfl hscan⟩

/-- The scan root itself cannot be listed and the whole source is recorded as deleted. -/
theorem unlistable_root_is_recorded_as_deletion :
    ∃ m, scanSnapshot (.ofTable []) plainOptions notes ⟨[.dir [],.error (some []) denied],noFile⟩
        (some onceScanned) 20 = .ok m ∧ m.entries = ∅ ∧
      ¬ KeepsUnreadable (.ofTable []) plainOptions (fun _ => false) (some onceScanned)
        [.dir [],.error (some []) denied] m := by
  obtain ⟨m,hm,hempty⟩ : ∃ m, scanSnapshot (.ofTable []) plainOptions notes
      ⟨[.dir [],.error (some []) denied],noFile⟩ (some onceScanned) 20 = .ok m ∧ m.entries = ∅ :=
    ⟨_,rfl,by decide⟩
  refine ⟨m,hm,hempty,?_⟩
  intro h
  obtain ⟨e,he,-⟩ := h "d".toList (dirEntry "d".toList) (by decide)
    (.inl ⟨some [],denied,by simp,trivial⟩)
  simp [hempty] at he

end BackupSync.UnreadablePaths
