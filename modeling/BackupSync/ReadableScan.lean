import BackupSync.ScanSnapshot

/-!
# Scans of readable sources

Where every item can be read, a scan records no failure, carries nothing forward
and files under each path what the last item with that path reports. Which paths
these are does not depend on the previous manifest. A second scan that compares
with the first one reuses its hashes and gives the same entries.
-/
namespace BackupSync
open RelativePath

namespace ScanSnapshot

def FileRead.Readable (read : FileRead) : Prop :=
  (∃ found, read.stat = .ok found) ∧ ∃ content, read.content = .ok content

def ItemReadable : WalkItem → Prop
  | .error _ _ => False
  | .file _ read => FileRead.Readable read
  | _ => True

/-- All that a scan looks at can be read. -/
def SourceReadable (watched : WatchedPath) (source : SourceContents) : Prop :=
  match watched.kind with
  | .file => FileRead.Readable source.single
  | .directory => ∀ item ∈ source.walk, ItemReadable item

variable {sha : Sha256} {opts : ScanOptions} {ignore : List Str → Bool} {prev prev' : Option Manifest}

theorem scanOneFile_readable {read : FileRead} (h : FileRead.Readable read) (relPath : Str) :
    ∃ e, scanOneFile sha relPath read prev = .ok e := by
  obtain ⟨⟨found,hstat⟩,content,hcontent⟩ := h
  unfold scanOneFile
  rw [hstat,hcontent]
  dsimp only [bind,Except.bind]
  split
  · exact ⟨_,rfl⟩
  · split
    · split
      · exact ⟨_,rfl⟩
      · exact ⟨_,rfl⟩
    · exact ⟨_,rfl⟩

/-- Compared with its own entry, a file keeps it. -/
theorem scanOneFile_again {relPath : Str} {read : FileRead} {e : ManifestEntry}
    (h : scanOneFile sha relPath read prev = .ok e) (hp : prevEntry prev' relPath = some e) :
    scanOneFile sha relPath read prev' = .ok e := by
  obtain ⟨found,hash,hstat,rfl,-⟩ := scanOneFile_eq_ok h
  unfold scanOneFile
  rw [hstat,hp]
  exact if_pos ⟨rfl,rfl,rfl,rfl⟩

/-- Which path a readable item reports does not depend on the previous manifest. -/
theorem reports_iff {item : WalkItem} (h : ItemReadable item) {k : Str} :
    (∃ e, reported sha opts ignore prev item = some (k,e)) ↔
      ∃ names, entryNames item = some names ∧ skipped opts ignore names = false ∧
        k = normalizeRel names := by
  cases item with
  | error path message => exact h.elim
  | other names => simp [reported,entryNames]
  | dir names =>
      constructor
      · rintro ⟨e,he⟩
        obtain ⟨hs,hk,-⟩ := reported_dir he
        exact ⟨names,rfl,hs,hk⟩
      · rintro ⟨_,⟨⟩,hs,rfl⟩
        exact ⟨_,by rw [reported,if_neg (by simp [hs])]⟩
  | file names read =>
      constructor
      · rintro ⟨e,he⟩
        obtain ⟨hs,hk,-⟩ := reported_file he
        exact ⟨names,rfl,hs,hk⟩
      · rintro ⟨_,⟨⟩,hs,rfl⟩
        obtain ⟨e,he⟩ := @scanOneFile_readable sha prev read h (normalizeRel names)
        exact ⟨e,by rw [reported,if_neg (by simp [hs]),he]⟩

/-- A readable item files what it reports and touches no other path. -/
theorem getElem?_scanItem_readable (hp : PrevKeyed prev) (st : ScanState) {item : WalkItem}
    (h : ItemReadable item) (k : Str) :
    (∃ e, reported sha opts ignore prev item = some (k,e) ∧
      (scanItem sha opts ignore prev st item).entries[k]? = some e) ∨
    ((¬ ∃ e, reported sha opts ignore prev item = some (k,e)) ∧
      (scanItem sha opts ignore prev st item).entries[k]? = st.entries[k]?) := by
  rcases @getElem?_scanItem sha opts ignore prev hp st item k with
    hr | ⟨hf,-⟩ | ⟨hc,-⟩ | ⟨hn,heq⟩
  · exact .inl hr
  · cases item with
    | file names read =>
        obtain ⟨-,-,message,hm⟩ := hf
        obtain ⟨e,he⟩ := @scanOneFile_readable sha prev read h (normalizeRel names)
        rw [he] at hm
        cases hm
    | _ => exact hf.elim
  · cases item with
    | error path message => exact h.elim
    | _ => exact hc.elim
  · exact .inr ⟨fun he => hn (.inl he),heq⟩

/-- Two scans of one readable walk take the entry of a path from the same item. -/
theorem scanWalk_same_item (hp : PrevKeyed prev) (hp' : PrevKeyed prev') {walk : List WalkItem}
    (h : ∀ item ∈ walk, ItemReadable item) (k : Str) :
    ((scanWalk sha opts ignore prev walk).entries[k]? = none ∧
      (scanWalk sha opts ignore prev' walk).entries[k]? = none) ∨
    ∃ item ∈ walk, ∃ e e', reported sha opts ignore prev item = some (k,e) ∧
      (scanWalk sha opts ignore prev walk).entries[k]? = some e ∧
      reported sha opts ignore prev' item = some (k,e') ∧
      (scanWalk sha opts ignore prev' walk).entries[k]? = some e' := by
  induction walk using List.reverseRecOn with
  | nil => exact .inl ⟨by simp [scanWalk],by simp [scanWalk]⟩
  | append_singleton walk item ih =>
      have hitem := h item (List.mem_append_right _ (List.mem_singleton_self _))
      simp only [scanWalk,List.foldl_append,List.foldl_cons,List.foldl_nil]
      rcases @getElem?_scanItem_readable sha opts ignore prev hp
        (scanWalk sha opts ignore prev walk) item hitem k with ⟨e,hr,he⟩ | ⟨hn,he⟩
      · obtain ⟨e',hr'⟩ := (@reports_iff sha opts ignore prev' item hitem k).mpr
          ((reports_iff hitem).mp ⟨e,hr⟩)
        rcases @getElem?_scanItem_readable sha opts ignore prev' hp'
          (scanWalk sha opts ignore prev' walk) item hitem k with ⟨e'',hr'',he''⟩ | ⟨hn',-⟩
        · exact .inr ⟨item,List.mem_append_right _ (List.mem_singleton_self _),e,e'',hr,he,hr'',he''⟩
        · exact absurd ⟨e',hr'⟩ hn'
      · have hn' : ¬ ∃ e, reported sha opts ignore prev' item = some (k,e) := fun hr' =>
          hn ((@reports_iff sha opts ignore prev item hitem k).mpr ((reports_iff hitem).mp hr'))
        rcases @getElem?_scanItem_readable sha opts ignore prev' hp'
          (scanWalk sha opts ignore prev' walk) item hitem k with ⟨e'',hr'',-⟩ | ⟨-,he'⟩
        · exact absurd ⟨e'',hr''⟩ hn'
        · simp only [scanWalk] at he he'
          rw [he,he']
          rcases ih fun it hit => h it (List.mem_append_left _ hit) with hnone | ⟨it,hit,hrest⟩
          · exact .inl hnone
          · exact .inr ⟨it,List.mem_append_left _ hit,hrest⟩

/-- An item that reports an entry reports it again when compared with it. -/
theorem reported_again (hp' : PrevKeyed prev') {item : WalkItem} {k : Str} {e e' : ManifestEntry}
    (hr : reported sha opts ignore prev item = some (k,e))
    (hr' : reported sha opts ignore prev' item = some (k,e')) (hprev : prevAt prev' k = some e) :
    e' = e := by
  cases item with
  | error path message => cases hr
  | other names => cases hr
  | dir names => rw [(reported_dir hr).2.2,(reported_dir hr').2.2]
  | file names read =>
      obtain ⟨-,rfl,hok⟩ := reported_file hr
      obtain ⟨-,-,hok'⟩ := reported_file hr'
      have hagain := @scanOneFile_again sha prev prev' (normalizeRel names) read e hok
        ((prevEntry_eq hp' _).trans hprev)
      exact Except.ok.inj (hok'.symm.trans hagain)

/-- A second scan of a readable source, compared with the first, has the same entries. -/
theorem scanSnapshot_again {watched : WatchedPath} {source : SourceContents} {now now' : Int}
    {m m' p : Manifest} (hread : SourceReadable watched source) (hp : PrevKeyed prev)
    (h : scanSnapshot sha opts watched source prev now = .ok m) (he : p.entries = m.entries)
    (h' : scanSnapshot sha opts watched source (some p) now' = .ok m') :
    m'.entries = m.entries := by
  have hkeyed : PrevKeyed (some p) := by
    rintro _ ⟨⟩ k e hk
    exact scanSnapshot_keyed hp h k e (he ▸ hk)
  have hprev : ∀ k : Str, prevAt (some p) k = m.entries[k]? := fun k => by rw [prevAt,← he]; rfl
  unfold SourceReadable at hread
  refine ext_getElem? fun k => ?_
  cases hk : watched.kind with
  | directory =>
      rw [hk] at hread
      obtain ⟨ignore,hi,hent,-⟩ := scanSnapshot_directory hk h
      obtain ⟨ignore',hi',hent',-⟩ := scanSnapshot_directory hk h'
      obtain rfl := Except.ok.inj (hi.symm.trans hi')
      rcases @scanWalk_same_item sha opts ignore prev (some p) hp hkeyed source.walk hread k with
        ⟨hn,hn'⟩ | ⟨item,-,e,e',hr,hget,hr',hget'⟩
      · rw [hent,hent',hn,hn']
      · rw [hent,hent',hget,hget',reported_again hkeyed hr hr' ?_]
        rw [hprev,hent,hget]
  | file =>
      rw [hk] at hread
      obtain ⟨ignore,-,h⟩ := Checks.bind_eq_ok.mp h
      obtain ⟨ignore',-,h'⟩ := Checks.bind_eq_ok.mp h'
      dsimp only at h h'
      rw [hk] at h h'
      cases h
      cases h'
      dsimp only at hprev ⊢
      obtain ⟨e,hok⟩ := @scanOneFile_readable sha prev source.single hread
        ((fileName watched.path).getD "file".toList)
      have hagain := @scanOneFile_again sha prev (some p) _ source.single e hok (by
        rw [prevEntry_eq hkeyed,hprev,getElem?_scanFile,if_pos rfl,hok])
      rw [getElem?_scanFile,getElem?_scanFile,hok,hagain]

end ScanSnapshot
end BackupSync
