import BackupSync.SourceViews

/-!
# Trees and names in the folder of a source

A folder is tidy if no version marker of Latest and Previous Versions is damaged and
no version has two trees there. Staging, publishing, moving and removing trees
keeps that. While trees are only added under a name of their own version or
moved there, no version gets a rival for its names that it did not have before;
so what blocks both names was in the way from the start.
-/
namespace BackupSync.ReadableView
open Interruptible.Action

variable {Content : Type}

@[simp] theorem versionId_names (id : Str) (c : Content) :
    (ViewEntry.directory (.names id) c).versionId = some id := rfl

namespace SourceFolder
variable {s : SourceFolder Content} {e : ViewEntry Content} {p q : ViewPlace}

theorem entry_put (s : SourceFolder Content) (p q : ViewPlace) (e : ViewEntry Content) :
    (s.put p e).entry q = if q = p then some e else s.entry q := by
  cases p with
  | latest =>
      cases q with
      | latest => simp [put,entry]
      | previous y => simp [put,entry,older]
  | previous x =>
      cases q with
      | latest => simp [put,entry]
      | previous y =>
          change (s.older.insert x e)[y]? = _
          rw [getElem?_insert]
          by_cases h : y = x
          · simp [h]
          · simp [entry,h,Ne.symm h]

theorem entry_remove (s : SourceFolder Content) (p q : ViewPlace) :
    (s.remove p).entry q = if q = p then none else s.entry q := by
  cases p with
  | latest =>
      cases q with
      | latest => simp [remove,entry]
      | previous y => simp [remove,entry,older]
  | previous x =>
      cases q with
      | latest => simp [remove,entry]
      | previous y =>
          change (s.older.erase x)[y]? = _
          rw [getElem?_erase]
          by_cases h : y = x
          · simp [h]
          · simp [entry,h,Ne.symm h]

theorem entry_move (h : s.entry p = some e) (q r : ViewPlace) :
    (s.move p q).entry r = if r = q then some e else if r = p then none else s.entry r := by
  unfold move
  rw [h]
  dsimp only
  rw [entry_put,entry_remove]

theorem putBeside_putBeside (name : Str) (a b : ViewEntry Content) :
    (s.putBeside p name a).putBeside p name b = s.putBeside p name b := by
  cases p with
  | latest => exact congrArg (fun others => {s with others}) (insert_insert name a b)
  | previous x =>
      exact congrArg (fun entries => {s with previous := .directory entries}) (insert_insert name a b)

/-- A staged tree, renamed. -/
theorem publish_putBeside {name : Str} (h : s.beside name p = none) (e : ViewEntry Content) :
    (s.putBeside p name e).publish p name = s.put p e := by
  cases p with
  | latest =>
      have hstaged : (s.putBeside .latest name e).beside name .latest = some e :=
        getElem?_insert_self
      unfold publish
      rw [hstaged]
      exact congrArg (fun others => {s with latest := some e,others}) (erase_insert h e)
  | previous x =>
      have hstaged : (s.putBeside (.previous x) name e).beside name (.previous x) = some e :=
        getElem?_insert_self
      unfold publish
      rw [hstaged]
      exact congrArg (fun entries : Map Str (ViewEntry Content) =>
        {s with previous := .directory (entries.insert x e)}) (erase_insert h e)

@[simp] theorem others_put : (s.put p e).others = s.others := by cases p <;> rfl

@[simp] theorem others_remove : (s.remove p).others = s.others := by cases p <;> rfl

@[simp] theorem others_move : (s.move p q).others = s.others := by
  unfold move
  cases s.entry p <;> simp

theorem folder_move (h : s.entry p = some e) (x : Str) :
    ∃ entries, (s.move p (.previous x)).previous = .directory entries := by
  unfold move
  rw [h]
  exact ⟨_,rfl⟩

theorem entry_previous_congr {t : SourceFolder Content} (h : t.previous = s.previous) (x : Str) :
    t.entry (.previous x) = s.entry (.previous x) := by
  simp only [entry,older,h]

/-- The version whose tree stands at a place. -/
def treeAt (s : SourceFolder Content) (p : ViewPlace) : Option Str := (s.entry p).bind (·.versionId)

theorem treeAt_eq_some {id : Str} :
    s.treeAt p = some id ↔ ∃ e, s.entry p = some e ∧ e.versionId = some id := Option.bind_eq_some_iff

end SourceFolder

open SourceFolder

structure Tidy (s : SourceFolder Content) : Prop where
  sound : ∀ p e, s.entry p = some e → e.marker ≠ .broken
  single : ∀ p q id, s.treeAt p = some id → s.treeAt q = some id → p = q

section Names
variable (env : ViewEnv Content)

/-- The two names under which a version is looked for a place. -/
def Named (v : VersionInfo) (x : Str) : Prop :=
  x = readableVersionName env v ∨ x = alternateVersionName env v

theorem alternate_ne (v : VersionInfo) : alternateVersionName env v ≠ readableVersionName env v := by
  intro h
  have hl := congrArg List.length h
  simp [alternateVersionName] at hl

theorem named_readable (v : VersionInfo) : Named env v (readableVersionName env v) := .inl rfl

theorem named_alternate (v : VersionInfo) : Named env v (alternateVersionName env v) := .inr rfl

end Names

/-- What can keep a version from one of its names: an entry that is no tree of a previous
version, or another previous version. -/
inductive Rival where
  | entry (name : Str)
  | version (id : Str)
  deriving DecidableEq, Repr

section Rivals
variable (env : ViewEnv Content) (previous : List VersionInfo)

def IsRival (s : SourceFolder Content) (v : VersionInfo) : Rival → Prop
  | .entry x => Named env v x ∧
      ∃ e, s.entry (.previous x) = some e ∧ ∀ u ∈ previous, e.versionId ≠ some u.id
  | .version id => id ≠ v.id ∧ ∃ u ∈ previous, u.id = id ∧
      ∃ x, Named env v x ∧ (Named env u x ∨ s.treeAt (.previous x) = some id)

/-- A version without a tree under Previous Versions has at most one rival. -/
def Roomy (s : SourceFolder Content) : Prop :=
  ∀ v ∈ previous, (∀ x, s.treeAt (.previous x) ≠ some v.id) →
    ∀ r r', IsRival env previous s v r → IsRival env previous s v r' → r = r'

/-- The trees of previous versions have moved to a name of theirs or were added there; nothing
else under Previous Versions has changed. -/
structure Ahead (s t : SourceFolder Content) : Prop where
  others : t.others = s.others
  moved : ∀ x e, t.entry (.previous x) = some e → s.entry (.previous x) = some e ∨
    ∃ u ∈ previous, Named env u x ∧ e.versionId = some u.id
  kept : ∀ x e, s.entry (.previous x) = some e → e.versionId = none → t.entry (.previous x) = some e
  grown : ∀ x id, s.treeAt (.previous x) = some id → ∃ y, t.treeAt (.previous y) = some id

variable {env previous} {s t u : SourceFolder Content}

theorem Ahead.refl : Ahead env previous s s :=
  ⟨rfl,fun _ _ h => .inl h,fun _ _ h _ => h,fun x _ h => ⟨x,h⟩⟩

theorem Ahead.trans (hst : Ahead env previous s t) (htu : Ahead env previous t u) :
    Ahead env previous s u where
  others := htu.others.trans hst.others
  moved x e h := by
    rcases htu.moved x e h with h | h
    · exact hst.moved x e h
    · exact .inr h
  kept x e h hv := htu.kept x e (hst.kept x e h hv) hv
  grown x id h := by
    obtain ⟨y,hy⟩ := hst.grown x id h
    exact htu.grown y id hy

theorem isRival_of_ahead (h : Ahead env previous s t) {v : VersionInfo} {r : Rival}
    (hr : IsRival env previous t v r) : IsRival env previous s v r := by
  cases r with
  | entry x =>
      obtain ⟨hx,e,he,hforeign⟩ := hr
      refine ⟨hx,e,?_,hforeign⟩
      rcases h.moved x e he with h | ⟨u,hu,-,hid⟩
      · exact h
      · exact absurd hid (hforeign u hu)
  | version id =>
      obtain ⟨hid,u,hu,rfl,x,hx,hux⟩ := hr
      refine ⟨hid,?_⟩
      rcases hux with hux | hux
      · exact ⟨u,hu,rfl,x,hx,.inl hux⟩
      · obtain ⟨e,he,hev⟩ := treeAt_eq_some.mp hux
        rcases h.moved x e he with h | ⟨w,hw,hwx,hwid⟩
        · exact ⟨u,hu,rfl,x,hx,.inr (treeAt_eq_some.mpr ⟨e,h,hev⟩)⟩
        · exact ⟨w,hw,Option.some.inj (hwid.symm.trans hev),x,hx,.inl hwx⟩

/-- An entry under a name of a version without a tree comes with a rival. -/
theorem exists_rival {v : VersionInfo} {x : Str} {e : ViewEntry Content} (hx : Named env v x)
    (he : s.entry (.previous x) = some e) (hv : ∀ y, s.treeAt (.previous y) ≠ some v.id) :
    ∃ r, IsRival env previous s v r ∧
      (r = .entry x ∨ ∃ id, r = .version id ∧ s.treeAt (.previous x) = some id) := by
  by_cases h : ∃ u ∈ previous, e.versionId = some u.id
  · obtain ⟨u,hu,hid⟩ := h
    have htree : s.treeAt (.previous x) = some u.id := treeAt_eq_some.mpr ⟨e,he,hid⟩
    have hne : u.id ≠ v.id := by
      intro heq
      exact hv x (heq ▸ htree)
    exact ⟨.version u.id,⟨hne,u,hu,rfl,x,hx,.inr htree⟩,.inr ⟨u.id,rfl,htree⟩⟩
  · push Not at h
    exact ⟨.entry x,⟨hx,e,he,h⟩,.inl rfl⟩

/-- Two occupied names are two rivals. -/
theorem not_roomy_of_occupied (ht : Tidy t) (h : Ahead env previous s t) {v : VersionInfo}
    (hv : v ∈ previous) (hnone : ∀ y, t.treeAt (.previous y) ≠ some v.id) {e e' : ViewEntry Content}
    (he : t.entry (.previous (readableVersionName env v)) = some e)
    (he' : t.entry (.previous (alternateVersionName env v)) = some e') : ¬ Roomy env previous s := by
  intro hroomy
  obtain ⟨r,hr,hwhich⟩ := exists_rival (named_readable env v) he hnone
  obtain ⟨r',hr',hwhich'⟩ := exists_rival (named_alternate env v) he' hnone
  have hnone' : ∀ y, s.treeAt (.previous y) ≠ some v.id := by
    intro y hy
    obtain ⟨z,hz⟩ := h.grown y v.id hy
    exact hnone z hz
  have heq := hroomy v hv hnone' r r' (isRival_of_ahead h hr) (isRival_of_ahead h hr')
  rcases hwhich with rfl | ⟨id,rfl,hid⟩
  · rcases hwhich' with rfl | ⟨id',rfl,-⟩
    · exact alternate_ne env v (Rival.entry.inj heq).symm
    · cases heq
  · rcases hwhich' with rfl | ⟨id',rfl,hid'⟩
    · cases heq
    · obtain rfl := Rival.version.inj heq
      exact alternate_ne env v (ViewPlace.previous.inj (ht.single _ _ id hid hid')).symm

end Rivals

section Steps
variable {env : ViewEnv Content} {previous : List VersionInfo} {s : SourceFolder Content}
  {p q : ViewPlace} {e : ViewEntry Content} {id : Str}

theorem treeAt_put (e : ViewEntry Content) (q : ViewPlace) :
    (s.put p e).treeAt q = if q = p then e.versionId else s.treeAt q := by
  unfold treeAt
  rw [entry_put]
  split <;> rfl

theorem treeAt_remove (q : ViewPlace) :
    (s.remove p).treeAt q = if q = p then none else s.treeAt q := by
  unfold treeAt
  rw [entry_remove]
  split <;> rfl

theorem treeAt_move (h : s.entry p = some e) (r : ViewPlace) :
    (s.move p q).treeAt r = if r = q then e.versionId else if r = p then none else s.treeAt r := by
  unfold treeAt
  rw [entry_move h]
  split
  · rfl
  · split <;> rfl

theorem tidy_congr {t : SourceFolder Content} (h : Tidy s) (he : ∀ p, t.entry p = s.entry p) :
    Tidy t where
  sound p e hp := h.sound p e ((he p).symm.trans hp)
  single p q i hp hq := by
    unfold treeAt at hp hq
    rw [he] at hp hq
    exact h.single p q i hp hq

/-- A new entry, whose version has no tree at another place. -/
theorem tidy_put (h : Tidy s) (he : e.marker ≠ .broken)
    (hnew : ∀ i, e.versionId = some i → ∀ q, q ≠ p → s.treeAt q ≠ some i) : Tidy (s.put p e) where
  sound q f hf := by
    rw [entry_put] at hf
    split at hf
    · cases hf
      exact he
    · exact h.sound q f hf
  single q r i hq hr := by
    rw [treeAt_put] at hq hr
    split at hq <;> split at hr
    · simp_all
    · exact absurd hr (hnew i hq r ‹_›)
    · exact absurd hq (hnew i hr q ‹_›)
    · exact h.single q r i hq hr

theorem tidy_put_tree (h : Tidy s) (hnew : ∀ q, s.treeAt q ≠ some id) (c : Content) :
    Tidy (s.put p (.directory (.names id) c)) := by
  apply tidy_put h Marker.noConfusion
  rintro _ ⟨⟩ q -
  exact hnew q

theorem tidy_remove (h : Tidy s) : Tidy (s.remove p) where
  sound q e he := by
    rw [entry_remove] at he
    split at he
    · cases he
    · exact h.sound q e he
  single q r i hq hr := by
    rw [treeAt_remove] at hq hr
    split at hq
    · cases hq
    · split at hr
      · cases hr
      · exact h.single q r i hq hr

theorem tidy_move (h : Tidy s) (hp : s.entry p = some e) (he : e.versionId = some id) :
    Tidy (s.move p q) where
  sound x f hf := by
    rw [entry_move hp] at hf
    split at hf
    · cases hf
      intro hb
      simp [ViewEntry.versionId,hb] at he
    · split at hf
      · cases hf
      · exact h.sound x f hf
  single a b i ha hb := by
    have htree : s.treeAt p = some id := treeAt_eq_some.mpr ⟨e,hp,he⟩
    rw [treeAt_move hp,he] at ha hb
    split at ha <;> split at hb
    · simp_all
    · cases ha
      split at hb
      · cases hb
      · exact absurd (h.single b p id hb htree) ‹_›
    · cases hb
      split at ha
      · cases ha
      · exact absurd (h.single a p id ha htree) ‹_›
    · split at ha
      · cases ha
      · split at hb
        · cases hb
        · exact h.single a b i ha hb

theorem tidy_others (h : Tidy s) (others : Map Str (ViewEntry Content)) :
    Tidy {s with others := others} :=
  tidy_congr h fun q => by cases q <;> rfl

theorem tidy_putBeside {name : Str} (h : Tidy s) (he : e.marker ≠ .broken)
    (hnew : ∀ i, e.versionId = some i → ∀ q, q ≠ .previous name → s.treeAt q ≠ some i)
    (p : ViewPlace) : Tidy (s.putBeside p name e) := by
  cases p with
  | latest => exact tidy_others h _
  | previous x => exact tidy_put h he hnew

theorem tidy_removeBeside (h : Tidy s) (p : ViewPlace) (name : Str) :
    Tidy (s.removeBeside p name) := by
  cases p with
  | latest => exact tidy_others h _
  | previous x => exact tidy_remove (p := .previous name) h

theorem ahead_put {u : VersionInfo} (hu : u ∈ previous) {x : Str} (hx : Named env u x)
    (hfree : s.entry (.previous x) = none) (c : Content) :
    Ahead env previous s (s.put (.previous x) (.directory (.names u.id) c)) where
  others := others_put
  moved y f hf := by
    rw [entry_put] at hf
    by_cases heq : y = x
    · rw [heq,if_pos rfl] at hf
      cases hf
      exact .inr ⟨u,hu,heq ▸ hx,rfl⟩
    · rw [if_neg (heq ∘ ViewPlace.previous.inj)] at hf
      exact .inl hf
  kept y f hf _ := by
    rw [entry_put,if_neg]
    · exact hf
    · rintro heq
      rw [heq,hfree] at hf
      cases hf
  grown y i hy := by
    refine ⟨y,?_⟩
    rw [treeAt_put,if_neg]
    · exact hy
    · rintro heq
      rw [heq,treeAt,hfree] at hy
      cases hy

/-- What is left of a tree keeps its marker or has none. -/
theorem tidy_leftover (h : Tidy s) (hp : s.entry p = some e) (left : Leftover Content) :
    Tidy (s.put p (left.entry e.marker)) := by
  have hmarker : (left.entry e.marker).marker = e.marker ∨ (left.entry e.marker).marker = .absent := by
    change (if left.marked then e.marker else .absent) = _ ∨ (if left.marked then _ else _) = _
    split
    · exact .inl rfl
    · exact .inr rfl
  apply tidy_put h
  · rcases hmarker with hm | hm
    · rw [hm]
      exact h.sound p e hp
    · rw [hm]
      exact Marker.noConfusion
  · intro i hi q hq htree
    unfold ViewEntry.versionId at hi
    rcases hmarker with hm | hm
    · rw [hm] at hi
      exact hq (h.single _ _ i htree (treeAt_eq_some.mpr ⟨e,hp,hi⟩))
    · rw [hm] at hi
      cases hi

theorem tidy_leftoverBeside {name : Str} (h : Tidy s) (hp : s.beside name p = some e)
    (left : Leftover Content) : Tidy (s.putBeside p name (left.entry e.marker)) := by
  cases p with
  | latest => exact tidy_others h _
  | previous x => exact tidy_leftover (p := .previous name) h hp left

theorem ahead_move {u : VersionInfo} (hu : u ∈ previous) {x : Str} (hx : Named env u x)
    (hp : s.entry p = some e) (he : e.versionId = some u.id) (hfree : s.entry (.previous x) = none) :
    Ahead env previous s (s.move p (.previous x)) where
  others := others_move
  moved y f hf := by
    rw [entry_move hp] at hf
    by_cases heq : y = x
    · rw [heq,if_pos rfl] at hf
      cases hf
      exact .inr ⟨u,hu,heq ▸ hx,he⟩
    · rw [if_neg (heq ∘ ViewPlace.previous.inj)] at hf
      split at hf
      · cases hf
      · exact .inl hf
  kept y f hf hnone := by
    rw [entry_move hp,if_neg,if_neg]
    · exact hf
    · rintro rfl
      rw [hf] at hp
      cases hp
      rw [he] at hnone
      cases hnone
    · rintro heq
      rw [heq,hfree] at hf
      cases hf
  grown y i hy := by
    by_cases hyp : ViewPlace.previous y = p
    · refine ⟨x,?_⟩
      rw [treeAt_move hp,if_pos rfl,he]
      rw [hyp,treeAt,hp] at hy
      exact he.symm.trans hy
    · refine ⟨y,?_⟩
      rw [treeAt_move hp,if_neg,if_neg hyp]
      · exact hy
      · intro heq
        rw [heq,treeAt,hfree] at hy
        cases hy

theorem ahead_remove_latest : Ahead env previous s (s.remove .latest) where
  others := others_remove
  moved y f hf := by
    rw [entry_remove,if_neg nofun] at hf
    exact .inl hf
  kept y f hf _ := by
    rw [entry_remove,if_neg nofun]
    exact hf
  grown y i hy := by
    refine ⟨y,?_⟩
    rw [treeAt_remove,if_neg nofun]
    exact hy

end Steps

section Readers
variable {env : ViewEnv Content} {s : SourceFolder Content} {e : ViewEntry Content}

theorem readVersionMarker_eq (h : e.marker ≠ .broken) : e.readVersionMarker = .ok e.versionId := by
  unfold ViewEntry.readVersionMarker ViewEntry.versionId
  cases hm : e.marker with
  | absent => rfl
  | broken => exact absurd hm h
  | names id => rfl

theorem marker_ne_broken {id : Str} (h : e.versionId = some id) : e.marker ≠ .broken := by
  intro hb
  simp [ViewEntry.versionId,hb] at h

theorem marker_of_versionId {id : Str} (h : e.versionId = some id) : e.marker = .names id := by
  unfold ViewEntry.versionId at h
  cases hm : e.marker <;> simp_all

/-- A version without a tree gets a free name of its own, unless both are occupied. -/
theorem availableVersionPath_cases (h : Tidy s) {v : VersionInfo}
    (hnone : ∀ x, s.treeAt (.previous x) ≠ some v.id) :
    (∃ x, availableVersionPath env s.older v = .ok x ∧ Named env v x ∧
      s.entry (.previous x) = none) ∨
    ∃ err e e', availableVersionPath env s.older v = .error err ∧
      s.entry (.previous (readableVersionName env v)) = some e ∧
      s.entry (.previous (alternateVersionName env v)) = some e' := by
  unfold availableVersionPath
  cases he : s.older[readableVersionName env v]? with
  | none => exact .inl ⟨_,rfl,named_readable env v,he⟩
  | some e =>
      have hread : e.readVersionMarker = .ok e.versionId :=
        readVersionMarker_eq (h.sound (.previous (readableVersionName env v)) e he)
      have hne : e.versionId ≠ some v.id := fun hid =>
        hnone _ (treeAt_eq_some.mpr ⟨e,he,hid⟩)
      simp only [hread,bind,Except.bind,if_neg hne]
      cases he' : s.older[alternateVersionName env v]? with
      | none => exact .inl ⟨_,rfl,named_alternate env v,he'⟩
      | some e' => exact .inr ⟨_,e,e',rfl,he,he'⟩

/-- The trees among the first names of a listing. -/
def Found (s : SourceFolder Content) (done : List Str) (found : Map Str Str) :
    Prop :=
  ∀ id x, found[id]? = some x ↔ x ∈ done ∧ s.treeAt (.previous x) = some id

theorem noteVersion_found (h : Tidy s) {done : List Str} {found : Map Str Str}
    (hf : Found s done found) {x : Str} (hx : x ∉ done) :
    ∃ found', noteVersion s.older found x = .ok found' ∧ Found s (done++[x]) found' := by
  unfold noteVersion
  cases he : s.older[x]? with
  | none =>
      refine ⟨found,rfl,?_⟩
      intro id y
      have hy : s.treeAt (.previous x) ≠ some id := by simp [treeAt,entry,he]
      rw [hf id y]
      aesop
  | some e =>
      have hread : e.readVersionMarker = .ok e.versionId :=
        readVersionMarker_eq (h.sound (.previous x) e he)
      have htree : s.treeAt (.previous x) = e.versionId := by simp [treeAt,entry,he]
      simp only [hread,bind,Except.bind]
      cases hid : e.versionId with
      | none =>
          refine ⟨found,rfl,?_⟩
          intro id y
          rw [hf id y]
          aesop
      | some id =>
          have hnew : found[id]? = none := by
            rw [Option.eq_none_iff_forall_not_mem]
            intro y hy
            obtain ⟨hmem,hty⟩ := (hf id y).mp hy
            have heq := h.single _ _ id hty (htree.trans hid)
            exact hx (ViewPlace.previous.inj heq ▸ hmem)
          simp only [hnew,Option.isSome_none,Bool.false_eq_true,if_false]
          refine ⟨_,rfl,?_⟩
          intro i y
          rw [getElem?_insert]
          by_cases hi : id = i
          · subst hi
            simp only [Std.ReflCmp.compare_self,if_true,Option.some.injEq,List.mem_append,
              List.mem_singleton]
            constructor
            · rintro rfl
              exact ⟨.inr rfl,htree.trans hid⟩
            · rintro ⟨-,hy⟩
              exact ViewPlace.previous.inj (h.single _ _ id (htree.trans hid) hy)
          · have hcmp : ¬ compare id i = .eq := by simpa using hi
            rw [if_neg hcmp,hf i y]
            constructor
            · rintro ⟨hmem,hy⟩
              exact ⟨List.mem_append_left _ hmem,hy⟩
            · rintro ⟨hmem,hy⟩
              refine ⟨?_,hy⟩
              rcases List.mem_append.mp hmem with hmem | hmem
              · exact hmem
              · rw [List.mem_singleton.mp hmem,htree,hid] at hy
                exact absurd (Option.some.inj hy) hi

theorem previousVersionsById_ok (env : ViewEnv Content) (h : Tidy s) : ∃ found,
    previousVersionsById env s.older = .ok found ∧
      ∀ id x, found[id]? = some x ↔ s.treeAt (.previous x) = some id := by
  have hfold : ∀ (names done : List Str) (found : Map Str Str),
      (done++names).Nodup → Found s done found →
      ∃ found', names.foldlM (noteVersion s.older) found = .ok found' ∧
        Found s (done++names) found' := by
    intro names
    induction names with
    | nil =>
        intro done found _ hf
        rw [List.append_nil]
        exact ⟨found,rfl,hf⟩
    | cons x names ih =>
        intro done found hnd hf
        have hx : x ∉ done := fun hmem =>
          (List.nodup_append.mp hnd).2.2 x hmem x List.mem_cons_self rfl
        obtain ⟨mid,hmid,hfound⟩ := noteVersion_found h hf hx
        rw [← List.singleton_append,← List.append_assoc] at hnd ⊢
        obtain ⟨found',hrest,hall⟩ := ih _ mid hnd hfound
        refine ⟨found',?_,hall⟩
        rw [List.singleton_append,List.foldlM_cons,hmid]
        exact hrest
  have hnil : Found s [] ∅ := by
    intro id x
    simp
  obtain ⟨found,hok,hf⟩ := hfold (listed env.order s.older.keys) [] ∅
    (nodup_listed nodup_keys) hnil
  refine ⟨found,hok,?_⟩
  intro id x
  rw [hf id x,List.nil_append,mem_listed,mem_keys]
  refine and_iff_right_of_imp ?_
  intro htree
  obtain ⟨e,he,-⟩ := treeAt_eq_some.mp htree
  exact mem_of_getElem? he

end Readers

section Staging
variable {sha : Sha256} {env : ViewEnv Content} {source : Str}

/-- A name that does not start with a dot. -/
def Visible (name : Str) : Prop := ∃ c rest, name = c::rest ∧ c ≠ '.'

theorem visible_append {a : Str} (h : Visible a) (b : Str) : Visible (a++b) := by
  obtain ⟨c,rest,rfl,hc⟩ := h
  exact ⟨c,rest++b,rfl,hc⟩

theorem visible_of_forall {a : Str} (hne : a ≠ []) (h : ∀ c ∈ a, c ≠ '.') : Visible a := by
  obtain ⟨c,rest,rfl⟩ := List.exists_cons_of_ne_nil hne
  exact ⟨c,rest,rfl,h c List.mem_cons_self⟩

theorem visible_padded (width n : Nat) : Visible (padded width n) := by
  apply visible_of_forall
  · simp [padded,Nat.toDigits_ne_nil]
  · rintro c hc rfl
    rcases List.mem_append.mp hc with hc | hc
    · exact absurd (List.eq_of_mem_replicate hc) (by decide)
    · exact absurd (Nat.isDigit_of_mem_toDigits (by decide) (by decide) hc) (by decide)

theorem visible_format (t : LocalTime) : Visible t.format := by
  unfold LocalTime.format
  iterate 10 apply visible_append
  split
  · exact ⟨'-',_,rfl,by decide⟩
  · split
    · exact ⟨'+',_,rfl,by decide⟩
    · exact visible_padded 4 _

theorem visible_id {id : Str} (h : VersionIndex.validateVersionId id = true) : Visible id := by
  simp only [VersionIndex.validateVersionId,Bool.and_eq_true,List.all_eq_true] at h
  apply visible_of_forall
  · rintro rfl
    exact absurd h.1.1 (by decide)
  · rintro c hc rfl
    exact absurd (h.2 '.' hc) (by decide)

theorem visible_named {v : VersionInfo} (h : VersionIndex.validateVersionId v.id = true) {x : Str}
    (hx : Named env v x) : Visible x := by
  have hname : Visible (readableVersionName env v) := by
    unfold readableVersionName
    cases env.localTime v.createdAtUnix with
    | none => exact visible_id h
    | some t => exact visible_format t
  rcases hx with rfl | rfl
  · exact hname
  · exact visible_append (visible_append hname _) _

theorem not_visible_versionStage (v : VersionInfo) : ¬ Visible (versionStage sha env source v) := by
  rintro ⟨c,rest,h,hc⟩
  obtain ⟨rfl,-⟩ := List.cons.inj h
  exact hc rfl

end Staging

end BackupSync.ReadableView
