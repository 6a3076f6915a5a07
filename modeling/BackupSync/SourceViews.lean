import BackupSync.ReadableView

/-!
# The folders of the sources of a destination

find_or_create_source_view looks for the folder whose marker names the source and
publishes a new one only where there is none: it makes a staging folder, writes the
marker into it and renames it. Each of these can fail, and a staging folder that
could not be cleared away may stay behind, with its marker.

A call leaves every entry it meets as it is. What it returns carries the marker of
its source, so over any sequence of calls a source keeps its folder and two sources
never share one.
-/
namespace BackupSync.ReadableView
open Interruptible ContentHash RelativePath

variable {Content : Type}

section Maps
variable {Value : Type} {entries : Map Str Value} {x : Str}

theorem insert_insert (x : Str) (a b : Value) :
    (entries.insert x a).insert x b = entries.insert x b := by
  apply ext_getElem?
  intro y
  simp only [getElem?_insert]
  split <;> rfl

theorem erase_insert (h : entries[x]? = none) (a : Value) : (entries.insert x a).erase x = entries := by
  apply ext_getElem?
  intro y
  rw [getElem?_erase,getElem?_insert]
  by_cases hy : x = y
  · subst hy
    simp [h]
  · simp [hy]

end Maps

section Search
variable (source : Str)

/-- The folder that carries the marker of the source. -/
def Marked (shelf : Shelf Content) (name : Str) (s : SourceFolder Content) : Prop :=
  shelf[name]? = some (.directory (.names source) s)

variable {source} {shelf : Shelf Content} {s : SourceFolder Content}

theorem findSourceView_directory {y : Str} {m : Marker} (he : shelf[y]? = some (.directory m s))
    (hm : m ≠ .broken) (names : List Str) : findSourceView source shelf (y::names) =
      if m = .names source then .ok (some y) else findSourceView source shelf names := by
  rw [findSourceView,he]
  cases m with
  | absent => simp [readJsonMarker,bind,Except.bind]
  | broken => exact absurd rfl hm
  | names value => simp [readJsonMarker,bind,Except.bind]

/-- One entry of the listing: it ends the search, is an obstacle to it or is passed over. -/
theorem findSourceView_cons (shelf : Shelf Content) (source y : Str) (names : List Str) :
    (∃ s, Marked source shelf y s ∧ findSourceView source shelf (y::names) = .ok (some y)) ∨
    (∃ s, shelf[y]? = some (.directory .broken s) ∧
      findSourceView source shelf (y::names) = .error .unreadableMarker) ∨
    ((∀ s, ¬ Marked source shelf y s) ∧
      findSourceView source shelf (y::names) = findSourceView source shelf names) := by
  have hpass : (∀ s, shelf[y]? ≠ some (.directory (.names source) s)) →
      findSourceView source shelf (y::names) = findSourceView source shelf names →
      (∀ s, ¬ Marked source shelf y s) ∧
        findSourceView source shelf (y::names) = findSourceView source shelf names :=
    fun hno he => ⟨fun s hs => hno s hs,he⟩
  cases he : shelf[y]? with
  | none =>
      apply Or.inr ∘ Or.inr
      apply hpass
      · simp [he]
      · rw [findSourceView,he]
  | some e =>
      cases e with
      | file c =>
          apply Or.inr ∘ Or.inr
          apply hpass
          · simp [he]
          · rw [findSourceView,he]
      | directory m s =>
          by_cases hbroken : m = .broken
          · subst hbroken
            refine .inr (.inl ⟨s,rfl,?_⟩)
            rw [findSourceView,he]
            rfl
          · by_cases hm : m = .names source
            · subst hm
              refine .inl ⟨s,he,?_⟩
              rw [findSourceView_directory he hbroken,if_pos rfl]
            · apply Or.inr ∘ Or.inr
              apply hpass
              · intro s' hs'
                rw [he] at hs'
                cases hs'
                exact hm rfl
              · rw [findSourceView_directory he hbroken,if_neg hm]

theorem no_marked_of_listed {order : List Str}
    (h : ∀ x ∈ listed order shelf.keys, ∀ s, ¬ Marked source shelf x s) (x : Str)
    (s : SourceFolder Content) : ¬ Marked source shelf x s := by
  intro hs
  exact h x (mem_listed_keys.mpr ⟨_,hs⟩) s hs

end Search

namespace SourceViews
variable (sha : Sha256) (env : PublishEnv) (path : SourcePath)

def storeName : Str := ".backup_sync".toList

section Names

/-- A name that leads to a direct child of the directory it is joined to. -/
def IsChild (name : Str) : Prop := components name = [.normal name]

instance (name : Str) : Decidable (IsChild name) := by
  unfold IsChild
  infer_instance

theorem isChild_of_plain {name : Str} (h : '/' ∉ name) (hne : name ≠ []) (hdot : name ≠ ['.'])
    (hdots : name ≠ ['.','.']) : IsChild name := by
  have hsplit : name.splitOn '/' = [name] := List.splitOn_eq_singleton h
  rw [IsChild,components_of_splitOn hsplit hne hdot]
  rw [List.filterMap_cons,pieceComponent.eq_4 name hne hdot hdots,List.filterMap_nil]

theorem not_slash_of_hex {c : Char} (h : isHexByte c = true) : c ≠ '/' := by
  rintro rfl
  revert h
  decide

theorem slash_not_mem_shortHash (source : Str) : '/' ∉ shortHash sha source := by
  intro h
  have hall := all_hexLower (sha.digest (utf8 source))
  rw [List.all_eq_true] at hall
  exact not_slash_of_hex (hall '/' (List.mem_of_mem_take h)) rfl

theorem cleanedChar_ne_slash (c : Char) : cleanedChar c ≠ '/' := by
  unfold cleanedChar
  split
  · decide
  · rename_i h
    rintro rfl
    revert h
    decide

theorem mem_of_mem_trimMatches {p : Char → Bool} {s : Str} {c : Char} (h : c ∈ trimMatches p s) :
    c ∈ s := by
  unfold trimMatches at h
  rw [List.mem_reverse] at h
  have h := (List.dropWhile_suffix p).mem h
  rw [List.mem_reverse] at h
  exact (List.dropWhile_suffix p).mem h

theorem head_trimMatches {p : Char → Bool} {s rest : Str} {c : Char}
    (h : trimMatches p s = c::rest) : p c = false := by
  have hpre : trimMatches p s <+: s.dropWhile p := List.rdropWhile_prefix p _
  obtain ⟨tail,htail⟩ := hpre
  rw [h] at htail
  have hhead := List.head?_dropWhile_not p s
  rwa [← htail] at hhead

theorem slash_not_mem_readableSourceName (name : Option Str) : '/' ∉ readableSourceName name := by
  unfold readableSourceName
  dsimp only
  split
  · decide
  · intro h
    obtain ⟨c,-,hc⟩ := List.mem_map.mp (mem_of_mem_trimMatches h)
    exact cleanedChar_ne_slash c hc

/-- A readable name begins with something else than a dot. -/
theorem readableSourceName_eq_cons (name : Option Str) :
    ∃ c rest, readableSourceName name = c::rest ∧ c ≠ '.' := by
  unfold readableSourceName
  dsimp only
  split
  · exact ⟨_,_,rfl,by decide⟩
  · rename_i h
    obtain ⟨c,rest,hc⟩ := List.exists_cons_of_ne_nil (mt List.isEmpty_iff.mpr h)
    refine ⟨c,rest,hc,?_⟩
    have hp := head_trimMatches hc
    rintro rfl
    revert hp
    decide

/-- A name with such a beginning is a child and is not the store. -/
theorem isChild_of_head {name rest : Str} {c : Char} (hslash : '/' ∉ name) (he : name = c::rest)
    (hc : c ≠ '.') : IsChild name ∧ name ≠ storeName := by
  subst he
  refine ⟨isChild_of_plain hslash (List.cons_ne_nil c rest) ?_ ?_,?_⟩
  · intro h
    exact hc (List.cons.inj h).1
  · intro h
    exact hc (List.cons.inj h).1
  · intro h
    exact hc (List.cons.inj h).1

theorem isChild_sourceTarget (shelf : Shelf Content) :
    IsChild (sourceTarget sha path shelf) ∧ sourceTarget sha path shelf ≠ storeName := by
  obtain ⟨c,rest,hname,hc⟩ := readableSourceName_eq_cons path.name
  have hslash := slash_not_mem_readableSourceName path.name
  unfold sourceTarget
  split
  · apply isChild_of_head _ _ hc
    · exact rest++" — ".toList++shortHash sha path.text
    · have hhash := slash_not_mem_shortHash sha path.text
      have hdash : '/' ∉ " — ".toList := by decide
      simp only [List.mem_append]
      tauto
    · rw [hname,List.cons_append,List.cons_append]
  · exact isChild_of_head hslash hname hc

theorem isChild_sourceStage :
    IsChild (sourceStage sha env path) ∧ sourceStage sha env path ≠ storeName := by
  have hslash : '/' ∉ sourceStage sha env path := by
    have hhash := slash_not_mem_shortHash sha path.text
    have hlead : '/' ∉ ".backup-sync-source-stage-".toList := by decide
    have hdash : '/' ∉ "-".toList := by decide
    have hdigits : '/' ∉ Nat.toDigits 10 env.processId := by
      intro h
      exact absurd (Nat.isDigit_of_mem_toDigits (by decide) (by decide) h) (by decide)
    unfold sourceStage
    simp only [List.mem_append]
    tauto
  have hlead : (sourceStage sha env path).take 8 = ".backup-".toList := by
    unfold sourceStage
    rw [List.append_assoc,List.append_assoc,List.take_append_of_le_length (by decide)]
    rfl
  refine ⟨isChild_of_plain hslash ?_ ?_ ?_,?_⟩
  all_goals
    intro h
    rw [h] at hlead
    revert hlead
    decide

end Names

section Steps
variable {sha env path} {shelf t : Shelf Content}

/-- Each source has one folder at most. -/
def Single (shelf : Shelf Content) : Prop :=
  ∀ source x y s u, Marked source shelf x s → Marked source shelf y u → x = y

theorem single_of_marks {t : Shelf Content} (h : Single shelf)
    (hmarks : ∀ source x s, Marked source t x s → ∃ u, Marked source shelf x u) : Single t := by
  intro source x y s u hx hy
  obtain ⟨s',hx'⟩ := hmarks source x s hx
  obtain ⟨u',hy'⟩ := hmarks source y u hy
  exact h source x y s' u' hx' hy'

theorem single_unmark (name : Str) (s : SourceFolder Content) (h : Single shelf) :
    Single (shelf.insert name (.directory .absent s)) := by
  apply single_of_marks h
  intro source x u hx
  by_cases hne : x = name
  · subst hne
    rw [Marked,getElem?_insert_self] at hx
    cases hx
  · rw [Marked,getElem?_insert_of_ne hne] at hx
    exact ⟨u,hx⟩

theorem single_mark {source name : Str} {s : SourceFolder Content} (h : Single shelf)
    (hnone : ∀ x u, ¬ Marked source shelf x u) :
    Single (shelf.insert name (.directory (.names source) s)) := by
  have hold : ∀ source' x u, Marked source' (shelf.insert name (.directory (.names source) s)) x u →
      (x = name ∧ source' = source) ∨ (x ≠ name ∧ Marked source' shelf x u) := by
    intro source' x u hx
    by_cases hne : x = name
    · subst hne
      rw [Marked,getElem?_insert_self] at hx
      cases hx
      exact .inl ⟨rfl,rfl⟩
    · rw [Marked,getElem?_insert_of_ne hne] at hx
      exact .inr ⟨hne,hx⟩
  intro source' x y u w hx hy
  rcases hold source' x u hx with ⟨rfl,rfl⟩ | ⟨-,hx'⟩
  · rcases hold _ y w hy with ⟨rfl,-⟩ | ⟨-,hy'⟩
    · rfl
    · exact absurd hy' (hnone y w)
  · rcases hold source' y w hy with ⟨-,rfl⟩ | ⟨-,hy'⟩
    · exact absurd hx' (hnone x u)
    · exact h source' x y u w hx' hy'

/-- The folders of the sources are children of the destination other than the store. -/
structure Shelved (shelf : Shelf Content) : Prop where
  child : ∀ (x : Str) e, shelf[x]? = some e → IsChild x
  single : Single shelf
  store : ∀ source s, ¬ Marked source shelf storeName s

/-- Every entry there was is still there as it was. -/
def Kept (shelf t : Shelf Content) : Prop := ∀ (x : Str) e, shelf[x]? = some e → t[x]? = some e

theorem kept_insert {x : Str} (h : shelf[x]? = none) (e : TopEntry Content) :
    Kept shelf (shelf.insert x e) := by
  intro y e' hy
  have hne : y ≠ x := by
    rintro rfl
    rw [h] at hy
    cases hy
  rwa [getElem?_insert_of_ne hne]

/-- A new folder, with or without the marker of a source that has none. -/
theorem shelved_insert {x source : Str} {m : Marker} {s : SourceFolder Content} (h : Shelved shelf)
    (hnone : ∀ y u, ¬ Marked source shelf y u) (hx : IsChild x ∧ x ≠ storeName)
    (hm : m = .absent ∨ m = .names source) : Shelved (shelf.insert x (.directory m s)) := by
  refine ⟨?_,?_,?_⟩
  · intro y e hy
    by_cases hyx : y = x
    · rw [hyx]
      exact hx.1
    · rw [getElem?_insert_of_ne hyx] at hy
      exact h.child y e hy
  · rcases hm with rfl | rfl
    · exact single_unmark x s h.single
    · exact single_mark h.single hnone
  · intro source' u hu
    rw [Marked,getElem?_insert_of_ne (Ne.symm hx.2)] at hu
    exact h.store source' u hu

/-- None of the steps of the publication fails. -/
structure Smooth (env : PublishEnv) : Prop where
  listable : env.listable = true
  stageCreated : env.stageCreated = true
  markerWritten : env.markerWritten = true
  renamed : env.renamed = true

/-- What a call that does not publish can leave: nothing, or its staging folder. -/
def Staged (sha : Sha256) (env : PublishEnv) (path : SourcePath) (shelf t : Shelf Content) : Prop :=
  t = shelf ∨ ∃ m, (m = .absent ∨ m = .names path.text) ∧
    t = shelf.insert (sourceStage sha env path) (.directory m .empty)

theorem spec_clearStage (hfree : shelf[sourceStage sha env path]? = none) :
    Spec (Staged sha env path shelf) (clearStage sha env path)
      (fun _ => Staged sha env path shelf) (fun _ => Staged sha env path shelf)
      (Staged sha env path shelf) := by
  have hinsert : ∀ e, (shelf.insert (sourceStage sha env path) e).erase
      (sourceStage sha env path) = shelf :=
    fun e => erase_insert hfree e
  have herase : shelf.erase (sourceStage sha env path) = shelf := by
    apply ext_getElem?
    intro y
    rw [getElem?_erase]
    split
    · rename_i hy
      rw [← Std.LawfulEqCmp.eq_of_compare hy,hfree]
    · rfl
  unfold clearStage
  cases env.clearing with
  | removed =>
      apply spec_step
      have hdone : ∀ t, Staged sha env path shelf t →
          Staged sha env path shelf (t.erase (sourceStage sha env path)) := by
        rintro t (rfl | ⟨m,-,rfl⟩)
        · exact .inl herase
        · exact .inl (hinsert _)
      exact fun t ht => ⟨hdone t ht,hdone t ht⟩
  | unmarked =>
      apply spec_step
      have hdone : ∀ t, Staged sha env path shelf t → Staged sha env path shelf
          (t.insert (sourceStage sha env path) (.directory .absent .empty)) := by
        rintro t (rfl | ⟨m,-,rfl⟩)
        · exact .inr ⟨.absent,.inl rfl,rfl⟩
        · exact .inr ⟨.absent,.inl rfl,insert_insert _ _ _⟩
      exact fun t ht => ⟨hdone t ht,hdone t ht⟩
  | kept => exact spec_pure () fun t ht => ht

theorem spec_publishSource {target : Str} (hfree : shelf[sourceStage sha env path]? = none) :
    Spec (fun t => t = shelf) (publishSource sha env path target)
      (fun d t => d = target ∧ t = shelf.insert target (.directory (.names path.text) .empty))
      (fun _ t => Staged sha env path shelf t ∧ ¬ Smooth env)
      (fun t => Staged sha env path shelf t ∨
        t = shelf.insert target (.directory (.names path.text) .empty)) := by
  have hmarked : ∀ m, Staged sha env path shelf
      ((shelf.insert (sourceStage sha env path) (.directory m .empty)).insert
        (sourceStage sha env path) (.directory (.names path.text) .empty)) :=
    fun m => .inr ⟨.names path.text,.inr rfl,insert_insert _ _ _⟩
  refine spec_check_cases ?_ fun _ => ?_
  · rintro hcreated _ rfl
    exact ⟨.inl rfl,fun h => Bool.false_ne_true (hcreated.symm.trans h.stageCreated)⟩
  refine spec_bind (R := fun _ t => t = shelf.insert (sourceStage sha env path)
    (.directory .absent .empty)) (spec_step ?_) fun _ => ?_
  · rintro _ rfl
    exact ⟨rfl,.inl (.inr ⟨.absent,.inl rfl,rfl⟩)⟩
  refine spec_attempt_bind (Q := fun _ t => t = shelf.insert target
    (.directory (.names path.text) .empty))
    (E := fun _ t => Staged sha env path shelf t ∧ ¬ Smooth env) ?_ ?_ ?_
  · refine spec_bind (R := fun _ t => t = shelf.insert (sourceStage sha env path)
      (.directory (.names path.text) .empty)) ?_ fun _ => ?_
    · unfold writeJsonMarker
      split
      · apply spec_step
        rintro _ rfl
        exact ⟨insert_insert _ _ _,.inl (hmarked _)⟩
      · rename_i hwritten
        apply spec_fail
        rintro _ rfl
        exact ⟨.inr ⟨.absent,.inl rfl,rfl⟩,fun h => hwritten h.markerWritten⟩
    · unfold renameStage
      split
      · apply spec_step
        rintro _ rfl
        rw [getElem?_insert_self,erase_insert hfree]
        exact ⟨rfl,.inr rfl⟩
      · rename_i hrenamed
        apply spec_fail
        rintro _ rfl
        exact ⟨.inr ⟨.names path.text,.inr rfl,rfl⟩,fun h => hrenamed h.renamed⟩
  · intro _
    apply spec_pure
    rintro _ rfl
    exact ⟨rfl,rfl⟩
  · intro e
    refine spec_fact fun hrough => ?_
    refine spec_bind (spec_conseq (spec_clearStage hfree) (fun _ h => h) (fun _ _ h => h)
      (fun _ _ h => ⟨h,hrough⟩) fun _ h => .inl h) fun _ => ?_
    exact spec_fail e fun _ h => ⟨h,hrough⟩

theorem marked_of_found {source x : Str} {names : List Str}
    (h : findSourceView source shelf names = .ok (some x)) : ∃ s, Marked source shelf x s := by
  induction names with
  | nil => cases h
  | cons y names ih =>
      rcases findSourceView_cons shelf source y names with ⟨s,hs,he⟩ | ⟨-,-,he⟩ | ⟨-,he⟩
      · rw [he] at h
        cases h
        exact ⟨s,hs⟩
      · rw [he] at h
        cases h
      · exact ih (he.symm.trans h)

theorem unmarked_of_not_found {source : Str} {names : List Str}
    (h : findSourceView source shelf names = .ok none) (x : Str) (hx : x ∈ names)
    (s : SourceFolder Content) : ¬ Marked source shelf x s := by
  induction names with
  | nil => cases hx
  | cons y names ih =>
      rcases findSourceView_cons shelf source y names with ⟨s,hs,he⟩ | ⟨-,-,he⟩ | ⟨hno,he⟩
      · rw [he] at h
        cases h
      · rw [he] at h
        cases h
      · rcases List.mem_cons.mp hx with rfl | hx
        · exact hno s
        · exact ih (he.symm.trans h) hx

/-- The state a call leaves or is cut in, from the one it started in. -/
structure Grown (shelf t : Shelf Content) : Prop where
  shelved : Shelved t
  kept : Kept shelf t

theorem grown_self (h : Shelved shelf) : Grown shelf shelf := ⟨h,fun _ _ he => he⟩

theorem grown_of_staged (h : Shelved shelf) (hnone : ∀ y u, ¬ Marked path.text shelf y u)
    (hfree : shelf[sourceStage sha env path]? = none) (ht : Staged sha env path shelf t) :
    Grown shelf t := by
  rcases ht with rfl | ⟨m,hm,rfl⟩
  · exact grown_self h
  · exact ⟨shelved_insert h hnone (isChild_sourceStage sha env path) hm,kept_insert hfree _⟩

/-- The folder returned is the one of the source, found or new. -/
theorem spec_findOrCreateSourceView_grown (h : Shelved shelf) :
    Spec (fun t => t = shelf) (findOrCreateSourceView sha env path)
      (fun d t => Grown shelf t ∧ (∃ s, Marked path.text t d s) ∧
        ∀ e, shelf[d]? = some e → ∃ s, Marked path.text shelf d s)
      (fun _ => Grown shelf) (Grown shelf) := by
  have hself := grown_self h
  refine spec_check_bind (by rintro _ rfl; exact hself) fun _ => ?_
  refine spec_read_bind ?_
  rintro shelf rfl
  refine spec_lift_bind ?_ ?_
  · rintro _ _ _ ⟨rfl,-⟩
    exact hself
  intro found hfound
  cases found with
  | some name =>
      obtain ⟨s,hs⟩ := marked_of_found hfound
      apply spec_pure
      rintro _ ⟨rfl,-⟩
      exact ⟨hself,⟨s,hs⟩,fun _ _ => ⟨s,hs⟩⟩
  | none =>
      have hnone := no_marked_of_listed (unmarked_of_not_found hfound)
      refine spec_check_cases ?_ fun htarget => ?_
      · rintro - _ ⟨rfl,-⟩
        exact hself
      refine spec_check_cases ?_ fun hstage => ?_
      · rintro - _ ⟨rfl,-⟩
        exact hself
      have htarget := Option.isNone_iff_eq_none.mp htarget
      have hstage := Option.isNone_iff_eq_none.mp hstage
      have hnew : Grown shelf (shelf.insert (sourceTarget sha path shelf)
          (.directory (.names path.text) .empty)) :=
        ⟨shelved_insert h hnone (isChild_sourceTarget sha path shelf) (.inr rfl),
          kept_insert htarget _⟩
      refine spec_conseq (spec_publishSource hstage) (fun _ ht => ht.1) ?_ ?_ ?_
      · rintro d t ⟨rfl,rfl⟩
        refine ⟨hnew,⟨.empty,getElem?_insert_self⟩,?_⟩
        intro e he
        rw [htarget] at he
        cases he
      · exact fun _ t ht => grown_of_staged h hnone hstage ht.1
      · rintro t (ht | rfl)
        · exact grown_of_staged h hnone hstage ht
        · exact hnew

end Steps

section Calls
variable {sha} {start shelf : Shelf Content} {past : List (SourcePath × Str)}

/-- The states calls lead to, one after the other, with what each of them returned. -/
inductive Calls (sha : Sha256) (start : Shelf Content) :
    List (SourcePath × Str) → Shelf Content → Prop
  | start : Calls sha start [] start
  | returned {past : List (SourcePath × Str)} {shelf t : Shelf Content} (env : PublishEnv)
      (path : SourcePath) (name : Str) : Calls sha start past shelf →
      Returns (findOrCreateSourceView sha env path) shelf name t →
      Calls sha start ((path,name)::past) t
  | stopped {past : List (SourcePath × Str)} {shelf t : Shelf Content} (env : PublishEnv)
      (path : SourcePath) : Calls sha start past shelf →
      t ∈ (findOrCreateSourceView sha env path shelf).states → Calls sha start past t

/-- A destination in which no folder is that of a source. -/
theorem shelved_of_unowned (h : ∀ (x : Str) e, start[x]? = some e →
    IsChild x ∧ ∀ source s, e ≠ .directory (.names source) s) : Shelved start where
  child x e he := (h x e he).1
  single source x _ s _ hx _ := absurd rfl ((h x _ hx).2 source s)
  store source s hs := (h storeName _ hs).2 source s rfl

theorem grown_states (h : Shelved shelf) (env : PublishEnv) (path : SourcePath) :
    ∀ t ∈ (findOrCreateSourceView sha env path shelf).states, Grown shelf t :=
  fun _ ht => (spec_findOrCreateSourceView_grown h).states (fun _ _ hq => hq.1)
    (fun _ _ he => he) rfl ht

theorem Calls.invariant (hstart : Shelved start) (hc : Calls sha start past shelf) :
    Shelved shelf ∧ ∀ path name, (path,name) ∈ past → ∃ s, Marked path.text shelf name s := by
  induction hc with
  | start => exact ⟨hstart,by simp⟩
  | returned env path name _ hr ih =>
      obtain ⟨hgrown,hmarked,-⟩ := (spec_findOrCreateSourceView_grown ih.1).returns rfl hr
      refine ⟨hgrown.shelved,?_⟩
      intro path' name' hmem
      rcases List.mem_cons.mp hmem with he | hmem
      · cases he
        exact hmarked
      · obtain ⟨s,hs⟩ := ih.2 path' name' hmem
        exact ⟨s,hgrown.kept name' _ hs⟩
  | stopped env path _ ht ih =>
      have hgrown := grown_states ih.1 env path _ ht
      refine ⟨hgrown.shelved,?_⟩
      intro path' name' hmem
      obtain ⟨s,hs⟩ := ih.2 path' name' hmem
      exact ⟨s,hgrown.kept name' _ hs⟩

/-- Where nothing keeps the search from its end, the folder of a source is found again. -/
theorem returns_marked {env : PublishEnv} {path : SourcePath} {name : Str}
    {s : SourceFolder Content} (h : Shelved shelf) (hs : Marked path.text shelf name s)
    (hlist : env.listable = true)
    (hsound : ∀ (x : Str) m u, shelf[x]? = some (.directory m u) → m ≠ .broken) :
    Returns (findOrCreateSourceView sha env path) shelf name shelf := by
  have hfound : findSourceView path.text shelf (listed env.order shelf.keys) = .ok (some name) := by
    have hnames : ∀ names, name ∈ names →
        findSourceView path.text shelf names = .ok (some name) := by
      intro names hmem
      induction names with
      | nil => cases hmem
      | cons y names ih =>
          rcases findSourceView_cons shelf path.text y names with
            ⟨u,hu,he⟩ | ⟨u,hu,-⟩ | ⟨hno,he⟩
          · rw [he,h.single path.text y name u s hu hs]
          · exact absurd rfl (hsound y _ u hu)
          · rcases List.mem_cons.mp hmem with rfl | hmem
            · exact absurd hs (hno s)
            · exact he.trans (ih hmem)
    exact hnames _ (mem_listed_keys.mpr ⟨_,hs⟩)
  unfold findOrCreateSourceView
  rw [returns_check_bind,returns_read_bind,returns_lift_bind,hfound]
  refine ⟨hlist,some name,rfl,?_⟩
  simp

end Calls

section TwoSources

/-- A destination with a folder of the user's own. -/
def ownShelf : Shelf Unit := (∅ : Shelf Unit).insert "docs".toList (.directory .absent .empty)

def publishEnv : PublishEnv := ⟨[],7,true,true,true,true,.removed⟩

def docsSha : Sha256 := .ofTable [(utf8 "/a/docs".toList,Vector.replicate 32 1)]

def workDocs : SourcePath := .ofText "/a/docs".toList

def homeDocs : SourcePath := .ofText "/b/docs".toList

def afterWork : Shelf Unit := (findOrCreateSourceView docsSha publishEnv workDocs ownShelf).store

def afterHome : Shelf Unit := (findOrCreateSourceView docsSha publishEnv homeDocs afterWork).store

theorem shelved_ownShelf : Shelved ownShelf := by
  apply shelved_of_unowned
  intro x e he
  unfold ownShelf at he
  rw [getElem?_insert] at he
  split at he
  · rename_i hx
    rw [← Std.LawfulEqCmp.eq_of_compare hx]
    cases he
    exact ⟨by decide,by simp⟩
  · simp at he

end TwoSources
end SourceViews
end BackupSync.ReadableView
