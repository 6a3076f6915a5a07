import BackupSync.ViewSync
import BackupSync.StoreCompleteness

/-!
# Readable views over many calls

The states of a destination that calls for one source leave behind, complete,
failed or cut short between two steps, with anything others may do to what is
theirs in between. In each of them the folder of the source is found again and is
tidy, so a call succeeds unless something foreign, the rest of an earlier call or a
third version with the same display name is in its way.
-/
namespace BackupSync.ReadableView
open Checks Interruptible Interruptible.Action SourceFolder SourceViews StoreCompleteness

variable {Content : Type}

section Shelves
variable (source : Str)

structure Orderly (shelf : Shelf Content) : Prop where
  sound : ∀ (x : Str) m s, shelf[x]? = some (.directory m s) → m ≠ .broken
  single : ∀ x y s t, Marked source shelf x s → Marked source shelf y t → x = y
  tidy : ∀ x s, Marked source shelf x s → Tidy s

variable {source} {shelf : Shelf Content} {name : Str} {s t : SourceFolder Content}

theorem folder_of_marked (h : Marked source shelf name s) : shelf.folder name = s := by
  unfold Shelf.folder
  rw [show shelf[name]? = _ from h]

theorem setFolder_of_marked (h : Marked source shelf name s) (t : SourceFolder Content) :
    shelf.setFolder name t = shelf.insert name (.directory (.names source) t) := by
  unfold Shelf.setFolder
  rw [show shelf[name]? = _ from h]

theorem marked_insert {u : SourceFolder Content} {y : Str}
    (h : Marked source (shelf.insert name (.directory (.names source) t)) y u) :
    (y = name ∧ u = t) ∨ Marked source shelf y u := by
  by_cases hy : y = name
  · subst hy
    unfold Marked at h
    rw [getElem?_insert_self] at h
    cases h
    exact .inl ⟨rfl,rfl⟩
  · exact .inr ((getElem?_insert_of_ne hy _).symm.trans h)

theorem orderly_insert (h : Orderly source shelf) (hm : ∀ y u, Marked source shelf y u → y = name)
    (ht : Tidy t) : Orderly source (shelf.insert name (.directory (.names source) t)) where
  sound x m u hx := by
    by_cases hname : x = name
    · subst hname
      rw [getElem?_insert_self] at hx
      cases hx
      exact Marker.noConfusion
    · rw [getElem?_insert_of_ne hname] at hx
      exact h.sound x m u hx
  single x y u w hx hy := by
    have hat : ∀ z v, Marked source (shelf.insert name (.directory (.names source) t)) z v →
        z = name := by
      intro z v hz
      rcases marked_insert hz with ⟨hz,-⟩ | hz
      · exact hz
      · exact hm z v hz
    rw [hat x u hx,hat y w hy]
  tidy x u hx := by
    rcases marked_insert hx with ⟨-,rfl⟩ | hx
    · exact ht
    · exact h.tidy x u hx

/-- A folder loses its marker and then goes. -/
theorem orderly_unmark (h : Orderly source shelf) (name : Str) (s : SourceFolder Content) :
    Orderly source (shelf.insert name (.directory .absent s)) := by
  have hold : ∀ (x : Str) m u, (shelf.insert name (.directory .absent s))[x]? = some (.directory m u) →
      m = .absent ∨ shelf[x]? = some (.directory m u) := by
    intro x m u hx
    by_cases hname : x = name
    · subst hname
      rw [getElem?_insert_self] at hx
      cases hx
      exact .inl rfl
    · rw [getElem?_insert_of_ne hname] at hx
      exact .inr hx
  have hmarked : ∀ x u, Marked source (shelf.insert name (.directory .absent s)) x u →
      Marked source shelf x u := fun x u hx => (hold x _ u hx).resolve_left nofun
  refine ⟨?_,?_,?_⟩
  · intro x m u hx
    rcases hold x m u hx with rfl | hx
    · exact Marker.noConfusion
    · exact h.sound x m u hx
  · intro x y u w hx hy
    exact h.single x y u w (hmarked x u hx) (hmarked y w hy)
  · intro x u hx
    exact h.tidy x u (hmarked x u hx)

theorem orderly_erase (h : Orderly source shelf) (name : Str) :
    Orderly source (shelf.erase name) := by
  have hold : ∀ (x : Str) e, (shelf.erase name)[x]? = some e → shelf[x]? = some e := by
    intro x e hx
    rw [getElem?_erase] at hx
    split at hx
    · cases hx
    · exact hx
  refine ⟨?_,?_,?_⟩
  · intro x m u hx
    exact h.sound x m u (hold x _ hx)
  · intro x y u w hx hy
    exact h.single x y u w (hold x _ hx) (hold y _ hy)
  · intro x u hx
    exact h.tidy x u (hold x _ hx)

/-- The search finds the folder of the source wherever it stands in the listing. -/
theorem findSourceView_cases (h : Orderly source shelf) (names : List Str) :
    (∃ x s, findSourceView source shelf names = .ok (some x) ∧ Marked source shelf x s) ∨
    (findSourceView source shelf names = .ok none ∧ ∀ x ∈ names, ∀ s, ¬ Marked source shelf x s) := by
  induction names with
  | nil => exact .inr ⟨rfl,by simp⟩
  | cons y names ih =>
      rcases findSourceView_cons shelf source y names with ⟨s,hs,he⟩ | ⟨s,hs,-⟩ | ⟨hy,he⟩
      · exact .inl ⟨y,s,he,hs⟩
      · exact absurd rfl (h.sound y .broken s hs)
      · rw [he]
        rcases ih with ih | ⟨hnone,hall⟩
        · exact .inl ih
        · refine .inr ⟨hnone,?_⟩
          intro x hx
          rcases List.mem_cons.mp hx with rfl | hx
          · exact hy
          · exact hall x hx

end Shelves

section Parts
variable {sha : Sha256} {env : ViewEnv Content} {source : Str} {shelf : Shelf Content}
  {s : SourceFolder Content}

/-- The folder of the source before a call: the one found, or an empty one under a free name. -/
def Before (source : Str) (shelf : Shelf Content) (name : Str) (s : SourceFolder Content) : Prop :=
  Marked source shelf name s ∨
    (shelf[name]? = none ∧ s = .empty ∧ ∀ x u, ¬ Marked source shelf x u)

/-- The name and the staging name of a new folder are free. -/
def Fresh (sha : Sha256) (env : ViewEnv Content) (source : Str) (shelf : Shelf Content) : Prop :=
  shelf[sourceTarget sha (.ofText source) shelf]? = none ∧
    shelf[sourceStage sha env.toPublishEnv (.ofText source)]? = none

theorem entry_empty (p : ViewPlace) : (.empty : SourceFolder Content).entry p = none := by
  cases p <;> simp [entry,older,SourceFolder.empty]

theorem tidy_empty : Tidy (.empty : SourceFolder Content) where
  sound p e he := by
    rw [entry_empty] at he
    cases he
  single p q id hp _ := by
    rw [treeAt,entry_empty] at hp
    cases hp

theorem orderly_staged (h : Orderly source shelf) (hnone : ∀ x u, ¬ Marked source shelf x u)
    {t : Shelf Content} (ht : Staged sha env.toPublishEnv (.ofText source) shelf t) :
    Orderly source t := by
  rcases ht with rfl | ⟨m,rfl | rfl,rfl⟩
  · exact h
  · exact orderly_unmark h _ _
  · exact orderly_insert h (fun y u hy => absurd hy (hnone y u)) tidy_empty

theorem spec_findOrCreateSourceView (h : Orderly source shelf) {R : Prop}
    (hsmooth : ¬ Smooth env.toPublishEnv → ¬ R)
    (hfresh : (∀ x u, ¬ Marked source shelf x u) → ¬ Fresh sha env source shelf → ¬ R) :
    Spec (fun t => t = shelf) (findOrCreateSourceView sha env.toPublishEnv (.ofText source))
      (fun name t => Orderly source t ∧ ∃ s, Marked source t name s ∧ Before source shelf name s ∧
        ∀ y, y ≠ name → t[y]? = shelf[y]?) (fun _ t => Orderly source t ∧ ¬ R) (Orderly source) := by
  refine spec_check_cases ?_ fun _ => ?_
  · rintro hlist _ rfl
    exact ⟨h,hsmooth fun hs => Bool.false_ne_true (hlist.symm.trans hs.listable)⟩
  refine spec_read_bind ?_
  rintro shelf rfl
  rcases findSourceView_cases h (listed env.order shelf.keys) with ⟨x,s,hx,hs⟩ | ⟨hx,hnone⟩
  · rw [show findSourceView (SourcePath.ofText source).text shelf _ = _ from hx]
    refine spec_lift_bind nofun ?_
    rintro _ ⟨⟩
    apply spec_pure
    rintro _ ⟨rfl,-⟩
    exact ⟨h,s,hs,.inl hs,fun _ _ => rfl⟩
  · have hnone := no_marked_of_listed hnone
    rw [show findSourceView (SourcePath.ofText source).text shelf _ = _ from hx]
    refine spec_lift_bind nofun ?_
    rintro _ ⟨⟩
    refine spec_check_cases ?_ fun htarget => ?_
    · rintro htarget _ ⟨rfl,-⟩
      refine ⟨h,hfresh hnone ?_⟩
      rintro ⟨hfree,-⟩
      rw [hfree] at htarget
      cases htarget
    refine spec_check_cases ?_ fun hstage => ?_
    · rintro hstage _ ⟨rfl,-⟩
      refine ⟨h,hfresh hnone ?_⟩
      rintro ⟨-,hfree⟩
      rw [hfree] at hstage
      cases hstage
    have hord : Orderly source (shelf.insert (sourceTarget sha (.ofText source) shelf)
        (.directory (.names source) .empty)) :=
      orderly_insert h (fun y u hy => absurd hy (hnone y u)) tidy_empty
    refine spec_conseq (spec_publishSource (Option.isNone_iff_eq_none.mp hstage)) (fun _ ht => ht.1)
      ?_ ?_ ?_
    · rintro _ _ ⟨rfl,rfl⟩
      refine ⟨hord,.empty,getElem?_insert_self,.inr ⟨?_,rfl,hnone⟩,?_⟩
      · exact Option.isNone_iff_eq_none.mp htarget
      · intro y hy
        exact getElem?_insert_of_ne hy _
    · rintro _ t ⟨ht,hrough⟩
      exact ⟨orderly_staged h hnone ht,hsmooth hrough⟩
    · rintro t (ht | rfl)
      · exact orderly_staged h hnone ht
      · exact hord

theorem spec_removeLatestTree (h : Tidy s) : Spec (fun t => t = s) (removeLatestTree env)
    (fun _ => Tidy) (fun _ => Tidy) Tidy := by
  refine spec_read_bind ?_
  rintro s rfl
  refine spec_lift_bind ?_ ?_
  · rintro _ _ _ ⟨rfl,-⟩
    exact h
  intro marker hmarker
  split
  · rename_i hsome
    obtain ⟨id,rfl⟩ := Option.isSome_iff_exists.mp hsome
    have htree : s.treeAt .latest = some id := by
      cases hl : s.latest with
      | none => simp [hl] at hmarker
      | some e =>
          have hle : s.entry .latest = some e := hl
          rw [hl,Option.map_some,Option.getD_some,
            readVersionMarker_eq (h.sound _ e hle)] at hmarker
          exact treeAt_eq_some.mpr ⟨e,hle,Except.ok.inj hmarker⟩
    refine spec_conseq (spec_removeTree (R := False) h htree fun _ => not_false) (fun _ hs => hs.1) ?_
      (fun _ _ hs => hs.1) fun _ hs => hs
    rintro _ _ rfl
    exact tidy_remove h
  · apply spec_pure
    rintro _ ⟨rfl,-⟩
    exact h

theorem tidy_without_previous (h : Tidy s) : Tidy {s with previous := .absent} where
  sound p e he := by
    cases p with
    | latest => exact h.sound .latest e he
    | previous x => simp [entry,older] at he
  single p q id hp hq := by
    cases p with
    | latest =>
        cases q with
        | latest => rfl
        | previous y => simp [treeAt,entry,older] at hq
    | previous x => simp [treeAt,entry,older] at hp

theorem spec_removePreviousTrees (h : Tidy s) : Spec (fun t => t = s) (removePreviousTrees env)
    (fun _ => Tidy) (fun _ => Tidy) Tidy := by
  refine spec_read_bind ?_
  rintro t rfl
  cases hp : t.previous with
  | absent =>
      apply spec_pure
      rintro _ ⟨rfl,-⟩
      exact h
  | file c =>
      apply spec_pure
      rintro _ ⟨rfl,-⟩
      exact h
  | directory entries =>
      have holder : t.older = entries := by simp [older,hp]
      obtain ⟨found,hfound,hex⟩ := previousVersionsById_ok env h
      rw [holder] at hfound
      dsimp only
      rw [hfound]
      refine spec_lift_bind ?_ ?_
      · intro err herr
        cases herr
      rintro _ ⟨⟩
      refine spec_bind (spec_conseq (spec_removeUnlisted (R := False) h ⟨entries,hp⟩ hex env.order
        fun _ _ => not_false) (fun _ hs => hs.1) (fun _ _ hs => hs) (fun _ _ hs => hs.1) fun _ hs => hs)
        fun _ => ?_
      refine spec_read_bind ?_
      intro u hu
      split
      · apply spec_step
        rintro _ ⟨rfl,-⟩
        exact ⟨tidy_without_previous hu.tidy,tidy_without_previous hu.tidy⟩
      · apply spec_pure
        rintro _ ⟨rfl,-⟩
        exact hu.tidy

theorem spec_removeGeneratedPlaintextView (h : Orderly source shelf) :
    Spec (fun t => t = shelf) (removeGeneratedPlaintextView env source) (fun _ => Orderly source)
      (fun _ => Orderly source) (Orderly source) := by
  unfold removeGeneratedPlaintextView
  split
  · refine spec_read_bind ?_
    rintro shelf rfl
    rcases findSourceView_cases h (listed env.order shelf.keys) with ⟨x,s,hx,hs⟩ | ⟨hx,-⟩
    · rw [hx]
      refine spec_lift_bind nofun ?_
      rintro _ ⟨⟩
      have htidy := h.tidy x s hs
      have hzoom := spec_zoom (Shelf.folder x) (Shelf.setFolder x) (s := shelf)
        (spec_bind (@spec_removeLatestTree _ env s htidy) fun _ =>
          spec_forall fun t ht => @spec_removePreviousTrees _ env t ht)
        (folder_of_marked hs)
      have hset : ∀ u, Tidy u → Orderly source (shelf.setFolder x u) := by
        intro u hu
        rw [setFolder_of_marked hs]
        exact orderly_insert h (fun y w hy => h.single y x w s hy hs) hu
      refine spec_bind (R := fun _ => Orderly source) (spec_conseq hzoom (fun _ ht => ht.1) ?_ ?_ ?_)
        fun _ => ?_
      · rintro _ _ ⟨u,rfl,hu⟩
        exact hset u hu
      · rintro _ _ ⟨u,rfl,hu⟩
        exact hset u hu
      · rintro _ ⟨u,rfl,hu⟩
        exact hset u hu
      · refine spec_read_bind ?_
        intro t ht
        split
        · refine spec_bind (R := fun _ => Orderly source) (spec_step ?_) fun _ => spec_step ?_
          · rintro _ ⟨rfl,-⟩
            exact ⟨orderly_unmark ht _ _,orderly_unmark ht _ _⟩
          · intro w hw
            exact ⟨orderly_erase hw _,orderly_erase hw _⟩
        · apply spec_pure
          rintro _ ⟨rfl,-⟩
          exact ht
    · rw [hx]
      refine spec_lift_bind nofun ?_
      rintro _ ⟨⟩
      apply spec_pure
      rintro _ ⟨rfl,-⟩
      exact h
  · apply spec_pure
    rintro _ rfl
    exact h

end Parts

section Calls
variable (sha : Sha256) (env : ViewEnv Content) {Text : Type} [StoreText Text]
  (dir : SourceDir Text) (watched : WatchedPath) (encrypted : Bool) (index : VersionIndex)
  (latest : VersionInfo)

/-- The call is to publish the versions of a committed index. -/
structure Due : Prop where
  enabled : watched.enabled = true
  directory : watched.kind = .directory
  plain : encrypted = false
  committed : committedIndex env dir watched = .ok (some index)
  last : index.versions.getLast? = some latest
  created : env.destinationCreated = true
  smooth : Smooth env.toPublishEnv

/-- Nothing is in the way of a call, and no step in the folder of the source fails. -/
structure Clear (shelf : Shelf Content) : Prop where
  found : ∀ name s, Marked watched.path shelf name s →
    Ready sha env watched.path latest (previousVersions index.versions latest) s
  fresh : (∀ name s, ¬ Marked watched.path shelf name s) → Fresh sha env watched.path shelf ∧
    Ready sha env watched.path latest (previousVersions index.versions latest) .empty

/-- What a call that publishes the versions makes of the destination. -/
structure Published (shelf : Shelf Content) (name : Str) (shelf' : Shelf Content)
    (s t : SourceFolder Content) : Prop where
  before : Before watched.path shelf name s
  after : Marked watched.path shelf' name t
  alone : ∀ y u, Marked watched.path shelf' y u → y = name
  synced : Synced latest (previousVersions index.versions latest) s t
  rest : ∀ y, y ≠ name → shelf'[y]? = shelf[y]?

variable {sha env dir watched encrypted index latest} {shelf : Shelf Content}

theorem committed_ids (h : committedIndex env dir watched = .ok (some index)) :
    ∀ v ∈ index.versions, VersionIndex.validateVersionId v.id = true := by
  obtain ⟨file,-,h⟩ := bind_eq_ok.mp h
  cases file with
  | none => cases h
  | some text =>
      obtain ⟨index',-,h⟩ := bind_eq_ok.mp h
      obtain ⟨hv,h⟩ := then_eq_ok.mp h
      obtain ⟨-,h⟩ := then_eq_ok.mp h
      cases h
      exact (VersionIndex.validateVersionIndex_eq_ok.mp (mapError_eq_ok.mp hv)).1

theorem ready_of_clear {name : Str} {s : SourceFolder Content}
    (h : Clear sha env watched index latest shelf) (hb : Before watched.path shelf name s) :
    Ready sha env watched.path latest (previousVersions index.versions latest) s := by
  rcases hb with hb | ⟨-,rfl,hnone⟩
  · exact h.found name s hb
  · exact (h.fresh hnone).2

/-- The publishing part of a call, with the marker of the source set. -/
theorem spec_publish (hids : ∀ v ∈ index.versions, VersionIndex.validateVersionId v.id = true)
    (h : Orderly watched.path shelf) :
    Spec (fun t => t = shelf)
      (do
        let name ← findOrCreateSourceView sha env.toPublishEnv (.ofText watched.path)
        zoom (Shelf.folder name) (Shelf.setFolder name) (syncVersions sha env watched.path latest
          (previousVersions index.versions latest))
        return some name)
      (fun r t => Orderly watched.path t ∧ ∃ name, r = some name ∧
        ∃ s u, Published watched index latest shelf name t s u)
      (fun _ t => Orderly watched.path t ∧
        ¬ (Smooth env.toPublishEnv ∧ Clear sha env watched index latest shelf))
      (Orderly watched.path) := by
  have hprev : ∀ v ∈ previousVersions index.versions latest,
      VersionIndex.validateVersionId v.id = true := fun v hv => hids v (List.mem_filter.mp hv).1
  have hne : ∀ v ∈ previousVersions index.versions latest, v.id ≠ latest.id := fun v hv => by
    simpa using (List.mem_filter.mp hv).2
  refine spec_bind (spec_findOrCreateSourceView h ?_ ?_) fun name => ?_
  · exact fun hrough hready => hrough hready.1
  · exact fun hnone hfresh hready => hfresh (hready.2.fresh hnone).1
  refine spec_forall ?_
  rintro t ⟨ht,s,hs,hbefore,hrest⟩
  have hzoom := spec_zoom (Shelf.folder name) (Shelf.setFolder name) (s := t)
    (@spec_syncVersions _ sha env watched.path latest _ s hprev hne (ht.tidy name s hs))
    (folder_of_marked hs)
  have hset : ∀ u, Tidy u → Orderly watched.path (t.setFolder name u) := by
    intro u hu
    rw [setFolder_of_marked hs]
    exact orderly_insert ht (fun y w hy => ht.single y name w s hy hs) hu
  refine spec_bind (spec_conseq hzoom (fun _ hp => hp) (fun _ _ hq => hq) ?_ ?_) fun _ => ?_
  · rintro _ _ ⟨u,rfl,hu,hready⟩
    exact ⟨hset u hu,fun hclear => hready (ready_of_clear hclear.2 hbefore)⟩
  · rintro _ ⟨u,rfl,hu⟩
    exact hset u hu
  · apply spec_pure
    rintro _ ⟨u,rfl,hu⟩
    have hord := hset u hu.tidy
    have hmark : Marked watched.path (t.setFolder name u) name u := by
      rw [setFolder_of_marked hs]
      exact getElem?_insert_self
    refine ⟨hord,name,rfl,s,u,hbefore,hmark,fun y w hy => hord.single y name w u hy hmark,hu,?_⟩
    intro y hy
    rw [setFolder_of_marked hs,getElem?_insert_of_ne hy]
    exact hrest y hy

theorem spec_syncSourceReadableView (h : Orderly watched.path shelf) :
    Spec (fun t => t = shelf) (syncSourceReadableView sha env dir watched encrypted)
      (fun r t => Orderly watched.path t ∧ ∀ index latest,
        Due env dir watched encrypted index latest → ∃ name, r = some name ∧
          ∃ s u, Published watched index latest shelf name t s u)
      (fun _ t => Orderly watched.path t ∧ ∀ index latest,
        Due env dir watched encrypted index latest → ¬ Clear sha env watched index latest shelf)
      (Orderly watched.path) := by
  unfold syncSourceReadableView
  split
  · rename_i hoff
    apply spec_pure
    rintro _ rfl
    refine ⟨h,?_⟩
    intro index latest hdue
    simp [hdue.enabled,hdue.directory] at hoff
  split
  · rename_i henc
    have hno : ∀ index latest, ¬ Due env dir watched encrypted index latest := by
      intro index latest hdue
      rw [hdue.plain] at henc
      cases henc
    refine spec_bind (R := fun _ => Orderly watched.path) (spec_conseq
      (spec_removeGeneratedPlaintextView h) (fun _ hp => hp) (fun _ _ hq => hq) ?_ fun _ hc => hc) ?_
    · intro _ t ht
      exact ⟨ht,fun index latest hdue => absurd hdue (hno index latest)⟩
    · intro _
      apply spec_pure
      intro t ht
      exact ⟨ht,fun index latest hdue => absurd hdue (hno index latest)⟩
  refine spec_lift_bind ?_ ?_
  · rintro err herr _ rfl
    refine ⟨h,?_⟩
    intro index latest hdue
    rw [hdue.committed] at herr
    cases herr
  intro found hfound
  cases hlast : found.bind (·.versions.getLast?) with
  | none =>
      apply spec_pure
      rintro _ rfl
      refine ⟨h,?_⟩
      intro index latest hdue
      rw [hdue.committed] at hfound
      cases hfound
      exact absurd (hlast.symm.trans hdue.last) nofun
  | some newest =>
      obtain ⟨i,rfl,hi⟩ := Option.bind_eq_some_iff.mp hlast
      have hdues : ∀ index latest, Due env dir watched encrypted index latest →
          index = i ∧ latest = newest := by
        intro index latest hdue
        have hcommitted := hdue.committed
        rw [hfound] at hcommitted
        cases hcommitted
        exact ⟨rfl,Option.some.inj (hdue.last.symm.trans hi)⟩
      refine spec_check_cases ?_ fun _ => ?_
      · rintro hcreated _ rfl
        refine ⟨h,?_⟩
        intro index latest hdue
        rw [hdue.created] at hcreated
        cases hcreated
      refine spec_conseq (spec_publish (committed_ids hfound) h) (fun _ hp => hp) ?_ ?_ fun _ hc => hc
      · rintro r t ⟨ht,hpub⟩
        refine ⟨ht,?_⟩
        intro index latest hdue
        obtain ⟨rfl,rfl⟩ := hdues index latest hdue
        exact hpub
      · rintro _ t ⟨ht,hclear⟩
        refine ⟨ht,?_⟩
        intro index latest hdue
        obtain ⟨rfl,rfl⟩ := hdues index latest hdue
        exact fun h => hclear ⟨hdue.smooth,h⟩

end Calls

section Histories
variable (sha : Sha256) (source : Str) (Text : Type) [StoreText Text]

/-- Files and folders that carry no marker of the source come, change and go. -/
structure Touched (shelf shelf' : Shelf Content) : Prop where
  sound : ∀ (x : Str) m s, shelf'[x]? = some (.directory m s) → m ≠ .broken
  stays : ∀ x s, Marked source shelf x s → ∃ t, Marked source shelf' x t
  trees : ∀ x t, Marked source shelf' x t → ∃ s, Marked source shelf x s ∧
    (∀ p, t.treeAt p = s.treeAt p) ∧ ∀ p e, t.entry p = some e → e.marker ≠ .broken

/-- The states left by calls for a source, each complete, failed or cut short, with changes by
others in between. -/
inductive LeftBy : Shelf Content → Prop
  | start (shelf : Shelf Content) : (∀ (x : Str) m s, shelf[x]? = some (.directory m s) →
      m ≠ .broken ∧ m ≠ .names source) → LeftBy shelf
  | call {shelf shelf' : Shelf Content} (env : ViewEnv Content) (dir : SourceDir Text)
      (watched : WatchedPath) (encrypted : Bool) : LeftBy shelf → watched.path = source →
      shelf' ∈ (syncSourceReadableView sha env dir watched encrypted shelf).states → LeftBy shelf'
  | touched {shelf shelf' : Shelf Content} : LeftBy shelf → Touched source shelf shelf' → LeftBy shelf'

variable {sha source Text}

theorem orderly_of_touched {shelf shelf' : Shelf Content} (h : Orderly source shelf)
    (ht : Touched source shelf shelf') : Orderly source shelf' where
  sound := ht.sound
  single x y s t hx hy := by
    obtain ⟨s',hs,-⟩ := ht.trees x s hx
    obtain ⟨t',ht',-⟩ := ht.trees y t hy
    exact h.single x y s' t' hs ht'
  tidy x t hx := by
    obtain ⟨s,hs,htrees,hsound⟩ := ht.trees x t hx
    refine ⟨hsound,?_⟩
    intro p q id hp hq
    rw [htrees] at hp hq
    exact (h.tidy x s hs).single p q id hp hq

theorem orderly_of_leftBy {shelf : Shelf Content} (h : LeftBy sha source Text shelf) :
    Orderly source shelf := by
  induction h with
  | start shelf hstart =>
      refine ⟨?_,?_,?_⟩
      · intro x m s hx
        exact (hstart x m s hx).1
      · intro x y s t hx
        exact absurd rfl (hstart x _ s hx).2
      · intro x s hx
        exact absurd rfl (hstart x _ s hx).2
  | call env dir watched encrypted _ hpath hmem ih =>
      subst hpath
      exact (spec_syncSourceReadableView ih).states (fun _ _ hq => hq.1) (fun _ _ he => he.1) rfl hmem
  | touched _ ht ih => exact orderly_of_touched ih ht

/-- A call in whose way nothing stands leaves one tree for each version of the index. -/
theorem readable_view_synced {env : ViewEnv Content} {dir : SourceDir Text} {watched : WatchedPath}
    {index : VersionIndex} {latest : VersionInfo} {shelf : Shelf Content}
    (hleft : LeftBy sha watched.path Text shelf) (hdue : Due env dir watched false index latest)
    (hclear : Clear sha env watched index latest shelf) :
    ∃ name shelf' s t, Returns (syncSourceReadableView sha env dir watched false) shelf (some name)
      shelf' ∧ Published watched index latest shelf name shelf' s t ∧
      ∀ (x : Str) e, t.others[x]? = some e → e.versionId = none := by
  obtain ⟨-,hok,herr⟩ := @spec_syncSourceReadableView Content sha env Text _ dir watched false shelf
    (orderly_of_leftBy hleft) shelf rfl
  cases hr : (syncSourceReadableView sha env dir watched false shelf).result with
  | error err => exact absurd hclear ((herr err hr).2 index latest hdue)
  | ok r =>
      obtain ⟨name,rfl,s,t,hpub⟩ := (hok r hr).2 index latest hdue
      refine ⟨name,_,s,t,⟨hr,rfl⟩,hpub,?_⟩
      intro x e he
      rw [hpub.synced.others] at he
      exact (ready_of_clear hclear hpub.before).beside x e he

end Histories

/-- A calm call in the time zone of the prime meridian, for one minute of a day in 2026. -/
def minuteEnv : ViewEnv Unit where
  order := []
  processId := 411
  listable := true
  stageCreated := true
  markerWritten := true
  renamed := true
  clearing := .removed
  indexAccess := .readable
  destinationIsDir := true
  destinationCreated := true
  localTime t := if 1767323040 ≤ t ∧ t < 1767323100 then
    some ⟨2026,1,2,3,4,(t-1767323040).toNat⟩ else none
  staging _ := ⟨some (),some (),true,true,none⟩
  removal _ := none

/-- The versions of one second, by their nanosecond. -/
def oneSecond (nanosecond : String) : VersionInfo :=
  ⟨"20260102-030405-".toList++nanosecond.toList,1767323045⟩

def quickIndex (nanoseconds : List String) : VersionIndex :=
  {VersionIndex.fresh "/home/notes".toList with versions := nanoseconds.map oneSecond}

def quickDir (nanoseconds : List String) : SourceDir PlainText :=
  ⟨some (.index (quickIndex nanoseconds)),∅,none⟩

theorem due_quick (last : String) (rest : List String)
    (hids : ∀ v ∈ (quickIndex (rest++[last])).versions,
      VersionIndex.validateVersionId v.id = true) :
    Due minuteEnv (quickDir (rest++[last])) notesJob.watched false (quickIndex (rest++[last]))
      (oneSecond last) := by
  refine ⟨rfl,rfl,rfl,?_,?_,rfl,⟨rfl,rfl,rfl,rfl⟩⟩
  · refine bind_eq_ok.mpr ⟨_,rfl,bind_eq_ok.mpr ⟨_,rfl,then_eq_ok.mpr ⟨mapError_eq_ok.mpr ?_,rfl⟩⟩⟩
    exact VersionIndex.validateVersionIndex_eq_ok.mpr ⟨hids,nofun,nofun⟩
  · simp [quickIndex]

/-- Two previous versions have at most each other as a rival in a new folder. -/
theorem roomy_empty_pair (env : ViewEnv Content) {a b : VersionInfo} (hab : a.id ≠ b.id) :
    Roomy env [a,b] (.empty : SourceFolder Content) := by
  have hrival : ∀ v r, IsRival env [a,b] (.empty : SourceFolder Content) v r →
      ∃ u ∈ [a,b], u.id ≠ v.id ∧ r = .version u.id := by
    intro v r hr
    cases r with
    | entry x =>
        obtain ⟨-,e,he,-⟩ := hr
        simp [entry,older,SourceFolder.empty] at he
    | version id =>
        obtain ⟨hne,u,hu,rfl,-⟩ := hr
        exact ⟨u,hu,hne,rfl⟩
  intro v hv _ r r' hr hr'
  obtain ⟨u,hu,hne,rfl⟩ := hrival v r hr
  obtain ⟨u',hu',hne',rfl⟩ := hrival v r' hr'
  simp only [List.mem_cons,List.not_mem_nil,or_false] at hv hu hu'
  rcases hv with rfl | rfl
  · rw [hu.resolve_left fun h => hne (h ▸ rfl),hu'.resolve_left fun h => hne' (h ▸ rfl)]
  · rw [hu.resolve_right fun h => hne (h ▸ rfl),hu'.resolve_right fun h => hne' (h ▸ rfl)]

/-- A foreign file has the name of the source. -/
def takenShelf : Shelf Unit := (∅ : Shelf Unit).insert "notes".toList (.file ())

theorem takenShelf_file {x : Str} {m : Marker} {s : SourceFolder Unit} :
    takenShelf[x]? ≠ some (.directory m s) := by
  unfold takenShelf
  rw [getElem?_insert]
  split
  · exact nofun
  · simp

theorem readable_view_synced_same_second :
    ∃ name shelf' s t, Returns (syncSourceReadableView notesSha minuteEnv
        (quickDir ["000000001","000000002","000000003"]) notesJob.watched false) takenShelf (some name)
        shelf' ∧
      Published notesJob.watched (quickIndex ["000000001","000000002","000000003"])
        (oneSecond "000000003") takenShelf name shelf' s t ∧
      ∀ (x : Str) e, t.others[x]? = some e → e.versionId = none := by
  have hfresh : Fresh notesSha minuteEnv notesJob.watched.path takenShelf := by
    constructor
    · decide +kernel
    · decide +kernel
  have hready : Ready notesSha minuteEnv notesJob.watched.path (oneSecond "000000003")
      [oneSecond "000000001",oneSecond "000000002"] (.empty : SourceFolder Unit) := by
    refine ⟨nofun,nofun,?_,?_,?_,fun _ _ => ⟨nofun,nofun,rfl,rfl⟩,fun _ => rfl,
      roomy_empty_pair minuteEnv (by decide)⟩
    · simp [SourceFolder.empty]
    · intro v _
      simp [older,SourceFolder.empty]
    · simp [SourceFolder.empty]
  have hprev : previousVersions (quickIndex ["000000001","000000002","000000003"]).versions
      (oneSecond "000000003") = [oneSecond "000000001",oneSecond "000000002"] := by decide +kernel
  refine readable_view_synced (.start _ fun x m s hx => absurd hx takenShelf_file)
    (due_quick "000000003" ["000000001","000000002"] (by decide +kernel)) ⟨?_,?_⟩
  · intro name s hs
    exact absurd hs takenShelf_file
  · intro _
    rw [hprev]
    exact ⟨hfresh,hready⟩

def crowdedShelf : Shelf Unit :=
  ((∅ : Shelf Unit).insert "notes".toList (.file ())).insert "notes — 2e4acf38".toList (.file ())

/-- A call that cannot rename the tree it has built, nor clear it away. -/
def stuckEnv : ViewEnv Unit :=
  {minuteEnv with staging := fun _ => ⟨some (),some (),true,false,some ⟨true,()⟩⟩}

/-- The next start of the program. -/
def laterEnv : ViewEnv Unit := {minuteEnv with processId := 412}

def stuckShelf : Shelf Unit :=
  (syncSourceReadableView notesSha stuckEnv (quickDir ["000000001"]) notesJob.watched false ∅).store

def laterFolder : SourceFolder Unit :=
  ((syncSourceReadableView notesSha laterEnv (quickDir ["000000001"]) notesJob.watched false
    stuckShelf).store).folder "notes".toList

/-- A fourth version within a second leaves its third predecessor without a name, two foreign
files leave the folder of the source without one, and a staged tree that an earlier process left
beside Latest stays there as a second tree of its version. -/
theorem names_occupied :
    (LeftBy notesSha notesJob.watched.path PlainText (∅ : Shelf Unit) ∧
      Due minuteEnv (quickDir ["000000001","000000002","000000003","000000004"]) notesJob.watched false
        (quickIndex ["000000001","000000002","000000003","000000004"]) (oneSecond "000000004") ∧
      (syncSourceReadableView notesSha minuteEnv
        (quickDir ["000000001","000000002","000000003","000000004"]) notesJob.watched false
        (∅ : Shelf Unit)).result =
        .error (.versionOccupied "2026-01-02 at 03.04.05 — 20260102-030405".toList)) ∧
    (LeftBy notesSha notesJob.watched.path PlainText crowdedShelf ∧
      Due minuteEnv (quickDir ["000000001"]) notesJob.watched false (quickIndex ["000000001"])
        (oneSecond "000000001") ∧
      (syncSourceReadableView notesSha minuteEnv (quickDir ["000000001"]) notesJob.watched false
        crowdedShelf).result = .error (.sourceOccupied "notes — 2e4acf38".toList)) ∧
    LeftBy notesSha notesJob.watched.path PlainText stuckShelf ∧
      Due laterEnv (quickDir ["000000001"]) notesJob.watched false (quickIndex ["000000001"])
        (oneSecond "000000001") ∧
      (syncSourceReadableView notesSha laterEnv (quickDir ["000000001"]) notesJob.watched false
        stuckShelf).result = .ok (some "notes".toList) ∧
      laterFolder.treeAt .latest = some (oneSecond "000000001").id ∧
      laterFolder.others[versionStage notesSha stuckEnv notesJob.watched.path
        (oneSecond "000000001")]?.bind (·.versionId) = some (oneSecond "000000001").id := by
  have hempty : LeftBy notesSha notesJob.watched.path PlainText (∅ : Shelf Unit) := by
    apply LeftBy.start
    simp
  have hdue := due_quick "000000001" [] (by decide +kernel)
  refine ⟨⟨hempty,?_,?_⟩,⟨?_,hdue,?_⟩,?_,?_,?_,?_,?_⟩
  · exact due_quick "000000004" ["000000001","000000002","000000003"] (by decide +kernel)
  · decide +kernel
  · apply LeftBy.start
    intro x m s hx
    unfold crowdedShelf at hx
    rw [getElem?_insert,getElem?_insert] at hx
    split at hx
    · cases hx
    · split at hx
      · cases hx
      · simp at hx
  · decide +kernel
  · exact .call stuckEnv (quickDir ["000000001"]) notesJob.watched false hempty rfl
      (List.mem_append_right _ (List.mem_singleton_self _))
  · exact ⟨hdue.enabled,hdue.directory,rfl,hdue.committed,hdue.last,rfl,⟨rfl,rfl,rfl,rfl⟩⟩
  · decide +kernel
  · decide +kernel
  · decide +kernel

end BackupSync.ReadableView
