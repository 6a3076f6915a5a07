import BackupSync.ViewFolder

/-!
# One readable tree for each version

A call of sync_source_readable_view on the folder of a source, from a tidy state,
either leaves exactly one tree for each version of the index and all that is not
its own untouched, or fails. It fails only if one of its steps does or something was
in the way before: a file or a staging folder under a name it needs, a Latest
without a marker, or a version with two rivals for its two names. The folder is tidy
after every step.
-/
namespace BackupSync.ReadableView
open Checks Interruptible SourceFolder

variable {Content : Type}

section Operations
variable {sha : Sha256} {env : ViewEnv Content} {source : Str} {s : SourceFolder Content}
  {p q : ViewPlace} {E : ViewError → SourceFolder Content → Prop} {C : SourceFolder Content → Prop}
  {R : Prop}

/-- No step of the staging fails. -/
structure Staging.Succeeds (staging : Staging Content) : Prop where
  begun : staging.begun ≠ none
  built : staging.built ≠ none
  marked : staging.marked = true
  renamed : staging.renamed = true

theorem spec_renameTree (hfree : s.entry q = none) (hC : C (s.move p q)) :
    Spec (fun t => t = s) (renameTree p q) (fun _ t => t = s.move p q) E C := by
  refine spec_read_bind ?_
  rintro _ rfl
  refine spec_check_cases ?_ fun _ => ?_
  · intro h
    simp [hfree] at h
  · apply spec_step
    rintro _ ⟨rfl,-⟩
    exact ⟨rfl,hC⟩

/-- A tree that is removed only in part is left without its marker or with it. -/
theorem spec_removeTree {id : Str} (hs : Tidy s) (htree : s.treeAt p = some id)
    (hremoval : env.removal p ≠ none → ¬ R) :
    Spec (fun t => t = s) (removeManagedVersionTree env p) (fun _ t => t = s.remove p)
      (fun _ t => Tidy t ∧ ¬ R) Tidy := by
  obtain ⟨e,he,hid⟩ := treeAt_eq_some.mp htree
  have hmarker : e.marker = .names id := marker_of_versionId hid
  have hread : ((s.entry p).map (·.readVersionMarker)).getD (.ok none) = .ok (some id) := by
    rw [he,Option.map_some,Option.getD_some,readVersionMarker_eq (marker_ne_broken hid),hid]
  refine spec_read_bind ?_
  rintro _ rfl
  rw [hread]
  refine spec_lift_bind nofun ?_
  rintro _ ⟨⟩
  dsimp only
  split
  · apply spec_step
    rintro _ ⟨rfl,-⟩
    exact ⟨rfl,tidy_remove hs⟩
  · rename_i left hleft
    apply spec_stepThenFail
    rintro _ ⟨rfl,-⟩
    rw [← hmarker]
    have hrest := tidy_leftover hs he left
    exact ⟨⟨hrest,hremoval (hleft ▸ Option.some_ne_none left)⟩,hrest⟩

theorem keeps_clearVersionStage (v : VersionInfo) :
    Keeps Tidy (clearVersionStage sha env source v p) := by
  refine triple_read_bind fun s hs => ?_
  cases he : s.beside (versionStage sha env source v) p with
  | none => exact triple_pure _ fun _ h => h.2
  | some e =>
      dsimp only
      split
      · exact triple_step fun _ h => ⟨tidy_removeBeside h.2 _ _,tidy_removeBeside h.2 _ _⟩
      · rename_i left hleft
        have hrest := tidy_leftoverBeside hs he left
        apply triple_step
        rintro _ ⟨rfl,-⟩
        exact ⟨hrest,hrest⟩

/-- The staging folder holds a part of the tree, the tree, or the tree with its marker. -/
theorem tidy_staged (hs : Tidy s) {v : VersionInfo} (hnew : ∀ q, s.treeAt q ≠ some v.id)
    {m : Marker} (hm : m = .absent ∨ m = .names v.id) (name : Str) (c : Content) :
    Tidy (s.putBeside p name (.directory m c)) := by
  rcases hm with rfl | rfl
  · exact tidy_putBeside hs Marker.noConfusion (fun _ hi => by cases hi) p
  · apply tidy_putBeside hs Marker.noConfusion _ p
    rintro _ ⟨⟩ q -
    exact hnew q

theorem spec_stageVersion (hs : Tidy s) {v : VersionInfo}
    (hfree : s.beside (versionStage sha env source v) p = none)
    (hnew : ∀ q, s.treeAt q ≠ some v.id) (hR : ¬ (env.staging v).Succeeds → ¬ R) :
    Spec (fun t => t = s) (stageVersion sha env source v p)
      (fun _ t => ∃ c, t = s.put p (.directory (.names v.id) c)) (fun _ t => Tidy t ∧ ¬ R) Tidy := by
  have hunmarked := fun c => tidy_staged (p := p) hs hnew (.inl rfl) (versionStage sha env source v) c
  have hmarked := fun c => tidy_staged (p := p) hs hnew (.inr rfl) (versionStage sha env source v) c
  refine spec_lift_bind ?_ fun begun hbegun => ?_
  · rintro err herr _ rfl
    refine ⟨hs,hR fun h => ?_⟩
    exact h.begun (orElse_eq_error.mp herr).1
  refine spec_bind (R := fun _ t => t = s.putBeside p (versionStage sha env source v)
    (.directory .absent begun)) (spec_step ?_) fun _ => ?_
  · rintro _ rfl
    exact ⟨rfl,hunmarked begun⟩
  refine spec_lift_bind ?_ fun c hc => ?_
  · rintro err herr _ rfl
    refine ⟨hunmarked begun,hR fun h => ?_⟩
    exact h.built (orElse_eq_error.mp herr).1
  refine spec_bind (R := fun _ t => t = s.putBeside p (versionStage sha env source v)
    (.directory .absent c)) (spec_step ?_) fun _ => ?_
  · rintro _ rfl
    rw [putBeside_putBeside]
    exact ⟨rfl,hunmarked c⟩
  refine spec_check_cases ?_ fun _ => ?_
  · rintro hmark _ rfl
    exact ⟨hunmarked c,hR fun h => Bool.false_ne_true (hmark.symm.trans h.marked)⟩
  refine spec_bind (R := fun _ t => t = s.putBeside p (versionStage sha env source v)
    (.directory (.names v.id) c)) (spec_step ?_) fun _ => ?_
  · rintro _ rfl
    rw [putBeside_putBeside]
    exact ⟨rfl,hmarked c⟩
  refine spec_check_cases ?_ fun _ => ?_
  · rintro hrename _ rfl
    exact ⟨hmarked c,hR fun h => Bool.false_ne_true (hrename.symm.trans h.renamed)⟩
  apply spec_step
  rintro _ rfl
  rw [publish_putBeside hfree]
  exact ⟨⟨c,rfl⟩,tidy_put_tree hs hnew c⟩

theorem spec_materialize (hs : Tidy s) {v : VersionInfo} (hfree : s.entry p = none)
    (hnew : ∀ q, s.treeAt q ≠ some v.id)
    (hstage : s.beside (versionStage sha env source v) p ≠ none → ¬ R)
    (hR : ¬ (env.staging v).Succeeds → ¬ R) :
    Spec (fun t => t = s) (materializeManagedVersion sha env source v p)
      (fun _ t => ∃ c, t = s.put p (.directory (.names v.id) c)) (fun _ t => Tidy t ∧ ¬ R) Tidy := by
  refine spec_read_bind ?_
  rintro s rfl
  refine spec_check_cases ?_ fun _ => ?_
  · intro h
    simp [hfree] at h
  refine spec_check_cases ?_ fun hnone => ?_
  · rintro h _ ⟨rfl,-⟩
    refine ⟨hs,hstage fun hnone => ?_⟩
    rw [hnone] at h
    cases h
  have hnone := Option.isNone_iff_eq_none.mp hnone
  refine spec_attempt_bind (spec_pre (spec_stageVersion hs hnone hnew hR) fun _ h => h.1) ?_ ?_
  · intro _
    exact spec_pure _ fun _ h => h
  · intro e
    refine spec_fact fun hrefused => ?_
    refine spec_bind (spec_conseq (keeps_clearVersionStage v) (fun _ h => h) (fun _ _ h => h)
      (fun _ _ h => ⟨h,hrefused⟩) fun _ h => h) fun _ => ?_
    exact spec_fail e fun _ h => ⟨h,hrefused⟩

end Operations

section Sync
variable (sha : Sha256) (env : ViewEnv Content) (source : Str) (latest : VersionInfo)
  (previous : List VersionInfo)

/-- Nothing is in the way of a call, and no step of it fails. -/
structure Ready (s : SourceFolder Content) : Prop where
  real : ∀ c, s.previous ≠ .file c
  owned : ∀ e, s.entry .latest = some e → e.versionId ≠ none
  beside : ∀ (x : Str) e, s.others[x]? = some e → e.versionId = none
  staging : ∀ v ∈ previous, s.older[versionStage sha env source v]? = none
  stagingLatest : s.others[versionStage sha env source latest]? = none
  built : ∀ v ∈ latest::previous, (env.staging v).Succeeds
  removable : ∀ p, env.removal p = none
  roomy : Roomy env previous s

/-- A state during a call that began in s. -/
structure Working (s t : SourceFolder Content) : Prop where
  tidy : Tidy t
  folder : ∃ entries, t.previous = .directory entries
  ahead : Ahead env previous s t

/-- Latest holds nothing but the newest version. -/
def Settled (s : SourceFolder Content) : Prop :=
  s.entry .latest = none ∨ s.treeAt .latest = some latest.id

/-- How a call from s can fail. -/
def Refused (s : SourceFolder Content) (_ : ViewError) (t : SourceFolder Content) : Prop :=
  Tidy t ∧ ¬ Ready sha env source latest previous s

/-- The index by version of the trees under Previous Versions. -/
def Exact (existing : Map Str Str) (s : SourceFolder Content) : Prop :=
  ∀ id x, existing[id]? = some x ↔ s.treeAt (.previous x) = some id

/-- The step from one previous version to the next. -/
structure Placed (v : VersionInfo) (s t : SourceFolder Content)
    (existing : Map Str Str) : Prop where
  tidy : Tidy t
  folder : ∃ entries, t.previous = .directory entries
  ahead : Ahead env previous s t
  latest : t.entry .latest = s.entry .latest
  exact : Exact existing t
  has : ∃ x, t.treeAt (.previous x) = some v.id

variable {sha env source latest previous} {s t : SourceFolder Content}

variable {v : VersionInfo}

theorem Working.refuses (h : Working env previous s t) (hv : v ∈ previous)
    (hnone : ∀ x, t.treeAt (.previous x) ≠ some v.id) {err : ViewError}
    (herr : availableVersionPath env t.older v = .error err) (err' : ViewError) :
    Refused sha env source latest previous s err' t := by
  refine ⟨h.tidy,?_⟩
  intro hready
  rcases availableVersionPath_cases h.tidy hnone with ⟨x,hx,-,-⟩ | ⟨_,e,e',-,he,he'⟩
  · rw [hx] at herr
    cases herr
  · exact not_roomy_of_occupied h.tidy h.ahead hv hnone he he' hready.roomy

theorem Working.available (h : Working env previous s t)
    (hnone : ∀ x, t.treeAt (.previous x) ≠ some v.id) {x : Str}
    (hx : availableVersionPath env t.older v = .ok x) :
    Named env v x ∧ t.entry (.previous x) = none := by
  rcases availableVersionPath_cases h.tidy hnone with ⟨y,hy,hnamed,hfree⟩ | ⟨_,e,e',hy,-,-⟩
  · rw [hy] at hx
    cases hx
    exact ⟨hnamed,hfree⟩
  · rw [hy] at hx
    cases hx

theorem spec_ensureRealDirectory (h : Tidy s) :
    Spec (fun t => t = s) ensureRealDirectory
      (fun _ t => Working env previous s t ∧ t.entry .latest = s.entry .latest)
      (Refused sha env source latest previous s) Tidy := by
  refine spec_read_bind ?_
  rintro s rfl
  cases hp : s.previous with
  | absent =>
      have hentry : ∀ p, ({s with previous := .directory ∅} : SourceFolder Content).entry p =
          s.entry p := by
        intro p
        cases p with
        | latest => rfl
        | previous x => simp [entry,older,hp]
      have htidy := tidy_congr h hentry
      apply spec_step
      rintro _ ⟨rfl,-⟩
      refine ⟨⟨⟨htidy,⟨∅,rfl⟩,rfl,?_,?_,?_⟩,rfl⟩,htidy⟩
      · intro x e he
        exact .inl ((hentry _).symm.trans he)
      · intro x e he _
        exact (hentry _).trans he
      · intro x id hx
        exact ⟨x,(congrArg (·.bind (·.versionId)) (hentry _)).trans hx⟩
  | file c =>
      apply spec_fail
      rintro _ ⟨rfl,-⟩
      exact ⟨h,fun hready => hready.real c hp⟩
  | directory entries =>
      apply spec_pure
      rintro _ ⟨rfl,-⟩
      exact ⟨⟨h,⟨entries,hp⟩,Ahead.refl⟩,rfl⟩

theorem spec_archiveLatest :
    Spec (fun t => Working env previous s t ∧ t.entry .latest = s.entry .latest)
      (archiveLatest env latest previous) (fun _ t => Working env previous s t ∧ Settled latest t)
      (Refused sha env source latest previous s) Tidy := by
  refine spec_read_bind ?_
  rintro t ⟨ht,hsame⟩
  cases he : t.latest with
  | none =>
      apply spec_pure
      rintro _ ⟨rfl,-⟩
      exact ⟨ht,.inl he⟩
  | some e =>
      have hlatest : t.entry .latest = some e := he
      dsimp only
      rw [readVersionMarker_eq (ht.tidy.sound _ e hlatest)]
      refine spec_lift_bind nofun ?_
      rintro _ ⟨⟩
      cases hid : e.versionId with
      | none =>
          apply spec_fail
          rintro _ ⟨rfl,-⟩
          exact ⟨ht.tidy,fun hready => hready.owned e (hsame.symm.trans hlatest) hid⟩
      | some id =>
      have htree : t.treeAt .latest = some id := treeAt_eq_some.mpr ⟨e,hlatest,hid⟩
      have hnone : ∀ x, t.treeAt (.previous x) ≠ some id := by
        intro x hx
        cases ht.tidy.single _ _ id htree hx
      dsimp only
      split
      · rename_i heq
        apply spec_pure
        rintro _ ⟨rfl,-⟩
        exact ⟨ht,.inr (heq ▸ htree)⟩
      · cases hv : previous.find? (·.id = id) with
        | none =>
            refine spec_conseq (spec_removeTree ht.tidy htree fun hleft hready =>
              hleft (hready.removable _)) ?_ ?_ (fun _ _ h => h) fun _ h => h
            · rintro _ ⟨rfl,-⟩
              rfl
            · rintro _ _ rfl
              refine ⟨⟨tidy_remove ht.tidy,ht.folder,ht.ahead.trans ahead_remove_latest⟩,.inl ?_⟩
              rw [entry_remove,if_pos rfl]
        | some v =>
            have hmem : v ∈ previous := List.mem_of_find?_eq_some hv
            obtain rfl : v.id = id := by simpa using List.find?_some hv
            refine spec_lift_bind ?_ ?_
            · rintro err herr _ ⟨rfl,-⟩
              exact ht.refuses hmem hnone herr err
            · intro x hx
              obtain ⟨hnamed,hfree⟩ := ht.available hnone hx
              have htidy : Tidy (t.move .latest (.previous x)) := tidy_move ht.tidy hlatest hid
              refine spec_conseq (spec_renameTree hfree htidy) ?_ ?_ (fun _ _ h => h) fun _ h => h
              · rintro _ ⟨rfl,-⟩
                rfl
              · rintro _ _ rfl
                refine ⟨⟨htidy,?_,ht.ahead.trans (ahead_move hmem hnamed hlatest hid hfree)⟩,.inl ?_⟩
                · exact folder_move hlatest x
                · rw [entry_move hlatest,if_neg nofun,if_pos rfl]

variable {existing : Map Str Str}

theorem exact_insert (h : Exact existing s) (ht : Tidy t) {id y : Str}
    (hy : t.treeAt (.previous y) = some id)
    (hrest : ∀ i x, i ≠ id → (t.treeAt (.previous x) = some i ↔ s.treeAt (.previous x) = some i)) :
    Exact (existing.insert id y) t := by
  intro i x
  rw [getElem?_insert]
  by_cases hi : id = i
  · subst hi
    rw [if_pos Std.ReflCmp.compare_self,Option.some.injEq]
    constructor
    · rintro rfl
      exact hy
    · intro hx
      exact ViewPlace.previous.inj (ht.single _ _ id hy hx)
  · rw [if_neg (by simpa using hi),h i x,hrest i x (Ne.symm hi)]

theorem placed_move (ht : Tidy t) (hex : Exact existing t) (hv : v ∈ previous) {x : Str}
    (htree : t.treeAt (.previous x) = some v.id)
    (hfree : t.entry (.previous (readableVersionName env v)) = none) :
    Placed env previous v t (t.move (.previous x) (.previous (readableVersionName env v)))
      (existing.insert v.id (readableVersionName env v)) := by
  obtain ⟨e,he,hid⟩ := treeAt_eq_some.mp htree
  have htidy : Tidy (t.move (.previous x) (.previous (readableVersionName env v))) :=
    tidy_move ht he hid
  have hat := treeAt_move (q := .previous (readableVersionName env v)) he
  have hnow := (hat _).trans ((if_pos rfl).trans hid)
  refine ⟨htidy,folder_move he _,ahead_move hv (named_readable env v) he hid hfree,?_,?_,_,hnow⟩
  · rw [entry_move he,if_neg nofun,if_neg nofun]
  · apply exact_insert hex htidy hnow
    intro i y hi
    rw [hat]
    split
    · rename_i heq
      simp [heq,treeAt,hfree,hid,Ne.symm hi]
    · split
      · rename_i heq
        simp [heq,htree,Ne.symm hi]
      · rfl

theorem placed_put (ht : Tidy t) (hex : Exact existing t) (hv : v ∈ previous)
    (hnew : ∀ p, t.treeAt p ≠ some v.id) {x : Str} (hx : Named env v x)
    (hfree : t.entry (.previous x) = none) (c : Content) :
    Placed env previous v t (t.put (.previous x) (.directory (.names v.id) c))
      (existing.insert v.id x) := by
  have htidy := tidy_put_tree (p := .previous x) ht hnew c
  have hnow : (t.put (.previous x) (.directory (.names v.id) c)).treeAt (.previous x) = some v.id := by
    rw [treeAt_put,if_pos rfl,versionId_names]
  refine ⟨htidy,⟨_,rfl⟩,ahead_put hv hx hfree c,?_,?_,x,hnow⟩
  · rw [entry_put,if_neg nofun]
  · apply exact_insert hex htidy hnow
    intro i y hi
    rw [treeAt_put]
    split
    · rename_i heq
      simp [heq,treeAt,hfree,Ne.symm hi]
    · rfl

theorem spec_placeVersion (hids : ∀ v ∈ previous, VersionIndex.validateVersionId v.id = true)
    (hprev : ∀ v ∈ previous, v.id ≠ latest.id) (hv : v ∈ previous) (ht : Working env previous s t)
    (hl : Settled latest t) (hex : Exact existing t) :
    Spec (fun u => u = t) (placeVersion sha env source existing v)
      (fun existing' u => Placed env previous v t u existing')
      (Refused sha env source latest previous s) Tidy := by
  refine spec_read_bind ?_
  rintro t rfl
  cases hname : existing[v.id]? with
  | some x =>
      have htree := (hex v.id x).mp hname
      dsimp only
      split
      · rename_i hmove
        have hfree : t.entry (.previous (readableVersionName env v)) = none :=
          Option.isNone_iff_eq_none.mp hmove.2
        have hplaced := placed_move ht.tidy hex hv htree hfree
        refine spec_bind (spec_pre (spec_renameTree hfree hplaced.tidy) fun _ h => h.1) ?_
        intro _
        apply spec_pure
        rintro _ rfl
        exact hplaced
      · apply spec_pure
        rintro _ ⟨rfl,-⟩
        exact ⟨ht.tidy,ht.folder,Ahead.refl,rfl,hex,x,htree⟩
  | none =>
      have hnone : ∀ x, t.treeAt (.previous x) ≠ some v.id := by
        intro x hx
        rw [(hex v.id x).mpr hx] at hname
        cases hname
      have hnew : ∀ p, t.treeAt p ≠ some v.id := by
        intro p hp
        cases p with
        | latest =>
            rcases hl with hl | hl
            · rw [treeAt,hl] at hp
              cases hp
            · exact hprev v hv (Option.some.inj (hp.symm.trans hl))
        | previous x => exact hnone x hp
      refine spec_lift_bind ?_ ?_
      · rintro err herr _ ⟨rfl,-⟩
        exact ht.refuses hv hnone herr err
      · intro x hx
        obtain ⟨hnamed,hfree⟩ := ht.available hnone hx
        refine spec_bind (spec_pre (spec_materialize ht.tidy hfree hnew ?_ ?_) fun _ h => h.1) ?_
        · intro hstage hready
          obtain ⟨e,he⟩ := Option.ne_none_iff_exists'.mp hstage
          rcases ht.ahead.moved _ e he with h | ⟨u,hu,hux,-⟩
          · have hfree := (hready.staging v hv).symm.trans h
            cases hfree
          · exact not_visible_versionStage v (visible_named (hids u hu) hux)
        · exact fun hbuild hready => hbuild (hready.built v (List.mem_cons_of_mem _ hv))
        · intro _
          apply spec_pure
          rintro _ ⟨c,rfl⟩
          exact placed_put ht.tidy hex hv hnew hnamed hfree c

theorem spec_placeVersions (hids : ∀ v ∈ previous, VersionIndex.validateVersionId v.id = true)
    (hprev : ∀ v ∈ previous, v.id ≠ latest.id) (ht : Working env previous s t)
    (hl : Settled latest t) (hex : Exact existing t) :
    Spec (fun u => u = t) (previous.foldlM (placeVersion sha env source) existing)
      (fun existing' u => Working env previous s u ∧ Settled latest u ∧ Exact existing' u ∧
        ∀ v ∈ previous, ∃ x, u.treeAt (.previous x) = some v.id)
      (Refused sha env source latest previous s) Tidy := by
  refine spec_pre (spec_foldlM (fun (done : List VersionInfo) existing u => Working env previous s u ∧
    Settled latest u ∧ Exact existing u ∧
    ∀ v ∈ done, ∃ x, u.treeAt (.previous x) = some v.id) ?_ [] existing) ?_
  · intro v hv done ex
    refine spec_forall ?_
    rintro u ⟨hw,hs,he,hdone⟩
    refine spec_post (spec_placeVersion hids hprev hv hw hs he) ?_
    intro ex' w hp
    refine ⟨⟨hp.tidy,hp.folder,hw.ahead.trans hp.ahead⟩,?_,hp.exact,?_⟩
    · unfold Settled treeAt
      rw [hp.latest]
      exact hs
    · intro y hy
      rcases List.mem_append.mp hy with hy | hy
      · obtain ⟨x,hx⟩ := hdone y hy
        exact hp.ahead.grown x y.id hx
      · rw [List.mem_singleton.mp hy]
        exact hp.has
  · rintro _ rfl
    exact ⟨ht,hl,hex,by simp⟩

end Sync

section Removal
variable (previous : List VersionInfo)

def Lists (id : Str) : Prop := ∃ v ∈ previous, v.id = id

/-- The trees of the unlisted versions among the first ids are gone from s, and nothing else. -/
structure Pruned (s : SourceFolder Content) (done : List Str) (t : SourceFolder Content) : Prop where
  tidy : Tidy t
  folder : ∃ entries, t.previous = .directory entries
  others : t.others = s.others
  latest : t.entry .latest = s.entry .latest
  gone : ∀ x id, s.treeAt (.previous x) = some id → id ∈ done → ¬ Lists previous id →
    t.entry (.previous x) = none
  kept : ∀ x, (∀ id, s.treeAt (.previous x) = some id → id ∉ done ∨ Lists previous id) →
    t.entry (.previous x) = s.entry (.previous x)

variable {previous} {s t : SourceFolder Content}

theorem Pruned.skip {done : List Str} (h : Pruned previous s done t) {id : Str}
    (hid : Lists previous id) : Pruned previous s (done++[id]) t where
  tidy := h.tidy
  folder := h.folder
  others := h.others
  latest := h.latest
  gone x i hx hi hl := by
    apply h.gone x i hx _ hl
    rcases List.mem_append.mp hi with hi | hi
    · exact hi
    · exact absurd (List.mem_singleton.mp hi ▸ hid) hl
  kept x hx := by
    apply h.kept x
    intro i hi
    rcases hx i hi with hx | hx
    · exact .inl fun hmem => hx (List.mem_append_left _ hmem)
    · exact .inr hx

theorem Pruned.remove {done : List Str} (h : Pruned previous s done t) (hs : Tidy s) {id x : Str}
    (htree : s.treeAt (.previous x) = some id) (hid : ¬ Lists previous id) :
    Pruned previous s (done++[id]) (t.remove (.previous x)) where
  tidy := tidy_remove h.tidy
  folder := ⟨_,rfl⟩
  others := others_remove.trans h.others
  latest := by rw [entry_remove,if_neg nofun,h.latest]
  gone y i hy hi hl := by
    rw [entry_remove]
    split
    · rfl
    · rename_i hne
      apply h.gone y i hy _ hl
      rcases List.mem_append.mp hi with hi | hi
      · exact hi
      · rw [List.mem_singleton.mp hi] at hy
        exact absurd (hs.single _ _ id hy htree) hne
  kept y hy := by
    have hne : ViewPlace.previous y ≠ .previous x := by
      intro heq
      rcases hy id (heq ▸ htree) with h | h
      · exact h (List.mem_append_right _ (List.mem_singleton_self id))
      · exact hid h
    rw [entry_remove,if_neg hne]
    apply h.kept y
    intro i hi
    rcases hy i hi with hy | hy
    · exact .inl fun hmem => hy (List.mem_append_left _ hmem)
    · exact .inr hy

theorem spec_removeUnlisted {env : ViewEnv Content} {R : Prop} (hs : Tidy s)
    (hfolder : ∃ entries, s.previous = .directory entries)
    {existing : Map Str Str} (hex : Exact existing s) (order : List Str)
    (hR : ∀ p, env.removal p ≠ none → ¬ R) :
    Spec (fun u => u = s)
      ((listed order existing.keys).foldlM (fun _ id => removeUnlisted env previous existing id) ())
      (fun _ t => Pruned previous s (listed order existing.keys) t) (fun _ t => Tidy t ∧ ¬ R) Tidy := by
  have hnd : (listed order existing.keys).Nodup := nodup_listed nodup_keys
  refine spec_pre (spec_foldlM_split (fun done _ t => Pruned previous s done t) ?_ ()) ?_
  · intro done id rest hsplit _
    have hnew : id ∉ done := by
      rw [hsplit] at hnd
      exact fun hmem => (List.nodup_append.mp hnd).2.2 id hmem id List.mem_cons_self rfl
    refine spec_forall ?_
    intro t ht
    unfold removeUnlisted
    cases hx : existing[id]? with
    | none =>
        have hmem : id ∈ listed order existing.keys := by simp [hsplit]
        obtain ⟨x,hsome⟩ := mem_listed_keys.mp hmem
        cases hx.symm.trans hsome
    | some x =>
        have htree := (hex id x).mp hx
        dsimp only
        split
        · rename_i hany
          have hlists : Lists previous id := by simpa [Lists] using hany
          apply spec_pure
          rintro _ rfl
          exact ht.skip hlists
        · rename_i hany
          have hlists : ¬ Lists previous id := by simpa [Lists] using hany
          have hkept : t.entry (.previous x) = s.entry (.previous x) := by
            apply ht.kept x
            intro i hi
            rw [htree] at hi
            exact .inl (Option.some.inj hi ▸ hnew)
          have hnow : t.treeAt (.previous x) = some id := by
            unfold treeAt
            rw [hkept]
            exact htree
          have hnext := ht.remove hs htree hlists
          refine spec_post (spec_removeTree ht.tidy hnow (hR _)) ?_
          rintro _ _ rfl
          exact hnext
  · rintro _ rfl
    exact ⟨hs,hfolder,rfl,rfl,by simp,fun _ _ => rfl⟩

end Removal

section Outcome
variable (sha : Sha256) (env : ViewEnv Content) (source : Str) (latest : VersionInfo)
  (previous : List VersionInfo)

/-- What a call makes of the folder s. -/
structure Synced (s t : SourceFolder Content) : Prop where
  tidy : Tidy t
  folder : ∃ entries, t.previous = .directory entries
  latest : t.treeAt .latest = some latest.id
  each : ∀ v ∈ previous, ∃ x, t.treeAt (.previous x) = some v.id
  only : ∀ x id, t.treeAt (.previous x) = some id → ∃ v ∈ previous, v.id = id
  unowned : ∀ x e, e.versionId = none →
    (t.entry (.previous x) = some e ↔ s.entry (.previous x) = some e)
  others : t.others = s.others

variable {sha env source latest previous} {s t u : SourceFolder Content}

theorem Ahead.unowned (h : Ahead env previous s t) {x : Str} {e : ViewEntry Content}
    (he : e.versionId = none) :
    t.entry (.previous x) = some e ↔ s.entry (.previous x) = some e := by
  constructor
  · intro hx
    rcases h.moved x e hx with h | ⟨v,-,-,hv⟩
    · exact h
    · rw [he] at hv
      cases hv
  · intro hx
    exact h.kept x e hx he

variable {existing : Map Str Str}

theorem Pruned.entry_eq {order : List Str} (hex : Exact existing t)
    (h : Pruned previous t (listed order existing.keys) u) {x : Str} {e : ViewEntry Content}
    (he : u.entry (.previous x) = some e) :
    t.entry (.previous x) = some e ∧ ∀ id, e.versionId = some id → Lists previous id := by
  have hlists : ∀ id, t.treeAt (.previous x) = some id → Lists previous id := by
    intro id hid
    by_contra hnot
    have hmem : id ∈ listed order existing.keys := mem_listed_keys.mpr ⟨x,(hex id x).mpr hid⟩
    rw [h.gone x id hid hmem hnot] at he
    cases he
  rw [h.kept x fun id hid => .inr (hlists id hid)] at he
  exact ⟨he,fun id hid => hlists id (treeAt_eq_some.mpr ⟨e,he,hid⟩)⟩

/-- The removal of the unlisted trees completes the call, once Latest is published. -/
theorem synced_of_pruned {order : List Str} (ht : Working env previous s t) (hex : Exact existing t)
    (heach : ∀ v ∈ previous, ∃ x, t.treeAt (.previous x) = some v.id)
    (h : Pruned previous t (listed order existing.keys) u) {w : SourceFolder Content} (hw : Tidy w)
    (hprev : w.previous = u.previous) (hothers : w.others = u.others)
    (hl : w.treeAt .latest = some latest.id) : Synced latest previous s w := by
  have hsame := entry_previous_congr hprev
  refine ⟨hw,hprev ▸ h.folder,hl,?_,?_,?_,hothers.trans (h.others.trans ht.ahead.others)⟩
  · intro v hv
    obtain ⟨x,hx⟩ := heach v hv
    refine ⟨x,?_⟩
    unfold treeAt
    rw [hsame,h.kept x]
    · exact hx
    · intro id hid
      rw [hx] at hid
      exact .inr ⟨v,hv,Option.some.inj hid⟩
  · intro x id hx
    obtain ⟨e,he,hid⟩ := treeAt_eq_some.mp hx
    exact (h.entry_eq hex ((hsame x).symm.trans he)).2 id hid
  · intro x e he
    rw [← ht.ahead.unowned he,hsame]
    constructor
    · intro hx
      exact (h.entry_eq hex hx).1
    · intro hx
      rw [h.kept x,hx]
      intro id hid
      rw [treeAt,hx,Option.bind_some,he] at hid
      cases hid

theorem Pruned.latest_new {order : List Str} (hex : Exact existing t)
    (hprev : ∀ v ∈ previous, v.id ≠ latest.id)
    (h : Pruned previous t (listed order existing.keys) u) (hnone : u.entry .latest = none)
    (p : ViewPlace) : u.treeAt p ≠ some latest.id := by
  intro hp
  cases p with
  | latest =>
      rw [treeAt,hnone] at hp
      cases hp
  | previous x =>
      obtain ⟨e,he,hid⟩ := treeAt_eq_some.mp hp
      obtain ⟨v,hv,heq⟩ := (h.entry_eq hex he).2 latest.id hid
      exact hprev v hv heq

theorem spec_syncVersions (hids : ∀ v ∈ previous, VersionIndex.validateVersionId v.id = true)
    (hprev : ∀ v ∈ previous, v.id ≠ latest.id) (hs : Tidy s) :
    Spec (fun t => t = s) (syncVersions sha env source latest previous)
      (fun _ => Synced latest previous s) (Refused sha env source latest previous s) Tidy := by
  refine spec_bind (spec_ensureRealDirectory hs) fun _ => ?_
  refine spec_bind spec_archiveLatest fun _ => ?_
  refine spec_read_bind ?_
  rintro t ⟨ht,hl⟩
  obtain ⟨found,hfound,hexact⟩ := previousVersionsById_ok env ht.tidy
  rw [hfound]
  refine spec_lift_bind nofun ?_
  rintro _ ⟨⟩
  refine spec_bind (spec_pre (spec_placeVersions hids hprev ht hl hexact) fun _ h => h.1) ?_
  intro existing
  refine spec_forall ?_
  rintro w ⟨hw,hlw,hex,heach⟩
  refine spec_bind (spec_removeUnlisted hw.tidy hw.folder hex env.order fun p hleft hready =>
    hleft (hready.removable p)) fun _ => ?_
  refine spec_read_bind ?_
  intro u hu
  split
  · rename_i hnone
    have hnone : u.entry .latest = none := Option.isNone_iff_eq_none.mp hnone
    have hnew := hu.latest_new hex hprev hnone
    refine spec_conseq (spec_materialize hu.tidy hnone hnew ?_ ?_) (fun _ h => h.1) ?_
      (fun _ _ h => h) fun _ h => h
    · intro hstage hready
      apply hstage
      change u.others[versionStage sha env source latest]? = none
      rw [hu.others,hw.ahead.others]
      exact hready.stagingLatest
    · exact fun hbuild hready => hbuild (hready.built latest List.mem_cons_self)
    · rintro _ _ ⟨c,rfl⟩
      refine synced_of_pruned hw hex heach hu (tidy_put_tree hu.tidy hnew c) rfl rfl ?_
      rw [treeAt_put,if_pos rfl,versionId_names]
  · rename_i hsome
    apply spec_pure
    rintro _ ⟨rfl,-⟩
    refine synced_of_pruned hw hex heach hu hu.tidy rfl rfl ?_
    have hlu : Settled latest _ := hlw
    unfold Settled treeAt at hlu
    rw [← hu.latest] at hlu
    rcases hlu with hlu | hlu
    · exact absurd (Option.isNone_iff_eq_none.mpr hlu) hsome
    · exact hlu

end Outcome
end BackupSync.ReadableView
