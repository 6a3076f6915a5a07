import BackupSync.BackupCycle
import BackupSync.SpaceReclaim
import BackupSync.ViewStates

/-!
# Removing the history of a source from every destination

A destination is a store together with the folders beside it. The removal visits
each resolved destination once: it takes the managed trees of the source out of the
readable view, removes the directory of the source from the store and collects the
blobs no manifest mentions any more.

In every state that backups and removals lead to, a source has at most one marked
folder in a destination, blobs are filed by hash, and none is there before the
sources directory. From such a state a removal that returns takes exactly what
belongs to the source, if its looks at the destination and at the directory of the
source do not fail and no staged tree was left beside Latest; otherwise that part
stays, and the removal says nothing.
-/
namespace BackupSync.SourceRemoval
open Checks Interruptible Interruptible.Action ContentHash GarbageCollection BackupFolder
  HistoryRemoval BlobInvariant SpaceReclaim ReadableView ReadableView.SourceFolder
  ReadableView.SourceViews

/-- A destination directory: the store and the entries beside it. -/
structure Site (Text Content : Type) where
  store : Store Text
  shelf : ReadableView.Shelf Content

abbrev Sites (Text Content : Type) := Map Str (Site Text Content)

variable {Text Content : Type}

def Site.setStore (st : Store Text) (site : Site Text Content) : Site Text Content :=
  {site with store := st}

def Site.setShelf (shelf : ReadableView.Shelf Content) (site : Site Text Content) :
    Site Text Content :=
  {site with shelf := shelf}

def Sites.site (sites : Sites Text Content) (root : Str) : Site Text Content :=
  sites[root]?.getD ⟨.empty,∅⟩

def Sites.setSite (root : Str) (site : Site Text Content) (sites : Sites Text Content) :
    Sites Text Content :=
  sites.insert root site

@[simp] theorem Sites.site_setSite_self (root : Str) (site : Site Text Content)
    (sites : Sites Text Content) : (sites.setSite root site).site root = site := by
  simp [Sites.site,Sites.setSite]

theorem Sites.site_setSite_of_ne {root root' : Str} (h : root' ≠ root) (site : Site Text Content)
    (sites : Sites Text Content) : (sites.setSite root site).site root' = sites.site root' := by
  rw [Sites.site,Sites.setSite,getElem?_insert_of_ne h]
  rfl

/-- An operation on one destination. -/
def Sites.within (root : Str) {ε α : Type} (op : Action (Site Text Content) ε α) :
    Action (Sites Text Content) ε α :=
  zoom (Sites.site · root) (Sites.setSite root) op

/-- What a removal meets in one destination; whether the view can be removed is decided there. -/
structure SiteEnv (Text Content : Type) where
  view : ViewEnv Content
  /-- The look at the directory of the source. -/
  sourceSeen : Bool
  removal : Except (SourceDir Text) Unit
  gc : GcEnv

variable [StoreText Text] (sha : Sha256) (prim : Primitives)

/-- The body of the loop over the destinations. -/
def removeHistoryAt (source : Str) (env : SiteEnv Text Content) :
    Action (Site Text Content) StoreError Unit := do
  mapFailure (fun _ => StoreError.removeReadableView)
    (zoom Site.shelf Site.setShelf (removeGeneratedPlaintextView env.view source))
  zoom Site.store Site.setStore
    (HistoryRemoval.removeHistoryAt (sourceId sha source)
      ⟨env.sourceSeen,true,env.removal,env.gc⟩)

def removeSourceHistoryWithCommit {α : Type} (destinations : List Str)
    (canonical : Str → Except StoreError Str) (leases : Except StoreError Unit) (source : Str)
    (env : Str → SiteEnv Text Content) (commit : Except StoreError α) :
    Action (Sites Text Content) StoreError α := do
  lift leases
  removeHistoryLoop canonical (fun root => Sites.within root (removeHistoryAt sha source (env root)))
    [] destinations
  lift commit

/-- One watched path of a backup cycle: the version first, then its readable view. -/
def backupWatched (job : FolderJob) (env : BackupEnv) (view : ViewEnv Content) (encrypted : Bool) :
    Action (Site Text Content) CycleError FolderBackupResult := do
  let r ← mapFailure .folder (zoom Site.store Site.setStore (backupOneFolder sha prim job env))
  let site ← read
  let _ ← mapFailure (fun _ => CycleError.readableView job.watched.path)
    (zoom Site.shelf Site.setShelf (syncSourceReadableView sha view
      (site.store.dir (sourceId sha job.watched.path)) job.watched encrypted))
  return r

section Folders
variable {env : ViewEnv Content} {s t : SourceFolder Content}

/-- A folder in which of the trees and entries of another the unowned ones are left. -/
structure Cleared (s t : SourceFolder Content) : Prop where
  others : t.others = s.others
  entries : ∀ place e, t.entry place = some e ↔ s.entry place = some e ∧ e.versionId = none
  file : ∀ c, t.previous = .file c ↔ s.previous = .file c

theorem versionId_of_read {e : ViewEntry Content} {found : Option Str}
    (h : e.readVersionMarker = .ok found) : e.versionId = found := by
  unfold ViewEntry.readVersionMarker at h
  unfold ViewEntry.versionId
  cases hm : e.marker with
  | absent =>
      rw [hm] at h
      exact Except.ok.inj h
  | broken =>
      rw [hm] at h
      cases h
  | names id =>
      rw [hm] at h
      exact Except.ok.inj h

theorem returns_removeManagedVersionTree {place : ViewPlace}
    (hr : Returns (removeManagedVersionTree env place) s () t) : t = s.remove place := by
  have hr := returns_read_bind.mp hr
  obtain ⟨marker,-,hr⟩ := returns_lift_bind.mp hr
  cases marker with
  | none => exact absurd hr returns_fail
  | some id =>
      dsimp only at hr
      split at hr
      · exact returns_step.mp hr
      · exact absurd hr returns_stepThenFail

/-- Latest goes if it is a managed tree and stays if it is not. -/
theorem returns_removeLatestTree (hr : Returns (removeLatestTree env) s () t) :
    t.others = s.others ∧ t.previous = s.previous ∧
      ∀ e, t.latest = some e ↔ s.latest = some e ∧ e.versionId = none := by
  have hr := returns_read_bind.mp hr
  obtain ⟨marker,hmarker,hr⟩ := returns_lift_bind.mp hr
  have hlatest : ∀ e, s.latest = some e → e.versionId = marker := by
    intro e he
    rw [he] at hmarker
    exact versionId_of_read hmarker
  cases marker with
  | none =>
      obtain ⟨-,rfl⟩ := returns_pure.mp hr
      refine ⟨rfl,rfl,?_⟩
      intro e
      exact ⟨fun he => ⟨he,hlatest e he⟩,fun he => he.1⟩
  | some id =>
      obtain rfl := returns_removeManagedVersionTree hr
      refine ⟨rfl,rfl,?_⟩
      intro e
      constructor
      · intro he
        cases he
      · rintro ⟨he,hid⟩
        rw [hlatest e he] at hid
        cases hid

/-- The entry that carries the marker of a version. -/
def Carries (entries : Map Str (ViewEntry Content)) (id x : Str) : Prop :=
  ∃ e, entries[x]? = some e ∧ e.versionId = some id

variable {found : Map Str Str}

theorem noteVersion_eq_ok {entries : Map Str (ViewEntry Content)}
    {found' : Map Str Str} {name : Str}
    (h : noteVersion entries found name = .ok found') (id x : Str) :
    found'[id]? = some x ↔ found[id]? = some x ∨ (name = x ∧ Carries entries id name) := by
  unfold noteVersion at h
  cases he : entries[name]? with
  | none =>
      rw [he] at h
      cases h
      simp [Carries,he]
  | some e =>
      rw [he] at h
      obtain ⟨marker,hmarker,h⟩ := bind_eq_ok.mp h
      have hid := versionId_of_read hmarker
      cases marker with
      | none =>
          cases h
          simp [Carries,he,hid]
      | some i =>
          dsimp only at h
          split at h
          · cases h
          · rename_i hnew
            cases h
            rw [getElem?_insert]
            by_cases hi : i = id
            · subst hi
              have hnone : found[i]? = none := by simpa using hnew
              simp [Carries,he,hid,hnone]
            · simp [Carries,he,hid,hi]

theorem previousVersionsById_eq_ok {entries : Map Str (ViewEntry Content)}
    (h : previousVersionsById env entries = .ok found) (id x : Str) :
    found[id]? = some x ↔ Carries entries id x := by
  have hall := foldlM_accumulates (P := fun found : Map Str Str =>
    found[id]? = some x) (Q := fun name => name = x ∧ Carries entries id name)
    (fun _ _ _ hstep => noteVersion_eq_ok hstep id x) h
  rw [hall]
  constructor
  · rintro (hnil | ⟨name,-,rfl,hc⟩)
    · simp at hnil
    · exact hc
  · rintro ⟨e,he,hid⟩
    exact .inr ⟨x,mem_listed_keys.mpr ⟨e,he⟩,rfl,e,he,hid⟩

/-- The removals of the loop, up to the versions already met. -/
structure Emptied (s : SourceFolder Content) (found : Map Str Str)
    (done : List Str) (t : SourceFolder Content) : Prop where
  latest : t.latest = s.latest
  others : t.others = s.others
  folder : ∃ entries, t.previous = .directory entries
  older : ∀ x e, t.older[x]? = some e ↔ s.older[x]? = some e ∧ ∀ id ∈ done, found[id]? ≠ some x

theorem Emptied.remove {done : List Str} {id : Str} (h : Emptied s found done t) (x : Str)
    (hx : found[id]? = some x) : Emptied s found (done++[id]) (t.remove (.previous x)) where
  latest := h.latest
  others := h.others
  folder := ⟨_,rfl⟩
  older y e := by
    change (t.older.erase x)[y]? = some e ↔ _
    by_cases hy : y = x
    · subst hy
      simp [hx]
    · have hne : found[id]? ≠ some y := by
        rw [hx]
        simpa using Ne.symm hy
      rw [getElem?_erase_of_ne hy,h.older y e]
      apply and_congr_right
      intro _
      simp only [List.mem_append,List.mem_singleton]
      constructor
      · rintro hall i (hi | rfl)
        · exact hall i hi
        · exact hne
      · intro hall i hi
        exact hall i (.inl hi)

theorem returns_removeTrees {order : List Str}
    (hfolder : ∃ entries, s.previous = .directory entries)
    (hr : Returns ((listed order found.keys).foldlM (fun _ id => removeUnlisted env [] found id) ())
      s () t) : Emptied s found (listed order found.keys) t := by
  have hstart : Emptied s found [] s := ⟨rfl,rfl,hfolder,by simp⟩
  have hall : Emptied s found ([]++listed order found.keys) t := by
    apply returns_foldlM_done (fun done _ u => Emptied s found done u) _ hstart hr
    intro id hid done _ u _ u' hu hstep
    obtain ⟨x,hx⟩ := mem_listed_keys.mp hid
    unfold removeUnlisted at hstep
    rw [hx] at hstep
    obtain rfl := returns_removeManagedVersionTree hstep
    exact hu.remove x hx
  exact hall

/-- Previous Versions keeps its unowned entries, and goes if it has none. -/
theorem returns_removePreviousTrees (hr : Returns (removePreviousTrees env) s () t) :
    t.latest = s.latest ∧ t.others = s.others ∧ (∀ c, t.previous = .file c ↔ s.previous = .file c) ∧
      ∀ (x : Str) (e : ViewEntry Content),
        t.older[x]? = some e ↔ s.older[x]? = some e ∧ e.versionId = none := by
  have hr := returns_read_bind.mp hr
  cases hp : s.previous with
  | absent =>
      rw [hp] at hr
      obtain ⟨-,rfl⟩ := returns_pure.mp hr
      simp [hp,older]
  | file c =>
      rw [hp] at hr
      obtain ⟨-,rfl⟩ := returns_pure.mp hr
      simp [hp,older]
  | directory entries =>
      rw [hp] at hr
      obtain ⟨found,hfound,hr⟩ := returns_lift_bind.mp hr
      obtain ⟨_,u,hloop,hr⟩ := returns_bind.mp hr
      have hu := returns_removeTrees ⟨entries,hp⟩ hloop
      have hr := returns_read_bind.mp hr
      have holder : s.older = entries := by simp [older,hp]
      have hentries : ∀ (x : Str) (e : ViewEntry Content), u.older[x]? = some e ↔
          s.older[x]? = some e ∧ e.versionId = none := by
        intro x e
        rw [hu.older x e]
        apply and_congr_right
        intro he
        constructor
        · intro hall
          rw [Option.eq_none_iff_forall_not_mem]
          intro id hid
          have hx := (previousVersionsById_eq_ok hfound id x).mpr ⟨e,holder ▸ he,hid⟩
          exact hall id (mem_listed_keys.mpr ⟨x,hx⟩) hx
        · intro hnone id _ hx
          obtain ⟨e',he',hid⟩ := (previousVersionsById_eq_ok hfound id x).mp hx
          rw [← holder,he] at he'
          cases he'
          rw [hnone] at hid
          cases hid
      obtain ⟨left,hleft⟩ := hu.folder
      split at hr
      · rename_i hempty
        obtain rfl := returns_step.mp hr
        refine ⟨hu.latest,hu.others,by simp,?_⟩
        intro x e
        rw [← hentries x e,Std.ExtTreeMap.isEmpty_iff.mp hempty]
        simp [older]
      · obtain ⟨-,rfl⟩ := returns_pure.mp hr
        exact ⟨hu.latest,hu.others,by simp [hleft],hentries⟩

theorem cleared_of_removed (hr : Returns (do
    removeLatestTree env
    removePreviousTrees env) s () t) : Cleared s t := by
  obtain ⟨_,u,hlatest,hprevious⟩ := returns_bind.mp hr
  obtain ⟨hothers,hfolder,hlatest⟩ := returns_removeLatestTree hlatest
  obtain ⟨hkept,hothers',hfile,holder⟩ := returns_removePreviousTrees hprevious
  have hsame : u.older = s.older := by
    unfold older
    rw [hfolder]
  refine ⟨hothers'.trans hothers,?_,?_⟩
  · intro place e
    cases place with
    | latest =>
        change t.latest = some e ↔ s.latest = some e ∧ _
        rw [hkept]
        exact hlatest e
    | previous x =>
        change t.older[x]? = some e ↔ s.older[x]? = some e ∧ _
        rw [holder x e,hsame]
  · intro c
    rw [hfile c,hfolder]

theorem Cleared.no_tree (h : Cleared s t) (place : ViewPlace) : t.treeAt place = none := by
  rw [Option.eq_none_iff_forall_not_mem]
  intro id hid
  obtain ⟨e,he,hid⟩ := treeAt_eq_some.mp hid
  rw [((h.entries place e).mp he).2] at hid
  cases hid

/-- A folder left bare had nothing unowned in it. -/
theorem Cleared.of_isBare (h : Cleared s t) (hbare : t.isBare = true) : Cleared s .empty := by
  unfold SourceFolder.isBare at hbare
  simp only [Bool.and_eq_true,Option.isNone_iff_eq_none,Std.ExtTreeMap.isEmpty_iff] at hbare
  obtain ⟨⟨hlatest,hothers⟩,habsent⟩ := hbare
  have hprevious : t.previous = .absent := by
    cases hp : t.previous with
    | absent => rfl
    | file c => simp [hp] at habsent
    | directory entries => simp [hp] at habsent
  refine ⟨?_,?_,?_⟩
  · rw [← h.others,hothers]
    rfl
  · intro place e
    rw [← h.entries place e]
    cases place with
    | latest => simp [entry,SourceFolder.empty,hlatest]
    | previous x => simp [entry,older,SourceFolder.empty,hprevious]
  · intro c
    rw [← h.file c]
    simp [SourceFolder.empty,hprevious]

end Folders

section Views
variable {env : ViewEnv Content} {source : Str} {shelf t : ReadableView.Shelf Content}

/-- No entry carries the marker of a version. -/
structure Bare (s : SourceFolder Content) : Prop where
  trees : ∀ place, s.treeAt place = none
  beside : ∀ (x : Str) e, s.others[x]? = some e → e.versionId = none

/-- The trees of the source are gone, and nothing that is not owned by it. -/
structure ViewRemoved (source : Str) (shelf t : ReadableView.Shelf Content) : Prop where
  bare : ∀ name s, Marked source t name s → Bare s
  foreign : ∀ name : Str, (∀ s, ¬ Marked source shelf name s) → t[name]? = shelf[name]?
  own : ∀ name s, Marked source shelf name s →
    (∃ u, Marked source t name u ∧ Cleared s u) ∨ (t[name]? = none ∧ Cleared s .empty)

/-- The look at the destination does not hide trees, and no staged tree is left beside Latest. -/
structure ViewOpen (env : ViewEnv Content) (source : Str) (shelf : ReadableView.Shelf Content) :
    Prop where
  looked : env.destinationIsDir = true ∨
    ∀ name s, Marked source shelf name s → ∀ place, s.treeAt place = none
  unstaged : ∀ name s, Marked source shelf name s →
    ∀ (x : Str) e, s.others[x]? = some e → e.versionId = none

/-- Where there is nothing to remove, nothing has to change. -/
theorem viewRemoved_self (h : ∀ name s, Marked source shelf name s → Bare s) :
    ViewRemoved source shelf shelf := by
  refine ⟨h,fun _ _ => rfl,fun name s hs => .inl ⟨s,hs,rfl,?_,fun _ => Iff.rfl⟩⟩
  intro place e
  refine ⟨fun he => ⟨he,?_⟩,fun he => he.1⟩
  have hnone := (h name s hs).trees place
  rwa [treeAt,he] at hnone

/-- A change of the one folder of the source. -/
theorem viewRemoved_of_own {name : Str} {s : SourceFolder Content} (hsingle : Single shelf)
    (hs : Marked source shelf name s)
    (hbeside : ∀ (x : Str) e, s.others[x]? = some e → e.versionId = none)
    (hrest : ∀ x : Str, x ≠ name → t[x]? = shelf[x]?)
    (hown : (∃ u, Marked source t name u ∧ Cleared s u) ∨ (t[name]? = none ∧ Cleared s .empty)) :
    ViewRemoved source shelf t where
  bare x w hw := by
    by_cases hx : x = name
    · subst hx
      rcases hown with ⟨u,hu,hc⟩ | ⟨hnone,-⟩
      · cases hu.symm.trans hw
        exact ⟨hc.no_tree,hc.others ▸ hbeside⟩
      · rw [Marked,hnone] at hw
        cases hw
    · rw [Marked,hrest x hx] at hw
      exact absurd (hsingle source x name w s hw hs) hx
  foreign x hx := by
    apply hrest
    rintro rfl
    exact hx s hs
  own x w hw := by
    have hx := hsingle source x name w s hw hs
    subst hx
    cases hs.symm.trans hw
    exact hown

theorem ViewRemoved.unstaged (h : ViewRemoved source shelf t) {name : Str} {s : SourceFolder Content}
    (hs : Marked source shelf name s) {x : Str} {e : ViewEntry Content}
    (he : s.others[x]? = some e) : e.versionId = none := by
  rcases h.own name s hs with ⟨u,hu,hc⟩ | ⟨-,hc⟩
  · exact (h.bare name u hu).beside x e (hc.others ▸ he)
  · rw [← hc.others] at he
    simp [SourceFolder.empty] at he

theorem viewRemoved_iff (hsingle : Single shelf)
    (hr : Returns (removeGeneratedPlaintextView env source) shelf () t) :
    ViewRemoved source shelf t ↔ ViewOpen env source shelf := by
  unfold removeGeneratedPlaintextView at hr
  split at hr
  · rename_i hdir
    refine ⟨fun h => ⟨.inl hdir,fun _ _ hs _ _ he => h.unstaged hs he⟩,fun h => ?_⟩
    have hr := returns_read_bind.mp hr
    obtain ⟨found,hfound,hr⟩ := returns_lift_bind.mp hr
    cases found with
    | none =>
        obtain ⟨-,rfl⟩ := returns_pure.mp hr
        have hnone := no_marked_of_listed (unmarked_of_not_found hfound)
        exact viewRemoved_self fun name s hs => absurd hs (hnone name s)
    | some name =>
        obtain ⟨s,hs⟩ := marked_of_found hfound
        have hbeside := h.unstaged name s hs
        obtain ⟨_,v,hzoom,hr⟩ := returns_bind.mp hr
        obtain ⟨u,hu,rfl⟩ := returns_zoom.mp hzoom
        rw [folder_of_marked hs] at hu
        have hc := cleared_of_removed hu
        rw [setFolder_of_marked hs] at hr
        have hmarked : Marked source (shelf.insert name (.directory (.names source) u)) name u :=
          getElem?_insert_self
        have hr := returns_read_bind.mp hr
        rw [folder_of_marked hmarked] at hr
        split at hr
        · rename_i hbare
          obtain ⟨_,w,hstep,hr⟩ := returns_bind.mp hr
          obtain rfl := returns_step.mp hstep
          obtain rfl := returns_step.mp hr
          apply viewRemoved_of_own hsingle hs hbeside
          · intro x hx
            rw [getElem?_erase_of_ne hx,getElem?_insert_of_ne hx,getElem?_insert_of_ne hx]
          · exact .inr ⟨by simp,hc.of_isBare hbare⟩
        · obtain ⟨-,rfl⟩ := returns_pure.mp hr
          exact viewRemoved_of_own hsingle hs hbeside (fun x hx => getElem?_insert_of_ne hx _)
            (.inl ⟨u,hmarked,hc⟩)
  · rename_i hnot
    obtain ⟨-,rfl⟩ := returns_pure.mp hr
    constructor
    · intro h
      exact ⟨.inr fun name s hs => (h.bare name s hs).trees,fun _ _ hs _ _ he => h.unstaged hs he⟩
    · intro h
      exact viewRemoved_self fun name s hs =>
        ⟨(h.looked.resolve_left hnot) name s hs,h.unstaged name s hs⟩

end Views

section Stores
variable {sha} {st t : Store Text}

/-- There is no blob without a sources directory. -/
def Rooted (st : Store Text) : Prop := st.sourcesExist = true ∨ st.blobs = ∅

omit [StoreText Text] in
theorem surviving_rooted : Surviving (Rooted : Store Text → Prop) := by
  refine ⟨fun _ _ _ _ => .inl rfl,?_⟩
  rintro st path (h | h)
  · exact .inl h
  · refine .inr ?_
    rw [Store.eraseBlob,h]
    simp

/-- What a collection does to a store, up to any of its steps. -/
structure Collected (st t : Store Text) : Prop where
  sources : t.sources = st.sources
  exist : t.sourcesExist = st.sourcesExist
  only : ∀ (path : BlobPath) (blob : Bytes), t.blobs[path]? = some blob → st.blobs[path]? = some blob
  kept : ∀ d n, Referenced st n → t.blobs[[d,n]]? = st.blobs[[d,n]]?

theorem Collected.referenced (h : Collected st t) (hash : Str) :
    Referenced t hash ↔ Referenced st hash := by
  unfold Referenced Store.dir
  rw [h.sources]

theorem collected_gc {env : GcEnv} (hsighted : Sighted env)
    (hr : Returns (gcUnreferencedBlobs env) st () t) : Collected st t := by
  have hkeeps : Keeps (Collected st) (gcUnreferencedBlobs env) := by
    apply keeps_gc env
    intro u directory name hu hnot
    have hself : ∀ path : BlobPath, path ≠ [directory,name] →
        (u.eraseBlob [directory,name]).blobs[path]? = u.blobs[path]? :=
      fun path hne => getElem?_erase_of_ne hne
    refine ⟨hu.sources,hu.exist,?_,?_⟩
    · intro path blob hp
      by_cases hpath : path = [directory,name]
      · simp [Store.eraseBlob,hpath] at hp
      · rw [hself path hpath] at hp
        exact hu.only path blob hp
    · intro d n hn
      rw [hself,hu.kept d n hn]
      intro he
      have hname : n = name := (List.cons.inj (List.cons.inj he).2).1
      apply hnot
      rw [mentioned_iff hsighted.manifests,hu.referenced]
      exact hname ▸ hn
  obtain ⟨-,rfl⟩ := hr
  exact hkeeps.store ⟨rfl,rfl,fun _ _ h => h,fun _ _ _ => rfl⟩

/-- The directory of the source is gone, and the blobs only its manifests mentioned. -/
structure StoreRemoved (sha : Sha256) (source : Str) (st t : Store Text) : Prop where
  gone : t.sources[sourceId sha source]? = none
  others : ∀ sid, sid ≠ sourceId sha source → t.sources[sid]? = st.sources[sid]?
  blobs : ∀ (path : BlobPath) (blob : Bytes), t.blobs[path]? = some blob ↔
    st.blobs[path]? = some blob ∧ ∃ hash, path = blobPath sha hash ∧ Referenced t hash

/-- A complete collection leaves exactly the blobs that are mentioned. -/
theorem mem_swept_iff {env : GcEnv} (hfiled : Filed sha st) (hrooted : Rooted st)
    (hsighted : Sighted env) (hremovable : ∀ path, env.removable path = true)
    (hr : Returns (gcUnreferencedBlobs env) st () t) (path : BlobPath) (blob : Bytes) :
    t.blobs[path]? = some blob ↔
      st.blobs[path]? = some blob ∧ ∃ hash, path = blobPath sha hash ∧ Referenced t hash := by
  have hswept := collected_gc hsighted hr
  have hplace : ∀ blob, st.blobs[path]? = some blob → ∃ content,
      path = [(sha256Hex sha content).take 2,sha256Hex sha content] := by
    intro blob hp
    obtain ⟨content,rfl⟩ := hfiled path
      (mem_of_getElem? hp)
    exact ⟨content,blobPath_of_lowerHex (isLowerHexSha256_sha256Hex content)⟩
  constructor
  · intro hp
    have hold := hswept.only path blob hp
    obtain ⟨content,rfl⟩ := hplace blob hold
    refine ⟨hold,sha256Hex sha content,
      (blobPath_of_lowerHex (isLowerHexSha256_sha256Hex content)).symm,?_⟩
    rw [hswept.referenced,← mentioned_iff hsighted.manifests]
    apply returns_gc_swept hremovable _ hsighted.sources hsighted.blobs hr
    · exact mem_of_getElem? hp
    · rcases hrooted with h | h
      · exact h
      · rw [h] at hold
        simp at hold
  · rintro ⟨hold,hash,hpath,href⟩
    obtain ⟨content,hcontent⟩ := hplace blob hold
    have hlow : isLowerHexSha256 hash = true := by
      by_contra hbad
      rw [blobPath,if_neg hbad] at hpath
      have hhead := (List.cons.inj (hpath.symm.trans hcontent)).1
      have hlen := congrArg List.length hhead
      rw [List.length_take] at hlen
      have : ("__invalid__".toList).length = 11 := rfl
      omega
    rw [hpath,blobPath_of_lowerHex hlow,hswept.kept _ _ ((hswept.referenced hash).mp href),
      ← blobPath_of_lowerHex hlow,← hpath]
    exact hold

theorem storeRemoved_iff {source : Str} {env : RemoveHistoryEnv Text}
    (hfiled : Filed sha st) (hrooted : Rooted st) (hsighted : Sighted env.gc)
    (hremovable : ∀ path, env.gc.removable path = true)
    (hr : Returns (HistoryRemoval.removeHistoryAt (sourceId sha source) env) st () t) :
    StoreRemoved sha source st t ↔
      env.sourceSeen = true ∨ st.sources[sourceId sha source]? = none := by
  obtain ⟨-,hr⟩ := returns_check_bind.mp hr
  have hr := returns_read_bind.mp hr
  split at hr
  · rename_i hthere
    obtain ⟨_,u,hdir,hr⟩ := returns_bind.mp hr
    unfold removeSourceDir at hdir
    split at hdir
    · obtain rfl := returns_step.mp hdir
      have hfiled' : Filed sha (st.removeDir (sourceId sha source)) := hfiled
      have hblobs := mem_swept_iff hfiled' hrooted hsighted hremovable hr
      have hsources := (collected_gc hsighted hr).sources
      refine iff_of_true ⟨?_,?_,hblobs⟩ (.inl (Bool.and_eq_true_iff.mp hthere).1)
      · rw [hsources]
        simp [Store.removeDir]
      · intro sid hne
        rw [hsources,Store.removeDir,getElem?_erase_of_ne hne]
    · exact absurd hdir returns_stepThenFail
  · rename_i hmissing
    have hsources := (collected_gc hsighted hr).sources
    constructor
    · intro h
      exact .inr (hsources ▸ h.gone)
    · intro hnone
      refine ⟨?_,?_,mem_swept_iff hfiled hrooted hsighted hremovable hr⟩
      · rw [hsources]
        refine hnone.elim (fun hseen => ?_) id
        rw [getElem?_eq_none]
        intro hmem
        exact hmissing (Bool.and_eq_true_iff.mpr ⟨hseen,Std.ExtTreeMap.contains_iff_mem.mpr hmem⟩)
      · intro sid _
        rw [hsources]

/-- Before its first blob a backup has made the sources directory. -/
theorem keeps_rooted_backup (prim : Primitives) (job : FolderJob) (env : BackupEnv) :
    Keeps Rooted (backupOneFolder sha prim job env : Store.Op Text FolderBackupResult) := by
  have hexist : Surviving (fun st : Store Text => st.sourcesExist = true) :=
    ⟨fun _ _ _ _ => rfl,fun _ _ h => h⟩
  have hgains : Gains sha prim job.codec (fun st : Store Text => st.sourcesExist = true) :=
    fun _ _ _ _ h => h
  have hscan : Triple Rooted (scanSource sha job env : Store.Op Text Scanned)
      (fun _ st => st.sourcesExist = true) Rooted := by
    refine triple_read_bind fun st _ => ?_
    refine triple_lift_bind (fun _ h => h.2) fun _ _ => ?_
    refine triple_check_bind (fun _ h => h.2) fun _ => ?_
    refine triple_bind (R := fun _ st => st.sourcesExist = true)
      (triple_publish (fun _ _ => ⟨rfl,.inl rfl⟩) fun _ h => h.2) fun _ => ?_
    refine triple_lift_bind (fun _ h => .inl h) fun _ _ => ?_
    refine triple_lift_bind (fun _ h => .inl h) fun _ _ => ?_
    exact triple_lift_bind (fun _ h => .inl h) fun _ _ => triple_pure _ fun _ h => h
  refine triple_bind hscan fun scanned => ?_
  have hrest : ∀ {α : Type} {m : Store.Op Text α}, Keeps (fun st => st.sourcesExist = true) m →
      Triple (fun st => st.sourcesExist = true) m (fun _ => Rooted) Rooted :=
    fun h => triple_conseq h (fun _ hs => hs) (fun _ _ hs => .inl hs) fun _ hs => .inl hs
  split
  · exact hrest (keeps_finishScan hexist.setDir scanned _)
  · apply hrest
    refine keeps_read_bind fun st => ?_
    refine keeps_bind (keeps_writeMissingBlobs hgains scanned.prev scanned.snapshot) fun written => ?_
    dsimp only
    split
    · exact keeps_finishScan hexist.setDir scanned _
    · exact keeps_commitVersion hexist.setDir scanned _ _ fun _ => keeps_pruneVersions hexist _

/-- A removal keeps what directories and blobs may leave. -/
theorem keeps_removeHistoryAt {I : Store Text → Prop} (h : Surviving I)
    (hdir : ∀ st sid, I st → I (st.removeDir sid)) (sid : Str) (env : RemoveHistoryEnv Text) :
    Keeps I (HistoryRemoval.removeHistoryAt sid env) := by
  refine keeps_check_bind fun _ => ?_
  refine keeps_read_bind fun st => ?_
  split
  · refine keeps_bind ?_ fun _ => keeps_gc_of h env.gc
    unfold removeSourceDir
    split
    · exact keeps_step fun u hu => hdir u sid hu
    · exact triple_stepThenFail fun u hu => h.setDir u sid _ hu
  · exact keeps_gc_of h env.gc

/-- Every store that calls lead to is filed and rooted. -/
def Ordered (sha : Sha256) (st : Store Text) : Prop := Filed sha st ∧ Rooted st

omit [StoreText Text] in
theorem surviving_ordered (sha : Sha256) : Surviving (Ordered sha : Store Text → Prop) where
  setDir st sid d h := ⟨(surviving_filed sha).setDir st sid d h.1,surviving_rooted.setDir st sid d h.2⟩
  eraseBlob st path h := ⟨(surviving_filed sha).eraseBlob st path h.1,
    surviving_rooted.eraseBlob st path h.2⟩

theorem keeps_ordered_backup (prim : Primitives) (job : FolderJob) (env : BackupEnv) :
    Keeps (Ordered sha) (backupOneFolder sha prim job env : Store.Op Text FolderBackupResult) :=
  (keeps_backup (keptBy_filed job.codec)).and (keeps_rooted_backup prim job env)

end Stores

section Shelves
variable {sha} {shelf : ReadableView.Shelf Content}

/-- What happens inside a folder does not change its marker. -/
theorem single_setFolder (name : Str) (u : SourceFolder Content) (h : Single shelf) :
    Single (shelf.setFolder name u) := by
  apply single_of_marks h
  intro source x s hx
  unfold Shelf.setFolder at hx
  split at hx
  · rename_i marker v hv
    by_cases hne : x = name
    · subst hne
      rw [Marked,getElem?_insert_self] at hx
      cases hx
      exact ⟨v,hv⟩
    · rw [Marked,getElem?_insert_of_ne hne] at hx
      exact ⟨s,hx⟩
  · exact ⟨s,hx⟩

theorem keeps_single_folder {α : Type} (name : Str) (m : ViewOp Content α) :
    Keeps Single (zoom (Shelf.folder name) (Shelf.setFolder name) m) := by
  have htrue : Keeps (fun _ => True) m :=
    fun s _ => ⟨fun _ _ => trivial,fun _ _ => trivial,fun _ _ => trivial⟩
  exact htrue.zoom (fun _ _ => trivial) fun shelf u h _ => single_setFolder name u h

theorem single_erase (name : Str) (h : Single shelf) : Single (shelf.erase name) := by
  apply single_of_marks h
  intro source x u hx
  rw [Marked,getElem?_erase] at hx
  split at hx
  · cases hx
  · exact ⟨u,hx⟩

theorem keeps_single_removeView (env : ViewEnv Content) (source : Str) :
    Keeps Single (removeGeneratedPlaintextView env source) := by
  unfold removeGeneratedPlaintextView
  split
  · refine keeps_read_bind fun shelf => ?_
    refine keeps_lift_bind fun found _ => ?_
    cases found with
    | none => exact keeps_pure _
    | some name =>
        refine keeps_bind (keeps_single_folder name _) fun _ => ?_
        refine keeps_read_bind fun u => ?_
        split
        · refine keeps_bind (keeps_step fun v hv => ?_) fun _ => keeps_step fun v hv => ?_
          · exact single_unmark name _ hv
          · exact single_erase name hv
        · exact keeps_pure _
  · exact keeps_pure _

theorem keeps_single_findOrCreate (env : PublishEnv) (path : SourcePath) :
    Keeps Single (findOrCreateSourceView sha env path : Action (ReadableView.Shelf Content) _ _) := by
  refine keeps_check_bind fun _ => ?_
  refine triple_read_bind fun shelf hsingle => ?_
  refine triple_lift_bind (fun _ h => h.2) fun found hfound => ?_
  cases found with
  | some name => exact triple_pure _ fun _ h => h.2
  | none =>
      have hnone := no_marked_of_listed (unmarked_of_not_found hfound)
      refine triple_check_bind (fun _ h => h.2) fun _ => ?_
      refine triple_check_bind (fun _ h => h.2) fun hstage => ?_
      have hstaged : ∀ t, Staged sha env path shelf t → Single t := by
        rintro _ (rfl | ⟨m,rfl | rfl,rfl⟩)
        · exact hsingle
        · exact single_unmark _ _ hsingle
        · exact single_mark hsingle hnone
      refine spec_conseq (spec_publishSource (Option.isNone_iff_eq_none.mp hstage)) (fun _ h => h.1)
        ?_ (fun _ t h => hstaged t h.1) ?_
      · rintro _ _ ⟨-,rfl⟩
        exact single_mark hsingle hnone
      · rintro t (h | rfl)
        · exact hstaged t h
        · exact single_mark hsingle hnone

theorem keeps_single_sync (env : ViewEnv Content) (dir : SourceDir Text) (watched : WatchedPath)
    (encrypted : Bool) : Keeps Single (syncSourceReadableView sha env dir watched encrypted) := by
  unfold syncSourceReadableView
  split
  · exact keeps_pure _
  · split
    · exact keeps_bind (keeps_single_removeView env watched.path) fun _ => keeps_pure _
    · refine keeps_lift_bind fun index _ => ?_
      split
      · exact keeps_pure _
      · refine keeps_check_bind fun _ => ?_
        refine keeps_bind (keeps_single_findOrCreate env.toPublishEnv (.ofText watched.path)) fun name => ?_
        exact keeps_bind (keeps_single_folder name _) fun _ => keeps_pure _

end Shelves

section Runs
variable {sha prim} {start sites t : Sites Text Content}

/-- What holds in a destination that calls have worked on. -/
def Settled (sha : Sha256) (site : Site Text Content) : Prop :=
  Ordered sha site.store ∧ Single site.shelf

omit [StoreText Text] in
theorem keeps_store {ε α : Type} {m : Action (Store Text) ε α} (h : Keeps (Ordered sha) m) :
    Keeps (Settled sha : Site Text Content → Prop) (zoom Site.store Site.setStore m) :=
  h.zoom (fun _ hs => hs.1) fun _ _ hs hu => ⟨hu,hs.2⟩

omit [StoreText Text] in
theorem keeps_shelf {ε α : Type} {m : Action (ReadableView.Shelf Content) ε α}
    (h : Keeps Single m) :
    Keeps (Settled sha : Site Text Content → Prop) (zoom Site.shelf Site.setShelf m) :=
  h.zoom (fun _ hs => hs.2) fun _ _ hs hu => ⟨hs.1,hu⟩

omit [StoreText Text] in
theorem keeps_within {ε α : Type} {I : Site Text Content → Prop}
    {m : Action (Site Text Content) ε α} (root : Str) (h : Keeps I m) :
    Keeps (fun sites : Sites Text Content => ∀ root, I (sites.site root)) (Sites.within root m) := by
  refine h.zoom (fun _ hs => hs root) ?_
  intro sites u hs hu root'
  by_cases he : root' = root
  · rw [he,Sites.site_setSite_self]
    exact hu
  · rw [Sites.site_setSite_of_ne he]
    exact hs root'

theorem keeps_backupWatched (job : FolderJob) (env : BackupEnv) (view : ViewEnv Content)
    (encrypted : Bool) :
    Keeps (Settled sha : Site Text Content → Prop)
      (backupWatched sha prim job env view encrypted) := by
  refine keeps_bind (keeps_store (keeps_ordered_backup prim job env)).mapFailure fun _ => ?_
  refine keeps_read_bind fun site => ?_
  exact keeps_bind (keeps_shelf (keeps_single_sync view _ job.watched encrypted)).mapFailure
    fun _ => keeps_pure _

theorem keeps_removeHistory (source : Str) (env : SiteEnv Text Content) :
    Keeps (Settled sha : Site Text Content → Prop) (removeHistoryAt sha source env) := by
  refine keeps_bind (keeps_shelf (keeps_single_removeView env.view source)).mapFailure fun _ => ?_
  exact keeps_store (keeps_removeHistoryAt (surviving_ordered sha) (fun _ _ h => h) _ _)

/-- The states of the destinations that backups and removals lead to. -/
inductive Served (sha : Sha256) (prim : Primitives) (start : Sites Text Content) :
    Sites Text Content → Prop
  | start : Served sha prim start start
  | backup {sites t : Sites Text Content} (root : Str) (job : FolderJob) (env : BackupEnv)
      (view : ViewEnv Content) (encrypted : Bool) : Served sha prim start sites →
      t ∈ (Sites.within root (backupWatched sha prim job env view encrypted) sites).states →
      Served sha prim start t
  | removeKept {sites t : Sites Text Content} (root sourcePath : Str) (env : RemoveKeptEnv) :
      Served sha prim start sites → t ∈ (Sites.within root (zoom Site.store Site.setStore
        (removeKeptSafetyVersion sha sourcePath env)) sites).states → Served sha prim start t
  | removeHistory {sites t : Sites Text Content} (destinations : List Str)
      (canonical : Str → Except StoreError Str) (leases : Except StoreError Unit) (source : Str)
      (env : Str → SiteEnv Text Content) (commit : Except StoreError Unit) :
      Served sha prim start sites → t ∈ (removeSourceHistoryWithCommit sha destinations canonical
        leases source env commit sites).states → Served sha prim start t

/-- Destinations that have no store yet and no folder of a source. -/
def Unused (sites : Sites Text Content) : Prop :=
  ∀ root, (sites.site root).store = .empty ∧
    ∀ source name s, ¬ Marked source (sites.site root).shelf name s

omit [StoreText Text] in
theorem settled_of_unused (h : Unused start) (root : Str) : Settled sha (start.site root) := by
  obtain ⟨hstore,hshelf⟩ := h root
  refine ⟨⟨?_,?_⟩,?_⟩
  · intro path hp
    rw [hstore] at hp
    simp [Store.empty] at hp
  · rw [hstore]
    exact .inr rfl
  · intro source x _ s _ hx _
    exact absurd hx (hshelf source x s)

theorem Served.settled (hstart : Unused start) (h : Served sha prim start sites) :
    ∀ root, Settled sha (sites.site root) := by
  induction h with
  | start => exact settled_of_unused hstart
  | backup root job env view encrypted _ ht ih =>
      exact (keeps_within root (keeps_backupWatched job env view encrypted)).states ih ht
  | removeKept root sourcePath env _ ht ih =>
      have hkeeps : Keeps (Ordered sha) (removeKeptSafetyVersion sha sourcePath env : Store.Op Text _) :=
        keeps_removeKept (surviving_ordered sha) sourcePath env
      exact (keeps_within root (keeps_store hkeeps)).states ih ht
  | removeHistory destinations canonical leases source env commit _ ht ih =>
      have hkeeps : Keeps (fun sites : Sites Text Content => ∀ root, Settled sha (sites.site root))
          (removeSourceHistoryWithCommit sha destinations canonical leases source env commit) := by
        refine keeps_lift_bind fun _ _ => ?_
        refine keeps_bind (keeps_removeHistoryLoop (fun root => keeps_within root
          (keeps_removeHistory source (env root))) [] destinations) fun _ => ?_
        exact spec_lift (fun _ _ _ hs => hs) fun _ _ _ hs => hs
      exact hkeeps.states ih ht

end Runs

section Removal
variable {sha} {source : Str} {sites t : Sites Text Content}

/-- Everything of the source is gone from the destination, and nothing else. -/
structure Removed (sha : Sha256) (source : Str) (site site' : Site Text Content) : Prop where
  store : StoreRemoved sha source site.store site'.store
  view : ViewRemoved source site.shelf site'.shelf

/-- Nothing keeps the removal from what it has to remove. -/
structure Unhindered (sha : Sha256) (source : Str) (env : SiteEnv Text Content)
    (site : Site Text Content) : Prop where
  view : ViewOpen env.view source site.shelf
  seen : env.sourceSeen = true ∨ site.store.sources[sourceId sha source]? = none

theorem removed_iff {env : SiteEnv Text Content} {site site' : Site Text Content}
    (h : Settled sha site) (hsighted : Sighted env.gc)
    (hremovable : ∀ path, env.gc.removable path = true)
    (hr : Returns (removeHistoryAt sha source env) site () site') :
    Removed sha source site site' ↔ Unhindered sha source env site := by
  obtain ⟨_,mid,hview,hstore⟩ := returns_bind.mp hr
  rw [returns_mapFailure,returns_zoom] at hview
  obtain ⟨shelf,hshelf,rfl⟩ := hview
  obtain ⟨st,hst,rfl⟩ := returns_zoom.mp hstore
  have hst := storeRemoved_iff h.1.1 h.1.2 hsighted hremovable hst
  have hshelf := viewRemoved_iff h.2 hshelf
  exact ⟨fun hr => ⟨hshelf.mp hr.view,hst.mp hr.store⟩,fun hu => ⟨hst.mpr hu.seen,hshelf.mpr hu.view⟩⟩

/-- The loop removes at every resolved path it meets for the first time. -/
theorem returns_removeSites {canonical : Str → Except StoreError Str}
    {env : Str → SiteEnv Text Content} {visited paths : List Str}
    (h : ∀ root, Settled sha (sites.site root)) (hsighted : ∀ root, Sighted (env root).gc)
    (hremovable : ∀ root path, (env root).gc.removable path = true)
    (hr : Returns (removeHistoryLoop canonical
      (fun root => Sites.within root (removeHistoryAt sha source (env root))) visited paths)
      sites () t) :
    (∀ path ∈ paths, ∃ root, canonical path = .ok root) ∧
    ∀ root, ((∃ path ∈ paths, canonical path = .ok root) ∧ root ∉ visited →
        (Removed sha source (sites.site root) (t.site root) ↔
          Unhindered sha source (env root) (sites.site root))) ∧
      ((∀ path ∈ paths, canonical path ≠ .ok root) ∨ root ∈ visited →
        t.site root = sites.site root) := by
  induction paths generalizing visited sites with
  | nil =>
      obtain ⟨-,rfl⟩ := returns_pure.mp hr
      simp
  | cons path paths ih =>
      obtain ⟨root,hroot,hr⟩ := returns_lift_bind.mp hr
      split at hr
      · rename_i hseen
        obtain ⟨hall,hrest⟩ := ih h hr
        refine ⟨?_,?_⟩
        · exact List.forall_mem_cons.mpr ⟨⟨root,hroot⟩,hall⟩
        · intro root'
          refine ⟨?_,?_⟩
          · rintro ⟨⟨p,hp,hc⟩,hnew⟩
            rcases List.mem_cons.mp hp with rfl | hp
            · rw [hroot] at hc
              cases hc
              exact absurd hseen hnew
            · exact (hrest root').1 ⟨⟨p,hp,hc⟩,hnew⟩
          · rintro (hnone | hmem)
            · exact (hrest root').2 (.inl fun p hp => hnone p (List.mem_cons_of_mem _ hp))
            · exact (hrest root').2 (.inr hmem)
      · rename_i hnew
        obtain ⟨_,mid,hat,hr⟩ := returns_bind.mp hr
        have hmid : ∀ root, Settled sha (mid.site root) :=
          (keeps_within root (keeps_removeHistory source (env root))).states h
            (List.mem_append_right _ (by rw [← hat.2]; exact List.mem_singleton_self _))
        obtain ⟨site',hsite,rfl⟩ := returns_zoom.mp hat
        have hremoved := removed_iff (h root) (hsighted root) (hremovable root) hsite
        have hother : ∀ root', root' ≠ root →
            (sites.setSite root site').site root' = sites.site root' :=
          fun root' hne => Sites.site_setSite_of_ne hne _ _
        obtain ⟨hall,hrest⟩ := ih hmid hr
        have hself : t.site root = site' := by
          rw [(hrest root).2 (.inr List.mem_cons_self),Sites.site_setSite_self]
        refine ⟨List.forall_mem_cons.mpr ⟨⟨root,hroot⟩,hall⟩,?_⟩
        intro root'
        by_cases he : root' = root
        · subst he
          rw [hself]
          refine ⟨fun _ => hremoved,?_⟩
          rintro (hnone | hmem)
          · exact absurd hroot (hnone path List.mem_cons_self)
          · exact absurd hmem hnew
        · have hrest := hrest root'
          rw [hother root' he] at hrest
          refine ⟨?_,?_⟩
          · rintro ⟨⟨p,hp,hc⟩,hmem⟩
            rcases List.mem_cons.mp hp with rfl | hp
            · rw [hroot] at hc
              exact absurd (Except.ok.inj hc).symm he
            · exact hrest.1 ⟨⟨p,hp,hc⟩,by simp [he,hmem]⟩
          · rintro (hnone | hmem)
            · exact hrest.2 (.inl fun p hp => hnone p (List.mem_cons_of_mem _ hp))
            · exact hrest.2 (.inr (List.mem_cons_of_mem _ hmem))

end Removal

section Alias
open StoreCompleteness

/-- One backup of the notes, with its readable view. -/
def notedSites (view : ViewEnv Unit) : Sites PlainText Unit :=
  (Sites.within "/mnt/main".toList
    (backupWatched notesSha .transparent notesJob firstEnv view false) ∅).store

/-- The removal of the notes from a destination that is configured under two paths. -/
def removeAliased (sourceSeen : Bool) : Action (Sites PlainText Unit) StoreError Unit :=
  removeSourceHistoryWithCommit notesSha ["/mnt/main".toList,"/mnt/alias".toList]
    (fun _ => .ok "/mnt/main".toList) (.ok ()) "/home/notes".toList
    (fun _ => ⟨minuteEnv,sourceSeen,.ok (),calmGc⟩) (.ok ())

theorem unused_nothing : Unused (∅ : Sites PlainText Unit) := by
  intro root
  refine ⟨by simp [Sites.site],?_⟩
  intro source name s hs
  simp [Sites.site,Marked] at hs

theorem served_notedSites (view : ViewEnv Unit) :
    Served notesSha .transparent (∅ : Sites PlainText Unit) (notedSites view) :=
  .backup "/mnt/main".toList notesJob firstEnv view false .start
    (List.mem_append_right _ (List.mem_singleton_self _))

def notesFolder (sites : Sites PlainText Unit) : SourceFolder Unit :=
  (sites.site "/mnt/main".toList).shelf.folder "notes".toList

theorem unhindered_notedSites :
    Unhindered notesSha "/home/notes".toList (⟨minuteEnv,true,.ok (),calmGc⟩ : SiteEnv PlainText Unit)
      ((notedSites minuteEnv).site "/mnt/main".toList) := by
  have hkeys : ((notedSites minuteEnv).site "/mnt/main".toList).shelf.keys = ["notes".toList] := by
    decide +kernel
  have hbare : (notesFolder (notedSites minuteEnv)).others.isEmpty = true := by decide +kernel
  refine ⟨⟨.inl rfl,?_⟩,.inl rfl⟩
  intro name s hs x e he
  have hmem : name ∈ ((notedSites minuteEnv).site "/mnt/main".toList).shelf.keys :=
    mem_keys.mpr (mem_of_getElem? hs)
  rw [hkeys,List.mem_singleton] at hmem
  subst hmem
  have hempty : s.others = ∅ := by
    rw [← folder_of_marked hs]
    exact Std.ExtTreeMap.isEmpty_iff.mp hbare
  rw [hempty] at he
  simp at he

end Alias
end BackupSync.SourceRemoval
