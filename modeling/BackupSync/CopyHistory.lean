import BackupSync.CopyEngine

/-!
# What the copy engine keeps

The record of a source is one list for all destinations, its order is that of the
time stamps, and what is too much is removed from the front. As long as a source
has no more destinations than it may have copies, every copy gets a name of its
own that is not older than the others, and what is pruned can be removed, the
record lists copies that are there, each once, and the copies of the last run are
at its end.
-/
namespace BackupSync.CopyEngine
open Interruptible ContentHash

/-- The recorded copies of a source are there, in its directory, each once and in the order of
their dates. -/
structure Recorded (sha : Sha256) (w : CopyWorld) (key : Str) : Prop where
  present : ∀ p ∈ copiesOf w key, (w.disk p).isSome = true
  directory : ∀ p ∈ copiesOf w key, p.dir = sourceId sha key
  nodup : (copiesOf w key).Nodup
  ordered : (copiesOf w key).Pairwise fun p q => sortKey p ≤ sortKey q

/-- An item whose copy gets a new name that is not older than those of the recorded copies, where
recorded copies can be removed, no other source has its directory, and a hash from the plan is
still the hash of the source. -/
structure Fitting (sha : Sha256) (w : CopyWorld) (item : PlannedItem) (env : ItemEnv) : Prop where
  allowed : 0 < item.maxCopies
  dated : env.now < 253402300800
  fresh : copyPath sha item env.now ∉ copiesOf w item.src
  later : ∀ p ∈ copiesOf w item.src, ∃ t : Int, parseTimestamp p = some t ∧ t ≤ env.now
  removable : ∀ p ∈ copiesOf w item.src, env.removable p = true
  directory : ∀ key, (w.files key).isSome = true → sourceId sha key = sourceId sha item.src →
    key = item.src
  current : ∀ hash, item.precomputedHash = some hash → hash = sha256Hex sha env.source

section Step
variable {sha : Sha256} {w : CopyWorld} {item : PlannedItem} {env : ItemEnv} {content : Bytes}
  {hash : Str}

theorem sortKey_copyPath (h : env.now < 253402300800) :
    sortKey (copyPath sha item env.now) = env.now := by
  unfold sortKey
  rw [parseTimestamp_copyPath h]
  rfl

variable {p : CopyPath}

theorem Fitting.sortKey_le (h : Fitting sha w item env) (hp : p ∈ copiesOf w item.src) :
    sortKey p ≤ sortKey (copyPath sha item env.now) := by
  obtain ⟨t,ht,hle⟩ := h.later p hp
  rw [sortKey_copyPath h.dated]
  unfold sortKey
  rw [ht]
  exact hle

/-- The new copy comes after all recorded ones. -/
theorem Fitting.ordered (h : Fitting sha w item env) (hr : Recorded sha w item.src) :
    (copiesWith sha w item env).Pairwise fun p q => sortKey p ≤ sortKey q := by
  unfold copiesWith
  rw [List.pairwise_append]
  refine ⟨hr.ordered,List.pairwise_singleton _ _,?_⟩
  intro p hp q hq
  rw [List.mem_singleton] at hq
  subst hq
  exact h.sortKey_le hp

theorem Fitting.nodup (h : Fitting sha w item env) (hr : Recorded sha w item.src) :
    (copiesWith sha w item env).Nodup := by
  unfold copiesWith
  rw [← List.concat_eq_append,List.nodup_concat]
  exact ⟨h.fresh,hr.nodup⟩

theorem mem_of_mem_pruned (hmax : 0 < item.maxCopies)
    (hp : p ∈ (copiesWith sha w item env).take (excess sha w item env)) :
    p ∈ copiesOf w item.src := by
  have hle : excess sha w item env ≤ (copiesOf w item.src).length := by
    unfold excess copiesWith
    rw [List.length_append,List.length_singleton]
    omega
  unfold copiesWith at hp
  rw [List.take_append_of_le_length hle] at hp
  exact List.mem_of_mem_take hp

theorem mem_copiesWith : p ∈ copiesWith sha w item env ↔
    p ∈ copiesOf w item.src ∨ p = copyPath sha item env.now := by
  simp [copiesWith]

theorem copiesOf_afterCopy_self : copiesOf (afterCopy sha w item env content hash) item.src =
    (copiesWith sha w item env).drop (excess sha w item env) := by
  simp [copiesOf,afterCopy]

theorem copiesOf_afterCopy_of_ne {key : Str} (h : key ≠ item.src) :
    copiesOf (afterCopy sha w item env content hash) key = copiesOf w key := by
  simp [copiesOf,afterCopy,h]

theorem isSome_of_mem_copiesOf {key : Str} (h : p ∈ copiesOf w key) :
    (w.files key).isSome = true := by
  unfold copiesOf at h
  cases hfile : w.files key with
  | none => simp [hfile] at h
  | some e => rfl

/-- A copy of another source is not touched. -/
theorem disk_afterCopy_of_ne (hfit : Fitting sha w item env) (hr : ∀ key, Recorded sha w key)
    {key : Str} (hkey : key ≠ item.src) (hp : p ∈ copiesOf w key) :
    (afterCopy sha w item env content hash).disk p = w.disk p := by
  have hdir : p.dir ≠ sourceId sha item.src := by
    intro heq
    rw [(hr key).directory p hp] at heq
    exact hkey (hfit.directory key (isSome_of_mem_copiesOf hp) heq)
  have hkept : p ∉ (copiesWith sha w item env).take (excess sha w item env) :=
    fun hmem => hdir ((hr item.src).directory p (mem_of_mem_pruned hfit.allowed hmem))
  have hother : p ≠ copyPath sha item env.now := by
    rintro rfl
    exact hdir rfl
  simp only [afterCopy,if_neg hkept,if_neg hother]

/-- A copy that is kept is as it was, or the new one. -/
theorem disk_afterCopy_of_kept (hfit : Fitting sha w item env) (hr : Recorded sha w item.src)
    {p : CopyPath} (hp : p ∈ (copiesWith sha w item env).drop (excess sha w item env)) :
    (afterCopy sha w item env content hash).disk p =
      if p = copyPath sha item env.now then some content else w.disk p := by
  have hnodup := hfit.nodup hr
  have hkept : p ∉ (copiesWith sha w item env).take (excess sha w item env) :=
    fun hmem => List.disjoint_take_drop hnodup (le_refl _) hmem hp
  simp only [afterCopy,if_neg hkept]

theorem recorded_afterCopy (hfit : Fitting sha w item env) (hr : ∀ key, Recorded sha w key)
    (key : Str) : Recorded sha (afterCopy sha w item env content hash) key := by
  by_cases hkey : key = item.src
  · subst hkey
    constructor
    · intro p hp
      rw [copiesOf_afterCopy_self] at hp
      rw [disk_afterCopy_of_kept hfit (hr _) hp]
      split
      · rfl
      · rename_i hother
        have hold := (mem_copiesWith.mp (List.mem_of_mem_drop hp)).resolve_right hother
        exact (hr _).present p hold
    · intro p hp
      rw [copiesOf_afterCopy_self] at hp
      rcases mem_copiesWith.mp (List.mem_of_mem_drop hp) with hold | rfl
      · exact (hr _).directory p hold
      · rfl
    · rw [copiesOf_afterCopy_self]
      exact (hfit.nodup (hr _)).sublist (List.drop_sublist _ _)
    · rw [copiesOf_afterCopy_self]
      exact (hfit.ordered (hr _)).drop
  · constructor
    · intro p hp
      rw [copiesOf_afterCopy_of_ne hkey] at hp
      rw [disk_afterCopy_of_ne hfit hr hkey hp]
      exact (hr key).present p hp
    · intro p hp
      rw [copiesOf_afterCopy_of_ne hkey] at hp
      exact (hr key).directory p hp
    · rw [copiesOf_afterCopy_of_ne hkey]
      exact (hr key).nodup
    · rw [copiesOf_afterCopy_of_ne hkey]
      exact (hr key).ordered

/-- The new copy is the last one of the record. -/
theorem getLast_afterCopy (hmax : 0 < item.maxCopies) :
    (copiesOf (afterCopy sha w item env content hash) item.src).getLast? =
      some (copyPath sha item env.now) := by
  rw [copiesOf_afterCopy_self,List.getLast?_drop]
  have hlt : excess sha w item env < (copiesWith sha w item env).length := by
    unfold excess copiesWith
    rw [List.length_append,List.length_singleton]
    omega
  rw [if_neg (by omega)]
  simp [copiesWith]

/-- Copies at the end of the record stay there while there is room for them and the new one. -/
theorem suffix_afterCopy {l : List CopyPath} (h : l <:+ copiesOf w item.src)
    (hroom : l.length < item.maxCopies) :
    l++[copyPath sha item env.now] <:+ copiesOf (afterCopy sha w item env content hash) item.src := by
  obtain ⟨front,hfront⟩ := h
  rw [copiesOf_afterCopy_self]
  unfold excess copiesWith
  rw [← hfront,List.append_assoc,List.drop_append_of_le_length]
  · exact ⟨_,rfl⟩
  · simp only [List.length_append,List.length_singleton]
    omega

end Step

/-- An item of a run, what it met and whether it was copied. -/
abbrev Done := PlannedItem × ItemEnv × Bool

/-- The source stayed the same from the start of its turn until it was copied. -/
def Unchanged (item : PlannedItem) (env : ItemEnv) : Prop :=
  env.copied = some env.source ∧ (item.precomputedHash = none → env.hashed = some env.source)

/-- The last recorded copy of a source is one that the run made, and it has the recorded hash if
the source did not change meanwhile. -/
def LastCopy (sha : Sha256) (done : List Done) (w : CopyWorld) (key : Str) : Prop :=
  ∃ item env content, (item,env,true) ∈ done ∧ item.src = key ∧
    (copiesOf w key).getLast? = some (copyPath sha item env.now) ∧
    w.disk (copyPath sha item env.now) = some content ∧
    (Unchanged item env → ∃ e, w.files key = some e ∧ e.lastHash = some (sha256Hex sha content))

/-- A destination holds a copy of the source. -/
def HoldsCopy (sha : Sha256) (w : CopyWorld) (root key : Str) : Prop :=
  ∃ p : CopyPath, p.root = root ∧ p.dir = sourceId sha key ∧ (w.disk p).isSome = true

/-- What a run leaves of the sources it copied. -/
def Kept (sha : Sha256) (done : List Done) (w : CopyWorld) : Prop :=
  ∀ item env, (item,env,true) ∈ done →
    (∀ p ∈ copiesOf w item.src, (w.disk p).isSome = true) ∧ (copiesOf w item.src).Nodup ∧
      LastCopy sha done w item.src ∧ HoldsCopy sha w item.destinationRoot item.src

/-- The copies of a source that a run made. -/
def made (sha : Sha256) (done : List Done) (key : Str) : List CopyPath :=
  (done.filter fun d => d.2.2 && d.1.src == key).map fun d => copyPath sha d.1 d.2.1.now

/-- In the middle of a run: the record is right, and it ends with the copies made so far. -/
structure Along (sha : Sha256) (done : List Done) (w : CopyWorld) : Prop where
  recorded : ∀ key, Recorded sha w key
  suffix : ∀ key, made sha done key <:+ copiesOf w key
  last : ∀ item env, (item,env,true) ∈ done → LastCopy sha done w item.src

section Runs
variable {sha : Sha256} {exec : Executor} {w t : CopyWorld} {item : PlannedItem} {env : ItemEnv}
  {done : List Done} {content : Bytes} {hash : Str}

theorem made_copied_self :
    made sha (done++[(item,env,true)]) item.src =
      made sha done item.src++[copyPath sha item env.now] := by
  simp [made]

theorem made_copied_of_ne {key : Str} (h : item.src ≠ key) :
    made sha (done++[(item,env,true)]) key = made sha done key := by
  simp [made,h]

theorem made_failed (key : Str) : made sha (done++[(item,env,false)]) key = made sha done key := by
  simp [made]

theorem mem_made (h : (item,env,true) ∈ done) :
    copyPath sha item env.now ∈ made sha done item.src :=
  List.mem_map.mpr ⟨_,List.mem_filter.mpr ⟨h,by simp⟩,rfl⟩

theorem Along.kept (h : Along sha done w) : Kept sha done w := by
  intro item env hmem
  have hr := h.recorded item.src
  have hcopy := (h.suffix item.src).subset (mem_made hmem)
  exact ⟨hr.present,hr.nodup,h.last item env hmem,_,rfl,rfl,hr.present _ hcopy⟩

theorem computeHash_of_unchanged (hfit : Fitting sha w item env)
    (hhash : computeHash sha item env = .ok hash) (hcopied : env.copied = some content)
    (h : Unchanged item env) : hash = sha256Hex sha content := by
  obtain ⟨hsource,hhashed⟩ := h
  rw [hsource] at hcopied
  cases hcopied
  unfold computeHash at hhash
  cases hpre : item.precomputedHash with
  | some pre =>
      rw [hpre] at hhash
      cases hhash
      exact hfit.current hash hpre
  | none =>
      rw [hpre,hhashed hpre] at hhash
      cases hhash
      rfl

theorem LastCopy.mono {key : Str} {more : List Done} (h : LastCopy sha done w key) :
    LastCopy sha (done++more) w key := by
  obtain ⟨item,env,content,hmem,hrest⟩ := h
  exact ⟨item,env,content,List.mem_append_left _ hmem,hrest⟩

/-- The copy that was just made is the last one of its source. -/
theorem lastCopy_new (hfit : Fitting sha w item env) (hr : Recorded sha w item.src)
    (hcopied : env.copied = some content) (hhash : computeHash sha item env = .ok hash) :
    LastCopy sha (done++[(item,env,true)]) (afterCopy sha w item env content hash) item.src := by
  have hlast := @getLast_afterCopy sha w item env content hash hfit.allowed
  have hmem := List.mem_of_getLast? hlast
  rw [copiesOf_afterCopy_self] at hmem
  have hdisk := @disk_afterCopy_of_kept sha w item env content hash hfit hr _ hmem
  rw [if_pos rfl] at hdisk
  refine ⟨item,env,content,by simp,rfl,hlast,hdisk,?_⟩
  intro hsame
  rw [← computeHash_of_unchanged hfit hhash hcopied hsame]
  simp [afterCopy]

/-- The last copy of another source stays. -/
theorem LastCopy.other {key : Str} (hfit : Fitting sha w item env)
    (hr : ∀ key, Recorded sha w key) (hkey : key ≠ item.src) (h : LastCopy sha done w key) :
    LastCopy sha done (afterCopy sha w item env content hash) key := by
  obtain ⟨other,env',c,hmem,hsrc,hlast,hdisk,hhash⟩ := h
  refine ⟨other,env',c,hmem,hsrc,?_,?_,?_⟩
  · rw [copiesOf_afterCopy_of_ne hkey]
    exact hlast
  · rw [disk_afterCopy_of_ne hfit hr hkey (List.mem_of_getLast? hlast)]
    exact hdisk
  · simpa [afterCopy,hkey] using hhash

theorem Along.copied (h : Along sha done w) (hfit : Fitting sha w item env)
    (hroom : (made sha done item.src).length < item.maxCopies)
    (hcopied : env.copied = some content) (hhash : computeHash sha item env = .ok hash) :
    Along sha (done++[(item,env,true)]) (afterCopy sha w item env content hash) := by
  have hnew := @lastCopy_new sha w item env done content hash hfit (h.recorded _) hcopied hhash
  refine ⟨recorded_afterCopy hfit h.recorded,?_,?_⟩
  · intro key
    by_cases hkey : item.src = key
    · subst hkey
      rw [made_copied_self]
      exact suffix_afterCopy (h.suffix _) hroom
    · rw [made_copied_of_ne hkey,copiesOf_afterCopy_of_ne (Ne.symm hkey)]
      exact h.suffix key
  · intro other env' hmem
    by_cases hkey : other.src = item.src
    · rw [hkey]
      exact hnew
    · rcases List.mem_append.mp hmem with hold | hlast
      · exact ((h.last other env' hold).other hfit h.recorded hkey).mono
      · simp only [List.mem_singleton,Prod.mk.injEq] at hlast
        exact absurd (congrArg PlannedItem.src hlast.1) hkey

theorem Along.failed (h : Along sha done w) : Along sha (done++[(item,env,false)]) w := by
  refine ⟨h.recorded,?_,?_⟩
  · intro key
    rw [made_failed]
    exact h.suffix key
  · intro other env' hmem
    rcases List.mem_append.mp hmem with hold | hnew
    · exact (h.last other env' hold).mono
    · simp at hnew

/-- One item, copied or not. -/
theorem Along.backupOne (h : Along sha done w) (hfit : Fitting sha w item env)
    (hroom : (made sha done item.src).length < item.maxCopies) :
    Along sha (done++[(item,env,(CopyEngine.backupOne sha exec item env w).result.isOk)])
      (CopyEngine.backupOne sha exec item env w).store := by
  have hspec := @spec_backupOne sha exec item env w hfit.allowed (hfit.ordered (h.recorded _))
    fun p hp => hfit.removable p (mem_of_mem_pruned hfit.allowed hp)
  cases hresult : (CopyEngine.backupOne sha exec item env w).result with
  | ok u =>
      obtain ⟨content,hash,hcopied,hhash,hstore⟩ := hspec.returns rfl ⟨hresult,rfl⟩
      rw [hstore]
      exact h.copied hfit hroom hcopied hhash
  | error e =>
      rw [hspec.fails rfl ⟨hresult,rfl⟩]
      exact h.failed

theorem length_made_le (item : PlannedItem) (env : ItemEnv) (copied : Bool) (key : Str) :
    (made sha (done++[(item,env,copied)]) key).length ≤
      (made sha done key).length+if item.src = key then 1 else 0 := by
  by_cases hkey : item.src = key
  · subst hkey
    cases copied with
    | true => simp [made_copied_self]
    | false => simp [made_failed]
  · cases copied with
    | true => simp [made_copied_of_ne hkey]
    | false => simp [made_failed]

/-- Every item fits the state it is copied in. -/
def Fits (sha : Sha256) (exec : Executor) : List (PlannedItem × ItemEnv) → CopyWorld → Prop
  | [],_ => True
  | (item,env)::rest,w => Fitting sha w item env ∧
      Fits sha exec rest (backupOne sha exec item env w).store

/-- How often a source occurs among sources with their numbers of copies. -/
def occurrences (key : Str) (sources : List (Str × Nat)) : Nat :=
  sources.countP fun s => s.1 = key

/-- No source occurs more often than it may have copies. -/
def Roomy (sources : List (Str × Nat)) : Prop :=
  ∀ s ∈ sources, occurrences s.1 sources ≤ s.2

theorem occurrences_cons (key src : Str) (copies : Nat) (sources : List (Str × Nat)) :
    occurrences key ((src,copies)::sources) =
      occurrences key sources+if src = key then 1 else 0 := by
  simp [occurrences,List.countP_cons]

theorem Roomy.sublist {sources more : List (Str × Nat)} (h : List.Sublist sources more)
    (hroom : Roomy more) : Roomy sources := by
  intro s hs
  have hcount : occurrences s.1 sources ≤ occurrences s.1 more := h.countP_le
  exact hcount.trans (hroom s (h.subset hs))

/-- The source of an item with its number of copies. -/
def PlannedItem.demand (item : PlannedItem) : Str × Nat := (item.src,item.maxCopies)

/-- A whole execution ends and keeps the record right. -/
theorem Along.execute {items : List (PlannedItem × ItemEnv)} (h : Along sha done w)
    (hfits : Fits sha exec items w)
    (hroom : ∀ x ∈ items, (made sha done x.1.src).length+
      occurrences x.1.src (items.map fun y => PlannedItem.demand y.1) ≤ x.1.maxCopies) :
    ∃ others t, Returns (execute sha exec items) w others t ∧ Along sha (done++others) t := by
  induction items generalizing w done with
  | nil =>
      refine ⟨[],w,⟨rfl,rfl⟩,?_⟩
      rw [List.append_nil]
      exact h
  | cons x rest ih =>
      obtain ⟨item,env⟩ := x
      obtain ⟨hfit,hrest⟩ := hfits
      have hitem := hroom (item,env) List.mem_cons_self
      simp only [List.map_cons,PlannedItem.demand,occurrences_cons,if_pos] at hitem
      have hstep := @Along.backupOne sha exec w item env done h hfit (by omega)
      have hlater : ∀ x ∈ rest, (made sha
          (done++[(item,env,(CopyEngine.backupOne sha exec item env w).result.isOk)]) x.1.src).length+
          occurrences x.1.src (rest.map fun y => PlannedItem.demand y.1) ≤ x.1.maxCopies := by
        intro x hx
        have hx' := hroom x (List.mem_cons_of_mem _ hx)
        simp only [List.map_cons,PlannedItem.demand,occurrences_cons] at hx' ⊢
        have hle := @length_made_le sha done item env
          (CopyEngine.backupOne sha exec item env w).result.isOk x.1.src
        omega
      obtain ⟨others,t,hreturns,halong⟩ := ih hstep hrest hlater
      refine ⟨(item,env,(CopyEngine.backupOne sha exec item env w).result.isOk)::others,t,?_,?_⟩
      · exact returns_bind.mpr ⟨_,_,returns_attempt.mpr ⟨rfl,rfl⟩,
          returns_bind.mpr ⟨others,t,hreturns,returns_pure.mpr ⟨rfl,rfl⟩⟩⟩
      · rw [List.append_assoc,List.singleton_append] at halong
        exact halong

end Runs

section Plan
variable {sha : Sha256} {w t u : CopyWorld}

/-- The same copies on disk and in the record. -/
structure SameCopies (w t : CopyWorld) : Prop where
  disk : t.disk = w.disk
  copies : ∀ key, copiesOf t key = copiesOf w key

theorem SameCopies.trans (h : SameCopies w t) (h' : SameCopies t u) : SameCopies w u :=
  ⟨h'.disk.trans h.disk,fun key => (h'.copies key).trans (h.copies key)⟩

theorem sameCopies_setFile {key : Str} {s : FileState} (cycles : Nat) (h : w.files key = some s) :
    SameCopies w (setFile key {s with stableCycles := cycles} w) := by
  refine ⟨rfl,?_⟩
  intro other
  by_cases hother : other = key
  · subst hother
    simp [copiesOf,setFile,h]
  · simp [copiesOf,setFile,hother]

theorem Recorded.same {key : Str} (hr : Recorded sha w key) (h : SameCopies w t) :
    Recorded sha t key := by
  constructor
  · rw [h.disk,h.copies]
    exact hr.present
  · rw [h.copies]
    exact hr.directory
  · rw [h.copies]
    exact hr.nodup
  · rw [h.copies]
    exact hr.ordered

/-- The plan ends, leaves the copies as they are and takes each file at most once. -/
theorem returns_plan (hashCheckInterval : Nat) (files : List (SourceMeta × Option Bytes))
    (w : CopyWorld) :
    ∃ items t, Returns (plan sha hashCheckInterval files) w items t ∧ SameCopies w t ∧
      List.Sublist (items.map PlannedItem.demand) (files.map fun f => (f.1.path,f.1.maxCopies)) := by
  induction files generalizing w with
  | nil => exact ⟨[],w,⟨rfl,rfl⟩,⟨rfl,fun _ => rfl⟩,List.Sublist.refl _⟩
  | cons f files ih =>
      obtain ⟨m,checked⟩ := f
      cases hfile : w.files m.path with
      | none =>
          obtain ⟨items,t,hreturns,hsame,hsub⟩ := ih w
          refine ⟨planned m .newFile none::items,t,?_,hsame,hsub.cons_cons _⟩
          unfold plan
          rw [returns_read_bind,hfile]
          exact returns_bind.mpr ⟨items,t,hreturns,returns_pure.mpr ⟨rfl,rfl⟩⟩
      | some s =>
          obtain ⟨decision,cycles,hreason⟩ :
              ∃ d c, planReason sha hashCheckInterval m checked s = (d,c) := ⟨_,_,rfl⟩
          have hstep := sameCopies_setFile cycles hfile
          obtain ⟨items,t,hreturns,hsame,hsub⟩ :=
            ih (setFile m.path {s with stableCycles := cycles} w)
          unfold plan
          simp only [returns_read_bind,hfile,hreason]
          cases decision with
          | none =>
              exact ⟨items,t,returns_bind.mpr ⟨(),_,returns_step.mpr rfl,returns_bind.mpr
                ⟨items,t,hreturns,returns_pure.mpr ⟨rfl,rfl⟩⟩⟩,hstep.trans hsame,hsub.cons _⟩
          | some decision =>
              exact ⟨planned m decision.1 decision.2::items,t,returns_bind.mpr ⟨(),_,
                returns_step.mpr rfl,returns_bind.mpr ⟨items,t,hreturns,returns_pure.mpr ⟨rfl,rfl⟩⟩⟩,
                hstep.trans hsame,hsub.cons_cons _⟩

end Plan

section Sequences
variable {sha : Sha256} {w t : CopyWorld} {input : RunInput}

/-- The items of a plan with what each of them meets. -/
def turns (input : RunInput) (items : List PlannedItem) : List (PlannedItem × ItemEnv) :=
  items.zipIdx.map fun item => (item.1,input.env item.2)

theorem map_turns (input : RunInput) (items : List PlannedItem) :
    ((turns input items).map fun x => PlannedItem.demand x.1) = items.map PlannedItem.demand := by
  unfold turns
  rw [List.map_map]
  conv_rhs => rw [← List.zipIdx_map_fst 0 items,List.map_map]
  rfl

/-- A run over sources that have no more destinations than copies, each of whose items fits. -/
structure FitsRun (sha : Sha256) (input : RunInput) (w : CopyWorld) : Prop where
  room : Roomy (input.files.map fun f => (f.1.path,f.1.maxCopies))
  items : ∀ items t, Returns (plan sha input.hashCheckInterval input.files) w items t →
    Fits sha input.exec (turns input items) t

/-- The states that runs of this kind reach from a record without files. -/
inductive Reached (sha : Sha256) : CopyWorld → Prop where
  | start (w : CopyWorld) : (∀ key, w.files key = none) → Reached sha w
  | run {w t : CopyWorld} {done : List Done} (input : RunInput) : Reached sha w →
      FitsRun sha input w → Returns (run sha input) w done t → Reached sha t

theorem along_run (hfits : FitsRun sha input w) (hr : ∀ key, Recorded sha w key) :
    ∃ done t, Returns (run sha input) w done t ∧ Along sha done t := by
  obtain ⟨items,u,hplan,hsame,hsub⟩ := @returns_plan sha input.hashCheckInterval input.files w
  have hroom := Roomy.sublist hsub hfits.room
  have hstart : Along sha [] u :=
    ⟨fun key => (hr key).same hsame,fun key => List.nil_suffix,by simp⟩
  obtain ⟨done,t,hreturns,halong⟩ := hstart.execute (hfits.items items u hplan) (by
    intro x hx
    rw [map_turns]
    have hmem : PlannedItem.demand x.1 ∈ items.map PlannedItem.demand := by
      rw [← map_turns input]
      exact List.mem_map_of_mem hx
    simpa [made,PlannedItem.demand] using hroom _ hmem)
  exact ⟨done,t,returns_bind.mpr ⟨items,u,hplan,hreturns⟩,halong⟩

theorem recorded_of_reached (h : Reached sha w) (key : Str) : Recorded sha w key := by
  induction h generalizing key with
  | start w hnone => constructor <;> simp [copiesOf,hnone]
  | run input _ hfits hreturns ih =>
      obtain ⟨done,t,hreturns',halong⟩ := along_run hfits ih
      obtain ⟨-,rfl⟩ := returns_unique hreturns hreturns'
      exact halong.recorded key

end Sequences

/-- A note that is watched for a destination. -/
def noteTo (root : String) (maxCopies : Nat) : SourceMeta × Option Bytes :=
  (⟨"/home/note".toList,"note".toList,3,100,root.toList,maxCopies⟩,none)

/-- An undisturbed copy of it. -/
def copyAt (now : Nat) : ItemEnv :=
  ⟨true,[1,2,3],some [1,2,3],some [1,2,3],true,now,some 1000,some 3,true,fun _ => true⟩

/-- Two destinations in one run, one copy a second after the other. -/
def toBoth (maxCopies : Nat) : RunInput :=
  ⟨⟨none,0⟩,4,[noteTo "/mnt/a" maxCopies,noteTo "/mnt/b" maxCopies],
    fun i => copyAt (1700000000+i)⟩

def noteItem (root : String) (maxCopies : Nat) : PlannedItem :=
  planned (noteTo root maxCopies).1 .newFile none

def noteCopy (root : String) (maxCopies now : Nat) : CopyPath :=
  copyPath (.ofTable []) (noteItem root maxCopies) now

/-- The state after the copy to the first destination. -/
def firstCopied : CopyWorld :=
  (backupOne (.ofTable []) ⟨none,0⟩ (noteItem "/mnt/a" 2) (copyAt 1700000000) CopyWorld.empty).store

def firstRecord : FileState :=
  ⟨3,100,some (sha256Hex (.ofTable []) [1,2,3]),[noteCopy "/mnt/a" 2 1700000000],0⟩

theorem fitting_first :
    Fitting (.ofTable []) CopyWorld.empty (noteItem "/mnt/a" 2) (copyAt 1700000000) where
  allowed := by decide
  dated := by decide
  fresh := List.not_mem_nil
  later p hp := absurd hp List.not_mem_nil
  removable p hp := absurd hp List.not_mem_nil
  directory key hkey := by cases hkey
  current hash h := by cases h

theorem fitting_second :
    Fitting (.ofTable []) firstCopied (noteItem "/mnt/b" 2) (copyAt 1700000001) := by
  have hcopies : copiesOf firstCopied "/home/note".toList = [noteCopy "/mnt/a" 2 1700000000] := rfl
  have hdate : parseTimestamp (noteCopy "/mnt/a" 2 1700000000) = some (1700000000 : Int) :=
    parseTimestamp_copyPath (by decide)
  have hfiles : firstCopied.files = Function.update (Function.update (fun _ => none)
      "/home/note".toList (some firstRecord)) "/home/note".toList (some firstRecord) := rfl
  refine ⟨by decide,by decide,?_,?_,fun _ _ => rfl,?_,fun hash h => by cases h⟩
  · change _ ∉ copiesOf firstCopied "/home/note".toList
    rw [hcopies]
    decide
  · change ∀ p ∈ copiesOf firstCopied "/home/note".toList,_
    rw [hcopies]
    intro p hp
    rw [List.mem_singleton] at hp
    subst hp
    exact ⟨_,hdate,by decide⟩
  · intro key hkey _
    by_contra hother
    change key ≠ "/home/note".toList at hother
    rw [hfiles,Function.update_of_ne hother,Function.update_of_ne hother] at hkey
    cases hkey

end BackupSync.CopyEngine
