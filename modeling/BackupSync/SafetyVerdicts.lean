import BackupSync.SafetyScans

/-!
# The verdicts of the safety check

On an index whose protected versions are listed, the safety check of a clean
scan ends in one of seven ways. Each is stated with the comparison it rests on:
which version the scanned snapshot was measured against, and whether it had
shrunk by the threshold.
-/
namespace BackupSync
open ContentHash SafetyBaseline Retention BackupFolder StoreInvariant BackupOutcome SafetyScans

namespace SafetyVerdicts

variable {Text : Type} [StoreText Text] {sha : Sha256} {prim : Primitives} {job : FolderJob}
  {env : BackupEnv} {scanned : Scanned} {pass : BlobPass} {index : VersionIndex} {sid id : Str}
  {st : Store Text} {next m : Manifest} {τ : ℚ}

/-- The snapshot is smaller than the stored version by at least the threshold. -/
def Measured (τ : ℚ) (st : Store Text) (sid id : Str) (next : Manifest) : Prop :=
  ∃ m ratio, HasManifest st sid id m ∧
    shrinkRatio (manifestSize m) (manifestSize next) = some ratio ∧ τ ≤ ratio

/-- The snapshot was measured against the latest version. -/
def MeasuredLatest (τ : ℚ) (st : Store Text) (sid : Str) (index : VersionIndex)
    (next : Manifest) : Prop :=
  ∃ v, index.versions.getLast? = some v ∧ Measured τ st sid v.id next

/-- The safety check can read the manifest of the version. -/
def Readable (env : SafetyEnv) (st : Store Text) (sid id : Str) : Prop :=
  env.pendingReadable = true ∧ ∃ m, HasManifest st sid id m

/-- What becomes of the index, and whether it has to be written. -/
inductive Verdict (τ : ℚ) (env : SafetyEnv) (st : Store Text) (sid : Str) (index : VersionIndex)
    (next : Manifest) : VersionIndex × Bool → Prop
  | pinned {id : Str} (hpin : index.safetyPinnedVersionId = some id) :
      Verdict τ env st sid index next (index,false)
  | quiet (hpin : index.safetyPinnedVersionId = none) (hpend : index.safetyPendingVersionId = none)
      (hcalm : ¬ MeasuredLatest τ st sid index next) : Verdict τ env st sid index next (index,false)
  | detected {v : VersionInfo} {seenAt : Int} (hpin : index.safetyPinnedVersionId = none)
      (hpend : ∀ p, index.safetyPendingVersionId = some p → ¬ Readable env st sid p)
      (hlast : index.versions.getLast? = some v) (hm : Measured τ st sid v.id next) :
      Verdict τ env st sid index next ({index with
        safetyPendingVersionId := some v.id
        safetyPendingFirstSeenUnix := some seenAt},true)
  | released {p : Str} {m : Manifest} {ratio : ℚ} (hpin : index.safetyPinnedVersionId = none)
      (hpend : index.safetyPendingVersionId = some p) (hread : Readable env st sid p)
      (hm : HasManifest st sid p m)
      (hratio : shrinkRatio (manifestSize m) (manifestSize next) = some ratio) (hlt : ratio < τ) :
      Verdict τ env st sid index next (clearPending index,true)
  | lost {p : Str} (hpin : index.safetyPinnedVersionId = none)
      (hpend : index.safetyPendingVersionId = some p) (hread : ¬ Readable env st sid p)
      (hcalm : ¬ MeasuredLatest τ st sid index next) :
      Verdict τ env st sid index next (clearPending index,true)
  | confirmed {p : Str} (hpin : index.safetyPinnedVersionId = none)
      (hpend : index.safetyPendingVersionId = some p) (hread : Readable env st sid p)
      (hm : Measured τ st sid p next) :
      Verdict τ env st sid index next
        ({clearPending index with safetyPinnedVersionId := some p},true)
  | stuck {p : Str} {m : Manifest} (hpin : index.safetyPinnedVersionId = none)
      (hpend : index.safetyPendingVersionId = some p) (hread : Readable env st sid p)
      (hm : HasManifest st sid p m)
      (hempty : shrinkRatio (manifestSize m) (manifestSize next) = none) :
      Verdict τ env st sid index next (index,false)

theorem hasManifest_unique {m' : Manifest} (h : HasManifest st sid id m)
    (h' : HasManifest st sid id m') : m = m' := by
  obtain ⟨text,hf,hr⟩ := h
  obtain ⟨text',hf',hr'⟩ := h'
  rw [hf] at hf'
  cases hf'
  rw [hr] at hr'
  cases hr'
  rfl

theorem measured_iff (h : HasManifest st sid id m) : Measured τ st sid id next ↔
    ∃ ratio, shrinkRatio (manifestSize m) (manifestSize next) = some ratio ∧ τ ≤ ratio := by
  constructor
  · rintro ⟨m',ratio,hm',hratio,hle⟩
    obtain rfl := hasManifest_unique h hm'
    exact ⟨ratio,hratio,hle⟩
  · rintro ⟨ratio,hratio,hle⟩
    exact ⟨m,ratio,h,hratio,hle⟩

variable {v : VersionInfo}

theorem measuredLatest_iff (hlast : index.versions.getLast? = some v) :
    MeasuredLatest τ st sid index next ↔ Measured τ st sid v.id next := by
  constructor
  · rintro ⟨w,hw,hm⟩
    obtain rfl : v = w := Option.some.inj (hlast.symm.trans hw)
    exact hm
  · exact fun hm => ⟨v,hlast,hm⟩

theorem isListed_of_mem (h : id ∈ index.ids) : isListed index id = true := by
  obtain ⟨v,hv,he⟩ := List.mem_map.mp h
  exact List.any_eq_true.mpr ⟨v,hv,decide_eq_true he⟩

theorem dropStalePinned_of_tidy (h : Tidy index) : dropStalePinned index = (index,false) := by
  unfold dropStalePinned
  split
  · rename_i pinned hp
    rw [if_pos (isListed_of_mem (h.pins pinned (mem_protectedIds.mpr (.inl hp))))]
  · rfl

theorem dropStalePending_of_tidy (h : Tidy index) : dropStalePending index = (index,false) := by
  unfold dropStalePending
  split
  · rename_i pending hp
    rw [if_pos (isListed_of_mem (h.pins pending (mem_protectedIds.mpr (.inr hp))))]
  · rfl

theorem newestVersion_concat {versions : List VersionInfo}
    (h : ∀ b, newestVersion versions = some b → versionCmp b v ≠ .gt) :
    newestVersion (versions++[v]) = some v := by
  unfold newestVersion at h ⊢
  rw [List.foldl_append,List.foldl_cons,List.foldl_nil]
  split
  · rfl
  · rename_i b hb
    rw [if_neg (h b hb)]

/-- In a sorted list the newest version is the last one. -/
theorem newestVersion_of_sorted {versions : List VersionInfo} (h : Sorted versions) :
    newestVersion versions = versions.getLast? := by
  induction versions using List.reverseRecOn with
  | nil => rfl
  | append_singleton versions v ih =>
      have hbefore : Sorted versions := (List.pairwise_append.mp h).1
      rw [List.getLast?_concat]
      apply newestVersion_concat
      intro b hb hgt
      rw [ih hbefore] at hb
      have hle : (versionCmp b v).isLE = true :=
        (List.pairwise_append.mp h).2.2 b (List.mem_of_getLast? hb) v (List.mem_singleton_self v)
      rw [hgt] at hle
      cases hle

variable {prev : Manifest}

/-- Without a pending version the latest one is the baseline. -/
theorem decideBaseline_idle (τ : ℚ) (watchedPath : Str) (env : SafetyEnv) (next : Manifest)
    (hs : Sorted index.versions) (hpend : index.safetyPendingVersionId = none)
    (hlast : index.versions.getLast? = some v) (hprev : HasManifest st sid v.id prev) :
    (¬ MeasuredLatest τ st sid index next ∧
      (decideBaseline τ watchedPath env prev next index).2 = (index,false)) ∨
    (Measured τ st sid v.id next ∧
      (decideBaseline τ watchedPath env prev next index).2 = ({index with
        safetyPendingVersionId := some v.id
        safetyPendingFirstSeenUnix := some env.firstSeenAt},true)) := by
  rw [measuredLatest_iff hlast,measured_iff hprev]
  unfold decideBaseline
  cases hratio : shrinkRatio (manifestSize prev) (manifestSize next) with
  | none =>
      refine .inl ⟨?_,rfl⟩
      rintro ⟨ratio,he,-⟩
      cases he
  | some ratio =>
      by_cases hlt : ratio < τ
      · refine .inl ⟨?_,by simp [hlt,hpend]⟩
        rintro ⟨ratio',he,hle⟩
        cases he
        exact absurd hle (not_le.mpr hlt)
      · refine .inr ⟨⟨ratio,rfl,not_lt.mp hlt⟩,?_⟩
        simp [hlt,hpend,newestVersion_of_sorted hs,hlast]

variable {watchedPath p : Str}

/-- With a pending version its manifest is the baseline. -/
theorem decideBaseline_pending {env : SafetyEnv} {base : Manifest}
    (hpin : index.safetyPinnedVersionId = none) (hpend : index.safetyPendingVersionId = some p)
    (hread : Readable env st sid p) (hbase : HasManifest st sid p base) :
    Verdict τ env st sid index next (decideBaseline τ watchedPath env base next index).2 := by
  unfold decideBaseline
  cases hratio : shrinkRatio (manifestSize base) (manifestSize next) with
  | none => exact .stuck hpin hpend hread hbase hratio
  | some ratio =>
      by_cases hlt : ratio < τ
      · simp only [hlt,hpend,if_true,Option.isSome_some]
        exact .released hpin hpend hread hbase hratio hlt
      · simp only [hlt,hpend,if_false]
        exact .confirmed hpin hpend hread ((measured_iff hbase).mpr ⟨ratio,hratio,not_lt.mp hlt⟩)

theorem pendingBaseline_readable {env : SafetyEnv} {base : Manifest}
    (hpend : index.safetyPendingVersionId = some p) (hread : Readable env st sid p)
    (hbase : HasManifest st sid p base) :
    pendingBaseline env (st.dir sid).manifests index = (some base,index,false) := by
  obtain ⟨text,hf,hr⟩ := hbase
  unfold pendingBaseline
  simp [hpend,hread.1,hf,hr]

theorem pendingBaseline_unreadable {env : SafetyEnv} (hpend : index.safetyPendingVersionId = some p)
    (hread : ¬ Readable env st sid p) :
    pendingBaseline env (st.dir sid).manifests index = (none,clearPending index,true) := by
  have hfound : (if env.pendingReadable then
      ((st.dir sid).manifests[manifestName p]?).bind StoreText.readManifest else none) = none := by
    split
    · rename_i hok
      refine Option.eq_none_iff_forall_ne_some.mpr ?_
      intro m hm
      obtain ⟨text,hf,hr⟩ := Option.bind_eq_some_iff.mp hm
      exact hread ⟨hok,m,text,hf,hr⟩
    · rfl
  unfold pendingBaseline
  simp only [hpend]
  rw [hfound]

/-- On a tidy index nothing is stale. -/
theorem maybePin_of_tidy {env : SafetyEnv} {manifests : Map Str Text}
    (hτ : 0 < τ) (htidy : Tidy index) :
    let found := pendingBaseline env manifests index
    let decided := decideBaseline τ watchedPath env (found.1.getD prev) next found.2.1
    (maybePinLargeDeletionBaseline τ watchedPath env prev next index manifests false).2 =
      if index.safetyPinnedVersionId.isSome then (index,false)
      else (decided.2.1,found.2.2 || decided.2.2) := by
  have hgo : ¬ (false = true ∨ τ ≤ 0) := by simpa using hτ
  unfold maybePinLargeDeletionBaseline
  rw [if_neg hgo,dropStalePinned_of_tidy htidy]
  dsimp only
  rw [dropStalePending_of_tidy htidy]
  dsimp only
  split <;> rfl

/-- Without a baseline of its own the comparison is with the latest version. -/
theorem verdict_idle {env : SafetyEnv} {idle : VersionIndex} {changed : Bool}
    (hs : Sorted index.versions) (hidle : clearPending idle = clearPending index)
    (hnone : idle.safetyPendingVersionId = none) (hpin : index.safetyPinnedVersionId = none)
    (hpend : ∀ p, index.safetyPendingVersionId = some p → ¬ Readable env st sid p)
    (hcalm : ¬ MeasuredLatest τ st sid index next → Verdict τ env st sid index next (idle,changed))
    (hlast : index.versions.getLast? = some v) (hprev : HasManifest st sid v.id prev) :
    Verdict τ env st sid index next
      ((decideBaseline τ watchedPath env prev next idle).2.1,
        changed || (decideBaseline τ watchedPath env prev next idle).2.2) := by
  have hversions : (clearPending idle).versions = (clearPending index).versions := by rw [hidle]
  change idle.versions = index.versions at hversions
  have hmarked : ∀ p seenAt, ({idle with
      safetyPendingVersionId := p
      safetyPendingFirstSeenUnix := seenAt} : VersionIndex) = {index with
      safetyPendingVersionId := p
      safetyPendingFirstSeenUnix := seenAt} := by
    intro p seenAt
    exact congrArg (fun i : VersionIndex => {i with
      safetyPendingVersionId := p
      safetyPendingFirstSeenUnix := seenAt}) hidle
  have hdecide := decideBaseline_idle τ watchedPath env next (hversions ▸ hs) hnone
    (hversions ▸ hlast) hprev
  rw [measuredLatest_iff (hversions ▸ hlast)] at hdecide
  rw [measuredLatest_iff hlast] at hcalm
  rcases hdecide with ⟨hnot,hd⟩ | ⟨hm,hd⟩
  · rw [hd,Bool.or_false]
    exact hcalm hnot
  · rw [hd,Bool.or_true,hmarked]
    exact .detected hpin hpend hlast hm

theorem verdict_maybePin {env : SafetyEnv} (hτ : 0 < τ) (htidy : Tidy index)
    (hlast : index.versions.getLast? = some v) (hprev : HasManifest st sid v.id prev) :
    Verdict τ env st sid index next (maybePinLargeDeletionBaseline τ watchedPath env prev next index
      (st.dir sid).manifests false).2 := by
  cases hpin : index.safetyPinnedVersionId with
  | some id =>
      rw [maybePin_of_tidy hτ htidy,hpin]
      exact .pinned hpin
  | none =>
      rw [maybePin_of_tidy hτ htidy,hpin]
      cases hpend : index.safetyPendingVersionId with
      | none =>
          have hbase : pendingBaseline env (st.dir sid).manifests index = (none,index,false) := by
            unfold pendingBaseline
            rw [hpend]
          rw [hbase]
          refine verdict_idle htidy.sorted rfl hpend hpin ?_ (.quiet hpin hpend) hlast hprev
          intro p hp
          rw [hpend] at hp
          cases hp
      | some p =>
          by_cases hread : Readable env st sid p
          · obtain ⟨base,hbase⟩ := hread.2
            rw [pendingBaseline_readable hpend hread hbase]
            dsimp only [Option.getD_some]
            rw [Bool.false_or]
            exact decideBaseline_pending hpin hpend hread hbase
          · rw [pendingBaseline_unreadable hpend hread]
            refine verdict_idle htidy.sorted rfl rfl hpin ?_ (.lost hpin hpend hread) hlast hprev
            intro q hq
            rw [hpend] at hq
            cases hq
            exact hread

/-- Where all versions are backed, a call that looks for the previous manifest misses it only if
nothing is listed. -/
theorem latest_of_allBacked {K : Scope} (hsound : AllBacked sha K st)
    (h : ScanOf sha job env st scanned) (hseen : env.latestAccess ≠ .unseen) :
    (scanned.index.versions = [] ∧ scanned.prev = none) ∨
    ∃ v prev, scanned.index.versions.getLast? = some v ∧ scanned.prev = some prev ∧
      HasManifest st (sourceId sha job.watched.path) v.id prev := by
  have hback := indexBacked_of_loadIndex hsound h.index_loaded
  cases hlast : scanned.index.versions.getLast? with
  | none =>
      have hprev := h.prev_loaded
      rw [latestManifest,hlast] at hprev
      exact .inl ⟨List.getLast?_eq_none_iff.mp hlast,(Except.ok.inj hprev).symm⟩
  | some v =>
      obtain ⟨-,text,m,hf,hr,-⟩ := hback.backed v (List.mem_of_getLast? hlast)
      have hprev := latestManifest_readable hseen h.prev_loaded
      rw [latestManifest_of_file hlast hf hr] at hprev
      exact .inr ⟨v,m,rfl,(Except.ok.inj hprev).symm,text,hf,hr⟩

theorem pinAt_of_failures (h : pass.hadReadFailures = true) :
    (pinAt sha job env st scanned pass).2 = (scanned.index,false) := by
  unfold pinAt pinBaseline
  split
  · rfl
  · unfold maybePinLargeDeletionBaseline
    rw [if_pos (.inl h)]

/-- The verdict of a clean scan on a store whose versions are backed. -/
theorem verdict_pinAt {K : Scope} (hsound : AllBacked sha K st)
    (hfinds : Finds sha prim job env st scanned pass) (hclean : pass.hadReadFailures = false)
    (hτ : 0 < job.threshold) (hseen : env.latestAccess ≠ .unseen) :
    Verdict job.threshold env.safety st (sourceId sha job.watched.path) scanned.index pass.snapshot
      (pinAt sha job env st scanned pass).2 := by
  have htidy := (indexBacked_of_loadIndex hsound hfinds.scanOf.index_loaded).tidy
  unfold pinAt pinBaseline
  rcases latest_of_allBacked hsound hfinds.scanOf hseen with ⟨hnil,hprev⟩ | ⟨v,prev,hlast,hprev,hfile⟩
  · have hnone : protectedIds scanned.index = [] := by
      refine List.eq_nil_iff_forall_not_mem.mpr ?_
      intro id hid
      have hlisted := htidy.pins id hid
      rw [VersionIndex.ids,hnil] at hlisted
      cases hlisted
    have hfree : ∀ id, ¬ (scanned.index.safetyPinnedVersionId = some id ∨
        scanned.index.safetyPendingVersionId = some id) := by
      intro id h
      have hmem := mem_protectedIds.mpr h
      rw [hnone] at hmem
      cases hmem
    rw [hprev]
    refine .quiet (Option.eq_none_iff_forall_ne_some.mpr fun id h => hfree id (.inl h))
      (Option.eq_none_iff_forall_ne_some.mpr fun id h => hfree id (.inr h)) ?_
    rintro ⟨v,hv,-⟩
    rw [hnil] at hv
    cases hv
  · rw [hprev,hclean]
    exact verdict_maybePin hτ htidy hlast hfile

end SafetyVerdicts
end BackupSync
