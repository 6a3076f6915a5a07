import BackupSync.Maps

/-!
# Relative paths on both sides of a manifest

The scanner writes the path of every entry through normalize_rel and the
restore side reads it back through validate_relative_path. Text is a list of
Unicode scalar values. A scanned path is the list of file names below the scan
root; to_string_lossy has already been applied to each name.

Path components follow the Unix rules of the standard library: empty and
interior dot pieces vanish, a leading slash is the root and a leading dot piece
is the current directory.

The two grammars do not agree. The acceptance theorem below says for which lists
of legal file names the written path is read back.
-/
namespace BackupSync

abbrev Str := List Char

instance lawfulBEqStr : LawfulBEq Str := inferInstance

instance transCmpStr : Std.TransCmp (compare : Str → Str → Ordering) := inferInstance

instance transCmpNames : Std.TransCmp (compare : List Str → List Str → Ordering) := inferInstance

instance lawfulEqOrdNames : Std.LawfulEqOrd (List Str) := inferInstance

namespace RelativePath

inductive Component where
  | rootDir | curDir | parentDir
  | normal (name : Str)
  deriving DecidableEq, Repr

def pieceComponent : Str → Option Component
  | [] => none
  | ['.'] => none
  | ['.','.'] => some .parentDir
  | name => some (.normal name)

/-- Path::components on Unix. -/
def components (path : Str) : List Component :=
  match path.splitOn '/' with
  | [] => []
  | first::rest =>
      (match first with
        | [] => if rest = [] then [] else [.rootDir]
        | ['.'] => [.curDir]
        | piece => (pieceComponent piece).toList) ++ rest.filterMap pieceComponent

/-- Path equality on Unix. -/
def samePath (path path' : Str) : Bool := components path = components path'

/-- char::is_whitespace. -/
def isWhitespace (c : Char) : Bool :=
  (9 ≤ c.toNat && c.toNat ≤ 13) || (0x2000 ≤ c.toNat && c.toNat ≤ 0x200A) ||
    c.toNat ∈ [0x20,0x85,0xA0,0x1680,0x2028,0x2029,0x202F,0x205F,0x3000]

def trimMatches (p : Char → Bool) (s : Str) : Str :=
  ((s.dropWhile p).reverse.dropWhile p).reverse

/-- str::trim. -/
def trim (s : Str) : Str := trimMatches isWhitespace s

/-- The names a path resolves to below the directory it is joined to. -/
def resolve (path : Str) : List Str :=
  (components path).filterMap fun
    | .normal name => some name
    | _ => none

def isAbsolute (path : Str) : Bool := path.head? = some '/'

/-- A path as the operating system renders it from its names. -/
def relString (names : List Str) : Str := ['/'].intercalate names

def replaceBackslash (s : Str) : Str := s.map fun c => if c = '\\' then '/' else c

/-- trim_start_matches("./"). -/
def trimDotSlash : Str → Str
  | '.' :: '/' :: rest => trimDotSlash rest
  | s => s

def normalizeRel (names : List Str) : Str :=
  let s := replaceBackslash (relString names)
  if ['.','/'].isPrefixOf s then trimDotSlash s else s

def hasWindowsDrivePrefix : Str → Bool
  | c::d::_ => c.isAlpha && d == ':'
  | _ => false

/-- The part of the components check that refuses a component. -/
def unsafeComponent : Component → Bool
  | .rootDir | .parentDir | .curDir => true
  | .normal _ => false

/-- The refusals of the restore side, each with the path its text quotes. -/
inductive Refusal where
  | unsafePath (relPath : Str)
  | invalidHash (relPath : Str)
  | keyMismatch (key relPath : Str)
  deriving DecidableEq, Repr

def validateRelativePath (relPath : Str) : Except Refusal Unit :=
  if relPath.isEmpty || relPath.contains '\\' || hasWindowsDrivePrefix relPath then
    .error (.unsafePath relPath)
  else if isAbsolute relPath || (components relPath).any unsafeComponent then
    .error (.unsafePath relPath)
  else .ok ()

/-- A name the Unix file system can hold in a directory. -/
structure LegalName (name : Str) : Prop where
  ne_nil : name ≠ []
  no_slash : '/' ∉ name
  ne_dot : name ≠ ['.']
  ne_dotdot : name ≠ ['.','.']

instance (name : Str) : Decidable (LegalName name) :=
  decidable_of_iff (name ≠ [] ∧ '/' ∉ name ∧ name ≠ ['.'] ∧ name ≠ ['.','.'])
    ⟨fun h => ⟨h.1,h.2.1,h.2.2.1,h.2.2.2⟩,fun h => ⟨h.1,h.2,h.3,h.4⟩⟩

/-- Names cut at backslashes, the pieces normalize_rel separates. -/
def pathPieces (names : List Str) : List Str := names.flatMap (·.splitOn '\\')

def dropDots : List Str → List Str
  | ['.']::p::ps => dropDots (p::ps)
  | ps => ps

/-- The first piece that survives normalisation names an entry of the tree,
and no piece steps out of it. -/
def Portable (names : List Str) : Prop :=
  ['.','.'] ∉ pathPieces names ∧
    ∃ p ∈ (dropDots (pathPieces names)).head?, p ≠ [] ∧ p ≠ ['.'] ∧ hasWindowsDrivePrefix p = false

instance (names : List Str) : Decidable (Portable names) := by
  unfold Portable
  infer_instance

@[simp] theorem replaceBackslash_cons (c : Char) (s : Str) :
    replaceBackslash (c::s) = (if c = '\\' then '/' else c)::replaceBackslash s := rfl

theorem replaceBackslash_append (s t : Str) :
    replaceBackslash (s++t) = replaceBackslash s++replaceBackslash t :=
  List.map_append

variable {s : Str}

theorem replaceBackslash_eq_self (h : '\\' ∉ s) : replaceBackslash s = s := by
  induction s with
  | nil => rfl
  | cons c s ih =>
      rw [List.mem_cons,not_or] at h
      rw [replaceBackslash_cons,if_neg (Ne.symm h.1),ih h.2]

theorem not_mem_replaceBackslash (s : Str) : '\\' ∉ replaceBackslash s := by
  intro h
  obtain ⟨c,-,hc⟩ := List.mem_map.mp h
  split at hc
  · exact absurd hc (by decide)
  · contradiction

/-- A name without a slash is cut at its backslashes. -/
theorem splitOn_replaceBackslash {name : Str} (h : '/' ∉ name) :
    (replaceBackslash name).splitOn '/' = name.splitOn '\\' := by
  induction name with
  | nil => rfl
  | cons c name ih =>
      rw [List.mem_cons,not_or] at h
      rw [replaceBackslash_cons,List.splitOn_cons_eq_if_modifyHead,
        List.splitOn_cons_eq_if_modifyHead,ih h.2]
      by_cases hc : c = '\\'
      · simp [hc]
      · simp [hc,Ne.symm h.1]

theorem relString_cons_cons (n m : Str) (names : List Str) :
    relString (n::m::names) = n ++ '/' :: relString (m::names) := by
  simp [relString,List.intercalate_cons_cons]

theorem splitOn_replace_relString {names : List Str} (hne : names ≠ [])
    (h : ∀ n ∈ names, '/' ∉ n) :
    (replaceBackslash (relString names)).splitOn '/' = pathPieces names := by
  induction names with
  | nil => exact absurd rfl hne
  | cons n names ih =>
      have hn := splitOn_replaceBackslash (h n List.mem_cons_self)
      cases names with
      | nil => simpa [relString,pathPieces] using hn
      | cons m names =>
          have ht := ih (List.cons_ne_nil _ _) fun k hk => h k (List.mem_cons_of_mem _ hk)
          rw [relString_cons_cons,replaceBackslash_append,replaceBackslash_cons,if_neg (by decide),
            List.splitOn_append_cons_self,hn,ht]
          rfl

variable {p : Str} {rest : List Str}

/-- The text before the first slash. -/
theorem eq_of_splitOn (h : s.splitOn '/' = p::rest) :
    (rest = [] ∧ s = p) ∨ ∃ t, s = p ++ '/' :: t := by
  have hs : ['/'].intercalate (s.splitOn '/') = s := List.intercalate_splitOn '/'
  rw [h] at hs
  cases rest with
  | nil => exact .inl ⟨rfl,by simpa using hs.symm⟩
  | cons q rest =>
      exact .inr ⟨['/'].intercalate (q::rest),by simpa [List.intercalate_cons_cons] using hs.symm⟩

theorem splitOn_trimDotSlash (s : Str) : (trimDotSlash s).splitOn '/' = dropDots (s.splitOn '/') := by
  induction s using trimDotSlash.induct with
  | case1 rest ih =>
      obtain ⟨p,ps,hp⟩ := List.exists_cons_of_ne_nil (List.splitOn_ne_nil '/' rest)
      rw [trimDotSlash,ih]
      have hcut : ('.' :: '/' :: rest).splitOn '/' = ['.']::rest.splitOn '/' :=
        List.splitOn_append_cons_self ['.'] rest
      rw [hcut,hp,dropDots]
  | case2 s hs =>
      rw [trimDotSlash.eq_2 s hs]
      refine (dropDots.eq_2 _ ?_).symm
      intro p ps hp
      rcases eq_of_splitOn hp with ⟨h,-⟩ | ⟨t,h⟩
      · exact absurd h (List.cons_ne_nil _ _)
      · exact hs t h

theorem normalizeRel_eq (names : List Str) :
    normalizeRel names = trimDotSlash (replaceBackslash (relString names)) := by
  simp only [normalizeRel]
  split
  · rfl
  · rename_i h
    refine (trimDotSlash.eq_2 _ ?_).symm
    intro rest hr
    exact h (by rw [hr]; rfl)

theorem trimDotSlash_suffix (s : Str) : trimDotSlash s <:+ s := by
  induction s using trimDotSlash.induct with
  | case1 rest ih =>
      rw [trimDotSlash]
      exact ih.trans (List.suffix_append ['.','/'] rest)
  | case2 s hs =>
      have h := trimDotSlash.eq_2 s hs
      exact h.symm ▸ List.suffix_refl s

theorem not_mem_normalizeRel (names : List Str) : '\\' ∉ normalizeRel names := by
  rw [normalizeRel_eq]
  intro h
  exact not_mem_replaceBackslash _ ((trimDotSlash_suffix _).subset h)

theorem dotdot_mem_dropDots (ps : List Str) : ['.','.'] ∈ dropDots ps ↔ ['.','.'] ∈ ps := by
  induction ps using dropDots.induct with
  | case1 p ps ih =>
      rw [dropDots,ih]
      simp
  | case2 ps hps => rw [dropDots.eq_2 ps hps]

theorem unsafe_pieceComponent {c : Component} (h : pieceComponent p = some c) :
    unsafeComponent c = true ↔ p = ['.','.'] := by
  fun_cases pieceComponent p with
  | case1 => cases h
  | case2 => cases h
  | case3 =>
      cases h
      simp [unsafeComponent]
  | case4 _ hnil hdot hne =>
      rw [pieceComponent.eq_4 p hnil hdot hne] at h
      cases h
      simpa [unsafeComponent] using hne

theorem any_unsafe_rest (rest : List Str) :
    (rest.filterMap pieceComponent).any unsafeComponent = true ↔ ['.','.'] ∈ rest := by
  rw [List.any_eq_true]
  constructor
  · rintro ⟨c,hc,hu⟩
    obtain ⟨p,hp,hpc⟩ := List.mem_filterMap.mp hc
    rwa [← (unsafe_pieceComponent hpc).mp hu]
  · intro h
    exact ⟨.parentDir,List.mem_filterMap.mpr ⟨_,h,rfl⟩,rfl⟩

/-- The components of a path whose first piece names an entry. -/
theorem components_of_splitOn (h : s.splitOn '/' = p::rest) (hp : p ≠ []) (hd : p ≠ ['.']) :
    components s = (p::rest).filterMap pieceComponent := by
  unfold components
  rw [h]
  dsimp only
  split
  · contradiction
  · contradiction
  · cases hc : pieceComponent p <;> simp [hc]

theorem hasWindowsDrivePrefix_of_splitOn (h : s.splitOn '/' = p::rest) :
    hasWindowsDrivePrefix s = hasWindowsDrivePrefix p := by
  rcases eq_of_splitOn h with ⟨-,rfl⟩ | ⟨t,rfl⟩
  · rfl
  · match p with
    | [] => cases t <;> rfl
    | [c] => simp [hasWindowsDrivePrefix]
    | c::d::p => rfl

theorem validateRelativePath_eq_ok_iff (s : Str) : validateRelativePath s = .ok () ↔
    s ≠ [] ∧ '\\' ∉ s ∧ hasWindowsDrivePrefix s = false ∧ isAbsolute s = false ∧
      (components s).any unsafeComponent = false := by
  have hite : ∀ {a b : Bool} {e : Refusal},
      (if a then .error e else if b then .error e else .ok () : Except Refusal Unit) = .ok () ↔
        a = false ∧ b = false := by
    intro a b e
    cases a <;> cases b <;> simp
  unfold validateRelativePath
  rw [hite]
  simp only [Bool.or_eq_false_iff,List.isEmpty_eq_false_iff,List.contains_eq_mem,
    decide_eq_false_iff_not,and_assoc]

/-- What the restore side accepts, by pieces. -/
theorem validateRelativePath_of_splitOn (h : s.splitOn '/' = p::rest) (hb : '\\' ∉ s) :
    validateRelativePath s = .ok () ↔
      ['.','.'] ∉ p::rest ∧ p ≠ [] ∧ p ≠ ['.'] ∧ hasWindowsDrivePrefix p = false := by
  rw [validateRelativePath_eq_ok_iff,hasWindowsDrivePrefix_of_splitOn h]
  by_cases hp : p = []
  · subst hp
    rcases eq_of_splitOn h with ⟨-,rfl⟩ | ⟨t,rfl⟩
    · simp
    · simp [isAbsolute]
  · by_cases hd : p = ['.']
    · subst hd
      have hc : components s = .curDir::rest.filterMap pieceComponent := by
        unfold components
        rw [h]
        rfl
      simp [hc,unsafeComponent]
    · have hs : s ≠ [] := by
        rintro rfl
        rw [List.splitOn_nil] at h
        exact hp (List.cons.inj h).1.symm
      have habs : isAbsolute s = false := by
        obtain ⟨c,t,rfl⟩ := List.exists_cons_of_ne_nil hs
        by_contra hc
        obtain rfl : c = '/' := by simpa [isAbsolute] using hc
        rw [List.splitOn_cons_eq_if_modifyHead,if_pos (beq_self_eq_true '/')] at h
        exact hp (List.cons.inj h).1.symm
      have hun := any_unsafe_rest (p::rest)
      rw [← Bool.not_eq_false] at hun
      rw [components_of_splitOn h hp hd]
      tauto

/-- An accepted path names something below the root. -/
theorem resolve_ne_nil (h : validateRelativePath s = .ok ()) : resolve s ≠ [] := by
  obtain ⟨-,hb,-,-,-⟩ := (validateRelativePath_eq_ok_iff s).mp h
  obtain ⟨p,rest,hp⟩ := List.exists_cons_of_ne_nil (List.splitOn_ne_nil '/' s)
  obtain ⟨hdots,hnil,hdot,-⟩ := (validateRelativePath_of_splitOn hp hb).mp h
  have hpiece : pieceComponent p = some (.normal p) := by
    refine pieceComponent.eq_4 p hnil hdot ?_
    rintro rfl
    exact hdots List.mem_cons_self
  rw [resolve,components_of_splitOn hp hnil hdot,List.filterMap_cons_some hpiece]
  exact List.cons_ne_nil _ _

/-- The written path is read back exactly for portable lists of names. -/
theorem validate_normalizeRel {names : List Str} (hne : names ≠ []) (h : ∀ n ∈ names, '/' ∉ n) :
    validateRelativePath (normalizeRel names) = .ok () ↔ Portable names := by
  have hs : (normalizeRel names).splitOn '/' = dropDots (pathPieces names) := by
    rw [normalizeRel_eq,splitOn_trimDotSlash,splitOn_replace_relString hne h]
  obtain ⟨p,rest,hp⟩ := List.exists_cons_of_ne_nil (List.splitOn_ne_nil '/' (normalizeRel names))
  rw [validateRelativePath_of_splitOn hp (not_mem_normalizeRel names),← hp,hs,dotdot_mem_dropDots]
  rw [hs] at hp
  simp [Portable,hp]

example : normalizeRel ["a:b".toList] = "a:b".toList ∧
    validateRelativePath "a:b".toList = .error (.unsafePath "a:b".toList) := by decide

section Accepted
variable {names : List Str} (hne : names ≠ []) (hl : ∀ n ∈ names, LegalName n)
include hne hl

theorem splitOn_relString : (relString names).splitOn '/' = names :=
  List.splitOn_intercalate '/' (fun n hn => (hl n hn).no_slash) hne

/-- The names below the root come back from the text of a path. -/
theorem resolve_relString : resolve (relString names) = names := by
  obtain ⟨p,rest,rfl⟩ := List.exists_cons_of_ne_nil hne
  have hp := hl p List.mem_cons_self
  rw [resolve,components_of_splitOn (splitOn_relString hne hl) hp.ne_nil hp.ne_dot,
    List.filterMap_filterMap]
  refine (List.filterMap_congr fun n hn => ?_).trans (List.filterMap_some)
  have hn := hl n hn
  rw [pieceComponent.eq_4 n hn.ne_nil hn.ne_dot hn.ne_dotdot]
  rfl

/-- A path the restore side accepts is written unchanged. -/
theorem normalizeRel_of_accepted (h : validateRelativePath (relString names) = .ok ()) :
    normalizeRel names = relString names := by
  obtain ⟨-,hb,-,-,-⟩ := (validateRelativePath_eq_ok_iff _).mp h
  obtain ⟨p,rest,rfl⟩ := List.exists_cons_of_ne_nil hne
  rw [normalizeRel_eq,replaceBackslash_eq_self hb]
  refine trimDotSlash.eq_2 _ ?_
  intro t ht
  have hcut : (relString (p::rest)).splitOn '/' = ['.']::t.splitOn '/' := by
    rw [ht]
    exact List.splitOn_append_cons_self ['.'] t
  rw [splitOn_relString hne hl] at hcut
  exact (hl p List.mem_cons_self).ne_dot (List.cons.inj hcut).1

end Accepted

end RelativePath
end BackupSync
