import Mathlib

/-!
# Paths through symbolic links

A tree gives the entry at each location, and a location is the list of names from
the root through directories only. A path is a list of steps, each a name or a
step up. A name that is a link is replaced by the steps of its target, and a step
up goes to the parent of the directory reached, wherever the name before it was.

A path can also be reduced without looking at the tree, where a step up takes
back the name before it. Both readings agree as long as every step up leads back
into the directory in which the name it takes back was found.

Nothing here mentions a program; names are an arbitrary type.
-/
namespace BackupSync

inductive PathStep (N : Type) where
  | up
  | name (n : N)
  deriving DecidableEq, Repr

inductive LinkedEntry (N : Type) where
  | dir
  | file
  | link (absolute : Bool) (target : List (PathStep N))
  deriving DecidableEq, Repr

structure LinkedTree (N : Type) where
  entry : List N → Option (LinkedEntry N)
  root : entry [] = some .dir
  parent : ∀ loc e, entry loc = some e → loc ≠ [] → entry loc.dropLast = some .dir

namespace LinkedTree

theorem mem_of_lookup {α β : Type} [BEq α] [LawfulBEq α] {table : List (α × β)} {a : α} {b : β}
    (h : table.lookup a = some b) : (a,b) ∈ table := by
  obtain ⟨l,r,rfl,-⟩ := List.lookup_eq_some_iff.mp h
  exact List.mem_append_right l List.mem_cons_self

/-- A tree of finitely many entries besides the root. -/
def ofTable {N : Type} [DecidableEq N] (table : List (List N × LinkedEntry N))
    (h : ∀ item ∈ table, item.1.dropLast = [] ∨ table.lookup item.1.dropLast = some .dir) :
    LinkedTree N where
  entry loc := if loc = [] then some .dir else table.lookup loc
  root := if_pos rfl
  parent := by
    intro loc e he hne
    rw [if_neg hne] at he
    rcases h _ (mem_of_lookup he) with hroot | hdir
    · rw [if_pos hroot]
    · split
      · rfl
      · exact hdir

theorem mem_of_entry_ofTable {N : Type} [DecidableEq N] {table : List (List N × LinkedEntry N)}
    {h : ∀ item ∈ table, item.1.dropLast = [] ∨ table.lookup item.1.dropLast = some .dir}
    {loc : List N} {e : LinkedEntry N} (he : (ofTable table h).entry loc = some e) (hne : loc ≠ []) :
    (loc,e) ∈ table := by
  dsimp only [ofTable] at he
  rw [if_neg hne] at he
  exact mem_of_lookup he

variable {N : Type} (t : LinkedTree N)

/-- The walk along a path; what follows a link is left to another walk. -/
def followWith (deeper : List N → List (PathStep N) → Option (List N)) :
    List N → List (PathStep N) → Option (List N)
  | loc,[] => some loc
  | loc,.up::rest => followWith deeper loc.dropLast rest
  | loc,.name n::rest => match t.entry (loc++[n]) with
    | some .dir => followWith deeper (loc++[n]) rest
    | some .file => if rest.isEmpty then some (loc++[n]) else none
    | some (.link absolute target) => deeper (if absolute then [] else loc) (target++rest)
    | none => none

/-- The walk that gives up after so many links. -/
def follow : Nat → List N → List (PathStep N) → Option (List N)
  | 0 => followWith t fun _ _ => none
  | links+1 => followWith t (follow links)

/-- The steps lead from one directory to another, over so many links. -/
inductive Leads : Nat → List N → List (PathStep N) → List N → Prop
  | here {loc : List N} : Leads 0 loc [] loc
  | up {k : Nat} {loc dst : List N} {rest : List (PathStep N)} (h : Leads k loc.dropLast rest dst) :
      Leads k loc (.up::rest) dst
  | dir {k : Nat} {loc dst : List N} {n : N} {rest : List (PathStep N)}
      (he : t.entry (loc++[n]) = some .dir) (h : Leads k (loc++[n]) rest dst) :
      Leads k loc (.name n::rest) dst
  | link {k : Nat} {loc dst : List N} {n : N} {rest target : List (PathStep N)} {absolute : Bool}
      (he : t.entry (loc++[n]) = some (.link absolute target))
      (h : Leads k (if absolute then [] else loc) (target++rest) dst) :
      Leads (k+1) loc (.name n::rest) dst

variable {t} {loc dst mid : List N} {steps a b rest : List (PathStep N)} {k i j : Nat} {n : N}

theorem entry_dropLast (h : t.entry loc = some .dir) : t.entry loc.dropLast = some .dir := by
  by_cases hne : loc = []
  · rw [hne]
    exact t.root
  · exact t.parent loc .dir h hne

theorem entry_start (h : t.entry loc = some .dir) (absolute : Bool) :
    t.entry (if absolute then [] else loc) = some .dir := by
  cases absolute with
  | false => exact h
  | true => exact t.root

theorem Leads.entry (h : t.Leads k loc steps dst) (hl : t.entry loc = some .dir) :
    t.entry dst = some .dir := by
  induction h with
  | here => exact hl
  | up _ ih => exact ih (entry_dropLast hl)
  | dir he _ ih => exact ih he
  | link he _ ih => exact ih (entry_start hl _)

/-- A path leads to one place only. -/
theorem Leads.unique {k' : Nat} {dst' : List N} (h : t.Leads k loc steps dst)
    (h' : t.Leads k' loc steps dst') : dst = dst' := by
  induction h generalizing k' with
  | here => cases h' with
    | here => rfl
  | up _ ih => cases h' with
    | up h' => exact ih h'
  | dir he _ ih => cases h' with
    | dir _ h' => exact ih h'
    | link he' _ =>
        rw [he] at he'
        cases he'
  | link he _ ih => cases h' with
    | dir he' _ =>
        rw [he] at he'
        cases he'
    | link he' h' =>
        rw [he] at he'
        cases he'
        exact ih h'

theorem Leads.trans (ha : t.Leads i loc a mid) (hb : t.Leads j mid b dst) :
    t.Leads (i+j) loc (a++b) dst := by
  induction ha with
  | here => rwa [Nat.zero_add]
  | up _ ih => exact .up (ih hb)
  | dir he _ ih => exact .dir he (ih hb)
  | link he _ ih =>
      rw [Nat.add_right_comm]
      apply Leads.link he
      simpa using ih hb

/-- A path can be interrupted anywhere. -/
theorem Leads.split (h : t.Leads k loc (a++b) dst) :
    ∃ i j mid, k = i+j ∧ t.Leads i loc a mid ∧ t.Leads j mid b dst := by
  generalize hs : a++b = steps at h
  induction h generalizing a with
  | here =>
      obtain ⟨rfl,rfl⟩ := List.append_eq_nil_iff.mp hs
      exact ⟨0,0,_,rfl,.here,.here⟩
  | @up k loc dst rest h ih =>
      cases a with
      | nil =>
          subst hs
          exact ⟨0,k,loc,(Nat.zero_add k).symm,.here,.up h⟩
      | cons s a =>
          rw [List.cons_append] at hs
          obtain ⟨rfl,htail⟩ := List.cons.inj hs
          obtain ⟨i,j,mid,hk,hi,hj⟩ := ih htail
          exact ⟨i,j,mid,hk,.up hi,hj⟩
  | @dir k loc dst n rest he h ih =>
      cases a with
      | nil =>
          subst hs
          exact ⟨0,k,loc,(Nat.zero_add k).symm,.here,.dir he h⟩
      | cons s a =>
          rw [List.cons_append] at hs
          obtain ⟨rfl,htail⟩ := List.cons.inj hs
          obtain ⟨i,j,mid,hk,hi,hj⟩ := ih htail
          exact ⟨i,j,mid,hk,.dir he hi,hj⟩
  | @link k loc dst n rest target absolute he h ih =>
      cases a with
      | nil =>
          subst hs
          exact ⟨0,k+1,loc,(Nat.zero_add _).symm,.here,.link he h⟩
      | cons s a =>
          rw [List.cons_append] at hs
          obtain ⟨rfl,htail⟩ := List.cons.inj hs
          obtain ⟨i,j,mid,hk,hi,hj⟩ := ih (a := target++a) (by rw [List.append_assoc,htail])
          exact ⟨i+1,j,mid,by omega,.link he hi,hj⟩

/-- The way to a directory through its own names. -/
theorem leads_names (h : t.entry loc = some .dir) : t.Leads 0 [] (loc.map .name) loc := by
  induction loc using List.reverseRecOn with
  | nil => exact .here
  | append_singleton loc n ih =>
      have hparent : t.entry loc = some .dir := by
        have hp := t.parent _ _ h (by simp)
        rwa [List.dropLast_concat] at hp
      rw [List.map_append]
      exact (ih hparent).trans (.dir h .here)

theorem leads_of_followWith {deeper : List N → List (PathStep N) → Option (List N)} {links : Nat}
    (hdeeper : ∀ loc steps, deeper loc steps = some dst → ∃ k < links, t.Leads k loc steps dst)
    (hdst : t.entry dst = some .dir) (h : t.followWith deeper loc steps = some dst) :
    ∃ k ≤ links, t.Leads k loc steps dst := by
  induction steps generalizing loc with
  | nil =>
      cases h
      exact ⟨0,Nat.zero_le _,.here⟩
  | cons s rest ih =>
      cases s with
      | up =>
          obtain ⟨k,hk,hl⟩ := ih h
          exact ⟨k,hk,.up hl⟩
      | name n =>
          rw [followWith] at h
          split at h
          · rename_i he
            obtain ⟨k,hk,hl⟩ := ih h
            exact ⟨k,hk,.dir he hl⟩
          · rename_i he
            split at h
            · cases h
              rw [he] at hdst
              cases hdst
            · cases h
          · rename_i absolute target he
            obtain ⟨k,hk,hl⟩ := hdeeper _ _ h
            exact ⟨k+1,hk,.link he hl⟩
          · cases h

theorem leads_of_follow {links : Nat} (hdst : t.entry dst = some .dir)
    (h : t.follow links loc steps = some dst) : ∃ k ≤ links, t.Leads k loc steps dst := by
  induction links generalizing loc steps with
  | zero => exact leads_of_followWith (fun _ _ hd => by cases hd) hdst h
  | succ links ih =>
      refine leads_of_followWith (fun loc steps hd => ?_) hdst h
      obtain ⟨k,hk,hl⟩ := ih hd
      exact ⟨k,Nat.lt_succ_of_le hk,hl⟩

theorem Leads.follow {links : Nat} (h : t.Leads k loc steps dst) (hk : k ≤ links) :
    t.follow links loc steps = some dst := by
  induction h generalizing links with
  | here => cases links <;> rfl
  | up _ ih => cases links <;> exact ih hk
  | dir he _ ih =>
      cases links with
      | zero =>
          rw [LinkedTree.follow,followWith,he]
          exact ih hk
      | succ links =>
          rw [LinkedTree.follow,followWith,he]
          exact ih hk
  | link he _ ih =>
      cases links with
      | zero => omega
      | succ links =>
          rw [LinkedTree.follow,followWith,he]
          exact ih (by omega)

section Reduce

/-- The lexical reduction of a path from the root: a step up takes back the last step, if any. -/
def reduce : List (PathStep N) → List (PathStep N) → List (PathStep N)
  | done,[] => done
  | done,.up::rest => reduce (if done.isEmpty then [.up] else done.dropLast) rest
  | done,.name n::rest => reduce (done++[.name n]) rest

/-- Walking on from a directory, every step up leads back to where the name it takes back was
found. The list has the directories of the names that are not taken back. -/
def Retraces (t : LinkedTree N) (links : Nat) :
    List (List N) → List N → List (PathStep N) → Prop
  | _,_,[] => True
  | [],loc,.up::rest => Retraces t links [] loc.dropLast rest
  | dir::dirs,loc,.up::rest => loc.dropLast = dir ∧ Retraces t links dirs dir rest
  | dirs,loc,.name n::rest =>
      ∀ k ≤ links, ∀ dst, t.Leads k loc [.name n] dst → Retraces t links (loc::dirs) dst rest

/-- The reduced path leads where the path has led, and its names were found in the given
directories. -/
inductive Tracks (t : LinkedTree N) : List (PathStep N) → List (List N) → List N → Nat → Prop
  | root : Tracks t [] [] [] 0
  | above : Tracks t [.up] [] [] 0
  | name {done : List (PathStep N)} {dirs : List (List N)} {loc dst : List N} {n : N} {i j : Nat}
      (h : Tracks t done dirs loc i) (hn : t.Leads j loc [.name n] dst) :
      Tracks t (done++[.name n]) (loc::dirs) dst (i+j)

variable {done : List (PathStep N)} {dirs : List (List N)} {links : Nat}

theorem Tracks.leads (h : t.Tracks done dirs loc i) : t.Leads i [] done loc := by
  induction h with
  | root => exact .here
  | above => exact .up .here
  | name _ hn ih => exact ih.trans hn

/-- On a path that retraces its steps the reduction makes no difference. -/
theorem leads_reduce (hdone : t.Tracks done dirs loc i) (h : t.Leads k loc steps dst)
    (hk : k ≤ links) (hr : t.Retraces links dirs loc steps) :
    ∃ j ≤ i+k, t.Leads j [] (reduce done steps) dst := by
  induction steps generalizing done dirs loc i k with
  | nil =>
      cases h
      exact ⟨i,Nat.le_refl _,hdone.leads⟩
  | cons s rest ih =>
      cases s with
      | up =>
          cases h with
          | up h =>
              cases hdone with
              | root => exact ih .above h hk hr
              | above => exact ih .root h hk hr
              | @name done dirs loc' _ n i j hdone hn =>
                  obtain ⟨hback,hr⟩ := hr
                  rw [hback] at h
                  obtain ⟨m,hm,hl⟩ := ih hdone h hk hr
                  refine ⟨m,by omega,?_⟩
                  rw [reduce]
                  simpa using hl
      | name n =>
          have hsplit : t.Leads k loc ([.name n]++rest) dst := h
          obtain ⟨a,b,mid,rfl,hn,hrest⟩ := hsplit.split
          have hon : t.Retraces links (loc::dirs) mid rest := by
            cases dirs with
            | nil => exact hr a (by omega) mid hn
            | cons dir dirs => exact hr a (by omega) mid hn
          obtain ⟨m,hm,hl⟩ := ih (.name hdone hn) hrest (by omega) hon
          exact ⟨m,by omega,hl⟩

/-- Every link to a directory points to one beside it. -/
def SiblingLinks (t : LinkedTree N) (links : Nat) : Prop :=
  ∀ loc n absolute target, t.entry (loc++[n]) = some (.link absolute target) →
    ∀ k ≤ links, ∀ dst, t.Leads k loc [.name n] dst → dst.dropLast = loc

/-- Each directory of the list is the parent of the one before it. -/
def Nested : List (List N) → List N → Prop
  | [],loc => loc = []
  | dir::dirs,loc => loc.dropLast = dir ∧ Nested dirs dir

theorem retraces_of_siblings (hs : t.SiblingLinks links) (hn : Nested dirs loc)
    (steps : List (PathStep N)) : t.Retraces links dirs loc steps := by
  induction steps generalizing dirs loc with
  | nil => cases dirs <;> trivial
  | cons s rest ih =>
      cases s with
      | up =>
          cases dirs with
          | nil =>
              refine ih ?_
              rw [Nested] at hn ⊢
              rw [hn]
              rfl
          | cons dir dirs => exact ⟨hn.1,ih hn.2⟩
      | name n =>
          have hstep : ∀ k ≤ links, ∀ dst, t.Leads k loc [.name n] dst →
              t.Retraces links (loc::dirs) dst rest := by
            intro k hk dst hd
            refine ih ⟨?_,hn⟩
            cases hd with
            | dir he h =>
                cases h
                exact List.dropLast_concat
            | link he h => exact hs loc n _ _ he _ hk dst (.link he h)
          cases dirs <;> exact hstep

theorem reduce_append (done a b : List (PathStep N)) :
    reduce done (a++b) = reduce (reduce done a) b := by
  induction a generalizing done with
  | nil => rfl
  | cons s a ih => cases s <;> exact ih _

theorem reduce_names (done : List (PathStep N)) (names : List N) :
    reduce done (names.map .name) = done++names.map .name := by
  induction names generalizing done with
  | nil => simp [reduce]
  | cons n names ih =>
      rw [List.map_cons,reduce,ih,List.append_assoc]
      rfl

end Reduce

end LinkedTree
end BackupSync
