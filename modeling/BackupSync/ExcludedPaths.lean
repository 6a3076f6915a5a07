import BackupSync.SafetyMachine

/-!
# Excluded paths

A watched directory is given as the tree its walk goes through, with what could
not be read in the place where the walk finds out: a directory that cannot be
opened, a listing that breaks off at an entry, an entry of unknown type. The walk
yields the items in listing order and descends into every directory; exclusion is
tested afterwards, one item at a time, and walk errors are recorded without it.

Two states that differ only at excluded paths have the same visible part. What an
excluded path holds then leaves the scan alone, except for what cannot be read
there: the scan of a state agrees with the scan of its visible part exactly when
no read fails at an excluded path.
-/
namespace BackupSync.ExcludedPaths
open RelativePath ContentHash ScanSnapshot SafetyBaseline

/-- What a directory listing yields, in its order. -/
inductive Listing where
  | nil
  /-- The directory cannot be opened. -/
  | denied (message : Str)
  /-- The listing fails at one entry, without a name. -/
  | broken (message : Str) (rest : Listing)
  /-- The type of an entry cannot be read. -/
  | unknown (name message : Str) (rest : Listing)
  | file (name : Str) (read : FileRead) (rest : Listing)
  | other (name : Str) (rest : Listing)
  | directory (name : Str) (inside rest : Listing)

namespace Listing

/-- The items of the walk below a directory. -/
def items (path : List Str) : Listing → List WalkItem
  | nil => []
  | denied message => [.error (some path) message]
  | broken message rest => .error none message::rest.items path
  | unknown name message rest => .error (some (path++[name])) message::rest.items path
  | file name read rest => .file (path++[name]) read::rest.items path
  | other name rest => .other (path++[name])::rest.items path
  | directory name inside rest =>
      .dir (path++[name])::(inside.items (path++[name])++rest.items path)

/-- The places where a read of the walk fails. -/
def faults (path : List Str) : Listing → List (List Str)
  | nil => []
  | denied _ => [path]
  | broken _ rest => path::rest.faults path
  | unknown name _ rest => (path++[name])::rest.faults path
  | file _ _ rest => rest.faults path
  | other _ rest => rest.faults path
  | directory name inside rest => inside.faults (path++[name])++rest.faults path

/-- The tree without the hidden paths and all that is below them. -/
def visible (hides : List Str → Bool) (path : List Str) : Listing → Listing
  | nil => nil
  | denied message => denied message
  | broken message rest => broken message (rest.visible hides path)
  | unknown name message rest =>
      if hides (path++[name]) then rest.visible hides path
      else unknown name message (rest.visible hides path)
  | file name read rest =>
      if hides (path++[name]) then rest.visible hides path
      else file name read (rest.visible hides path)
  | other name rest =>
      if hides (path++[name]) then rest.visible hides path
      else other name (rest.visible hides path)
  | directory name inside rest =>
      if hides (path++[name]) then rest.visible hides path
      else directory name (inside.visible hides (path++[name])) (rest.visible hides path)

/-- The places at or below hidden paths where a read of the walk fails. -/
def hiddenFaults (hides : List Str → Bool) (path : List Str) : Listing → List (List Str)
  | nil => []
  | denied _ => []
  | broken _ rest => rest.hiddenFaults hides path
  | unknown name _ rest =>
      if hides (path++[name]) then (path++[name])::rest.hiddenFaults hides path
      else rest.hiddenFaults hides path
  | file _ _ rest => rest.hiddenFaults hides path
  | other _ rest => rest.hiddenFaults hides path
  | directory name inside rest =>
      (if hides (path++[name]) then inside.faults (path++[name])
        else inside.hiddenFaults hides (path++[name]))++rest.hiddenFaults hides path

/-- The whole walk: the scan root first. -/
def walk (l : Listing) : List WalkItem := .dir []::l.items []

end Listing

/-- A path excluded by skip_hidden, or by a pattern that matches it and all that is below. -/
def Excluded (opts : ScanOptions) (ignore : List Str → Bool) (names : List Str) : Prop :=
  (opts.skipHidden = true ∧ isHidden names = true) ∨ ∀ below, ignore (names++below) = true

section Walk
variable {sha : Sha256} {opts : ScanOptions} {ignore : List Str → Bool} {prev : Option Manifest}
  {hides : List Str → Bool}

variable {names : List Str}

/-- Everything at or below an excluded path is skipped. -/
theorem skipped_of_excluded (h : Excluded opts ignore names) (below : List Str) :
    skipped opts ignore (names++below) = true := by
  unfold skipped
  rcases h with ⟨hs,hh⟩ | h
  · have hbelow : isHidden (names++below) = true := by
      unfold isHidden at hh ⊢
      rw [List.any_append,hh,Bool.true_or]
    simp [hs,hbelow]
  · simp [h below]

theorem Excluded.skipped (h : Excluded opts ignore names) :
    ScanSnapshot.skipped opts ignore names = true := by
  have hs := skipped_of_excluded h []
  rwa [List.append_nil] at hs

theorem Excluded.append (h : Excluded opts ignore names) (below : List Str) :
    Excluded opts ignore (names++below) := by
  rcases h with ⟨hs,hh⟩ | h
  · refine .inl ⟨hs,?_⟩
    unfold isHidden at hh ⊢
    rw [List.any_append,hh,Bool.true_or]
  · refine .inr fun more => ?_
    rw [List.append_assoc]
    exact h _

variable {path : List Str}

/-- The walk below an excluded directory changes nothing where no read of it fails. -/
theorem foldl_excluded (l : Listing) (hex : Excluded opts ignore path)
    (hfaults : l.faults path = []) (st : ScanState) :
    (l.items path).foldl (scanItem sha opts ignore prev) st = st := by
  induction l generalizing path st with
  | nil => rfl
  | denied message => simp [Listing.faults] at hfaults
  | broken message rest ih => simp [Listing.faults] at hfaults
  | unknown name message rest ih => simp [Listing.faults] at hfaults
  | file name read rest ih =>
      have hitem : scanItem sha opts ignore prev st (.file (path++[name]) read) = st :=
        if_pos (hex.append [name]).skipped
      rw [Listing.items,List.foldl_cons,hitem]
      exact ih hex hfaults st
  | other name rest ih => exact ih hex hfaults st
  | directory name inside rest ihi ihr =>
      have hitem : scanItem sha opts ignore prev st (.dir (path++[name])) = st :=
        if_pos (hex.append [name]).skipped
      rw [Listing.faults,List.append_eq_nil_iff] at hfaults
      rw [Listing.items,List.foldl_cons,hitem,List.foldl_append,
        ihi (hex.append [name]) hfaults.1 st]
      exact ihr hex hfaults.2 st

/-- Without failing reads at hidden paths the walk and its visible part do the same. -/
theorem foldl_visible (hex : ∀ names, hides names = true → Excluded opts ignore names) (l : Listing)
    (hquiet : l.hiddenFaults hides path = []) (st : ScanState) :
    (l.items path).foldl (scanItem sha opts ignore prev) st =
      ((l.visible hides path).items path).foldl (scanItem sha opts ignore prev) st := by
  induction l generalizing path st with
  | nil => rfl
  | denied message => rfl
  | broken message rest ih => exact ih hquiet _
  | unknown name message rest ih =>
      rw [Listing.hiddenFaults] at hquiet
      by_cases hh : hides (path++[name]) = true
      · simp [hh] at hquiet
      · rw [if_neg hh] at hquiet
        rw [Listing.visible,if_neg hh]
        exact ih hquiet _
  | file name read rest ih =>
      rw [Listing.visible]
      by_cases hh : hides (path++[name]) = true
      · have hitem : scanItem sha opts ignore prev st (.file (path++[name]) read) = st :=
          if_pos (hex _ hh).skipped
        rw [if_pos hh,Listing.items,List.foldl_cons,hitem]
        exact ih hquiet st
      · rw [if_neg hh]
        exact ih hquiet _
  | other name rest ih =>
      rw [Listing.visible]
      by_cases hh : hides (path++[name]) = true
      · rw [if_pos hh]
        exact ih hquiet st
      · rw [if_neg hh]
        exact ih hquiet st
  | directory name inside rest ihi ihr =>
      rw [Listing.hiddenFaults,List.append_eq_nil_iff] at hquiet
      rw [Listing.visible]
      by_cases hh : hides (path++[name]) = true
      · have hitem : scanItem sha opts ignore prev st (.dir (path++[name])) = st :=
          if_pos (hex _ hh).skipped
        rw [if_pos hh] at hquiet
        rw [if_pos hh,Listing.items,List.foldl_cons,hitem,List.foldl_append,
          foldl_excluded inside (hex _ hh) hquiet.1 st]
        exact ihr hquiet.2 st
      · rw [if_neg hh] at hquiet
        rw [if_neg hh,Listing.items,Listing.items,List.foldl_cons,List.foldl_cons,
          List.foldl_append,List.foldl_append,ihi hquiet.1]
        exact ihr hquiet.2 _

variable (sha opts ignore prev) in
/-- Whether an item is recorded as a read failure. -/
def recorded : WalkItem → Bool
  | .error _ _ => true
  | .file names read =>
      !skipped opts ignore names && !(scanOneFile sha (normalizeRel names) read prev).isOk
  | _ => false

theorem length_readFailures_scanItem (st : ScanState) (item : WalkItem) :
    (scanItem sha opts ignore prev st item).readFailures.length =
      st.readFailures.length+(recorded sha opts ignore prev item).toNat := by
  cases item with
  | error path message => simp [scanItem,recorded]
  | dir names =>
      rw [scanItem]
      split <;> simp [recorded]
  | file names read =>
      rw [scanItem,recorded]
      cases hs : skipped opts ignore names with
      | true => simp
      | false =>
          rw [if_neg Bool.false_ne_true,scanFile]
          cases hf : scanOneFile sha (normalizeRel names) read prev with
          | ok entry => simp [Except.isOk,Except.toBool]
          | error message =>
              dsimp only
              split <;> simp [Except.isOk,Except.toBool]
  | other names => simp [scanItem,recorded]

theorem length_readFailures_foldl (walk : List WalkItem) (st : ScanState) :
    (walk.foldl (scanItem sha opts ignore prev) st).readFailures.length =
      st.readFailures.length+walk.countP (recorded sha opts ignore prev) := by
  induction walk generalizing st with
  | nil => simp
  | cons item walk ih =>
      rw [List.foldl_cons,ih,length_readFailures_scanItem,List.countP_cons,Nat.add_assoc]
      cases recorded sha opts ignore prev item with
      | true => simp [Nat.add_comm]
      | false => simp

/-- Below an excluded directory the failing reads of the walk are recorded, and nothing else. -/
theorem countP_excluded (l : Listing) (hex : Excluded opts ignore path) :
    (l.items path).countP (recorded sha opts ignore prev) = (l.faults path).length := by
  induction l generalizing path with
  | nil => rfl
  | denied message => rfl
  | broken message rest ih =>
      simp [Listing.items,Listing.faults,List.countP_cons,recorded,ih hex]
  | unknown name message rest ih =>
      simp [Listing.items,Listing.faults,List.countP_cons,recorded,ih hex]
  | file name read rest ih =>
      simp [Listing.items,Listing.faults,recorded,ih hex,(hex.append [name]).skipped]
  | other name rest ih => simp [Listing.items,Listing.faults,recorded,ih hex]
  | directory name inside rest ihi ihr =>
      simp [Listing.items,Listing.faults,recorded,ihi (hex.append [name]),ihr hex]

/-- The failures of a scan are those of its visible part and the hidden ones. -/
theorem countP_visible (hex : ∀ names, hides names = true → Excluded opts ignore names)
    (l : Listing) (path : List Str) :
    (l.items path).countP (recorded sha opts ignore prev) =
      ((l.visible hides path).items path).countP (recorded sha opts ignore prev)+
        (l.hiddenFaults hides path).length := by
  induction l generalizing path with
  | nil => rfl
  | denied message => rfl
  | broken message rest ih =>
      simp only [Listing.items,Listing.visible,Listing.hiddenFaults,List.countP_cons,ih path]
      omega
  | unknown name message rest ih =>
      rw [Listing.items,Listing.visible,Listing.hiddenFaults,List.countP_cons,ih path]
      by_cases hh : hides (path++[name]) = true
      · rw [if_pos hh,if_pos hh,List.length_cons]
        simp only [recorded,if_true]
        omega
      · rw [if_neg hh,if_neg hh,Listing.items,List.countP_cons]
        omega
  | file name read rest ih =>
      rw [Listing.items,Listing.visible,Listing.hiddenFaults,List.countP_cons,ih path]
      by_cases hh : hides (path++[name]) = true
      · simp [hh,recorded,(hex _ hh).skipped]
      · rw [if_neg hh,Listing.items,List.countP_cons]
        omega
  | other name rest ih =>
      rw [Listing.items,Listing.visible,Listing.hiddenFaults,List.countP_cons,ih path]
      by_cases hh : hides (path++[name]) = true
      · simp [hh,recorded]
      · rw [if_neg hh,Listing.items,List.countP_cons]
        omega
  | directory name inside rest ihi ihr =>
      rw [Listing.items,Listing.visible,Listing.hiddenFaults,List.countP_cons,List.countP_append,
        List.length_append,ihr path]
      by_cases hh : hides (path++[name]) = true
      · rw [if_pos hh,if_pos hh,countP_excluded inside (hex _ hh)]
        simp only [recorded,Bool.false_eq_true,if_false]
        omega
      · rw [if_neg hh,if_neg hh,Listing.items,List.countP_cons,List.countP_append,
          ihi (path++[name])]
        omega

end Walk

variable (sha : Sha256) (opts : ScanOptions) (watched : WatchedPath) (prev : Option Manifest)

/-- The entries and read failures a scan of the directory returns. -/
def scanned (now : Int) (single : FileRead) (l : Listing) :
    Except Str (Entries × List ReadFailure) :=
  (scanSnapshot sha opts watched ⟨l.walk,single⟩ prev now).map fun m => (m.entries,m.readFailures)

variable {sha opts watched prev} {ignore : List Str → Bool} {hides : List Str → Bool}

theorem scanned_eq (hk : watched.kind = .directory) (hi : opts.ignoreSet = .ok ignore) (now : Int)
    (single : FileRead) (l : Listing) :
    scanned sha opts watched prev now single l =
      .ok (((l.items []).foldl (scanItem sha opts ignore prev) ⟨∅,[]⟩).entries,
        ((l.items []).foldl (scanItem sha opts ignore prev) ⟨∅,[]⟩).readFailures) := by
  unfold scanned scanSnapshot
  rw [hi,hk]
  rfl

theorem scanned_visible (hk : watched.kind = .directory) (hi : opts.ignoreSet = .ok ignore)
    (hex : ∀ names, hides names = true → Excluded opts ignore names) {l : Listing}
    (hquiet : l.hiddenFaults hides [] = []) (now now' : Int) (single single' : FileRead) :
    scanned sha opts watched prev now single l =
      scanned sha opts watched prev now' single' (l.visible hides []) := by
  rw [scanned_eq hk hi,scanned_eq hk hi,foldl_visible hex l hquiet]

theorem visible_visible (l : Listing) (path : List Str) :
    (l.visible hides path).visible hides path = l.visible hides path ∧
      (l.visible hides path).hiddenFaults hides path = [] := by
  induction l generalizing path with
  | nil => exact ⟨rfl,rfl⟩
  | denied message => exact ⟨rfl,rfl⟩
  | broken message rest ih => simp [Listing.visible,Listing.hiddenFaults,ih path]
  | unknown name message rest ih | file name read rest ih | other name rest ih =>
      by_cases hh : hides (path++[name]) = true
      · simpa [Listing.visible,hh] using ih path
      · simp [Listing.visible,Listing.hiddenFaults,hh,ih path]
  | directory name inside rest ihi ihr =>
      by_cases hh : hides (path++[name]) = true
      · simpa [Listing.visible,hh] using ihr path
      · simp [Listing.visible,Listing.hiddenFaults,hh,ihi (path++[name]),ihr path]

/-- The scan of a state agrees with that of every state that differs from it only at excluded
paths and has no failing read there, exactly when it has none itself. -/
theorem excluded_paths_silent_iff (hk : watched.kind = .directory)
    (hi : opts.ignoreSet = .ok ignore)
    (hex : ∀ names, hides names = true → Excluded opts ignore names) (l : Listing) :
    (∀ l' : Listing, l'.visible hides [] = l.visible hides [] → l'.hiddenFaults hides [] = [] →
      ∀ now now' single single',
        scanned sha opts watched prev now single l = scanned sha opts watched prev now' single' l') ↔
      l.hiddenFaults hides [] = [] := by
  constructor
  · intro h
    have hsame : (l.visible hides []).visible hides [] = l.visible hides [] :=
      (visible_visible l []).1
    have hquiet : (l.visible hides []).hiddenFaults hides [] = [] := (visible_visible l []).2
    have hagree := h (l.visible hides []) hsame hquiet 0 0 ⟨.error [],.error []⟩ ⟨.error [],.error []⟩
    rw [scanned_eq hk hi,scanned_eq hk hi,Except.ok.injEq,Prod.mk.injEq] at hagree
    have hlen := congrArg List.length hagree.2
    rw [length_readFailures_foldl,length_readFailures_foldl,countP_visible hex l []] at hlen
    exact List.length_eq_zero_iff.mp (by omega)
  · intro hquiet l' hsame hquiet' now now' single single'
    rw [scanned_visible hk hi hex hquiet now now' single single',← hsame,
      ← scanned_visible hk hi hex hquiet' now' now' single' single']

section Cache
open BackupFolder StoreInvariant StoreCompleteness SafetyScans SafetyMachine Interruptible

/-- The options of a job that skips hidden paths. -/
def hiddenSkipped : ScanOptions := ⟨true,.ok fun _ => false,2⟩

theorem excluded_hidden (names : List Str) (h : isHidden names = true) :
    Excluded hiddenSkipped (fun _ => false) names := .inl ⟨rfl,h⟩

/-- One file. -/
def noteLeft : Listing := .file "a".toList ⟨.ok ⟨2,some (7,0)⟩,.ok (ascii "hi")⟩ .nil

/-- The same file beside a hidden directory that can be read. -/
def cacheBeside : Listing :=
  .directory ".cache".toList (.file "b".toList ⟨.ok ⟨2,some (7,0)⟩,.ok (ascii "ho")⟩ .nil) noteLeft

/-- The same file beside a hidden directory that cannot be opened. -/
def cacheDenied : Listing := .directory ".cache".toList (.denied "permission denied".toList) noteLeft

def noonEnv (l : Listing) : BackupEnv :=
  {filesEnv [("a","hi")] 1767355200 noon with source := ⟨l.walk,⟨.error [],.error []⟩⟩}

/-- A readable hidden directory leaves the scan as it is. -/
theorem excluded_paths_silent_iff_cache :
    cacheBeside.hiddenFaults isHidden [] = [] ∧
      scanned notesSha hiddenSkipped notesJob.watched none 10 ⟨.error [],.error []⟩ cacheBeside =
        scanned notesSha hiddenSkipped notesJob.watched none 20 ⟨.error [],.error []⟩ noteLeft :=
  ⟨by decide,(excluded_paths_silent_iff rfl rfl excluded_hidden cacheBeside).mpr (by decide)
    noteLeft rfl (by decide) 10 20 _ _⟩

def skippingJob (threshold : ℚ) : FolderJob :=
  {notesJob with threshold := threshold, scan := hiddenSkipped}

/-- The store after one of two files is gone at noon. -/
def noonStore (threshold : ℚ) (l : Listing) : Store PlainText :=
  ((StoreCall.backup (skippingJob threshold) (noonEnv l)).run notesSha .transparent
    (lossStore 1)).store

/-- The unreadable hidden directory is recorded as a read failure. The loss of one of two files
is then not warned about, and the version of the morning is not pruned. -/
theorem denied_hidden_directory_recorded :
    cacheDenied.visible isHidden [] = noteLeft.visible isHidden [] ∧
    noteLeft.hiddenFaults isHidden [] = [] ∧
    cacheDenied.hiddenFaults isHidden [] = [[".cache".toList]] ∧
    scanned notesSha hiddenSkipped notesJob.watched none 10 ⟨.error [],.error []⟩ cacheDenied ≠
      scanned notesSha hiddenSkipped notesJob.watched none 10 ⟨.error [],.error []⟩ noteLeft ∧
    Returns (backupOneFolder notesSha .transparent (skippingJob (1/2)) (noonEnv noteLeft))
      (lossStore 1) ⟨true,some noon.text,0,0,some ⟨1767355200,warningText 50,
        some "/home/notes".toList,some morning.text⟩⟩ (noonStore (1/2) noteLeft) ∧
    Returns (backupOneFolder notesSha .transparent (skippingJob (1/2)) (noonEnv cacheDenied))
      (lossStore 1) ⟨true,some noon.text,0,0,none⟩ (noonStore (1/2) cacheDenied) ∧
    Stored (noonStore 0 noteLeft) notesId
      ⟨1,"/home/notes".toList,[⟨noon.text,1767355200⟩],none,none,none⟩ ∧
    Stored (noonStore 0 cacheDenied) notesId
      ⟨1,"/home/notes".toList,[⟨morning.text,1767323045⟩,⟨noon.text,1767355200⟩],none,none,none⟩ := by
  refine ⟨rfl,rfl,rfl,?_,⟨by decide +kernel,rfl⟩,⟨by decide +kernel,rfl⟩,
    ⟨.index _,by decide +kernel,rfl⟩,⟨.index _,by decide +kernel,rfl⟩⟩
  intro h
  rw [scanned_eq rfl rfl,scanned_eq rfl rfl,Except.ok.injEq,Prod.mk.injEq] at h
  have hlen := congrArg List.length h.2
  rw [length_readFailures_foldl,length_readFailures_foldl] at hlen
  revert hlen
  decide +kernel

end Cache

end BackupSync.ExcludedPaths
