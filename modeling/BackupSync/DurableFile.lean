import Mathlib

/-!
# A file replaced by renaming, across power cuts

A file system keeps bytes and directory entries in memory until they are synced. A
slot is one path of a directory: what a running program sees there, what may be found
there after a power cut, and the temporary file that is to be renamed to it. A cut
keeps the content of a file that was synced and may leave anything in one that was
not; of the entries since the directory was last synced it keeps any.

If only synced files are renamed, every content ever found at the path is one that
was written as a whole.
-/
namespace BackupSync.DurableFile

structure FileData (β : Type) where
  content : List β
  synced : Bool
  deriving DecidableEq, Repr

structure Slot (β : Type) where
  seen : Option (FileData β)
  survivors : List (Option (FileData β))
  temp : Option (FileData β)
  deriving DecidableEq, Repr

variable {β : Type}

/-- A file as it is once it is safely on the disk, or none. -/
def onDisk (c : Option (List β)) : Option (FileData β) := c.map (⟨·,true⟩)

theorem onDisk_inj {c c' : Option (List β)} (h : onDisk c = onDisk c') : c = c' := by
  refine Option.map_injective ?_ h
  intro a b hab
  cases hab
  rfl

namespace Slot

def settled (f : Option (FileData β)) : Slot β := ⟨f,[f],none⟩

def create (s : Slot β) : Slot β := {s with temp := some ⟨[],false⟩}

def append (bytes : List β) (s : Slot β) : Slot β :=
  {s with temp := s.temp.map fun t => ⟨t.content++bytes,false⟩}

def syncTemp (s : Slot β) : Slot β := {s with temp := s.temp.map fun t => ⟨t.content,true⟩}

/-- The directory is not synced, so the earlier entries may still survive. -/
def rename (s : Slot β) : Slot β :=
  match s.temp with
  | none => s
  | some t => ⟨some t,some t::s.survivors,none⟩

def syncParent (s : Slot β) : Slot β := {s with survivors := [s.seen]}

def dropTemp (s : Slot β) : Slot β := {s with temp := none}

end Slot

/-- What a power cut may make of a file. -/
inductive Outlives : Option (FileData β) → Option (FileData β) → Prop
  | absent : Outlives none none
  | synced (c : List β) : Outlives (some ⟨c,true⟩) (some ⟨c,true⟩)
  | torn (c c' : List β) : Outlives (some ⟨c,false⟩) (some ⟨c',true⟩)

/-- A power cut and the next start. -/
inductive Cut (s : Slot β) : Slot β → Prop
  | cut {f f' : Option (FileData β)} : f ∈ s.survivors → Outlives f f' → Cut s (.settled f')

/-- What is seen at the path is one of the first contents, and whatever may be found there after
a cut is one of the second; all of it is safely written. -/
structure Holds (now later : Option (List β) → Prop) (s : Slot β) : Prop where
  survives : s.seen ∈ s.survivors
  now : ∃ c, now c ∧ s.seen = onDisk c
  later : ∀ f ∈ s.survivors, ∃ c, later c ∧ f = onDisk c

variable {now later now' later' : Option (List β) → Prop} {s s' : Slot β}

theorem outlives_onDisk {c : Option (List β)} {f : Option (FileData β)}
    (h : Outlives (onDisk c) f) : f = onDisk c := by
  cases c with
  | none =>
      cases h
      rfl
  | some c =>
      cases h
      rfl

theorem holds_of_survivors {c : Option (List β)} (hseen : s.seen = onDisk c)
    (hsurvivors : s.survivors = [s.seen]) (hnow : now c) (hlater : later c) : Holds now later s where
  survives := hsurvivors ▸ List.mem_singleton_self _
  now := ⟨c,hnow,hseen⟩
  later f hf := by
    rw [hsurvivors] at hf
    exact ⟨c,hlater,(List.mem_singleton.mp hf).trans hseen⟩

theorem Holds.mono (h : Holds now later s) (hnow : ∀ c, now c → now' c)
    (hlater : ∀ c, later c → later' c) : Holds now' later' s where
  survives := h.survives
  now := by
    obtain ⟨c,hc,hseen⟩ := h.now
    exact ⟨c,hnow c hc,hseen⟩
  later f hf := by
    obtain ⟨c,hc,rfl⟩ := h.later f hf
    exact ⟨c,hlater c hc,rfl⟩

/-- What is seen is one of the things that may be found after a cut. -/
theorem Holds.forget (h : Holds now later s) : Holds later later s :=
  ⟨h.survives,h.later _ h.survives,h.later⟩

theorem Holds.create (h : Holds now later s) : Holds now later s.create :=
  ⟨h.survives,h.now,h.later⟩

theorem Holds.append (h : Holds now later s) (bytes : List β) : Holds now later (s.append bytes) :=
  ⟨h.survives,h.now,h.later⟩

theorem Holds.syncTemp (h : Holds now later s) : Holds now later s.syncTemp :=
  ⟨h.survives,h.now,h.later⟩

theorem Holds.dropTemp (h : Holds now later s) : Holds now later s.dropTemp :=
  ⟨h.survives,h.now,h.later⟩

theorem Holds.rename {c : List β} (h : Holds now later s) (ht : s.temp = some ⟨c,true⟩)
    (hnow : now (some c)) (hlater : later (some c)) : Holds now later s.rename := by
  unfold Slot.rename
  rw [ht]
  refine ⟨List.mem_cons_self,⟨some c,hnow,rfl⟩,?_⟩
  intro f hf
  rcases List.mem_cons.mp hf with rfl | hf
  · exact ⟨some c,hlater,rfl⟩
  · exact h.later f hf

theorem seen_rename {t : FileData β} (ht : s.temp = some t) : s.rename.seen = some t := by
  unfold Slot.rename
  rw [ht]

/-- Once the directory is synced nothing but the file that is seen is left. -/
theorem Holds.syncParent (h : Holds now later s) : Holds now later s.syncParent where
  survives := List.mem_singleton_self _
  now := h.now
  later f hf := by
    rw [List.mem_singleton.mp hf]
    exact h.later _ h.survives

theorem Holds.cut (h : Holds now later s) (hcut : Cut s s') : Holds later later s' := by
  obtain ⟨hf,hout⟩ := hcut
  obtain ⟨c,hc,rfl⟩ := h.later _ hf
  exact holds_of_survivors (outlives_onDisk hout) rfl hc hc

end BackupSync.DurableFile
