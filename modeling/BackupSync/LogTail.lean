import BackupSync.ContentHash
import BackupSync.LossyText

/-!
# The end of the log

The log is read backwards in chunks until enough line feeds were seen, and only
what was read is decoded. One line feed more than the lines asked for is needed:
the text before the first of them, which may start in the middle of a line or of
a character, is then never among the lines that are kept.
-/
namespace BackupSync
open LossyText

namespace LogTail

def tailLines (data : Str) (maxLines : Nat) : Str :=
  if maxLines = 0 then []
  else ['\n'].intercalate (lastOf maxLines (lines data))

section Reading
variable (file : Bytes) (maxLines readChunkBytes maxBytes : Nat)

/-- The chunks read so far, the last of the file first. -/
def readChunks (pos newlineCount total : Nat) (chunks : List Bytes) : List Bytes :=
  if 0 < pos ∧ newlineCount ≤ maxLines ∧ total < maxBytes then
    let take := min (max readChunkBytes 1) pos
    let buf := (file.drop (pos-take)).take take
    readChunks (pos-take) (newlineCount+buf.count 0x0A) (total+buf.length) (chunks++[buf])
  else chunks
termination_by pos
decreasing_by omega

def readTailFromFile : Str :=
  if maxLines = 0 then []
  else
    let chunks := readChunks file maxLines readChunkBytes maxBytes file.length 0 0 []
    tailLines (decodeLossy chunks.reverse.flatten) maxLines

end Reading

section Tail
variable {file : Bytes} {maxLines readChunkBytes maxBytes : Nat}

theorem chunk_append {pos take : Nat} (htake : take ≤ pos) :
    (file.drop (pos-take)).take take++file.drop pos = file.drop (pos-take) := by
  have hrest : file.drop pos = (file.drop (pos-take)).drop take := by
    rw [List.drop_drop,Nat.sub_add_cancel htake]
  rw [hrest,List.take_append_drop]

/-- The chunks are a suffix of the file that is the whole of it or has line feeds enough. -/
theorem readChunks_suffix (hmax : file.length ≤ maxBytes) {pos newlineCount total : Nat}
    {chunks : List Bytes} (hpos : pos ≤ file.length) (hchunks : chunks.reverse.flatten = file.drop pos)
    (hcount : newlineCount = (file.drop pos).count 0x0A) (htotal : total = file.length-pos) :
    ∃ front, front++(readChunks file maxLines readChunkBytes maxBytes pos newlineCount total
        chunks).reverse.flatten = file ∧
      (front = [] ∨ maxLines < (readChunks file maxLines readChunkBytes maxBytes pos newlineCount
        total chunks).reverse.flatten.count 0x0A) := by
  induction pos using Nat.strong_induction_on generalizing newlineCount total chunks with
  | h pos ih =>
      rw [readChunks]
      split
      · rename_i hmore
        dsimp only
        have htake : min (max readChunkBytes 1) pos ≤ pos := Nat.min_le_right _ _
        have hchunk := @chunk_append file pos _ htake
        apply ih
        · omega
        · omega
        · simp [hchunks,hchunk]
        · have hfeeds := congrArg (List.count 0x0A) hchunk
          rw [List.count_append] at hfeeds
          omega
        · have hlength := congrArg List.length hchunk
          simp only [List.length_append,List.length_drop] at hlength
          omega
      · rename_i hdone
        refine ⟨file.take pos,?_,?_⟩
        · rw [hchunks,List.take_append_drop]
        · by_cases hzero : pos = 0
          · left
            rw [hzero,List.take_zero]
          · right
            rw [hchunks,← hcount]
            omega

/-- With more line feeds than lines are asked for, what comes before does not matter. -/
theorem tailLines_decodeLossy {front back : Bytes} (h : maxLines < back.count 0x0A) :
    tailLines (decodeLossy (front++back)) maxLines = tailLines (decodeLossy back) maxLines := by
  have hmem : (0x0A : UInt8) ∈ back := List.count_pos_iff.mp (by omega)
  obtain ⟨begun,rest,rfl,hbegun⟩ := List.eq_append_cons_of_mem hmem
  have hbefore : begun.count 0x0A = 0 := List.count_eq_zero_of_not_mem hbegun
  have hlines : maxLines ≤ (lines (decodeLossy rest)).length := by
    have hcount := count_le_count_decodeLossy rest
    have hlength := count_le_length_lines (decodeLossy rest)
    simp only [List.count_append,List.count_cons_self] at h
    omega
  have hfeed : ∀ before : Bytes, ∃ first,
      lines (decodeLossy (before++0x0A::rest)) = first++lines (decodeLossy rest) := by
    intro before
    rw [decodeLossy_append (by decide)]
    exact lines_append _ _
  obtain ⟨first,hfirst⟩ := hfeed begun
  obtain ⟨longer,hlonger⟩ := hfeed (front++begun)
  unfold tailLines
  rw [← List.append_assoc,hfirst,hlonger,lastOf_append hlines,lastOf_append hlines]

theorem tailLines_readChunks (hmax : file.length ≤ maxBytes) :
    tailLines (decodeLossy (readChunks file maxLines readChunkBytes maxBytes file.length 0 0
      []).reverse.flatten) maxLines = tailLines (decodeLossy file) maxLines := by
  obtain ⟨front,hfile,hcases⟩ := @readChunks_suffix file maxLines readChunkBytes maxBytes hmax
    file.length 0 0 [] le_rfl (by simp) (by simp) (by simp)
  rcases hcases with rfl | hfeeds
  · rw [List.nil_append] at hfile
    rw [hfile]
  · conv_rhs => rw [← hfile]
    exact (tailLines_decodeLossy hfeeds).symm

/-- No lines are asked for in either way of reading. -/
theorem readTailFromFile_def : readTailFromFile file maxLines readChunkBytes maxBytes =
    tailLines (decodeLossy (readChunks file maxLines readChunkBytes maxBytes file.length 0 0
      []).reverse.flatten) maxLines := by
  unfold readTailFromFile
  by_cases hzero : maxLines = 0
  · rw [if_pos hzero,tailLines,if_pos hzero]
  · rw [if_neg hzero]

/-- Reading backwards gives the last lines of the whole file. -/
theorem readTailFromFile_eq (file : Bytes) (maxLines readChunkBytes maxBytes : Nat)
    (hmax : file.length ≤ maxBytes) :
    readTailFromFile file maxLines readChunkBytes maxBytes =
      tailLines (decodeLossy file) maxLines := by
  rw [readTailFromFile_def,tailLines_readChunks hmax]

/-- The end of a log that was cut in the middle of a character. -/
theorem readTailFromFile_eq_cut :
    readTailFromFile [0xE2,0x82,0xAC,0x0A,0x61,0x0D,0x0A,0x62] 1 2 8 =
      tailLines (decodeLossy [0xE2,0x82,0xAC,0x0A,0x61,0x0D,0x0A,0x62]) 1 :=
  readTailFromFile_eq _ 1 2 8 (by decide)

end Tail

end LogTail
end BackupSync
