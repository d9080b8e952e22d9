import StackCalc.Proofs.Decoding

/-! A listing covers the code. Whatever the bytes are, the walk goes on by at least one of them and
lands on the end, so that each byte belongs to one of the instructions that are listed. Of a
compiled chunk, all of them make sense. -/

namespace StackCalc

namespace Chunk

variable {chunk : Chunk} {offset : Nat}

private theorem lt_nextOffset (chunk : Chunk) (offset : Nat) :
    offset < chunk.nextOffset offset := by
  unfold nextOffset
  omega

private theorem nextOffset_le (inside : offset < chunk.code.size) :
    chunk.nextOffset offset ≤ chunk.code.size := by
  rw [nextOffset_of_lt inside]
  exact chunk.add_width_fetch_le offset (Nat.le_of_lt inside)

/-- Where one instruction ends the next one begins, and the last ends with the code. -/
theorem cons_map_nextOffset (chunk : Chunk) (offset : Nat) (within : offset ≤ chunk.code.size) :
    offset :: (chunk.offsetsFrom offset).map chunk.nextOffset =
      chunk.offsetsFrom offset ++ [chunk.code.size] := by
  induction offset using chunk.walk_induction with
  | done offset outside =>
    rw [offsetsFrom_of_le outside, Nat.le_antisymm within outside]
    rfl
  | next offset inside ih =>
    rw [← nextOffset_of_lt inside] at ih
    rw [offsetsFrom_of_lt inside, List.map_cons, ih (nextOffset_le inside), List.cons_append]

private theorem bounds_of_mem (chunk : Chunk) (offset : Nat) :
    ∀ place ∈ chunk.offsetsFrom offset, offset ≤ place ∧ place < chunk.code.size := by
  induction offset using chunk.walk_induction with
  | done offset outside =>
    rw [offsetsFrom_of_le outside]
    exact List.forall_mem_nil _
  | next offset inside ih =>
    refine (forall_mem_offsetsFrom inside).mpr ⟨⟨Nat.le_refl _, inside⟩, ?_⟩
    intro place member
    obtain ⟨behind, below⟩ := ih place member
    exact ⟨Nat.le_trans (Nat.le_add_right _ _) behind, below⟩

private theorem pairwise_offsetsFrom (chunk : Chunk) (offset : Nat) :
    (chunk.offsetsFrom offset).Pairwise (· < ·) := by
  induction offset using chunk.walk_induction with
  | done offset outside =>
    rw [offsetsFrom_of_le outside]
    exact .nil
  | next offset inside ih =>
    rw [offsetsFrom_of_lt inside]
    rw [← nextOffset_of_lt inside] at ih
    refine .cons ?_ ih
    intro place member
    exact Nat.lt_of_lt_of_le (chunk.lt_nextOffset offset) (chunk.bounds_of_mem _ place member).1

/-- A byte from an offset on is in the instruction there, or else in one of those behind it. -/
theorem existsUnique_offset {place : Nat} (behind : offset ≤ place)
    (below : place < chunk.code.size) :
    ∃! start, start ∈ chunk.offsetsFrom offset ∧ start ≤ place ∧ place < chunk.nextOffset start := by
  induction offset using chunk.walk_induction with
  | done offset outside => exact absurd (Nat.lt_of_lt_of_le below outside) (Nat.not_lt.mpr behind)
  | next offset inside ih =>
    rw [← nextOffset_of_lt inside] at ih
    rw [offsetsFrom_of_lt inside]
    -- All later instructions begin where this one ends, so none of them shares a byte with it.
    by_cases own : place < chunk.nextOffset offset
    · refine ⟨offset, ⟨List.mem_cons_self, behind, own⟩, ?_⟩
      rintro start ⟨member, before, -⟩
      rcases List.mem_cons.mp member with same | later
      · exact same
      · have late := (chunk.bounds_of_mem _ start later).1
        exact absurd (Nat.lt_of_lt_of_le own late) (Nat.not_lt.mpr before)
    · obtain ⟨start, ⟨member, around⟩, unique⟩ := ih (Nat.le_of_not_lt own)
      refine ⟨start, ⟨.tail _ member, around⟩, ?_⟩
      rintro other ⟨first | ⟨_, later⟩, holds⟩
      · exact absurd holds.2 own
      · exact unique other ⟨later, holds⟩

/-- The bytes of the instructions make up the code. -/
theorem flatMap_bytes (chunk : Chunk) (offset : Nat) :
    (chunk.offsetsFrom offset).flatMap (fun place => (chunk.fetch place).bytes) =
      chunk.code.toList.drop offset := by
  induction offset using chunk.walk_induction with
  | done offset outside =>
    rw [offsetsFrom_of_le outside, List.drop_eq_nil_of_le (by simpa using outside)]
    rfl
  | next offset inside ih =>
    rw [← nextOffset_of_lt inside] at ih
    rw [offsetsFrom_of_lt inside, List.flatMap_cons, ih, chunk.drop_code offset,
      nextOffset_of_lt inside]

/-- What is listed there is an instruction, with its operand and with the constant it loads. -/
def Sensible (chunk : Chunk) (offset : Nat) : Prop :=
  (∀ byte, chunk.fetch offset ≠ .unknown byte) ∧ chunk.fetch offset ≠ .truncated ∧
    ∀ index, chunk.fetch offset = .instruction (.constant index) →
      ∃ value, chunk.constant? index = some value

private theorem WellFormed.sensible (formed : chunk.WellFormed offset) :
    ∀ place ∈ chunk.offsetsFrom offset, chunk.Sensible place := by
  refine formed.forall_mem ?_ ?_
  · intro place operation fetched
    simp [Sensible, fetched]
  · intro place index fetched present _
    simpa [Sensible, fetched] using ⟨_, Array.getElem?_eq_getElem present⟩

end Chunk

/-- Whatever the bytes of a chunk are, the first instruction is listed at its beginning, each of
the others where the one before it ends, and the last ends where the code does. So each byte is
in one of the instructions, and there is one line for each of these. In a chunk that a source was
compiled to, with errors or without, none of them is broken or unknown. -/
theorem listing_covers_code :
    (∀ chunk : Chunk,
      let offsets := chunk.instructionOffsets
      0 :: offsets.map chunk.nextOffset = offsets ++ [chunk.code.size] ∧
      (offsets ++ [chunk.code.size]).Pairwise (· < ·) ∧
      (∀ place < chunk.code.size,
        ∃! offset, offset ∈ offsets ∧ offset ≤ place ∧ place < chunk.nextOffset offset) ∧
      offsets.flatMap (fun offset => (chunk.fetch offset).bytes) = chunk.code.toList ∧
      (∀ name, chunk.listing name = "== " ++ name ++ " ==\n" ++
        String.join (offsets.map fun offset => chunk.instructionText offset ++ "\n")) ∧
      ∀ offset ∈ offsets, SingleLine (chunk.instructionText offset)) ∧
    ∀ config source,
      let chunk := (compile config source .empty).chunk
      ∀ offset ∈ chunk.instructionOffsets, chunk.Sensible offset := by
  constructor
  · intro chunk offsets
    refine ⟨chunk.cons_map_nextOffset 0 (Nat.zero_le _), ?_, ?_, chunk.flatMap_bytes 0, ?_, ?_⟩
    · refine List.pairwise_append.mpr
        ⟨chunk.pairwise_offsetsFrom 0, List.pairwise_singleton _ _, ?_⟩
      intro place member last same
      rw [List.mem_singleton.mp same]
      exact (chunk.bounds_of_mem 0 place member).2
    · intro place below
      exact Chunk.existsUnique_offset (Nat.zero_le _) below
    · intro name
      rw [chunk.listing_eq, Chunk.instructionLines, List.map_map]
      rfl
    · intro offset _
      exact Chunk.singleLine_instructionText offset
  · intro config source chunk
    exact (ofTokens_wellFormed (ended_tokensOf source) (readings_tokensOf source) .empty).sensible

end StackCalc
