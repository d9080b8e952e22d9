import StackCalc.Proofs.ListingText
import StackCalc.Proofs.Persistence

/-! A listing determines the code, if operands are on the lines of their opcodes. The walks
through two chunks with one listing go together from instruction to instruction, since each of
them is told from its line, and what a bar means is told from the lines above. -/

namespace StackCalc

namespace Chunk

variable {chunk first second : Chunk} {offset : Nat}

/-- The bytes that were read. -/
def Fetched.bytes : Fetched → List UInt8
  | .instruction (.constant index) => [Opcode.constant.byte, index]
  | .instruction (.plain operation) => [operation.byte]
  | .unknown byte => [byte]
  | .truncated => [Opcode.constant.byte]
  | .pastEnd => []

private theorem fetch_ne_pastEnd_iff :
    chunk.fetch offset ≠ .pastEnd ↔ offset < chunk.code.size := by
  constructor
  · intro read
    apply Nat.lt_of_not_le
    intro outside
    exact read (by simp [fetch, Array.getElem?_eq_none outside])
  · intro inside past
    have forward := chunk.width_fetch_pos offset inside
    rw [past] at forward
    cases forward

/-- Inside the code two bytes are read for a constant, and one for everything else. -/
theorem fetched_cases (inside : offset < chunk.code.size) :
    (∃ index, chunk.fetch offset = .instruction (.constant index)) ∨
      (chunk.fetch offset).width = 1 := by
  cases fetched : chunk.fetch offset with
  | instruction instruction =>
    cases instruction with
    | constant index => exact .inl ⟨index, rfl⟩
    | plain operation => exact .inr rfl
  | unknown byte => exact .inr rfl
  | truncated => exact .inr rfl
  | pastEnd => exact absurd fetched (fetch_ne_pastEnd_iff.mpr inside)

theorem drop_code (chunk : Chunk) (offset : Nat) :
    chunk.code.toList.drop offset = (chunk.fetch offset).bytes ++
      chunk.code.toList.drop (offset + (chunk.fetch offset).width) := by
  unfold fetch
  split
  next missing => rfl
  next byte found =>
    have first : chunk.code.toList.drop offset = byte :: chunk.code.toList.drop (offset + 1) := by
      rw [List.drop_eq_getElem?_toList_append, Array.getElem?_toList, found]
      rfl
    split
    next => exact first
    next operation known =>
      rw [first, ← Opcode.byte_of_ofByte? known]
      rfl
    next known =>
      rw [first, ← Opcode.byte_of_ofByte? known]
      split
      next => rfl
      next index operand =>
        rw [List.drop_eq_getElem?_toList_append, Array.getElem?_toList, operand]
        rfl

/-- The walk goes from one instruction to the next, up to the end. -/
theorem walk_induction (chunk : Chunk) {motive : Nat → Prop}
    (done : ∀ offset, chunk.code.size ≤ offset → motive offset)
    (next : ∀ offset, offset < chunk.code.size →
      motive (offset + (chunk.fetch offset).width) → motive offset) (offset : Nat) :
    motive offset := by
  by_cases inside : offset < chunk.code.size
  · have forward := chunk.width_fetch_pos offset inside
    exact next offset inside (walk_induction chunk done next _)
  · exact done offset (Nat.le_of_not_lt inside)
termination_by chunk.code.size - offset

private theorem offsetsFrom_eq_nil_iff :
    chunk.offsetsFrom offset = [] ↔ chunk.code.size ≤ offset := by
  refine ⟨fun none => ?_, offsetsFrom_of_le⟩
  apply Nat.le_of_not_lt
  intro inside
  rw [offsetsFrom_of_lt inside] at none
  exact List.cons_ne_nil _ _ none

/-- What comes first in a walk, and what comes then. -/
theorem offsetsFrom_eq_cons {start : Nat} {rest : List Nat}
    (walk : chunk.offsetsFrom start = offset :: rest) :
    start = offset ∧ offset < chunk.code.size ∧
      chunk.offsetsFrom (offset + (chunk.fetch offset).width) = rest := by
  by_cases inside : start < chunk.code.size
  · rw [offsetsFrom_of_lt inside, nextOffset_of_lt inside] at walk
    obtain ⟨rfl, rest⟩ := List.cons.inj walk
    exact ⟨rfl, inside, rest⟩
  · rw [offsetsFrom_of_le (Nat.le_of_not_lt inside)] at walk
    cases walk

theorem forall_mem_offsetsFrom (inside : offset < chunk.code.size) {holds : Nat → Prop} :
    (∀ place ∈ chunk.offsetsFrom offset, holds place) ↔
      holds offset ∧
        ∀ place ∈ chunk.offsetsFrom (offset + (chunk.fetch offset).width), holds place := by
  rw [offsetsFrom_of_lt inside, nextOffset_of_lt inside, List.forall_mem_cons]

/-- In the walk from an offset on, the operand bytes are on the lines of their opcodes. -/
def Aligned (chunk : Chunk) (offset : Nat) : Prop :=
  ∀ place ∈ chunk.offsetsFrom offset, ∀ index,
    chunk.fetch place = .instruction (.constant index) →
    chunk.line? (place + 1) = chunk.line? place

private theorem Aligned.next (aligned : chunk.Aligned offset) (inside : offset < chunk.code.size) :
    chunk.Aligned (offset + (chunk.fetch offset).width) :=
  ((forall_mem_offsetsFrom inside).mp aligned).2

/-- The last byte of an instruction is on the line of the first. -/
theorem Aligned.line_last (aligned : chunk.Aligned offset) (inside : offset < chunk.code.size) :
    chunk.line? (offset + (chunk.fetch offset).width - 1) = chunk.line? offset := by
  rcases fetched_cases inside with ⟨index, fetched⟩ | single
  · rw [fetched]
    exact ((forall_mem_offsetsFrom inside).mp aligned).1 index fetched
  · rw [single, Nat.add_sub_cancel]

private theorem Aligned.drop_lines (aligned : chunk.Aligned offset)
    (inside : offset < chunk.code.size) : chunk.lines.toList.drop offset =
      List.replicate (chunk.fetch offset).width ((chunk.line? offset).getD 0) ++
        chunk.lines.toList.drop (offset + (chunk.fetch offset).width) := by
  obtain ⟨line, own⟩ := exists_line inside
  have first : chunk.lines.toList.drop offset = line :: chunk.lines.toList.drop (offset + 1) := by
    rw [List.drop_eq_getElem?_toList_append, Array.getElem?_toList,
      show chunk.lines[offset]? = some line from own]
    rfl
  have last := aligned.line_last inside
  rw [own] at last ⊢
  rcases fetched_cases inside with ⟨index, fetched⟩ | single
  · rw [fetched] at last ⊢
    rw [first, List.drop_eq_getElem?_toList_append, Array.getElem?_toList,
      show chunk.lines[offset + 1]? = some line from last]
    rfl
  · rw [single, first]
    rfl

/-- The induction is along the walk of the first chunk. A bar is about the byte before, on whose
line the chunks agree since it belongs to the instruction before. -/
theorem same_of_lines (aligned : first.Aligned offset) (also : second.Aligned offset)
    (before : 0 < offset → first.line? (offset - 1) = second.line? (offset - 1))
    (same : (first.offsetsFrom offset).map first.instructionText =
      (second.offsetsFrom offset).map second.instructionText) :
    first.code.toList.drop offset = second.code.toList.drop offset ∧
      first.lines.toList.drop offset = second.lines.toList.drop offset ∧
      ∀ place ∈ first.offsetsFrom offset, ∀ index,
        first.fetch place = .instruction (.constant index) →
        (first.constant? index).map Value.text = (second.constant? index).map Value.text := by
  induction offset using first.walk_induction with
  | done offset outside =>
    rw [offsetsFrom_of_le outside] at same ⊢
    have ends := offsetsFrom_eq_nil_iff.mp (List.map_eq_nil_iff.mp same.symm)
    have none (chunk : Chunk) (outside : chunk.code.size ≤ offset) :
        chunk.code.toList.drop offset = [] ∧ chunk.lines.toList.drop offset = [] := by
      have beyond : chunk.lines.size ≤ offset := by rwa [chunk.lines_size]
      exact ⟨List.drop_eq_nil_of_le outside, List.drop_eq_nil_of_le beyond⟩
    refine ⟨?_, ?_, List.forall_mem_nil _⟩
    · rw [(none first outside).1, (none second ends).1]
    · rw [(none first outside).2, (none second ends).2]
  | next offset inside ih =>
    have within : offset < second.code.size := by
      apply Nat.lt_of_not_le
      intro outside
      rw [offsetsFrom_of_le outside] at same
      have ends := offsetsFrom_eq_nil_iff.mp (List.map_eq_nil_iff.mp same)
      exact Nat.not_le_of_lt inside ends
    rw [offsetsFrom_of_lt inside, offsetsFrom_of_lt within, nextOffset_of_lt inside,
      nextOffset_of_lt within] at same
    obtain ⟨heads, tails⟩ := List.cons.inj same
    obtain ⟨⟨word, marked, others⟩, texts⟩ := instructionText_unique inside within heads
    have line := marked.line_eq others before
    obtain ⟨fetched, shown⟩ := fetchedText_unique texts
    have last := (aligned.line_last inside).trans (line.trans (also.line_last within).symm)
    have further := also.next within
    rw [← fetched] at tails last further
    obtain ⟨code, lines, constants⟩ := ih (aligned.next inside) further (fun _ => last) tails
    refine ⟨?_, ?_, ?_⟩
    · rw [drop_code first, drop_code second, ← fetched, code]
    · rw [aligned.drop_lines inside, also.drop_lines within, ← fetched, line, lines]
    · rw [offsetsFrom_of_lt inside, nextOffset_of_lt inside]
      exact List.forall_mem_cons.mpr ⟨shown, constants⟩

/-- The last line number that is printed for these offsets. Behind it there are only bars. -/
def LastShown (chunk : Chunk) (offsets : List Nat) (line : Nat) : Prop :=
  ∃ front offset between, offsets = front ++ offset :: between ∧
    chunk.lineMark offset = Column.right 4 ' ' (toString line) ++ " " ∧
    ∀ other ∈ between, chunk.lineMark other = "   | "

/-- With these offsets behind it, the walk has come to one where a bar is right about the last
line number. -/
def Resumes (chunk : Chunk) (behind : List Nat) (offset : Nat) : Prop :=
  offset = 0 ∨ ∃ line, chunk.LastShown behind line ∧ chunk.line? (offset - 1) = some line

private theorem Resumes.next {behind : List Nat} (resumes : chunk.Resumes behind offset)
    (aligned : chunk.Aligned offset) (inside : offset < chunk.code.size) :
    chunk.Resumes (behind ++ [offset]) (offset + (chunk.fetch offset).width) := by
  have last := aligned.line_last inside
  obtain ⟨word, marked, mark⟩ := lineMark_marked inside
  cases marked with
  | again later same =>
    rcases resumes with rfl | ⟨line, ⟨front, shown, between, rfl, number, bars⟩, known⟩
    · exact absurd later (Nat.lt_irrefl 0)
    · refine .inr ⟨line, ⟨front, shown, between ++ [offset], by simp, number, ?_⟩,
        last.trans (same.symm.trans known)⟩
      exact List.forall_mem_append.mpr ⟨bars, List.forall_mem_singleton.mpr mark⟩
  | @shown line own =>
    exact .inr ⟨line, ⟨behind, offset, [], rfl, mark, List.forall_mem_nil _⟩, last.trans own⟩

private theorem Resumes.walk {start : Nat} {behind before after : List Nat}
    (resumes : chunk.Resumes behind start) (aligned : chunk.Aligned start)
    (split : chunk.offsetsFrom start = before ++ offset :: after) :
    chunk.Resumes (behind ++ before) offset ∧ offset < chunk.code.size := by
  induction before generalizing behind start with
  | nil =>
    obtain ⟨rfl, inside, _⟩ := offsetsFrom_eq_cons split
    rw [List.append_nil]
    exact ⟨resumes, inside⟩
  | cons place before ih =>
    obtain ⟨rfl, inside, rest⟩ := offsetsFrom_eq_cons split
    rw [List.append_cons]
    exact ih (resumes.next aligned inside) (aligned.next inside) rest

private theorem Resumes.line {behind : List Nat} (resumes : chunk.Resumes behind offset)
    (inside : offset < chunk.code.size) (bar : chunk.lineMark offset = "   | ") :
    ∃ line, chunk.LastShown behind line ∧ chunk.line? offset = some line := by
  obtain ⟨word, marked, mark⟩ := lineMark_marked inside
  cases marked with
  | again later same =>
    rcases resumes with rfl | ⟨line, last, known⟩
    · exact absurd later (Nat.lt_irrefl 0)
    · exact ⟨line, last, same.symm.trans known⟩
  | @shown line own =>
    have same : Column.right 4 ' ' "|" ++ (" " ++ "") =
        Column.right 4 ' ' (toString line) ++ (" " ++ "") := bar.symm.trans mark
    obtain ⟨words, _⟩ := Unspaced.unique ⟨by decide, by decide⟩ (unspaced_toString line) same
    exact absurd words (bar_ne_toString line)

/-- Aligned, and no instruction of the walk lacks its operand. -/
def Regular (chunk : Chunk) (offset : Nat) : Prop :=
  ∀ place ∈ chunk.offsetsFrom offset, chunk.fetch place ≠ .truncated ∧
    ∀ index, chunk.fetch place = .instruction (.constant index) →
      chunk.line? (place + 1) = chunk.line? place

private theorem Regular.aligned (regular : chunk.Regular offset) : chunk.Aligned offset :=
  fun place member => (regular place member).2

/-- What holds of a plain instruction, and of one that loads a constant which is there, holds of
all the instructions of well-formed code. -/
theorem WellFormed.forall_mem {holds : Nat → Prop} (formed : chunk.WellFormed offset)
    (plain : ∀ place operation,
      chunk.fetch place = .instruction (.plain operation) → holds place)
    (constant : ∀ place index, chunk.fetch place = .instruction (.constant index) →
      index.toNat < chunk.constants.size → chunk.line? (place + 1) = chunk.line? place →
      holds place) : ∀ place ∈ chunk.offsetsFrom offset, holds place := by
  have inside {place : Nat} {instruction : Instruction}
      (fetched : chunk.fetch place = .instruction instruction) : place < chunk.code.size :=
    fetch_ne_pastEnd_iff.mp (by simp [fetched])
  induction formed with
  | «return» fetched last =>
    refine (forall_mem_offsetsFrom (inside fetched)).mpr ⟨plain _ _ fetched, ?_⟩
    rw [fetched, Fetched.width, last, offsetsFrom_of_le (Nat.le_refl _)]
    exact List.forall_mem_nil _
  | plain fetched inner rest ih =>
    refine (forall_mem_offsetsFrom (inside fetched)).mpr ⟨plain _ _ fetched, ?_⟩
    rw [fetched]
    exact ih
  | constant fetched present together rest ih =>
    refine (forall_mem_offsetsFrom (inside fetched)).mpr
      ⟨constant _ _ fetched present together, ?_⟩
    rw [fetched]
    exact ih

private theorem WellFormed.regular (formed : chunk.WellFormed offset) : chunk.Regular offset := by
  refine formed.forall_mem ?_ ?_
  · intro place operation fetched
    simp [fetched]
  · intro place index fetched present together
    exact ⟨by simp [fetched], fun _ _ => together⟩

/-- Behind a chunk in which nothing is broken off, the walk meets the code that was added. -/
theorem Keeps.regular {before after : Chunk} (keeps : Keeps before after)
    (added : after.Regular before.code.size) {offset : Nat}
    (within : offset ≤ before.code.size) (regular : before.Regular offset) :
    after.Regular offset := by
  induction offset using before.walk_induction with
  | done offset outside => exact Nat.le_antisymm within outside ▸ added
  | next offset inside ih =>
    obtain ⟨⟨whole, own⟩, rest⟩ := (forall_mem_offsetsFrom inside).mp regular
    have read := fetch_ne_pastEnd_iff.mpr inside
    have same : after.fetch offset = before.fetch offset :=
      keeps.fetch_eq (by simp [whole, read])
    have further := ih (before.add_width_fetch_le offset within) rest
    rw [← same] at whole own read further
    refine (forall_mem_offsetsFrom (fetch_ne_pastEnd_iff.mp read)).mpr ⟨⟨whole, ?_⟩, further⟩
    intro index fetched
    have below : offset + 1 < before.lines.size := by
      rw [before.lines_size]
      have read := before.add_width_fetch_le offset within
      rwa [← same, fetched] at read
    have line := Array.getElem?_eq_getElem below
    have first : before.line? offset = _ := (own index fetched).symm.trans line
    exact (keeps.lines _ _ line).trans (keeps.lines _ _ first).symm

private theorem Regular.compile (regular : chunk.Regular 0) (config : Config) (source : String) :
    (StackCalc.compile config source chunk).chunk.Regular 0 :=
  (grows_compile config source chunk).keeps.regular
    (ofTokens_wellFormed (ended_tokensOf source) (readings_tokensOf source) chunk).regular
    (Nat.zero_le _) regular

/-- What one source after another is compiled to. -/
def ofSources (config : Config) (sources : List String) : Chunk :=
  sources.foldl (fun chunk source => (StackCalc.compile config source chunk).chunk) .empty

private theorem regular_ofSources (config : Config) (sources : List String) :
    (ofSources config sources).Regular 0 := by
  have start : Chunk.empty.Regular 0 := by
    unfold Regular
    rw [offsetsFrom_of_le (Nat.le_refl 0)]
    exact List.forall_mem_nil _
  unfold ofSources
  generalize Chunk.empty = chunk at start
  induction sources generalizing chunk with
  | nil => exact start
  | cons source sources ih => exact ih _ (start.compile config source)

end Chunk

/-- Let operands be on the lines of their opcodes, as they are whenever sources are compiled.
Then chunks with the same listing have the same bytes on the same lines, and the constants that
are listed look the same or are missing from both. A bar in a listing stands for the last line
number above it. -/
theorem listing_determines_code {first second : Chunk} (aligned : first.Aligned 0)
    (also : second.Aligned 0) :
    (∀ name, first.listing name = second.listing name →
      first.code = second.code ∧ first.lines = second.lines ∧
      ∀ offset ∈ first.instructionOffsets, ∀ index,
        first.fetch offset = .instruction (.constant index) →
        (first.constant? index).map Value.text = (second.constant? index).map Value.text) ∧
    (∀ before offset after, first.instructionOffsets = before ++ offset :: after →
      first.lineMark offset = "   | " →
      ∃ line, first.LastShown before line ∧ first.line? offset = some line) ∧
    ∀ config sources, (Chunk.ofSources config sources).Aligned 0 := by
  refine ⟨?_, ?_, fun config sources => (Chunk.regular_ofSources config sources).aligned⟩
  · intro name same
    obtain ⟨code, lines, constants⟩ :=
      Chunk.same_of_lines aligned also (fun later => absurd later (Nat.lt_irrefl 0))
        (Chunk.instructionLines_unique same)
    exact ⟨Array.toList_inj.mp code, Array.toList_inj.mp lines, constants⟩
  · intro before offset after split bar
    have start : first.Resumes [] 0 := .inl rfl
    obtain ⟨resumes, inside⟩ := start.walk aligned split
    exact resumes.line inside bar

/-- A missing constant, an unknown opcode and a broken instruction, all listed as in a chunk
with one more constant. The bar at the third byte stands for the number at the first. -/
theorem listing_determines_garbled_code :
    let first : Chunk :=
      { code := #[0, 0, 0, 9, 200, 0], lines := #[3, 3, 3, 3, 7, 7], constants := #[.nil] }
    let second : Chunk :=
      { code := #[0, 0, 0, 9, 200, 0], lines := #[3, 3, 3, 3, 7, 7], constants := #[.nil, .nil] }
    first.listing "garbled" = second.listing "garbled" ∧
      first.code = second.code ∧ first.lines = second.lines ∧
      ∃ line, first.LastShown [0] line ∧ first.line? 2 = some line := by
  intro first second
  have aligned {chunk : Chunk} (offsets : chunk.instructionOffsets = [0, 2, 4, 5])
      (together : ∀ place ∈ [0, 2, 4], chunk.line? (place + 1) = chunk.line? place)
      (broken : chunk.fetch 5 = .truncated) : chunk.Aligned 0 := by
    intro place member index fetched
    rw [show chunk.offsetsFrom 0 = [0, 2, 4] ++ [5] from offsets] at member
    rcases List.mem_append.mp member with inner | last
    · exact together place inner
    · rw [List.mem_singleton.mp last, broken] at fetched
      cases fetched
  have offsets : first.instructionOffsets = [0, 2, 4, 5] := by decide +kernel
  have same : first.listing "garbled" = second.listing "garbled" := by decide +kernel
  have also : second.Aligned 0 :=
    aligned (by decide +kernel) (by decide +kernel) (by decide +kernel)
  obtain ⟨determines, bars, _⟩ :=
    listing_determines_code (aligned offsets (by decide +kernel) (by decide +kernel)) also
  obtain ⟨code, lines, _⟩ := determines "garbled" same
  exact ⟨same, code, lines, bars [0] 2 [4, 5] offsets (by decide +kernel)⟩

end StackCalc
