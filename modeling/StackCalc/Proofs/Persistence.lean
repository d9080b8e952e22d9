import StackCalc.Proofs.Growth
import StackCalc.Proofs.WellFormed

/-! A run that comes to an end of its own keeps this end however the chunk grows. Only two
faults are over what the chunk does not hold yet, an instruction or a constant; and a run
that ends in one of these always has something else to come to in a larger chunk. -/

namespace StackCalc

/-- Faults over what a chunk lacks and may still get. -/
inductive Fault.Lacking : Fault → Prop where
  | constantOutOfRange (index : UInt8) : Lacking (.constantOutOfRange index)
  | unexpectedEnd : Lacking .unexpectedEnd

private theorem Fault.Lacking.garbled {fault : Fault} (lacking : fault.Lacking) :
    fault.Garbled := by
  cases lacking with
  | constantOutOfRange index => exact .constantOutOfRange index
  | unexpectedEnd => exact .unexpectedEnd

/-- The run ended for want of an instruction or a constant. -/
def Wanting (result : Except RuntimeError Value) : Prop :=
  ∃ fault line, result = .error ⟨fault, line⟩ ∧ fault.Lacking

namespace Chunk

section Keeps

variable {before after : Chunk} (keeps : Keeps before after) {offset : Nat} {stack : List Value}

include keeps

theorem Keeps.fetch_eq (whole : before.fetch offset ∉ [.truncated, .pastEnd]) :
    after.fetch offset = before.fetch offset := by
  cases code : before.code[offset]? with
  | none => simp [fetch, code] at whole
  | some byte =>
    have same := keeps.code offset byte code
    cases opcode : Opcode.ofByte? byte with
    | none => simp only [fetch, code, same, opcode]
    | some opcode' =>
      cases opcode' with
      | plain operation => simp only [fetch, code, same, opcode]
      | constant =>
        cases operand : before.code[offset + 1]? with
        | none => simp [fetch, code, opcode, operand] at whole
        | some index =>
          simp only [fetch, code, same, opcode, operand, keeps.code _ index operand]

private theorem Keeps.faultLine_eq (whole : before.fetch offset ∉ [.truncated, .pastEnd]) :
    after.faultLine offset = before.faultLine offset := by
  have inside : offset < before.code.size := by
    apply Nat.lt_of_not_le
    intro outside
    simp [fetch, Array.getElem?_eq_none outside] at whole
  have read := before.add_width_fetch_le offset (Nat.le_of_lt inside)
  unfold faultLine line?
  rw [keeps.fetch_eq whole]
  cases place : offset + (before.fetch offset).width with
  | zero => rfl
  | succ last =>
    have present : last < before.lines.size := by
      rw [before.lines_size]
      omega
    have own := Array.getElem?_eq_getElem present
    simp only [own, keeps.lines last _ own]

/-- What an instruction does stays the same, unless it lacks something. -/
theorem Keeps.effect_eq (satisfied : ∀ fault,
      before.effect stack (before.fetch offset) = .error fault → ¬ fault.Lacking) :
    before.fetch offset ∉ [.truncated, .pastEnd] ∧
      after.effect stack (after.fetch offset) = before.effect stack (before.fetch offset) := by
  have whole : before.fetch offset ∉ [.truncated, .pastEnd] := by
    intro short
    simp only [List.mem_cons, List.not_mem_nil, or_false] at short
    rcases short with short | short
    all_goals exact satisfied .unexpectedEnd (by rw [short]; rfl) .unexpectedEnd
  refine ⟨whole, ?_⟩
  rw [keeps.fetch_eq whole]
  cases fetched : before.fetch offset with
  | unknown byte => rfl
  | truncated => rfl
  | pastEnd => rfl
  | instruction instruction =>
    cases instruction with
    | plain operation => rfl
    | constant index =>
      cases found : before.constant? index with
      | none =>
        exact absurd (.constantOutOfRange index)
          (satisfied (.constantOutOfRange index) (by simp only [fetched, effect, found]))
      | some value =>
        have kept : after.constant? index = some value := keeps.constants _ value found
        simp only [effect, found, kept]

private theorem Keeps.executes {start : Standing} {count : Nat} {result : Except RuntimeError Value}
    {left : List Value} (executes : before.Executes start count result left)
    (satisfied : ¬ Wanting result) : after.Executes start count result left := by
  induction executes with
  | @finish offset stack value beneath finishes =>
    obtain ⟨_, same⟩ := keeps.effect_eq fun fault fails => by cases finishes.symm.trans fails
    exact .finish (same.trans finishes)
  | @fault offset stack fault fails =>
    obtain ⟨whole, same⟩ := keeps.effect_eq fun other also lacking => by
      cases fails.symm.trans also
      exact satisfied ⟨fault, _, rfl, lacking⟩
    rw [← keeps.faultLine_eq whole]
    exact .fault (same.trans fails)
  | proceed moves rest ih =>
    cases moves with
    | @instruction offset stack next succeeds =>
      obtain ⟨whole, same⟩ := keeps.effect_eq fun fault fails => by cases succeeds.symm.trans fails
      have moves : after.Moves ⟨offset, stack⟩ _ := .instruction (same.trans succeeds)
      rw [keeps.fetch_eq whole] at moves
      exact .proceed moves (ih satisfied)

private theorem Keeps.run_eq (machine later : Machine)
    (satisfied : ¬ Wanting (machine.run before).outcome) :
    (later.run after).outcome = (machine.run before).outcome ∧
      (later.run after).stack = (machine.run before).stack := by
  obtain ⟨_, first⟩ := machine.run_executes before
  obtain ⟨_, second⟩ := later.run_executes after
  exact (second.unique (keeps.executes first satisfied)).2

end Keeps

/-- Every index has its constant, and at the end are two returns, one of which is there for
an instruction that takes the other for its operand. -/
structure Closed (chunk : Chunk) : Prop where
  full : chunk.constants.size = maxConstants
  returns : ∃ front, chunk.code.toList = front ++ [Operation.return.byte, Operation.return.byte]

namespace Closed

variable {chunk : Chunk} (closed : chunk.Closed) {offset : Nat} {stack : List Value}

include closed

/-- An instruction ends before the last byte, or it is one of the returns. -/
theorem fetch_cases (inside : offset < chunk.code.size) :
    chunk.fetch offset = .instruction (.plain .return) ∨ offset + 2 < chunk.code.size := by
  obtain ⟨front, code⟩ := closed.returns
  have size := congrArg List.length code
  simp only [Array.length_toList, List.length_append, List.length_cons, List.length_nil] at size
  by_cases last : offset + 2 < chunk.code.size
  · exact .inr last
  · refine .inl (fetch_of_byte ?_)
    rw [← Array.getElem?_toList, code, List.getElem?_append_right (by omega)]
    rcases (by omega : offset - front.length = 0 ∨ offset - front.length = 1) with place | place
    all_goals rw [place]; rfl

private theorem constant?_isSome (index : UInt8) : ∃ value, chunk.constant? index = some value := by
  have below : index.toNat < chunk.constants.size := by
    rw [closed.full]
    exact index.toNat_lt
  exact ⟨_, Array.getElem?_eq_getElem below⟩

private theorem not_lacking (inside : offset < chunk.code.size) {fault : Fault}
    (fails : chunk.effect stack (chunk.fetch offset) = .error fault) : ¬ fault.Lacking := by
  intro lacking
  cases fetched : chunk.fetch offset with
  | instruction instruction =>
    rw [fetched] at fails
    cases instruction with
    | plain operation => exact Operation.not_garbled fails lacking.garbled
    | constant index =>
      obtain ⟨value, found⟩ := closed.constant?_isSome index
      simp only [effect, found] at fails
      exact Effect.not_garbled_of_push fails lacking.garbled
  | unknown byte =>
    rw [fetched] at fails
    cases fails
    cases lacking
  | truncated =>
    rcases closed.fetch_cases inside with returns | further
    · cases fetched.symm.trans returns
    · simp only [fetch, Array.getElem?_eq_getElem inside,
        Array.getElem?_eq_getElem (show offset + 1 < chunk.code.size by omega)] at fetched
      split at fetched <;> cases fetched
  | pastEnd =>
    have forward := chunk.width_fetch_pos offset inside
    rw [fetched] at forward
    exact absurd forward (Nat.lt_irrefl 0)

private theorem moves {start next : Standing} (inside : start.offset < chunk.code.size)
    (moves : chunk.Moves start next) : next.offset < chunk.code.size := by
  cases moves with
  | @instruction offset stack after succeeds =>
    rcases closed.fetch_cases inside with returns | further
    · rw [returns] at succeeds
      cases stack <;> cases succeeds
    · have narrow : (chunk.fetch offset).width ≤ 2 := by
        rcases chunk.fetch offset with (_ | _) | _ | _ | _ <;> simp [Fetched.width]
      exact Nat.lt_of_le_of_lt (Nat.add_le_add_left narrow offset) further

private theorem executes {start : Standing} {count : Nat} {result : Except RuntimeError Value}
    {left : List Value} (executes : chunk.Executes start count result left)
    (inside : start.offset < chunk.code.size) : ¬ Wanting result := by
  induction executes with
  | finish => rintro ⟨_, _, ⟨⟩, _⟩
  | fault fails =>
    rintro ⟨_, _, ⟨⟩, lacking⟩
    exact closed.not_lacking inside fails lacking
  | proceed moves rest ih => exact ih (closed.moves inside moves)

private theorem run (machine : Machine) : ¬ Wanting (machine.run chunk).outcome := by
  obtain ⟨_, executes⟩ := machine.run_executes chunk
  obtain ⟨front, code⟩ := closed.returns
  have size := congrArg List.length code
  simp only [Array.length_toList, List.length_append, List.length_cons] at size
  exact closed.executes executes (by simp only; omega)

end Closed

private theorem size_fill (chunk : Chunk) (count : Nat) :
    ((List.replicate count (Edit.addConstant .nil)).foldl edit chunk).constants.size =
      min maxConstants (chunk.constants.size + count) := by
  induction count generalizing chunk with
  | zero => exact (Nat.min_eq_right chunk.constants_size).symm
  | succ count ih =>
    have bounded := chunk.constants_size
    rw [List.replicate_succ, List.foldl_cons, ih]
    by_cases free : chunk.constants.size < maxConstants
    · obtain ⟨after, added, grows⟩ := chunk.addConstant_of_free .nil free
      have size : after.constants.size = chunk.constants.size + 1 := grows.size
      simp only [edit, added, size]
      omega
    · simp only [edit, chunk.addConstant_of_full .nil free]
      omega

/-- Edits that leave nothing to be wanted. -/
def completion : List Edit :=
  List.replicate maxConstants (.addConstant .nil) ++
    [.write Operation.return.byte 0, .write Operation.return.byte 0]

private theorem closed_completion (chunk : Chunk) : (completion.foldl edit chunk).Closed := by
  have filled := chunk.size_fill maxConstants
  rw [Nat.min_eq_left (Nat.le_add_left _ _)] at filled
  rw [completion, List.foldl_append]
  generalize (List.replicate maxConstants (Edit.addConstant .nil)).foldl edit chunk = stocked
    at filled
  exact ⟨filled, stocked.code.toList, by simp [edit, write]⟩

end Chunk

/-- A run that returns, or ends in a fault that is not for want of an instruction or a
constant, comes to the same in every chunk that edits make of this one, and leaves the same
stack. Some edits change what every other run comes to. What a source is compiled to, whether
or not it has errors, stays what it is. -/
theorem run_survives_edits :
    (∀ (chunk : Chunk) (machine later : Machine),
      (∀ index line, (machine.run chunk).outcome ≠ .error ⟨.constantOutOfRange index, line⟩) →
      (∀ line, (machine.run chunk).outcome ≠ .error ⟨.unexpectedEnd, line⟩) →
      ∀ edits : List Chunk.Edit,
        (later.run (edits.foldl Chunk.edit chunk)).outcome = (machine.run chunk).outcome ∧
        (later.run (edits.foldl Chunk.edit chunk)).stack = (machine.run chunk).stack) ∧
    (∀ (chunk : Chunk) (machine later : Machine), Wanting (machine.run chunk).outcome →
      ∃ edits : List Chunk.Edit,
        (later.run (edits.foldl Chunk.edit chunk)).outcome ≠ (machine.run chunk).outcome) ∧
    ∀ (config : Config) (source : String) (machine later : Machine) (edits : List Chunk.Edit),
      let compiled := (compile config source .empty).chunk
      (later.run (edits.foldl Chunk.edit compiled)).outcome = (machine.run compiled).outcome ∧
      (later.run (edits.foldl Chunk.edit compiled)).stack = (machine.run compiled).stack := by
  refine ⟨?_, ?_, ?_⟩
  · intro chunk machine later present continued edits
    apply (chunk.keeps_edits edits).run_eq
    rintro ⟨_, line, ended, lacking⟩
    cases lacking with
    | constantOutOfRange index => exact present index line ended
    | unexpectedEnd => exact continued line ended
  · intro chunk machine later wanting
    refine ⟨Chunk.completion, ?_⟩
    intro same
    exact chunk.closed_completion.run later (same ▸ wanting)
  · intro config source machine later edits compiled
    apply (compiled.keeps_edits edits).run_eq
    rintro ⟨fault, line, ended, lacking⟩
    have formed : compiled.WellFormed 0 :=
      ofTokens_wellFormed (ended_tokensOf source) (readings_tokensOf source) .empty
    exact formed.run machine ended lacking.garbled

/-- A fault, and then an instruction that is cut off. -/
def faultThenCut : Chunk :=
  { code := #[1, 12, 0], lines := #[3, 4, 4], constants := #[]
    constants_size := Nat.zero_le maxConstants }

/-- The fault stays even when the instruction behind it is completed, in the middle of what
is compiled. What an empty chunk comes to, some edits do change. -/
theorem run_survives_edits_behind_fault :
    let edits : List Chunk.Edit := [.compile {} "1 +", .writeOpcode 13 9]
    let outcome := (({} : Machine).run faultThenCut).outcome
    (∀ index line, outcome ≠ .error ⟨.constantOutOfRange index, line⟩) ∧
    (∀ line, outcome ≠ .error ⟨.unexpectedEnd, line⟩) ∧
    (({} : Machine).run (edits.foldl Chunk.edit faultThenCut)).outcome =
      .error ⟨.operandMustBeNumber, 4⟩ ∧
    Wanting (({} : Machine).run .empty).outcome ∧
    ∃ edits : List Chunk.Edit, (({} : Machine).run (edits.foldl Chunk.edit .empty)).outcome ≠
      (({} : Machine).run .empty).outcome := by
  intro edits outcome
  have fails : outcome = .error ⟨.operandMustBeNumber, 4⟩ := by
    obtain ⟨_, own⟩ := ({} : Machine).run_executes faultThenCut
    have known : faultThenCut.Executes ⟨0, []⟩ 2 _ [] := .proceed (.instruction rfl) (.fault rfl)
    exact (own.unique known).2.1
  have wanting : Wanting (({} : Machine).run .empty).outcome := by
    obtain ⟨_, own⟩ := ({} : Machine).run_executes .empty
    have known : Chunk.empty.Executes ⟨0, []⟩ 1 _ [] := .fault rfl
    exact ⟨.unexpectedEnd, 0, (own.unique known).2.1, .unexpectedEnd⟩
  have present : ∀ index line, outcome ≠ .error ⟨.constantOutOfRange index, line⟩ := by
    intro index line other
    cases fails.symm.trans other
  have continued : ∀ line, outcome ≠ .error ⟨.unexpectedEnd, line⟩ := by
    intro line other
    cases fails.symm.trans other
  obtain ⟨survives, changes, _⟩ := run_survives_edits
  exact ⟨present, continued, (survives faultThenCut {} {} present continued edits).1.trans fails,
    wanting, changes .empty {} {} wanting⟩

end StackCalc
