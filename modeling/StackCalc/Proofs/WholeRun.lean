import StackCalc.Proofs.Execution

/-! A run as a whole: so many instructions, the last of which ends it. Every run is of this
form, in one way only, whatever the switches are and whatever was on the stack before. -/

namespace StackCalc

/-- From where the machine stands, so many instructions come to a result and leave a stack. -/
inductive Chunk.Executes (chunk : Chunk) :
    Standing → Nat → Except RuntimeError Value → List Value → Prop where
  | finish {offset stack value beneath}
      (finishes : chunk.effect stack (chunk.fetch offset) = .ok (.finish value beneath)) :
      Executes chunk ⟨offset, stack⟩ 1 (.ok value) beneath
  | fault {offset stack fault}
      (fails : chunk.effect stack (chunk.fetch offset) = .error fault) :
      Executes chunk ⟨offset, stack⟩ 1 (.error ⟨fault, chunk.faultLine offset⟩) []
  | proceed {start next count result left} (moves : chunk.Moves start next)
      (rest : Executes chunk next count result left) :
      Executes chunk start (count + 1) result left

namespace Chunk.Executes

variable {chunk : Chunk} {start : Standing} {count other : Nat}
  {result another : Except RuntimeError Value} {left leaving : List Value}

theorem unique (first : chunk.Executes start count result left)
    (second : chunk.Executes start other another leaving) :
    count = other ∧ result = another ∧ left = leaving := by
  induction first generalizing other with
  | finish finishes =>
    cases second with
    | finish same => cases finishes.symm.trans same; exact ⟨rfl, rfl, rfl⟩
    | fault fails => cases finishes.symm.trans fails
    | proceed moves =>
      cases moves with
      | instruction succeeds => cases finishes.symm.trans succeeds
  | fault fails =>
    cases second with
    | finish finishes => cases fails.symm.trans finishes
    | fault same => cases fails.symm.trans same; exact ⟨rfl, rfl, rfl⟩
    | proceed moves =>
      cases moves with
      | instruction succeeds => cases fails.symm.trans succeeds
  | proceed moves rest ih =>
    cases moves with
    | instruction succeeds =>
      cases second with
      | finish finishes => cases succeeds.symm.trans finishes
      | fault fails => cases succeeds.symm.trans fails
      | proceed moves later =>
        cases moves with
        | instruction same =>
          cases succeeds.symm.trans same
          obtain ⟨counts, results⟩ := ih later
          exact ⟨congrArg (· + 1) counts, results⟩

/-- What a fault leaves is nothing, and its line is that of the last byte that was read. -/
theorem cases_result (executes : chunk.Executes start count result left) :
    ∃ last, chunk.Reaches start last ∧
      ((∃ value, result = .ok value ∧
          chunk.effect last.stack (chunk.fetch last.offset) = .ok (.finish value left)) ∨
        ∃ fault, result = .error ⟨fault, chunk.faultLine last.offset⟩ ∧ left = [] ∧
          chunk.effect last.stack (chunk.fetch last.offset) = .error fault) := by
  induction executes with
  | finish finishes => exact ⟨_, .refl, .inl ⟨_, rfl, finishes⟩⟩
  | fault fails => exact ⟨_, .refl, .inr ⟨_, rfl, rfl, fails⟩⟩
  | proceed moves rest ih =>
    obtain ⟨last, reaches, ending⟩ := ih
    exact ⟨last, .head moves reaches, ending⟩

end Chunk.Executes

namespace Machine

/-- The next instruction is further on, so the code that is left bounds the run. -/
theorem runFrom_executes (config : Config) (chunk : Chunk) (log : Array Event) (offset : Nat)
    (stack : List Value) :
    ∃ count, chunk.Executes ⟨offset, stack⟩ count
      (runFrom config chunk log offset stack).outcome
      (runFrom config chunk log offset stack).stack := by
  cases effect : chunk.effect stack (chunk.fetch offset) with
  | error fault =>
    rw [runFrom_fault config log effect]
    exact ⟨1, .fault effect⟩
  | ok next =>
    cases next with
    | finish value beneath =>
      rw [runFrom_finish config log effect]
      exact ⟨1, .finish effect⟩
    | proceed after =>
      have moves : chunk.Moves ⟨offset, stack⟩ _ := .instruction effect
      have inside := Chunk.inside_of_effect effect
      have forward := chunk.width_fetch_pos offset inside
      rw [runFrom_proceed config log effect]
      obtain ⟨count, rest⟩ :=
        runFrom_executes config chunk _ (offset + (chunk.fetch offset).width) after
      exact ⟨count + 1, .proceed moves rest⟩
termination_by chunk.code.size - offset

/-- The machine does what the chunk says, from an empty stack. -/
theorem run_executes (machine : Machine) (chunk : Chunk) :
    ∃ count, chunk.Executes ⟨0, []⟩ count (machine.run chunk).outcome (machine.run chunk).stack :=
  runFrom_executes machine.config chunk #[] 0 []

end Machine

end StackCalc
