import StackCalc.Proofs.Effects
import StackCalc.Proofs.Encoding
import StackCalc.Proofs.WholeRun

/-! Compiled code is well formed, also if the source has errors: the bytes that are added
to a chunk are whole instructions, and the last of them, and no other, is a return. Running
such code can go wrong, but not for want of sense in the bytes. -/

namespace StackCalc

open StackCalc.Parser

/-- From an offset on, the code is whole instructions up to one return, which is last. The
constants are in the pool, and an operand byte is on the line of its opcode. -/
inductive Chunk.WellFormed (chunk : Chunk) : Nat → Prop where
  | return {offset} (fetched : chunk.fetch offset = .instruction (.plain .return))
      (last : offset + 1 = chunk.code.size) : WellFormed chunk offset
  | plain {offset operation} (fetched : chunk.fetch offset = .instruction (.plain operation))
      (inner : operation ≠ .return) (rest : WellFormed chunk (offset + 1)) :
      WellFormed chunk offset
  | constant {offset index} (fetched : chunk.fetch offset = .instruction (.constant index))
      (present : index.toNat < chunk.constants.size)
      (together : chunk.line? (offset + 1) = chunk.line? offset)
      (rest : WellFormed chunk (offset + 2)) : WellFormed chunk offset

/-- Faults of bytes that make no sense, and not of the values they work on. -/
inductive Fault.Garbled : Fault → Prop where
  | unknownOpcode (byte : UInt8) : Garbled (.unknownOpcode byte)
  | constantOutOfRange (index : UInt8) : Garbled (.constantOutOfRange index)
  | unexpectedEnd : Garbled .unexpectedEnd

theorem Effect.not_garbled_of_push {value : Value} {stack : List Value} {fault : Fault}
    (fails : push value stack = .error fault) : ¬ fault.Garbled := by
  unfold push at fails
  split at fails
  · cases fails
  · cases fails
    rintro ⟨⟩

private theorem Effect.not_garbled_of_numeric {result : Float → Float → Value} {stack : List Value}
    {fault : Fault} (fails : numeric result stack = .error fault) : ¬ fault.Garbled := by
  unfold numeric at fails
  split at fails
  next => cases fails
  next => cases fails; rintro ⟨⟩
  next => cases fails; rintro ⟨⟩

theorem Operation.not_garbled {operation : Operation} {stack : List Value} {fault : Fault}
    (fails : operation.effect stack = .error fault) : ¬ fault.Garbled := by
  cases operation.acts with
  | pushes value effect =>
    rw [effect] at fails
    exact Effect.not_garbled_of_push fails
  | combines result effect kind =>
    rw [effect] at fails
    exact Effect.not_garbled_of_numeric fails
  | equal =>
    rcases stack with _ | ⟨b, _ | ⟨a, rest⟩⟩ <;> cases fails
    all_goals rintro ⟨⟩
  | not =>
    cases stack <;> cases fails
    rintro ⟨⟩
  | negate =>
    rcases stack with _ | ⟨_ | _ | _, rest⟩ <;> cases fails
    all_goals rintro ⟨⟩
  | «return» =>
    cases stack <;> cases fails
    rintro ⟨⟩

namespace Chunk

variable {chunk : Chunk}

theorem WellFormed.moves {start next : Standing} (formed : chunk.WellFormed start.offset)
    (moves : chunk.Moves start next) : chunk.WellFormed next.offset := by
  cases moves with
  | @instruction offset stack after succeeds =>
    cases formed with
    | «return» fetched last =>
      rw [fetched] at succeeds
      cases stack <;> cases succeeds
    | plain fetched inner rest => simpa [fetched, Fetched.width] using rest
    | constant fetched present together rest => simpa [fetched, Fetched.width] using rest

private theorem WellFormed.reaches {start last : Standing} (formed : chunk.WellFormed start.offset)
    (reaches : chunk.Reaches start last) : chunk.WellFormed last.offset := by
  induction reaches with
  | refl => exact formed
  | tail _ moves ih => exact ih.moves moves

private theorem WellFormed.not_garbled {offset : Nat} {stack : List Value} {fault : Fault}
    (formed : chunk.WellFormed offset)
    (fails : chunk.effect stack (chunk.fetch offset) = .error fault) : ¬ fault.Garbled := by
  cases formed with
  | «return» fetched last =>
    rw [fetched] at fails
    exact Operation.not_garbled fails
  | plain fetched inner rest =>
    rw [fetched] at fails
    exact Operation.not_garbled fails
  | @constant _ index fetched present together rest =>
    have found : chunk.constant? index = some chunk.constants[index.toNat] :=
      Array.getElem?_eq_getElem present
    simp only [fetched, effect, found] at fails
    exact Effect.not_garbled_of_push fails

theorem WellFormed.run (formed : chunk.WellFormed 0) (machine : Machine) {error : RuntimeError}
    (fails : (machine.run chunk).outcome = .error error) : ¬ error.fault.Garbled := by
  obtain ⟨count, executes⟩ := machine.run_executes chunk
  obtain ⟨last, reaches, ⟨value, returned, _⟩ | ⟨fault, failed, _, effect⟩⟩ := executes.cases_result
  · cases returned.symm.trans fails
  · cases failed.symm.trans fails
    exact (formed.reaches reaches).not_garbled effect

private theorem Grows.holds_behind {before after : Chunk} {cells : List (UInt8 × Nat)}
    {values : List Value} (grows : Grows before cells values after) :
    after.Holds before.code.size cells := by
  intro cell place member
  obtain ⟨behind, found⟩ := List.mk_mem_zipIdx_iff_le_and_getElem?_sub.mp member
  have sizes := before.lines_size
  rw [line?, ← Array.getElem?_toList, ← Array.getElem?_toList, grows.code, grows.lines,
    List.getElem?_append_right (by simpa using behind),
    List.getElem?_append_right (by simpa [sizes] using behind)]
  simp [sizes, found]

private theorem constantIndex_lt {number size : Nat}
    (present : min (number + 1) maxConstants ≤ size) : (constantIndex number).toNat < size := by
  unfold constantIndex
  split
  next inside =>
    rw [UInt8.toNat_ofNat_of_lt' (show number < UInt8.size from inside)]
    omega
  next outside =>
    have positive : (0 : UInt8).toNat < maxConstants := by decide
    omega

/-- What directives come to is well formed, whatever was asked for: the induction is on the
directives, and a report leaves no bytes. -/
theorem wellFormed_of_holds {directives : List Directive} {offset number line : Nat}
    (inner : ∀ operation own, .operation operation own ∈ directives → operation ≠ .return)
    (holds : chunk.Holds offset
      (Directive.cells number (directives ++ [.operation .return line])))
    (size : offset + (Directive.cells number (directives ++ [.operation .return line])).length =
      chunk.code.size)
    (present : min (number + (Directive.numbers directives).length) maxConstants ≤
      chunk.constants.size) : chunk.WellFormed offset := by
  induction directives generalizing offset number with
  | nil =>
    obtain ⟨fetched, _⟩ := fetch_operation holds
    exact .return fetched size
  | cons directive directives ih =>
    have others : ∀ operation own, .operation operation own ∈ directives → operation ≠ .return :=
      fun operation own member => inner operation own (.tail _ member)
    cases directive with
    | operation action own =>
      obtain ⟨first, rest⟩ := holds_append.mp (show chunk.Holds offset ([_] ++ _) from holds)
      obtain ⟨fetched, _⟩ := fetch_operation first
      refine .plain fetched (inner action own List.mem_cons_self) (ih others rest ?_ present)
      simp only [Directive.cells, List.cons_append, List.length_cons] at size
      omega
    | number token =>
      obtain ⟨first, rest⟩ := holds_append.mp (show chunk.Holds offset ([_, _] ++ _) from holds)
      obtain ⟨fetched, _⟩ := fetch_constant first
      obtain ⟨_, own⟩ := first (Opcode.constant.byte, token.line) offset (by simp)
      obtain ⟨_, operand⟩ := first (constantIndex number, token.line) (offset + 1) (by simp)
      rw [Directive.length_numbers_cons] at present
      have one : (Directive.numbers [.number token]).length = 1 := rfl
      refine .constant fetched (constantIndex_lt (by omega)) (operand.trans own.symm)
        (ih others rest ?_ (by omega))
      simp only [Directive.cells, List.cons_append, List.length_cons] at size
      omega
    | report error => exact ih others holds size present

end Chunk

private theorem operation_ne_return_of_mem {tokens : List Token} (ended : Ended tokens)
    {operation : Operation} {line : Nat}
    (member : .operation operation line ∈ (readAll tokens).directives.toList) :
    operation ≠ .return := by
  cases justified_readAll ended _ (Array.mem_toList_iff.mp member) with
  | operation inner => exact inner

private theorem foldl_perform_wellFormed {directives : List Directive} {line : Nat}
    (legible : Directive.Legible (directives ++ [.operation .return line]))
    (inner : ∀ operation own, .operation operation own ∈ directives → operation ≠ .return)
    (chunk : Chunk) :
    ((directives ++ [Directive.operation .return line]).foldl Assembly.perform
      { chunk }).chunk.WellFormed chunk.code.size := by
  have bounded := chunk.constants_size
  have grows := Assembly.foldl_perform_grows legible { chunk } (Nat.min_eq_left bounded).symm
  have size := congrArg List.length grows.code
  have places := grows.size
  rw [List.length_take, Directive.length_values legible, Directive.numbers_append,
    show Directive.numbers [Directive.operation .return line] = [] from rfl, List.append_nil] at places
  refine Chunk.wellFormed_of_holds inner grows.holds_behind ?_ ?_
  · simpa using size.symm
  · simp only at places ⊢
    omega

theorem ofTokens_wellFormed {tokens : List Token} (ended : Ended tokens)
    (readings : Readings tokens) (chunk : Chunk) :
    (Assembly.ofTokens tokens chunk).chunk.WellFormed chunk.code.size := by
  have legible := legible_directivesOf ended readings
  rw [directivesOf_eq] at legible
  rw [Assembly.ofTokens, directivesOf_eq]
  exact foldl_perform_wellFormed legible
    (fun _ _ member => operation_ne_return_of_mem ended member) chunk

/-- Whatever the source, the bytes that compiling it adds to a chunk are well formed. Code
compiled on its own, from a source that compiles or not, never has a fault that comes of
bytes that make no sense. -/
theorem compile_wellFormed (config : Config) (source : String) (chunk : Chunk) :
    (∃ cells values, Chunk.Grows chunk cells values (compile config source chunk).chunk) ∧
    (compile config source chunk).chunk.WellFormed chunk.code.size ∧
    ∀ (machine : Machine) (line : Nat),
      (∀ byte, (machine.run (compile config source .empty).chunk).outcome ≠
        .error ⟨.unknownOpcode byte, line⟩) ∧
      (∀ index, (machine.run (compile config source .empty).chunk).outcome ≠
        .error ⟨.constantOutOfRange index, line⟩) ∧
      (machine.run (compile config source .empty).chunk).outcome ≠
        .error ⟨.unexpectedEnd, line⟩ := by
  have ended := ended_tokensOf source
  have readings := readings_tokensOf source
  have legible := legible_directivesOf ended readings
  have alone := ofTokens_wellFormed ended readings .empty
  simp only [compile_chunk]
  refine ⟨⟨_, _, Assembly.foldl_perform_grows legible { chunk }
    (Nat.min_eq_left chunk.constants_size).symm⟩, ofTokens_wellFormed ended readings chunk, ?_⟩
  intro machine line
  refine ⟨fun byte fails => ?_, fun index fails => ?_, fun fails => ?_⟩
  · exact alone.run machine fails (.unknownOpcode byte)
  · exact alone.run machine fails (.constantOutOfRange index)
  · exact alone.run machine fails .unexpectedEnd

end StackCalc
