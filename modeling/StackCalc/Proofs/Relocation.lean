import StackCalc.Proofs.LinearOutput

/-! Compiled code can be put behind any other. A chunk that has constants already gets the code
and the lines that an empty chunk gets, and as long as there is room in the pool, nothing but
the operands of the constants tells where the code is: they are raised by what was there. -/

namespace StackCalc

open StackCalc.Parser

/-- Whole instructions, and the same with the operand of every constant raised. -/
inductive Raised (shift : Nat) : List UInt8 → List UInt8 → Prop where
  | nil : Raised shift [] []
  | plain {before after : List UInt8} (operation : Operation)
      (rest : Raised shift before after) :
      Raised shift (operation.byte :: before) (operation.byte :: after)
  | constant {before after : List UInt8} {index raised : UInt8}
      (sum : raised.toNat = index.toNat + shift) (rest : Raised shift before after) :
      Raised shift (Opcode.constant.byte :: index :: before)
        (Opcode.constant.byte :: raised :: after)

private theorem toNat_constantIndex {number : Nat} (inRange : number < maxConstants) :
    (constantIndex number).toNat = number := by
  rw [constantIndex, if_pos inRange]
  exact UInt8.toNat_ofNat_of_lt' inRange

namespace Directive

private theorem raised_cells (shift : Nat) {directives : List Directive} {number : Nat}
    (room : number + shift + (numbers directives).length ≤ maxConstants) :
    Raised shift ((cells number directives).map Prod.fst)
      ((cells (number + shift) directives).map Prod.fst) := by
  induction directives generalizing number with
  | nil => exact .nil
  | cons directive directives ih =>
    rw [length_numbers_cons] at room
    cases directive with
    | operation action line => exact .plain action (ih (by omega))
    | number token =>
      have one : (numbers [.number token]).length = 1 := rfl
      have sum : (constantIndex (number + shift)).toNat =
          (constantIndex number).toNat + shift := by
        rw [toNat_constantIndex (by omega), toNat_constantIndex (by omega)]
      have rest := ih (show number + 1 + shift + _ ≤ _ by omega)
      rw [Nat.add_right_comm] at rest
      exact .constant sum rest
    | report error => exact ih (by omega)

end Directive

namespace Assembly

open Directive

variable {first second : Assembly}

private theorem errors_report_congr (same : first.errors = second.errors) (error : CompileError) :
    (first.report error).errors = (second.report error).errors := by
  unfold report
  rw [same]
  split
  · rfl
  · exact same

private theorem errors_perform_congr (same : first.errors = second.errors) {directive : Directive}
    (legible : Legible [directive])
    (room : first.chunk.constants.size + (numbers [directive]).length ≤ maxConstants)
    (also : second.chunk.constants.size + (numbers [directive]).length ≤ maxConstants) :
    (first.perform directive).errors = (second.perform directive).errors := by
  cases directive with
  | operation action line => exact same
  | number token =>
    obtain ⟨value, known⟩ := Option.isSome_iff_exists.mp (legible token (by simp [numbers]))
    have one : (numbers [.number token]).length = 1 := rfl
    rw [perform_number known, perform_number known,
      errors_constant_of_free value token (by omega),
      errors_constant_of_free value token (by omega), same]
  | report error => exact errors_report_congr same error

/-- As long as there is room for all the constants, the chunk has no say in what is reported. -/
theorem errors_foldl_congr {directives : List Directive} (legible : Legible directives)
    (same : first.errors = second.errors)
    (room : first.chunk.constants.size + (numbers directives).length ≤ maxConstants)
    (also : second.chunk.constants.size + (numbers directives).length ≤ maxConstants) :
    (directives.foldl perform first).errors = (directives.foldl perform second).errors := by
  induction directives generalizing first second with
  | nil => exact same
  | cons directive directives ih =>
    rw [length_numbers_cons] at room also
    have size := size_perform first legible.head
    have other := size_perform second legible.head
    exact ih legible.tail (errors_perform_congr same legible.head (by omega) (by omega))
      (by omega) (by omega)

end Assembly

/-- If the pool of a chunk has room for all the numbers of a source, compiling the source into
the chunk succeeds or fails as compiling it into an empty one does. What is appended is what the
empty chunk gets, with the operand of every constant raised by the constants that were there. -/
theorem compile_relocates (config : Config) (source : String) (chunk : Chunk)
    (room : chunk.constants.size + ((tokensOf source).filter (·.kind = .number)).length ≤ 256) :
    let alone := compile config source .empty
    let compiled := compile config source chunk
    compiled.errors = alone.errors ∧
    (∃ code, Raised chunk.constants.size alone.chunk.code.toList code ∧
      compiled.chunk.code.toList = chunk.code.toList ++ code) ∧
    compiled.chunk.lines.toList = chunk.lines.toList ++ alone.chunk.lines.toList ∧
    compiled.chunk.constants.toList =
      chunk.constants.toList ++ alone.chunk.constants.toList := by
  intro alone compiled
  have ended := ended_tokensOf source
  have legible := legible_tokensOf source
  have few := (numbers_directivesOf_sublist ended).length_le
  have fits : chunk.constants.size + (Directive.numbers (directivesOf (tokensOf source))).length ≤
      maxConstants := Nat.le_trans (Nat.add_le_add_left few _) room
  have size := Directive.length_values legible
  have grows := Chunk.grows_compile config source chunk
  obtain ⟨code, lines, constants⟩ := (Chunk.grows_compile config source .empty).fresh
  have none : Chunk.empty.constants.size = 0 := rfl
  refine ⟨?_, ⟨_, ?_, grows.code⟩, ?_, ?_⟩
  · exact Assembly.errors_foldl_congr legible rfl fits (show 0 + _ ≤ _ by omega)
  · rw [code, none]
    simpa using Directive.raised_cells chunk.constants.size
      (show 0 + chunk.constants.size + _ ≤ _ by omega)
  · rw [grows.lines, lines]
    exact congrArg _ (Directive.lines_cells _ _ _)
  · rw [grows.constants, constants, none, List.take_of_length_le (by omega),
      List.take_of_length_le (by omega)]

/-- The last two places of a pool, and a source that is rejected after it has filled them. -/
theorem compile_relocates_to_last_places :
    let chunk := (List.replicate 254 (.addConstant .nil)).foldl Chunk.edit .empty
    let compiled := compile {} "1 + 2)" chunk
    compiled.errors = [⟨1, .at ")", "Expect end of expression."⟩] ∧
      Raised 254 [0, 0, 0, 1, 7, 13] compiled.chunk.code.toList ∧
      compiled.chunk.lines.toList = [1, 1, 1, 1, 1, 1] ∧
      compiled.chunk.constants.size = 256 := by
  intro chunk compiled
  have size : chunk.constants.size = 254 := by decide +kernel
  have none : chunk.code.toList = [] ∧ chunk.lines.toList = [] := by decide +kernel
  have alone : (compile {} "1 + 2)" .empty).errors =
      [⟨1, .at ")", "Expect end of expression."⟩] ∧
      (compile {} "1 + 2)" .empty).chunk.code.toList = [0, 0, 0, 1, 7, 13] ∧
      (compile {} "1 + 2)" .empty).chunk.lines.toList = [1, 1, 1, 1, 1, 1] ∧
      (compile {} "1 + 2)" .empty).chunk.constants.size = 2 := by decide +kernel
  have room : chunk.constants.size +
      ((tokensOf "1 + 2)").filter (·.kind = .number)).length ≤ 256 := by
    rw [size]
    decide +kernel
  obtain ⟨errors, ⟨code, raised, appended⟩, lines, constants⟩ :=
    compile_relocates {} "1 + 2)" chunk room
  rw [none.1, List.nil_append] at appended
  rw [size, alone.2.1] at raised
  rw [none.2, List.nil_append] at lines
  refine ⟨errors.trans alone.1, appended ▸ raised, lines.trans alone.2.2.1, ?_⟩
  have sizes := congrArg List.length constants
  rwa [List.length_append, Array.length_toList, Array.length_toList, Array.length_toList, size,
    alone.2.2.2] at sizes

end StackCalc
