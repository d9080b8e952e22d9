import StackCalc.Assembly

/-! What becomes of directives. Whatever they are, the chunk only grows, by bytes that
can be told from the directives alone; and of all that is to be reported, the first
report is the only one. -/

namespace StackCalc

/-- One chunk is another with more bytes, each with its line, and more constants. -/
structure Chunk.Grows (before : Chunk) (cells : List (UInt8 × Nat)) (values : List Value)
    (after : Chunk) : Prop where
  code : after.code.toList = before.code.toList ++ cells.map Prod.fst
  lines : after.lines.toList = before.lines.toList ++ cells.map Prod.snd
  constants : after.constants.toList = before.constants.toList ++ values

namespace Chunk.Grows

private theorem refl (chunk : Chunk) : Grows chunk [] [] chunk := ⟨by simp, by simp, by simp⟩

private theorem trans {first second third : Chunk} {cells more : List (UInt8 × Nat)}
    {values others : List Value} (start : Grows first cells values second)
    (rest : Grows second more others third) :
    Grows first (cells ++ more) (values ++ others) third where
  code := by simp [rest.code, start.code]
  lines := by simp [rest.lines, start.lines]
  constants := by simp [rest.constants, start.constants]

theorem write (chunk : Chunk) (byte : UInt8) (line : Nat) :
    Grows chunk [(byte, line)] [] (chunk.write byte line) :=
  ⟨by simp [Chunk.write], by simp [Chunk.write], by simp [Chunk.write]⟩

theorem size {before after : Chunk} {cells : List (UInt8 × Nat)} {values : List Value}
    (grows : Grows before cells values after) :
    after.constants.size = before.constants.size + values.length := by
  simpa using congrArg List.length grows.constants

theorem fresh {cells : List (UInt8 × Nat)} {values : List Value} {after : Chunk}
    (grows : Grows .empty cells values after) :
    after.code.toList = cells.map Prod.fst ∧ after.lines.toList = cells.map Prod.snd ∧
      after.constants.toList = values :=
  ⟨grows.code, grows.lines, grows.constants⟩

end Chunk.Grows

def Token.value? (token : Token) : Option Value :=
  (Numeral.read? token.lexeme).map .number

/-- The operand byte of a literal that comes after `number` others. Those for which the
pool has no place share the first constant. -/
def constantIndex (number : Nat) : UInt8 :=
  if number < maxConstants then .ofNat number else 0

namespace Directive

def numbers (directives : List Directive) : List Token :=
  directives.filterMap fun
    | .number token => some token
    | .operation _ _ | .report _ => none

/-- The bytes, each with its line, that follow a code with `number` literals. -/
def cells (number : Nat) : List Directive → List (UInt8 × Nat)
  | [] => []
  | .operation action line :: directives => (action.byte, line) :: cells number directives
  | .number token :: directives =>
    (Opcode.constant.byte, token.line) :: (constantIndex number, token.line) ::
      cells (number + 1) directives
  | .report _ :: directives => cells number directives

theorem numbers_append (first second : List Directive) :
    numbers (first ++ second) = numbers first ++ numbers second :=
  List.filterMap_append

theorem length_numbers_cons (directive : Directive) (directives : List Directive) :
    (numbers (directive :: directives)).length =
      (numbers [directive]).length + (numbers directives).length := by
  rw [← List.length_append, ← numbers_append]
  rfl

theorem mem_numbers {directives : List Directive} {token : Token} :
    token ∈ numbers directives ↔ .number token ∈ directives := by
  simp only [numbers, List.mem_filterMap]
  constructor
  · rintro ⟨directive, member, found⟩
    cases directive with
    | number other => cases found; exact member
    | operation _ _ => cases found
    | report _ => cases found
  · exact fun member => ⟨_, member, rfl⟩

theorem cells_append (number : Nat) (first second : List Directive) :
    cells number (first ++ second) =
      cells number first ++ cells (number + (numbers first).length) second := by
  induction first generalizing number with
  | nil => simp [cells, numbers]
  | cons directive first ih =>
    cases directive with
    | operation action line => simp [cells, ih, numbers]
    | number token => simp [cells, ih, numbers, Nat.add_assoc, Nat.add_comm 1]
    | report error => simp [cells, ih, numbers]

def Legible (directives : List Directive) : Prop :=
  ∀ token ∈ numbers directives, token.value?.isSome

def values (directives : List Directive) : List Value :=
  (numbers directives).filterMap Token.value?

theorem values_append (first second : List Directive) :
    values (first ++ second) = values first ++ values second := by
  simp [values, numbers_append]

theorem map_some_values {directives : List Directive} (legible : Legible directives) :
    (values directives).map some = (numbers directives).map Token.value? := by
  induction directives with
  | nil => rfl
  | cons directive directives ih =>
    have rest := ih fun token member =>
      legible token (mem_numbers.mpr (.tail _ (mem_numbers.mp member)))
    cases directive with
    | operation action line => simpa [values, numbers] using rest
    | report error => simpa [values, numbers] using rest
    | number token =>
      obtain ⟨value, known⟩ := Option.isSome_iff_exists.mp (legible token (by simp [numbers]))
      simpa [values, numbers, known] using rest

theorem length_values {directives : List Directive} (legible : Legible directives) :
    (values directives).length = (numbers directives).length := by
  simpa using congrArg List.length (map_some_values legible)

theorem Legible.head {directive : Directive} {directives : List Directive}
    (legible : Legible (directive :: directives)) : Legible [directive] := by
  intro token member
  have first := List.mem_singleton.mp (mem_numbers.mp member)
  exact legible token (mem_numbers.mpr (by rw [first]; exact List.mem_cons_self))

theorem Legible.tail {directive : Directive} {directives : List Directive}
    (legible : Legible (directive :: directives)) : Legible directives := by
  intro token member
  exact legible token (mem_numbers.mpr (.tail _ (mem_numbers.mp member)))

end Directive

namespace Assembly

open Directive

theorem perform_number {assembly : Assembly} {token : Token} {value : Value}
    (known : token.value? = some value) :
    assembly.perform (.number token) = assembly.constant value token := by
  obtain ⟨x, found, rfl⟩ := Option.map_eq_some_iff.mp known
  simp [perform, found]

theorem load_grows (assembly : Assembly) (index : UInt8) (line : Nat) :
    Chunk.Grows assembly.chunk [(Opcode.constant.byte, line), (index, line)] []
      (assembly.load index line).chunk :=
  (Chunk.Grows.write _ _ _).trans (Chunk.Grows.write _ _ _)

@[simp] theorem chunk_report (assembly : Assembly) (error : CompileError) :
    (assembly.report error).chunk = assembly.chunk := by
  unfold report
  split <;> rfl

theorem constant_of_free (assembly : Assembly) (value : Value) (token : Token)
    (free : assembly.chunk.constants.size < maxConstants) :
    ∃ chunk, assembly.constant value token = { assembly with chunk }.load
        (.ofNat assembly.chunk.constants.size) token.line ∧
      Chunk.Grows assembly.chunk [] [value] chunk := by
  simp only [constant, Chunk.addConstant, free, dite_true]
  exact ⟨_, rfl, by simp, by simp, by simp⟩

theorem constant_of_full (assembly : Assembly) (value : Value) (token : Token)
    (full : ¬ assembly.chunk.constants.size < maxConstants) :
    assembly.constant value token =
      (assembly.report (.atToken token Objection.tooManyConstants.message)).load 0 token.line := by
  simp only [constant, Chunk.addConstant, full, dite_false]

/-- A constant takes a place in the pool while there is one; its code comes anyway. -/
theorem constant_grows (assembly : Assembly) (value : Value) (token : Token) {number : Nat}
    (size : assembly.chunk.constants.size = min number maxConstants) :
    Chunk.Grows assembly.chunk (cells number [.number token])
      ([value].take (maxConstants - number)) (assembly.constant value token).chunk := by
  by_cases free : assembly.chunk.constants.size < maxConstants
  · have inside : number < maxConstants := by omega
    have index : assembly.chunk.constants.size = number := by omega
    have place : [value].take (maxConstants - number) = [value] :=
      List.take_of_length_le (by simp; omega)
    obtain ⟨chunk, result, added⟩ := constant_of_free assembly value token free
    rw [result, index, place]
    simpa [cells, constantIndex, inside] using
      added.trans (load_grows { assembly with chunk } (.ofNat number) token.line)
  · have outside : ¬ number < maxConstants := by omega
    have place : [value].take (maxConstants - number) = [] := by
      rw [Nat.sub_eq_zero_of_le (by omega), List.take_zero]
    rw [constant_of_full assembly value token free, place]
    simpa [cells, constantIndex, outside] using load_grows (assembly.report _) 0 token.line

private theorem perform_grows (assembly : Assembly) {directive : Directive} {number : Nat}
    (size : assembly.chunk.constants.size = min number maxConstants)
    (legible : Legible [directive]) :
    Chunk.Grows assembly.chunk (cells number [directive])
      ((values [directive]).take (maxConstants - number)) (assembly.perform directive).chunk := by
  cases directive with
  | operation action line =>
    simpa [values, numbers, cells, perform, Assembly.write] using
      Chunk.Grows.write assembly.chunk action.byte line
  | number token =>
    obtain ⟨value, known⟩ := Option.isSome_iff_exists.mp (legible token (by simp [numbers]))
    have own : values [.number token] = [value] := by simp [values, numbers, known]
    rw [perform_number known, own]
    exact constant_grows assembly value token size
  | report error =>
    simpa [values, numbers, cells, perform] using Chunk.Grows.refl assembly.chunk

theorem size_perform (assembly : Assembly) {directive : Directive}
    (legible : Legible [directive]) :
    (assembly.perform directive).chunk.constants.size = assembly.chunk.constants.size +
      min (maxConstants - assembly.chunk.constants.size) (numbers [directive]).length := by
  have bounded := Nat.min_eq_left assembly.chunk.constants_size
  have grows := perform_grows assembly bounded.symm legible
  rw [grows.size, List.length_take, length_values legible]

theorem foldl_perform_grows {directives : List Directive} (legible : Legible directives)
    (assembly : Assembly) {number : Nat}
    (size : assembly.chunk.constants.size = min number maxConstants) :
    Chunk.Grows assembly.chunk (cells number directives)
      ((values directives).take (maxConstants - number))
      (directives.foldl perform assembly).chunk := by
  induction directives generalizing assembly number with
  | nil => simpa [values, numbers, cells] using Chunk.Grows.refl assembly.chunk
  | cons directive directives ih =>
    have first := perform_grows assembly size (legible.head)
    have count := length_values legible.head
    have size' : (assembly.perform directive).chunk.constants.size =
        min (number + (numbers [directive]).length) maxConstants := by
      rw [first.size, List.length_take]
      omega
    have whole := first.trans (ih legible.tail (assembly.perform directive) size')
    have shift : maxConstants - (number + (numbers [directive]).length) =
        maxConstants - number - (values [directive]).length := by omega
    rwa [shift, ← List.take_append, ← values_append, ← cells_append] at whole

theorem errors_report_of_ne_nil {assembly : Assembly} (failed : assembly.errors ≠ [])
    (error : CompileError) : (assembly.report error).errors = assembly.errors := by
  simp [report, failed]

theorem errors_report (assembly : Assembly) (error : CompileError) :
    (assembly.report error).errors ≠ [] := by
  unfold report
  split
  · simp
  next failed => simpa using failed

@[simp] theorem errors_load (assembly : Assembly) (index : UInt8) (line : Nat) :
    (assembly.load index line).errors = assembly.errors := rfl

theorem errors_constant_of_free {assembly : Assembly} (value : Value) (token : Token)
    (free : assembly.chunk.constants.size < maxConstants) :
    (assembly.constant value token).errors = assembly.errors := by
  obtain ⟨chunk, result, _⟩ := constant_of_free assembly value token free
  rw [result, errors_load]

theorem errors_constant_of_full {assembly : Assembly} (value : Value) (token : Token)
    (full : ¬ assembly.chunk.constants.size < maxConstants) :
    (assembly.constant value token).errors =
      (assembly.report (.atToken token Objection.tooManyConstants.message)).errors := by
  rw [constant_of_full assembly value token full, errors_load]

private theorem errors_perform_of_ne_nil {assembly : Assembly} (failed : assembly.errors ≠ [])
    (directive : Directive) : (assembly.perform directive).errors = assembly.errors := by
  cases directive with
  | operation action line => rfl
  | number token =>
    simp only [perform]
    split
    · by_cases free : assembly.chunk.constants.size < maxConstants
      · exact errors_constant_of_free _ token free
      · rw [errors_constant_of_full _ token free, errors_report_of_ne_nil failed]
    · exact errors_report_of_ne_nil failed _
  | report error => exact errors_report_of_ne_nil failed error

theorem errors_foldl_of_ne_nil {assembly : Assembly} (failed : assembly.errors ≠ [])
    (directives : List Directive) :
    (directives.foldl perform assembly).errors = assembly.errors := by
  induction directives generalizing assembly with
  | nil => rfl
  | cons directive directives ih =>
    have same := errors_perform_of_ne_nil failed directive
    rw [List.foldl_cons, ih (by rwa [same]), same]

theorem errors_foldl_of_report {directives : List Directive} {error : CompileError}
    (member : .report error ∈ directives) (assembly : Assembly) :
    (directives.foldl perform assembly).errors ≠ [] := by
  obtain ⟨before, after, rfl⟩ := List.append_of_mem member
  have failed : ((before.foldl perform assembly).report error).errors ≠ [] := errors_report _ _
  rw [List.foldl_append, List.foldl_cons]
  rwa [show perform _ (.report error) = report _ error from rfl, errors_foldl_of_ne_nil failed]

theorem errors_foldl_of_silent {directives : List Directive} (legible : Legible directives)
    (silent : ∀ error, .report error ∉ directives) (assembly : Assembly)
    (fits : assembly.chunk.constants.size + (numbers directives).length ≤ maxConstants) :
    (directives.foldl perform assembly).errors = assembly.errors := by
  induction directives generalizing assembly with
  | nil => rfl
  | cons directive directives ih =>
    rw [length_numbers_cons] at fits
    have size := size_perform assembly legible.head
    rw [List.foldl_cons, ih legible.tail (fun error member => silent error (.tail _ member)) _
      (by omega)]
    cases directive with
    | operation action line => rfl
    | report error => exact absurd List.mem_cons_self (silent error)
    | number token =>
      obtain ⟨value, known⟩ := Option.isSome_iff_exists.mp (legible token (by simp [numbers]))
      rw [perform_number known]
      exact errors_constant_of_free value token (by simp [numbers] at fits; omega)

theorem errors_foldl_of_overflow {directives : List Directive} (legible : Legible directives)
    (assembly : Assembly)
    (full : maxConstants < assembly.chunk.constants.size + (numbers directives).length) :
    (directives.foldl perform assembly).errors ≠ [] := by
  induction directives generalizing assembly with
  | nil => exact absurd assembly.chunk.constants_size (by simp [numbers] at full; omega)
  | cons directive directives ih =>
    rw [length_numbers_cons] at full
    have size := size_perform assembly legible.head
    rw [List.foldl_cons]
    by_cases room : (numbers [directive]).length ≤ maxConstants - assembly.chunk.constants.size
    · exact ih legible.tail _ (by omega)
    · cases directive with
      | operation action line => simp [numbers] at room
      | report error => simp [numbers] at room
      | number token =>
        obtain ⟨value, known⟩ := Option.isSome_iff_exists.mp (legible token (by simp [numbers]))
        have reported : ((assembly.perform (.number token)).errors) ≠ [] := by
          rw [perform_number known, errors_constant_of_full value token
            (by simp [numbers] at room; omega)]
          exact errors_report _ _
        rwa [errors_foldl_of_ne_nil reported]

/-- The error that a directive may lead to. -/
inductive Raises : Directive → CompileError → Prop where
  | report (error : CompileError) : Raises (.report error) error
  | number (token : Token) :
      Raises (.number token) (.atToken token Objection.tooManyConstants.message)

def Reportable (directives : List Directive) (error : CompileError) : Prop :=
  .report error ∈ directives ∨
    ∃ token, error = .atToken token Objection.tooManyConstants.message

private theorem Raises.reportable {directive : Directive} {error : CompileError}
    (raises : Raises directive error) {directives : List Directive}
    (member : directive ∈ directives) : Reportable directives error := by
  cases raises with
  | report => exact .inl member
  | number token => exact .inr ⟨token, rfl⟩

theorem errors_report_of_nil {assembly : Assembly} (clean : assembly.errors = [])
    (error : CompileError) : (assembly.report error).errors = [error] := by
  simp [report, clean]

private theorem errors_perform_cases {directive : Directive} (legible : Legible [directive])
    {assembly : Assembly} (clean : assembly.errors = []) :
    (assembly.perform directive).errors = [] ∨
      ∃ error, (assembly.perform directive).errors = [error] ∧ Raises directive error := by
  cases directive with
  | operation action line => exact .inl clean
  | report error => exact .inr ⟨error, errors_report_of_nil clean error, .report error⟩
  | number token =>
    obtain ⟨value, known⟩ := Option.isSome_iff_exists.mp (legible token (by simp [numbers]))
    rw [perform_number known]
    by_cases free : assembly.chunk.constants.size < maxConstants
    · exact .inl (by rw [errors_constant_of_free value token free, clean])
    · refine .inr ⟨_, ?_, .number token⟩
      rw [errors_constant_of_full value token free, errors_report_of_nil clean]

/-- Whatever happens, there is at most one report, and it goes back to a directive. -/
theorem errors_foldl_raised {directives : List Directive} (legible : Legible directives)
    (assembly : Assembly) (clean : assembly.errors = []) :
    (directives.foldl perform assembly).errors = [] ∨
      ∃ error, (directives.foldl perform assembly).errors = [error] ∧
        ∃ directive ∈ directives, Raises directive error := by
  induction directives generalizing assembly with
  | nil => exact .inl clean
  | cons directive directives ih =>
    rw [List.foldl_cons]
    rcases errors_perform_cases legible.head clean with none | ⟨error, one, raises⟩
    · rcases ih legible.tail _ none with none | ⟨error, one, cause, member, raises⟩
      · exact .inl none
      · exact .inr ⟨error, one, cause, .tail _ member, raises⟩
    · refine .inr ⟨error, ?_, directive, List.mem_cons_self, raises⟩
      rw [errors_foldl_of_ne_nil (by rw [one]; exact List.cons_ne_nil _ _), one]

theorem errors_foldl_cases {directives : List Directive} (legible : Legible directives)
    (assembly : Assembly) (clean : assembly.errors = []) :
    (directives.foldl perform assembly).errors = [] ∨
      ∃ error, (directives.foldl perform assembly).errors = [error] ∧
        Reportable directives error := by
  refine (errors_foldl_raised legible assembly clean).imp_right ?_
  rintro ⟨error, one, directive, member, raises⟩
  exact ⟨error, one, raises.reportable member⟩

end Assembly

end StackCalc
