import StackCalc.Proofs.Acceptance

/-! Chunks only ever grow at the end. Whatever is done to a chunk, in any order and whether
or not it succeeds, what was there stays where it is; so the index that a new constant gets
names this constant for good. -/

namespace StackCalc

namespace Chunk

/-- What can be done to a chunk. -/
inductive Edit where
  | write (byte : UInt8) (line : Nat)
  | writeOpcode (byte : UInt8) (line : Nat)
  | addConstant (value : Value)
  | compile (config : Config) (source : String)

/-- The chunk after an edit. Refused opcodes and constants change nothing, but a source that
does not compile still adds code. -/
def edit (chunk : Chunk) : Edit → Chunk
  | .write byte line => chunk.write byte line
  | .writeOpcode byte line =>
    match chunk.writeOpcode byte line with
    | .ok after => after
    | .error _ => chunk
  | .addConstant value =>
    match chunk.addConstant value with
    | .ok (_, after) => after
    | .error _ => chunk
  | .compile config source => (StackCalc.compile config source chunk).chunk

/-- What the first chunk has, the second has at the same place. -/
structure Keeps (before after : Chunk) : Prop where
  code : ∀ (offset : Nat) byte,
    before.code[offset]? = some byte → after.code[offset]? = some byte
  lines : ∀ (offset : Nat) line,
    before.lines[offset]? = some line → after.lines[offset]? = some line
  constants : ∀ (index : Nat) value,
    before.constants[index]? = some value → after.constants[index]? = some value

private theorem Keeps.refl (chunk : Chunk) : Keeps chunk chunk :=
  ⟨fun _ _ found => found, fun _ _ found => found, fun _ _ found => found⟩

private theorem Keeps.trans {first second third : Chunk} (start : Keeps first second)
    (rest : Keeps second third) : Keeps first third where
  code offset byte found := rest.code offset byte (start.code offset byte found)
  lines offset line found := rest.lines offset line (start.lines offset line found)
  constants index value found := rest.constants index value (start.constants index value found)

private theorem getElem?_of_append {α : Type} {before after : Array α} {added : List α}
    (split : after.toList = before.toList ++ added) {place : Nat} {item : α}
    (found : before[place]? = some item) : after[place]? = some item := by
  rw [← Array.getElem?_toList] at found ⊢
  rw [split, List.getElem?_append_left (List.getElem?_eq_some_iff.mp found).1, found]

theorem Grows.keeps {before after : Chunk} {cells : List (UInt8 × Nat)} {values : List Value}
    (grows : Grows before cells values after) : Keeps before after where
  code _ _ := getElem?_of_append grows.code
  lines _ _ := getElem?_of_append grows.lines
  constants _ _ := getElem?_of_append grows.constants

theorem addConstant_of_free (chunk : Chunk) (value : Value)
    (free : chunk.constants.size < maxConstants) :
    ∃ after, chunk.addConstant value = .ok (.ofNat chunk.constants.size, after) ∧
      Grows chunk [] [value] after := by
  simp only [addConstant, free, dite_true]
  exact ⟨_, rfl, by simp, by simp, by simp⟩

theorem addConstant_of_full (chunk : Chunk) (value : Value)
    (full : ¬ chunk.constants.size < maxConstants) :
    chunk.addConstant value = .error .constantPoolFull := by
  simp only [addConstant, full, dite_false]

theorem grows_compile (config : Config) (source : String) (chunk : Chunk) :
    let directives := Parser.directivesOf (tokensOf source)
    Grows chunk (Directive.cells chunk.constants.size directives)
      ((Directive.values directives).take (maxConstants - chunk.constants.size))
      (StackCalc.compile config source chunk).chunk := by
  have legible := legible_tokensOf source
  have bounded := Nat.min_eq_left chunk.constants_size
  exact Assembly.foldl_perform_grows legible { chunk } bounded.symm

private theorem keeps_edit (chunk : Chunk) (edit : Edit) : Keeps chunk (chunk.edit edit) := by
  cases edit with
  | write byte line => exact (Grows.write chunk byte line).keeps
  | writeOpcode byte line =>
    simp only [Chunk.edit, writeOpcode]
    cases Opcode.ofByte? byte with
    | none => exact .refl chunk
    | some opcode => exact (Grows.write chunk byte line).keeps
  | addConstant value =>
    by_cases free : chunk.constants.size < maxConstants
    · obtain ⟨after, added, grows⟩ := chunk.addConstant_of_free value free
      simp only [Chunk.edit, added]
      exact grows.keeps
    · simp only [Chunk.edit, chunk.addConstant_of_full value free]
      exact .refl chunk
  | compile config source => exact (grows_compile config source chunk).keeps

theorem keeps_edits (chunk : Chunk) (edits : List Edit) :
    Keeps chunk (edits.foldl Chunk.edit chunk) := by
  induction edits generalizing chunk with
  | nil => exact .refl chunk
  | cons edit edits ih => exact (keeps_edit chunk edit).trans (ih (chunk.edit edit))

end Chunk

/-- After any edits of an empty chunk, each byte has a line and an operand can name each
constant. One more edit leaves everything in its place. A constant that is added takes the
next index and keeps it; one that finds the pool full is refused, and nothing changes. -/
theorem chunk_append_only (edits : List Chunk.Edit) :
    let chunk := edits.foldl Chunk.edit .empty
    chunk.lines.size = chunk.code.size ∧ chunk.constants.size ≤ 256 ∧
    (∀ edit, chunk.Keeps (chunk.edit edit)) ∧
    (∀ value, chunk.constants.size < 256 → ∃ index after,
      chunk.addConstant value = .ok (index, after) ∧ chunk.edit (.addConstant value) = after ∧
      index.toNat = chunk.constants.size ∧
      ∀ later : List Chunk.Edit, (later.foldl Chunk.edit after).constant? index = some value) ∧
    (∀ value, chunk.constants.size = 256 →
      chunk.addConstant value = .error .constantPoolFull ∧
      chunk.edit (.addConstant value) = chunk) := by
  intro chunk
  refine ⟨chunk.lines_size, chunk.constants_size, chunk.keeps_edit, ?_, ?_⟩
  · intro value free
    obtain ⟨after, added, grows⟩ := chunk.addConstant_of_free value free
    have index : (UInt8.ofNat chunk.constants.size).toNat = chunk.constants.size :=
      UInt8.toNat_ofNat_of_lt' free
    refine ⟨_, after, added, by simp only [Chunk.edit, added], index, ?_⟩
    intro later
    have place : after.constants[chunk.constants.size]? = some value := by
      rw [← Array.getElem?_toList, grows.constants]
      simp
    rw [Chunk.constant?, index]
    exact (after.keeps_edits later).constants _ _ place
  · intro value full
    have refused := chunk.addConstant_of_full value (by simp [full, maxConstants])
    exact ⟨refused, by simp only [Chunk.edit, refused]⟩

/-- The last place of the pool is still given out, and a source that does not compile
afterwards leaves it alone. When that source takes the place itself, the pool is full. -/
theorem chunk_append_only_at_the_limit :
    let edits : List Chunk.Edit := List.replicate 255 (.addConstant .nil)
    let failing : Chunk.Edit := .compile {} "1 2"
    let free := edits.foldl Chunk.edit .empty
    let full := (edits ++ [failing]).foldl Chunk.edit .empty
    (free.constants.size = 255 ∧ ∃ index after, free.addConstant (.bool true) = .ok (index, after) ∧
      index.toNat = 255 ∧ (after.edit failing).constant? index = some (.bool true)) ∧
    full.constants.size = 256 ∧ full.code = #[0, 255, 13] ∧
    full.addConstant .nil = .error .constantPoolFull ∧ full.edit (.addConstant .nil) = full := by
  intro edits failing free full
  have room : free.constants.size = 255 := by decide +kernel
  have none : full.constants.size = 256 := by decide +kernel
  have code : full.code = #[0, 255, 13] := by decide +kernel
  have below : free.constants.size < 256 := by omega
  obtain ⟨_, _, _, accepts, _⟩ := chunk_append_only edits
  obtain ⟨_, _, _, _, refuses⟩ := chunk_append_only (edits ++ [failing])
  obtain ⟨index, after, added, _, place, stays⟩ := accepts (.bool true) below
  exact ⟨⟨room, index, after, added, place.trans room, stays [failing]⟩, none, code,
    refuses .nil none⟩

end StackCalc
