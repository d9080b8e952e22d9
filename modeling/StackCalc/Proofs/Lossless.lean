import StackCalc.Proofs.JsonReading

/-! Diagnostics lose nothing as JSON, on a single line. -/

namespace StackCalc

namespace Diagnostic

open JsonText

variable (diagnostic : Diagnostic)

def lineValue : Option Nat → Json
  | none => .null
  | some line => .number line

/-- What a diagnostic says, as the fields of an object. -/
def fields : List (String × Json) :=
  [("line", lineValue diagnostic.line)] ++
    (diagnostic.location.map fun location => ("location", .string location)).toList ++
    [("message", .string diagnostic.message), ("phase", .string diagnostic.phase.word),
      ("severity", .string diagnostic.severity.word)]

private theorem spells_line (line : Option Nat) :
    Json.Spells 1 ((line.map toString).getD "null") (lineValue line) := by
  cases line with
  | none => exact Json.spells_null
  | some line => exact Json.spells_toString line

private theorem read_json : Json.read? diagnostic.json = some (.object diagnostic.fields) := by
  have string := Json.spells_quoted
  have spells : Json.Spells 2 diagnostic.json (.object diagnostic.fields) := by
    apply Json.spells_object
    unfold fields
    cases diagnostic.location with
    | none =>
      exact .cons ⟨rfl, spells_line _⟩ <| .cons ⟨rfl, string _⟩ <| .cons ⟨rfl, string _⟩ <|
        .cons ⟨rfl, string _⟩ .nil
    | some location =>
      exact .cons ⟨rfl, spells_line _⟩ <| .cons ⟨rfl, string _⟩ <| .cons ⟨rfl, string _⟩ <|
        .cons ⟨rfl, string _⟩ <| .cons ⟨rfl, string _⟩ .nil
  exact Json.read_spelled spells (two_le_length_object _)

private theorem shown_json : Shown diagnostic.json := by
  refine shown_object fun field member => ?_
  simp only [List.mem_append, List.mem_cons, Option.mem_toList,
    Option.map_eq_some_iff, List.not_mem_nil, or_false] at member
  rcases member with (rfl | ⟨location, _, rfl⟩) | rfl | rfl | rfl
  · cases diagnostic.line with
    | none => decide
    | some line => exact shown_toString line
  all_goals exact shown_quoted _

private theorem lookup_fields :
    diagnostic.fields.lookup "line" = some (lineValue diagnostic.line) ∧
      diagnostic.fields.lookup "location" = diagnostic.location.map .string ∧
      diagnostic.fields.lookup "message" = some (.string diagnostic.message) ∧
      diagnostic.fields.lookup "phase" = some (.string diagnostic.phase.word) ∧
      diagnostic.fields.lookup "severity" = some (.string diagnostic.severity.word) := by
  unfold fields
  cases diagnostic.location with
  | none => exact ⟨rfl, rfl, rfl, rfl, rfl⟩
  | some location => exact ⟨rfl, rfl, rfl, rfl, rfl⟩

private theorem lineValue_injective {line other : Option Nat}
    (same : lineValue line = lineValue other) : line = other := by
  cases line with
  | none =>
    cases other with
    | none => rfl
    | some other => exact absurd same Json.noConfusion
  | some line =>
    cases other with
    | none => exact absurd same Json.noConfusion
    | some other => exact congrArg some (Rat.natCast_inj.mp (Json.number.inj same))

private theorem phase_of_word {phase other : Phase} (same : phase.word = other.word) :
    phase = other := by
  revert same
  cases phase <;> cases other <;> decide

private theorem severity_of_word {severity other : Severity} (same : severity.word = other.word) :
    severity = other := by
  revert same
  cases severity
  cases other
  decide

private theorem parts_of_fields {diagnostic other : Diagnostic}
    (same : diagnostic.fields = other.fields) :
    diagnostic.severity = other.severity ∧ diagnostic.phase = other.phase ∧
      diagnostic.message = other.message ∧ diagnostic.line = other.line ∧
      diagnostic.location = other.location := by
  have string {text more : String} (equal : some (Json.string text) = some (.string more)) :
      text = more := Json.string.inj (Option.some.inj equal)
  obtain ⟨line, location, message, phase, severity⟩ := diagnostic.lookup_fields
  rw [same] at line location message phase severity
  obtain ⟨otherLine, otherLocation, otherMessage, otherPhase, otherSeverity⟩ := other.lookup_fields
  refine ⟨severity_of_word ?_, phase_of_word ?_, ?_, lineValue_injective ?_, ?_⟩
  · exact string (severity.symm.trans otherSeverity)
  · exact string (phase.symm.trans otherPhase)
  · exact string (message.symm.trans otherMessage)
  · exact Option.some.inj (line.symm.trans otherLine)
  · exact Option.map_injective (fun _ _ => Json.string.inj) (location.symm.trans otherLocation)

end Diagnostic

/-- Reading the JSON of a diagnostic gives its parts back, each under its key and the
location only if there is one. No control character is in the text, and what is quoted from the
source apart, different diagnostics have different texts. -/
theorem json_tells_diagnostic (diagnostic : Diagnostic) :
    (∃ fields : List (String × Json),
      Json.read? diagnostic.json = some (.object fields) ∧
      fields.map Prod.fst =
        ["line"] ++ (if diagnostic.location.isSome then ["location"] else []) ++
          ["message", "phase", "severity"] ∧
      fields.lookup "line" = some (match diagnostic.line with
        | none => .null
        | some line => .number line) ∧
      fields.lookup "location" = diagnostic.location.map .string ∧
      fields.lookup "message" = some (.string diagnostic.message) ∧
      (∀ phase : Phase,
        fields.lookup "phase" = some (.string phase.word) ↔ phase = diagnostic.phase) ∧
      fields.lookup "severity" = some (.string diagnostic.severity.word)) ∧
    (∀ c ∈ diagnostic.json.toList, 0x20 ≤ c.toNat) ∧
    ∀ other : Diagnostic, diagnostic.json = other.json ↔
      diagnostic.severity = other.severity ∧ diagnostic.phase = other.phase ∧
        diagnostic.message = other.message ∧ diagnostic.line = other.line ∧
        diagnostic.location = other.location := by
  obtain ⟨line, location, message, phase, severity⟩ := diagnostic.lookup_fields
  refine ⟨⟨diagnostic.fields, diagnostic.read_json, ?_, line, location, message, ?_, severity⟩,
    diagnostic.shown_json, fun other => ⟨fun same => ?_, ?_⟩⟩
  · unfold Diagnostic.fields
    cases diagnostic.location <;> rfl
  · intro word
    rw [phase]
    constructor
    · intro same
      exact Diagnostic.phase_of_word (Json.string.inj (Option.some.inj same)).symm
    · rintro rfl
      rfl
  · have read := diagnostic.read_json
    rw [same, other.read_json] at read
    exact Diagnostic.parts_of_fields (Json.object.inj (Option.some.inj read)).symm
  · rintro ⟨severity, phase, message, line, location⟩
    simp only [Diagnostic.json, severity, phase, message, line, location]

/-- A message that looks like the end of its field and the next one is still a message. -/
example :
    Json.read? (Diagnostic.json { phase := .compile, message := "\",\"phase\":\"runtime" }) =
      some (.object [("line", .null), ("message", .string "\",\"phase\":\"runtime"),
        ("phase", .string "compile"), ("severity", .string "error")]) := by
  cbv

end StackCalc
