import Mathlib.Data.List.Forall2
import StackCalc.Json
import StackCalc.JsonText
import StackCalc.Proofs.ListingText

/-! What is written as JSON is read back. A character stands for itself or is escaped, and an
escape is read as the character it was made of; so no text can end its own quotes, and a reader
finds the fields that were written and no others. -/

namespace StackCalc

namespace Json

/-- Text that cannot go on with the value before it: the end of a field, or of the whole. -/
def Ends (rest : List Char) : Prop := ∀ c ∈ rest.head?, c = ',' ∨ c = '\x7d'

/-- A value that is read from a text wherever this stands, given room for `depth` values inside
each other. -/
def Spells (depth : Nat) (text : String) (json : Json) : Prop :=
  ∀ room rest, Ends rest → value? (room + depth) (text.toList ++ rest) = some (json, rest)

@[simp]
private theorem skip_cons {c : Char} (shown : isBlank c = false) (text : List Char) :
    skip (c :: text) = c :: text := by
  simp [skip, shown]

private theorem hexValue_digitChar {digit : Nat} (small : digit < 16) :
    hexValue? (Nat.digitChar digit) = some digit := by
  revert digit
  decide

private theorem unit_digits {code : Nat} (small : code < 256) (text : List Char) :
    unit? ('0' :: '0' :: Nat.digitChar (code / 16) :: Nat.digitChar (code % 16) :: text) =
      some (code, text) := by
  have zero : hexValue? '0' = some 0 := rfl
  have high := hexValue_digitChar (by omega : code / 16 < 16)
  have low := hexValue_digitChar (by omega : code % 16 < 16)
  simp [unit?, zero, high, low, Nat.div_add_mod']

end Json

namespace JsonText

open Json

/-- A character that is written as itself, or as an escape that is read back. -/
inductive Escaped (c : Char) : List Char → Prop
  | plain (other : c ≠ '"') (also : c ≠ '\\') (shown : 0x20 ≤ c.toNat) : Escaped c [c]
  | mark (mark : List Char) (shown : ∀ d ∈ mark, 0x20 ≤ d.toNat)
      (back : ∀ text, escaped? (mark ++ text) = some (c, text)) : Escaped c ('\\' :: mark)

private theorem digitChar_shown {digit : Nat} (small : digit < 16) :
    0x20 ≤ (Nat.digitChar digit).toNat := by
  revert digit
  decide

private theorem escaped_code {c : Char} (control : c.toNat < 0x20) :
    Escaped c ['\\', 'u', '0', '0', Nat.digitChar (c.toNat / 16), Nat.digitChar (c.toNat % 16)] := by
  refine .mark _ ?_ fun text => ?_
  · have high := digitChar_shown (by omega : c.toNat / 16 < 16)
    have low := digitChar_shown (by omega : c.toNat % 16 < 16)
    simpa using ⟨high, low⟩
  · have unit := unit_digits (by omega : c.toNat < 256) text
    have valid : c.toNat.isValidChar := .inl (by omega)
    simp [escaped?, unit, valid]

private theorem escaped_escape (c : Char) : Escaped c (escape c) := by
  unfold escape
  split
  next quote => exact beq_iff_eq.mp quote ▸ .mark ['"'] (by simp) fun _ => rfl
  next quote =>
  split
  next slash => exact beq_iff_eq.mp slash ▸ .mark ['\\'] (by simp) fun _ => rfl
  next slash =>
  split
  next newline => exact beq_iff_eq.mp newline ▸ .mark ['n'] (by simp) fun _ => rfl
  split
  next carriage => exact beq_iff_eq.mp carriage ▸ .mark ['r'] (by simp) fun _ => rfl
  split
  next tab => exact beq_iff_eq.mp tab ▸ .mark ['t'] (by simp) fun _ => rfl
  split
  next back => exact beq_iff_eq.mp back ▸ .mark ['b'] (by simp) fun _ => rfl
  split
  next feed => exact beq_iff_eq.mp feed ▸ .mark ['f'] (by simp) fun _ => rfl
  split
  next control => exact escaped_code control
  next shown => exact .plain (by simpa using quote) (by simpa using slash) (by omega)

private theorem Escaped.ne_nil {c : Char} {text : List Char} (escaped : Escaped c text) :
    text ≠ [] := by
  cases escaped <;> exact List.cons_ne_nil _ _

private theorem Escaped.shown {c : Char} {text : List Char} (escaped : Escaped c text) :
    ∀ d ∈ text, 0x20 ≤ d.toNat := by
  cases escaped with
  | plain other also shown => simpa using shown
  | mark mark shown back => simpa using shown

/-- Behind the escape of a character a reader goes on as if it had read the character. -/
theorem Escaped.characters {c : Char} {text bound more content rest : List Char}
    (escaped : Escaped c text) (last : Char)
    (read : characters? bound more = some (content, rest)) :
    characters? (last :: bound) (text ++ more) = some (c :: content, rest) := by
  cases escaped with
  | plain other also shown =>
    simp [characters?, Nat.not_lt.mpr shown, read]
  | mark mark shown back =>
    simp [characters?, back, read]

private theorem length_le_escaped (content : List Char) :
    content.length ≤ (content.flatMap escape).length := by
  induction content with
  | nil => exact Nat.le_refl _
  | cons c content ih =>
    have some := List.length_pos_iff.mpr (escaped_escape c).ne_nil
    rw [List.flatMap_cons, List.length_append, List.length_cons]
    omega

/-- The first quote that is not escaped is the one that closes. -/
theorem characters_escaped {content bound : List Char} (room : content.length < bound.length)
    (rest : List Char) :
    characters? bound (content.flatMap escape ++ '"' :: rest) = some (content, rest) := by
  -- A round reads a character of the content, however long its escape is.
  induction content generalizing bound with
  | nil =>
    cases bound with
    | nil => exact absurd room (Nat.not_lt_zero _)
    | cons last bound => rfl
  | cons c content ih =>
    cases bound with
    | nil => exact absurd room (Nat.not_lt_zero _)
    | cons last bound =>
      rw [List.flatMap_cons, List.append_assoc]
      exact (escaped_escape c).characters last (ih (Nat.lt_of_succ_lt_succ room))

private theorem toList_quoted (text : String) :
    (quoted text).toList = '"' :: (text.toList.flatMap escape ++ ['"']) := by
  simp [quoted]

private theorem string_quoted (text : String) (rest : List Char) :
    string? (text.toList.flatMap escape ++ '"' :: rest) = some (text, rest) := by
  have room : text.toList.length < (text.toList.flatMap escape ++ '"' :: rest).length := by
    rw [List.length_append, List.length_cons]
    have within := length_le_escaped text.toList
    omega
  rw [string?, characters_escaped room]
  simp

end JsonText

namespace Json

open JsonText

theorem spells_null : Spells 1 "null" .null := fun _ _ _ => rfl

theorem spells_quoted (text : String) : Spells 1 (quoted text) (.string text) := by
  intro room rest _
  simp [toList_quoted, value?, isBlank, string_quoted]

private theorem takeWhile_append_ends {digits rest : List Char} (all : ∀ c ∈ digits, c.isDigit)
    (ends : Ends rest) : (digits ++ rest).takeWhile Char.isDigit = digits ∧
      (digits ++ rest).dropWhile Char.isDigit = rest := by
  rw [List.takeWhile_append_of_pos all, List.dropWhile_append_of_pos all]
  cases rest with
  | nil => simp
  | cons c rest => rcases ends c rfl with rfl | rfl <;> simp

/-- A number is written without zeros in front. -/
theorem head_toDigits {number : Nat} (zero : (Nat.toDigits 10 number).head? = some '0') :
    number = 0 := by
  induction number using Nat.strongRecOn with
  | ind number ih =>
    rw [Nat.toDigits_eq_if (by decide)] at zero
    split at zero
    next small =>
      have only : ∀ digit < 10, Nat.digitChar digit = '0' → digit = 0 := by decide
      exact only number small (Option.some.inj zero)
    next large =>
      have some : Nat.toDigits 10 (number / 10) ≠ [] := Nat.toDigits_ne_nil
      rw [List.head?_append_of_ne_nil _ some] at zero
      have tens := ih (number / 10) (by omega) zero
      omega

private theorem isDigit_toDigits (number : Nat) : ∀ c ∈ Nat.toDigits 10 number, c.isDigit :=
  fun _ member => Nat.isDigit_of_mem_toDigits (by decide) (by decide) member

private theorem whole_toDigits (number : Nat) {rest : List Char} (ends : Ends rest) :
    whole? (Nat.toDigits 10 number ++ rest) = some (number, rest) := by
  obtain ⟨taken, left⟩ := takeWhile_append_ends (isDigit_toDigits number) ends
  have filled : Nat.toDigits 10 number ≠ [] := Nat.toDigits_ne_nil
  have front : (Nat.toDigits 10 number).head? = some '0' → (Nat.toDigits 10 number).length = 1 :=
    fun zero => head_toDigits zero ▸ rfl
  simpa [whole?, digits?, taken, left, filled] using front

private theorem fraction_ends {rest : List Char} (ends : Ends rest) :
    fraction? rest = some (0, rest) := by
  cases rest with
  | nil => rfl
  | cons c rest => rcases ends c rfl with rfl | rfl <;> rfl

private theorem power_ends {rest : List Char} (ends : Ends rest) :
    power? rest = some (1, rest) := by
  cases rest with
  | nil => rfl
  | cons c rest => rcases ends c rfl with rfl | rfl <;> rfl

private theorem unsigned_toDigits (number : Nat) {rest : List Char} (ends : Ends rest) :
    unsigned? (Nat.toDigits 10 number ++ rest) = some ((number : Rat), rest) := by
  simp only [unsigned?, whole_toDigits number ends, fraction_ends ends, power_ends ends,
    Option.bind_eq_bind, Option.bind_some, Option.pure_def, Rat.add_zero, Rat.mul_one]

private theorem number_digit {c : Char} (digit : c.isDigit) (text : List Char) :
    number? (c :: text) = unsigned? (c :: text) := by
  unfold number?
  split
  next same => exact absurd digit ((List.cons.inj same).1 ▸ by decide)
  next => rfl

private theorem value_digit {c : Char} (digit : c.isDigit) (room : Nat) (text : List Char) :
    value? (room + 1) (c :: text) =
      (unsigned? (c :: text)).map fun (value, text) => (.number value, text) := by
  have shown : isBlank c = false := by
    by_contra blank
    simp only [isBlank, Bool.not_eq_false, Bool.or_eq_true, beq_iff_eq] at blank
    rcases blank with ((rfl | rfl) | rfl) | rfl <;> exact absurd digit (by decide)
  rw [value?, skip_cons shown]
  -- No word and no mark starts with a digit.
  split
  all_goals try next same => exact absurd digit ((List.cons.inj same).1 ▸ by decide)
  next => rw [number_digit digit]

theorem spells_toString (number : Nat) : Spells 1 (toString number) (.number number) := by
  intro room rest ends
  have read := unsigned_toDigits number ends
  rw [toList_toString]
  cases digits : Nat.toDigits 10 number with
  | nil => exact absurd digits Nat.toDigits_ne_nil
  | cons c more =>
    have digit : c.isDigit := isDigit_toDigits number c (digits ▸ List.mem_cons_self)
    rw [digits] at read
    rw [List.cons_append, value_digit digit, ← List.cons_append, read]
    rfl

private theorem ends_nil : Ends [] := by
  simp [Ends]

private theorem ends_comma (rest : List Char) : Ends (',' :: rest) := by
  simp [Ends]

private theorem ends_brace (rest : List Char) : Ends ('\x7d' :: rest) := by
  simp [Ends]

private theorem field_spelled {depth : Nat} {text : String} {json : Json}
    (spells : Spells depth text json) (room : Nat) (key : String) {rest : List Char}
    (ends : Ends rest) :
    field? (value? (room + depth)) ((quoted key ++ ":" ++ text).toList ++ rest) =
      some ((key, json), rest) := by
  have read := spells room rest ends
  simp [field?, toList_quoted, isBlank, string_quoted, read]

section Series

variable {α : Type} {item : List Char → Option (α × List Char)}

private theorem length_le_intercalate (pieces : List (List Char)) :
    pieces.length ≤ ([','].intercalate pieces).length + 1 := by
  induction pieces with
  | nil => exact Nat.zero_le _
  | cons piece pieces ih =>
    cases pieces with
    | nil => simp
    | cons next pieces =>
      rw [List.intercalate_cons_cons]
      simp only [List.length_append, List.length_cons] at ih ⊢
      omega

/-- Items with commas between them are read one after the other. -/
theorem items_intercalate {pieces : List (List Char)} {values : List α}
    (read : List.Forall₂ (fun piece value => ∀ rest, Ends rest →
      item (piece ++ rest) = some (value, rest)) pieces values)
    (filled : pieces ≠ []) {bound : List Char} (room : pieces.length ≤ bound.length)
    (rest : List Char) :
    items? item '\x7d' bound ([','].intercalate pieces ++ '\x7d' :: rest) = some (values, rest) := by
  induction read generalizing bound with
  | nil => exact absurd rfl filled
  | @cons piece value pieces values first read ih =>
    cases bound with
    | nil => exact absurd room (Nat.not_succ_le_zero _)
    | cons last bound =>
      cases read with
      | nil =>
        have one := first _ (ends_brace rest)
        simp [items?, one, isBlank]
      | cons second read =>
        have one := fun behind => first _ (ends_comma behind)
        have more := ih (List.cons_ne_nil _ _) (Nat.le_of_succ_le_succ room)
        simp [items?, List.intercalate_cons_cons, one, isBlank, more]

private theorem series_intercalate {pieces : List (List Char)} {values : List α}
    (read : List.Forall₂ (fun piece value => ∀ rest, Ends rest →
      item (piece ++ rest) = some (value, rest)) pieces values)
    (quoted : ∀ piece ∈ pieces, piece.head? = some '"') (rest : List Char) :
    series? item '\x7d' ([','].intercalate pieces ++ '\x7d' :: rest) = some (values, rest) := by
  have room : pieces.length ≤ ([','].intercalate pieces ++ '\x7d' :: rest).length := by
    have within := length_le_intercalate pieces
    rw [List.length_append, List.length_cons]
    omega
  cases read with
  | nil =>
    simp [series?, isBlank]
  | @cons piece value pieces values first read =>
    obtain ⟨more, rfl⟩ := List.head?_eq_some_iff.mp (quoted piece List.mem_cons_self)
    have items := items_intercalate (.cons first read) (List.cons_ne_nil _ _) room rest
    rw [List.intercalate_cons_cons_left, List.cons_append] at items ⊢
    simp [series?, isBlank, items]

end Series

/-- An object is read field by field, with room for one value more than its fields need. -/
theorem spells_object {depth : Nat} {fields : List (String × String)}
    {entries : List (String × Json)}
    (spells : List.Forall₂ (fun field entry => field.1 = entry.1 ∧ Spells depth field.2 entry.2)
      fields entries) :
    Spells (depth + 1) (JsonText.object fields) (.object entries) := by
  intro room rest _
  let spelled := fun field : String × String => (quoted field.1 ++ ":" ++ field.2).toList
  have text : (JsonText.object fields).toList ++ rest =
      '\x7b' :: ([','].intercalate (fields.map spelled) ++ '\x7d' :: rest) := by
    simp [JsonText.object, spelled, Function.comp_def]
  have each : List.Forall₂ (fun piece entry => ∀ rest, Ends rest →
      field? (value? (room + depth)) (piece ++ rest) = some (entry, rest))
      (fields.map spelled) entries := by
    refine List.forall₂_map_left_iff.mpr (spells.imp fun field entry ⟨key, spells⟩ rest ends => ?_)
    rw [field_spelled spells room field.1 ends, key]
  have quotes : ∀ piece ∈ fields.map spelled, piece.head? = some '"' := by
    intro piece member
    obtain ⟨field, _, rfl⟩ := List.mem_map.mp member
    simp [spelled, toList_quoted]
  have read := series_intercalate each quotes rest
  rw [text, ← Nat.add_assoc]
  simp [value?, isBlank, read]

/-- A text that is spelled is read, if it is as long as its values are deep. -/
theorem read_spelled {depth : Nat} {text : String} {json : Json} (spells : Spells depth text json)
    (long : depth ≤ text.length) : read? text = some json := by
  have read := spells (text.length - depth) [] ends_nil
  rw [List.append_nil, Nat.sub_add_cancel long] at read
  rw [read?, read]
  rfl

end Json

namespace JsonText

open Json

/-- A text without control characters. -/
def Shown (text : String) : Prop := ∀ c ∈ text.toList, 0x20 ≤ c.toNat

instance (text : String) : Decidable (Shown text) := List.decidableBAll _ _

private theorem Shown.append {first second : String} (one : Shown first) (other : Shown second) :
    Shown (first ++ second) := by
  intro c member
  rw [String.toList_append, List.mem_append] at member
  exact member.elim (one c) (other c)

theorem shown_toString (count : Nat) : Shown (toString count) := by
  intro c member
  rw [toList_toString] at member
  have digit := isDigit_toDigits count c member
  simp only [Char.isDigit, Bool.and_eq_true, decide_eq_true_eq] at digit
  exact Nat.le_trans (by decide) (UInt32.le_iff_toNat_le.mp digit.1)

theorem shown_quoted (text : String) : Shown (quoted text) := by
  intro c member
  simp only [toList_quoted, List.mem_cons, List.mem_append, List.mem_flatMap, List.not_mem_nil,
    or_false] at member
  rcases member with rfl | ⟨d, _, member⟩ | rfl
  · decide
  · exact (escaped_escape d).shown c member
  · decide

private theorem shown_intercalate {pieces : List String} (shown : ∀ piece ∈ pieces, Shown piece) :
    Shown (",".intercalate pieces) := by
  induction pieces with
  | nil => simp [Shown]
  | cons piece pieces ih =>
    have own := shown piece List.mem_cons_self
    have others := ih fun other member => shown other (List.mem_cons_of_mem _ member)
    cases pieces with
    | nil => rwa [String.intercalate_singleton]
    | cons next pieces =>
      rw [String.intercalate_cons_cons]
      exact (own.append (by decide)).append others

theorem two_le_length_object (fields : List (String × String)) : 2 ≤ (object fields).length := by
  have opening : "\x7b".length = 1 := rfl
  have closing : "\x7d".length = 1 := rfl
  rw [object, String.length_append, String.length_append]
  omega

theorem shown_object {fields : List (String × String)}
    (shown : ∀ field ∈ fields, Shown field.2) : Shown (object fields) := by
  have opening : Shown "\x7b" := by decide
  have closing : Shown "\x7d" := by decide
  have colon : Shown ":" := by decide
  refine (opening.append (shown_intercalate fun piece listed => ?_)).append closing
  obtain ⟨field, member, rfl⟩ := List.mem_map.mp listed
  exact ((shown_quoted _).append colon).append (shown field member)

end JsonText

end StackCalc
