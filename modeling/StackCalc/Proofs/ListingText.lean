import StackCalc.Proofs.Trace

/-! What the text of a listing tells. It is cut into lines, and its lines into their parts, in one
way only. Numbers are told from their digits and from bars, and no two instructions are shown
alike, but for constants that look the same. -/

namespace StackCalc

/-- A text is cut in one way at the first of its separators. -/
theorem cut_unique {c : Char} {first second rest behind : List Char} (bare : c ∉ first)
    (also : c ∉ second) (same : first ++ c :: rest = second ++ c :: behind) :
    first = second ∧ rest = behind := by
  rcases List.append_eq_append_iff.mp same with ⟨more, rfl, tail⟩ | ⟨more, rfl, tail⟩
  all_goals
    cases more with
    | nil => exact ⟨by simp, by simpa [eq_comm] using tail⟩
    | cons d more =>
      obtain ⟨rfl, _⟩ := List.cons.inj tail
      simp at bare also

theorem toList_toString (count : Nat) : (toString count).toList = Nat.toDigits 10 count := by
  rw [Nat.toString_eq_ofList_toDigits, String.toList_ofList]

private theorem toString_injective {count other : Nat} (same : toString count = toString other) :
    count = other := by
  have digits := congrArg (fun text => Nat.ofDigitChars 10 text.toList 0) same
  simpa only [toList_toString, Nat.ofDigitChars_ten_toDigits] using digits

theorem not_mem_toString {c : Char} (other : ¬ c.isDigit) (count : Nat) :
    c ∉ (toString count).toList := by
  rw [toList_toString]
  exact fun member => other (Nat.isDigit_of_mem_toDigits (by decide) (by decide) member)

/-- A text that is told from the blanks around it. -/
def Unspaced (text : String) : Prop := text ≠ "" ∧ ' ' ∉ text.toList

theorem unspaced_toString (count : Nat) : Unspaced (toString count) := by
  refine ⟨fun empty => ?_, not_mem_toString (by decide) count⟩
  have none := congrArg String.toList empty
  rw [toList_toString] at none
  exact Nat.toDigits_ne_nil none

private theorem Unspaced.dropWhile {text : String} (word : Unspaced text) (width : Nat)
    (rest : List Char) :
    ((Column.right width ' ' text).toList ++ rest).dropWhile (· == ' ') = text.toList ++ rest := by
  obtain ⟨some, bare⟩ := word
  rw [Column.right, String.toList_append, String.toList_ofList, List.append_assoc,
    List.dropWhile_append_of_pos (by simp +contextual)]
  cases letters : text.toList with
  | nil => exact absurd (String.toList_inj.mp (letters.trans String.toList_empty.symm)) some
  | cons c letters =>
    rw [letters] at bare
    simp only [List.mem_cons, not_or] at bare
    rw [List.cons_append, List.dropWhile_cons_of_neg (by simpa using Ne.symm bare.1)]

/-- What is set right is told from the blanks before and behind it. -/
theorem Unspaced.unique {first second rest behind : String} (word : Unspaced first)
    (also : Unspaced second) {width : Nat}
    (same : Column.right width ' ' first ++ (" " ++ rest) =
      Column.right width ' ' second ++ (" " ++ behind)) : first = second ∧ rest = behind := by
  have texts := congrArg (fun text => text.toList.dropWhile (· == ' ')) same
  simp only [String.toList_append, word.dropWhile, also.dropWhile] at texts
  obtain ⟨words, rests⟩ := cut_unique word.2 also.2 texts
  exact ⟨String.toList_inj.mp words, String.toList_inj.mp rests⟩

private theorem join_unique {first second : List String} (single : ∀ line ∈ first, SingleLine line)
    (also : ∀ line ∈ second, SingleLine line)
    (same : String.join (first.map (· ++ "\n")) = String.join (second.map (· ++ "\n"))) :
    first = second := by
  induction first generalizing second with
  | nil =>
    cases second with
    | nil => rfl
    | cons line second => simp at same
  | cons line first ih =>
    cases second with
    | nil => simp at same
    | cons other second =>
      have texts := congrArg String.toList same
      simp only [List.map_cons, String.join_cons, String.toList_append, List.append_assoc] at texts
      obtain ⟨lines, rests⟩ := cut_unique (single line List.mem_cons_self)
        (also other List.mem_cons_self) texts
      rw [String.toList_inj.mp lines, ih (fun _ member => single _ (.tail _ member))
        (fun _ member => also _ (.tail _ member)) (String.toList_inj.mp rests)]

private theorem Operation.mnemonic_injective {operation other : Operation}
    (same : operation.mnemonic = other.mnemonic) : operation = other := by
  cases operation <;> cases other <;> first | rfl | exact absurd same (by decide)

private theorem Operation.length_mnemonic_lt (operation : Operation) :
    operation.mnemonic.toList.length < 9 := by
  cases operation <;> decide

namespace Chunk

variable {chunk first second : Chunk} {offset : Nat}

theorem exists_line (inside : offset < chunk.code.size) :
    ∃ line, chunk.line? offset = some line :=
  ⟨_, Array.getElem?_eq_getElem (by rwa [chunk.lines_size])⟩

/-- What the mark of a byte shows. -/
inductive Marked (chunk : Chunk) (offset : Nat) : String → Prop where
  | again (later : 0 < offset) (same : chunk.line? (offset - 1) = chunk.line? offset) :
      Marked chunk offset "|"
  | shown {line : Nat} (own : chunk.line? offset = some line) :
      Marked chunk offset (toString line)

theorem lineMark_marked (inside : offset < chunk.code.size) :
    ∃ word, chunk.Marked offset word ∧
      chunk.lineMark offset = Column.right 4 ' ' word ++ " " := by
  obtain ⟨line, own⟩ := exists_line inside
  unfold lineMark
  rw [own]
  dsimp only
  split
  next again =>
    simp only [Bool.and_eq_true, decide_eq_true_eq, beq_iff_eq] at again
    exact ⟨_, .again again.1 (again.2.trans own.symm), rfl⟩
  next => exact ⟨_, .shown own, rfl⟩

private theorem Marked.word {word : String} (marked : chunk.Marked offset word) :
    Unspaced word := by
  cases marked with
  | again => exact ⟨by decide, by decide⟩
  | shown => exact unspaced_toString _

theorem bar_ne_toString (line : Nat) : "|" ≠ toString line := by
  intro same
  have bar : '|' ∈ (toString line).toList := by simp [← same]
  exact not_mem_toString (by decide) line bar

theorem Marked.line_eq {word : String} (marked : first.Marked offset word)
    (also : second.Marked offset word)
    (before : 0 < offset → first.line? (offset - 1) = second.line? (offset - 1)) :
    first.line? offset = second.line? offset := by
  generalize copy : word = other at also
  cases marked with
  | again later same =>
    cases also with
    | again _ others => rw [← same, ← others, before later]
    | shown => exact absurd copy (bar_ne_toString _)
  | shown own =>
    cases also with
    | again => exact absurd copy.symm (bar_ne_toString _)
    | shown others => rw [own, others, toString_injective copy]

/-- The tenth character of what is shown for an instruction tells its form. -/
def Fetched.tenth : Fetched → Option Char
  | .instruction (.constant _) => some ' '
  | .instruction (.plain _) => none
  | .unknown _ => some 'p'
  | .truncated => some '<'
  | .pastEnd => some 'h'

private theorem getElem?_fetchedText (chunk : Chunk) (fetched : Fetched) :
    (chunk.fetchedText fetched).toList[9]? = fetched.tenth := by
  cases fetched with
  | instruction instruction =>
    cases instruction with
    | constant index =>
      have name : Column.left 16 Opcode.constant.mnemonic = "CONSTANT        " := by decide
      simp [fetchedText, constantText, name, Fetched.tenth]
    | plain operation =>
      exact List.getElem?_eq_none (Nat.le_of_lt operation.length_mnemonic_lt)
  | unknown byte => simp [fetchedText, String.toList_append, Fetched.tenth]
  | truncated => simp [fetchedText, Opcode.mnemonic, Fetched.tenth]
  | pastEnd => simp [fetchedText, Fetched.tenth]

/-- The constant is shown in quotes, and what is missing is not. -/
theorem constantText_unique {index other : UInt8}
    (same : first.constantText index = second.constantText other) : index = other ∧
      (first.constant? index).map Value.text = (second.constant? other).map Value.text := by
  unfold constantText at same
  simp only [String.append_assoc, String.append_right_inj] at same
  obtain ⟨numbers, shown⟩ := (unspaced_toString _).unique (unspaced_toString _) same
  refine ⟨UInt8.toNat_inj.mp (toString_injective numbers), ?_⟩
  have quote (text : String) : "<missing constant>" ≠ "'" ++ text ++ "'" := by
    intro same
    have heads := congrArg (fun text => text.toList.head?) same
    simp at heads
  cases known : first.constant? index with
  | none =>
    cases also : second.constant? other with
    | none => rfl
    | some value =>
      rw [known, also] at shown
      exact absurd shown (quote value.text)
  | some value =>
    cases also : second.constant? other with
    | none =>
      rw [known, also] at shown
      exact absurd shown.symm (quote value.text)
    | some twin =>
      rw [known, also] at shown
      simpa using shown

/-- Instructions of one form, whatever their bytes are. -/
inductive Fetched.Alike : Fetched → Fetched → Prop where
  | constant (index other : UInt8) :
      Alike (.instruction (.constant index)) (.instruction (.constant other))
  | plain (operation other : Operation) :
      Alike (.instruction (.plain operation)) (.instruction (.plain other))
  | unknown (byte other : UInt8) : Alike (.unknown byte) (.unknown other)
  | truncated : Alike .truncated .truncated
  | pastEnd : Alike .pastEnd .pastEnd

private theorem Fetched.alike_of_tenth {fetched other : Fetched}
    (same : fetched.tenth = other.tenth) : fetched.Alike other := by
  rcases fetched with ⟨_ | _⟩ | _ | _ | _ <;> rcases other with ⟨_ | _⟩ | _ | _ | _ <;>
    first | constructor | (simp [tenth] at same)

/-- No two instructions are shown alike, but for constants that look the same. -/
theorem fetchedText_unique {fetched other : Fetched}
    (same : first.fetchedText fetched = second.fetchedText other) :
    fetched = other ∧ ∀ index, fetched = .instruction (.constant index) →
      (first.constant? index).map Value.text = (second.constant? index).map Value.text := by
  have tenths : fetched.tenth = other.tenth := by
    rw [← getElem?_fetchedText first, same, getElem?_fetchedText]
  cases Fetched.alike_of_tenth tenths with
  | constant index other =>
    obtain ⟨rfl, shown⟩ := constantText_unique same
    refine ⟨rfl, ?_⟩
    rintro _ ⟨⟩
    exact shown
  | plain operation other =>
    obtain rfl := Operation.mnemonic_injective same
    exact ⟨rfl, nofun⟩
  | unknown byte other =>
    have numbers := (String.append_right_inj _).mp same
    obtain rfl := UInt8.toNat_inj.mp (toString_injective numbers)
    exact ⟨rfl, nofun⟩
  | truncated => exact ⟨rfl, nofun⟩
  | pastEnd => exact ⟨rfl, nofun⟩

theorem instructionText_unique (inside : offset < first.code.size)
    (also : offset < second.code.size)
    (same : first.instructionText offset = second.instructionText offset) :
    (∃ word, first.Marked offset word ∧ second.Marked offset word) ∧
      first.fetchedText (first.fetch offset) = second.fetchedText (second.fetch offset) := by
  obtain ⟨word, marked, mark⟩ := lineMark_marked inside
  obtain ⟨other, others, twin⟩ := lineMark_marked also
  unfold instructionText at same
  simp only [mark, twin, String.append_assoc, String.append_right_inj] at same
  obtain ⟨rfl, texts⟩ := marked.word.unique others.word same
  exact ⟨⟨word, marked, others⟩, texts⟩

theorem instructionLines_unique {name : String} (same : first.listing name = second.listing name) :
    first.instructionLines = second.instructionLines := by
  have single (chunk : Chunk) : ∀ line ∈ chunk.instructionLines, SingleLine line := by
    intro line member
    obtain ⟨offset, _, rfl⟩ := List.mem_map.mp member
    exact singleLine_instructionText offset
  rw [listing_eq, listing_eq, String.append_right_inj] at same
  exact join_unique (single first) (single second) same

end Chunk

end StackCalc
