import StackCalc.Proofs.Trace

/-! How a run ends can be told by counting. A walk straight through the bytes, which knows
how many values each instruction takes and leaves but not what they are, comes to the fault
or the return in which the run ends, unless an instruction before that finds operands of the
wrong kind. -/

namespace StackCalc

/-- How many values an operation takes from the stack. -/
def Operation.operands : Operation → Nat
  | .nil | .true | .false => 0
  | .not | .negate | .return => 1
  | .equal | .greater | .less | .add | .subtract | .multiply | .divide => 2

/-- The end of a run: a fault, or a value with so many others left beneath it. -/
inductive Forecast where
  | fault (fault : Fault)
  | value (beneath : Nat)
  deriving DecidableEq, Repr

/-- What counting tells about one instruction: the height of the stack behind it, or that it
is the last one. -/
inductive Count where
  | on (height : Nat)
  | stop (forecast : Forecast)
  deriving DecidableEq, Repr

def Count.push (height : Nat) : Count :=
  if height < maxStack then .on (height + 1) else .stop (.fault .stackOverflow)

def Operation.count (operation : Operation) (height : Nat) : Count :=
  if height < operation.operands then .stop (.fault .stackUnderflow)
  else if operation = .return then .stop (.value (height - 1))
  else .push (height - operation.operands)

private theorem Count.push_le {height next : Nat} (counted : Count.push height = .on next) :
    next ≤ maxStack := by
  unfold Count.push at counted
  split at counted
  next room => cases counted; exact room
  next => cases counted

/-- A constant is looked up before it is pushed. -/
def Count.constant (pool height : Nat) (index : UInt8) : Count :=
  if index.toNat < pool then .push height else .stop (.fault (.constantOutOfRange index))

/-- A place of the code that a walk comes to, with the height of the stack there. -/
structure Waypoint where
  offset : Nat
  height : Nat
  deriving DecidableEq, Repr

/-- A walk as a whole: where it comes by, what it stops for, and how many bytes it has read
by then. -/
structure Survey where
  waypoints : List Waypoint
  forecast : Forecast
  read : Nat
  deriving DecidableEq, Repr

namespace Survey

def stop (here : Waypoint) (read : Nat) (forecast : Forecast) : Survey :=
  ⟨[here], forecast, read⟩

def behind (here : Waypoint) (survey : Survey) : Survey :=
  { survey with waypoints := here :: survey.waypoints }

/-- The walk from where `offset` bytes have been read. -/
def ofBytes (pool : Nat) : (offset height : Nat) → List UInt8 → Survey
  | offset, height, [] => stop ⟨offset, height⟩ offset (.fault .unexpectedEnd)
  | offset, height, byte :: rest =>
    match Opcode.ofByte? byte with
    | none => stop ⟨offset, height⟩ (offset + 1) (.fault (.unknownOpcode byte))
    | some (.plain operation) =>
      match operation.count height with
      | .on next => (ofBytes pool (offset + 1) next rest).behind ⟨offset, height⟩
      | .stop forecast => stop ⟨offset, height⟩ (offset + 1) forecast
    | some .constant =>
      match rest with
      | [] => stop ⟨offset, height⟩ (offset + 1) (.fault .unexpectedEnd)
      | index :: rest =>
        match Count.constant pool height index with
        | .on next => (ofBytes pool (offset + 2) next rest).behind ⟨offset, height⟩
        | .stop forecast => stop ⟨offset, height⟩ (offset + 2) forecast

end Survey

namespace Operation

/-- The operations on two numbers. -/
def onNumbers : List Operation := [.greater, .less, .add, .subtract, .multiply, .divide]

private theorem count_of_le {operation : Operation} {height : Nat} (other : operation ≠ .return)
    (enough : operation.operands ≤ height) :
    operation.count height = .push (height - operation.operands) := by
  rw [count, if_neg (Nat.not_lt.mpr enough), if_neg other]

private theorem takes_of_onNumbers {operation : Operation} (member : operation ∈ onNumbers) :
    operation ≠ .return ∧ operation.operands = 2 := by
  revert member
  cases operation <;> decide

/-- The operands are there, but not of the kind that the operation works on. -/
inductive Mistyped : Operation → List Value → Fault → Prop where
  | single {value rest} (kind : value.asNumber? = none) :
      Mistyped .negate (value :: rest) .operandMustBeNumber
  | pair {operation second first rest} (member : operation ∈ onNumbers)
      (kinds : first.asNumber? = none ∨ second.asNumber? = none) :
      Mistyped operation (second :: first :: rest) .operandsMustBeNumbers

namespace Mistyped

variable {operation : Operation} {stack : List Value} {fault : Fault}

private theorem effect (mistyped : operation.Mistyped stack fault) :
    operation.effect stack = .error fault := by
  cases mistyped with
  | @single value rest kind =>
    cases value with
    | nil => rfl
    | bool b => rfl
    | number x => cases kind
  | @pair _ second first rest member kinds =>
    have unfit : ∀ result,
        Effect.numeric result (second :: first :: rest) = .error .operandsMustBeNumbers := by
      intro result
      cases second <;> cases first
      all_goals first | rfl | (rcases kinds with kind | kind <;> cases kind)
    simp only [onNumbers, List.mem_cons, List.not_mem_nil, or_false] at member
    rcases member with rfl | rfl | rfl | rfl | rfl | rfl <;> exact unfit _

/-- Counting does not see that an operand is of the wrong kind. -/
theorem count (mistyped : operation.Mistyped stack fault) (bounded : stack.length ≤ maxStack) :
    ∃ height, operation.count stack.length = .on height := by
  have takes : operation ≠ .return ∧ 0 < operation.operands ∧
      operation.operands ≤ stack.length := by
    cases mistyped with
    | single kind => exact ⟨by decide, Nat.one_pos, Nat.succ_le_succ (Nat.zero_le _)⟩
    | pair member kinds =>
      obtain ⟨other, two⟩ := takes_of_onNumbers member
      rw [two]
      exact ⟨other, Nat.two_pos, Nat.succ_le_succ (Nat.succ_le_succ (Nat.zero_le _))⟩
  obtain ⟨other, some, enough⟩ := takes
  rw [count_of_le other enough, Count.push, if_pos (by omega)]
  exact ⟨_, rfl⟩

end Mistyped

end Operation

/-- What an instruction does is what counting tells, or else it is the wrong kind of operand
that it faults for. -/
inductive Foretold (mistyped : Fault → Prop) : Count → Except Fault Effect → Prop where
  | proceed (after : List Value) : Foretold mistyped (.on after.length) (.ok (.proceed after))
  | finish (value : Value) (beneath : List Value) :
      Foretold mistyped (.stop (.value beneath.length)) (.ok (.finish value beneath))
  | fault (fault : Fault) : Foretold mistyped (.stop (.fault fault)) (.error fault)
  | mistyped {height fault} (wrong : mistyped fault) :
      Foretold mistyped (.on height) (.error fault)

namespace Foretold

variable {mistyped : Fault → Prop}

private theorem push (value : Value) (stack : List Value) :
    Foretold mistyped (.push stack.length) (Effect.push value stack) := by
  unfold Count.push Effect.push
  split
  · exact .proceed (value :: stack)
  · exact .fault .stackOverflow

/-- What takes at least one value leaves room for another. -/
theorem replace (value : Value) {rest : List Value} {taken : Nat} (some : 0 < taken)
    (bounded : rest.length + taken ≤ maxStack) :
    Foretold mistyped (.push (rest.length + taken - taken)) (.ok (.proceed (value :: rest))) := by
  rw [Nat.add_sub_cancel, Count.push, if_pos (by omega)]
  exact .proceed (value :: rest)

private theorem wrong {fault : Fault} {length taken : Nat} (unfit : mistyped fault)
    (some : 0 < taken)
    (bounded : length + taken ≤ maxStack) :
    Foretold mistyped (.push (length + taken - taken)) (.error fault) := by
  rw [Nat.add_sub_cancel, Count.push, if_pos (by omega)]
  exact .mistyped unfit

private theorem numeric {operation : Operation} {stack : List Value}
    (result : Float → Float → Value)
    (member : operation ∈ Operation.onNumbers) (bounded : stack.length ≤ maxStack) :
    Foretold (operation.Mistyped stack) (operation.count stack.length)
      (Effect.numeric result stack) := by
  obtain ⟨other, two⟩ := Operation.takes_of_onNumbers member
  rcases stack with _ | ⟨second, _ | ⟨first, rest⟩⟩
  · rw [Operation.count, two]
    exact .fault .stackUnderflow
  · rw [Operation.count, two]
    cases second <;> exact .fault .stackUnderflow
  · rw [Operation.count_of_le other (by simp [two]), two]
    cases second with
    | number y =>
      cases first with
      | number x => exact replace (result x y) Nat.two_pos bounded
      | nil | bool => exact wrong (.pair member (.inl rfl)) Nat.two_pos bounded
    | nil | bool => exact wrong (.pair member (.inr rfl)) Nat.two_pos bounded

end Foretold

private theorem Operation.foretold (operation : Operation) {stack : List Value}
    (bounded : stack.length ≤ maxStack) :
    Foretold (operation.Mistyped stack) (operation.count stack.length)
      (operation.effect stack) := by
  cases operation with
  | nil => exact .push .nil stack
  | true => exact .push (.bool Bool.true) stack
  | false => exact .push (.bool Bool.false) stack
  | greater => exact .numeric (fun x y => .bool (x > y)) (by decide) bounded
  | less => exact .numeric (fun x y => .bool (x < y)) (by decide) bounded
  | add => exact .numeric (fun x y => .number (x + y)) (by decide) bounded
  | subtract => exact .numeric (fun x y => .number (x - y)) (by decide) bounded
  | multiply => exact .numeric (fun x y => .number (x * y)) (by decide) bounded
  | divide => exact .numeric (fun x y => .number (x / y)) (by decide) bounded
  | equal =>
    rcases stack with _ | ⟨second, _ | ⟨first, rest⟩⟩
    · exact .fault .stackUnderflow
    · exact .fault .stackUnderflow
    · rw [count_of_le (by decide) (by simp [operands])]
      exact .replace _ Nat.two_pos bounded
  | not =>
    cases stack with
    | nil => exact .fault .stackUnderflow
    | cons value rest =>
      rw [count_of_le (by decide) (by simp [operands])]
      exact .replace _ Nat.one_pos bounded
  | negate =>
    cases stack with
    | nil => exact .fault .stackUnderflow
    | cons value rest =>
      rw [count_of_le (by decide) (by simp [operands])]
      cases value with
      | number x => exact .replace _ Nat.one_pos bounded
      | nil | bool => exact .wrong (.single rfl) Nat.one_pos bounded
  | «return» =>
    cases stack with
    | nil => exact .fault .stackUnderflow
    | cons value rest => exact .finish value rest

private theorem Foretold.mono {mistyped other : Fault → Prop} {count : Count}
    {effect : Except Fault Effect} (foretold : Foretold mistyped count effect)
    (also : ∀ fault, mistyped fault → other fault) : Foretold other count effect := by
  cases foretold with
  | proceed after => exact .proceed after
  | finish value beneath => exact .finish value beneath
  | fault fault => exact .fault fault
  | mistyped wrong => exact .mistyped (also _ wrong)

def Standing.waypoint (standing : Standing) : Waypoint := ⟨standing.offset, standing.stack.length⟩

namespace Chunk

variable {chunk : Chunk}

/-- The walk through what comes behind an offset. -/
def surveyFrom (chunk : Chunk) (offset height : Nat) : Survey :=
  .ofBytes chunk.constants.size offset height (chunk.code.toList.drop offset)

def survey (chunk : Chunk) : Survey := .ofBytes chunk.constants.size 0 0 chunk.code.toList

def count (chunk : Chunk) (height : Nat) : Fetched → Count
  | .instruction (.constant index) => .constant chunk.constants.size height index
  | .instruction (.plain operation) => operation.count height
  | .unknown byte => .stop (.fault (.unknownOpcode byte))
  | .truncated | .pastEnd => .stop (.fault .unexpectedEnd)

private theorem drop_cases (offset : Nat) :
    (chunk.code.toList.drop offset = [] ∧ chunk.code[offset]? = none) ∨
      ∃ byte, chunk.code.toList.drop offset = byte :: chunk.code.toList.drop (offset + 1) ∧
        chunk.code[offset]? = some byte := by
  by_cases inside : offset < chunk.code.size
  · refine .inr ⟨chunk.code[offset], ?_, Array.getElem?_eq_getElem inside⟩
    exact List.drop_eq_getElem_cons (by simpa using inside)
  · have outside := Nat.le_of_not_lt inside
    exact .inl ⟨List.drop_eq_nil_of_le (by simpa using outside),
      Array.getElem?_eq_none outside⟩

/-- The walk sees the instructions that the machine fetches. -/
theorem surveyFrom_eq (offset height : Nat) : chunk.surveyFrom offset height =
    match chunk.count height (chunk.fetch offset) with
    | .on next =>
      (chunk.surveyFrom (offset + (chunk.fetch offset).width) next).behind ⟨offset, height⟩
    | .stop forecast =>
      .stop ⟨offset, height⟩ (offset + (chunk.fetch offset).width) forecast := by
  unfold surveyFrom fetch
  rcases chunk.drop_cases offset with ⟨nothing, missing⟩ | ⟨byte, rest, code⟩
  · rw [nothing, missing]
    rfl
  · rw [rest, code]
    cases opcode : Opcode.ofByte? byte with
    | none =>
      rw [Survey.ofBytes.eq_def]
      simp only [opcode]
      rfl
    | some known =>
      cases known with
      | plain operation =>
        rw [Survey.ofBytes.eq_def]
        simp only [opcode]
        rfl
      | constant =>
        rcases chunk.drop_cases (offset + 1) with ⟨nothing, missing⟩ | ⟨index, more, operand⟩
        · simp only [Survey.ofBytes, opcode, nothing, missing]
          rfl
        · simp only [Survey.ofBytes, opcode, more, operand]
          rfl

private theorem surveyFrom_on {offset height next : Nat}
    (counted : chunk.count height (chunk.fetch offset) = .on next) :
    chunk.surveyFrom offset height =
      (chunk.surveyFrom (offset + (chunk.fetch offset).width) next).behind ⟨offset, height⟩ := by
  rw [surveyFrom_eq, counted]

private theorem surveyFrom_stop {offset height : Nat} {forecast : Forecast}
    (counted : chunk.count height (chunk.fetch offset) = .stop forecast) :
    chunk.surveyFrom offset height =
      .stop ⟨offset, height⟩ (offset + (chunk.fetch offset).width) forecast := by
  rw [surveyFrom_eq, counted]

private theorem waypoints_ne_nil (offset height : Nat) :
    (chunk.surveyFrom offset height).waypoints ≠ [] := by
  rw [surveyFrom_eq]
  split
  · exact List.cons_ne_nil _ _
  · exact List.cons_ne_nil _ _

/-- The operation at the standing finds operands of the wrong kind. -/
def Mistypes (chunk : Chunk) (standing : Standing) (fault : Fault) : Prop :=
  ∃ operation : Operation, chunk.code[standing.offset]? = some operation.byte ∧
    operation.Mistyped standing.stack fault

def Typed (chunk : Chunk) (standing : Standing) : Prop := ∀ fault, ¬ chunk.Mistypes standing fault

section Instruction

variable {offset : Nat} {stack : List Value}

private theorem code_of_fetch {operation : Operation}
    (fetched : chunk.fetch offset = .instruction (.plain operation)) :
    chunk.code[offset]? = some operation.byte := by
  unfold fetch at fetched
  split at fetched
  next => cases fetched
  next byte code =>
    split at fetched
    next => cases fetched
    next opcode =>
      cases fetched
      rw [code, ← Opcode.byte_of_ofByte? opcode]
      rfl
    next => split at fetched <;> cases fetched

private theorem foretold (offset : Nat) (bounded : stack.length ≤ maxStack) :
    Foretold (chunk.Mistypes ⟨offset, stack⟩) (chunk.count stack.length (chunk.fetch offset))
      (chunk.effect stack (chunk.fetch offset)) := by
  cases fetched : chunk.fetch offset with
  | unknown byte => exact .fault _
  | truncated => exact .fault _
  | pastEnd => exact .fault _
  | instruction instruction =>
    cases instruction with
    | plain operation =>
      exact (operation.foretold bounded).mono fun fault wrong =>
        ⟨operation, code_of_fetch fetched, wrong⟩
    | constant index =>
      simp only [count, Count.constant, effect, constant?]
      by_cases present : index.toNat < chunk.constants.size
      · rw [if_pos present, Array.getElem?_eq_getElem present]
        exact .push _ stack
      · rw [if_neg present, Array.getElem?_eq_none (Nat.le_of_not_lt present)]
        exact .fault _

private theorem Mistypes.effect {fault : Fault} (wrong : chunk.Mistypes ⟨offset, stack⟩ fault) :
    chunk.effect stack (chunk.fetch offset) = .error fault := by
  obtain ⟨operation, code, mistyped⟩ := wrong
  rw [fetch_of_byte code]
  exact mistyped.effect

private theorem Mistypes.count {fault : Fault} (wrong : chunk.Mistypes ⟨offset, stack⟩ fault)
    (bounded : stack.length ≤ maxStack) :
    ∃ height, chunk.count stack.length (chunk.fetch offset) = .on height := by
  obtain ⟨operation, code, mistyped⟩ := wrong
  rw [fetch_of_byte code]
  exact mistyped.count bounded

private theorem typed_of_ok {effect : Effect}
    (succeeds : chunk.effect stack (chunk.fetch offset) = .ok effect) :
    chunk.Typed ⟨offset, stack⟩ := by
  intro fault wrong
  cases succeeds.symm.trans wrong.effect

private theorem typed_of_stop {forecast : Forecast}
    (counted : chunk.count stack.length (chunk.fetch offset) = .stop forecast)
    (bounded : stack.length ≤ maxStack) : chunk.Typed ⟨offset, stack⟩ := by
  intro fault wrong
  obtain ⟨height, other⟩ := wrong.count bounded
  cases counted.symm.trans other

end Instruction

private theorem count_le {height next : Nat} {fetched : Fetched}
    (counted : chunk.count height fetched = .on next) : next ≤ maxStack := by
  cases fetched with
  | unknown byte => cases counted
  | truncated => cases counted
  | pastEnd => cases counted
  | instruction instruction =>
    cases instruction with
    | constant index =>
      simp only [count, Count.constant] at counted
      split at counted
      · exact Count.push_le counted
      · cases counted
    | plain operation =>
      simp only [count, Operation.count] at counted
      split at counted
      · cases counted
      · split at counted
        · cases counted
        · exact Count.push_le counted

/-- The line of the last of so many bytes, or 0 if there is none. -/
def lineBehind (chunk : Chunk) (read : Nat) : Nat := (chunk.lines.toList.take read).getLastD 0

private theorem faultLine_eq {offset : Nat} (inside : offset ≤ chunk.code.size) :
    chunk.faultLine offset = chunk.lineBehind (offset + (chunk.fetch offset).width) := by
  have bounded := chunk.add_width_fetch_le offset inside
  unfold faultLine lineBehind
  cases read : offset + (chunk.fetch offset).width with
  | zero => rfl
  | succ last =>
    have present : last < chunk.lines.size := by
      rw [chunk.lines_size]
      omega
    simp [List.getLastD_eq_getLast?, List.getLast?_take, line?, present]

/-- How a run ends that goes all the way of a walk. -/
inductive Ends (chunk : Chunk) (survey : Survey) :
    Except RuntimeError Value → List Value → Prop where
  | value {value beneath} (forecast : survey.forecast = .value beneath.length) :
      Ends chunk survey (.ok value) beneath
  | fault {fault} (forecast : survey.forecast = .fault fault) :
      Ends chunk survey (.error ⟨fault, chunk.lineBehind survey.read⟩) []

/-- A run goes the way of a walk to its end, or until for the first time operands are of the
wrong kind. That instruction is not the one that the walk stops at. -/
inductive Follows (chunk : Chunk) (survey : Survey) :
    List Standing → Except RuntimeError Value → List Value → Prop where
  | through {trail result left} (way : trail.map Standing.waypoint = survey.waypoints)
      (typed : ∀ standing ∈ trail, chunk.Typed standing) (ends : chunk.Ends survey result left) :
      Follows chunk survey trail result left
  | mistyped {front last fault further}
      (way : (front ++ [last]).map Standing.waypoint ++ further = survey.waypoints)
      (short : further ≠ []) (typed : ∀ standing ∈ front, chunk.Typed standing)
      (wrong : chunk.Mistypes last fault) :
      Follows chunk survey (front ++ [last])
        (.error ⟨fault, chunk.lineBehind (last.offset + 1)⟩) []

private theorem Follows.behind {survey : Survey} {trail : List Standing} {start : Standing}
    {result : Except RuntimeError Value} {left : List Value}
    (follows : chunk.Follows survey trail result left) (typed : chunk.Typed start) :
    chunk.Follows (survey.behind start.waypoint) (start :: trail) result left := by
  cases follows with
  | through way others ends =>
    refine .through (congrArg (start.waypoint :: ·) way)
      (List.forall_mem_cons.mpr ⟨typed, others⟩) ?_
    cases ends with
    | value forecast => exact .value forecast
    | fault forecast => exact .fault forecast
  | @mistyped front last fault further way short others wrong =>
    exact .mistyped (congrArg (start.waypoint :: ·) way) short
      (List.forall_mem_cons.mpr ⟨typed, others⟩) wrong

/-- The induction is on the run, which is at the height that the walk is at. -/
theorem Visits.follows {start : Standing} {trail : List Standing}
    {result : Except RuntimeError Value} {left : List Value}
    (visits : chunk.Visits start trail result left) (inside : start.offset ≤ chunk.code.size)
    (bounded : start.stack.length ≤ maxStack) :
    chunk.Follows (chunk.surveyFrom start.offset start.stack.length) trail result left ∧
      ∀ standing ∈ trail, standing.stack.length ≤ maxStack := by
  induction visits with
  | @finish offset stack value beneath finishes =>
    refine ⟨?_, by simpa using bounded⟩
    have told := chunk.foretold offset bounded
    rw [finishes] at told
    generalize counted : chunk.count stack.length (chunk.fetch offset) = count at told
    cases told
    rw [surveyFrom_stop counted]
    exact .through rfl (by simpa using typed_of_ok finishes) (.value rfl)
  | @fault offset stack fault fails =>
    refine ⟨?_, by simpa using bounded⟩
    have told := chunk.foretold offset bounded
    rw [fails] at told
    generalize counted : chunk.count stack.length (chunk.fetch offset) = count at told
    cases told with
    | fault =>
      rw [faultLine_eq inside, surveyFrom_stop counted]
      exact .through rfl (by simpa using typed_of_stop counted bounded) (.fault rfl)
    | mistyped wrong =>
      have ⟨operation, code, _⟩ := wrong
      rw [surveyFrom_on counted, faultLine_eq inside, fetch_of_byte code]
      exact @Follows.mistyped chunk _ [] _ _ _ rfl (waypoints_ne_nil _ _) (by simp) wrong
  | @proceed start next trail result left moves rest ih =>
    cases moves with
    | @instruction offset stack after succeeds =>
      have told := chunk.foretold offset bounded
      rw [succeeds] at told
      generalize counted : chunk.count stack.length (chunk.fetch offset) = count at told
      cases told
      obtain ⟨follows, heights⟩ := ih (chunk.add_width_fetch_le offset inside) (count_le counted)
      refine ⟨?_, List.forall_mem_cons.mpr ⟨bounded, heights⟩⟩
      rw [surveyFrom_on counted]
      exact follows.behind (typed_of_ok succeeds)

/-- Each instruction that is dispatched has a byte of its own. -/
theorem Visits.length_dispatched {start : Standing} {trail : List Standing}
    {result : Except RuntimeError Value} {left : List Value}
    (visits : chunk.Visits start trail result left) (inside : start.offset ≤ chunk.code.size) :
    start.offset + (trail.filter (·.offset < chunk.code.size)).length ≤ chunk.code.size := by
  have single (offset : Nat) (stack : List Value) (inside : offset ≤ chunk.code.size) :
      offset + ([(⟨offset, stack⟩ : Standing)].filter (·.offset < chunk.code.size)).length ≤
        chunk.code.size := by
    by_cases below : offset < chunk.code.size
    · simp only [List.filter_cons, below, decide_true, if_true, List.filter_nil]
      exact below
    · simpa [below] using inside
  induction visits with
  | finish finishes => exact single _ _ inside
  | fault fails => exact single _ _ inside
  | @proceed start next trail result left moves rest ih =>
    cases moves with
    | @instruction offset stack after succeeds =>
      have below := inside_of_effect succeeds
      have forward := chunk.width_fetch_pos offset below
      have later := ih (chunk.add_width_fetch_le offset inside)
      simp only [List.filter_cons, below, decide_true, if_true, List.length_cons] at later ⊢
      omega

end Chunk

/-- The run of a chunk goes the way of the walk that only counts, with the same height of the
stack at each instruction. It ends as the walk foretells, on the line of the last byte that
was read, unless operands are of the wrong kind before; then it ends in a fault for the first
that are. There are never more than 256 values on the stack, and no more instructions are
dispatched than there are bytes. -/
theorem run_follows_survey (machine : Machine) (chunk : Chunk) :
    ∃ trail, chunk.Visits ⟨0, []⟩ trail (machine.run chunk).outcome (machine.run chunk).stack ∧
      chunk.Follows chunk.survey trail (machine.run chunk).outcome (machine.run chunk).stack ∧
      (∀ standing ∈ trail, standing.stack.length ≤ 256) ∧
      (trail.filter (·.offset < chunk.code.size)).length ≤ chunk.code.size := by
  obtain ⟨_, executes⟩ := machine.run_executes chunk
  obtain ⟨trail, _, visits⟩ := executes.visits
  obtain ⟨follows, bounded⟩ := visits.follows (Nat.zero_le _) (Nat.zero_le _)
  have dispatched := visits.length_dispatched (Nat.zero_le _)
  exact ⟨trail, visits, follows, bounded, by simpa using dispatched⟩

/-- Here `nil` is added to a constant, which counting does not see, and returned. -/
example : Survey.ofBytes 1 0 0 [0, 0, 1, 7, 13] =
    ⟨[⟨0, 0⟩, ⟨2, 1⟩, ⟨3, 2⟩, ⟨4, 1⟩], .value 0, 5⟩ := by decide

end StackCalc
