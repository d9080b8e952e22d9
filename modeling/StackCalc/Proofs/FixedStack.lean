import StackCalc.Proofs.WholeRun

/-! The operand stack in a fixed array of places. Only the lowest places are live, and what
the others still hold from before is never read: a run in the array comes to what the run
on a list comes to, whatever the array holds. -/

namespace StackCalc

/-- An array of places, of which the first are live. The top of the stack is the last
of these. -/
structure Places where
  values : Vector Value maxStack
  live : Nat
  within : live ≤ maxStack

namespace Places

/-- The live values, top first. -/
def stack (places : Places) : List Value := (places.values.toList.take places.live).reverse

def drop (places : Places) (count : Nat) : Places :=
  { places with
    live := places.live - count
    within := Nat.le_trans (Nat.sub_le _ _) places.within }

/-- No place is live, but none is cleared. -/
def reset (places : Places) : Places := places.drop places.live

def push (places : Places) (value : Value) : Except Fault Places :=
  if free : places.live < maxStack then
    .ok { values := places.values.set places.live value, live := places.live + 1, within := free }
  else .error .stackOverflow

def peek (places : Places) (depth : Nat) : Except Fault Value :=
  if present : depth < places.live then
    have inside : places.live - 1 - depth < maxStack := by
      have within := places.within
      omega
    .ok places.values[places.live - 1 - depth]
  else .error .stackUnderflow

def pop (places : Places) : Except Fault (Value × Places) := do
  let value ← places.peek 0
  return (value, places.drop 1)

inductive Effect where
  | proceed (places : Places)
  | finish (value : Value) (beneath : Places)

def Effect.view : Effect → StackCalc.Effect
  | .proceed places => .proceed places.stack
  | .finish value beneath => .finish value beneath.stack

def numeric (places : Places) (result : Float → Float → Value) : Except Fault Effect := do
  let y ← places.peek 0
  let x ← places.peek 1
  match y, x with
  | .number y, .number x => ((places.drop 2).push (result x y)).map .proceed
  | _, _ => .error .operandsMustBeNumbers

end Places

open Places in
/-- An instruction that fails may have taken some of its operands already. -/
def Operation.effectIn (places : Places) : Operation → Except Fault Places.Effect
  | .nil => (places.push .nil).map .proceed
  | .true => (places.push (.bool Bool.true)).map .proceed
  | .false => (places.push (.bool Bool.false)).map .proceed
  | .equal => do
    let (b, rest) ← places.pop
    let (a, rest) ← rest.pop
    (rest.push (.bool (a == b))).map .proceed
  | .greater => places.numeric fun x y => .bool (x > y)
  | .less => places.numeric fun x y => .bool (x < y)
  | .add => places.numeric fun x y => .number (x + y)
  | .subtract => places.numeric fun x y => .number (x - y)
  | .multiply => places.numeric fun x y => .number (x * y)
  | .divide => places.numeric fun x y => .number (x / y)
  | .not => do
    let (value, rest) ← places.pop
    (rest.push (.bool value.isFalsey)).map .proceed
  | .negate => do
    match ← places.peek 0 with
    | .number x =>
      let (_, rest) ← places.pop
      (rest.push (.number (-x))).map .proceed
    | _ => .error .operandMustBeNumber
  | .return => do
    let (value, rest) ← places.pop
    return .finish value rest

def Chunk.effectIn (chunk : Chunk) (places : Places) : Fetched → Except Fault Places.Effect
  | .instruction (.constant index) =>
    match chunk.constant? index with
    | some value => (places.push value).map .proceed
    | none => .error (.constantOutOfRange index)
  | .instruction (.plain operation) => operation.effectIn places
  | .unknown byte => .error (.unknownOpcode byte)
  | .truncated | .pastEnd => .error .unexpectedEnd

/-- A run in an array, which a fault resets. -/
inductive Chunk.ExecutesIn (chunk : Chunk) :
    Nat → Places → Nat → Except RuntimeError Value → Places → Prop where
  | finish {offset places value beneath}
      (finishes : chunk.effectIn places (chunk.fetch offset) = .ok (.finish value beneath)) :
      ExecutesIn chunk offset places 1 (.ok value) beneath
  | fault {offset places fault}
      (fails : chunk.effectIn places (chunk.fetch offset) = .error fault) :
      ExecutesIn chunk offset places 1 (.error ⟨fault, chunk.faultLine offset⟩) places.reset
  | proceed {offset places next count result left}
      (succeeds : chunk.effectIn places (chunk.fetch offset) = .ok (.proceed next))
      (rest : ExecutesIn chunk (offset + (chunk.fetch offset).width) next count result left) :
      ExecutesIn chunk offset places (count + 1) result left

namespace Places

variable (places : Places)

@[simp] theorem length_stack : places.stack.length = places.live := by
  have within := places.within
  simp [stack, within]

@[simp] theorem stack_reset : places.reset.stack = [] := by
  simp [reset, drop, stack]

private theorem peek_succ (depth : Nat) : places.peek (depth + 1) = (places.drop 1).peek depth := by
  unfold peek drop
  have same : places.live - 1 - 1 - depth = places.live - 1 - (depth + 1) := by omega
  by_cases present : depth + 1 < places.live
  · simp [present, show depth < places.live - 1 by omega, same]
  · simp [present, show ¬ depth < places.live - 1 by omega]

/-- Either nothing is live, or there is a value on top of the rest. -/
theorem stack_cases :
    (places.stack = [] ∧ places.peek 0 = .error .stackUnderflow) ∨
      ∃ value, places.stack = value :: (places.drop 1).stack ∧ places.peek 0 = .ok value := by
  obtain ⟨values, live, within⟩ := places
  cases live with
  | zero => exact .inl ⟨rfl, rfl⟩
  | succ below =>
    refine .inr ⟨values[below], ?_, ?_⟩
    · simp [stack, drop, List.take_add_one, show values[below]? = some values[below] from
        Vector.getElem?_eq_getElem within]
    · simp [peek]

private theorem stack_push {next : Places} {value : Value} (pushed : places.push value = .ok next) :
    next.stack = value :: places.stack := by
  unfold push at pushed
  split at pushed
  next free =>
    cases pushed
    have written : (places.values.toList.set places.live value)[places.live]? = some value :=
      List.getElem?_set_self (by simpa using free)
    simp [stack, List.take_add_one, Vector.toList_set, List.take_set_of_le, written]
  next => cases pushed

private theorem push_view (value : Value) :
    ((places.push value).map Effect.proceed).map Effect.view =
      StackCalc.Effect.push value places.stack := by
  unfold StackCalc.Effect.push
  rw [length_stack]
  cases pushed : places.push value with
  | ok next =>
    have free : places.live < maxStack := by
      apply Classical.byContradiction
      intro full
      simp [push, full] at pushed
    simp [Except.map, Effect.view, free, places.stack_push pushed]
  | error fault =>
    unfold push at pushed
    split at pushed
    next => cases pushed
    next full =>
      cases pushed
      simp [Except.map, full]

/-- What was taken from the stack makes room for what is put there. -/
theorem push_drop_view (count : Nat) (value : Value) :
    (((places.drop (count + 1)).push value).map Effect.proceed).map Effect.view =
      .ok (.proceed (value :: (places.drop (count + 1)).stack)) := by
  have within := places.within
  have positive : 0 < maxStack := by decide
  have room : (places.drop (count + 1)).live < maxStack := by
    simp only [drop]
    omega
  rw [push_view, StackCalc.Effect.push, length_stack, if_pos room]

private theorem drop_drop : (places.drop 1).drop 1 = places.drop 2 := rfl

private theorem numeric_view (result : Float → Float → Value) :
    (places.numeric result).map Effect.view = StackCalc.Effect.numeric result places.stack := by
  unfold numeric
  rcases places.stack_cases with ⟨empty, none⟩ | ⟨y, top, first⟩
  · rw [empty, none]
    rfl
  · rw [top, first, places.peek_succ 0]
    rcases (places.drop 1).stack_cases with ⟨empty, none⟩ | ⟨x, next, second⟩
    · rw [empty, none]
      cases y <;> rfl
    · rw [next, second, drop_drop]
      cases y with
      | nil => rfl
      | bool => rfl
      | number y =>
        cases x with
        | nil => rfl
        | bool => rfl
        | number x => exact places.push_drop_view 1 (result x y)

private theorem pop_cases :
    (places.stack = [] ∧ places.pop = .error .stackUnderflow) ∨
      ∃ value, places.stack = value :: (places.drop 1).stack ∧
        places.pop = .ok (value, places.drop 1) := by
  unfold pop
  rcases places.stack_cases with ⟨empty, none⟩ | ⟨value, top, first⟩
  · rw [none]
    exact .inl ⟨empty, rfl⟩
  · rw [first]
    exact .inr ⟨value, top, rfl⟩

end Places

/-- Operation by operation, the array does what the list does. -/
theorem Operation.effectIn_view (operation : Operation) (places : Places) :
    (operation.effectIn places).map Places.Effect.view = operation.effect places.stack := by
  cases operation with
  | nil => exact places.push_view _
  | true => exact places.push_view _
  | false => exact places.push_view _
  | greater => exact places.numeric_view _
  | less => exact places.numeric_view _
  | add => exact places.numeric_view _
  | subtract => exact places.numeric_view _
  | multiply => exact places.numeric_view _
  | divide => exact places.numeric_view _
  | equal =>
    rcases places.pop_cases with ⟨empty, popped⟩ | ⟨b, top, popped⟩
    · simp only [effectIn, empty, popped]
      rfl
    · rcases (places.drop 1).pop_cases with ⟨empty, again⟩ | ⟨a, next, again⟩
      · simp only [effectIn, top, empty, popped]
        simp only [bind, Except.bind, again]
        rfl
      · simp only [effectIn, top, next, popped]
        simp only [bind, Except.bind, again, Places.drop_drop]
        exact places.push_drop_view 1 _
  | not =>
    rcases places.pop_cases with ⟨empty, popped⟩ | ⟨value, top, popped⟩
    · simp only [effectIn, empty, popped]
      rfl
    · simp only [effectIn, top, popped]
      exact places.push_drop_view 0 _
  | negate =>
    rcases places.stack_cases with ⟨empty, none⟩ | ⟨value, top, first⟩
    · simp only [effectIn, empty, none]
      rfl
    · simp only [effectIn, Places.pop, top, first]
      cases value with
      | nil => rfl
      | bool => rfl
      | number x => exact places.push_drop_view 0 _
  | «return» =>
    rcases places.pop_cases with ⟨empty, popped⟩ | ⟨value, top, popped⟩
    · simp only [effectIn, empty, popped]
      rfl
    · simp only [effectIn, top, popped]
      rfl

private theorem Chunk.effectIn_view (chunk : Chunk) (places : Places) (fetched : Fetched) :
    (chunk.effectIn places fetched).map Places.Effect.view = chunk.effect places.stack fetched := by
  cases fetched with
  | instruction instruction =>
    cases instruction with
    | constant index =>
      simp only [effectIn, effect]
      cases chunk.constant? index with
      | none => rfl
      | some value => exact places.push_view value
    | plain operation => exact operation.effectIn_view places
  | unknown byte => rfl
  | truncated => rfl
  | pastEnd => rfl

/-- The run in an array is the run on its live values, whatever its other places hold. -/
theorem Chunk.Executes.executesIn {chunk : Chunk} {start : Standing} {count : Nat}
    {result : Except RuntimeError Value} {left : List Value}
    (executes : chunk.Executes start count result left) {places : Places}
    (live : places.stack = start.stack) :
    ∃ last, chunk.ExecutesIn start.offset places count result last ∧ last.stack = left := by
  induction executes generalizing places with
  | @finish offset stack value beneath finishes =>
    have view := chunk.effectIn_view places (chunk.fetch offset)
    rw [live, finishes] at view
    cases effect : chunk.effectIn places (chunk.fetch offset) with
    | error fault => rw [effect] at view; cases view
    | ok next =>
      rw [effect] at view
      cases next with
      | proceed => cases view
      | finish other last =>
        cases view
        exact ⟨last, .finish effect, rfl⟩
  | @fault offset stack fault fails =>
    have view := chunk.effectIn_view places (chunk.fetch offset)
    rw [live, fails] at view
    cases effect : chunk.effectIn places (chunk.fetch offset) with
    | ok next => rw [effect] at view; cases view
    | error other =>
      rw [effect] at view
      cases view
      exact ⟨places.reset, .fault effect, places.stack_reset⟩
  | proceed moves rest ih =>
    cases moves with
    | @instruction offset stack after succeeds =>
      have view := chunk.effectIn_view places (chunk.fetch offset)
      rw [live, succeeds] at view
      cases effect : chunk.effectIn places (chunk.fetch offset) with
      | error fault => rw [effect] at view; cases view
      | ok next =>
        rw [effect] at view
        cases next with
        | finish => cases view
        | proceed next =>
          cases view
          obtain ⟨last, later, stack⟩ := ih rfl
          exact ⟨last, .proceed effect later, stack⟩

end StackCalc
