import Mathlib.Data.List.Forall2
import StackCalc.Machine

/-! What instructions look at. Whether an instruction succeeds, and what kind of value it
then leaves, depends on the kinds of the values on the stack and not on the values. -/

namespace StackCalc

/-- Both are `nil`, both are truth values, or both are numbers. -/
inductive Value.SameKind : Value → Value → Prop where
  | nil : SameKind .nil .nil
  | bool (a b : Bool) : SameKind (.bool a) (.bool b)
  | number (x y : Float) : SameKind (.number x) (.number y)

abbrev SameKinds : List Value → List Value → Prop := List.Forall₂ Value.SameKind

theorem Value.SameKind.refl (value : Value) : value.SameKind value := by
  cases value with
  | nil => exact .nil
  | bool b => exact .bool b b
  | number x => exact .number x x

/-- What an operation does with the stack: it pushes a value of its own, or combines two
numbers to a value whose kind is known, or is one of four with rules of their own. -/
inductive Operation.Acts : Operation → Prop where
  | pushes {operation} (value : Value)
      (effect : ∀ stack, operation.effect stack = Effect.push value stack) : Acts operation
  | combines {operation} (result : Float → Float → Value)
      (effect : ∀ stack, operation.effect stack = Effect.numeric result stack)
      (kind : ∀ x y z w, (result x y).SameKind (result z w)) : Acts operation
  | equal : Acts .equal
  | not : Acts .not
  | negate : Acts .negate
  | return : Acts .return

theorem Operation.acts (operation : Operation) : operation.Acts := by
  cases operation with
  | nil => exact .pushes .nil fun _ => rfl
  | true => exact .pushes (.bool Bool.true) fun _ => rfl
  | false => exact .pushes (.bool Bool.false) fun _ => rfl
  | equal => exact .equal
  | greater => exact .combines (fun x y => .bool (x > y)) (fun _ => rfl) fun _ _ _ _ => .bool _ _
  | less => exact .combines (fun x y => .bool (x < y)) (fun _ => rfl) fun _ _ _ _ => .bool _ _
  | add => exact .combines (fun x y => .number (x + y)) (fun _ => rfl) fun _ _ _ _ => .number _ _
  | subtract =>
    exact .combines (fun x y => .number (x - y)) (fun _ => rfl) fun _ _ _ _ => .number _ _
  | multiply =>
    exact .combines (fun x y => .number (x * y)) (fun _ => rfl) fun _ _ _ _ => .number _ _
  | divide =>
    exact .combines (fun x y => .number (x / y)) (fun _ => rfl) fun _ _ _ _ => .number _ _
  | not => exact .not
  | negate => exact .negate
  | «return» => exact .return

theorem Effect.push_ne_finish {value result : Value} {stack beneath : List Value} :
    push value stack ≠ .ok (.finish result beneath) := by
  unfold push
  split <;> rintro ⟨⟩

private theorem Effect.numeric_ne_finish {result : Float → Float → Value} {value : Value}
    {stack beneath : List Value} : numeric result stack ≠ .ok (.finish value beneath) := by
  unfold numeric
  split <;> rintro ⟨⟩

/-- Only a return ends a run without a fault. -/
theorem Operation.eq_return_of_finish {operation : Operation} {value : Value}
    {stack beneath : List Value} (finishes : operation.effect stack = .ok (.finish value beneath)) :
    operation = .return := by
  cases operation.acts with
  | pushes value effect => exact absurd ((effect stack).symm.trans finishes) Effect.push_ne_finish
  | combines result effect =>
    exact absurd ((effect stack).symm.trans finishes) Effect.numeric_ne_finish
  | equal => rcases stack with _ | ⟨b, _ | ⟨a, rest⟩⟩ <;> cases finishes
  | not => cases stack <;> cases finishes
  | negate => rcases stack with _ | ⟨_ | _ | _, rest⟩ <;> cases finishes
  | «return» => rfl

namespace Effect

/-- Two instructions go on, finish or fail alike. -/
inductive Alike : Except Fault Effect → Except Fault Effect → Prop where
  | proceed {first second} (operands : SameKinds first second) :
      Alike (.ok (.proceed first)) (.ok (.proceed second))
  | finish {value other first second} (values : value.SameKind other)
      (operands : SameKinds first second) :
      Alike (.ok (.finish value first)) (.ok (.finish other second))
  | fault (fault : Fault) : Alike (.error fault) (.error fault)

variable {first second : List Value} (operands : SameKinds first second)

include operands

theorem push_alike {value other : Value} (values : value.SameKind other) :
    Alike (push value first) (push other second) := by
  have lengths := operands.length_eq
  unfold push
  rw [lengths]
  split
  · exact .proceed (.cons values operands)
  · exact .fault _

private theorem numeric_alike {result other : Float → Float → Value}
    (kind : ∀ x y z w, (result x y).SameKind (other z w)) :
    Alike (numeric result first) (numeric other second) := by
  cases operands with
  | nil => exact .fault _
  | cons top below =>
    cases below with
    | nil => cases top <;> exact .fault _
    | cons next rest =>
      cases top with
      | nil => exact .fault _
      | bool => exact .fault _
      | number =>
        cases next with
        | nil => exact .fault _
        | bool => exact .fault _
        | number => exact .proceed (.cons (kind _ _ _ _) rest)

end Effect

theorem Operation.effect_alike (operation : Operation) {first second : List Value}
    (operands : SameKinds first second) :
    Effect.Alike (operation.effect first) (operation.effect second) := by
  cases operation.acts with
  | pushes value effect =>
    rw [effect, effect]
    exact Effect.push_alike operands (.refl value)
  | combines result effect kind =>
    rw [effect, effect]
    exact Effect.numeric_alike operands kind
  | equal =>
    cases operands with
    | nil => exact .fault _
    | cons top below =>
      cases below with
      | nil => exact .fault _
      | cons next rest => exact .proceed (.cons (.bool _ _) rest)
  | not =>
    cases operands with
    | nil => exact .fault _
    | cons top rest => exact .proceed (.cons (.bool _ _) rest)
  | negate =>
    cases operands with
    | nil => exact .fault _
    | cons top rest =>
      cases top with
      | nil => exact .fault _
      | bool => exact .fault _
      | number => exact .proceed (.cons (.number _ _) rest)
  | «return» =>
    cases operands with
    | nil => exact .fault _
    | cons top rest => exact .finish top rest

end StackCalc
