import ArrayStore.Value.Basic

/-! Calls on array values.
All that can be asked of a value to change it, as data, so that one statement
speaks of every call. A call comes back as it leaves what was given to it. Main
statement: a value that may not change refuses the calls that write, ignores the
others, and has not been looked at further. -/

namespace ArrayStore

namespace FieldValue

/-- A call on a value, with what is given to it. -/
inductive Call where
  | setLength (length : Nat)
  | setCapacity (capacity : Nat)
  | setCapacityMutable (on : Bool)
  | replace (next : Frozen)
  | putFrom (elements : List Scalar)
  | swap (other : Frozen)
  | deserialize (input : Incoming)
  | setImmutable

namespace Call

def around (c : Call) : Outcome (FieldValue × World) Unit → Outcome (Call × FieldValue × World) Unit
  | .ok () (v, w) => .ok () (c, v, w)
  | .error e (v, w) => .error e (c, v, w)

def run (c : Call) (v : FieldValue) (w : World) : Outcome (Call × FieldValue × World) Unit :=
  match c with
  | .setLength length => c.around (FieldValue.setLength length (v, w))
  | .setCapacity capacity => c.around (FieldValue.setCapacity capacity (v, w))
  | .setCapacityMutable on => c.around (FieldValue.setCapacityMutable on (v, w))
  | .replace next => c.around (FieldValue.replace next (v, w))
  | .putFrom elements => c.around (FieldValue.putFrom elements (v, w))
  | .swap other =>
    match FieldValue.swap (v, other, w) with
    | .ok () (v, other, w) => .ok () (.swap other, v, w)
    | .error e (v, other, w) => .error e (.swap other, v, w)
  | .deserialize input =>
    match FieldValue.deserialize (v, w, input) with
    | .ok () (v, w, input) => .ok () (.deserialize input, v, w)
    | .error e (v, w, input) => .error e (.deserialize input, v, w)
  | .setImmutable => c.around (.ok () (v.setImmutable w))

/-- Whether a value that may not change refuses the call. The others ask for nothing that such a
value does not have already. -/
def writes : Call → Bool
  | .setCapacityMutable on => on
  | .setCapacity _ | .setImmutable => false
  | .setLength _ | .replace _ | .putFrom _ | .swap _ | .deserialize _ => true

/-- A vector that is passed on is gone, also if it is not taken. -/
def spent (c : Call) (s : Store) : Store :=
  match c with
  | .replace next => s.drop next
  | _ => s

def flags (c : Call) (v : FieldValue) (f : Flags) : Flags :=
  match c with
  | .setImmutable => f.freeze v.token
  | _ => f

variable {v : FieldValue} {w : World}

/-- On a value that may not change, a call that writes is refused and the others succeed. Neither
moves more than the marks of the value itself. -/
theorem run_of_immutable (immutable : v.isImmutable w = true) (c : Call) :
    ∃ v' : FieldValue, v' = { v with capacityMutable := v'.capacityMutable } ∧
      c.run v w =
        if c.writes then
          .error (.immutable v.field.name) (c, v', { w with store := c.spent w.store })
        else .ok () (c, v', { w with flags := c.flags v w.flags }) := by
  have locked : v.isCapacityMutable w = false := by
    simp only [isCapacityMutable, immutable, Bool.not_true, Bool.false_and]
  cases c with
  | setLength | putFrom | swap | deserialize =>
    refine ⟨v, rfl, ?_⟩
    simp only [run, FieldValue.setLength, FieldValue.putFrom, FieldValue.swap,
      FieldValue.deserialize, immutable, if_true, around, writes, spent]
  | replace next =>
    refine ⟨v, rfl, ?_⟩
    simp only [run, FieldValue.replace, immutable, if_true, around, writes, spent]
  | setCapacity capacity =>
    refine ⟨v, rfl, ?_⟩
    simp only [run, FieldValue.setCapacity, locked, Bool.not_false, if_true, around, writes, flags,
      Bool.false_eq_true, if_false]
  | setImmutable =>
    exact ⟨{ v with capacityMutable := false }, rfl, rfl⟩
  | setCapacityMutable on =>
    cases on with
    | true =>
      refine ⟨v, rfl, ?_⟩
      simp only [run, FieldValue.setCapacityMutable, immutable, Bool.and_self, if_true, around,
        writes, spent]
    | false =>
      exact ⟨{ v with capacityMutable := false }, rfl, rfl⟩

end Call

end FieldValue

end ArrayStore
