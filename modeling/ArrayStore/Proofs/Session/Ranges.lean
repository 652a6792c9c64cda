import ArrayStore.Proofs.Session.Mixed
import ArrayStore.Proofs.Value.Assertions

/-! Writing a range of an array.
A range is written from a copy of the content, which is narrowed, looked at and
dropped when the writing is over. Looking at it asserts that it lies within the
elements that are set. Main statement: after any run, whatever the content
shares, hides or starts behind, this never fails an assertion, writes just what
an array of the elements in the range would write, and leaves the world as it
was. -/

namespace ArrayStore

namespace FieldValue

/-- What has been written is new, and the world is an old one. -/
def beside (w : World) : Outcome Outgoing Unit → Outcome (World × Outgoing) Unit
  | .ok () out => .ok () (w, out)
  | .error e out => .error e (w, out)

/-- Write a range from a copy of the content, which is given up in the end, also where the writing
has failed. -/
def writeCopied? (v : FieldValue) (offset count : Nat) : Asserting (World × Outgoing) Unit
  | (w, out) =>
    let (copy, w) := v.view w
    let range := copy.slice offset count
    (w.store.values? range).map fun values =>
      beside { w with store := w.store.drop range } (Wire.writeArray v.kind values out)

variable {v : FieldValue} {w : World} {l : List Holding}

theorem values_range (h : w.store.Owns (v.holdings ++ l)) (offset count : Nat) :
    w.store.values (v.value.slice offset count) = ((v.values w).drop offset).take count :=
  ((h.perm (v.holdings_perm l)).frozen.slice offset count).2

theorem writeCopied?_eq (h : w.store.Owns (v.holdings ++ l)) (offset count : Nat)
    (out : Outgoing) :
    v.writeCopied? offset count (w, out) =
      some (beside w (v.serializeRange w offset count out)) := by
  have start := h.perm (v.holdings_perm l)
  have copied := start.clone
  have keeps : (w.store.clone v.value).values (v.value.slice offset count) =
      w.store.values (v.value.slice offset count) := by
    rw [(copied.frozen.slice offset count).2, (start.frozen.slice offset count).2]
    exact congrArg _ (congrArg _ (start.frozen.clone.2 _ List.mem_cons_self))
  have shown : (w.store.clone v.value).values? (v.value.slice offset count) =
      some (w.store.values (v.value.slice offset count)) := by
    rw [(copied.slice offset count).values?_eq List.mem_cons_self, keeps]
  have left : (w.store.clone v.value).drop (v.value.slice offset count) = w.store := start.drop_copy
  simp only [writeCopied?, view, shown, Option.map_some, left]
  rfl

end FieldValue

namespace Session.MixedState

/-- Whatever was frozen, thawed, narrowed, copied, dropped, grown and refused before, and whatever
the buffer and its outlet are: a range is written without a failing assertion, with the world left
as it was, and the result, the buffer and the outlet are those of writing any array that holds the
elements in the range. -/
theorem runAll_writes_ranges (system : System) (moves : List MixedMove) :
    let s := (start system).runAll moves
    let w := s.arrays.world
    ∀ slot v, s.arrays.values.get? slot = some v → ∀ offset count out,
      v.writeCopied? offset count (w, out) =
          some (FieldValue.beside w (v.serializeRange w offset count out)) ∧
        ∀ (u : FieldValue) (w' : World), u.kind = v.kind →
          u.values w' = ((v.values w).drop offset).take count →
          u.serialize w' out = v.serializeRange w offset count out := by
  intro s w slot v found offset count out
  have owns := (runAll_sound (sound_start system) moves).arrays.value found
  refine ⟨FieldValue.writeCopied?_eq owns offset count out, fun u w' kind values => ?_⟩
  rw [FieldValue.serialize, FieldValue.serializeRange, kind, values,
    FieldValue.values_range owns offset count]

/-- An array on a block of three holders, of which it sees the second and the third element: all
from its second on is written past the buffer as an array of that element alone. -/
theorem runAll_writes_ranges_shared :
    let moves : List MixedMove := [.array (.step (.create 0 ⟨"x", .int⟩ none)),
      .array (.step (.put 0 [.int 1, .int 2, .int 3, .int 4, .int 5])), .array (.step (.view 0 0)),
      .array (.step (.sliceView 0 1 3)), .array (.step (.create 1 ⟨"y", .int⟩ none)),
      .array (.step (.install 1 0)), .array (.step (.setLength 1 2)),
      .array (.step (.create 2 ⟨"z", .int⟩ none)), .array (.step (.put 2 [.int 3]))]
    let s := (start .machine).runAll moves
    let w := s.arrays.world
    let out : Outgoing := ⟨.empty 3 .little, .stream { direct := true }⟩
    ∃ v u, s.arrays.values.get? 1 = some v ∧ s.arrays.values.get? 2 = some u ∧
      w.store.holders v.value = 3 ∧ v.value.offset = 1 ∧ u.values w = [.int 3] ∧
      v.writeCopied? 1 (UInt64.size - 1) (w, out) =
        some (FieldValue.beside w (u.serialize w out)) := by
  intro moves s w out
  have shown : ∃ v ∈ s.arrays.values.get? 1, ∃ u ∈ s.arrays.values.get? 2,
      w.store.holders v.value = 3 ∧ v.value.offset = 1 ∧ u.kind = v.kind ∧
        u.values w = [.int 3] ∧ v.values w = [.int 2, .int 3] := by
    decide +kernel
  obtain ⟨v, found, u, other, holders, offset, kind, content, values⟩ := shown
  obtain ⟨copied, same⟩ := runAll_writes_ranges .machine moves 1 v found 1 (UInt64.size - 1) out
  refine ⟨v, u, found, other, holders, offset, content, ?_⟩
  rw [same u w kind (content.trans (by rw [values]; rfl))]
  exact copied

end Session.MixedState

end ArrayStore
