import ArrayStore.Proofs.Stream.Delivery
import ArrayStore.Proofs.Wire.Grammar
import ArrayStore.Session.Array

/-! Arrays and views that own their lists: nothing in them is shared.
The moves are the steps of a session together with what lies around them: pools
that come and go, streams of any make and views that are used up. Whether a move
that takes memory or writes to an immutable array succeeds is left open, since
lists need no memory and have no marks. -/

namespace ArrayStore.Session

inductive ArrayMove where
  | step (step : ArrayStep)
  /-- Build an allocator and name it behind the others. -/
  | build (config : PoolConfig) (elementSize : Nat)
  /-- Let go of an allocator. -/
  | forget (pool : Nat)
  /-- Read a content from a stream, whatever feeds it. -/
  | decode (value : Nat) (input : Incoming) (valid : input.buffer.Valid)
  /-- Replace the content of a value by a view, which is used up. -/
  | pass (value view : Nat)

namespace ArrayState

def onDecode (s : ArrayState) (slot : Nat) (input : Incoming) : Outcome ArrayState ArrayReply :=
  match s.values.get? slot with
  | none => .ok .noSlot s
  | some v =>
    match FieldValue.deserialize (v, s.world, input) with
    | .ok () (v, w, input) =>
      .ok (.read input.buffer.remaining none)
        { s with world := w, values := s.values.insert slot v }
    | .error e (v, w, input) =>
      .ok (.read input.buffer.remaining (some e))
        { s with world := w, values := s.values.insert slot v }

def move (move : ArrayMove) : Change ArrayState ArrayReply := fun s =>
  match move with
  | .step step => ArrayState.step step s
  | .build config elementSize =>
    match Allocators.build registry config elementSize s.world.store.allocators with
    | .error e m => .error e { s with world.store.allocators := m }
    | .ok a m => .ok .done { s with world.store.allocators := m, pools := s.pools ++ [a] }
  | .forget pool =>
    match s.pools[pool]? with
    | none => .ok .noSlot s
    | some a =>
      .ok .done { s with world.store := s.world.store.letGo a, pools := s.pools.eraseIdx pool }
  | .decode value input _ => s.onDecode value input
  | .pass value view =>
    match s.values.get? value, s.views.get? view with
    | some v, some f =>
      if v.kind ≠ f.kind then .ok .noSlot s
      else { s with views := s.views.erase view }.onValue value (FieldValue.replace f)
    | _, _ => .ok .noSlot s

def moveAll (s : ArrayState) (moves : List ArrayMove) : ArrayState :=
  moves.foldl (fun s t => Outcome.state (move t s)) s

def Succeeds : Outcome ArrayState ArrayReply → Bool
  | .error _ _ | .ok .noSlot _ | .ok (.read _ (some _)) _ => false
  | .ok _ _ => true

def succeeds (s : ArrayState) (t : ArrayMove) : Bool := Succeeds (move t s)

/-- The moves of a run, each with whether it succeeds. -/
def verdicts (s : ArrayState) : List ArrayMove → List (ArrayMove × Bool)
  | [] => []
  | t :: moves => (t, s.succeeds t) :: verdicts (Outcome.state (move t s)) moves

end ArrayState

structure Listed where
  kind : Kind
  values : List Scalar
  deriving DecidableEq

/-- Arrays and views that own their lists. -/
@[ext]
structure Lists where
  arrays : Nat → Option Listed
  views : Nat → Option Listed

namespace Lists

def empty : Lists := ⟨fun _ => none, fun _ => none⟩

def setArray (p : Lists) (slot : Nat) (x : Option Listed) : Lists :=
  { p with arrays := fun i => if i = slot then x else p.arrays i }

def setView (p : Lists) (slot : Nat) (x : Option Listed) : Lists :=
  { p with views := fun i => if i = slot then x else p.views i }

def change (p : Lists) (slot : Nat) (f : Listed → List Scalar) : Lists :=
  p.setArray slot ((p.arrays slot).map fun a => { a with values := f a })

/-- The elements that an array of bytes holds; nothing new if it holds none. -/
def parsed (order : ByteOrder) (bytes : List UInt8) (a : Listed) : List Scalar :=
  match Wire.parseArray a.kind order bytes with
  | .ok (values, _) => values
  | .error _ => a.values

/-- What a step that succeeds does to the lists. -/
def step (p : Lists) : ArrayStep → Lists
  | .create value field _ | .add _ value field => p.setArray value (some ⟨field.kind, []⟩)
  | .drop value => p.setArray value none
  | .put value elements | .replace value elements => p.change value fun _ => elements
  | .setLength value length =>
    p.change value fun a =>
      a.values.take length ++ List.replicate (length - a.values.length) a.kind.blank
  | .view value view => p.setView view (p.arrays value)
  | .makeView view k elements => p.setView view (some ⟨k, elements⟩)
  | .sliceView view offset count =>
    p.setView view ((p.views view).map fun a =>
      { a with values := (a.values.drop offset).take count })
  | .dropView view => p.setView view none
  | .swap value view => (p.setArray value (p.views view)).setView view (p.arrays value)
  | .install value view => p.setArray value (p.views view)
  | .deserialize value bytes order => p.change value (parsed order bytes)
  | _ => p

/-- What a move does to the lists, given whether it succeeds. Only a view that is passed on is
lost when it does not. -/
def move (p : Lists) (done : Bool) : ArrayMove → Lists
  | .step step => if done then p.step step else p
  | .build _ _ | .forget _ => p
  | .decode value input _ =>
    if done then p.change value (parsed input.buffer.order input.ahead) else p
  | .pass value view =>
    match p.arrays value, p.views view with
    | some a, some b =>
      if a.kind = b.kind then (if done then p.setArray value (some b) else p).setView view none
      else p
    | _, _ => p

def run (p : Lists) (moves : List (ArrayMove × Bool)) : Lists :=
  moves.foldl (fun p t => p.move t.2 t.1) p

variable {p : Lists} {slot i : Nat} {x y : Option Listed}

theorem setArray_setArray (p : Lists) (slot : Nat) (x y : Option Listed) :
    (p.setArray slot x).setArray slot y = p.setArray slot y := by
  refine Lists.ext (funext fun i => ?_) rfl
  simp only [setArray]
  split <;> rfl

theorem setView_setView (p : Lists) (slot : Nat) (x y : Option Listed) :
    (p.setView slot x).setView slot y = p.setView slot y := by
  refine Lists.ext rfl (funext fun i => ?_)
  simp only [setView]
  split <;> rfl

theorem setArray_self (p : Lists) (slot : Nat) : p.setArray slot (p.arrays slot) = p := by
  refine Lists.ext (funext fun i => ?_) rfl
  simp only [setArray]
  split
  · next same => rw [same]
  · rfl

theorem change_self (p : Lists) (slot : Nat) : p.change slot Listed.values = p := by
  rw [change, show (fun a : Listed => { a with values := a.values }) = id from rfl, Option.map_id,
    id, setArray_self]

end Lists

/-- The arrays that a move may change. -/
def ArrayMove.arrays : ArrayMove → List Nat
  | .step (.create value ..) | .step (.add _ value _) | .step (.drop value)
  | .step (.put value _) | .step (.replace value _) | .step (.setLength value _)
  | .step (.swap value _) | .step (.install value _) | .step (.deserialize value ..)
  | .decode value .. | .pass value _ => [value]
  | _ => []

/-- The views that a move may change. -/
def ArrayMove.views : ArrayMove → List Nat
  | .step (.view _ view) | .step (.makeView view ..) | .step (.sliceView view ..)
  | .step (.dropView view) | .step (.swap _ view) | .pass _ view => [view]
  | _ => []

namespace Lists

theorem step_arrays (p : Lists) {t : ArrayStep} {i : Nat} (apart : i ∉ (ArrayMove.step t).arrays) :
    (p.step t).arrays i = p.arrays i := by
  cases t with
  | create | add | drop | put | replace | setLength | swap | install | deserialize =>
    simp only [ArrayMove.arrays, List.mem_singleton] at apart
    exact if_neg apart
  | _ => rfl

theorem step_views (p : Lists) {t : ArrayStep} {i : Nat} (apart : i ∉ (ArrayMove.step t).views) :
    (p.step t).views i = p.views i := by
  cases t with
  | view | makeView | sliceView | dropView | swap =>
    simp only [ArrayMove.views, List.mem_singleton] at apart
    exact if_neg apart
  | _ => rfl

theorem move_arrays (p : Lists) (done : Bool) {t : ArrayMove} {i : Nat} (apart : i ∉ t.arrays) :
    (p.move done t).arrays i = p.arrays i := by
  cases t with
  | build | forget => rfl
  | step t =>
    cases done with
    | false => rfl
    | true => exact step_arrays p apart
  | decode value input valid =>
    simp only [ArrayMove.arrays, List.mem_singleton] at apart
    cases done with
    | false => rfl
    | true => exact if_neg apart
  | pass value view =>
    simp only [ArrayMove.arrays, List.mem_singleton] at apart
    simp only [move]
    split
    · split
      · cases done with
        | false => rfl
        | true => exact if_neg apart
      · rfl
    · rfl

theorem move_views (p : Lists) (done : Bool) {t : ArrayMove} {i : Nat} (apart : i ∉ t.views) :
    (p.move done t).views i = p.views i := by
  cases t with
  | build | forget => rfl
  | step t =>
    cases done with
    | false => rfl
    | true => exact step_views p apart
  | decode value input valid => cases done <;> rfl
  | pass value view =>
    simp only [ArrayMove.views, List.mem_singleton] at apart
    simp only [move]
    split
    · split
      · cases done <;> exact if_neg apart
      · rfl
    · rfl

end Lists

end ArrayStore.Session
