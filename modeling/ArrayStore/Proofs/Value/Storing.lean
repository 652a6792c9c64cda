import ArrayStore.Proofs.Vector.Sights
import ArrayStore.Value.Decode

/-! Storage while an array is read.
Whatever arrives, and wherever reading stops, the vector under construction is
all that an intake refers to, and no cell has changed. So an array that is read
adds one frozen vector, and one that cannot be read leaves nothing behind. What
the elements are is not said. -/

namespace ArrayStore

open Holding (frozens)

namespace Intake

/-- The vector under construction is owned beside others, in a store with the same cells. -/
structure Owned (origin : Store) (l : List Holding) (k : Kind) (s : Intake) : Prop where
  owns : s.store.Owns (.writable s.next :: l)
  cells : s.store.cells = origin.cells
  kind_eq : s.next.kind = k

variable {origin : Store} {l : List Holding} {k : Kind} {s : Intake}

theorem Owned.feed (h : Owned origin l k s) (input : Incoming) :
    Owned origin l k { s with input } := ⟨h.owns, h.cells, h.kind_eq⟩

theorem Owned.store (h : Owned origin l k s) (input : Incoming) (index : Nat)
    (values : List Scalar) : Owned origin l k ⟨s.next.store index values, input, s.store⟩ := by
  obtain ⟨held, handle, kind⟩ := s.next.held_store index values
  have sound := h.owns.sound s.next List.mem_cons_self
  have roomy : s.next.Roomy := h.owns.roomy _ List.mem_cons_self
  exact ⟨h.owns.rewrite (Writable.store_sound sound index values)
    (Writable.store_roomy roomy index values) handle held, h.cells, kind.trans h.kind_eq⟩

def onNext (change : Change (Writable × Allocators) Unit) : Change Intake Unit
  | ⟨next, input, store⟩ =>
    match Store.onWritable change (next, store) with
    | .ok () (next, store) => .ok () ⟨next, input, store⟩
    | .error e (next, store) => .error e ⟨next, input, store⟩

theorem growTo_of_tight {length : Nat} (tight : s.next.capacity < length) (count : Nat) :
    growTo length count s =
      onNext (Writable.grow (min (max length (2 * s.next.capacity)) count) length) s := by
  obtain ⟨next, input, store⟩ := s
  simp only [growTo, if_pos tight]
  rfl

theorem growTo_of_roomy {length : Nat} (roomy : ¬ s.next.capacity < length) (count : Nat) :
    growTo length count s = onNext (Writable.resize length) s := by
  obtain ⟨next, input, store⟩ := s
  simp only [growTo, if_neg roomy]
  rfl

theorem Owned.onNext (h : Owned origin l k s) {change : Change (Writable × Allocators) Unit}
    (settled : Writable.Settled (Holding.handles (.writable s.next :: l))
      (blocksOf s.store.cells ++ Holding.loose l) s.next
      (Outcome.state (change (s.next, s.store.allocators)))) :
    Owned origin l k (Outcome.state (Intake.onNext change s)) := by
  obtain ⟨next, input, store⟩ := s
  obtain ⟨owns, cells, -⟩ := h.owns.onWritable settled
  have kind := settled.kind_eq
  simp only [Intake.onNext, Store.onWritable] at owns cells ⊢
  cases run : change (next, store.allocators) with
  | ok _ p | error e p =>
    obtain ⟨v, n⟩ := p
    rw [run] at owns cells kind
    exact ⟨owns, cells.trans h.cells, kind.trans h.kind_eq⟩

theorem Owned.growTo (h : Owned origin l k s) (length count : Nat) :
    Owned origin l k (Outcome.state (Intake.growTo length count s)) := by
  have sound := h.owns.sound s.next List.mem_cons_self
  have lends := h.owns.lends_head
  by_cases tight : s.next.capacity < length
  · rw [growTo_of_tight tight]
    exact h.onNext (Writable.grow_settled lends sound _ length)
  · rw [growTo_of_roomy tight]
    exact h.onNext (Writable.resize_settled lends sound length)

theorem Owned.of_growTo {t : Intake} {length count : Nat} (h : Owned origin l k s)
    (run : Intake.growTo length count s = .ok () t) : Owned origin l k t := by
  have grown := h.growTo length count
  rwa [run] at grown

theorem store_readElements {width : Nat} (width_pos : 0 < width) (count stop done : Nat)
    (s : Intake) :
    (Outcome.state (readElements k width width_pos count stop done s)).store = s.store := by
  fun_induction readElements k width width_pos count stop done s with
  | case1 | case2 | case4 | case5 => rfl
  | case3 done next input store more held less input' grown progress ih => exact ih
  | case6 done next input store more held whole run values input' got ih => exact ih

theorem Owned.readElements {width : Nat} (width_pos : 0 < width) (count stop done : Nat)
    (h : Owned origin l k s) :
    Owned origin l k (Outcome.state (Intake.readElements k width width_pos count stop done s)) := by
  fun_induction Intake.readElements k width width_pos count stop done s with
  | case1 | case2 | case4 | case5 => exact h.feed _
  | case3 done next input store more held less input' grown progress ih => exact ih (h.feed input')
  | case6 done next input store more held whole run values input' got ih =>
    exact ih (h.store input' done values)

theorem Owned.readFixed {width : Nat} (width_pos : 0 < width) (count done : Nat)
    (h : Owned origin l k s) :
    Owned origin l k (Outcome.state (Intake.readFixed k width width_pos count done s)) := by
  fun_induction Intake.readFixed k width width_pos count done s with
  | case1 done s all => exact h
  | case2 done s more stop e t failed =>
    have grown := h.growTo stop count
    rw [failed] at grown
    exact grown
  | case3 done s more stop next input store ran e input' failed =>
    exact (h.of_growTo ran).feed input'
  | case4 done s more stop next input store ran bytes input' bulk values ih =>
    exact ih ((h.of_growTo ran).store input' done values)
  | case5 done s more stop next input store ran input' declined e t failed =>
    have gathered := ((h.of_growTo ran).feed input').readElements width_pos count stop done
    simp only [failed] at gathered
    exact gathered
  | case6 done s more stop next input store ran input' declined t elements ih =>
    have gathered := ((h.of_growTo ran).feed input').readElements width_pos count stop done
    simp only [elements] at gathered
    exact ih gathered

theorem Owned.readTexts (count missing : Nat) (h : Owned origin l k s) :
    Owned origin l k (Outcome.state (Intake.readTexts count missing s)) := by
  induction missing generalizing s with
  | zero => exact h
  | succ missing ih =>
    obtain ⟨next, input, store⟩ := s
    simp only [Intake.readTexts]
    cases Wire.readText input with
    | error e input' => exact h.feed input'
    | ok text input' =>
      have grown := (h.feed input').growTo (count - (missing + 1) + 1) count
      simp only
      cases run : Intake.growTo (count - (missing + 1) + 1) count ⟨next, input', store⟩ with
      | error e t =>
        rw [run] at grown
        exact grown
      | ok _ t => exact ih (((h.feed input').of_growTo run).store t.input _ [.text text])

theorem Owned.readAll (count : Nat) (h : Owned origin l k s) :
    Owned origin l k (Outcome.state (Intake.readAll k count s)) := by
  unfold Intake.readAll
  split
  · exact h.readTexts count count
  · next width exact => exact h.readFixed (Kind.width?_pos exact) count 0

end Intake

/-- Reading an array adds one vector of its kind, or nothing if it fails. -/
theorem Store.Owns.readArray {s : Store} {l : List Holding} {a : Allocator} (h : s.Owns l)
    (alive : s.allocators.Alive a) (k : Kind) (input : Incoming) :
    match Wire.readArray k a (input, s) with
    | .ok f (_, t) => t.Owns (.frozen f :: l) ∧ f.kind = k ∧ s.Alike t (frozens l)
    | .error _ (_, t) => t.Owns l ∧ t.cells = s.cells := by
  simp only [Wire.readArray]
  cases Wire.readSize input with
  | error e input' => exact ⟨h, rfl⟩
  | ok count input' =>
    have start : Intake.Owned s l k ⟨(s.emptyWritable k a).1, input', (s.emptyWritable k a).2⟩ :=
      ⟨h.emptyWritable alive k, rfl, rfl⟩
    have owned := start.readAll count
    simp only
    cases run : Intake.readAll k count
        ⟨(s.emptyWritable k a).1, input', (s.emptyWritable k a).2⟩ with
    | error e u =>
      rw [run] at owned
      exact ⟨owned.owns.dropWritable, owned.cells⟩
    | ok _ u =>
      rw [run] at owned
      have alike := owned.owns.beside.freeze_alike u.next
      exact ⟨owned.owns.freeze, (Store.kind_freeze u.store u.next).trans owned.kind_eq,
        (Store.alike_of_cells owned.cells _).trans alike⟩

end ArrayStore
