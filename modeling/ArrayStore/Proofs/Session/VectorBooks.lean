import ArrayStore.Proofs.Table.Entries
import ArrayStore.Proofs.Vector.Holdings
import ArrayStore.Session.Vector

/-! What the slots of a vector session hold, beside a frame that is held elsewhere.
A step takes vectors out of slots, works on them and puts vectors into slots;
after it the store belongs to the slots and to the same frame, also when the step
fails. -/

namespace ArrayStore.Session

def VectorSlot.holding : VectorSlot → Holding
  | .writable w => .writable w
  | .frozen f => .frozen f

namespace VectorState

def holdings (slots : Table VectorSlot) : List Holding := slots.values.map VectorSlot.holding

/-- The store belongs to the slots and to a frame, which has the pools that steps may name. -/
structure Owned (frame : List Holding) (s : VectorState) : Prop where
  sorted : s.slots.Sorted
  owns : s.store.Owns (holdings s.slots ++ frame)
  named : ∀ a ∈ s.pools, .handle a ∈ frame

variable {s : VectorState} {frame : List Holding} {slot : Nat} {x y : VectorSlot} {w : Writable}
  {f : Frozen} {store : Store}

theorem holdings_take (h : s.slots.Sorted) (found : s.slots.get? slot = some x) :
    (holdings s.slots).Perm (x.holding :: holdings (s.slots.erase slot)) :=
  (Table.values_perm_of_get? h found).map _

theorem holdings_give (h : s.slots.Sorted) (slot : Nat) (x : VectorSlot) :
    (holdings (s.slots.insert slot x)).Perm (x.holding :: holdings (s.slots.erase slot)) :=
  (Table.values_insert_perm h slot x).map _

theorem Owned.alive (h : s.Owned frame) (pool : Option Nat) :
    s.store.allocators.Alive (s.allocator pool) :=
  h.owns.alive_named (fun a member => List.mem_append_right _ (h.named a member)) pool

theorem Owned.take (h : s.Owned frame) (found : s.slots.get? slot = some x) :
    s.store.Owns (x.holding :: (holdings (s.slots.erase slot) ++ frame)) :=
  h.owns.perm ((holdings_take h.sorted found).append_right frame)

theorem Owned.give (h : s.Owned frame)
    (owns : store.Owns (x.holding :: (holdings (s.slots.erase slot) ++ frame))) :
    Owned frame { s with store, slots := s.slots.insert slot x } :=
  ⟨Table.insert_sorted h.sorted slot x,
    owns.perm ((holdings_give h.sorted slot x).append_right frame).symm, h.named⟩

theorem Owned.clear (h : s.Owned frame)
    (owns : store.Owns (holdings (s.slots.erase slot) ++ frame)) :
    Owned frame { s with store, slots := s.slots.erase slot } :=
  ⟨Table.erase_sorted h.sorted slot, owns, h.named⟩

theorem discard_owns {l : List Holding} (h : store.Owns (x.holding :: l)) :
    (discard store (some x)).Owns l := by
  cases x with
  | writable w => exact h.dropWritable
  | frozen f => exact h.drop

theorem Owned.put (h : s.Owned frame) (slot : Nat)
    (owns : store.Owns (x.holding :: (holdings s.slots ++ frame))) :
    (s.put slot x store).Owned frame := by
  unfold VectorState.put
  cases found : s.slots.get? slot with
  | none =>
    have same := Table.erase_of_get?_eq_none found
    rw [← same] at owns
    exact h.give owns
  | some old =>
    have order : (x.holding :: (holdings s.slots ++ frame)).Perm
        (old.holding :: (x.holding :: (holdings (s.slots.erase slot) ++ frame))) :=
      (((holdings_take h.sorted found).append_right frame).cons _).trans (.swap ..)
    exact h.give (discard_owns (owns.perm order))

theorem Owned.make (h : s.Owned frame) (slot : Nat) {r : Outcome Store VectorSlot}
    (made : match r with
      | .ok x store => store.Owns (x.holding :: (holdings s.slots ++ frame))
      | .error _ store => store.Owns (holdings s.slots ++ frame)) :
    (Outcome.state (s.make slot r)).Owned frame := by
  cases r with
  | ok x store => exact h.put slot made
  | error e store => exact ⟨h.sorted, made, h.named⟩

theorem asWritable_owns {l : List Holding} {r : Outcome Store Writable}
    (made : match r with
      | .ok w store => store.Owns (.writable w :: l)
      | .error _ store => store.Owns l) :
    match asWritable r with
    | .ok x store => store.Owns (x.holding :: l)
    | .error _ store => store.Owns l := by
  cases r <;> exact made

theorem asFrozen_owns {l : List Holding} {r : Outcome Store Frozen}
    (made : match r with
      | .ok f store => store.Owns (.frozen f :: l)
      | .error _ store => store.Owns l) :
    match asFrozen r with
    | .ok x store => store.Owns (x.holding :: l)
    | .error _ store => store.Owns l := by
  cases r <;> exact made

theorem Owned.change {change : Change (Writable × Allocators) Unit} (h : s.Owned frame)
    (found : s.slots.get? slot = some (.writable w))
    (settled : ∀ handles out, w.Sound → s.store.allocators.Lends handles (w.held ++ out) →
      Writable.Settled handles out w (Outcome.state (change (w, s.store.allocators)))) :
    (Outcome.state (s.change slot w change)).Owned frame := by
  have taken : s.store.Owns (.writable w :: _) := h.take found
  obtain ⟨owns, -⟩ := taken.onWritable
    (settled _ _ (taken.sound w List.mem_cons_self) taken.lends_head)
  unfold VectorState.change
  cases run : Store.onWritable change (w, s.store) with
  | ok _ t | error e t =>
    rw [run] at owns
    exact h.give (x := .writable t.1) owns

theorem Owned.freeze (h : s.Owned frame) (slot : Nat) :
    (Outcome.state (step (.freeze slot) s)).Owned frame := by
  simp only [step]
  split
  · next w found =>
    have taken : s.store.Owns (.writable w :: _) := h.take found
    exact h.give (x := .frozen (s.store.freeze w).1) taken.freeze
  · exact h

theorem Owned.thaw (h : s.Owned frame) (slot : Nat) (pool : Option Nat) :
    (Outcome.state (step (.thaw slot pool) s)).Owned frame := by
  simp only [step]
  split
  · next f found =>
    have taken : s.store.Owns (.frozen f :: _) := h.take found
    have thawed := taken.thaw (h.alive pool)
    cases run : Store.thaw f (s.allocator pool) s.store with
    | ok w store =>
      rw [run] at thawed
      exact h.give (x := .writable w) thawed
    | error e store =>
      rw [run] at thawed
      exact h.clear thawed
  · exact h

theorem Owned.clone (h : s.Owned frame) (slot other : Nat) :
    (Outcome.state (step (.clone slot other) s)).Owned frame := by
  simp only [step]
  split
  · next f found =>
    have live : .frozen f ∈ holdings s.slots ++ frame := List.mem_append_left _
      (List.mem_map.2 ⟨.frozen f, (Table.mem_values_iff h.sorted).2 ⟨slot, found⟩, rfl⟩)
    exact h.put (x := .frozen f) other (h.owns.clone_live live).1
  · exact h

theorem Owned.drop (h : s.Owned frame) (slot : Nat) :
    (Outcome.state (step (.drop slot) s)).Owned frame := by
  simp only [step]
  split
  · next x found => exact h.clear (discard_owns (h.take found))
  · exact h

theorem Owned.slice (h : s.Owned frame) (slot offset count : Nat) :
    (Outcome.state (step (.slice slot offset count) s)).Owned frame := by
  simp only [step]
  split
  · next w found =>
    have taken : s.store.Owns (.writable w :: _) := h.take found
    have sound := Writable.slice_sound (taken.sound w List.mem_cons_self) offset count
    have roomy := Writable.slice_roomy (taken.roomy _ List.mem_cons_self) offset count
    exact h.give (x := .writable (w.slice offset count)) (taken.rewrite sound roomy rfl rfl)
  · next f found =>
    have taken : s.store.Owns (.frozen f :: _) := h.take found
    exact h.give (x := .frozen (f.slice offset count)) (taken.slice offset count)
  · exact h

theorem Owned.set (h : s.Owned frame) (slot index : Nat) (value : Scalar) :
    (Outcome.state (step (.set slot index value) s)).Owned frame := by
  simp only [step]
  split
  · next w found =>
    have taken : s.store.Owns (.writable w :: _) := h.take found
    have sound := taken.sound w List.mem_cons_self
    have roomy : w.Roomy := taken.roomy _ List.mem_cons_self
    by_cases visible : index < w.length
    · obtain ⟨held, handle, -⟩ := w.held_store index [value]
      simp only [Writable.set?, if_pos visible]
      exact h.give (x := .writable (w.store index [value]))
        (taken.rewrite (Writable.store_sound sound index [value])
          (Writable.store_roomy roomy index [value]) handle held)
    · simp only [Writable.set?, if_neg visible]
      exact h
  · exact h

theorem Owned.exchange (h : s.Owned frame) {other : Nat} (found : s.slots.get? slot = some x)
    (found' : (s.slots.erase slot).get? other = some y) :
    Owned frame { s with slots := (s.slots.insert slot y).insert other x } := by
  have apart : slot ≠ other := by
    rintro rfl
    rw [Table.get?_erase, if_pos rfl] at found'
    cases found'
  have before : (holdings s.slots).Perm
      (x.holding :: y.holding :: holdings ((s.slots.erase slot).erase other)) :=
    (holdings_take h.sorted found).trans
      ((holdings_take (s := { s with slots := s.slots.erase slot })
        (Table.erase_sorted h.sorted slot) found').cons _)
  have after : (holdings ((s.slots.insert slot y).insert other x)).Perm
      (x.holding :: y.holding :: holdings ((s.slots.erase slot).erase other)) :=
    (holdings_give (s := { s with slots := s.slots.insert slot y })
      (Table.insert_sorted h.sorted slot y) other x).trans
      ((((Table.insert_erase_perm h.sorted apart y).map Prod.snd).map VectorSlot.holding).cons _)
  exact ⟨Table.insert_sorted (Table.insert_sorted h.sorted slot y) other x,
    h.owns.perm ((before.trans after.symm).append_right frame), h.named⟩

theorem Owned.swap (h : s.Owned frame) (slot other : Nat) :
    (Outcome.state (step (.swap slot other) s)).Owned frame := by
  simp only [step]
  split
  · next a b found found' => exact h.exchange found found'
  · next a b found found' => exact h.exchange found found'
  · next a found found' => exact h.clear (discard_owns (h.take found))
  · exact h

/-- A step, also one that fails, leaves the store to the slots and the frame. -/
theorem step_owned (h : s.Owned frame) (t : VectorStep) :
    (Outcome.state (step t s)).Owned frame := by
  cases t with
  | create slot pool =>
    exact h.put (x := .writable _) slot (h.owns.emptyWritable (h.alive pool) s.kind)
  | ofList slot values pool =>
    exact h.make slot (asWritable_owns (h.owns.onAllocators _
      (fun w n run => (Writable.ofList_ok run).1)
      (fun w n run => Writable.ofList_roomy h.owns.lends run)
      (Writable.ofList_lends h.owns.lends (h.alive pool) s.kind values)))
  | frozenOfList slot values =>
    exact h.make slot (asFrozen_owns (h.owns.ofList (a := .shared) trivial s.kind values))
  | emptyFrozen slot => exact h.put (x := .frozen _) slot (h.owns.bare s.kind)
  | blank slot length zero pool =>
    exact h.make slot (asWritable_owns (h.owns.onAllocators _
      (fun w n run => (Writable.blank_ok run).1)
      (fun w n run => Writable.blank_roomy h.owns.lends run)
      (Writable.blank_lends h.owns.lends (h.alive pool) s.kind length zero)))
  | freeze slot => exact h.freeze slot
  | thaw slot pool => exact h.thaw slot pool
  | clone slot other => exact h.clone slot other
  | drop slot => exact h.drop slot
  | slice slot offset count => exact h.slice slot offset count
  | reserve slot capacity =>
    simp only [step]
    split
    · next w found =>
      exact h.change found fun _ _ sound lends => (Writable.reserve_settled lends sound capacity).1
    · exact h
  | resize slot length =>
    simp only [step]
    split
    · next w found =>
      exact h.change found fun _ _ sound lends => Writable.resize_settled lends sound length
    · exact h
  | set slot index value => exact h.set slot index value
  | swap slot other => exact h.swap slot other

end VectorState

end ArrayStore.Session
