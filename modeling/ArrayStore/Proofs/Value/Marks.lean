import ArrayStore.Value.Basic

/-! The marks of an array value: its field, its token and its owner.
No operation on the content changes them, nor any flag. What differs between the
operations is whether the owner hears of them. Main statements: one lemma for
each operation, which says whether the owner is told where it succeeds; none
tells it where it fails. -/

namespace ArrayStore

structure Mark where
  field : Field
  token : Token
  owner : Option Owner
  deriving DecidableEq

namespace FieldValue

def mark (v : FieldValue) : Mark := ⟨v.field, v.token, v.owner⟩

/-- A value after an operation on its content, of which its owner has heard or not. -/
structure Heard (told : Bool) (v : FieldValue) (w : World) (v' : FieldValue) (w' : World) :
    Prop where
  mark : v'.mark = v.mark
  flags : w'.flags = w.flags
  trackers : w'.trackers = (if told then v.post w else w).trackers
  tracked : w'.tracked = w.tracked

/-- The owner hears of an operation if it succeeds, provided that it is told at all. -/
def Tells (told : Bool) (v : FieldValue) (w : World) : Outcome (FieldValue × World) Unit → Prop
  | .ok () (v', w') => Heard told v w v' w'
  | .error _ (v', w') => Heard false v w v' w'

variable {v : FieldValue} {w : World}

theorem Heard.refl (v : FieldValue) (w : World) : Heard false v w v w := ⟨rfl, rfl, rfl, rfl⟩

theorem heard_of_store (value : Frozen) (store : Store) :
    Heard false v w { v with value } { w with store } := ⟨rfl, rfl, rfl, rfl⟩

theorem heard_post (value : Frozen) (store : Store) :
    Heard true v w { v with value } (post { v with value } { w with store }) := by
  obtain ⟨field, old, allocator, capacityMutable, token, owner⟩ := v
  cases owner with
  | none => exact ⟨rfl, rfl, rfl, rfl⟩
  | some o => exact ⟨rfl, rfl, rfl, rfl⟩

theorem setCapacityMutable_tells (on : Bool) (v : FieldValue) (w : World) :
    Tells false v w (setCapacityMutable on (v, w)) := by
  simp only [setCapacityMutable]
  split
  · exact Heard.refl v w
  · exact ⟨rfl, rfl, rfl, rfl⟩

theorem modify_tells (change : Change (Writable × Allocators) Unit) (v : FieldValue) (w : World) :
    Tells false v w (modify change (v, w)) := by
  simp only [modify]
  split
  · split
    · exact heard_of_store ..
    · exact heard_of_store v.value _
  · split
    · exact heard_of_store ..
    · split
      · exact heard_of_store ..
      · exact heard_of_store v.value _

theorem setCapacity_tells (capacity : Nat) (v : FieldValue) (w : World) :
    Tells false v w (setCapacity capacity (v, w)) := by
  simp only [setCapacity]
  split
  · exact Heard.refl v w
  · split
    · exact Heard.refl v w
    · exact modify_tells _ v w

theorem setLength_tells (length : Nat) (v : FieldValue) (w : World) :
    Tells false v w (setLength length (v, w)) := by
  simp only [setLength]
  split
  · exact Heard.refl v w
  · split
    · exact Heard.refl v w
    · split
      · exact heard_of_store _ w.store
      · exact modify_tells _ v w

theorem replace_tells (next : Frozen) (v : FieldValue) (w : World) (store : Store) :
    Tells true v w (replace next (v, { w with store })) := by
  simp only [replace]
  split
  · exact heard_of_store v.value _
  · exact heard_post ..

theorem putFrom_tells (elements : List Scalar) (v : FieldValue) (w : World) :
    Tells true v w (putFrom elements (v, w)) := by
  obtain ⟨store, flags, trackers, tracked⟩ := w
  simp only [putFrom, World.onStore]
  split
  · exact Heard.refl v _
  · cases Store.ofList v.kind v.allocator elements store with
    | error e t => exact heard_of_store v.value t
    | ok next t => exact replace_tells next v ⟨store, flags, trackers, tracked⟩ t

theorem swap_tells (other : Frozen) (v : FieldValue) (w : World) :
    match swap (v, other, w) with
    | .ok () (v', _, w') => Heard false v w v' w'
    | .error _ (v', _, w') => Heard false v w v' w' := by
  cases immutable : v.isImmutable w with
  | true =>
    simp only [swap, immutable, if_true]
    exact .refl v w
  | false =>
    simp only [swap, immutable, Bool.false_eq_true, if_false]
    exact heard_of_store other w.store

theorem deserialize_tells (v : FieldValue) (w : World) (input : Incoming) :
    match deserialize (v, w, input) with
    | .ok () (v', w', _) => Heard true v w v' w'
    | .error _ (v', w', _) => Heard false v w v' w' := by
  obtain ⟨store, flags, trackers, tracked⟩ := w
  cases immutable : v.isImmutable ⟨store, flags, trackers, tracked⟩ with
  | true =>
    simp only [deserialize, immutable, if_true]
    exact .refl v _
  | false =>
    simp only [deserialize, immutable, Bool.false_eq_true, if_false]
    cases Wire.readArray v.kind v.allocator (input, store) with
    | error e p => exact heard_of_store (w := ⟨store, flags, trackers, tracked⟩) v.value p.2
    | ok next p => exact heard_post (w := ⟨store, flags, trackers, tracked⟩) next (p.2.drop v.value)

theorem attach_eq (v : FieldValue) (token : Token) (owner : Owner) (w : World) :
    v.attach token owner w = ({ v with token, owner := some owner }, { w with
      flags := if w.flags.isImmutable v.token then w.flags.freeze token else w.flags }) := by
  by_cases frozen : w.flags.isImmutable v.token = true
  · simp only [attach, isImmutable, frozen, if_true, World.freezeToken]
  · simp only [attach, isImmutable, frozen]
    rfl

end FieldValue

end ArrayStore
