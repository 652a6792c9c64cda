import ArrayStore.Proofs.Buffer.Window
import ArrayStore.Proofs.Scalar.Runs

/-! Bulk transfers.
A run of elements is read into places of the caller's one element after the
other, once the whole run is known to be there. Done in this way it is one
transfer of the bytes of the run, so that a run that is not there touches neither
the buffer nor the places. A run that is stored changes its own bytes only. -/

namespace ArrayStore

namespace Buffer

variable {b : Buffer} {k : Kind}

/-- Read elements from the position on, one for each place. The caller sees that they are there. -/
def takeEach (k : Kind) : List Scalar → Buffer → List Scalar × Buffer
  | [], b => ([], b)
  | _ :: places, b =>
    let value := k.decode b.order (b.data.extract b.position (b.position + k.width)).toList
    let (values, rest) := takeEach k places (b.skip k.width)
    (value :: values, rest)

theorem skip_skip (b : Buffer) (m n : Nat) : (b.skip m).skip n = b.skip (m + n) := by
  simp [skip, Nat.add_assoc]

theorem takeEach_eq (k : Kind) (places : List Scalar) (b : Buffer) :
    takeEach k places b =
      (k.decodeAll b.order places.length (b.data.toList.drop b.position),
        b.skip (places.length * k.width)) := by
  induction places generalizing b with
  | nil => simp [takeEach, skip]
  | cons place places ih =>
    have total : k.width + places.length * k.width = (place :: places).length * k.width := by
      rw [List.length_cons, Nat.succ_mul, Nat.add_comm]
    rw [takeEach, ih, skip_skip, total, List.length_cons, Kind.decodeAll_succ, List.drop_drop]
    simp [skip, List.extract_eq_take_drop]

/-- Fill every place with the next element, or none of them if there are too few. -/
def getArrayInto (k : Kind) : Change (Buffer × List Scalar) Unit := fun (b, places) =>
  if b.remaining < places.length * k.width then
    .error (.insufficientSpace (places.length * k.width) b.remaining) (b, places)
  else
    let (values, rest) := takeEach k places b
    .ok () (rest, values)

def getBytesInto : Change (Buffer × List UInt8) Unit := fun (b, places) =>
  if b.remaining < places.length then
    .error (.insufficientSpace places.length b.remaining) (b, places)
  else
    .ok () (b.skip places.length,
      (b.data.extract b.position (b.position + places.length)).toList)

theorem getArrayInto_eq (k : Kind) (b : Buffer) (places : List Scalar) :
    getArrayInto k (b, places) =
      match getAll k places.length b with
      | .ok values rest => .ok () (rest, values)
      | .error e rest => .error e (rest, places) := by
  by_cases short : b.remaining < places.length * k.width
  · simp only [getArrayInto, getAll, getBytes, if_pos short]
  · have bytes : k.decodeAll b.order places.length
        (b.data.extract b.position (b.position + places.length * k.width)).toList =
          k.decodeAll b.order places.length (b.data.toList.drop b.position) := by
      rw [Array.toList_extract, List.extract_eq_take_drop, Nat.add_sub_cancel_left,
        Kind.decodeAll_take]
    simp only [getArrayInto, getAll, getBytes, if_neg short, takeEach_eq, bytes, skip]

theorem getBytesInto_eq (b : Buffer) (places : List UInt8) :
    getBytesInto (b, places) =
      match getBytes places.length b with
      | .ok bytes rest => .ok () (rest, bytes)
      | .error e rest => .error e (rest, places) := by
  simp only [getBytesInto, getBytes, skip]
  split <;> rfl

/-- What a run of bytes stored at the position makes of a buffer: it fits below the limit, and only
its bytes and the position are others than before. -/
structure Stored (b : Buffer) (run : List UInt8) (t : Buffer) : Prop where
  fits : b.position + run.length ≤ b.limit
  position : t.position = b.position + run.length
  limit : t.limit = b.limit
  order : t.order = b.order
  inside : ∀ i < run.length, t.data[b.position + i]? = run[i]?
  outside : ∀ i, i < b.position ∨ b.position + run.length ≤ i → t.data[i]? = b.data[i]?
  beyond : ∀ i, b.limit ≤ i → t.data[i]? = b.data[i]?

theorem stored_store {run : List UInt8} (valid : b.Valid) (fits : run.length ≤ b.remaining) :
    b.Stored run (b.store run) := by
  obtain ⟨low, high⟩ := valid
  simp only [remaining] at fits
  simp only [capacity] at high
  have outside : ∀ i, i < b.position ∨ b.position + run.length ≤ i →
      (b.store run).data[i]? = b.data[i]? := by
    intro i away
    simp only [store]
    rw [getElem?_splice, if_neg (by omega)]
  refine ⟨by omega, rfl, rfl, rfl, ?_, outside, fun i past => outside i (.inr (by omega))⟩
  intro i inside
  simp only [store]
  rw [getElem?_splice, if_pos (by omega), Nat.add_sub_cancel_left]

end Buffer

end ArrayStore
