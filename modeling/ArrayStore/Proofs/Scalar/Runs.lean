import ArrayStore.Scalar.Wire

/-! Runs of fixed-width elements as bytes.
A run is as long as its elements together, splits where its elements do, and is
the same in memory and on the wire where the order does not matter. -/

namespace ArrayStore

variable {order : ByteOrder} {k : Kind} {values : List Scalar}

theorem ByteOrder.split_of_width_le_one {width : Nat} (small : width ≤ 1) (a b : ByteOrder)
    (n : Nat) : a.split width n = b.split width n := by
  obtain rfl | rfl : width = 0 ∨ width = 1 := by omega
  all_goals cases a <;> cases b <;> rfl

theorem ByteOrder.join_of_length_le_one {bytes : List UInt8} (small : bytes.length ≤ 1)
    (a b : ByteOrder) : a.join bytes = b.join bytes := by
  match bytes, small with
  | [], _ => cases a <;> cases b <;> rfl
  | [_], _ => cases a <;> cases b <;> rfl

theorem ByteOrder.native_or_narrow (straight : order.reverses k = false) :
    order = .native ∨ k.width ≤ 1 := by
  simp only [ByteOrder.reverses, Bool.and_eq_false_iff, decide_eq_false_iff_not,
    bne_eq_false_iff_eq]
    at straight
  obtain narrow | same := straight
  · exact .inr (by omega)
  · exact .inl same

namespace Scalar

theorem encodeAll_cons (order : ByteOrder) (v : Scalar) (values : List Scalar) :
    encodeAll order (v :: values) = v.encode order ++ encodeAll order values := rfl

theorem encodeAll_append (xs ys : List Scalar) :
    encodeAll order (xs ++ ys) = encodeAll order xs ++ encodeAll order ys :=
  List.flatMap_append

theorem length_encodeAll (typed : ∀ v ∈ values, v.kind = k) :
    (encodeAll order values).length = values.length * k.width := by
  induction values with
  | nil => simp [encodeAll]
  | cons v values ih =>
    have rest := ih fun u hu => typed u (List.mem_cons_of_mem _ hu)
    rw [encodeAll_cons, List.length_append, length_encode, typed v List.mem_cons_self, rest,
      List.length_cons, Nat.succ_mul, Nat.add_comm]

theorem length_encodeAll_take (order : ByteOrder) (room : Nat)
    (typed : ∀ v ∈ values, v.kind = k) :
    (encodeAll order (values.take (room / k.width))).length ≤ room := by
  have typed' : ∀ v ∈ values.take (room / k.width), v.kind = k := fun v hv =>
    typed v (List.mem_of_mem_take hv)
  calc
    _ = (values.take (room / k.width)).length * k.width := length_encodeAll typed'
    _ ≤ room / k.width * k.width := Nat.mul_le_mul_right _ (List.length_take_le _ _)
    _ ≤ room := Nat.div_mul_le_self _ _

theorem rawBytes_eq_encodeAll (straight : order.reverses k = false)
    (typed : ∀ v ∈ values, v.kind = k) : rawBytes values = encodeAll order values := by
  obtain rfl | narrow := ByteOrder.native_or_narrow straight
  · rfl
  · induction values with
    | nil => rfl
    | cons v values ih =>
      have width : v.kind.width ≤ 1 := by rwa [typed v List.mem_cons_self]
      have rest := ih fun u hu => typed u (List.mem_cons_of_mem _ hu)
      rw [rawBytes] at rest
      rw [rawBytes, encodeAll_cons, encodeAll_cons, rest, encode, encode,
        ByteOrder.split_of_width_le_one width]

end Scalar

namespace Kind

theorem width_le_eight (k : Kind) : k.width ≤ 8 := by cases k <;> decide

@[simp] theorem decodeAll_zero (k : Kind) (order : ByteOrder) (bytes : List UInt8) :
    k.decodeAll order 0 bytes = [] := rfl

theorem decodeAll_add (k : Kind) (order : ByteOrder) (m n : Nat) (bytes : List UInt8) :
    k.decodeAll order (m + n) bytes =
      k.decodeAll order m bytes ++ k.decodeAll order n (bytes.drop (m * k.width)) := by
  induction m generalizing bytes with
  | zero => simp
  | succ m ih =>
    rw [Nat.succ_add, decodeAll_succ, decodeAll_succ, ih, List.drop_drop, List.cons_append,
      Nat.succ_mul, Nat.add_comm k.width]

theorem decodeAll_take (k : Kind) (order : ByteOrder) (n : Nat) (bytes : List UInt8) :
    k.decodeAll order n (bytes.take (n * k.width)) = k.decodeAll order n bytes := by
  induction n generalizing bytes with
  | zero => rfl
  | succ n ih =>
    have front : (bytes.take ((n + 1) * k.width)).take k.width = bytes.take k.width := by
      rw [List.take_take, Nat.succ_mul, Nat.min_eq_left (Nat.le_add_left _ _)]
    have back : (bytes.take ((n + 1) * k.width)).drop k.width =
        (bytes.drop k.width).take (n * k.width) := by
      rw [List.drop_take, Nat.succ_mul, Nat.add_sub_cancel]
    rw [decodeAll_succ, decodeAll_succ, front, back, ih]

theorem decodeAll_append {m : Nat} {xs : List UInt8} (size : xs.length = m * k.width) (n : Nat)
    (ys : List UInt8) : k.decodeAll order (m + n) (xs ++ ys) =
      k.decodeAll order m xs ++ k.decodeAll order n ys := by
  rw [decodeAll_add, List.drop_left' size, ← decodeAll_take k order m (xs ++ ys),
    List.take_left' size]

theorem decodeAll_native (straight : order.reverses k = false) (n : Nat) (bytes : List UInt8) :
    k.decodeAll .native n bytes = k.decodeAll order n bytes := by
  obtain rfl | narrow := ByteOrder.native_or_narrow straight
  · rfl
  · induction n generalizing bytes with
    | zero => rfl
    | succ n ih =>
      have small : (bytes.take k.width).length ≤ 1 :=
        Nat.le_trans (List.length_take_le _ _) narrow
      rw [decodeAll_succ, decodeAll_succ, ih, decode, decode,
        ByteOrder.join_of_length_le_one small]

end Kind

end ArrayStore
