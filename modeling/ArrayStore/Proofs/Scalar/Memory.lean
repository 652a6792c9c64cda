import ArrayStore.Proofs.Scalar.Runs

/-! Elements as they lie in memory.
In memory an element takes the bytes of its pattern, the least significant first, and a run lies
element after element. `Kind.LiesIn` says so byte by byte, without the codec. Where every pattern
is an element, any bytes of the right number are those of just the run that is read from them. -/

namespace ArrayStore

variable {order : ByteOrder} {k : Kind} {values : List Scalar}

namespace ByteOrder

theorem getElem?_lowBytes (n : Nat) {width i : Nat} (inside : i < width) :
    (lowBytes width n)[i]? = some (UInt8.ofNat (n / span i)) := by
  induction width generalizing n i with
  | zero => exact absurd inside (Nat.not_lt_zero i)
  | succ width ih =>
    cases i with
    | zero => simp [lowBytes, span]
    | succ i =>
      rw [lowBytes, List.getElem?_cons_succ, ih _ (Nat.lt_of_succ_lt_succ inside),
        Nat.div_div_eq_div_mul, span]

theorem lowBytes_ofLowBytes (bytes : List UInt8) :
    lowBytes bytes.length (ofLowBytes bytes) = bytes := by
  induction bytes with
  | nil => rfl
  | cons b bytes ih =>
    have small := b.toNat_lt
    have front : UInt8.ofNat (b.toNat + 256 * ofLowBytes bytes) = b := by
      apply UInt8.toNat_inj.1
      rw [UInt8.toNat_ofNat']
      omega
    have back : (b.toNat + 256 * ofLowBytes bytes) / 256 = ofLowBytes bytes := by omega
    rw [List.length_cons, lowBytes, ofLowBytes, front, back, ih]

theorem split_join (order : ByteOrder) (bytes : List UInt8) :
    order.split bytes.length (order.join bytes) = bytes := by
  cases order with
  | little => exact lowBytes_ofLowBytes bytes
  | big =>
    have turned := lowBytes_ofLowBytes bytes.reverse
    rw [List.length_reverse] at turned
    rw [split, join, turned, List.reverse_reverse]

end ByteOrder

namespace Kind

theorem anyPattern_or (k : Kind) : k.anyPattern = true ∨ k = .boolean ∨ k = .text := by
  cases k <;> decide

theorem ne_text_of_anyPattern (any : k.anyPattern = true) : k ≠ .text := by
  rintro rfl
  cases any

theorem pattern_ofPattern {n : Nat} (any : k.anyPattern = true)
    (small : n < ByteOrder.span k.width) : (k.ofPattern n).pattern = n := by
  cases k with
  | boolean | text => cases any
  | _ =>
    simp only [ofPattern, Scalar.pattern, UInt8.toUInt8_toInt8, UInt16.toUInt16_toInt16,
      UInt32.toUInt32_toInt32, UInt64.toUInt64_toInt64, UInt8.toNat_ofNat', UInt16.toNat_ofNat',
      UInt32.toNat_ofNat', UInt64.toNat_ofNat']
    exact Nat.mod_eq_of_lt small

theorem encode_decode {bytes : List UInt8} (any : k.anyPattern = true)
    (size : bytes.length = k.width) : (k.decode order bytes).encode order = bytes := by
  have small : order.join bytes < ByteOrder.span k.width := size ▸ order.join_lt bytes
  rw [Scalar.encode, decode, kind_ofPattern, pattern_ofPattern any small, ← size,
    ByteOrder.split_join]

theorem encodeAll_decodeAll {bytes : List UInt8} {n : Nat} (any : k.anyPattern = true)
    (size : bytes.length = n * k.width) :
    Scalar.encodeAll order (k.decodeAll order n bytes) = bytes := by
  induction n generalizing bytes with
  | zero =>
    rw [Nat.zero_mul, List.length_eq_zero_iff] at size
    rw [size]
    rfl
  | succ n ih =>
    rw [Nat.succ_mul] at size
    have front : (bytes.take k.width).length = k.width := by
      rw [List.length_take]
      omega
    have back : (bytes.drop k.width).length = n * k.width := by
      rw [List.length_drop]
      omega
    rw [decodeAll_succ, Scalar.encodeAll_cons, encode_decode any front, ih back,
      List.take_append_drop]

theorem kind_of_mem_decodeAll {bytes : List UInt8} {n : Nat} {v : Scalar}
    (member : v ∈ k.decodeAll order n bytes) : v.kind = k := by
  induction n generalizing bytes with
  | zero => cases member
  | succ n ih =>
    rw [decodeAll_succ] at member
    cases member with
    | head => exact kind_ofPattern k _
    | tail _ later => exact ih later

/-- The bytes of elements in memory: byte `j` of element `i` is digit `j` of its pattern, counted
from the least significant one. -/
def LiesIn (k : Kind) (bytes : List UInt8) (values : List Scalar) : Prop :=
  bytes.length = values.length * k.width ∧
    ∀ i v, values[i]? = some v → ∀ j < k.width,
      bytes[i * k.width + j]? = some (UInt8.ofNat (v.pattern / ByteOrder.span j))

theorem rawBytes_liesIn (typed : ∀ v ∈ values, v.kind = k) :
    k.LiesIn (Scalar.rawBytes values) values := by
  refine ⟨Scalar.length_encodeAll typed, fun i v found j inside => ?_⟩
  induction values generalizing i with
  | nil => cases found
  | cons u values ih =>
    have size : (u.encode .native).length = k.width := by
      rw [Scalar.length_encode, typed u List.mem_cons_self]
    rw [Scalar.rawBytes, Scalar.encodeAll_cons]
    cases i with
    | zero =>
      obtain rfl : u = v := Option.some.inj found
      rw [Nat.zero_mul, Nat.zero_add, List.getElem?_append_left (size ▸ inside)]
      exact ByteOrder.getElem?_lowBytes _ (typed u List.mem_cons_self ▸ inside)
    | succ i =>
      have place : (i + 1) * k.width + j - k.width = i * k.width + j := by
        rw [Nat.succ_mul]
        omega
      have past : k.width ≤ (i + 1) * k.width + j := by
        rw [Nat.succ_mul]
        omega
      rw [List.getElem?_append_right (size ▸ past), size, place]
      exact ih (fun w member => typed w (List.mem_cons_of_mem u member)) i found

theorem ofRawBytes?_liesIn {bytes : List UInt8} {n : Nat} (any : k.anyPattern = true)
    (size : bytes.length = n * k.width) :
    k.ofRawBytes? n bytes = some (k.decodeAll .native n bytes) ∧
      k.LiesIn bytes (k.decodeAll .native n bytes) := by
  refine ⟨by rw [ofRawBytes?, if_pos any], ?_⟩
  have typed : ∀ v ∈ k.decodeAll .native n bytes, v.kind = k :=
    fun v member => kind_of_mem_decodeAll member
  have lies := rawBytes_liesIn typed
  rwa [Scalar.rawBytes, encodeAll_decodeAll any size] at lies

theorem decodeAll_narrow {bytes : List UInt8} {n : Nat} (narrow : k.width = 1)
    (enough : n ≤ bytes.length) :
    k.decodeAll order n bytes = (bytes.take n).map fun x => k.ofPattern x.toNat := by
  induction n generalizing bytes with
  | zero => rfl
  | succ n ih =>
    cases bytes with
    | nil => exact absurd enough (Nat.not_succ_le_zero n)
    | cons x bytes =>
      rw [decodeAll_succ, narrow, List.take_succ_cons, List.take_zero, List.drop_succ_cons,
        List.drop_zero, ih (Nat.le_of_succ_le_succ enough), decode, order.join_single,
        List.take_succ_cons, List.map_cons]

theorem ofPattern_boolean (x : UInt8) :
    Kind.boolean.ofPattern x.toNat = .boolean (x != 0) := by
  rw [ofPattern]
  congr 1
  rw [Bool.eq_iff_iff, bne_iff_ne, bne_iff_ne, ne_eq, ne_eq, ← UInt8.toNat_inj]
  rfl

end Kind

end ArrayStore
