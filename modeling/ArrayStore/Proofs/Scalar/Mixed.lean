import ArrayStore.Proofs.Scalar.Memory

/-! Elements of several kinds in one run of bytes.
Nothing in the bytes says where an element ends, so a reader has to know the kinds. By those of the
elements that were written it reads just these elements. -/

namespace ArrayStore

variable {order : ByteOrder}

namespace Kind

def widthAll : List Kind → Nat
  | [] => 0
  | k :: kinds => k.width + widthAll kinds

/-- The elements of these kinds that a run of bytes spells, one after the other. -/
def decodeEach (order : ByteOrder) : List Kind → List UInt8 → List Scalar
  | [], _ => []
  | k :: kinds, bytes =>
    k.decode order (bytes.take k.width) :: decodeEach order kinds (bytes.drop k.width)

theorem widthAll_cons (k : Kind) (kinds : List Kind) :
    widthAll (k :: kinds) = k.width + widthAll kinds := rfl

theorem widthAll_append (front back : List Kind) :
    widthAll (front ++ back) = widthAll front + widthAll back := by
  induction front with
  | nil => exact (Nat.zero_add _).symm
  | cons k front ih => rw [List.cons_append, widthAll_cons, widthAll_cons, ih, Nat.add_assoc]

theorem widthAll_replicate (n : Nat) (k : Kind) :
    widthAll (List.replicate n k) = n * k.width := by
  induction n with
  | zero => rw [Nat.zero_mul]; rfl
  | succ n ih => rw [List.replicate_succ, widthAll_cons, ih, Nat.succ_mul, Nat.add_comm]

theorem kinds_decodeEach (kinds : List Kind) (bytes : List UInt8) :
    (decodeEach order kinds bytes).map Scalar.kind = kinds := by
  induction kinds generalizing bytes with
  | nil => rfl
  | cons k kinds ih => rw [decodeEach, List.map_cons, ih, decode, kind_ofPattern]

theorem decodeEach_append {front : List Kind} {xs : List UInt8}
    (size : xs.length = widthAll front) (back : List Kind) (ys : List UInt8) :
    decodeEach order (front ++ back) (xs ++ ys) =
      decodeEach order front xs ++ decodeEach order back ys := by
  induction front generalizing xs with
  | nil =>
    rw [List.eq_nil_of_length_eq_zero size]
    rfl
  | cons k front ih =>
    rw [widthAll_cons] at size
    have first : k.width ≤ xs.length := by omega
    have rest : (xs.drop k.width).length = widthAll front := by
      rw [List.length_drop]
      omega
    rw [List.cons_append, decodeEach, decodeEach, List.take_append_of_le_length first,
      List.drop_append_of_le_length first, ih rest, List.cons_append]

theorem decodeEach_of_append {kinds : List Kind} {xs : List UInt8}
    (size : xs.length = widthAll kinds) (ys : List UInt8) :
    decodeEach order kinds (xs ++ ys) = decodeEach order kinds xs := by
  rw [← List.append_nil kinds, decodeEach_append size, decodeEach, List.append_nil,
    List.append_nil]

theorem decodeEach_replicate (n : Nat) (k : Kind) (bytes : List UInt8) :
    decodeEach order (List.replicate n k) bytes = k.decodeAll order n bytes := by
  induction n generalizing bytes with
  | zero => rfl
  | succ n ih => rw [List.replicate_succ, decodeEach, decodeAll_succ, ih]

end Kind

namespace Scalar

theorem length_encodeAll_mixed (order : ByteOrder) (values : List Scalar) :
    (encodeAll order values).length = Kind.widthAll (values.map kind) := by
  induction values with
  | nil => rfl
  | cons v values ih =>
    rw [encodeAll_cons, List.length_append, length_encode, ih, List.map_cons, Kind.widthAll_cons]

theorem decodeEach_encodeAll {values : List Scalar} (fixed : ∀ v ∈ values, v.kind ≠ .text)
    (rest : List UInt8) :
    Kind.decodeEach order (values.map kind) (encodeAll order values ++ rest) = values := by
  induction values with
  | nil => rfl
  | cons v values ih =>
    have size : (v.encode order).length = v.kind.width := v.length_encode order
    rw [List.map_cons, Kind.decodeEach, encodeAll_cons, List.append_assoc, List.take_left' size,
      List.drop_left' size, v.decode_encode order (fixed v List.mem_cons_self),
      ih fun u member => fixed u (List.mem_cons_of_mem v member)]

theorem decodeEach_isPrefix {values : List Scalar} (fixed : ∀ v ∈ values, v.kind ≠ .text)
    {kinds : List Kind} (same : kinds <+: values.map kind) :
    Kind.decodeEach order kinds (encodeAll order values) <+: values := by
  obtain ⟨n, rfl⟩ : ∃ n, kinds = (values.take n).map kind :=
    ⟨kinds.length, by rw [List.map_take]; exact List.prefix_iff_eq_take.1 same⟩
  have split : encodeAll order values =
      encodeAll order (values.take n) ++ encodeAll order (values.drop n) := by
    rw [← encodeAll_append, List.take_append_drop]
  rw [split, decodeEach_encodeAll fun v member => fixed v (List.mem_of_mem_take member)]
  exact List.take_prefix n values

theorem encodeAll_ubytes (order : ByteOrder) (bytes : List UInt8) :
    encodeAll order (bytes.map .ubyte) = bytes := by
  induction bytes with
  | nil => rfl
  | cons x bytes ih =>
    rw [List.map_cons, encodeAll_cons, encode_ubyte, ih, List.singleton_append]

end Scalar

end ArrayStore
