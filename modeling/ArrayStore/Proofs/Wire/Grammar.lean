import ArrayStore.Proofs.Scalar.Memory
import ArrayStore.Proofs.Wire.Canonical

/-! The grammar of arrays on the wire, as a parser of whole runs of bytes.
It knows no buffer, no stream and no storage, takes one element at a time and
leaves what follows the array. `Spells` says what it takes for an element, without
the codec: every byte but zero is true, a string is the UTF-8 of its text, and any
other element is as the layout has it. Main statement: the parser reads back
every encoding. -/

namespace ArrayStore.Wire

inductive Flaw where
  | ended
  | malformed (problem : Malformation)
  deriving DecidableEq

abbrev Parser (α : Type) := List UInt8 → Except Flaw (α × List UInt8)

def parseBytes (count : Nat) : Parser (List UInt8) := fun s =>
  if s.length < count then .error .ended else .ok (s.take count, s.drop count)

/-- A 32-bit pattern is negative from `2 ^ 31` on. -/
def parseLongSize (order : ByteOrder) : Parser Nat := fun s =>
  match parseBytes 4 s with
  | .error flaw => .error flaw
  | .ok (bytes, s) =>
    let n := order.join bytes
    if n < 0x80000000 then .ok (n, s)
    else .error (.malformed (.negativeSize ((n : Int) - 0x100000000)))

def parseSize (order : ByteOrder) : Parser Nat
  | [] => .error .ended
  | lead :: s =>
    if lead < 0xFE then .ok (lead.toNat, s)
    else if lead = 0xFF then .ok (0, s)
    else parseLongSize order s

def parseText (order : ByteOrder) : Parser String := fun s =>
  match parseSize order s with
  | .error flaw => .error flaw
  | .ok (size, s) =>
    match parseBytes size s with
    | .error flaw => .error flaw
    | .ok (bytes, s) =>
      match Utf8.decode bytes.toArray with
      | .error fault => .error (.malformed (.invalidText fault))
      | .ok text => .ok (text, s)

def parseElement (k : Kind) (order : ByteOrder) : Parser Scalar := fun s =>
  match k.width? with
  | none =>
    match parseText order s with
    | .error flaw => .error flaw
    | .ok (text, s) => .ok (.text text, s)
  | some width =>
    match parseBytes width s with
    | .error flaw => .error flaw
    | .ok (bytes, s) => .ok (k.decode order bytes, s)

def parseMany {α : Type} (item : Parser α) : Nat → Parser (List α)
  | 0, s => .ok ([], s)
  | n + 1, s =>
    match item s with
    | .error flaw => .error flaw
    | .ok (x, s) =>
      match parseMany item n s with
      | .error flaw => .error flaw
      | .ok (xs, s) => .ok (x :: xs, s)

def parseArray (k : Kind) (order : ByteOrder) : Parser (List Scalar) := fun s =>
  match parseSize order s with
  | .error flaw => .error flaw
  | .ok (count, s) => parseMany (parseElement k order) count s

theorem parseBytes_append {count : Nat} {bytes : List UInt8} (rest : List UInt8)
    (exact : bytes.length = count) : parseBytes count (bytes ++ rest) = .ok (bytes, rest) := by
  rw [parseBytes, if_neg (by simp [exact]), List.take_left' exact, List.drop_left' exact]

theorem parseSize_lt {order : ByteOrder} {bytes rest : List UInt8} {size : Nat}
    (parsed : parseSize order bytes = .ok (size, rest)) : size < 0x80000000 := by
  cases bytes with
  | nil => cases parsed
  | cons lead bytes =>
    have small : lead.toNat < 256 := lead.toNat_lt
    simp only [parseSize, parseLongSize] at parsed
    split at parsed
    · cases parsed
      omega
    · split at parsed
      · cases parsed
        decide
      · split at parsed
        · cases parsed
        · split at parsed
          · next low =>
            cases parsed
            exact low
          · cases parsed

/-- The tests of the first byte, in the order in which `readSize` makes them. -/
theorem lead_tests {α : Sort _} (lead : UInt8) (null long short : α) :
    (if lead = nullSize then null else if lead = sizeEscape then long else short) =
      if lead < 0xFE then short else if lead = 0xFF then null else long := by
  have bound := lead.toNat_lt
  have cases : lead < 0xFE ∧ lead ≠ nullSize ∧ lead ≠ sizeEscape ∨
      ¬lead < 0xFE ∧ lead = 0xFF ∨ ¬lead < 0xFE ∧ lead ≠ 0xFF ∧ lead = sizeEscape := by
    simp only [UInt8.lt_iff_toNat_lt, ne_eq, ← UInt8.toNat_inj, sizeEscape, nullSize,
      UInt8.toNat_ofNat]
    omega
  obtain ⟨low, plain, apart⟩ | ⟨high, same⟩ | ⟨high, plain, same⟩ := cases
  · rw [if_neg plain, if_neg apart, if_pos low]
  · rw [if_neg high, if_pos same, if_pos (show lead = nullSize from same)]
  · rw [if_neg high, if_neg plain, if_neg (show lead ≠ nullSize from plain), if_pos same]

theorem parseSize_encodeSize {order : ByteOrder} {size : Nat} (small : size < 0x80000000)
    (rest : List UInt8) : parseSize order (encodeSize order size ++ rest) = .ok (size, rest) := by
  by_cases short : size < 254
  · have lead : (UInt8.ofNat size).toNat = size := by
      rw [UInt8.toNat_ofNat', Nat.mod_eq_of_lt (Nat.lt_trans short (by decide))]
    have less : UInt8.ofNat size < 0xFE := by
      rw [UInt8.lt_iff_toNat_lt, lead]
      exact short
    simp only [encodeSize, if_pos short, List.cons_append, List.nil_append, parseSize,
      if_pos less, lead]
  · have pattern : size < ByteOrder.span 4 := Nat.lt_trans small (by decide)
    have whole := parseBytes_append rest (order.length_split 4 size)
    have lead : ¬(0xFE : UInt8) < 0xFE ∧ (0xFE : UInt8) ≠ 0xFF := by decide
    simp only [encodeSize, if_neg short, ← split_eq_digits, List.cons_append, parseSize,
      if_neg lead.1, if_neg lead.2, parseLongSize, whole, order.join_split 4 size pattern,
      if_pos small]

theorem parseText_encodeText {order : ByteOrder} {text : String}
    (small : (Utf8.encode text).length < 0x80000000) (rest : List UInt8) :
    parseText order (encodeText order text ++ rest) = .ok (text, rest) := by
  simp only [parseText, encodeText, List.append_assoc, parseSize_encodeSize small,
    parseBytes_append rest rfl, Utf8.decode_encode]

theorem parseElement_encodeElement {k : Kind} {order : ByteOrder} {v : Scalar} (typed : v.kind = k)
    (small : ∀ text, v = .text text → (Utf8.encode text).length < 0x80000000) (rest : List UInt8) :
    parseElement k order (encodeElement order v ++ rest) = .ok (v, rest) := by
  cases hw : k.width? with
  | none =>
    have text := (Kind.width?_eq_none_iff k).1 hw
    obtain ⟨t, rfl⟩ : ∃ t, v = .text t := by
      cases v <;> simp_all [Scalar.kind]
    simp only [parseElement, hw, encodeElement, parseText_encodeText (small t rfl)]
  | some width =>
    have fixed : v.kind ≠ .text := fun text => by simp [← typed, text, Kind.width?] at hw
    have flat := encodeElement_fixed order fixed
    have exact : (v.encode order).length = width := by
      rw [Scalar.length_encode, typed, Kind.width_eq_of_width? hw]
    simp only [parseElement, hw, flat, parseBytes_append rest exact]
    rw [← typed, Scalar.decode_encode order v fixed]

/-- The bytes begin with an element, and `rest` follows it. -/
def Spells (order : ByteOrder) (rest bytes : List UInt8) : Scalar → Prop
  | .text text =>
    parseSize order bytes = .ok ((Utf8.encode text).length, Utf8.encode text ++ rest)
  | .boolean value => ∃ x, bytes = x :: rest ∧ value = (x != 0)
  | v => bytes = encodeElement order v ++ rest

theorem parseBytes_eq_ok_iff {count : Nat} {bytes front rest : List UInt8} :
    parseBytes count bytes = .ok (front, rest) ↔ bytes = front ++ rest ∧ front.length = count := by
  refine ⟨fun parsed => ?_, fun ⟨same, exact⟩ => same ▸ parseBytes_append rest exact⟩
  unfold parseBytes at parsed
  split at parsed
  · cases parsed
  · next enough =>
    cases parsed
    exact ⟨(List.take_append_drop count bytes).symm, List.length_take_of_le (Nat.not_lt.1 enough)⟩

theorem parseText_iff {order : ByteOrder} {bytes rest : List UInt8} {text : String} :
    parseText order bytes = .ok (text, rest) ↔ Spells order rest bytes (.text text) := by
  refine ⟨fun parsed => ?_, fun spelled => ?_⟩
  · unfold parseText at parsed
    split at parsed
    · cases parsed
    · next size behind sized =>
      split at parsed
      · cases parsed
      · next front last taken =>
        split at parsed
        · cases parsed
        · next read decoded =>
          obtain ⟨rfl, rfl⟩ : read = text ∧ last = rest := by
            cases parsed
            exact ⟨rfl, rfl⟩
          obtain ⟨rfl, rfl⟩ := parseBytes_eq_ok_iff.1 taken
          rw [Spells, sized, ← Utf8.decode_eq_ok_iff.1 decoded]
  · simp only [parseText, show parseSize order bytes = _ from spelled, parseBytes_append rest rfl,
      Utf8.decode_encode]

theorem parseElement_fixed_iff {k : Kind} {width : Nat} (hw : k.width? = some width)
    {order : ByteOrder} {bytes rest : List UInt8} {v : Scalar} :
    parseElement k order bytes = .ok (v, rest) ↔
      ∃ front, bytes = front ++ rest ∧ front.length = width ∧ k.decode order front = v := by
  refine ⟨fun parsed => ?_, fun ⟨front, same, exact, decoded⟩ => ?_⟩
  · simp only [parseElement, hw] at parsed
    split at parsed
    · cases parsed
    · next front behind taken =>
      cases parsed
      obtain ⟨same, exact⟩ := parseBytes_eq_ok_iff.1 taken
      exact ⟨front, same, exact, rfl⟩
  · simp only [parseElement, hw, same, parseBytes_append rest exact, decoded]

theorem decode_boolean (order : ByteOrder) (x : UInt8) :
    Kind.boolean.decode order [x] = .boolean (x != 0) := by
  rw [Kind.decode, order.join_single, Kind.ofPattern_boolean]

theorem spells_fixed_iff {order : ByteOrder} {bytes rest : List UInt8} {v : Scalar}
    (any : v.kind.anyPattern = true) :
    Spells order rest bytes v ↔ bytes = v.encode order ++ rest := by
  rw [← encodeElement_fixed order (Kind.ne_text_of_anyPattern any)]
  cases v with
  | text | boolean => cases any
  | _ => rfl

section Elements

variable {order : ByteOrder} {bytes rest : List UInt8} {v : Scalar}

theorem parseElement_text_iff :
    parseElement .text order bytes = .ok (v, rest) ↔
      v.kind = .text ∧ Spells order rest bytes v := by
  refine ⟨fun parsed => ?_, fun ⟨typed, spelled⟩ => ?_⟩
  · simp only [parseElement, Kind.width?] at parsed
    split at parsed
    · cases parsed
    · next text behind read =>
      cases parsed
      exact ⟨rfl, parseText_iff.1 read⟩
  · obtain ⟨text, rfl⟩ : ∃ text, v = .text text := by
      cases v <;> simp_all [Scalar.kind]
    simp only [parseElement, Kind.width?, parseText_iff.2 spelled]

theorem parseElement_boolean_iff :
    parseElement .boolean order bytes = .ok (v, rest) ↔
      v.kind = .boolean ∧ Spells order rest bytes v := by
  rw [parseElement_fixed_iff rfl]
  refine ⟨fun ⟨front, same, exact, decoded⟩ => ?_, fun ⟨typed, spelled⟩ => ?_⟩
  · obtain ⟨x, rfl⟩ := List.length_eq_one_iff.1 exact
    rw [decode_boolean] at decoded
    exact decoded ▸ ⟨rfl, x, same, rfl⟩
  · obtain ⟨value, rfl⟩ : ∃ value, v = .boolean value := by
      cases v <;> simp_all [Scalar.kind]
    obtain ⟨x, same, rfl⟩ := spelled
    exact ⟨[x], same, rfl, decode_boolean order x⟩

theorem parseElement_pattern_iff {k : Kind} (any : k.anyPattern = true) :
    parseElement k order bytes = .ok (v, rest) ↔ v.kind = k ∧ Spells order rest bytes v := by
  have fixed := Kind.ne_text_of_anyPattern any
  obtain ⟨width, hw⟩ := Option.ne_none_iff_exists'.1 (mt (Kind.width?_eq_none_iff k).1 fixed)
  have wide := Kind.width_eq_of_width? hw
  rw [parseElement_fixed_iff hw]
  refine ⟨fun ⟨front, same, exact, decoded⟩ => ?_, fun ⟨typed, spelled⟩ => ?_⟩
  · have typed : v.kind = k := decoded ▸ Kind.kind_ofPattern k _
    refine ⟨typed, (spells_fixed_iff (typed ▸ any)).2 ?_⟩
    rw [same, ← decoded, Kind.encode_decode any (exact.trans wide.symm)]
  · subst typed
    exact ⟨v.encode order, (spells_fixed_iff any).1 spelled, (v.length_encode order).trans wide,
      v.decode_encode order fixed⟩

/-- What the parser takes for an element. -/
theorem parseElement_iff {k : Kind} :
    parseElement k order bytes = .ok (v, rest) ↔ v.kind = k ∧ Spells order rest bytes v := by
  obtain any | rfl | rfl := k.anyPattern_or
  · exact parseElement_pattern_iff any
  · exact parseElement_boolean_iff
  · exact parseElement_text_iff

end Elements

theorem parseArray_encodeArray (p : Payload) (order : ByteOrder) (rest : List UInt8) :
    parseArray p.kind order (encodeArray order p.values ++ rest) = .ok (p.values, rest) := by
  have elements : ∀ values : List Scalar, (∀ v ∈ values, v.kind = p.kind) → TextsFit values →
      parseMany (parseElement p.kind order) values.length
        (values.flatMap (encodeElement order) ++ rest) = .ok (values, rest) := by
    intro values typed small
    induction values with
    | nil => rfl
    | cons v values ih =>
      have first : ∀ rest, parseElement p.kind order (encodeElement order v ++ rest) = _ :=
        parseElement_encodeElement (typed v List.mem_cons_self)
          fun t h => small t (h ▸ List.mem_cons_self)
      have others := ih (fun u hu => typed u (List.mem_cons_of_mem _ hu))
        fun t ht => small t (List.mem_cons_of_mem _ ht)
      simp only [List.length_cons, parseMany, List.flatMap_cons, List.append_assoc, first, others]
  simp only [parseArray, encodeArray, List.append_assoc, parseSize_encodeSize p.countable]
  exact elements p.values p.typed p.texts

theorem parseMany_add {α : Type} (item : Parser α) (m n : Nat) (s : List UInt8) :
    parseMany item (m + n) s =
      match parseMany item m s with
      | .error flaw => .error flaw
      | .ok (xs, s) => (parseMany item n s).map fun (ys, s) => (xs ++ ys, s) := by
  induction m generalizing s with
  | zero =>
    rw [Nat.zero_add]
    simp only [parseMany, List.nil_append]
    cases parseMany item n s <;> rfl
  | succ m ih =>
    rw [Nat.succ_add]
    simp only [parseMany, ih]
    cases item s with
    | error flaw => rfl
    | ok first =>
      simp only
      cases parseMany item m first.2 with
      | error flaw => rfl
      | ok front =>
        simp only
        cases parseMany item n front.2 <;> rfl

theorem parseMany_fixed {k : Kind} {width : Nat} (hw : k.width? = some width) (order : ByteOrder)
    (n : Nat) (s : List UInt8) :
    parseMany (parseElement k order) n s =
      if s.length < n * width then .error .ended
      else .ok (k.decodeAll order n s, s.drop (n * width)) := by
  have wide := Kind.width_eq_of_width? hw
  induction n generalizing s with
  | zero => simp [parseMany]
  | succ n ih =>
    simp only [parseMany, parseElement, hw, parseBytes, ih, Kind.decodeAll_succ, wide, Nat.succ_mul]
    by_cases short : s.length < width
    · rw [if_pos short, if_pos (by omega)]
    · simp only [if_neg short, List.length_drop, List.drop_drop]
      by_cases more : s.length - width < n * width
      · rw [if_pos more, if_pos (by omega)]
      · rw [if_neg more, if_neg (by omega), Nat.add_comm width]

end ArrayStore.Wire
