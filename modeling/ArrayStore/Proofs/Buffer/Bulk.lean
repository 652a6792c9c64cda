import ArrayStore.Proofs.Buffer.Transfers
import ArrayStore.Proofs.Scalar.Memory

/-! Bulk transfers against transfers one by one.
Elements can be put or got one at a time, a run at a time, or as the bytes that lie in memory.
Main statement: `bulk_agrees`, by which the three agree, a run at a time being all or none. -/

namespace ArrayStore

namespace Buffer

variable {b : Buffer} {k : Kind} {values : List Scalar}

/-- Put elements one at a time, up to the first that does not fit. -/
def putEach : List Scalar → Change Buffer Unit
  | [] => pure ()
  | v :: values => do
    put v
    putEach values

/-- Get elements one at a time, up to the first that is not all there. -/
def getEach (k : Kind) : Nat → Change Buffer (List Scalar)
  | 0 => pure []
  | n + 1 => do
    let v ← get k
    let values ← getEach k n
    pure (v :: values)

theorem putEach_cons (v : Scalar) (values : List Scalar) (b : Buffer) :
    putEach (v :: values) b =
      match put v b with
      | .ok _ t => putEach values t
      | .error e t => .error e t := by
  simp only [putEach, bind, EStateM.bind]
  cases put v b <;> rfl

theorem putEach_of_le (fits : (Scalar.encodeAll b.order values).length ≤ b.remaining) :
    putEach values b = .ok () (b.store (Scalar.encodeAll b.order values)) := by
  induction values generalizing b with
  | nil => rfl
  | cons v values ih =>
    rw [Scalar.encodeAll_cons, List.length_append] at fits
    have rest := ih (b := b.store (v.encode b.order))
      (by rw [order_store, remaining_store]; omega)
    rw [putEach_cons, put, putBytes_of_le (by omega)]
    rw [order_store, store_store, ← Scalar.encodeAll_cons] at rest
    exact rest

theorem putEach_of_lt (short : b.remaining < (Scalar.encodeAll b.order values).length) :
    ∃ e t, putEach values b = .error e t := by
  induction values generalizing b with
  | nil => exact absurd short (Nat.not_lt_zero _)
  | cons v values ih =>
    rw [Scalar.encodeAll_cons, List.length_append] at short
    rw [putEach_cons, put]
    by_cases first : (v.encode b.order).length ≤ b.remaining
    · rw [putBytes_of_le first]
      exact ih (by rw [order_store, remaining_store]; omega)
    · rw [putBytes_of_lt (Nat.lt_of_not_le first)]
      exact ⟨_, _, rfl⟩

theorem putAll_each_agrees (values : List Scalar) (b : Buffer) :
    match putEach values b with
    | .ok _ t => putAll values b = .ok () t
    | .error _ _ => putAll values b =
        .error (.insufficientSpace (Scalar.encodeAll b.order values).length b.remaining) b := by
  by_cases fits : (Scalar.encodeAll b.order values).length ≤ b.remaining
  · rw [putEach_of_le fits]
    exact putBytes_of_le fits
  · obtain ⟨e, t, failed⟩ := putEach_of_lt (Nat.lt_of_not_le fits)
    rw [failed]
    exact putBytes_of_lt (Nat.lt_of_not_le fits)

theorem get_of_le (enough : k.width ≤ b.remaining) :
    get k b = .ok (k.decode b.order (b.unread.take k.width)) (b.skip k.width) := by
  rw [get, getBytes_of_le enough]
  rfl

theorem get_of_lt (short : b.remaining < k.width) :
    get k b = .error (.insufficientSpace k.width b.remaining) b := by
  rw [get, getBytes_of_lt short]

theorem getAll_of_le {n : Nat} (enough : n * k.width ≤ b.remaining) :
    getAll k n b = .ok (k.decodeAll b.order n b.unread) (b.skip (n * k.width)) := by
  rw [getAll, getBytes_of_le enough]
  simp only [order_skip, Kind.decodeAll_take]

theorem getAll_of_lt {n : Nat} (short : b.remaining < n * k.width) :
    getAll k n b = .error (.insufficientSpace (n * k.width) b.remaining) b := by
  rw [getAll, getBytes_of_lt short]

theorem getEach_succ (k : Kind) (n : Nat) (b : Buffer) :
    getEach k (n + 1) b =
      match get k b with
      | .ok v t =>
        match getEach k n t with
        | .ok values u => .ok (v :: values) u
        | .error e u => .error e u
      | .error e t => .error e t := by
  simp only [getEach, bind, EStateM.bind, pure, EStateM.pure]
  cases get k b with
  | ok v t => dsimp only; cases getEach k n t <;> rfl
  | error e t => rfl

theorem getEach_of_le {n : Nat} (enough : n * k.width ≤ b.remaining) :
    getEach k n b = .ok (k.decodeAll b.order n b.unread) (b.skip (n * k.width)) := by
  induction n generalizing b with
  | zero =>
    rw [Nat.zero_mul]
    rfl
  | succ n ih =>
    rw [Nat.succ_mul] at enough
    have rest := ih (b := b.skip k.width) (by rw [remaining_skip]; omega)
    rw [getEach_succ, get_of_le (by omega)]
    dsimp only
    rw [rest, order_skip, unread_skip, skip_skip, Kind.decodeAll_succ, Nat.succ_mul,
      Nat.add_comm k.width]

theorem getEach_of_lt {n : Nat} (short : b.remaining < n * k.width) :
    ∃ e t, getEach k n b = .error e t := by
  induction n generalizing b with
  | zero =>
    rw [Nat.zero_mul] at short
    exact absurd short (Nat.not_lt_zero _)
  | succ n ih =>
    rw [Nat.succ_mul] at short
    rw [getEach_succ]
    by_cases first : k.width ≤ b.remaining
    · obtain ⟨e, t, failed⟩ := ih (b := b.skip k.width) (by rw [remaining_skip]; omega)
      rw [get_of_le first]
      dsimp only
      rw [failed]
      exact ⟨e, t, rfl⟩
    · rw [get_of_lt (Nat.lt_of_not_le first)]
      exact ⟨_, _, rfl⟩

theorem getArrayInto_each_agrees (k : Kind) (places : List Scalar) (b : Buffer) :
    match getEach k places.length b with
    | .ok values t => getArrayInto k (b, places) = .ok () (t, values) ∧
        values = k.decodeAll b.order places.length b.unread ∧
        places.length * k.width ≤ b.remaining
    | .error _ _ => getArrayInto k (b, places) =
        .error (.insufficientSpace (places.length * k.width) b.remaining) (b, places) := by
  by_cases enough : places.length * k.width ≤ b.remaining
  · rw [getEach_of_le enough, getArrayInto_eq, getAll_of_le enough]
    exact ⟨rfl, rfl, enough⟩
  · obtain ⟨e, t, failed⟩ := getEach_of_lt (Nat.lt_of_not_le enough)
    rw [failed, getArrayInto_eq, getAll_of_lt (Nat.lt_of_not_le enough)]

theorem decodeAll_boolean {n : Nat} (valid : b.Valid) (enough : n ≤ b.remaining) :
    Kind.decodeAll .boolean b.order n b.unread =
      (b.unread.take n).map fun x => .boolean (x != 0) := by
  rw [Kind.decodeAll_narrow rfl (length_unread valid ▸ enough)]
  exact List.map_congr_left fun x _ => Kind.ofPattern_boolean x

theorem ofRawBytes?_agrees {bytes : List UInt8} {places : List Scalar} (valid : b.Valid)
    (any : k.anyPattern = true) (straight : b.reverses k = false)
    (size : bytes.length = places.length * k.width) (ready : bytes <+: b.unread) :
    ∃ values, k.ofRawBytes? places.length bytes = some values ∧ k.LiesIn bytes values ∧
      (∀ v ∈ values, v.kind = k) ∧
      getArrayInto k (b, places) = .ok () (b.skip bytes.length, values) := by
  obtain ⟨laid, lies⟩ := Kind.ofRawBytes?_liesIn any size
  have enough : places.length * k.width ≤ b.remaining := by
    rw [← size, ← length_unread valid]
    exact ready.length_le
  have front : b.unread.take (places.length * k.width) = bytes := by
    rw [← size]
    exact (List.prefix_iff_eq_take.1 ready).symm
  refine ⟨_, laid, lies, fun v member => Kind.kind_of_mem_decodeAll member, ?_⟩
  rw [getArrayInto_eq, getAll_of_le enough, ← Kind.decodeAll_take, front, size,
    Kind.decodeAll_native straight]

/-- Transfers in bulk, one by one and of the bytes in memory agree. A run is put exactly if its
elements can be put one after the other, and with the same buffer left; and so it is got, of
booleans every byte but zero as true, where a run that is refused changes neither the buffer nor
the places that it would have filled. Where the order is that of memory, the bytes of a run in
memory are those that are put for it, and any bytes, laid over a run in memory, make it the run
that would be got from them; booleans alone have no such view. -/
theorem bulk_agrees (fixed : k ≠ .text) (valid : b.Valid) :
    (∀ values, (∀ v ∈ values, v.kind = k) →
      match putEach values b with
      | .ok _ t => putAll values b = .ok () t
      | .error _ _ => putAll values b =
          .error (.insufficientSpace (values.length * k.width) b.remaining) b) ∧
    (∀ places : List Scalar,
      match getEach k places.length b with
      | .ok values t => getArrayInto k (b, places) = .ok () (t, values) ∧
          (k = .boolean → values = (b.unread.take places.length).map fun x => .boolean (x != 0))
      | .error _ _ => getArrayInto k (b, places) =
          .error (.insufficientSpace (places.length * k.width) b.remaining) (b, places)) ∧
    (b.reverses k = false →
      (∀ values, (∀ v ∈ values, v.kind = k) →
        k.LiesIn (Scalar.rawBytes values) values ∧
          putAll values b = putBytes (Scalar.rawBytes values) b) ∧
      ∀ (places : List Scalar) bytes, bytes.length = places.length * k.width →
        bytes <+: b.unread →
        match k.ofRawBytes? places.length bytes with
        | some values => k.LiesIn bytes values ∧ (∀ v ∈ values, v.kind = k) ∧
            getArrayInto k (b, places) = .ok () (b.skip bytes.length, values)
        | none => k = .boolean) := by
  refine ⟨fun values typed => ?_, fun places => ?_, fun straight =>
    ⟨fun values typed => ⟨Kind.rawBytes_liesIn typed, ?_⟩, fun places bytes size ready => ?_⟩⟩
  · have agrees := putAll_each_agrees values b
    rwa [Scalar.length_encodeAll typed] at agrees
  · have agrees := getArrayInto_each_agrees k places b
    cases got : getEach k places.length b with
    | ok values t =>
      rw [got] at agrees
      obtain ⟨same, decoded, enough⟩ := agrees
      refine ⟨same, fun boolean => ?_⟩
      subst boolean
      rw [decoded]
      exact decodeAll_boolean valid (by rwa [← Nat.mul_one places.length])
    | error e t => rwa [got] at agrees
  · rw [Scalar.rawBytes_eq_encodeAll straight typed, putAll]
  · by_cases any : k.anyPattern = true
    · obtain ⟨values, laid, agrees⟩ := ofRawBytes?_agrees valid any straight size ready
      rw [laid]
      exact agrees
    · rw [Kind.ofRawBytes?, if_neg any]
      exact (k.anyPattern_or.resolve_left any).resolve_right fixed

/-- Two shorts that fit five bytes and a third that does not, and the five bytes as booleans. -/
theorem bulk_agrees_five_bytes :
    let b : Buffer := ⟨#[254, 255, 2, 1, 0], 0, 5, .little⟩
    let pair : List Scalar := [.short (-2), .short 258]
    b.Valid ∧ b.reverses .short = false ∧ (∀ v ∈ pair, v.kind = .short) ∧
      putAll pair b = putBytes [254, 255, 2, 1] b ∧
      putAll (.short 7 :: pair) b = .error (.insufficientSpace 6 5) b ∧
      [254, 255, 2, 1] <+: b.unread ∧
      getArrayInto .short (b, [.short 0, .short 0]) = .ok () (b.skip 4, pair) ∧
      Outcome.answer (getEach .boolean 5 b) = .ok
        [.boolean true, .boolean true, .boolean true, .boolean true, .boolean false] := by
  intro b pair
  have valid : b.Valid := by decide
  have typed : ∀ v ∈ pair, v.kind = .short := by decide
  have ready : [254, 255, 2, 1] <+: b.unread := by decide
  obtain ⟨put, -, raw⟩ := bulk_agrees (k := .short) (by decide) valid
  obtain ⟨-, got, -⟩ := bulk_agrees (k := .boolean) (by decide) valid
  obtain ⟨direct, laid⟩ := raw rfl
  have five := got (List.replicate 5 (.boolean false))
  refine ⟨valid, rfl, typed, (direct pair typed).2, put (.short 7 :: pair) (by decide), ready,
    (laid [.short 0, .short 0] _ rfl ready).2.2, ?_⟩
  exact congrArg _ (five.2 rfl)

end Buffer

end ArrayStore
