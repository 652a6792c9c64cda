import ArrayStore.Vector.Writable

/-! What writable vectors show.
A vector is sound if its view lies within the elements that are set; every
operation keeps this. On the values it acts as on a list of its own: elements
beside the view never come back, and growth adds blanks only. An operation that
fails leaves the vector as it was. Where its elements lie is not said. -/

namespace ArrayStore

namespace Storage

theorem view_eq (s : Storage) (offset length : Nat) :
    s.view offset length = (s.items.toList.drop offset).take length := by
  simp [view, List.extract_eq_take_drop]

theorem length_view {s : Storage} {offset length : Nat} (set : offset + length ≤ s.items.size) :
    (s.view offset length).length = length := by
  rw [view_eq, List.length_take, List.length_drop, Array.length_toList]
  omega

@[simp] theorem view_zero (s : Storage) (offset : Nat) : s.view offset 0 = [] := by
  rw [view_eq, List.take_zero]

theorem getElem?_view (s : Storage) (offset length i : Nat) :
    (s.view offset length)[i]? = if i < length then s.items[offset + i]? else none := by
  rw [view_eq, List.getElem?_take]
  split
  · rw [List.getElem?_drop, Array.getElem?_toList]
  · rfl

theorem view_narrow (s : Storage) {offset length : Nat} (set : offset + length ≤ s.items.size)
    (skip count : Nat) :
    s.view (offset + (narrow length skip count).1) (narrow length skip count).2 =
      ((s.view offset length).drop skip).take count := by
  have size := length_view set
  apply List.ext_getElem?
  intro i
  simp only [getElem?_view, List.getElem?_take, List.getElem?_drop, narrow]
  by_cases visible : i < count
  · by_cases within : skip + i < length
    · rw [if_pos (by omega), if_pos visible, if_pos within]
      congr 1
      omega
    · rw [if_neg (by omega), if_pos visible, if_neg within]
  · rw [if_neg (by omega), if_neg visible]

theorem view_splice {s : Storage} {offset length index : Nat} {run : List Scalar}
    (set : offset + length ≤ s.items.size) (fits : index + run.length ≤ length) :
    { s with items := splice s.items (offset + index) run }.view offset length =
      (s.view offset length).take index ++ run ++
        (s.view offset length).drop (index + run.length) := by
  have size := length_view set
  apply List.ext_getElem?
  intro i
  rw [getElem?_view, getElem?_splice, List.append_assoc]
  by_cases before : i < index
  · have visible : i < length := by omega
    rw [List.getElem?_append_left (by rw [List.length_take]; omega),
      List.getElem?_take_of_lt before, getElem?_view, if_pos visible, if_pos visible,
      if_neg (by omega)]
  · rw [List.getElem?_append_right (by rw [List.length_take]; omega), List.length_take, size,
      Nat.min_eq_left (by omega)]
    by_cases inside : i < index + run.length
    · rw [if_pos (by omega), if_pos (by omega), List.getElem?_append_left (by omega)]
      congr 1
      omega
    · rw [List.getElem?_append_right (by omega), List.getElem?_drop, getElem?_view]
      have place : index + run.length + (i - index - run.length) = i := by omega
      rw [place]
      by_cases visible : i < length
      · rw [if_pos visible, if_pos visible, if_neg (by omega)]
      · rw [if_neg visible, if_neg visible]

@[simp] theorem size_fillBlank (s : Storage) (k : Kind) (start stop : Nat) :
    (s.fillBlank k start stop).items.size = max s.items.size stop := by
  simp only [fillBlank, Array.size_append, size_splice, Array.size_replicate]
  omega

theorem view_fillBlank {s : Storage} (k : Kind) {offset old : Nat} (length : Nat)
    (set : offset + old ≤ s.items.size) (longer : old ≤ length) :
    (s.fillBlank k (offset + old) (offset + length)).view offset length =
      s.view offset old ++ List.replicate (length - old) k.blank := by
  have size := length_view set
  apply List.ext_getElem?
  intro i
  rw [getElem?_view, List.getElem?_append, size, getElem?_view]
  simp only [fillBlank, Array.getElem?_append, size_splice, getElem?_splice, List.length_replicate,
    List.getElem?_replicate, Array.getElem?_replicate]
  by_cases before : i < old
  · rw [if_pos (by omega), if_pos (by omega), if_neg (by omega), if_pos before, if_pos before]
  · by_cases visible : i < length
    · have blank : i - old < length - old := by omega
      rw [if_pos visible, if_neg before, if_pos blank]
      by_cases hidden : offset + i < s.items.size
      · rw [if_pos hidden, if_pos (by omega), if_pos (by omega)]
      · rw [if_neg hidden, if_pos (by omega)]
    · rw [if_neg visible, if_neg before, if_neg (by omega)]

end Storage

namespace Writable

/-- The view of the vector lies within the elements that are set. -/
def Sound (w : Writable) : Prop :=
  match w.storage with
  | none => w.length = 0
  | some s => w.offset + w.length ≤ s.items.size

variable {w : Writable}

theorem values_of_storage {s : Storage} (stored : w.storage = some s) :
    w.values = s.view w.offset w.length := by
  rw [values, stored]
  rfl

theorem length_values (h : w.Sound) : w.values.length = w.length := by
  cases stored : w.storage with
  | none =>
    simp only [Sound, stored] at h
    simp [values, stored, h]
  | some s =>
    simp only [Sound, stored] at h
    rw [values_of_storage stored, Storage.length_view h]

theorem empty_sound (k : Kind) (a : Allocator) (m : Allocators) : (empty k a m).1.Sound := rfl

theorem values_empty (k : Kind) (a : Allocator) (m : Allocators) : (empty k a m).1.values = [] :=
  rfl

theorem slice_sound (h : w.Sound) (skip count : Nat) : (w.slice skip count).Sound := by
  have bound := narrow_le w.length skip count
  unfold Sound at h ⊢
  simp only [slice]
  cases stored : w.storage with
  | none =>
    simp only [stored] at h ⊢
    omega
  | some s =>
    simp only [stored] at h ⊢
    omega

theorem values_slice (h : w.Sound) (skip count : Nat) :
    (w.slice skip count).values = (w.values.drop skip).take count := by
  cases stored : w.storage with
  | none => simp [values, slice, stored]
  | some s =>
    simp only [Sound, stored] at h
    rw [values_of_storage stored, ← Storage.view_narrow s h]
    exact values_of_storage (w := w.slice skip count) stored

theorem store_nil (w : Writable) (index : Nat) : w.store index [] = w := by
  obtain ⟨kind, storage, offset, length, allocator⟩ := w
  cases storage <;> rfl

theorem store_store (w : Writable) (index : Nat) (xs ys : List Scalar) :
    (w.store index xs).store (index + xs.length) ys = w.store index (xs ++ ys) := by
  obtain ⟨kind, storage, offset, length, allocator⟩ := w
  cases storage with
  | none => rfl
  | some s => simp only [Writable.store, splice_append, Nat.add_assoc]

theorem length_store (w : Writable) (index : Nat) (run : List Scalar) :
    (w.store index run).length = w.length := by
  obtain ⟨kind, storage, offset, length, allocator⟩ := w
  cases storage <;> rfl

theorem store_sound (h : w.Sound) (index : Nat) (run : List Scalar) :
    (w.store index run).Sound := by
  obtain ⟨kind, storage, offset, length, allocator⟩ := w
  cases storage with
  | none => exact h
  | some s => simpa [Sound, store] using h

theorem values_store {index : Nat} {run : List Scalar} (h : w.Sound)
    (fits : index + run.length ≤ w.length) :
    (w.store index run).values =
      w.values.take index ++ run ++ w.values.drop (index + run.length) := by
  obtain ⟨kind, storage, offset, length, allocator⟩ := w
  cases storage with
  | none =>
    have nothing : length = 0 := h
    have short : run = [] := List.length_eq_zero_iff.1 (by simp only at fits; omega)
    simp [store, values, short]
  | some s => exact Storage.view_splice h fits

theorem values_store_grown {v : Writable} {stop : Nat} {blank : Scalar} {run : List Scalar}
    (h : w.Sound) (h' : v.Sound) (longer : w.length ≤ stop)
    (grown : v.values = w.values.take stop ++ List.replicate (stop - w.length) blank)
    (exact : run.length = stop - w.length) :
    (v.store w.length run).values = w.values ++ run := by
  have size := length_values h
  have whole := length_values h'
  rw [List.take_of_length_le (by omega)] at grown
  rw [grown, List.length_append, List.length_replicate] at whole
  rw [values_store h' (by omega), grown, List.take_left' size,
    List.drop_of_length_le (by rw [List.length_append, List.length_replicate]; omega),
    List.append_nil]

theorem set?_eq_none (index : Nat) (value : Scalar) (out : w.length ≤ index) :
    w.set? index value = none := by
  rw [set?, if_neg (by omega)]

theorem set?_of_lt {index : Nat} (value : Scalar) (h : w.Sound) (visible : index < w.length) :
    ∃ v, w.set? index value = some v ∧ v.Sound ∧ v.kind = w.kind ∧
      v.values = w.values.set index value := by
  have kind : (w.store index [value]).kind = w.kind := by
    unfold store
    split <;> rfl
  refine ⟨w.store index [value], by rw [set?, if_pos visible], store_sound h _ _, kind, ?_⟩
  rw [values_store h (by simp only [List.length_singleton]; omega),
    List.set_eq_take_append_cons_drop, if_pos (by rwa [length_values h])]
  simp

theorem ofStorage_sound {k : Kind} {s : Storage} {length : Nat} (m : Allocators)
    (exact : s.items.size = length) : (ofStorage k s 0 length m).1.Sound := by
  simp only [Sound, ofStorage]
  omega

theorem values_ofStorage {k : Kind} {s : Storage} {length : Nat} (m : Allocators)
    (exact : s.items.size = length) : (ofStorage k s 0 length m).1.values = s.items.toList := by
  rw [values_of_storage rfl, Storage.view_eq, ← exact]
  exact List.take_of_length_le (by simp [ofStorage])

theorem ofList_ok {k : Kind} {a : Allocator} {values : List Scalar} {m m' : Allocators}
    (run : ofList k a values m = .ok w m') : w.Sound ∧ w.kind = k ∧ w.values = values := by
  simp only [ofList] at run
  split at run
  · next nothing =>
    cases run
    rw [List.isEmpty_iff] at nothing
    exact ⟨empty_sound k a m, rfl, nothing ▸ values_empty k a m⟩
  · split at run
    · cases run
    · cases run
      exact ⟨ofStorage_sound _ rfl, rfl, values_ofStorage _ rfl⟩

theorem allocate_ok {a : Allocator} {k : Kind} {count : Nat} {zero : Bool} {m m' : Allocators}
    {s : Storage} (run : Storage.allocate a k count zero m = .ok s m') : s.items = #[] := by
  unfold Storage.allocate at run
  split at run
  · cases run
    rfl
  · cases run

theorem blank_ok {k : Kind} {a : Allocator} {length : Nat} {zero : Bool} {m m' : Allocators}
    (run : blank k a length zero m = .ok w m') :
    w.Sound ∧ w.kind = k ∧ w.values = List.replicate length k.blank := by
  simp only [blank] at run
  split at run
  · next nothing =>
    cases run
    exact ⟨empty_sound k a m, rfl, by rw [nothing]; exact values_empty k a m⟩
  · split at run
    · cases run
    · next s _ allocated =>
      cases run
      have fresh := allocate_ok allocated
      have filled := Storage.view_fillBlank k length (Nat.zero_le s.items.size : 0 + 0 ≤ _)
        (Nat.zero_le _)
      simp only [Nat.zero_add, Storage.view_zero, List.nil_append, Nat.sub_zero] at filled
      refine ⟨ofStorage_sound _ ?_, rfl, filled⟩
      rw [Storage.size_fillBlank, fresh]
      exact Nat.max_eq_right (Nat.zero_le _)

theorem reserve_error {capacity : Nat} {m : Allocators} {e : Error} {t : Writable × Allocators}
    (failed : reserve capacity (w, m) = .error e t) : t.1 = w := by
  simp only [reserve] at failed
  split at failed
  · cases failed
  · split at failed
    · cases failed
      rfl
    · split at failed <;> cases failed

theorem reserve_ok {capacity : Nat} {m : Allocators} {t : Writable × Allocators} (h : w.Sound)
    (run : reserve capacity (w, m) = .ok () t) :
    t.1.Sound ∧ t.1.values = w.values ∧ t.1.kind = w.kind ∧ t.1.length = w.length ∧
      (t.1.storage = none → capacity = 0) := by
  simp only [reserve] at run
  split at run
  · next room =>
    cases run
    refine ⟨h, rfl, rfl, rfl, fun bare => ?_⟩
    have nothing : w.capacity = 0 := by rw [Writable.capacity, bare, Option.elim_none]
    omega
  · split at run
    · cases run
    · next next m _ allocated =>
      split at run
      · next bare =>
        cases run
        simp only [Sound, bare] at h
        refine ⟨?_, ?_, rfl, rfl, fun eq => by cases eq⟩
        · simp [Sound, h]
        · simp [values, bare, h]
      · next s stored =>
        cases run
        have inside := h
        simp only [Sound, stored] at inside
        have moved : (s.items.extract w.offset (w.offset + w.length)).size = w.length := by
          rw [Array.size_extract]
          omega
        refine ⟨?_, ?_, rfl, rfl, fun eq => by cases eq⟩
        · simp only [Sound, moved]
          omega
        · rw [values_of_storage stored, values_of_storage rfl, Storage.view_eq, List.drop_zero,
            List.take_of_length_le (Nat.le_of_eq (Array.length_toList.trans moved))]
          rfl

theorem lengthen_spec {length : Nat} (h : w.Sound) (longer : w.length ≤ length)
    (room : w.storage = none → length = 0) :
    (w.lengthen length).Sound ∧ (w.lengthen length).values =
      w.values ++ List.replicate (length - w.length) w.kind.blank := by
  obtain ⟨kind, storage, offset, old, allocator⟩ := w
  cases storage with
  | none =>
    have nothing : length = 0 := room rfl
    subst nothing
    exact ⟨rfl, by simp [lengthen, values]⟩
  | some s =>
    refine ⟨?_, Storage.view_fillBlank kind length h longer⟩
    simp only [Sound, lengthen, Storage.size_fillBlank]
    omega

theorem resize_error {length : Nat} {m : Allocators} {e : Error} {t : Writable × Allocators}
    (failed : resize length (w, m) = .error e t) : t.1 = w := by
  simp only [resize] at failed
  split at failed
  · cases failed
  · split at failed
    · next refused =>
      cases failed
      exact reserve_error refused
    · cases failed

theorem resize_ok {length : Nat} {m : Allocators} {t : Writable × Allocators} (h : w.Sound)
    (run : resize length (w, m) = .ok () t) :
    t.1.Sound ∧ t.1.kind = w.kind ∧
      t.1.values = w.values.take length ++ List.replicate (length - w.length) w.kind.blank := by
  simp only [resize] at run
  split at run
  · next shorter =>
    cases run
    have narrowed : { w with length } = w.slice 0 length := by
      simp [slice, narrow, Nat.min_eq_left shorter]
    rw [narrowed, values_slice h, Nat.sub_eq_zero_of_le shorter]
    exact ⟨slice_sound h 0 length, rfl, by simp⟩
  · next longer =>
    split at run
    · cases run
    · next v m' reserved =>
      cases run
      obtain ⟨sound, values, kind, size, room⟩ := reserve_ok h reserved
      have grows : v.length ≤ length := size ▸ Nat.le_of_not_le longer
      obtain ⟨sound', values'⟩ := lengthen_spec sound grows room
      have kind' : (v.lengthen length).kind = w.kind := by
        unfold lengthen
        split <;> exact kind
      refine ⟨sound', kind', ?_⟩
      rw [values', values, kind, size, List.take_of_length_le (by rw [length_values h]; omega)]

end Writable

end ArrayStore
