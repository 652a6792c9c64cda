import ArrayStore.Proofs.Memory.Supply
import ArrayStore.Proofs.Vector.Holdings

/-! What the capacity of a vector covers.
A capacity is a number of elements, found by dividing the size of a block. It
covers some elements if they lie within it and if their bytes, counted exactly
and not up to some largest number, lie within the block. Main statements: what
was asked for is covered where an operation succeeds, and an operation that asks
for more bytes than can be numbered fails for want of memory. -/

namespace ArrayStore

def Outcome.Refused {σ α : Type} (r : Outcome σ α) : Prop :=
  ∃ e s, r = .error e s ∧ e.isAllocationFailure = true

/-- What succeeds with bytes that can be numbered only is refused more. -/
theorem Outcome.refused_of_huge {σ α : Type} {r : Outcome σ α} {bytes : Nat}
    (small : ∀ a s, r = .ok a s → bytes < addressBound)
    (only : ∀ e s, r = .error e s → e.isAllocationFailure = true) (huge : addressBound ≤ bytes) :
    r.Refused := by
  cases r with
  | ok a s => exact absurd huge (Nat.not_le.2 (small a s rfl))
  | error e s => exact ⟨e, s, rfl, only e s rfl⟩

theorem Outcome.exists_ok {σ α : Type} {r : Outcome σ α} (answered : r.answer.toBool = true) :
    ∃ a s, r = .ok a s := by
  cases r with
  | ok a s => exact ⟨a, s, rfl⟩
  | error e s => cases answered

namespace Storage

variable {s : Storage} {k : Kind} {offset length n : Nat}

theorem allocate_refused {a : Allocator} {count : Nat} {zero : Bool} {m m' : Allocators} {e : Error}
    (run : allocate a k count zero m = .error e m') : e.isAllocationFailure = true := by
  unfold allocate at run
  split at run
  · cases run
  · next refused =>
    cases run
    exact Allocators.alloc_refused refused

theorem Fits.bytes_le (h : s.Fits k) (view : offset + length ≤ s.items.size)
    (room : n ≤ s.capacity - offset) : (offset + n) * k.footprint ≤ s.block.size := by
  have set := h.set_le
  have within : offset + n ≤ s.capacity := by omega
  exact Nat.le_trans (Nat.mul_le_mul_right _ within) h.room_le

theorem Fits.bytes_lt (h : s.Fits k) (room : n ≤ s.capacity - offset) :
    n * k.footprint < addressBound := by
  have within : n ≤ s.capacity := Nat.le_trans room (Nat.sub_le ..)
  calc n * k.footprint ≤ s.capacity * k.footprint := Nat.mul_le_mul_right _ within
    _ ≤ s.block.size := h.room_le
    _ ≤ System.sizeBound := h.size_le
    _ < addressBound := sizeBound_lt_addressBound

end Storage

namespace Writable

/-- The vector has room for `n` elements, within its capacity and within its block. -/
def Covers (w : Writable) (n : Nat) : Prop :=
  n ≤ w.capacity ∧ ∀ s, w.storage = some s → (w.offset + n) * w.kind.footprint ≤ s.block.size

variable {w : Writable} {m : Allocators} {handles : List Allocator} {out : List Block} {n : Nat}

theorem Roomy.covers (roomy : w.Roomy) (sound : w.Sound) (room : n ≤ w.capacity) : w.Covers n := by
  refine ⟨room, fun s stored => ?_⟩
  have view : w.offset + w.length ≤ s.items.size := by simpa only [Sound, stored] using sound
  simp only [capacity, stored, Option.elim_some] at room
  exact (roomy s stored).bytes_le view room

theorem Roomy.bytes_lt (roomy : w.Roomy) (room : n ≤ w.capacity) :
    n * w.kind.footprint < addressBound := by
  cases stored : w.storage with
  | none =>
    have nothing : n = 0 := by
      simpa only [capacity, stored, Option.elim_none, Nat.le_zero] using room
    rw [nothing, Nat.zero_mul]
    decide
  | some s =>
    simp only [capacity, stored, Option.elim_some] at room
    exact (roomy s stored).bytes_lt room

theorem Roomy.length_le (roomy : w.Roomy) (sound : w.Sound) : w.length ≤ w.capacity := by
  cases stored : w.storage with
  | none =>
    have nothing : w.length = 0 := by simpa only [Sound, stored] using sound
    exact nothing ▸ Nat.zero_le _
  | some s =>
    have view : w.offset + w.length ≤ s.items.size := by simpa only [Sound, stored] using sound
    have set := (roomy s stored).set_le
    simp only [capacity, stored, Option.elim_some]
    omega

theorem Roomy.covers_values {values : List Scalar} (roomy : w.Roomy) (sound : w.Sound)
    (shown : w.values = values) : w.Covers values.length :=
  roomy.covers sound (shown ▸ length_values sound ▸ roomy.length_le sound)

theorem ofList_covers {k : Kind} {a : Allocator} {values : List Scalar} {m' : Allocators}
    (h : m.Lends handles out) (run : ofList k a values m = .ok w m') : w.Covers values.length := by
  obtain ⟨sound, -, shown⟩ := ofList_ok run
  exact (ofList_roomy h run).covers_values sound shown

theorem blank_covers {k : Kind} {a : Allocator} {length : Nat} {zero : Bool} {m' : Allocators}
    (h : m.Lends handles out) (run : blank k a length zero m = .ok w m') : w.Covers length := by
  obtain ⟨sound, -, shown⟩ := blank_ok run
  have covers := (blank_roomy h run).covers_values sound shown
  rwa [List.length_replicate] at covers

theorem reserve_refused {e : Error} {t : Writable × Allocators}
    (run : reserve n (w, m) = .error e t) : e.isAllocationFailure = true := by
  simp only [reserve] at run
  split at run
  · cases run
  · split at run
    · next refused =>
      cases run
      exact Storage.allocate_refused refused
    · split at run <;> cases run

theorem resize_refused {e : Error} {t : Writable × Allocators}
    (run : resize n (w, m) = .error e t) : e.isAllocationFailure = true := by
  simp only [resize] at run
  split at run
  · cases run
  · split at run
    · next refused =>
      cases run
      exact reserve_refused refused
    · cases run

section Live

variable {w' : Writable} {m' : Allocators} (h : m.Lends handles (w.held ++ out)) (sound : w.Sound)
  (roomy : w.Roomy)

include h sound roomy

theorem reserve_covers (run : reserve n (w, m) = .ok () (w', m')) :
    w'.Covers n ∧ n * w.kind.footprint < addressBound := by
  obtain ⟨settled, room⟩ := reserve_settled h sound n
  have room : n ≤ w'.capacity := room _ run
  rw [run] at settled
  have roomy' : w'.Roomy := settled.roomy roomy
  have kind : w'.kind = w.kind := settled.kind_eq
  exact ⟨roomy'.covers settled.sound room, kind ▸ roomy'.bytes_lt room⟩

theorem resize_covers (run : resize n (w, m) = .ok () (w', m')) :
    w'.Covers n ∧ n * w.kind.footprint < addressBound := by
  have settled := resize_settled h sound n
  obtain ⟨sound', -, shown⟩ : w'.Sound ∧ _ ∧ w'.values = _ := resize_ok sound run
  rw [run] at settled
  have roomy' : w'.Roomy := settled.roomy roomy
  have kind : w'.kind = w.kind := settled.kind_eq
  have size := congrArg List.length shown
  rw [List.length_append, List.length_take, List.length_replicate, length_values sound,
    length_values sound'] at size
  have length : w'.length = n := by omega
  have room : n ≤ w'.capacity := length ▸ roomy'.length_le sound'
  exact ⟨roomy'.covers sound' room, kind ▸ roomy'.bytes_lt room⟩

theorem reserve_huge (huge : addressBound ≤ n * w.kind.footprint) :
    Outcome.Refused (reserve n (w, m)) :=
  Outcome.refused_of_huge (fun _ _ run => (reserve_covers h sound roomy run).2)
    (fun _ _ => reserve_refused) huge

theorem resize_huge (huge : addressBound ≤ n * w.kind.footprint) :
    Outcome.Refused (resize n (w, m)) :=
  Outcome.refused_of_huge (fun _ _ run => (resize_covers h sound roomy run).2)
    (fun _ _ => resize_refused) huge

end Live

end Writable

namespace Store

def Covers (s : Store) (f : Frozen) (n : Nat) : Prop :=
  n ≤ s.capacity f ∧ ∀ b, s.storage? f = some b → (f.offset + n) * f.kind.footprint ≤ b.block.size

variable {s : Store} {l : List Holding} {f : Frozen} {n : Nat}

theorem Owns.viewed {b : Storage} (h : s.Owns l) (live : .frozen f ∈ l)
    (lies : s.storage? f = some b) : f.offset + f.length ≤ b.items.size := by
  have view := h.holds.viewed f (Holding.mem_frozens.2 live)
  cases refers : f.cell with
  | none =>
    simp only [storage?, cell?, refers, Option.bind_none, Option.map_none] at lies
    cases lies
  | some id =>
    simp only [Views, refers] at view
    obtain ⟨c, found, fits⟩ := view
    rw [storage?_some refers, found] at lies
    cases lies
    exact fits

theorem Owns.covers (h : s.Owns l) (live : .frozen f ∈ l) (room : n ≤ s.capacity f) :
    s.Covers f n := by
  refine ⟨room, fun b lies => ?_⟩
  have fits : b.Fits f.kind := h.roomy _ live b lies
  simp only [capacity, lies, Option.elim_some] at room
  exact fits.bytes_le (h.viewed live lies) room

theorem Owns.bytes_lt (h : s.Owns l) (live : .frozen f ∈ l) (room : n ≤ s.capacity f) :
    n * f.kind.footprint < addressBound := by
  cases lies : s.storage? f with
  | none =>
    have nothing : n = 0 := by
      simpa only [capacity, lies, Option.elim_none, Nat.le_zero] using room
    rw [nothing, Nat.zero_mul]
    decide
  | some b =>
    have fits : b.Fits f.kind := h.roomy _ live b lies
    simp only [capacity, lies, Option.elim_some] at room
    exact fits.bytes_lt room

theorem Owns.length_le (h : s.Owns l) (live : .frozen f ∈ l) : f.length ≤ s.capacity f := by
  cases lies : s.storage? f with
  | none =>
    have shown := h.length_values live
    simp only [values, lies, Option.elim_none, List.length_nil] at shown
    exact shown ▸ Nat.zero_le _
  | some b =>
    have fits : b.Fits f.kind := h.roomy _ live b lies
    have view := h.viewed live lies
    have set := fits.set_le
    simp only [capacity, lies, Option.elim_some]
    omega

theorem Owns.thaw_covers {fallback : Allocator} {w : Writable} {t : Store}
    (h : s.Owns (.frozen f :: l)) (alive : s.allocators.Alive fallback)
    (run : Store.thaw f fallback s = .ok w t) : w.Covers f.length := by
  have owns := h.thaw alive
  have thawed := h.frozen.thaw fallback
  rw [run] at owns thawed
  obtain ⟨-, -, sound, -, shown⟩ := thawed
  have covers := Writable.Roomy.covers_values (owns.roomy _ List.mem_cons_self) sound shown
  rwa [h.length_values List.mem_cons_self] at covers

theorem copyOut_refused {c : Cell} {e : Error} {t : Store} (run : copyOut f c s = .error e t) :
    e.isAllocationFailure = true := by
  simp only [copyOut, onAllocators] at run
  split at run
  · cases run
  · split at run
    · next failed =>
      split at failed
      · cases failed
      · next refused =>
        cases failed
        cases run
        exact Storage.allocate_refused refused
    · cases run

theorem thaw_refused {fallback : Allocator} {e : Error} {t : Store}
    (run : Store.thaw f fallback s = .error e t) : e.isAllocationFailure = true := by
  simp only [Store.thaw] at run
  split at run
  · cases run
  · split at run
    · cases run
    · split at run
      · next refused =>
        cases run
        exact copyOut_refused refused
      · cases run

end Store

end ArrayStore
