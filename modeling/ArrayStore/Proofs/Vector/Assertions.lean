import ArrayStore.Proofs.Vector.Holdings

/-! Vectors that check what they rely on.
Elements are reached by their place alone, so a storage asserts that a view is
set before it is looked at or written to, that there is room before elements are
appended, moved or filled in, and that a block is as large as was asked for. The
room behind a view is a difference, which must not fall below zero. Here each
operation comes with its assertions and stops at the first that fails. Main
statements: on vectors that lie within their blocks, and with right books, no
assertion fails, and each operation is the one without them. -/

namespace ArrayStore

/-- A change that stops where an assertion fails. -/
abbrev Asserting (σ α : Type) := σ → Option (Outcome σ α)

open Allocators (Lends)

variable {handles : List Allocator} {out : List Block} {m : Allocators} {k : Kind}

namespace Storage

variable {s : Storage} {offset length : Nat}

/-- The view lies within the elements that are set, these within the capacity and the capacity
within the block. -/
structure Houses (k : Kind) (offset length : Nat) (s : Storage) : Prop extends Fits k s where
  view_le : offset + length ≤ s.items.size

theorem Houses.offset_le (h : s.Houses k offset length) : offset ≤ s.capacity :=
  Nat.le_trans (Nat.le_add_right ..) (Nat.le_trans h.view_le h.set_le)

def allocate? (a : Allocator) (k : Kind) (count : Nat) (zero : Bool) :
    Asserting Allocators Storage := fun m =>
  match allocate a k count zero m with
  | .ok s m => if count ≤ s.capacity then some (.ok s m) else none
  | .error e m => some (.error e m)

def slice? (s : Storage) (offset length : Nat) : Option (List Scalar) :=
  if offset + length ≤ s.items.size then some (s.view offset length) else none

def room? (s : Storage) (offset : Nat) : Option Nat :=
  if offset ≤ s.capacity then some (s.capacity - offset) else none

/-- Append elements one by one, each of which must find room. -/
def extend? (s : Storage) : List Scalar → Option Storage
  | [] => some s
  | x :: run =>
    if s.items.size < s.capacity then extend? { s with items := s.items.push x } run else none

def moveInto? (s : Storage) (offset length : Nat) (next : Storage) : Option Storage :=
  if offset + length ≤ s.items.size ∧ next.items.size + length ≤ next.capacity then
    some { next with items := next.items ++ s.items.extract offset (offset + length) }
  else none

def fillBlank? (s : Storage) (k : Kind) (start stop : Nat) : Option Storage :=
  if start ≤ stop ∧ stop ≤ s.capacity then
    if start < min stop s.items.size then
      (s.slice? start (min stop s.items.size - start)).map fun _ => s.fillBlank k start stop
    else some (s.fillBlank k start stop)
  else none

theorem allocate?_eq (h : m.Lends handles out) (a : Allocator) (k : Kind) (count : Nat)
    (zero : Bool) : allocate? a k count zero m = some (allocate a k count zero m) := by
  have allocated := allocate_lends h a k count zero
  unfold allocate?
  cases run : allocate a k count zero m with
  | error e n => rfl
  | ok s n =>
    rw [run] at allocated
    exact if_pos allocated.2.2

theorem slice?_eq (set : offset + length ≤ s.items.size) :
    s.slice? offset length = some (s.view offset length) := if_pos set

theorem room?_eq (h : s.Houses k offset length) : s.room? offset = some (s.capacity - offset) :=
  if_pos h.offset_le

theorem extend?_eq {run : List Scalar} (room : s.items.size + run.length ≤ s.capacity) :
    s.extend? run = some { s with items := s.items ++ run.toArray } := by
  induction run generalizing s with
  | nil => rw [extend?, Array.append_empty]
  | cons x run ih =>
    rw [List.length_cons] at room
    have more : (s.items.push x).size + run.length ≤ s.capacity := by
      rw [Array.size_push]
      omega
    have appended : s.items.push x ++ run.toArray = s.items ++ (x :: run).toArray :=
      Array.ext' (by simp)
    rw [extend?, if_pos (by omega), ih more, appended]

theorem moveInto?_eq {next : Storage} (set : offset + length ≤ s.items.size)
    (fresh : next.items = #[]) (room : length ≤ next.capacity) :
    s.moveInto? offset length next =
      some { next with items := s.items.extract offset (offset + length) } := by
  rw [moveInto?, fresh, Array.empty_append, if_pos ⟨set, by rwa [Array.size_empty, Nat.zero_add]⟩]

theorem fillBlank?_eq {start stop : Nat} (k : Kind) (ordered : start ≤ stop)
    (room : stop ≤ s.capacity) : s.fillBlank? k start stop = some (s.fillBlank k start stop) := by
  rw [fillBlank?, if_pos ⟨ordered, room⟩]
  split
  · next again =>
    rw [slice?_eq (by omega)]
    rfl
  · rfl

end Storage

namespace Writable

variable {w : Writable} {a : Allocator}

def values? (w : Writable) : Option (List Scalar) :=
  match w.storage with
  | none => some []
  | some s => s.slice? w.offset w.length

def capacity? (w : Writable) : Option Nat :=
  match w.storage with
  | none => some 0
  | some s => s.room? w.offset

def ofList? (k : Kind) (a : Allocator) (values : List Scalar) :
    Asserting Allocators Writable := fun m =>
  if values.isEmpty then some (ofList k a values m)
  else
    (Storage.allocate? a k values.length false m).bind fun
      | .error e m => some (.error e m)
      | .ok s m =>
        (s.extend? values).map fun s =>
          let (w, m) := ofStorage k s 0 values.length m
          .ok w m

def blank? (k : Kind) (a : Allocator) (length : Nat) (zero : Bool) :
    Asserting Allocators Writable := fun m =>
  if length = 0 then some (blank k a length zero m)
  else
    (Storage.allocate? a k length zero m).bind fun
      | .error e m => some (.error e m)
      | .ok s m =>
        (s.fillBlank? k 0 length).map fun s =>
          let (w, m) := ofStorage k s 0 length m
          .ok w m

def copied? (k : Kind) (a : Allocator) (values : List Scalar) :
    Asserting Allocators Writable := fun m =>
  (blank? k a values.length false m).bind fun
    | .error e m => some (.error e m)
    | .ok w m => w.values?.map fun _ => .ok (w.store 0 values) m

def reserve? (capacity : Nat) : Asserting (Writable × Allocators) Unit
  | (w, m) =>
    w.capacity?.bind fun room =>
      if capacity ≤ room then some (.ok () (w, m))
      else
        (Storage.allocate? w.allocator w.kind capacity false m).bind fun
          | .error e m => some (.error e (w, m))
          | .ok next m =>
            match w.storage with
            | none => some (.ok () ({ w with storage := some next, offset := 0 }, m))
            | some s =>
              (s.moveInto? w.offset w.length next).map fun next =>
                .ok () ({ w with storage := some next, offset := 0 }, (m.release s.block).1)

def lengthen? (w : Writable) (length : Nat) : Option Writable :=
  match w.storage with
  | none => some { w with length }
  | some s =>
    (s.fillBlank? w.kind (w.offset + w.length) (w.offset + length)).map fun s =>
      { w with storage := some s, length }

def resize? (length : Nat) : Asserting (Writable × Allocators) Unit
  | (w, m) =>
    if length ≤ w.length then some (.ok () ({ w with length }, m))
    else
      (reserve? length (w, m)).bind fun
        | .error e t => some (.error e t)
        | .ok () (w, m) => (w.lengthen? length).map fun w => .ok () (w, m)

theorem houses {s : Storage} (sound : w.Sound) (roomy : w.Roomy) (stored : w.storage = some s) :
    s.Houses w.kind w.offset w.length := by
  simp only [Sound, stored] at sound
  exact ⟨roomy s stored, sound⟩

theorem values?_eq (sound : w.Sound) : w.values? = some w.values := by
  cases stored : w.storage with
  | none => simp only [values?, values, stored, Option.elim_none]
  | some s =>
    simp only [Sound, stored] at sound
    simp only [values?, values, stored, Option.elim_some, Storage.slice?_eq sound]

theorem capacity?_eq (sound : w.Sound) (roomy : w.Roomy) : w.capacity? = some w.capacity := by
  cases stored : w.storage with
  | none => simp only [capacity?, capacity, stored, Option.elim_none]
  | some s =>
    simp only [capacity?, capacity, stored, Option.elim_some,
      Storage.room?_eq (houses sound roomy stored)]

theorem ofList?_eq (h : m.Lends handles out) (k : Kind) (a : Allocator) (values : List Scalar) :
    ofList? k a values m = some (ofList k a values m) := by
  have allocated := Storage.allocate_lends h a k values.length false
  by_cases nothing : values.isEmpty = true
  · rw [ofList?, if_pos nothing]
  · simp only [ofList?, ofList, if_neg nothing, Storage.allocate?_eq h, Option.bind_some,
      List.size_toArray]
    cases run : Storage.allocate a k values.length false m with
    | error e n => rfl
    | ok s n =>
      rw [run] at allocated
      have fresh := allocate_ok run
      have room : s.items.size + values.length ≤ s.capacity := by
        rw [fresh, Array.size_empty, Nat.zero_add]
        exact allocated.2.2
      simp only [Storage.extend?_eq room, Option.map_some, fresh, Array.empty_append]

theorem blank?_eq (h : m.Lends handles out) (k : Kind) (a : Allocator) (length : Nat)
    (zero : Bool) : blank? k a length zero m = some (blank k a length zero m) := by
  have allocated := Storage.allocate_lends h a k length zero
  by_cases nothing : length = 0
  · rw [blank?, if_pos nothing]
  · simp only [blank?, blank, if_neg nothing, Storage.allocate?_eq h, Option.bind_some]
    cases run : Storage.allocate a k length zero m with
    | error e n => rfl
    | ok s n =>
      rw [run] at allocated
      simp only [Storage.fillBlank?_eq k (Nat.zero_le length) allocated.2.2, Option.map_some]

theorem store_blank {s : Storage} (fresh : s.items = #[]) (k : Kind) (values : List Scalar)
    (n : Allocators) :
    (ofStorage k (s.fillBlank k 0 values.length) 0 values.length n).1.store 0 values =
      (ofStorage k { s with items := values.toArray } 0 values.length n).1 := by
  have size : (s.fillBlank k 0 values.length).items.size = values.length := by
    rw [Storage.size_fillBlank, fresh, Array.size_empty, Nat.zero_max]
  have written : splice (s.fillBlank k 0 values.length).items 0 values = values.toArray := by
    apply Array.ext'
    rw [toList_splice _ _ _ (by omega), List.take_zero, List.nil_append,
      List.drop_of_length_le (by rw [Array.length_toList]; omega), List.append_nil]
  simp only [ofStorage, store, Nat.add_zero, written]
  rfl

theorem copied?_eq (h : m.Lends handles out) (k : Kind) (a : Allocator) (values : List Scalar) :
    copied? k a values m = some (ofList k a values m) := by
  have sound : ∀ {w n}, blank k a values.length false m = .ok w n → w.Sound :=
    fun made => (blank_ok made).1
  rw [copied?, blank?_eq h, Option.bind_some]
  by_cases nothing : values = []
  · subst nothing
    rfl
  · have filled : ¬values.isEmpty = true := by rwa [List.isEmpty_iff]
    have positive : values.length ≠ 0 := by rwa [Ne, List.length_eq_zero_iff]
    simp only [blank, if_neg positive] at sound ⊢
    simp only [ofList, if_neg filled, List.size_toArray]
    cases run : Storage.allocate a k values.length false m with
    | error e n => rfl
    | ok s n =>
      rw [run] at sound
      simp only [values?_eq (sound rfl), Option.map_some, store_blank (allocate_ok run)]
      rfl

theorem reserve?_eq (h : m.Lends handles out) (sound : w.Sound) (roomy : w.Roomy)
    (capacity : Nat) : reserve? capacity (w, m) = some (reserve capacity (w, m)) := by
  have allocated := Storage.allocate_lends h w.allocator w.kind capacity false
  simp only [reserve?, reserve, capacity?_eq sound roomy, Option.bind_some]
  split
  · rfl
  · next tight =>
    rw [Storage.allocate?_eq h, Option.bind_some]
    cases run : Storage.allocate w.allocator w.kind capacity false m with
    | error e n => rfl
    | ok next n =>
      rw [run] at allocated
      cases stored : w.storage with
      | none => rfl
      | some s =>
        have view := houses sound roomy stored
        have set := view.view_le
        have within := view.set_le
        have large := allocated.2.2
        have less : s.capacity - w.offset < capacity := by
          simpa only [Writable.capacity, stored, Option.elim_some, Nat.not_le] using tight
        simp only [Storage.moveInto?_eq set (allocate_ok run) (by omega), Option.map_some]

theorem lengthen?_eq {length : Nat} (sound : w.Sound) (roomy : w.Roomy) (longer : w.length ≤ length)
    (room : length ≤ w.capacity) : w.lengthen? length = some (w.lengthen length) := by
  obtain ⟨kind, storage, offset, old, allocator⟩ := w
  cases storage with
  | none => rfl
  | some s =>
    have within : offset ≤ s.capacity := (houses sound roomy rfl).offset_le
    have room : length ≤ s.capacity - offset := room
    have ordered : offset + old ≤ offset + length := Nat.add_le_add_left longer offset
    have filled : s.fillBlank? kind (offset + old) (offset + length) =
        some (s.fillBlank kind (offset + old) (offset + length)) :=
      Storage.fillBlank?_eq kind ordered (by omega)
    simp only [lengthen?, lengthen, filled, Option.map_some]

theorem resize?_eq (h : m.Lends handles (w.held ++ out)) (sound : w.Sound) (roomy : w.Roomy)
    (length : Nat) : resize? length (w, m) = some (resize length (w, m)) := by
  obtain ⟨settled, large⟩ := reserve_settled h sound length
  simp only [resize?, resize]
  split
  · rfl
  · next longer =>
    rw [reserve?_eq h sound roomy, Option.bind_some]
    cases run : reserve length (w, m) with
    | error e t => rfl
    | ok _ t =>
      obtain ⟨v, n⟩ := t
      rw [run] at settled
      have same : v.length = w.length := (reserve_ok sound run).2.2.2.1
      have grows : v.length ≤ length := same ▸ Nat.le_of_not_le longer
      have exact : v.lengthen? length = some (v.lengthen length) :=
        lengthen?_eq settled.sound (settled.roomy roomy) grows (large _ run)
      simp only [exact, Option.map_some]

/-- A change with assertions, none of which fails on a sound vector within its block. -/
def Passes (change? : Asserting (Writable × Allocators) Unit)
    (change : Change (Writable × Allocators) Unit) : Prop :=
  ∀ handles out w m, w.Sound → w.Roomy → m.Lends handles (w.held ++ out) →
    change? (w, m) = some (change (w, m))

theorem reserve_passes (capacity : Nat) : Passes (reserve? capacity) (reserve capacity) :=
  fun _ _ _ _ sound roomy h => reserve?_eq h sound roomy capacity

theorem resize_passes (length : Nat) : Passes (resize? length) (resize length) :=
  fun _ _ _ _ sound roomy h => resize?_eq h sound roomy length

def grow? (capacity length : Nat) : Asserting (Writable × Allocators) Unit := fun t =>
  (reserve? capacity t).bind fun
    | .error e t => some (.error e t)
    | .ok () t => resize? length t

theorem grow_passes (capacity length : Nat) :
    Passes (grow? capacity length) (grow capacity length) := by
  intro handles out w m sound roomy lends
  have settled := (reserve_settled lends sound capacity).1
  simp only [grow?, grow, reserve?_eq lends sound roomy, Option.bind_some]
  cases run : reserve capacity (w, m) with
  | error e t => rfl
  | ok _ t =>
    rw [run] at settled
    exact resize?_eq settled.lends settled.sound (settled.roomy roomy) length

end Writable

namespace Store

variable {s : Store} {l : List Holding} {f : Frozen} {w : Writable}

def onAllocators? {α : Type} (change? : Asserting Allocators α) : Asserting Store α := fun s =>
  (change? s.allocators).map fun
    | .ok a m => .ok a { s with allocators := m }
    | .error e m => .error e { s with allocators := m }

def onWritable? {α : Type} (change? : Asserting (Writable × Allocators) α) :
    Asserting (Writable × Store) α
  | (w, s) => (change? (w, s.allocators)).map fun
    | .ok a (w, m) => .ok a (w, { s with allocators := m })
    | .error e (w, m) => .error e (w, { s with allocators := m })

def values? (s : Store) (f : Frozen) : Option (List Scalar) :=
  match s.storage? f with
  | none => some []
  | some b => b.slice? f.offset f.length

def capacity? (s : Store) (f : Frozen) : Option Nat :=
  match s.storage? f with
  | none => some 0
  | some b => b.room? f.offset

def copyOut? (f : Frozen) (c : Cell) : Asserting Store Writable := fun s =>
  if f.length = 0 then some (copyOut f c s)
  else
    (onAllocators? (Storage.allocate? c.storage.block.owner f.kind f.length false) s).bind fun
      | .error e s => some (.error e s)
      | .ok storage s =>
        (c.storage.slice? f.offset f.length).bind fun elements =>
          (storage.extend? elements).map fun storage =>
            let (w, m) := Writable.ofStorage f.kind storage 0 f.length s.allocators
            .ok w { s with allocators := m }

def thaw? (f : Frozen) (fallback : Allocator) : Asserting Store Writable := fun s =>
  match f.cell.bind fun id => (s.cells.get? id).map fun c => (id, c) with
  | none => some (thaw f fallback s)
  | some (_, c) =>
    if c.holders = 1 then some (thaw f fallback s)
    else
      (copyOut? f c s).map fun
        | .error e s => .error e (s.drop f)
        | .ok w s => .ok w (s.drop f)

def frozen? (make : Asserting Allocators Writable) : Asserting Store Frozen := fun s =>
  (onAllocators? make s).map fun
    | .error e s => .error e s
    | .ok w s =>
      let (f, s) := s.freeze w
      .ok f s

theorem onAllocators?_eq {α : Type} {change? : Asserting Allocators α}
    {change : Change Allocators α}
    (passes : change? s.allocators = some (change s.allocators)) :
    onAllocators? change? s = some (onAllocators change s) := by
  simp only [onAllocators?, onAllocators, passes, Option.map_some]
  cases change s.allocators <;> rfl

theorem Owns.onWritable?_eq {change? : Asserting (Writable × Allocators) Unit}
    {change : Change (Writable × Allocators) Unit} (passes : Writable.Passes change? change)
    (h : s.Owns (.writable w :: l)) :
    onWritable? change? (w, s) = some (Store.onWritable change (w, s)) := by
  have exact := passes _ _ w _ (h.sound w List.mem_cons_self) (h.roomy _ List.mem_cons_self)
    h.lends_head
  simp only [onWritable?, Store.onWritable, exact, Option.map_some]
  cases change (w, s.allocators) <;> rfl

theorem Owns.houses {b : Storage} (h : s.Owns l) (live : .frozen f ∈ l)
    (stored : s.storage? f = some b) : b.Houses f.kind f.offset f.length := by
  have view := h.holds.viewed f (Holding.mem_frozens.2 live)
  refine ⟨h.roomy _ live b stored, ?_⟩
  cases refers : f.cell with
  | none =>
    simp only [storage?, cell?, refers, Option.bind_none, Option.map_none] at stored
    cases stored
  | some id =>
    simp only [Views, refers] at view
    obtain ⟨c, found, fits⟩ := view
    rw [storage?_some refers, found] at stored
    cases stored
    exact fits

theorem Owns.values?_eq (h : s.Owns l) (live : .frozen f ∈ l) :
    s.values? f = some (s.values f) := by
  cases stored : s.storage? f with
  | none => simp only [values?, values, stored, Option.elim_none]
  | some b =>
    simp only [values?, values, stored, Option.elim_some,
      Storage.slice?_eq (h.houses live stored).view_le]

theorem Owns.capacity?_eq (h : s.Owns l) (live : .frozen f ∈ l) :
    s.capacity? f = some (s.capacity f) := by
  cases stored : s.storage? f with
  | none => simp only [capacity?, capacity, stored, Option.elim_none]
  | some b =>
    simp only [capacity?, capacity, stored, Option.elim_some,
      Storage.room?_eq (h.houses live stored)]

theorem Owns.copyOut?_eq {c : Cell} (h : s.Owns l)
    (fits : f.offset + f.length ≤ c.storage.items.size) :
    copyOut? f c s = some (Store.copyOut f c s) := by
  by_cases nothing : f.length = 0
  · rw [copyOut?, if_pos nothing]
  · have allocated := Storage.allocate_lends h.lends c.storage.block.owner f.kind f.length false
    have passes := onAllocators?_eq (s := s)
      (Storage.allocate?_eq h.lends c.storage.block.owner f.kind f.length false)
    simp only [copyOut?, Store.copyOut, if_neg nothing, passes, Option.bind_some,
      Store.onAllocators, Storage.slice?_eq fits]
    cases run : Storage.allocate c.storage.block.owner f.kind f.length false s.allocators with
    | error e n => rfl
    | ok storage n =>
      rw [run] at allocated
      have fresh := Writable.allocate_ok run
      have size := Storage.length_view fits
      have room : storage.items.size + (c.storage.view f.offset f.length).length ≤
          storage.capacity := by
        rw [fresh, Array.size_empty, Nat.zero_add, size]
        exact allocated.2.2
      simp only [Storage.extend?_eq room, Option.map_some, fresh, Array.empty_append]

theorem Owns.thaw?_eq (h : s.Owns (.frozen f :: l)) (fallback : Allocator) :
    thaw? f fallback s = some (Store.thaw f fallback s) := by
  cases refers : f.cell with
  | none => simp only [thaw?, refers, Option.bind_none]
  | some id =>
    obtain ⟨c, found, fits, -⟩ := h.cell refers
    by_cases sole : c.holders = 1
    · simp only [thaw?, refers, Option.bind_some, found, Option.map_some, if_pos sole]
    · simp only [thaw?, Store.thaw, refers, Option.bind_some, found, Option.map_some, if_neg sole,
        h.copyOut?_eq fits]
      cases Store.copyOut f c s <;> rfl

theorem frozen?_eq {k : Kind} {a : Allocator} {values : List Scalar}
    {make : Asserting Allocators Writable}
    (passes : make s.allocators = some (Writable.ofList k a values s.allocators)) :
    frozen? make s = some (ofList k a values s) := by
  simp only [frozen?, ofList, onAllocators?_eq passes, Option.map_some]
  cases onAllocators (Writable.ofList k a values) s <;> rfl

end Store

end ArrayStore
