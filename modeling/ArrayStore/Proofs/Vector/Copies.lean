import ArrayStore.Proofs.Vector.Sights

/-! Where vectors are copied and where they stay.
A writable vector stays in its block as long as it fits, and so does a frozen
one that is thawed while nothing else refers to its block; then no allocator is
asked for anything. Main statement: thawing one of several references ends in
another block of the same allocator, and the old block has one holder less. -/

namespace ArrayStore

namespace Allocators

/-- No block has been asked for and none has come back. Handles do not count. -/
structure Still (m n : Allocators) : Prop where
  system : n.system = m.system
  pools : ∀ id, (n.pools.get? id).map Tenant.pool = (m.pools.get? id).map Tenant.pool

variable {m n : Allocators} {a : Allocator} {b : Block} {handles : List Allocator}
  {out : List Block}

theorem Still.refl (m : Allocators) : m.Still m := ⟨rfl, fun _ => rfl⟩

theorem Still.trans {k : Allocators} (first : m.Still n) (second : n.Still k) : m.Still k :=
  ⟨second.system.trans first.system, fun id => (second.pools id).trans (first.pools id)⟩

theorem retain_still (m : Allocators) (a : Allocator) : m.Still (m.retain a) := by
  cases a with
  | shared => exact .refl m
  | pool other =>
    refine ⟨rfl, fun id => ?_⟩
    simp only [retain, Table.get?_modify]
    split
    · rw [Option.map_map]
      rfl
    · rfl

theorem Lends.letGo_still (h : m.Lends (a :: handles) out) (there : b ∈ out) (own : b.owner = a) :
    m.Still (m.letGo a) := by
  cases a with
  | shared => exact .refl m
  | pool other =>
    obtain ⟨t, found⟩ := h.handled _ List.mem_cons_self
    have needed : t.pool.outstanding ≠ 0 := by
      rw [(h.tallies other t found).lent]
      exact Nat.pos_iff_ne_zero.1 (List.countP_pos_iff.2 ⟨b, there, Block.isOf_iff.2 own⟩)
    have kept : m.letGo (.pool other) =
        { m with pools := m.pools.insert other { t with handles := t.handles - 1 } } := by
      simp only [Allocators.letGo, Table.modify_of_get? h.sorted found, settle, Table.get?_insert,
        if_true]
      exact if_neg fun unneeded => needed unneeded.2
    rw [kept]
    refine ⟨rfl, fun id => ?_⟩
    simp only [Table.get?_insert]
    split
    · next same => rw [same, found]; rfl
    · rfl

theorem alloc_owner {elementSize count : Nat} {zero : Bool}
    (run : alloc a elementSize count zero m = .ok b n) : b.owner = a := by
  cases a with
  | shared =>
    simp only [alloc, allocShared] at run
    split at run
    · cases run
    · split at run <;> cases run
      rfl
  | pool id =>
    simp only [alloc] at run
    split at run
    · cases run
    · split at run <;> cases run
      rfl

end Allocators

theorem Storage.allocate_owner {a : Allocator} {k : Kind} {count : Nat} {zero : Bool}
    {m n : Allocators} {s : Storage} (run : allocate a k count zero m = .ok s n) :
    s.block.owner = a := by
  unfold allocate at run
  split at run <;> cases run
  next given => exact Allocators.alloc_owner given

namespace Writable

variable {w : Writable} {m : Allocators} {t : Writable × Allocators}

def Own (w : Writable) : Prop := ∀ b ∈ w.held, b.owner = w.allocator

theorem own_of_none (bare : w.storage = none) : w.Own := by
  intro b member
  rw [held_of_none bare] at member
  cases member

theorem own_of_storage {s : Storage} (stored : w.storage = some s)
    (own : s.block.owner = w.allocator) : w.Own := by
  intro b member
  rw [held_of_storage stored] at member
  exact List.mem_singleton.1 member ▸ own

theorem reserve_own {capacity : Nat} (own : w.Own)
    (run : reserve capacity (w, m) = .ok () t) :
    t.1.Own ∧ t.1.allocator = w.allocator ∧ (0 < capacity → ∃ s, t.1.storage = some s) := by
  simp only [reserve] at run
  split at run
  · next room =>
    cases run
    refine ⟨own, rfl, fun some => ?_⟩
    cases stored : w.storage with
    | none => simp [Writable.capacity, stored] at room; omega
    | some s => exact ⟨s, rfl⟩
  · split at run
    · cases run
    · next next n given =>
      have source := Storage.allocate_owner given
      split at run <;> cases run
      · exact ⟨own_of_storage rfl source, rfl, fun _ => ⟨_, rfl⟩⟩
      · exact ⟨own_of_storage rfl source, rfl, fun _ => ⟨_, rfl⟩⟩

theorem resize_own {length : Nat} (own : w.Own) (longer : w.length < length)
    (run : resize length (w, m) = .ok () t) :
    t.1.Own ∧ t.1.allocator = w.allocator ∧ ∃ s, t.1.storage = some s := by
  simp only [resize, if_neg (Nat.not_le.2 longer)] at run
  cases reserved : reserve length (w, m) with
  | error e u =>
    rw [reserved] at run
    cases run
  | ok _ u =>
    obtain ⟨v, n⟩ := u
    rw [reserved] at run
    cases run
    obtain ⟨own', handle, room⟩ := reserve_own own reserved
    obtain ⟨held, handle'⟩ := v.held_lengthen length
    obtain ⟨s, stored⟩ := room (by omega)
    refine ⟨fun b member => ?_, handle'.trans handle, ?_⟩
    · rw [handle']
      exact own' b (held ▸ member)
    · obtain ⟨kind, storage, offset, old, allocator⟩ := v
      cases stored
      exact ⟨_, rfl⟩

theorem resize_stays {length : Nat} (room : length ≤ w.capacity) (m : Allocators) :
    ∃ v, resize length (w, m) = .ok () (v, m) ∧ v.address = w.address ∧
      v.allocator = w.allocator ∧ v.held = w.held := by
  by_cases shorter : length ≤ w.length
  · exact ⟨{ w with length }, by simp only [resize, if_pos shorter], rfl, rfl, rfl⟩
  · obtain ⟨held, handle⟩ := w.held_lengthen length
    refine ⟨w.lengthen length, by simp only [resize, reserve, if_neg shorter, if_pos room], ?_,
      handle, held⟩
    obtain ⟨kind, storage, offset, old, allocator⟩ := w
    cases storage <;> rfl

end Writable

namespace Store

variable {s t : Store} {f : Frozen} {l : List Holding} {w : Writable} {fallback : Allocator}
  {id : CellId} {c : Cell}

/-- Where several vectors refer to a block, one of them has got another block of the same allocator
instead, and is no longer counted on the old one. -/
structure Moved (s t : Store) (f : Frozen) (b : Block) : Prop where
  owner : s.owner? f = some b.owner
  apart : (s.address f).map Prod.fst ≠ some b.id
  holders : t.holders f + 1 = s.holders f

theorem storage?_freeze (s : Store) (w : Writable) :
    (s.freeze w).2.storage? (s.freeze w).1 = w.storage := by
  cases stored : w.storage with
  | none => simp only [Store.freeze, stored, storage?, cell?, Option.bind_none, Option.map_none]
  | some b =>
    simp only [Store.freeze, stored, storage?, cell?, Option.bind_some, Table.get?_insert, if_true,
      Option.map_some]

theorem allocators_freeze (s : Store) (w : Writable) :
    (s.freeze w).2.allocators = s.allocators.letGo w.allocator := by
  unfold Store.freeze
  split <;> rfl

theorem Owns.letGo_still {b : Storage} (h : s.Owns (.writable w :: l)) (own : w.Own)
    (stored : w.storage = some b) : s.allocators.Still (s.allocators.letGo w.allocator) := by
  have held : b.block ∈ w.held := Writable.held_of_storage stored ▸ List.mem_cons_self
  exact h.lends.letGo_still (List.mem_append_right _ (List.mem_append_left _ held)) (own _ held)

/-- A sole reference is thawed by taking a handle, and nothing else. -/
theorem thaw_sole_still (sole : s.unique f = true) (run : Store.thaw f fallback s = .ok w t) :
    w.Own ∧ t.allocators = s.allocators.retain w.allocator := by
  cases there : f.cell.bind fun id => (s.cells.get? id).map fun c => (id, c) with
  | none =>
    simp only [Store.thaw, there] at run
    cases run
    exact ⟨Writable.own_of_none rfl, rfl⟩
  | some p =>
    obtain ⟨id, c⟩ := p
    obtain ⟨i, refers, held⟩ := Option.bind_eq_some_iff.1 there
    obtain ⟨d, found, same⟩ := Option.map_eq_some_iff.1 held
    cases same
    have one : c.holders = 1 := by
      simpa only [unique, cell?, refers, Option.bind_some, found, Option.elim_some, beq_iff_eq]
        using sole
    simp only [Store.thaw, there, if_pos one] at run
    cases run
    exact ⟨Writable.own_of_storage rfl rfl, rfl⟩

theorem copyOut_own (run : Store.copyOut f c s = .ok w t) :
    w.Own ∧ w.allocator = c.storage.block.owner ∧ w.length = f.length ∧
      (f.length ≠ 0 → ∃ b, w.storage = some b) := by
  unfold copyOut at run
  split at run
  · next nothing =>
    cases run
    exact ⟨Writable.own_of_none rfl, rfl, nothing.symm, fun some => absurd nothing some⟩
  · simp only [onAllocators] at run
    cases given : Storage.allocate c.storage.block.owner f.kind f.length false s.allocators with
    | error e n =>
      rw [given] at run
      cases run
    | ok storage n =>
      rw [given] at run
      cases run
      have source := Storage.allocate_owner given
      exact ⟨Writable.own_of_storage rfl rfl, source, rfl, fun _ => ⟨_, rfl⟩⟩

theorem thaw_of_shared (refers : f.cell = some id) (found : s.cells.get? id = some c)
    (many : 1 < c.holders) (run : Store.thaw f fallback s = .ok w t) :
    ∃ u, Store.copyOut f c s = .ok w u ∧ t = u.drop f := by
  simp only [Store.thaw, refers, Option.bind_some, found, Option.map_some,
    if_neg (Nat.ne_of_gt many)] at run
  cases made : Store.copyOut f c s with
  | error e u =>
    rw [made] at run
    cases run
  | ok v u =>
    rw [made] at run
    cases run
    exact ⟨u, rfl, rfl⟩

theorem cell_dropped_shared (refers : f.cell = some id) (found : s.cells.get? id = some c)
    (many : 1 < c.holders) :
    (s.drop f).cells.get? id = some { c with holders := c.holders - 1 } := by
  simp only [Store.drop, refers, found]
  rw [if_neg (Nat.not_le.2 many), Table.get?_insert, if_pos rfl]

theorem Owns.apart_of_held {b : Storage} (h : s.Owns (.writable w :: l))
    (stored : w.storage = some b) (found : s.cells.get? id = some c) :
    c.storage.block.id ≠ b.block.id := by
  have distinct := h.distinct
  rw [List.map_append, List.nodup_append] at distinct
  refine distinct.2.2 _ (List.mem_map_of_mem ?_) _ (List.mem_map_of_mem ?_)
  · exact (blocksOf_perm h.sorted found).mem_iff.2 List.mem_cons_self
  · refine List.mem_append_left _ ?_
    rw [Holding.held, Writable.held_of_storage stored]
    exact List.mem_cons_self

/-- A vector that lies on a block other than that of a shared cell has moved away from it, once the
cell is counted once less. -/
theorem moved_of_cell {b : Block} (refers : f.cell = some id) (found : s.cells.get? id = some c)
    (many : 1 < c.holders)
    (left : t.cells.get? id = some { c with holders := c.holders - 1 })
    (own : b.owner = c.storage.block.owner) (apart : c.storage.block.id ≠ b.id) :
    s.Moved t f b where
  owner := by
    simp only [owner?, storage?, cell?, refers, Option.bind_some, found, Option.map_some, own]
  apart same := by
    simp only [address, storage?, cell?, refers, Option.bind_some, found, Option.map_some,
      Option.some.injEq] at same
    exact apart same
  holders := by
    simp only [holders, cell?, refers, Option.bind_some, found, left, Option.elim_some]
    omega

theorem Owns.freeze_moved {b : Storage} (h : t.Owns (.writable w :: .frozen f :: l))
    (cells : t.cells = s.cells) (refers : f.cell = some id) (found : s.cells.get? id = some c)
    (many : 1 < c.holders) (stored : w.storage = some b)
    (own : b.block.owner = c.storage.block.owner) :
    ((t.freeze w).2.drop f).storage? (t.freeze w).1 = some b ∧
      s.Moved ((t.freeze w).2.drop f) f b.block := by
  have live := h.freeze.perm (.swap ..)
  have there : t.cells.get? id = some c := cells ▸ found
  have still := h.beside.get?_freeze (f := f) (Holding.mem_frozens.2 List.mem_cons_self) refers w
  refine ⟨?_, ?_⟩
  · rw [live.storage_dropped (Holding.mem_frozens.2 List.mem_cons_self), storage?_freeze, stored]
  · exact moved_of_cell refers found many
      (cell_dropped_shared refers (still.trans there) many) own (h.apart_of_held stored there)

theorem Owns.cell_shared (h : s.Owns (.frozen f :: l)) (shared : s.unique f = false) :
    ∃ id c, f.cell = some id ∧ s.cells.get? id = some c ∧ 1 < c.holders ∧
      f.offset + f.length ≤ c.storage.items.size := by
  cases refers : f.cell with
  | none => simp [unique, cell?, refers] at shared
  | some id =>
    obtain ⟨c, found, fits, count⟩ := h.cell refers
    have many : c.holders ≠ 1 := by
      simpa only [unique, cell?, refers, Option.bind_some, found, Option.elim_some,
        beq_eq_false_iff_ne] using shared
    exact ⟨id, c, rfl, found, by omega, fits⟩

/-- What is thawed of a shared block is a copy, if there is anything to copy. -/
theorem Owns.thaw_shared (h : s.Owns (.frozen f :: l)) (shared : s.unique f = false)
    (some : f.length ≠ 0) (run : Store.thaw f fallback s = .ok w t) :
    ∃ b, w.held = [b] ∧ s.Moved t f b := by
  obtain ⟨id, c, refers, found, many, fits⟩ := h.cell_shared shared
  -- Where the vector would grow from without a block does not matter.
  have same : Store.thaw f .shared s = Store.thaw f fallback s := by
    simp only [Store.thaw, refers, Option.bind_some, found, Option.map_some]
  have alive : s.allocators.Alive .shared := trivial
  have owns := h.thaw alive
  rw [same, run] at owns
  obtain ⟨u, made, rfl⟩ := thaw_of_shared refers found many run
  have copied := copyOut_spec (s := s) fits
  rw [made] at copied
  obtain ⟨own, source, -, given⟩ := copyOut_own made
  obtain ⟨b, stored⟩ := given some
  obtain ⟨-, -, -, cells, -⟩ := copied
  have left := cell_dropped_shared (s := u) refers (cells ▸ found) many
  have held := Writable.held_of_storage stored
  have mine : b.block.owner = w.allocator := own b.block (held ▸ List.mem_cons_self)
  exact ⟨b.block, held, moved_of_cell refers found many left (mine.trans source)
    (owns.apart_of_held (c := { c with holders := c.holders - 1 }) stored left)⟩

end Store

end ArrayStore
