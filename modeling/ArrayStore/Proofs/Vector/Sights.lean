import ArrayStore.Proofs.Vector.Holdings

/-! What can be told of a frozen vector from outside: its elements, the room
behind them, where they lie and how many vectors refer to their block.
All of it is read off the cell, so whatever leaves the cell alone leaves the
sight alone. Main statements: taking the storage of a sole reference out and
freezing it again shows the same, and so does giving a copy up. -/

namespace ArrayStore

/-- What can be told of a vector besides its kind and its length. -/
structure Sight where
  values : List Scalar
  capacity : Nat
  address : Option Address
  holders : Nat
  deriving DecidableEq

def Writable.sight (w : Writable) : Sight :=
  ⟨w.values, w.capacity, w.address, w.storage.elim 0 fun _ => 1⟩

namespace Store

def sight (s : Store) (f : Frozen) : Sight := ⟨s.values f, s.capacity f, s.address f, s.holders f⟩

def Alike (s t : Store) (live : List Frozen) : Prop := ∀ f ∈ live, t.sight f = s.sight f

variable {s t : Store} {f g : Frozen} {live : List Frozen} {l : List Holding}

theorem sight_none (bare : f.cell = none) : s.sight f = ⟨[], 0, none, 0⟩ := by
  simp [sight, values, capacity, address, holders, storage?, cell?, bare]

theorem sight_some {id : CellId} {c : Cell} (refers : f.cell = some id)
    (found : s.cells.get? id = some c) :
    s.sight f = ⟨c.storage.view f.offset f.length, c.storage.capacity - f.offset,
      some (c.storage.block.id, f.offset), c.holders⟩ := by
  simp [sight, values, capacity, address, holders, storage?, cell?, refers, found]

theorem sight_congr (same : ∀ id, f.cell = some id → t.cells.get? id = s.cells.get? id) :
    t.sight f = s.sight f := by
  have cell : t.cell? f = s.cell? f := by
    cases refers : f.cell with
    | none => simp only [cell?, refers, Option.bind_none]
    | some id => simp only [cell?, refers, Option.bind_some, same id refers]
  simp only [sight, values, capacity, address, holders, storage?, cell]

theorem alike_of_cells (same : t.cells = s.cells) (live : List Frozen) : s.Alike t live :=
  fun _ _ => sight_congr fun _ _ => by rw [same]

theorem Alike.trans {u : Store} (first : s.Alike t live) (second : t.Alike u live) :
    s.Alike u live := fun f member => (second f member).trans (first f member)

theorem Alike.keeps (h : s.Alike t live) : s.Keeps t live := fun f member =>
  congrArg Sight.values (h f member)

theorem sight_freeze (s : Store) (w : Writable) :
    (s.freeze w).2.sight (s.freeze w).1 = w.sight := by
  cases stored : w.storage with
  | none =>
    simp only [Store.freeze, stored, Writable.sight, Writable.values, Writable.capacity,
      Writable.address, Option.elim_none, Option.map_none]
    exact sight_none rfl
  | some storage =>
    simp only [Store.freeze, stored, Writable.sight, Writable.values, Writable.capacity,
      Writable.address, Option.elim_some, Option.map_some]
    exact sight_some rfl (c := ⟨storage, 1⟩) (by rw [Table.get?_insert, if_pos rfl])

theorem length_freeze (s : Store) (w : Writable) : (s.freeze w).1.length = w.length := by
  unfold Store.freeze
  split <;> rfl

theorem Holds.cell_freeze {w : Writable} (h : s.Holds live) (member : f ∈ live) {id : CellId}
    (refers : (s.freeze w).1.cell = some id) : f.cell ≠ some id := by
  unfold Store.freeze at refers
  split at refers
  · cases refers
  · cases refers
    exact h.cell_ne_made member

theorem Holds.get?_freeze (h : s.Holds live) (member : f ∈ live) {id : CellId}
    (refers : f.cell = some id) (w : Writable) :
    (s.freeze w).2.cells.get? id = s.cells.get? id := by
  have apart : id ≠ s.made := fun same => h.cell_ne_made member (same ▸ refers)
  unfold Store.freeze
  split
  · rfl
  · simp only
    rw [Table.get?_insert, if_neg apart]

theorem Holds.freeze_alike (h : s.Holds live) (w : Writable) : s.Alike (s.freeze w).2 live :=
  fun _ member => sight_congr fun _ refers => h.get?_freeze member refers w

theorem Owns.blocksOf_freeze (h : s.Owns l) (w : Writable) :
    (blocksOf (s.freeze w).2.cells).Perm (w.held ++ blocksOf s.cells) := by
  unfold Store.freeze
  cases stored : w.storage with
  | none =>
    rw [Writable.held_of_none stored]
    exact .refl _
  | some storage =>
    have blocks := blocksOf_insert_perm h.sorted s.made ⟨storage, 1⟩
    rw [Table.erase_of_get?_eq_none (h.holds.fresh _ (Nat.le_refl _))] at blocks
    rw [Writable.held_of_storage stored]
    exact blocks

theorem Owns.thaw_sole (h : s.Owns (.frozen f :: l)) (sole : s.unique f = true)
    (fallback : Allocator) :
    ∃ w t, Store.thaw f fallback s = .ok w t ∧ w.sight = s.sight f ∧ w.length = f.length ∧
      s.Alike t (Holding.frozens l) ∧ (w.held ++ blocksOf t.cells).Perm (blocksOf s.cells) := by
  cases refers : f.cell with
  | none =>
    have empty : f.length = 0 := by
      have view := h.holds.viewed f (Holding.mem_frozens.2 List.mem_cons_self)
      simpa only [Views, refers] using view
    exact ⟨(s.emptyWritable f.kind fallback).1, (s.emptyWritable f.kind fallback).2,
      by simp only [Store.thaw, refers, Option.bind_none], (sight_none refers).symm, empty.symm,
      alike_of_cells rfl _, .refl _⟩
  | some id =>
    obtain ⟨c, found, -, count⟩ := h.cell refers
    have one : c.holders = 1 := by
      simpa only [unique, cell?, refers, Option.bind_some, found, Option.elim_some, beq_iff_eq]
        using sole
    have taken : Store.thaw f fallback s =
        .ok (Writable.ofStorage f.kind c.storage f.offset f.length s.allocators).1
          { s with
            allocators := s.allocators.retain c.storage.block.owner
            cells := s.cells.erase id } := by
      simp only [Store.thaw, refers, Option.bind_some, found, Option.map_some, if_pos one]
      rfl
    refine ⟨_, _, taken, ?_, rfl, fun g member => sight_congr fun other refers' => ?_,
      (blocksOf_perm h.sorted found).symm⟩
    · rw [sight_some refers found, one]
      rfl
    · have apart : other ≠ id := fun same =>
        references_eq_zero (by omega) g member (same ▸ refers')
      simp only
      rw [Table.get?_erase, if_neg apart]

theorem Owns.drop_clone (h : s.Owns (.frozen f :: l)) {t : Store}
    (cells : t.cells = (s.clone f).cells) : (t.drop f).cells = s.cells := by
  cases refers : f.cell with
  | none =>
    simp only [Store.clone, refers] at cells
    simp only [Store.drop, refers, cells]
  | some id =>
    obtain ⟨c, found, -, count⟩ := h.cell refers
    have more : t.cells = s.cells.insert id { c with holders := c.holders + 1 } := by
      rw [cells]
      simp only [Store.clone, refers, Table.modify_of_get? h.sorted found]
    have there : t.cells.get? id = some { c with holders := c.holders + 1 } := by
      rw [more, Table.get?_insert, if_pos rfl]
    simp only [Store.drop, refers, there]
    rw [if_neg (by omega), Nat.add_sub_cancel]
    refine Table.ext_of_get? (Table.insert_sorted (more ▸ Table.insert_sorted h.sorted id _) id _)
      h.sorted fun other => ?_
    simp only [Table.get?_insert, more]
    split
    · next same => rw [same, found]
    · rfl

theorem Owns.drop_copy (h : s.Owns (.frozen f :: l)) : (s.clone f).drop f = s := by
  have cells := h.drop_clone (t := s.clone f) rfl
  have rest : ((s.clone f).drop f).allocators = s.allocators ∧
      ((s.clone f).drop f).made = s.made := by
    cases refers : f.cell with
    | none => simp only [Store.clone, Store.drop, refers, and_self]
    | some id =>
      obtain ⟨c, found, -, count⟩ := h.cell refers
      simp only [Store.clone, Store.drop, refers, Table.get?_modify, if_pos, found, Option.map_some]
      rw [if_neg (by omega)]
      exact ⟨rfl, rfl⟩
  calc (s.clone f).drop f
      = ⟨((s.clone f).drop f).allocators, ((s.clone f).drop f).cells, ((s.clone f).drop f).made⟩ :=
        rfl
    _ = s := by rw [cells, rest.1, rest.2]

/-- Thawing one of several references leaves the cells alone, whether there is room for the
copy or not. -/
theorem Owns.thaw_clone (h : s.Owns (.frozen f :: l)) (shared : s.unique f = false)
    (fallback : Allocator) :
    (Outcome.state (Store.thaw f fallback (s.clone f))).cells = s.cells := by
  cases refers : f.cell with
  | none => simp [unique, cell?, refers] at shared
  | some id =>
    obtain ⟨c, found, fits, count⟩ := h.cell refers
    have there : (s.clone f).cells.get? id = some { c with holders := c.holders + 1 } := by
      simp only [Store.clone, refers, Table.get?_modify, if_pos, found, Option.map_some]
    have copied := copyOut_spec (s := s.clone f) (c := { c with holders := c.holders + 1 }) fits
    simp only [Store.thaw, refers, Option.bind_some, there, Option.map_some]
    rw [if_neg (by omega)]
    cases made : Store.copyOut f { c with holders := c.holders + 1 } (s.clone f) with
    | error e t =>
      rw [made] at copied
      exact h.drop_clone copied.1
    | ok w t =>
      rw [made] at copied
      exact h.drop_clone copied.2.2.2.1

theorem cells_drop_of_ne {id : CellId} (apart : f.cell ≠ some id) :
    (s.drop f).cells.get? id = s.cells.get? id := by
  cases refers : f.cell with
  | none => simp only [Store.drop, refers]
  | some other =>
    have ne : id ≠ other := fun same => apart (same ▸ refers)
    simp only [Store.drop, refers]
    split
    · rfl
    · split
      · rw [Table.get?_erase, if_neg ne]
      · rw [Table.get?_insert, if_neg ne]

theorem sight_drop (apart : ∀ id, g.cell = some id → f.cell ≠ some id) :
    (s.drop f).sight g = s.sight g :=
  sight_congr fun id refers => cells_drop_of_ne (apart id refers)

theorem Owns.cell_dropped {id : CellId} (h : s.Owns (.frozen f :: l))
    (live : g ∈ Holding.frozens l) (refers : g.cell = some id) :
    ∃ c, s.cells.get? id = some c ∧ (s.drop f).cells.get? id =
      some { c with holders := c.holders - if f.cell = some id then 1 else 0 } := by
  by_cases same : f.cell = some id
  · obtain ⟨c, found, -, count⟩ := h.cell same
    have shared : 1 ≤ references (Holding.frozens l) id :=
      List.countP_pos_iff.2 ⟨g, live, decide_eq_true refers⟩
    refine ⟨c, found, ?_⟩
    simp only [Store.drop, same, found]
    rw [if_neg (by omega), Table.get?_insert, if_pos rfl, if_pos trivial]
  · have view := h.holds.viewed g (List.mem_cons_of_mem _ live)
    simp only [Views, refers] at view
    obtain ⟨c, found, -⟩ := view
    refine ⟨c, found, ?_⟩
    rw [if_neg same, Nat.sub_zero, cells_drop_of_ne same, found]

/-- After a vector is dropped, the others on its block are counted once less, and that is all
that can be told. -/
theorem Owns.sight_dropped (h : s.Owns (.frozen f :: l)) (live : g ∈ Holding.frozens l) :
    s.sight g = { (s.drop f).sight g with
      holders := (s.drop f).holders g + if g.cell.isSome ∧ g.cell = f.cell then 1 else 0 } := by
  cases refers : g.cell with
  | none => simp only [sight_none refers, Store.holders, cell?, refers]; rfl
  | some id =>
    obtain ⟨c, found, dropped⟩ := h.cell_dropped live refers
    have counted : 0 < c.holders := (h.holds.counted id c found).2
    rw [sight_some refers found, sight_some refers dropped]
    simp only [Store.holders, cell?, refers, Option.bind_some, dropped, Option.elim_some,
      Option.isSome_some, true_and, eq_comm (a := some id), Sight.mk.injEq]
    split <;> omega

theorem Owns.storage_dropped (h : s.Owns (.frozen f :: l)) (live : g ∈ Holding.frozens l) :
    (s.drop f).storage? g = s.storage? g := by
  cases refers : g.cell with
  | none => simp only [storage?, cell?, refers, Option.bind_none]
  | some id =>
    obtain ⟨c, found, dropped⟩ := h.cell_dropped live refers
    simp only [storage?, cell?, refers, Option.bind_some, found, dropped, Option.map_some]

end Store

end ArrayStore
