import ArrayStore.Proofs.Vector.Contents
import ArrayStore.Vector.Frozen

/-! Frozen vectors on shared storages.
A store holds a list of frozen vectors if each of its cells counts those that
refer to it, and the view of each lies within the elements of its cell. Every
operation acts on one of them and keeps the values of the others. Main
statements: cloning, freezing and slicing show what they should, and thawing
gives a writable vector with the same values whether it copies or not. -/

namespace ArrayStore.Store

def references (live : List Frozen) (id : CellId) : Nat := live.countP fun f => f.cell = some id

def Views (s : Store) (f : Frozen) : Prop :=
  match f.cell with
  | none => f.length = 0
  | some id =>
    ∃ c, s.cells.get? id = some c ∧ f.offset + f.length ≤ c.storage.items.size

/-- The live frozen vectors, as the cells count them. -/
structure Holds (s : Store) (live : List Frozen) : Prop where
  fresh : ∀ id, s.made ≤ id → s.cells.get? id = none
  counted : ∀ id c, s.cells.get? id = some c → c.holders = references live id ∧ 0 < c.holders
  viewed : ∀ f ∈ live, s.Views f

def Keeps (s t : Store) (live : List Frozen) : Prop := ∀ f ∈ live, t.values f = s.values f

variable {s t : Store} {f : Frozen} {live : List Frozen}

theorem references_cons (f : Frozen) (live : List Frozen) (id : CellId) :
    references (f :: live) id = references live id + if f.cell = some id then 1 else 0 := by
  simp only [references, List.countP_cons, decide_eq_true_eq]

theorem references_eq_zero {id : CellId} (none : references live id = 0) :
    ∀ f ∈ live, f.cell ≠ some id := by
  intro f member refers
  simp only [references, List.countP_eq_zero, decide_eq_true_eq] at none
  exact none f member refers

theorem values_none (bare : f.cell = none) : s.values f = [] := by
  simp [values, storage?, cell?, bare]

theorem values_some {id : CellId} {c : Cell} (refers : f.cell = some id)
    (found : s.cells.get? id = some c) : s.values f = c.storage.view f.offset f.length := by
  simp [values, storage?, cell?, refers, found]

theorem values_congr
    (same : ∀ id, f.cell = some id → (t.cells.get? id).map Cell.storage =
      (s.cells.get? id).map Cell.storage) : t.values f = s.values f := by
  cases refers : f.cell with
  | none => rw [values_none refers, values_none refers]
  | some id =>
    have storage := same id refers
    simp only [values, storage?, cell?, refers, Option.bind_some, storage]

theorem Views.congr (same : ∀ id, f.cell = some id → (t.cells.get? id).map Cell.storage =
      (s.cells.get? id).map Cell.storage) (h : s.Views f) : t.Views f := by
  unfold Views at h ⊢
  cases refers : f.cell with
  | none => simpa only [refers] using h
  | some id =>
    simp only [refers] at h ⊢
    obtain ⟨c, found, fits⟩ := h
    have storage := same id refers
    rw [found] at storage
    obtain ⟨d, there, equal⟩ := Option.map_eq_some_iff.1 storage
    exact ⟨d, there, equal ▸ fits⟩

theorem holds_nil (m : Allocators) : Holds { allocators := m } [] :=
  ⟨fun _ _ => rfl, fun _ _ eq => (by cases eq), fun _ member => absurd member List.not_mem_nil⟩

theorem Holds.perm {other : List Frozen} (h : Holds s live) (p : live.Perm other) :
    Holds s other where
  fresh := h.fresh
  counted id c found := by
    have counts := h.counted id c found
    rwa [references, p.countP_eq] at counts
  viewed f member := h.viewed f (p.mem_iff.2 member)

theorem Holds.congr (h : Holds s live) (cells : t.cells = s.cells) (made : t.made = s.made) :
    Holds t live ∧ Keeps s t live := by
  refine ⟨⟨?_, ?_, fun f member => ?_⟩, fun f _ => values_congr fun _ _ => by rw [cells]⟩
  · rw [cells, made]
    exact h.fresh
  · rw [cells]
    exact h.counted
  · exact (h.viewed f member).congr fun _ _ => by rw [cells]

theorem Keeps.trans {u : Store} (first : Keeps s t live) (second : Keeps t u live) :
    Keeps s u live := fun f member => (second f member).trans (first f member)

theorem Holds.tail (h : Holds s (f :: live)) (bare : f.cell = none) : Holds s live where
  fresh := h.fresh
  counted id c found := by
    have counts := h.counted id c found
    rwa [references_cons, bare, if_neg (Option.some_ne_none id).symm] at counts
  viewed g member := h.viewed g (List.mem_cons_of_mem _ member)

theorem Holds.cons_bare (h : Holds s live) (bare : f.cell = none) (empty : f.length = 0) :
    Holds s (f :: live) where
  fresh := h.fresh
  counted id c found := by
    rw [references_cons, bare, if_neg (Option.some_ne_none id).symm]
    exact h.counted id c found
  viewed g member := by
    obtain rfl | other := List.mem_cons.1 member
    · simp only [Views, bare, empty]
    · exact h.viewed g other

theorem kind_freeze (s : Store) (w : Writable) : (s.freeze w).1.kind = w.kind := by
  unfold Store.freeze
  split <;> rfl

theorem values_freeze (s : Store) (w : Writable) :
    (s.freeze w).2.values (s.freeze w).1 = w.values := by
  cases stored : w.storage with
  | none => simp [Store.freeze, stored, Writable.values, values_none]
  | some storage =>
    simp only [Store.freeze, stored]
    rw [values_some rfl (c := ⟨storage, 1⟩) (by rw [Table.get?_insert, if_pos rfl]),
      Writable.values_of_storage stored]

theorem Holds.cell_ne_made (h : Holds s live) (member : f ∈ live) : f.cell ≠ some s.made := by
  intro refers
  have view := h.viewed f member
  simp only [Views, refers] at view
  obtain ⟨c, found, -⟩ := view
  rw [h.fresh _ (Nat.le_refl _)] at found
  cases found

theorem Holds.freeze {w : Writable} (h : Holds s live) (sound : w.Sound) :
    Holds (s.freeze w).2 ((s.freeze w).1 :: live) ∧ Keeps s (s.freeze w).2 live := by
  cases stored : w.storage with
  | none =>
    simp only [Writable.Sound, stored] at sound
    simp only [Store.freeze, stored]
    obtain ⟨holds, keeps⟩ := h.congr (t := s.letGo w.allocator) rfl rfl
    exact ⟨holds.cons_bare rfl sound, keeps⟩
  | some storage =>
    simp only [Writable.Sound, stored] at sound
    simp only [Store.freeze, stored]
    have strange : ∀ g ∈ live, g.cell ≠ some s.made := fun g member => h.cell_ne_made member
    have apart : ∀ g ∈ live, ∀ id, g.cell = some id → id ≠ s.made :=
      fun g member id refers eq => strange g member (eq ▸ refers)
    have others : ∀ g ∈ live, ∀ id, g.cell = some id →
        ((s.cells.insert s.made ⟨storage, 1⟩).get? id).map Cell.storage =
          (s.cells.get? id).map Cell.storage := by
      intro g member id refers
      rw [Table.get?_insert, if_neg (apart g member id refers)]
    refine ⟨⟨fun id late => ?_, fun id c found => ?_, fun g member => ?_⟩,
      fun g member => values_congr (others g member)⟩
    · simp only at late
      rw [Table.get?_insert, if_neg (by omega)]
      exact h.fresh id (by omega)
    · rw [references_cons]
      rw [Table.get?_insert] at found
      split at found
      · next same =>
        cases found
        have none : references live id = 0 := by
          simp only [references, List.countP_eq_zero, decide_eq_true_eq]
          exact fun g member => same ▸ strange g member
        rw [none, same, if_pos rfl]
        exact ⟨rfl, Nat.one_pos⟩
      · next other =>
        rw [if_neg fun eq => other (Option.some.inj eq).symm]
        exact h.counted id c found
    · obtain rfl | member := List.mem_cons.1 member
      · refine ⟨⟨storage, 1⟩, ?_, sound⟩
        rw [Table.get?_insert, if_pos rfl]
      · exact (h.viewed g member).congr (others g member)

theorem Holds.cell {id : CellId} (h : Holds s (f :: live)) (refers : f.cell = some id) :
    ∃ c, s.cells.get? id = some c ∧ f.offset + f.length ≤ c.storage.items.size ∧
      c.holders = references live id + 1 := by
  have view := h.viewed f List.mem_cons_self
  simp only [Views, refers] at view
  obtain ⟨c, found, fits⟩ := view
  have counts := (h.counted id c found).1
  rw [references_cons, if_pos refers] at counts
  exact ⟨c, found, fits, counts⟩

theorem references_cons_of_ne {id other : CellId} (refers : f.cell = some id)
    (apart : other ≠ id) : references (f :: live) other = references live other := by
  rw [references_cons, refers, if_neg fun eq => apart (Option.some.inj eq).symm, Nat.add_zero]

theorem Holds.recount {id : CellId} {c : Cell} (holders : Nat) {others : List Frozen}
    (h : Holds s live) (found : s.cells.get? id = some c)
    (cells : ∀ i, t.cells.get? i =
      if i = id then some { c with holders } else s.cells.get? i)
    (made : t.made = s.made) (known : ∀ g ∈ others, g ∈ live)
    (count : holders = references others id ∧ 0 < holders)
    (same : ∀ i, i ≠ id → references others i = references live i) :
    Holds t others ∧ Keeps s t live := by
  have storages : ∀ i, (t.cells.get? i).map Cell.storage =
      (s.cells.get? i).map Cell.storage := by
    intro i
    rw [cells]
    split
    · next eq => rw [eq, found]; rfl
    · rfl
  refine ⟨⟨fun i late => ?_, fun i d there => ?_, fun g member => ?_⟩,
    fun g _ => values_congr fun i _ => storages i⟩
  · have unused := h.fresh i (made ▸ late)
    rw [cells, if_neg fun eq => by rw [eq, found] at unused; cases unused]
    exact unused
  · rw [cells] at there
    split at there
    · next eq =>
      cases there
      rwa [eq]
    · next apart =>
      rw [same i apart]
      exact h.counted i d there
  · exact (h.viewed g (known g member)).congr fun i _ => storages i

theorem Holds.clone (h : Holds s (f :: live)) :
    Holds (s.clone f) (f :: f :: live) ∧ Keeps s (s.clone f) (f :: live) := by
  cases refers : f.cell with
  | none =>
    have same : s.clone f = s := by simp [Store.clone, refers]
    have view := h.viewed f List.mem_cons_self
    simp only [Views, refers] at view
    rw [same]
    exact ⟨h.cons_bare refers view, fun _ _ => rfl⟩
  | some id =>
    obtain ⟨c, found, fits, count⟩ := h.cell refers
    refine h.recount (c.holders + 1) found (fun i => ?_) (by simp [Store.clone, refers])
      (fun g member => ?_) ⟨?_, Nat.succ_pos _⟩ fun i apart => ?_
    · simp only [Store.clone, refers, Table.get?_modify]
      by_cases same : i = id
      · rw [if_pos same, if_pos same, same, found]
        rfl
      · rw [if_neg same, if_neg same]
    · exact (List.mem_cons.1 member).elim (fun eq => eq ▸ List.mem_cons_self) fun known => known
    · rw [references_cons, references_cons, if_pos refers, count]
    · rw [references_cons_of_ne refers apart]

theorem Holds.erase {id : CellId} (h : Holds s (f :: live)) (refers : f.cell = some id)
    (none : references live id = 0) (cells : t.cells = s.cells.erase id)
    (made : t.made = s.made) : Holds t live ∧ Keeps s t live := by
  have others : ∀ g ∈ live, ∀ other, g.cell = some other →
      (t.cells.get? other).map Cell.storage = (s.cells.get? other).map Cell.storage := by
    intro g member other eq
    have apart : other ≠ id := fun same => references_eq_zero none g member (same ▸ eq)
    rw [cells, Table.get?_erase, if_neg apart]
  refine ⟨⟨fun other late => ?_, fun other d there => ?_, fun g member => ?_⟩,
    fun g member => values_congr (others g member)⟩
  · rw [cells, Table.get?_erase]
    split
    · rfl
    · exact h.fresh other (made ▸ late)
  · rw [cells, Table.get?_erase] at there
    split at there
    · cases there
    · next apart =>
      have counts := h.counted other d there
      rwa [references_cons_of_ne refers apart] at counts
  · exact (h.viewed g (List.mem_cons_of_mem _ member)).congr (others g member)

theorem Holds.drop (h : Holds s (f :: live)) : Holds (s.drop f) live ∧ Keeps s (s.drop f) live := by
  cases refers : f.cell with
  | none =>
    have same : s.drop f = s := by simp [Store.drop, refers]
    rw [same]
    exact ⟨h.tail refers, fun _ _ => rfl⟩
  | some id =>
    obtain ⟨c, found, fits, count⟩ := h.cell refers
    by_cases last : c.holders ≤ 1
    · refine h.erase refers (by omega) ?_ ?_
      all_goals simp [Store.drop, refers, found, last]
    · refine (h.recount (c.holders - 1) found (fun i => ?_) ?_
        (fun g => List.mem_cons_of_mem _) ⟨by omega, by omega⟩ fun i apart => ?_).imp_right
          fun keeps g member => keeps g (List.mem_cons_of_mem _ member)
      · simp only [Store.drop, refers, found, if_neg last, Table.get?_insert]
      · simp [Store.drop, refers, found, last]
      · rw [references_cons_of_ne refers apart]

theorem Holds.slice (h : Holds s (f :: live)) (skip count : Nat) :
    Holds s (f.slice skip count :: live) ∧
      s.values (f.slice skip count) = ((s.values f).drop skip).take count := by
  have bound := narrow_le f.length skip count
  refine ⟨⟨h.fresh, fun id c found => ?_, fun g member => ?_⟩, ?_⟩
  · have counts := h.counted id c found
    rwa [references_cons] at counts ⊢
  · obtain rfl | member := List.mem_cons.1 member
    · have view := h.viewed f List.mem_cons_self
      unfold Views at view ⊢
      simp only [Frozen.slice]
      cases refers : f.cell with
      | none =>
        simp only [refers] at view ⊢
        omega
      | some id =>
        simp only [refers] at view ⊢
        obtain ⟨c, found, fits⟩ := view
        exact ⟨c, found, by omega⟩
    · exact h.viewed g (List.mem_cons_of_mem _ member)
  · cases refers : f.cell with
    | none =>
      rw [values_none refers, values_none (f := f.slice skip count) refers]
      simp
    | some id =>
      obtain ⟨c, found, fits, -⟩ := h.cell refers
      rw [values_some refers found, values_some (f := f.slice skip count) refers found,
        ← Storage.view_narrow c.storage fits]
      rfl

theorem copyOut_spec {c : Cell} (fits : f.offset + f.length ≤ c.storage.items.size) :
    match copyOut f c s with
    | .ok w t =>
      w.Sound ∧ w.kind = f.kind ∧ w.values = c.storage.view f.offset f.length ∧
        t.cells = s.cells ∧ t.made = s.made
    | .error _ t => t.cells = s.cells ∧ t.made = s.made := by
  unfold copyOut
  by_cases nothing : f.length = 0
  · rw [if_pos nothing, nothing, Storage.view_zero]
    exact ⟨Writable.empty_sound _ _ s.allocators, rfl, rfl, rfl, rfl⟩
  · rw [if_neg nothing]
    simp only [onAllocators]
    cases Storage.allocate c.storage.block.owner f.kind f.length false s.allocators with
    | error e m => exact ⟨rfl, rfl⟩
    | ok storage m =>
      have size : (c.storage.view f.offset f.length).toArray.size = f.length :=
        Storage.length_view fits
      exact ⟨Writable.ofStorage_sound m size, rfl, Writable.values_ofStorage m size, rfl, rfl⟩

/-- Thawing uses the vector up. It gives a writable one with the same values, or fails;
either way the others show what they did. -/
theorem Holds.thaw (h : Holds s (f :: live)) (fallback : Allocator) :
    match Store.thaw f fallback s with
    | .ok w t =>
      Holds t live ∧ Keeps s t live ∧ w.Sound ∧ w.kind = f.kind ∧ w.values = s.values f
    | .error _ t => Holds t live ∧ Keeps s t live := by
  cases refers : f.cell with
  | none =>
    simp only [Store.thaw, refers, Option.bind_none]
    obtain ⟨holds, keeps⟩ := (h.tail refers).congr
      (t := (s.emptyWritable f.kind fallback).2) rfl rfl
    exact ⟨holds, keeps, Writable.empty_sound _ _ s.allocators, rfl, (values_none refers).symm⟩
  | some id =>
    obtain ⟨c, found, fits, count⟩ := h.cell refers
    simp only [Store.thaw, refers, Option.bind_some, found, Option.map_some]
    by_cases sole : c.holders = 1
    -- The count is exact, so no live vector refers to the cell that is taken over.
    · rw [if_pos sole]
      obtain ⟨holds, keeps⟩ := h.erase (t := { s with
          allocators := s.allocators.retain c.storage.block.owner
          cells := s.cells.erase id }) refers (by omega) rfl rfl
      exact ⟨holds, keeps, fits, rfl, (values_some refers found).symm⟩
    · rw [if_neg sole]
      have copied := copyOut_spec (s := s) fits
      cases made : copyOut f c s with
      | error e t =>
        rw [made] at copied
        obtain ⟨holds, keeps⟩ := h.congr copied.1 copied.2
        exact ⟨holds.drop.1,
          fun g member => (holds.drop.2 g member).trans (keeps g (List.mem_cons_of_mem _ member))⟩
      | ok w t =>
        rw [made] at copied
        obtain ⟨sound, kind, values, cells, made⟩ := copied
        obtain ⟨holds, keeps⟩ := h.congr cells made
        exact ⟨holds.drop.1,
          fun g member => (holds.drop.2 g member).trans (keeps g (List.mem_cons_of_mem _ member)),
          sound, kind, values.trans (values_some refers found).symm⟩

theorem Holds.ofList (k : Kind) (a : Allocator) (values : List Scalar) (h : Holds s live) :
    match Store.ofList k a values s with
    | .ok f t => Holds t (f :: live) ∧ Keeps s t live ∧ f.kind = k ∧ t.values f = values
    | .error _ t => Holds t live ∧ Keeps s t live := by
  simp only [Store.ofList, onAllocators]
  cases made : Writable.ofList k a values s.allocators with
  | error e m => exact h.congr rfl rfl
  | ok w m =>
    obtain ⟨sound, kind, exact⟩ := Writable.ofList_ok made
    obtain ⟨holds, keeps⟩ := h.congr (t := { s with allocators := m }) rfl rfl
    obtain ⟨holds', keeps'⟩ := holds.freeze sound
    exact ⟨holds', keeps.trans keeps', (kind_freeze _ w).trans kind,
      (values_freeze _ w).trans exact⟩

theorem cells_ofList {k : Kind} {a : Allocator} {values : List Scalar} {e : Error}
    (failed : Store.ofList k a values s = .error e t) : t.cells = s.cells := by
  simp only [Store.ofList, onAllocators] at failed
  cases made : Writable.ofList k a values s.allocators with
  | error e m =>
    simp only [made] at failed
    cases failed
    rfl
  | ok w m =>
    simp only [made] at failed
    cases failed

end ArrayStore.Store
