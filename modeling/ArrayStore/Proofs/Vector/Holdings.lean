import ArrayStore.Proofs.Vector.Accounting
import ArrayStore.Proofs.Vector.Sharing
import Mathlib.Data.List.Dedup

/-! What refers to a store from outside: handles, writable vectors and frozen ones.
A store is owned by a list of such holdings if its cells count the frozen
vectors among them, and if the handles and blocks that they and the cells have
are just those that the allocators gave out. Each operation exchanges the
holdings it is about and leaves all others as they are. Each vector fits the
block that it lies on. Main statements: the outstanding blocks of a pool are
those that holdings refer to, and the count in a cell is the number of frozen
vectors on its block. -/

namespace ArrayStore

open Allocators (Lends)

inductive Holding where
  | handle (a : Allocator)
  | writable (w : Writable)
  | frozen (f : Frozen)

namespace Holding

def handle? : Holding → Option Allocator
  | handle a => some a
  | writable w => some w.allocator
  | frozen _ => none

def held : Holding → List Block
  | writable w => w.held
  | _ => []

def frozen? : Holding → Option Frozen
  | frozen f => some f
  | _ => none

def handles (l : List Holding) : List Allocator := l.filterMap handle?

def loose (l : List Holding) : List Block := l.flatMap held

def frozens (l : List Holding) : List Frozen := l.filterMap frozen?

def block? (s : Store) : Holding → Option Block
  | handle _ => none
  | writable w => w.storage.map Storage.block
  | frozen f => (s.storage? f).map Storage.block

def Roomy (s : Store) : Holding → Prop
  | handle _ => True
  | writable w => w.Roomy
  | frozen f => s.Roomy f

/-- The numbers of the blocks of a pool that holdings refer to, each once. -/
def blocksOf (s : Store) (l : List Holding) (id : Nat) : List BlockId :=
  (((l.filterMap (block? s)).filter (Block.isOf id)).map Block.id).dedup

theorem mem_frozens {l : List Holding} {f : Frozen} : f ∈ frozens l ↔ frozen f ∈ l := by
  rw [frozens, List.mem_filterMap]
  constructor
  · rintro ⟨x, member, same⟩
    cases x <;> cases same
    exact member
  · exact fun member => ⟨_, member, rfl⟩

theorem Roomy.congr {s t : Store} {x : Holding} (h : x.Roomy s) (same : t.cells = s.cells) :
    x.Roomy t := by
  cases x with
  | handle a | writable w => exact h
  | frozen f => exact Store.Roomy.congr h same

theorem frozens_append (l r : List Holding) : frozens (l ++ r) = frozens l ++ frozens r :=
  List.filterMap_append ..

end Holding

open Holding (handles loose frozens mem_frozens)

def blocksOf (cells : Table Cell) : List Block := cells.values.map fun c => c.storage.block

section Cells

variable {cells : Table Cell} {id : CellId} {c : Cell}

theorem blocksOf_perm (h : cells.Sorted) (found : cells.get? id = some c) :
    (blocksOf cells).Perm (c.storage.block :: blocksOf (cells.erase id)) :=
  (Table.values_perm_of_get? h found).map _

theorem blocksOf_insert_perm (h : cells.Sorted) (id : CellId) (c : Cell) :
    (blocksOf (cells.insert id c)).Perm (c.storage.block :: blocksOf (cells.erase id)) :=
  (Table.values_insert_perm h id c).map _

theorem blocksOf_recount (h : cells.Sorted) (found : cells.get? id = some c) (holders : Nat) :
    (blocksOf (cells.insert id { c with holders })).Perm (blocksOf cells) :=
  (blocksOf_insert_perm h id _).trans (blocksOf_perm h found).symm

end Cells

namespace Store

/-- The holdings account for all that the store has given out. -/
structure Owns (s : Store) (l : List Holding) : Prop where
  holds : s.Holds (frozens l)
  sorted : s.cells.Sorted
  sound : ∀ w, .writable w ∈ l → w.Sound
  roomy : ∀ x ∈ l, x.Roomy s
  lends : s.allocators.Lends (handles l) (blocksOf s.cells ++ loose l)

variable {s t : Store} {l r : List Holding} {f : Frozen} {w : Writable} {a : Allocator}
  {n : Allocators}

theorem Keeps.of_append (h : s.Keeps t (frozens (l ++ r))) : s.Keeps t (frozens r) :=
  fun f member => h f (by
    rw [Holding.frozens_append]
    exact List.mem_append_right _ member)

theorem owns_nil (system : System) : Owns { allocators := { system } } [] :=
  ⟨holds_nil _, .nil, fun _ member => absurd member List.not_mem_nil,
    fun _ member => absurd member List.not_mem_nil, Allocators.lends_nil system⟩

theorem Owns.perm (h : s.Owns l) (p : l.Perm r) : s.Owns r where
  holds := h.holds.perm (p.filterMap _)
  sorted := h.sorted
  sound w member := h.sound w (p.mem_iff.2 member)
  roomy x member := h.roomy x (p.mem_iff.2 member)
  lends := h.lends.perm (p.filterMap _) ((p.flatMap_right _).append_left _)

theorem Owns.front {x : Holding} (h : s.Owns l) (live : x ∈ l) : ∃ rest, s.Owns (x :: rest) := by
  obtain ⟨front, back, rfl⟩ := List.append_of_mem live
  exact ⟨front ++ back, h.perm List.perm_middle⟩

theorem Owns.frozen (h : s.Owns (.frozen f :: l)) : s.Holds (f :: frozens l) := h.holds

theorem Owns.beside (h : s.Owns (.writable w :: l)) : s.Holds (frozens l) := h.holds

theorem Owns.alive (h : s.Owns l) (member : .handle a ∈ l) : s.allocators.Alive a :=
  h.lends.handled a (List.mem_filterMap.2 ⟨_, member, rfl⟩)

theorem Owns.alive_named (h : s.Owns l) {pools : List Allocator}
    (named : ∀ a ∈ pools, .handle a ∈ l) (pool : Option Nat) :
    s.allocators.Alive ((pool.bind (pools[·]?)).getD .shared) := by
  cases there : pool.bind (pools[·]?) with
  | none => trivial
  | some a =>
    obtain ⟨i, -, found⟩ := Option.bind_eq_some_iff.1 there
    exact h.alive (named a (List.mem_of_getElem? found))

/-- Everything but the allocators stays. -/
theorem Owns.withAllocators (h : s.Owns l) (frozen : frozens r = frozens l)
    (sound : ∀ w, .writable w ∈ r → w.Sound) (roomy : ∀ x ∈ r, x.Roomy s)
    (lends : n.Lends (handles r) (blocksOf s.cells ++ loose r)) :
    Owns { s with allocators := n } r :=
  ⟨frozen ▸ (h.holds.congr (t := { s with allocators := n }) rfl rfl).1, h.sorted, sound,
    fun x member => (roomy x member).congr rfl, lends⟩

theorem Owns.sound_cons (h : s.Owns l) (sound : w.Sound) :
    ∀ v, Holding.writable v ∈ Holding.writable w :: l → v.Sound := by
  intro v member
  obtain same | member := List.mem_cons.1 member
  · cases same
    exact sound
  · exact h.sound v member

theorem Owns.sound_tail {x : Holding} (h : s.Owns (x :: l)) : ∀ v, .writable v ∈ l → v.Sound :=
  fun v member => h.sound v (List.mem_cons_of_mem _ member)

theorem Owns.roomy_cons {x : Holding} (h : s.Owns l) (roomy : x.Roomy s) :
    ∀ y ∈ x :: l, y.Roomy s := List.forall_mem_cons.2 ⟨roomy, h.roomy⟩

theorem Owns.roomy_tail {x : Holding} (h : s.Owns (x :: l)) : ∀ y ∈ l, y.Roomy s :=
  fun y member => h.roomy y (List.mem_cons_of_mem _ member)

theorem Owns.roomy_frozen (h : s.Owns (.frozen f :: l)) : s.Roomy f := h.roomy _ List.mem_cons_self

theorem roomy_kept (roomy : ∀ x ∈ l, x.Roomy s)
    (kept : ∀ g, .frozen g ∈ l → s.Roomy g → t.Roomy g) : ∀ x ∈ l, x.Roomy t := by
  intro x member
  have before := roomy x member
  cases x with
  | handle a | writable w => exact before
  | frozen g => exact kept g member before

theorem lends_loose {x : Holding} {blocks : List Block}
    (h : n.Lends (handles (x :: l)) (x.held ++ (blocks ++ loose l))) :
    n.Lends (handles (x :: l)) (blocks ++ loose (x :: l)) :=
  h.perm (.refl _) (List.perm_append_comm_assoc _ _ _)

theorem Owns.lends_head {x : Holding} (h : s.Owns (x :: l)) :
    s.allocators.Lends (handles (x :: l)) (x.held ++ (blocksOf s.cells ++ loose l)) :=
  h.lends.perm (.refl _) (List.perm_append_comm_assoc _ _ _)

theorem Owns.retain (h : s.Owns l) (alive : s.allocators.Alive a) :
    (s.retain a).Owns (.handle a :: l) :=
  h.withAllocators (r := .handle a :: l) rfl
    (fun v member => h.sound v ((List.mem_cons.1 member).resolve_left (by simp)))
    (h.roomy_cons trivial) (h.lends.retain alive)

theorem Owns.handed {change : Change Allocators Allocator} (h : s.Owns l)
    (lends : match change s.allocators with
      | .ok a m => m.Lends (a :: handles l) (blocksOf s.cells ++ loose l)
      | .error _ m => m.Lends (handles l) (blocksOf s.cells ++ loose l)) :
    match change s.allocators with
    | .ok a m => Owns { s with allocators := m } (.handle a :: l)
    | .error _ m => Owns { s with allocators := m } l := by
  cases run : change s.allocators with
  | error e m =>
    rw [run] at lends
    exact h.withAllocators rfl h.sound h.roomy lends
  | ok a m =>
    rw [run] at lends
    exact h.withAllocators (r := .handle a :: l) rfl
      (fun v member => h.sound v ((List.mem_cons.1 member).resolve_left (by simp)))
      (h.roomy_cons trivial) lends

theorem Owns.build (h : s.Owns l) (registry : RegistryId) (config : PoolConfig)
    (elementSize : Nat) :
    match Allocators.build registry config elementSize s.allocators with
    | .ok a m => Owns { s with allocators := m } (.handle a :: l)
    | .error _ m => Owns { s with allocators := m } l :=
  h.handed (h.lends.build registry config elementSize)

theorem Owns.letGo (h : s.Owns (.handle a :: l)) : (s.letGo a).Owns l :=
  h.withAllocators rfl h.sound_tail h.roomy_tail h.lends.letGo

theorem Owns.emptyWritable (h : s.Owns l) (alive : s.allocators.Alive a) (k : Kind) :
    (s.emptyWritable k a).2.Owns (.writable (s.emptyWritable k a).1 :: l) :=
  h.withAllocators (r := .writable (s.emptyWritable k a).1 :: l) rfl
    (h.sound_cons (Writable.empty_sound k a s.allocators))
    (h.roomy_cons (Writable.empty_roomy k a s.allocators)) (h.lends.retain alive)

theorem Owns.rewrite {v : Writable} (h : s.Owns (.writable w :: l)) (sound : v.Sound)
    (roomy : v.Roomy) (handle : v.allocator = w.allocator) (held : v.held = w.held) :
    s.Owns (.writable v :: l) := by
  have handles : handles (.writable w :: l) = handles (.writable v :: l) :=
    congrArg (· :: Holding.handles l) handle.symm
  have loose : loose (.writable w :: l) = loose (.writable v :: l) :=
    congrArg (· ++ Holding.loose l) held.symm
  refine ⟨h.beside, h.sorted, fun x member => ?_,
    List.forall_mem_cons.2 ⟨roomy, h.roomy_tail⟩, handles ▸ loose ▸ h.lends⟩
  obtain same | member := List.mem_cons.1 member
  · cases same
    exact sound
  · exact h.sound_tail x member

theorem Owns.dropWritable (h : s.Owns (.writable w :: l)) : (s.dropWritable w).Owns l :=
  h.withAllocators rfl h.sound_tail h.roomy_tail (Writable.drop_lends h.lends_head)

theorem Owns.onAllocators (h : s.Owns l) (change : Change Allocators Writable)
    (sound : ∀ w n, change s.allocators = .ok w n → w.Sound)
    (roomy : ∀ w n, change s.allocators = .ok w n → w.Roomy)
    (lends : match change s.allocators with
      | .ok w n => n.Lends (w.allocator :: handles l) (w.held ++ (blocksOf s.cells ++ loose l))
      | .error _ n => n.Lends (handles l) (blocksOf s.cells ++ loose l)) :
    match Store.onAllocators change s with
    | .ok w t => t.Owns (.writable w :: l)
    | .error _ t => t.Owns l := by
  simp only [Store.onAllocators]
  cases run : change s.allocators with
  | error e n =>
    rw [run] at lends
    exact h.withAllocators rfl h.sound h.roomy lends
  | ok w n =>
    rw [run] at lends
    exact h.withAllocators (r := .writable w :: l) rfl (h.sound_cons (sound w n run))
      (h.roomy_cons (roomy w n run)) (lends_loose lends)

theorem Owns.onWritable {α : Type} {change : Change (Writable × Allocators) α}
    (h : s.Owns (.writable w :: l))
    (settled : Writable.Settled (handles (.writable w :: l)) (blocksOf s.cells ++ loose l) w
      (Outcome.state (change (w, s.allocators)))) :
    let t := Outcome.state (Store.onWritable change (w, s))
    t.2.Owns (.writable t.1 :: l) ∧ t.2.cells = s.cells ∧ t.2.made = s.made := by
  obtain ⟨sound, roomy, -, handle, lends⟩ := settled
  have roomy := roomy (h.roomy _ List.mem_cons_self)
  simp only [Store.onWritable]
  cases run : change (w, s.allocators) with
  | ok x u | error e u =>
    obtain ⟨v, n⟩ := u
    rw [run] at sound roomy handle lends
    refine ⟨?_, rfl, rfl⟩
    simp only [Outcome.state_ok, Outcome.state_error] at sound roomy handle lends ⊢
    have handled : handles (.writable w :: l) = handles (.writable v :: l) :=
      congrArg (· :: handles l) handle.symm
    rw [handled] at lends
    exact h.withAllocators (r := .writable v :: l) rfl (fun x member =>
      (List.mem_cons.1 member).elim (fun same => by cases same; exact sound) (h.sound_tail x))
      (List.forall_mem_cons.2 ⟨roomy, h.roomy_tail⟩) (lends_loose lends)

theorem Owns.freeze (h : s.Owns (.writable w :: l)) :
    (s.freeze w).2.Owns (.frozen (s.freeze w).1 :: l) := by
  have sound := h.sound w List.mem_cons_self
  have holds := (h.beside.freeze sound).1
  have lends := h.lends_head
  have absent : s.cells.get? s.made = none := h.holds.fresh _ (Nat.le_refl _)
  have sound' : ∀ (f : Frozen) v, .writable v ∈ Holding.frozen f :: l → v.Sound := fun f v member =>
    h.sound_tail v ((List.mem_cons.1 member).resolve_left (by simp))
  have roomy : ∀ x ∈ Holding.frozen (s.freeze w).1 :: l, x.Roomy (s.freeze w).2 :=
    List.forall_mem_cons.2 ⟨freeze_roomy (h.roomy _ List.mem_cons_self) s,
      roomy_kept h.roomy_tail fun g member kept => kept.freeze h.beside (mem_frozens.2 member) w⟩
  cases stored : w.storage with
  | none =>
    have lends : s.allocators.Lends (w.allocator :: handles l)
        (w.held ++ (blocksOf s.cells ++ loose l)) := lends
    rw [Writable.held_of_none stored] at lends
    simp only [Store.freeze, stored] at holds roomy ⊢
    exact ⟨holds, h.sorted, sound' _, roomy, lends.letGo⟩
  | some storage =>
    have lends : s.allocators.Lends (w.allocator :: handles l)
        (w.held ++ (blocksOf s.cells ++ loose l)) := lends
    have blocks := blocksOf_insert_perm h.sorted s.made ⟨storage, 1⟩
    rw [Table.erase_of_get?_eq_none absent] at blocks
    rw [Writable.held_of_storage stored] at lends
    simp only [Store.freeze, stored] at holds roomy ⊢
    exact ⟨holds, Table.insert_sorted h.sorted _ _, sound' _, roomy,
      lends.letGo.perm (.refl _) (blocks.append_right _).symm⟩

/-- The cell of a live frozen vector, and its block among those that are out. -/
theorem Owns.cell {id : CellId} (h : s.Owns (.frozen f :: l)) (refers : f.cell = some id) :
    ∃ c, s.cells.get? id = some c ∧ f.offset + f.length ≤ c.storage.items.size ∧
      c.holders = references (frozens l) id + 1 :=
  h.frozen.cell refers

theorem Owns.clone (h : s.Owns (.frozen f :: l)) :
    (s.clone f).Owns (.frozen f :: .frozen f :: l) := by
  have holds := h.frozen.clone.1
  have sound : ∀ v, .writable v ∈ Holding.frozen f :: .frozen f :: l → v.Sound := fun v member =>
    h.sound v ((List.mem_cons.1 member).resolve_left (by simp))
  have roomy : ∀ x ∈ Holding.frozen f :: .frozen f :: l, x.Roomy (s.clone f) :=
    List.forall_mem_cons.2 ⟨h.roomy_frozen.clone f, roomy_kept h.roomy fun _ _ kept => kept.clone f⟩
  cases refers : f.cell with
  | none =>
    have same : s.clone f = s := by simp [Store.clone, refers]
    rw [same] at holds roomy ⊢
    exact ⟨holds, h.sorted, sound, roomy, h.lends⟩
  | some id =>
    obtain ⟨c, found, -⟩ := h.cell refers
    have cells : (s.clone f).cells = s.cells.insert id { c with holders := c.holders + 1 } := by
      simp only [Store.clone, refers, Table.modify_of_get? h.sorted found]
    have allocators : (s.clone f).allocators = s.allocators := by simp only [Store.clone, refers]
    refine ⟨holds, cells ▸ Table.insert_sorted h.sorted id _, sound, roomy, ?_⟩
    rw [cells, allocators]
    exact h.lends.perm (.refl _) ((blocksOf_recount h.sorted found _).symm.append_right _)

theorem Owns.clone_live (h : s.Owns l) (live : .frozen f ∈ l) :
    (s.clone f).Owns (.frozen f :: l) ∧ s.Keeps (s.clone f) (frozens l) := by
  obtain ⟨front, back, rfl⟩ := List.append_of_mem live
  have start := h.perm List.perm_middle
  have kept := start.frozen.clone.2
  exact ⟨start.clone.perm (List.perm_middle.symm.cons _), fun g member => kept g
    ((List.perm_middle.filterMap _).mem_iff.1 member)⟩

theorem Owns.bare (h : s.Owns l) (k : Kind) : s.Owns (.frozen (.empty k) :: l) :=
  ⟨h.holds.cons_bare (f := .empty k) rfl rfl, h.sorted, fun v member =>
    h.sound v ((List.mem_cons.1 member).resolve_left (by simp)), h.roomy_cons (roomy_none rfl),
    h.lends⟩

theorem Owns.drop (h : s.Owns (.frozen f :: l)) : (s.drop f).Owns l := by
  have holds := h.frozen.drop.1
  have roomy : ∀ x ∈ l, x.Roomy (s.drop f) := roomy_kept h.roomy_tail fun _ _ kept => kept.drop f
  cases refers : f.cell with
  | none =>
    have same : s.drop f = s := by simp [Store.drop, refers]
    rw [same] at holds ⊢
    exact ⟨holds, h.sorted, h.sound_tail, h.roomy_tail, h.lends⟩
  | some id =>
    obtain ⟨c, found, -⟩ := h.cell refers
    by_cases last : c.holders ≤ 1
    · have dropped : s.drop f = { s with
          allocators := (s.allocators.release c.storage.block).1
          cells := s.cells.erase id } := by
        simp only [Store.drop, refers, found, if_pos last]
      rw [dropped] at holds roomy ⊢
      exact ⟨holds, Table.erase_sorted h.sorted id, h.sound_tail, roomy,
        (h.lends.perm (.refl _) ((blocksOf_perm h.sorted found).append_right _)).release⟩
    · have dropped : s.drop f = { s with
          cells := s.cells.insert id { c with holders := c.holders - 1 } } := by
        simp only [Store.drop, refers, found, if_neg last]
      rw [dropped] at holds roomy ⊢
      exact ⟨holds, Table.insert_sorted h.sorted id _, h.sound_tail, roomy,
        h.lends.perm (.refl _) ((blocksOf_recount h.sorted found _).symm.append_right _)⟩

theorem Owns.slice (h : s.Owns (.frozen f :: l)) (skip count : Nat) :
    s.Owns (.frozen (f.slice skip count) :: l) :=
  ⟨(h.frozen.slice skip count).1, h.sorted, fun v member =>
    h.sound_tail v ((List.mem_cons.1 member).resolve_left (by simp)),
    List.forall_mem_cons.2 ⟨h.roomy_frozen, h.roomy_tail⟩, h.lends⟩

theorem Owns.housed {id : CellId} {c : Cell} (h : s.Owns l) (found : s.cells.get? id = some c) :
    s.allocators.Alive c.storage.block.owner :=
  h.lends.housed _ (List.mem_append_left _
    ((blocksOf_perm h.sorted found).mem_iff.2 List.mem_cons_self))

theorem Owns.copyOut {id : CellId} {c : Cell} (h : s.Owns l) (found : s.cells.get? id = some c)
    (fits : f.offset + f.length ≤ c.storage.items.size) :
    match Store.copyOut f c s with
    | .ok w t => t.Owns (.writable w :: l)
    | .error _ t => t.Owns l := by
  have spec := copyOut_spec (s := s) fits
  unfold Store.copyOut at spec ⊢
  by_cases nothing : f.length = 0
  · simp only [if_pos nothing]
    exact h.emptyWritable (h.housed found) f.kind
  · have allocated := Storage.allocate_lends h.lends c.storage.block.owner f.kind f.length false
    simp only [if_neg nothing, Store.onAllocators] at spec ⊢
    cases run : Storage.allocate c.storage.block.owner f.kind f.length false s.allocators with
    | error e n =>
      rw [run] at allocated
      exact h.withAllocators rfl h.sound h.roomy allocated
    | ok storage n =>
      rw [run] at allocated spec
      let copy : Storage := { storage with items := (c.storage.view f.offset f.length).toArray }
      have size : copy.items.size = f.length := Storage.length_view fits
      have room : copy.Fits f.kind :=
        (Storage.allocate_fits h.lends run).withItems
          (Nat.le_trans (Nat.le_of_eq size) allocated.2.2)
      exact h.withAllocators (r := .writable (Writable.ofStorage f.kind copy 0 f.length n).1 :: l)
        rfl (h.sound_cons spec.1) (h.roomy_cons (Writable.ofStorage_roomy room 0 f.length n))
        (lends_loose (Writable.ofStorage_lends (s := copy) allocated.1 f.kind 0 f.length))

/-- Thawing takes the storage over, or leaves one reference less on it. -/
theorem Owns.thaw {fallback : Allocator} (h : s.Owns (.frozen f :: l))
    (alive : s.allocators.Alive fallback) :
    match Store.thaw f fallback s with
    | .ok w t => t.Owns (.writable w :: l)
    | .error _ t => t.Owns l := by
  have thawed := h.frozen.thaw fallback
  cases refers : f.cell with
  | none =>
    have bare : s.Owns l :=
      ⟨h.frozen.tail refers, h.sorted, h.sound_tail, h.roomy_tail, h.lends⟩
    simp only [Store.thaw, refers, Option.bind_none]
    exact bare.emptyWritable alive f.kind
  | some id =>
    obtain ⟨c, found, fits, count⟩ := h.cell refers
    simp only [Store.thaw, refers, Option.bind_some, found, Option.map_some] at thawed ⊢
    by_cases sole : c.holders = 1
    · simp only [if_pos sole] at thawed ⊢
      obtain ⟨holds, -, sound, -⟩ := thawed
      have blocks := (blocksOf_perm h.sorted found).append_right (loose l)
      have room : c.storage.Fits f.kind := h.roomy_frozen _ (by
        rw [storage?_some refers, found]
        rfl)
      exact ⟨holds, Table.erase_sorted h.sorted id, fun v member =>
        (List.mem_cons.1 member).elim (fun same => by cases same; exact sound) (h.sound_tail v),
        List.forall_mem_cons.2 ⟨Writable.ofStorage_roomy room f.offset f.length _,
          roomy_kept h.roomy_tail fun _ _ kept => kept.erase rfl⟩,
        lends_loose (Writable.ofStorage_lends (h.lends.perm (.refl _) blocks) f.kind f.offset
          f.length)⟩
    · have copied := h.copyOut found fits
      simp only [if_neg sole]
      cases made : Store.copyOut f c s with
      | error e t =>
        rw [made] at copied
        exact copied.drop
      | ok w t =>
        rw [made] at copied
        exact (copied.perm (.swap ..)).drop

theorem Owns.ofList (h : s.Owns l) (alive : s.allocators.Alive a) (k : Kind)
    (values : List Scalar) :
    match Store.ofList k a values s with
    | .ok f t => t.Owns (.frozen f :: l)
    | .error _ t => t.Owns l := by
  have made := h.onAllocators (Writable.ofList k a values)
    (fun w n run => (Writable.ofList_ok run).1) (fun w n run => Writable.ofList_roomy h.lends run)
    (Writable.ofList_lends h.lends alive k values)
  simp only [Store.ofList]
  cases run : Store.onAllocators (Writable.ofList k a values) s with
  | error e t =>
    rw [run] at made
    exact made
  | ok w t =>
    rw [run] at made
    exact made.freeze

theorem Owns.length_values (h : s.Owns l) (live : .frozen f ∈ l) :
    (s.values f).length = f.length := by
  have view := h.holds.viewed f (Holding.mem_frozens.2 live)
  unfold Views at view
  cases refers : f.cell with
  | none =>
    simp only [refers] at view
    rw [values_none refers, view, List.length_nil]
  | some id =>
    simp only [refers] at view
    obtain ⟨c, found, fits⟩ := view
    rw [values_some refers found, Storage.length_view fits]

theorem Owns.mem_blocks (h : s.Owns l) {b : Block} :
    b ∈ l.filterMap (Holding.block? s) ↔ b ∈ blocksOf s.cells ++ loose l := by
  rw [List.mem_filterMap, List.mem_append]
  constructor
  · rintro ⟨x, member, same⟩
    cases x with
    | handle a => cases same
    | writable w =>
      refine .inr (List.mem_flatMap.2 ⟨_, member, ?_⟩)
      simp only [Holding.block?] at same
      simp [Holding.held, Writable.held, same]
    | frozen f =>
      simp only [Holding.block?, storage?, cell?, Option.map_eq_some_iff, Option.bind_eq_some_iff]
        at same
      obtain ⟨-, ⟨c, ⟨id, -, found⟩, rfl⟩, rfl⟩ := same
      exact .inl ((blocksOf_perm h.sorted found).mem_iff.2 List.mem_cons_self)
  · rintro (stored | bare)
    -- A cell is counted, so some frozen vector refers to it.
    · obtain ⟨c, there, rfl⟩ := List.mem_map.1 stored
      obtain ⟨id, found⟩ := (Table.mem_values_iff h.sorted).1 there
      obtain ⟨count, positive⟩ := h.holds.counted id c found
      obtain ⟨f, live, refers⟩ := List.countP_pos_iff.1 (count ▸ positive)
      refine ⟨.frozen f, mem_frozens.1 live, ?_⟩
      simp only [Holding.block?, storage?, cell?, of_decide_eq_true refers, Option.bind_some, found,
        Option.map_some]
    · obtain ⟨x, member, there⟩ := List.mem_flatMap.1 bare
      cases x with
      | writable w => exact ⟨_, member, Option.mem_toList.1 there⟩
      | handle a | frozen f => cases there

theorem Owns.distinct (h : s.Owns l) : ((blocksOf s.cells ++ loose l).map Block.id).Nodup :=
  (List.nodup_append.1 h.lends.numbered.1).2.1

theorem Owns.referred_perm (h : s.Owns l) (id : Nat) :
    (Holding.blocksOf s l id).Perm
      (((blocksOf s.cells ++ loose l).filter (Block.isOf id)).map Block.id) := by
  refine (List.perm_ext_iff_of_nodup (List.nodup_dedup _)
    (h.distinct.sublist (List.filter_sublist.map _))).2 fun i => ?_
  simp only [List.mem_dedup, List.mem_map, List.mem_filter, h.mem_blocks]

theorem Owns.numAllocs (h : s.Owns l) (id : Nat) :
    (s.allocators.snapshot (.pool id)).numAllocs = (Holding.blocksOf s l id).length := by
  rw [h.lends.numAllocs, (h.referred_perm id).length_eq, List.length_map,
    ← List.countP_eq_length_filter]

theorem Owns.spares {id : Nat} {t : Tenant} (h : s.Owns l)
    (found : s.allocators.pools.get? id = some t) :
    (t.pool.spares ++ Holding.blocksOf s l id).Nodup :=
  (((h.referred_perm id).append_left _).nodup_iff).2 (h.lends.distinct found)

theorem Owns.same_cell {i j : CellId} {c d : Cell} (h : s.Owns l)
    (found : s.cells.get? i = some c) (found' : s.cells.get? j = some d)
    (same : c.storage.block.id = d.storage.block.id) : i = j := by
  refine Decidable.byContradiction fun apart => ?_
  have distinct : ((blocksOf s.cells).map Block.id).Nodup :=
    h.distinct.sublist ((List.sublist_append_left _ _).map _)
  have there : (s.cells.erase i).get? j = some d := by
    rw [Table.get?_erase, if_neg (Ne.symm apart), found']
  have member : d.storage.block.id ∈ (blocksOf (s.cells.erase i)).map Block.id :=
    List.mem_map_of_mem ((blocksOf_perm (Table.erase_sorted h.sorted i) there).mem_iff.2
      List.mem_cons_self)
  have once := ((blocksOf_perm h.sorted found).map Block.id).nodup distinct
  exact (List.nodup_cons.1 once).1 (same ▸ member)

theorem Owns.on_block (h : s.Owns l) (live : f ∈ frozens l) (refers : f.cell.isSome = true) :
    ∃ b, (Holding.frozen f).block? s = some b := by
  obtain ⟨id, named⟩ := Option.isSome_iff_exists.1 refers
  have view := h.holds.viewed f live
  simp only [Views, named] at view
  obtain ⟨c, found, -⟩ := view
  exact ⟨c.storage.block, by
    simp only [Holding.block?, storage?, cell?, named, Option.bind_some, found, Option.map_some]⟩

/-- The count of a frozen vector is the number of frozen vectors on its block. -/
theorem Owns.holders {b : Block} (h : s.Owns l) (on : (Holding.frozen f).block? s = some b) :
    s.holders f = (frozens l).countP fun g =>
      ((Holding.frozen g).block? s).map Block.id = some b.id := by
  simp only [Holding.block?, storage?, cell?, Option.map_eq_some_iff, Option.bind_eq_some_iff] at on
  obtain ⟨-, ⟨c, ⟨id, refers, found⟩, rfl⟩, rfl⟩ := on
  have count : s.holders f = references (frozens l) id := by
    simp only [Store.holders, cell?, refers, Option.bind_some, found, Option.elim_some,
      (h.holds.counted id c found).1]
  rw [count, references]
  refine List.countP_congr fun g _ => ?_
  rw [decide_eq_true_iff, decide_eq_true_iff]
  simp only [Holding.block?, storage?, cell?]
  constructor
  · intro same
    simp only [same, Option.bind_some, found, Option.map_some]
  · intro same
    simp only [Option.map_eq_some_iff, Option.bind_eq_some_iff] at same
    obtain ⟨-, ⟨-, ⟨d, ⟨j, refers', found'⟩, rfl⟩, rfl⟩, same⟩ := same
    rw [refers', h.same_cell found' found same]

end Store

end ArrayStore
