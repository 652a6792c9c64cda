import ArrayStore.Proofs.Vector.Sights
import ArrayStore.Value.Basic

/-! Changes of an array value, beside whatever else refers to the store.
A value holds a handle on its allocator and a frozen vector. Main statement: a
change of the content, in place or on a copy, either succeeds, and then no other
vector shows anything new, or fails, and then nothing can be told from before. -/

namespace ArrayStore

open Holding (frozens)

namespace Writable

/-- A change of a writable vector that keeps the books right, that makes of the vector what is
said of it, and that leaves the vector as it was where it fails. -/
def Makes (made : Writable → Writable → Prop) (change : Change (Writable × Allocators) Unit) :
    Prop :=
  ∀ handles out w m, w.Sound → m.Lends handles (w.held ++ out) →
    Settled handles out w (Outcome.state (change (w, m))) ∧
      match change (w, m) with
      | .ok () t => made w t.1
      | .error _ t => t.1 = w

theorem reserve_makes (capacity : Nat) :
    Makes (fun w v => v.values = w.values ∧ capacity ≤ v.capacity) (reserve capacity) := by
  intro handles out w m sound lends
  obtain ⟨settled, room⟩ := reserve_settled lends sound capacity
  refine ⟨settled, ?_⟩
  cases run : reserve capacity (w, m) with
  | error e t => exact reserve_error run
  | ok _ t => exact ⟨(reserve_ok sound run).2.1, room t run⟩

theorem resize_makes (length : Nat) :
    Makes (fun w v => v.values =
        w.values.take length ++ List.replicate (length - w.length) w.kind.blank)
      (resize length) := by
  intro handles out w m sound lends
  refine ⟨resize_settled lends sound length, ?_⟩
  cases run : resize length (w, m) with
  | error e t => exact resize_error run
  | ok _ t => exact (resize_ok sound run).2.2

end Writable

namespace Store

variable {s : Store} {l : List Holding} {f : Frozen}

theorem Owns.onMakes {made : Writable → Writable → Prop}
    {change : Change (Writable × Allocators) Unit} {w : Writable}
    (makes : Writable.Makes made change) (h : s.Owns (.writable w :: l)) :
    match Store.onWritable change (w, s) with
    | .ok () (v, t) =>
      t.Owns (.writable v :: l) ∧ t.cells = s.cells ∧ v.kind = w.kind ∧ made w v
    | .error _ (v, t) => t.Owns (.writable w :: l) ∧ t.cells = s.cells ∧ v = w := by
  obtain ⟨settled, outcome⟩ := makes _ _ w _ (h.sound w List.mem_cons_self) h.lends_head
  have kind := settled.kind_eq
  have owns := h.onWritable settled
  simp only [Store.onWritable] at owns ⊢
  cases run : change (w, s.allocators) with
  | ok _ u =>
    obtain ⟨v, n⟩ := u
    rw [run] at outcome owns kind
    exact ⟨owns.1, owns.2.1, kind, outcome⟩
  | error e u =>
    obtain ⟨v, n⟩ := u
    rw [run] at outcome owns
    have same : v = w := outcome
    subst same
    exact ⟨owns.1, owns.2.1, rfl⟩

end Store

namespace FieldValue

def holdings (v : FieldValue) : List Holding := [.handle v.allocator, .frozen v.value]

/-- A value after an operation: it shows the given elements, nothing but its content has changed,
and the other vectors show what they did. -/
structure Renewed (v : FieldValue) (w : World) (l : List Holding) (shown : List Scalar)
    (v' : FieldValue) (w' : World) : Prop where
  value_eq : v' = { v with value := v'.value }
  kind_eq : v'.value.kind = v.value.kind
  owns : w'.store.Owns (v'.holdings ++ l)
  keeps : w.store.Keeps w'.store (frozens l)
  values_eq : v'.values w' = shown

/-- A value after an operation that has failed: neither it nor anything else looks different. -/
structure Untouched (v : FieldValue) (w : World) (l : List Holding) (v' : FieldValue) (w' : World) :
    Prop extends Renewed v w l (v.values w) v' w' where
  world_eq : w' = { w with store := w'.store }
  length_eq : v'.length = v.length
  sight_eq : w'.store.sight v'.value = w.store.sight v.value
  alike : w.store.Alike w'.store (frozens l)
  blocks : (blocksOf w'.store.cells).Perm (blocksOf w.store.cells)

variable {v : FieldValue} {w : World} {l : List Holding}

theorem holdings_perm (v : FieldValue) (l : List Holding) :
    (v.holdings ++ l).Perm (.frozen v.value :: .handle v.allocator :: l) := .swap ..

theorem untouched_of_cells {w' : World} (h : w'.store.Owns (v.holdings ++ l))
    (world : w' = { w with store := w'.store }) (cells : w'.store.cells = w.store.cells) :
    Untouched v w l v w' where
  value_eq := rfl
  kind_eq := rfl
  owns := h
  keeps := (Store.alike_of_cells cells _).keeps
  values_eq := (Store.alike_of_cells cells [v.value]).keeps _ List.mem_cons_self
  world_eq := world
  length_eq := rfl
  sight_eq := Store.alike_of_cells cells [v.value] _ List.mem_cons_self
  alike := Store.alike_of_cells cells _
  blocks := cells ▸ .refl _

theorem Untouched.refl (h : w.store.Owns (v.holdings ++ l)) : Untouched v w l v w :=
  untouched_of_cells h rfl rfl

def Makes (made : Writable → Writable → Prop) (v : FieldValue) (w : World) (l : List Holding) :
    Outcome (FieldValue × World) Unit → Prop
  | .ok () (v', w') =>
    ∃ u u' : Writable, u.Sound ∧ u.kind = v.value.kind ∧ u.values = v.values w ∧ made u u' ∧
      v'.capacity w' = u'.capacity ∧ Renewed v w l u'.values v' w'
  | .error _ (v', w') => Untouched v w l v' w'

variable {made : Writable → Writable → Prop} {change : Change (Writable × Allocators) Unit}

theorem modify_sole (h : w.store.Owns (v.holdings ++ l)) (makes : Writable.Makes made change)
    (sole : w.store.unique v.value = true) : Makes made v w l (modify change (v, w)) := by
  have start := h.perm (v.holdings_perm l)
  have alive := start.alive (a := v.allocator) (by simp)
  obtain ⟨u, t, run, sight, length, alike, blocks⟩ := start.thaw_sole sole v.allocator
  have owns := start.thaw alive
  have thawed := start.frozen.thaw v.allocator
  rw [run] at owns thawed
  obtain ⟨-, -, sound, kind, values⟩ := thawed
  have changed := owns.onMakes makes
  simp only [modify, sole, if_true, run]
  cases step : Store.onWritable change (u, t) with
  | ok _ p =>
    obtain ⟨u', t'⟩ := p
    rw [step] at changed
    obtain ⟨owns', cells, kind', made'⟩ := changed
    have shown := Store.sight_freeze t' u'
    have alike' := (Store.alike_of_cells cells _).trans (owns'.beside.freeze_alike u')
    exact ⟨u, u', sound, kind, values, made', congrArg Sight.capacity shown, rfl,
      (Store.kind_freeze t' u').trans (kind'.trans kind),
      owns'.freeze.perm (holdings_perm { v with value := (t'.freeze u').1 } l).symm,
      (alike.trans alike').keeps, congrArg Sight.values shown⟩
  | error e p =>
    obtain ⟨u', t'⟩ := p
    rw [step] at changed
    obtain ⟨owns', cells, rfl⟩ := changed
    have shown := (Store.sight_freeze t' u').trans sight
    have alike' := alike.trans ((Store.alike_of_cells cells _).trans (owns'.beside.freeze_alike u'))
    have same := Store.length_freeze t' u'
    exact ⟨⟨rfl, (Store.kind_freeze t' u').trans kind,
      owns'.freeze.perm (holdings_perm { v with value := (t'.freeze u').1 } l).symm,
      alike'.keeps, congrArg Sight.values shown⟩, rfl, same.trans length, shown, alike',
      (owns'.blocksOf_freeze u').trans (cells ▸ blocks)⟩

theorem modify_shared (h : w.store.Owns (v.holdings ++ l)) (makes : Writable.Makes made change)
    (shared : w.store.unique v.value = false) : Makes made v w l (modify change (v, w)) := by
  have start := h.perm (v.holdings_perm l)
  have copied := start.clone
  have kept := start.frozen.clone.2
  have alive : (w.store.clone v.value).allocators.Alive v.allocator := copied.alive (by simp)
  have cells := start.thaw_clone shared v.allocator
  have owns := copied.thaw alive
  have thawed := copied.frozen.thaw v.allocator
  simp only [modify, shared, Bool.false_eq_true, if_false]
  cases run : Store.thaw v.value v.allocator (w.store.clone v.value) with
  | error e t =>
    rw [run] at cells owns
    exact untouched_of_cells (owns.perm (v.holdings_perm l).symm) rfl cells
  | ok u t =>
    rw [run] at cells owns thawed
    obtain ⟨-, -, sound, kind, values⟩ := thawed
    have changed := owns.onMakes makes
    simp only [Outcome.state_ok] at cells
    simp only
    cases step : Store.onWritable change (u, t) with
    | ok _ p =>
      obtain ⟨u', t'⟩ := p
      rw [step] at changed
      obtain ⟨owns', cells', kind', made'⟩ := changed
      have shown := Store.sight_freeze t' u'
      have live := owns'.freeze.perm (.swap ..)
      have alike := (Store.alike_of_cells (cells'.trans cells) _).trans
        (owns'.beside.freeze_alike u')
      have dropped := live.frozen.drop.2
      -- The new content lies in a cell of its own, so dropping the old one does not touch it.
      have apart : ∀ id, (t'.freeze u').1.cell = some id → v.value.cell ≠ some id :=
        fun id => owns'.holds.cell_freeze List.mem_cons_self
      have shown' := (Store.sight_drop apart).trans shown
      exact ⟨u, u', sound, kind, values.trans (kept _ List.mem_cons_self), made',
        congrArg Sight.capacity shown', rfl, (Store.kind_freeze t' u').trans (kind'.trans kind),
        live.drop.perm (holdings_perm { v with value := (t'.freeze u').1 } l).symm,
        fun g member => (dropped g (List.mem_cons_of_mem _ member)).trans
          (alike.keeps g (List.mem_cons_of_mem _ member)), congrArg Sight.values shown'⟩
    | error e p =>
      obtain ⟨u', t'⟩ := p
      rw [step] at changed
      obtain ⟨owns', cells', rfl⟩ := changed
      exact untouched_of_cells (owns'.dropWritable.perm (v.holdings_perm l).symm) rfl
        (cells'.trans cells)

theorem modify_makes (h : w.store.Owns (v.holdings ++ l)) (makes : Writable.Makes made change) :
    Makes made v w l (modify change (v, w)) := by
  cases alone : w.store.unique v.value with
  | true => exact modify_sole h makes alone
  | false => exact modify_shared h makes alone

end FieldValue

end ArrayStore
