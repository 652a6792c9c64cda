import ArrayStore.Proofs.Session.Plain
import ArrayStore.Proofs.Table.Entries
import ArrayStore.Proofs.Vector.Sharing

/-! Slots over a store, and what they show.
The store has to hold the frozen vectors in the slots, in any order. A slot may
be given a new content as long as the store keeps what the other slots show. -/

namespace ArrayStore.Session

namespace VectorSlot

def shown (store : Store) : VectorSlot → Shown
  | writable w => .writable w.values
  | frozen f => .frozen (store.values f)

def frozen? : VectorSlot → Option Frozen
  | writable _ => none
  | frozen f => some f

def Fits (k : Kind) : VectorSlot → Prop
  | writable w => w.Sound ∧ w.kind = k
  | frozen f => f.kind = k

end VectorSlot

def frozens (slots : Table VectorSlot) : List Frozen :=
  slots.entries.filterMap fun e => e.2.frozen?

def held (v : Option VectorSlot) : List Frozen := (v.bind VectorSlot.frozen?).toList

section Slots

variable {slots : Table VectorSlot} (h : slots.Sorted) (slot : Nat)

theorem filterMap_cons_frozen? (slot : Nat) (v : VectorSlot) (l : List (Nat × VectorSlot)) :
    ((slot, v) :: l).filterMap (fun e => e.2.frozen?) =
      held (some v) ++ l.filterMap fun e => e.2.frozen? := by
  cases v <;> rfl

include h

theorem frozens_perm :
    (frozens slots).Perm (held (slots.get? slot) ++ frozens (slots.erase slot)) := by
  cases found : slots.get? slot with
  | none =>
    rw [Table.erase_of_get?_eq_none found]
    exact .refl _
  | some v =>
    have split := (Table.perm_of_get? h found).filterMap fun e => e.2.frozen?
    rwa [filterMap_cons_frozen?] at split

theorem frozens_set_perm (v : Option VectorSlot) :
    (frozens (slots.set slot v)).Perm (held v ++ frozens (slots.erase slot)) := by
  cases v with
  | none => exact .refl _
  | some v =>
    have split := (Table.insert_perm h slot v).filterMap fun e => e.2.frozen?
    rwa [filterMap_cons_frozen?] at split

omit h in
theorem mem_frozens {f : Frozen} (found : slots.get? slot = some (.frozen f)) :
    f ∈ frozens slots :=
  List.mem_filterMap.2 ⟨_, Table.mem_entries_of_get? found, rfl⟩

end Slots

namespace VectorState

def shows (s : VectorState) : Plain := fun slot => (s.slots.get? slot).map (·.shown s.store)

/-- The cells count the frozen vectors in the slots, and every vector fits. -/
structure Sound (k : Kind) (s : VectorState) : Prop where
  kind_eq : s.kind = k
  sorted : s.slots.Sorted
  holds : s.store.Holds (frozens s.slots)
  fits : ∀ slot v, s.slots.get? slot = some v → v.Fits k

variable {k : Kind} {s : VectorState} {store : Store}

theorem shows_of_get? {slot : Nat} {v : VectorSlot} (found : s.slots.get? slot = some v) :
    s.shows slot = some (v.shown s.store) := by
  rw [shows, found, Option.map_some]

theorem shows_of_none {slot : Nat} (empty : s.slots.get? slot = none) : s.shows slot = none := by
  rw [shows, empty, Option.map_none]

theorem Sound.split (h : s.Sound k) (slot : Nat) :
    s.store.Holds (held (s.slots.get? slot) ++ frozens (s.slots.erase slot)) :=
  h.holds.perm (frozens_perm h.sorted slot)

theorem Sound.keep (h : s.Sound k) (holds : store.Holds (frozens s.slots))
    (keeps : s.store.Keeps store (frozens s.slots)) :
    Sound k { s with store } ∧ shows { s with store } = s.shows := by
  refine ⟨⟨h.kind_eq, h.sorted, holds, h.fits⟩, funext fun i => ?_⟩
  simp only [shows]
  cases found : s.slots.get? i with
  | none => rfl
  | some v =>
    cases v with
    | writable w => rfl
    | frozen f => simp only [Option.map_some, VectorSlot.shown, keeps f (mem_frozens i found)]

theorem Sound.set (h : s.Sound k) (slot : Nat) (v : Option VectorSlot)
    (holds : store.Holds (held v ++ frozens (s.slots.erase slot)))
    (keeps : s.store.Keeps store (frozens (s.slots.erase slot)))
    (fits : ∀ u, v = some u → u.Fits k) :
    Sound k { s with store, slots := s.slots.set slot v } ∧
      shows { s with store, slots := s.slots.set slot v } =
        s.shows.put slot (v.map (·.shown store)) := by
  refine ⟨⟨h.kind_eq, Table.set_sorted h.sorted slot v,
    holds.perm (frozens_set_perm h.sorted slot v).symm, fun i u found => ?_⟩, funext fun i => ?_⟩
  · simp only [Table.get?_set] at found
    split at found
    · exact fits u found
    · exact h.fits i u found
  · simp only [shows, Plain.put, Table.get?_set]
    by_cases same : i = slot
    · rw [if_pos same, if_pos same]
    · rw [if_neg same, if_neg same]
      cases found : s.slots.get? i with
      | none => rfl
      | some u =>
        cases u with
        | writable w => rfl
        | frozen f =>
          have there : (s.slots.erase slot).get? i = some (.frozen f) := by
            rw [Table.get?_erase, if_neg same, found]
          simp only [Option.map_some, VectorSlot.shown, keeps f (mem_frozens i there)]

theorem Sound.fill (h : s.Sound k) (slot : Nat) (v : VectorSlot)
    (holds : store.Holds (held (some v) ++ frozens (s.slots.erase slot)))
    (keeps : s.store.Keeps store (frozens (s.slots.erase slot))) (fits : v.Fits k) :
    Sound k { s with store, slots := s.slots.insert slot v } ∧
      shows { s with store, slots := s.slots.insert slot v } =
        s.shows.put slot (some (v.shown store)) :=
  h.set slot (some v) holds keeps fun u eq => by
    cases eq
    exact fits

theorem Sound.clear (h : s.Sound k) (slot : Nat)
    (holds : store.Holds (frozens (s.slots.erase slot)))
    (keeps : s.store.Keeps store (frozens (s.slots.erase slot))) :
    Sound k { s with store, slots := s.slots.erase slot } ∧
      shows { s with store, slots := s.slots.erase slot } = s.shows.put slot none :=
  h.set slot none holds keeps fun _ eq => by cases eq

theorem discard_spec {v : Option VectorSlot} {live : List Frozen}
    (holds : store.Holds (held v ++ live)) :
    (discard store v).Holds live ∧ store.Keeps (discard store v) live := by
  match v with
  | none => exact ⟨holds, fun _ _ => rfl⟩
  | some (.writable w) => exact holds.congr rfl rfl
  | some (.frozen f) => exact holds.drop

theorem shown_of_keeps {after : Store} {v : VectorSlot}
    (keeps : store.Keeps after (held (some v))) : v.shown after = v.shown store := by
  cases v with
  | writable w => rfl
  | frozen f => exact congrArg Shown.frozen (keeps f (List.mem_singleton.2 rfl))

theorem put_spec {v : VectorSlot} (h : s.Sound k) (slot : Nat)
    (holds : store.Holds (held (some v) ++ frozens s.slots))
    (keeps : s.store.Keeps store (frozens s.slots)) (fits : v.Fits k) :
    (s.put slot v store).Sound k ∧
      (s.put slot v store).shows = s.shows.put slot (some (v.shown store)) := by
  -- The old content is dropped when the new one is there, so for a moment both are live.
  have parts := frozens_perm h.sorted slot
  have apart : (held (some v) ++ frozens s.slots).Perm
      (held (s.slots.get? slot) ++ (held (some v) ++ frozens (s.slots.erase slot))) :=
    (parts.append_left _).trans (List.perm_append_comm_assoc _ _ _)
  obtain ⟨holds', keeps'⟩ := discard_spec (holds.perm apart)
  have kept : s.store.Keeps (discard store (s.slots.get? slot))
      (frozens (s.slots.erase slot)) := fun g member =>
    (keeps' g (List.mem_append_right _ member)).trans
      (keeps g (parts.mem_iff.2 (List.mem_append_right _ member)))
  obtain ⟨sound, shows⟩ := h.fill slot v holds' kept fits
  refine ⟨sound, shows.trans ?_⟩
  rw [shown_of_keeps fun g member => keeps' g (List.mem_append_left _ member)]

end VectorState

end ArrayStore.Session
