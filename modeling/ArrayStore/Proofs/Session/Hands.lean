import ArrayStore.Proofs.Session.Lists
import ArrayStore.Proofs.Table.Entries
import ArrayStore.Proofs.Value.Operations

/-! Slots of arrays and views, and what is in hand beside them.
The store belongs to the slots and to what is in hand. A value or a view can be
taken out of its slot into the hand, changed there, and given to a slot again;
meanwhile the other slots show what they did. So each move is a few of these
steps, and what else the hand holds does not matter. -/

namespace ArrayStore.Session

namespace ArrayState

open FieldValue (Renewed)
def holdings (s : ArrayState) : List Holding :=
  s.pools.map .handle ++
    (s.values.values.flatMap FieldValue.holdings ++ s.views.values.flatMap fun f => [.frozen f])

/-- The store belongs to the hand and to the slots, and every value is of the kind of its field. -/
structure Sound (hand : List Holding) (s : ArrayState) : Prop where
  values_sorted : s.values.Sorted
  views_sorted : s.views.Sorted
  fits : ∀ slot v, s.values.get? slot = some v → v.value.kind = v.kind
  owns : s.world.store.Owns (hand ++ s.holdings)

def shows (s : ArrayState) : Lists where
  arrays slot := (s.values.get? slot).map fun v => ⟨v.kind, v.values s.world⟩
  views slot := (s.views.get? slot).map fun f => ⟨f.kind, s.world.store.values f⟩

variable {s : ArrayState} {hand l : List Holding} {slot : Nat} {v v' : FieldValue} {f : Frozen}
  {w w' : World}

theorem holdings_take_value (h : s.values.Sorted) (found : s.values.get? slot = some v) :
    s.holdings.Perm (v.holdings ++ holdings { s with values := s.values.erase slot }) := by
  have apart := (Table.flatMap_values_perm h found FieldValue.holdings).append_right
    (s.views.values.flatMap fun f => [Holding.frozen f])
  rw [List.append_assoc] at apart
  exact (apart.append_left _).trans (List.perm_append_comm_assoc _ _ _)

theorem holdings_give_value (h : s.values.Sorted) (slot : Nat) (v : FieldValue) :
    (holdings { s with values := s.values.insert slot v }).Perm
      (v.holdings ++ holdings { s with values := s.values.erase slot }) := by
  have apart := (Table.flatMap_values_insert_perm h slot v FieldValue.holdings).append_right
    (s.views.values.flatMap fun f => [Holding.frozen f])
  rw [List.append_assoc] at apart
  exact (apart.append_left _).trans (List.perm_append_comm_assoc _ _ _)

theorem holdings_take_view (h : s.views.Sorted) (found : s.views.get? slot = some f) :
    s.holdings.Perm (.frozen f :: holdings { s with views := s.views.erase slot }) := by
  have apart := Table.flatMap_values_perm h found fun f => [Holding.frozen f]
  exact ((apart.append_left _).append_left _).trans
    (((List.perm_append_comm_assoc _ _ _).append_left _).trans (List.perm_append_comm_assoc _ _ _))

theorem holdings_give_view (h : s.views.Sorted) (slot : Nat) (f : Frozen) :
    (holdings { s with views := s.views.insert slot f }).Perm
      (.frozen f :: holdings { s with views := s.views.erase slot }) := by
  have apart := Table.flatMap_values_insert_perm h slot f fun f => [Holding.frozen f]
  exact ((apart.append_left _).append_left _).trans
    (((List.perm_append_comm_assoc _ _ _).append_left _).trans (List.perm_append_comm_assoc _ _ _))

theorem holdings_pools {a : Allocator} {pools pools' : List Allocator}
    (p : pools.Perm (a :: pools')) :
    (holdings { s with pools }).Perm (.handle a :: holdings { s with pools := pools' }) :=
  (p.map _).append_right _

theorem mem_holdings_value (found : s.values.get? slot = some v) :
    .frozen v.value ∈ s.holdings := by
  have member : v ∈ s.values.values :=
    List.mem_map_of_mem (f := Prod.snd) (Table.mem_entries_of_get? found)
  refine List.mem_append_right _ (List.mem_append_left _ (List.mem_flatMap.2 ⟨v, member, ?_⟩))
  simp [FieldValue.holdings]

theorem mem_holdings_view (found : s.views.get? slot = some f) : .frozen f ∈ s.holdings := by
  have member : f ∈ s.views.values :=
    List.mem_map_of_mem (f := Prod.snd) (Table.mem_entries_of_get? found)
  exact List.mem_append_right _ (List.mem_append_right _
    (List.mem_flatMap.2 ⟨f, member, List.mem_cons_self⟩))

/-- An exchange of what is in hand, behind which the slots show what they did. -/
theorem Sound.withWorld (h : s.Sound hand) (owns : w.store.Owns (l ++ s.holdings))
    (keeps : s.world.store.Keeps w.store (Holding.frozens s.holdings)) :
    Sound l { s with world := w } ∧ shows { s with world := w } = s.shows := by
  refine ⟨⟨h.values_sorted, h.views_sorted, h.fits, owns⟩,
    Lists.ext (funext fun i => ?_) (funext fun i => ?_)⟩
  · simp only [shows]
    cases found : s.values.get? i with
    | none => rfl
    | some v =>
      have same : v.values w = v.values s.world :=
        keeps v.value (Holding.mem_frozens.2 (mem_holdings_value found))
      simp only [Option.map_some, same]
  · simp only [shows]
    cases found : s.views.get? i with
    | none => rfl
    | some f =>
      have same := keeps f (Holding.mem_frozens.2 (mem_holdings_view found))
      simp only [Option.map_some, same]

theorem Sound.withMarks (h : s.Sound hand) (same : w.store = s.world.store) :
    Sound hand { s with world := w } ∧ shows { s with world := w } = s.shows :=
  h.withWorld (same ▸ h.owns) (same ▸ fun _ _ => rfl)

theorem Sound.takeValue (h : s.Sound hand) (found : s.values.get? slot = some v) :
    Sound (v.holdings ++ hand) { s with values := s.values.erase slot } ∧
      shows { s with values := s.values.erase slot } = s.shows.setArray slot none := by
  refine ⟨⟨Table.erase_sorted h.values_sorted slot, h.views_sorted, fun i u there => ?_, ?_⟩,
    Lists.ext (funext fun i => ?_) rfl⟩
  · simp only [Table.get?_erase] at there
    split at there
    · cases there
    · exact h.fits i u there
  · rw [List.append_assoc]
    exact h.owns.perm (((holdings_take_value h.values_sorted found).append_left _).trans
      (List.perm_append_comm_assoc _ _ _))
  · simp only [shows, Lists.setArray, Table.get?_erase]
    split <;> rfl

theorem Sound.giveValue (h : Sound (v.holdings ++ hand) { s with values := s.values.erase slot })
    (sorted : s.values.Sorted) (fits : v.value.kind = v.kind) :
    Sound hand { s with values := s.values.insert slot v } ∧
      shows { s with values := s.values.insert slot v } =
        (shows { s with values := s.values.erase slot }).setArray slot
          (some ⟨v.kind, v.values s.world⟩) := by
  refine ⟨⟨Table.insert_sorted sorted slot v, h.views_sorted, fun i u there => ?_, ?_⟩,
    Lists.ext (funext fun i => ?_) rfl⟩
  · simp only [Table.get?_insert] at there
    split at there
    · cases there
      exact fits
    · next apart => exact h.fits i u (by rw [Table.get?_erase, if_neg apart, there])
  · have owns := h.owns
    rw [List.append_assoc] at owns
    exact owns.perm (((holdings_give_value sorted slot v).append_left _).trans
      (List.perm_append_comm_assoc _ _ _)).symm
  · simp only [shows, Lists.setArray, Table.get?_insert, Table.get?_erase]
    split <;> rfl

theorem Sound.takeView (h : s.Sound hand) (found : s.views.get? slot = some f) :
    Sound (.frozen f :: hand) { s with views := s.views.erase slot } ∧
      shows { s with views := s.views.erase slot } = s.shows.setView slot none := by
  refine ⟨⟨h.values_sorted, Table.erase_sorted h.views_sorted slot, h.fits, h.owns.perm
    (((holdings_take_view h.views_sorted found).append_left _).trans List.perm_middle)⟩,
    Lists.ext rfl (funext fun i => ?_)⟩
  simp only [shows, Lists.setView, Table.get?_erase]
  split <;> rfl

theorem Sound.giveView (h : Sound (.frozen f :: hand) { s with views := s.views.erase slot })
    (sorted : s.views.Sorted) :
    Sound hand { s with views := s.views.insert slot f } ∧
      shows { s with views := s.views.insert slot f } =
        (shows { s with views := s.views.erase slot }).setView slot
          (some ⟨f.kind, s.world.store.values f⟩) := by
  refine ⟨⟨h.values_sorted, Table.insert_sorted sorted slot f, h.fits, h.owns.perm
    (((holdings_give_view sorted slot f).append_left _).trans List.perm_middle).symm⟩,
    Lists.ext rfl (funext fun i => ?_)⟩
  simp only [shows, Lists.setView, Table.get?_insert, Table.get?_erase]
  split <;> rfl

theorem shows_of_value (found : s.values.get? slot = some v) :
    s.shows.arrays slot = some ⟨v.kind, v.values s.world⟩ := by
  simp only [shows, found, Option.map_some]

theorem shows_of_view (found : s.views.get? slot = some f) :
    s.shows.views slot = some ⟨f.kind, s.world.store.values f⟩ := by
  simp only [shows, found, Option.map_some]

theorem Sound.alive_allocator (h : s.Sound hand) (pool : Option Nat) :
    s.world.store.allocators.Alive (s.allocator pool) :=
  h.owns.alive_named (fun _ member => List.mem_append_right _ (List.mem_append_left _
    (List.mem_map_of_mem member))) pool

theorem Sound.value (h : s.Sound hand) (found : s.values.get? slot = some v) :
    s.world.store.Owns
      (v.holdings ++ (hand ++ holdings { s with values := s.values.erase slot })) := by
  have owns := (h.takeValue found).1.owns
  rwa [List.append_assoc] at owns

/-- A new content of a value, behind which the other slots show what they did. -/
theorem Sound.renew {shown : List Scalar} (h : s.Sound hand)
    (found : s.values.get? slot = some v)
    (renewed : Renewed v s.world (l ++ holdings { s with values := s.values.erase slot })
      shown v' w') :
    Sound l { s with world := w', values := s.values.insert slot v' } ∧
      shows { s with world := w', values := s.values.insert slot v' } =
        s.shows.setArray slot (some ⟨v.kind, shown⟩) := by
  have same : v'.kind = v.kind := by rw [renewed.value_eq]; rfl
  have owns := renewed.owns
  rw [← List.append_assoc] at owns
  obtain ⟨taken, gone⟩ := h.takeValue found
  obtain ⟨sound, kept⟩ := taken.withWorld owns renewed.keeps.of_append
  obtain ⟨sound', given⟩ := Sound.giveValue (s := { s with world := w' }) sound h.values_sorted
    (by rw [renewed.kind_eq, same]; exact h.fits slot v found)
  refine ⟨sound', given.trans ?_⟩
  simp only [kept, gone, Lists.setArray_setArray, same, renewed.values_eq]

theorem Sound.dropFrozen (h : s.Sound (.frozen f :: hand)) :
    (Sound hand { s with world.store := s.world.store.drop f } ∧
      shows { s with world.store := s.world.store.drop f } = s.shows) ∧
      s.world.store.Keeps (s.world.store.drop f) (Holding.frozens hand) := by
  have owns : s.world.store.Owns (.frozen f :: (hand ++ s.holdings)) := h.owns
  have kept := owns.frozen.drop.2
  rw [Holding.frozens_append] at kept
  exact ⟨h.withWorld (w := { s.world with store := s.world.store.drop f }) owns.drop fun g member =>
    kept g (List.mem_append_right _ member), fun g member => kept g (List.mem_append_left _ member)⟩

theorem Sound.dropValue (h : s.Sound (v.holdings ++ hand)) :
    (Sound hand { s with world := v.drop s.world } ∧
      shows { s with world := v.drop s.world } = s.shows) ∧
      s.world.store.Keeps (v.drop s.world).store (Holding.frozens hand) := by
  have turned : s.Sound (.frozen v.value :: .handle v.allocator :: hand) :=
    ⟨h.values_sorted, h.views_sorted, h.fits, h.owns.perm ((v.holdings_perm hand).append_right _)⟩
  obtain ⟨⟨dropped, shown⟩, kept⟩ := turned.dropFrozen
  obtain ⟨sound, shown'⟩ :=
    dropped.withWorld (w := v.drop s.world) dropped.owns.letGo fun _ _ => rfl
  exact ⟨⟨sound, shown'.trans shown⟩, kept⟩

theorem Sound.putValue (h : Sound (v.holdings ++ hand) { s with world := w })
    (fits : v.value.kind = v.kind) (slot : Nat) :
    (s.putValue slot v w).Sound hand ∧ (s.putValue slot v w).shows =
      (shows { s with world := w }).setArray slot (some ⟨v.kind, v.values w⟩) := by
  unfold ArrayState.putValue
  cases found : s.values.get? slot with
  | none =>
    have same := Table.erase_of_get?_eq_none found
    have aside :
        Sound (v.holdings ++ hand) { s with world := w, values := s.values.erase slot } := by
      simp only [same]
      exact h
    have given := Sound.giveValue (s := { s with world := w }) aside h.values_sorted fits
    simp only [same] at given
    exact given
  | some old =>
    obtain ⟨taken, gone⟩ := h.takeValue found
    obtain ⟨⟨sound, shown⟩, kept⟩ := taken.dropValue
    have values : v.values (old.drop w) = v.values w :=
      kept v.value (Holding.mem_frozens.2 (by simp [FieldValue.holdings]))
    obtain ⟨sound', given⟩ := Sound.giveValue (s := { s with world := old.drop w }) sound
      h.values_sorted fits
    refine ⟨sound', given.trans ?_⟩
    simp only at shown gone
    simp only [shown, gone, Lists.setArray_setArray, values]

theorem Sound.putView (h : Sound (.frozen f :: hand) { s with world := w }) (slot : Nat) :
    (s.putView slot f w).Sound hand ∧ (s.putView slot f w).shows =
      (shows { s with world := w }).setView slot (some ⟨f.kind, w.store.values f⟩) := by
  unfold ArrayState.putView
  cases found : s.views.get? slot with
  | none =>
    have same := Table.erase_of_get?_eq_none found
    have aside : Sound (.frozen f :: hand) { s with world := w, views := s.views.erase slot } := by
      simp only [same]
      exact h
    have given := Sound.giveView (s := { s with world := w }) aside h.views_sorted
    simp only [same] at given
    exact given
  | some old =>
    obtain ⟨taken, gone⟩ := h.takeView found
    obtain ⟨⟨sound, shown⟩, kept⟩ := taken.dropFrozen
    have values : (w.store.drop old).values f = w.store.values f :=
      kept f (Holding.mem_frozens.2 List.mem_cons_self)
    obtain ⟨sound', given⟩ := Sound.giveView
      (s := { s with world := { w with store := w.store.drop old } }) sound h.views_sorted
    refine ⟨sound', given.trans ?_⟩
    simp only at shown gone
    simp only [shown, gone, Lists.setView_setView, values]

theorem Sound.copyView (h : s.Sound hand) (live : .frozen f ∈ hand ++ s.holdings) (slot : Nat) :
    let w := { s.world with store := s.world.store.clone f }
    (s.putView slot f w).Sound hand ∧ (s.putView slot f w).shows =
      s.shows.setView slot (some ⟨f.kind, s.world.store.values f⟩) := by
  intro w
  obtain ⟨owns, keeps⟩ := h.owns.clone_live live
  have values : w.store.values f = s.world.store.values f :=
    keeps f (Holding.mem_frozens.2 live)
  obtain ⟨taken, shown⟩ := h.withWorld (w := w) (l := .frozen f :: hand) owns keeps.of_append
  obtain ⟨sound, shown'⟩ := taken.putView slot
  exact ⟨sound, shown'.trans (by rw [shown, values])⟩

end ArrayState

end ArrayStore.Session
