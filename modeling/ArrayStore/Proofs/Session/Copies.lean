import ArrayStore.Proofs.Session.Mixed
import ArrayStore.Proofs.Vector.Copies

/-! Where arrays and vectors are copied and where they stay.
An array thaws its content to lengthen it: the content itself while nothing else
refers to its block, and a copy of it otherwise. Main statement: after any run,
whatever stays within what there is stays in its block, at its address, and asks
no allocator for anything, and whatever has to leave a shared block ends in
another one of the same allocator, with one holder less on the old one. -/

namespace ArrayStore

namespace FieldValue

variable {v v' : FieldValue} {w w' : World} {l : List Holding} {n : Nat}

theorem setLength_shorter (free : v.isImmutable w = false) (shorter : n ≤ v.length) :
    ∃ v', setLength n (v, w) = .ok () (v', w) ∧
      w.store.address v'.value = w.store.address v.value := by
  simp only [setLength, free, Bool.false_eq_true, if_false]
  split
  · exact ⟨v, rfl, rfl⟩
  · next other =>
    rw [if_pos (by omega)]
    refine ⟨_, rfl, ?_⟩
    simp only [Store.address, Store.storage?, Store.cell?, Frozen.slice, narrow, Nat.zero_min,
      Nat.add_zero]

/-- Lengthening a content that nothing else refers to stays in its block as long as that has room,
and gives back the handle that it takes. -/
theorem setLength_sole (h : w.store.Owns (v.holdings ++ l)) (free : v.isImmutable w = false)
    (sole : w.store.unique v.value = true) (room : n ≤ v.capacity w) :
    ∃ v' w', setLength n (v, w) = .ok () (v', w') ∧
      w'.store.address v'.value = w.store.address v.value ∧
      w.store.allocators.Still w'.store.allocators := by
  by_cases shorter : n ≤ v.length
  · obtain ⟨v', done, place⟩ := setLength_shorter free shorter
    exact ⟨v', w, done, place, .refl _⟩
  have start := h.perm (v.holdings_perm l)
  obtain ⟨u, t, thawed, sight, -⟩ := start.thaw_sole sole v.allocator
  obtain ⟨own, handle⟩ := Store.thaw_sole_still sole thawed
  have capacity : u.capacity = v.capacity w := congrArg Sight.capacity sight
  obtain ⟨u', changed, place, handle', held⟩ :=
    Writable.resize_stays (w := u) (capacity ▸ room) t.allocators
  have modified : setLength n (v, w) =
      .ok () ({ v with value := (t.freeze u').1 }, { w with store := (t.freeze u').2 }) := by
    simp only [setLength, free, Bool.false_eq_true, if_false, if_neg (show n ≠ v.length by omega),
      if_neg (show ¬n < v.length by omega), modify, sole, if_true, thawed, Store.onWritable,
      changed]
  refine ⟨_, _, modified, ?_, ?_⟩
  · have shown := congrArg Sight.address (Store.sight_freeze t u')
    exact shown.trans (place.trans (congrArg Sight.address sight))
  · have owns := start.thaw (start.alive (a := v.allocator) (by simp))
    rw [thawed] at owns
    cases stored : u.storage with
    | none =>
      simp only [Writable.capacity, stored, Option.elim_none] at capacity
      omega
    | some b =>
      have kept := owns.letGo_still own stored
      have taken := handle ▸ Allocators.retain_still w.store.allocators u.allocator
      rw [Store.allocators_freeze, handle']
      exact taken.trans kept

theorem setLength_thaws (shared : w.store.unique v.value = false) (longer : v.length < n)
    (run : setLength n (v, w) = .ok () (v', w')) :
    ∃ u t u' t', Store.thaw v.value v.allocator (w.store.clone v.value) = .ok u t ∧
      Store.onWritable (Writable.resize n) (u, t) = .ok () (u', t') ∧
      v'.value = (t'.freeze u').1 ∧ w'.store = (t'.freeze u').2.drop v.value := by
  simp only [setLength, if_neg (Nat.ne_of_gt longer), if_neg (Nat.not_lt.2 (Nat.le_of_lt longer)),
    modify, shared, Bool.false_eq_true, if_false] at run
  split at run
  · cases run
  cases thawed : Store.thaw v.value v.allocator (w.store.clone v.value) with
  | error e t =>
    rw [thawed] at run
    cases run
  | ok u t =>
    rw [thawed] at run
    cases resized : Store.onWritable (Writable.resize n) (u, t) with
    | error e p =>
      simp only [resized] at run
      cases run
    | ok _ p =>
      simp only [resized] at run
      cases run
      exact ⟨u, t, p.1, p.2, rfl, resized, rfl, rfl⟩

theorem setLength_shared (h : w.store.Owns (v.holdings ++ l))
    (shared : w.store.unique v.value = false) (longer : v.length < n)
    (run : setLength n (v, w) = .ok () (v', w')) :
    ∃ b, (Holding.frozen v'.value).block? w'.store = some b ∧
      w.store.Moved w'.store v.value b := by
  have start := h.perm (v.holdings_perm l)
  obtain ⟨id, c, refers, found, many, -⟩ := start.cell_shared shared
  have there : (w.store.clone v.value).cells.get? id =
      some { c with holders := c.holders + 1 } := by
    simp only [Store.clone, refers, Table.get?_modify, if_pos, found, Option.map_some]
  have same := start.thaw_clone shared v.allocator
  have alive : (w.store.clone v.value).allocators.Alive v.allocator :=
    start.clone.alive (by simp)
  have owns := start.clone.thaw alive
  obtain ⟨u, t, u', t', thawed, lengthened, content, store⟩ := setLength_thaws shared longer run
  rw [thawed] at same owns
  -- What is thawed is a copy, since the content has at least two holders, the clone being one.
  obtain ⟨_, made, -⟩ := Store.thaw_of_shared refers there (Nat.lt_succ_of_lt many) thawed
  obtain ⟨own, source, length, -⟩ := Store.copyOut_own made
  have changed := owns.onMakes (Writable.resize_makes n)
  cases resized : Writable.resize n (u, t.allocators) with
  | error e p =>
    simp only [Store.onWritable, resized] at lengthened
    cases lengthened
  | ok _ p =>
    simp only [Store.onWritable, resized] at lengthened changed
    cases lengthened
    obtain ⟨own', source', b, stored⟩ := Writable.resize_own own (length ▸ longer) resized
    have held : b.block ∈ p.1.held := Writable.held_of_storage stored ▸ List.mem_cons_self
    have mine : b.block.owner = c.storage.block.owner :=
      (own' _ held).trans (source'.trans source)
    obtain ⟨lies, moved⟩ :=
      changed.1.freeze_moved (s := w.store) same refers found many stored mine
    rw [content, store]
    exact ⟨b.block, congrArg (Option.map Storage.block) lies, moved⟩

end FieldValue

namespace Session.MixedState

/-- Whatever was frozen, thawed, narrowed, copied, dropped, grown and refused before: a vector is
frozen where it is and resized where it is up to its capacity. A frozen vector is thawed where it
is, and asks for nothing, as long as it is the only one on its block, and the copy of one that is
not ends in another block of the same allocator. An array is shortened and given the room that it
has where it is, and lengthened up to its capacity where it is as long as it is alone on its block;
otherwise a longer one ends in another block of the same allocator. The block that is left has one
holder less. -/
theorem runAll_copies (system : System) (moves : List MixedMove) :
    let s := (start system).runAll moves
    let w := s.arrays.world
    let m := w.store.allocators
    (∀ u, .writable u ∈ s.holdings →
      (w.store.freeze u).2.address (w.store.freeze u).1 = u.address ∧
        ∀ n ≤ u.capacity, ∃ u', Writable.resize n (u, m) = .ok () (u', m) ∧
          u'.address = u.address) ∧
    (∀ f, .frozen f ∈ s.holdings → ∀ fallback,
      (w.store.unique f = true → ∃ u t, Store.thaw f fallback w.store = .ok u t ∧
        u.address = w.store.address f ∧ m.Still t.allocators) ∧
      (w.store.unique f = false → f.length ≠ 0 → ∀ u t, Store.thaw f fallback w.store = .ok u t →
        ∃ b, u.held = [b] ∧ w.store.Moved t f b)) ∧
    ∀ slot v, s.arrays.values.get? slot = some v → v.isImmutable w = false →
      (∀ n ≤ v.length, ∃ v', FieldValue.setLength n (v, w) = .ok () (v', w) ∧
        w.store.address v'.value = w.store.address v.value) ∧
      (∀ n ≤ v.capacity w, FieldValue.setCapacity n (v, w) = .ok () (v, w)) ∧
      (w.store.unique v.value = true → ∀ n ≤ v.capacity w,
        ∃ v' w', FieldValue.setLength n (v, w) = .ok () (v', w') ∧
          w'.store.address v'.value = w.store.address v.value ∧ m.Still w'.store.allocators) ∧
      (w.store.unique v.value = false → ∀ n > v.length, ∀ v' w',
        FieldValue.setLength n (v, w) = .ok () (v', w') →
          ∃ b, (Holding.frozen v'.value).block? w'.store = some b ∧
            w.store.Moved w'.store v.value b) := by
  intro s w m
  have sound : s.Sound := runAll_sound (sound_start system) moves
  refine ⟨fun u _ => ⟨congrArg Sight.address (Store.sight_freeze w.store u), fun n room => ?_⟩,
    fun f live fallback => ?_, fun slot v found free => ?_⟩
  · obtain ⟨u', run, place, -⟩ := Writable.resize_stays room m
    exact ⟨u', run, place⟩
  · obtain ⟨rest, owns⟩ := sound.owns.front live
    refine ⟨fun sole => ?_, fun shared some u t run => owns.thaw_shared shared some run⟩
    obtain ⟨u, t, run, sight, -⟩ := owns.thaw_sole sole fallback
    have taken := (Store.thaw_sole_still sole run).2
    exact ⟨u, t, run, congrArg Sight.address sight, taken ▸ Allocators.retain_still m u.allocator⟩
  · have owns := sound.arrays.value found
    refine ⟨fun n shorter => FieldValue.setLength_shorter free shorter, fun n room => ?_,
      fun sole n room => FieldValue.setLength_sole owns free sole room,
      fun shared n longer v' w' run => FieldValue.setLength_shared owns shared longer run⟩
    simp only [FieldValue.setCapacity, if_pos room, ite_self]

/-- A pool that has no block left, a narrowed vector that is alone on the last one, an array that
sees one of two elements of its block, and one that a view shares its block with. -/
theorem runAll_copies_exhausted :
    let moves : List MixedMove := [.array (.build ⟨"one", some 4, .capped 1, 0⟩ 4),
      .vector .int (.ofList 0 [.int 1, .int 2, .int 3] (some 0)), .vector .int (.freeze 0),
      .vector .int (.slice 0 1 2), .array (.step (.create 0 ⟨"x", .int⟩ none)),
      .array (.step (.put 0 [.int 4, .int 5])), .array (.step (.setLength 0 1)),
      .array (.step (.create 1 ⟨"y", .int⟩ none)), .array (.step (.put 1 [.int 6])),
      .array (.step (.view 1 0))]
    let s := (start .machine).runAll moves
    let w := s.arrays.world
    let f : Frozen := ⟨.int, some 0, 1, 2⟩
    s.slots.get? 0 = some (.frozen f) ∧
      (∃ u t, Store.thaw f .shared w.store = .ok u t ∧ u.address = some (0, 1)) ∧
      ∃ x y, s.arrays.values.get? 0 = some x ∧ s.arrays.values.get? 1 = some y ∧
        (∃ x' w', FieldValue.setLength 2 (x, w) = .ok () (x', w') ∧
          w'.store.address x'.value = some (1, 0)) ∧
        ∃ y' w' b, FieldValue.setLength 2 (y, w) = .ok () (y', w') ∧
          (Holding.frozen y'.value).block? w'.store = some b ∧
          w.store.Moved w'.store y.value b := by
  intro moves s w f
  have frozen : s.slots.get? 0 = some (.frozen f) ∧ w.store.unique f = true ∧
      w.store.address f = some (0, 1) := by
    decide +kernel
  have sole : ∃ x ∈ s.arrays.values.get? 0, x.isImmutable w = false ∧
      w.store.unique x.value = true ∧ 2 ≤ x.capacity w ∧
      w.store.address x.value = some (1, 0) := by
    decide +kernel
  have shared : ∃ y ∈ s.arrays.values.get? 1, y.isImmutable w = false ∧
      w.store.unique y.value = false ∧ y.length < 2 ∧
      (Outcome.answer (FieldValue.setLength 2 (y, w))).toBool = true := by
    decide +kernel
  obtain ⟨-, thawed, changed⟩ := runAll_copies .machine moves
  obtain ⟨there, alone, place⟩ := frozen
  obtain ⟨x, found, free, unshared, room, lies⟩ := sole
  obtain ⟨y, found', free', others, longer, served⟩ := shared
  have live : .frozen f ∈ s.holdings :=
    List.mem_append_left _ (List.mem_map_of_mem (List.mem_map_of_mem (f := Prod.snd)
      (Table.mem_entries_of_get? there)))
  obtain ⟨u, t, run, same, -⟩ := (thawed f live .shared).1 alone
  obtain ⟨x', w', lengthened, stays, -⟩ := (changed 0 x found free).2.2.1 unshared 2 room
  refine ⟨there, ⟨u, t, run, same.trans place⟩, x, y, found, found',
    ⟨x', w', lengthened, stays.trans lies⟩, ?_⟩
  cases copied : FieldValue.setLength 2 (y, w) with
  | error e p =>
    rw [copied] at served
    cases served
  | ok _ p =>
    obtain ⟨b, on, moved⟩ := (changed 1 y found' free').2.2.2 others 2 longer p.1 p.2 copied
    exact ⟨p.1, p.2, b, rfl, on, moved⟩

end Session.MixedState

end ArrayStore
