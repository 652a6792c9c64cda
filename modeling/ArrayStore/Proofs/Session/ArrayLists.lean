import ArrayStore.Proofs.Session.ArrayMoves

/-! Sharing between arrays and views cannot be seen.
Main statement: after any run of moves every array and every view shows what its
own list does. Whether a move that takes memory or writes to an immutable array
succeeds is read off the run itself. -/

namespace ArrayStore.Session

namespace ArrayState

variable {s : ArrayState} {hand : List Holding} {slot : Nat} {v v' : FieldValue} {f : Frozen}

theorem moveAll_follows (h : s.Sound hand) (moves : List ArrayMove) :
    (s.moveAll moves).Sound hand ∧ (s.moveAll moves).shows = s.shows.run (s.verdicts moves) := by
  induction moves generalizing s with
  | nil => exact ⟨h, rfl⟩
  | cons t moves ih =>
    obtain ⟨sound, shown⟩ := move_follows h t
    obtain ⟨sound', shown'⟩ := ih sound
    refine ⟨sound', shown'.trans ?_⟩
    rw [shown]
    rfl

def start (system : System) : ArrayState := { world := { store := { allocators := { system } } } }

theorem sound_start (system : System) : (start system).Sound [] :=
  ⟨.nil, .nil, fun _ _ found => (by cases found), Store.owns_nil system⟩

theorem Sound.length_values (h : s.Sound hand) (found : s.values.get? slot = some v) :
    (v.values s.world).length = v.length :=
  h.owns.length_values (List.mem_append_right _ (mem_holdings_value found))

theorem moveAll_arrays (h : s.Sound hand) {moves : List ArrayMove}
    (apart : ∀ t ∈ moves, slot ∉ t.arrays) :
    (s.moveAll moves).shows.arrays slot = s.shows.arrays slot := by
  induction moves generalizing s with
  | nil => rfl
  | cons t moves ih =>
    obtain ⟨sound, shown⟩ := move_follows h t
    have later := ih sound fun u member => apart u (List.mem_cons_of_mem _ member)
    rw [shown, Lists.move_arrays _ _ (apart t List.mem_cons_self)] at later
    exact later

theorem moveAll_views (h : s.Sound hand) {moves : List ArrayMove}
    (apart : ∀ t ∈ moves, slot ∉ t.views) :
    (s.moveAll moves).shows.views slot = s.shows.views slot := by
  induction moves generalizing s with
  | nil => rfl
  | cons t moves ih =>
    obtain ⟨sound, shown⟩ := move_follows h t
    have later := ih sound fun u member => apart u (List.mem_cons_of_mem _ member)
    rw [shown, Lists.move_views _ _ (apart t List.mem_cons_self)] at later
    exact later

theorem setCapacity_room (h : s.Sound hand) {n : Nat}
    (done : s.succeeds (.step (.setCapacity slot n)) = true)
    (found : s.values.get? slot = some v)
    (found' : (Outcome.state (step (.setCapacity slot n) s)).values.get? slot = some v') :
    let t := Outcome.state (step (.setCapacity slot n) s)
    v'.values t.world = v.values s.world ∧ v'.length = v.length ∧
      (v.isCapacityMutable s.world = true → n ≤ v'.capacity t.world) := by
  have owns := h.value found
  have spec := FieldValue.setCapacity_spec owns n
  have length := h.length_values found
  simp only [succeeds, move, step, onValue, found] at done found' ⊢
  cases run : FieldValue.setCapacity n (v, s.world) with
  | error e p =>
    rw [run] at done
    cases done
  | ok _ p =>
    obtain ⟨u, w⟩ := p
    rw [run] at spec
    obtain ⟨renewed, room⟩ := spec
    simp only [run, Outcome.state_ok, Table.get?_insert, if_true, Option.some.injEq] at found' ⊢
    subst found'
    have length' : (u.values w).length = u.length :=
      renewed.owns.length_values (by simp [FieldValue.holdings])
    refine ⟨renewed.values_eq, ?_, room⟩
    rw [← length', renewed.values_eq, length]

/-- What takes no memory succeeds, where an array that is written to may change. -/
theorem succeeds_found {value view : Nat} (found : s.values.get? value = some v)
    (found' : s.views.get? view = some f) :
    s.succeeds (.step (.view value view)) = true ∧
      (∀ offset count, s.succeeds (.step (.sliceView view offset count)) = true) ∧
      s.succeeds (.step (.dropView view)) = true ∧
      (v.isImmutable s.world = false → v.kind = f.kind →
        s.succeeds (.step (.swap value view)) = true ∧
          s.succeeds (.step (.install value view)) = true ∧
          s.succeeds (.pass value view) = true ∧
          ∀ n ≤ v.length, s.succeeds (.step (.setLength value n)) = true) := by
  refine ⟨?_, fun offset count => ?_, ?_, fun mutable kind => ⟨?_, ?_, ?_, fun n shorter => ?_⟩⟩
  · simp only [succeeds, move, step, found, Succeeds]
  · simp only [succeeds, move, step, found', Succeeds]
  · simp only [succeeds, move, step, found', Succeeds]
  · simp only [succeeds, move, step, found, found', kind, ne_eq, not_true, if_false,
      FieldValue.swap, mutable, Bool.false_eq_true, Succeeds]
  · have cloned : install (fun store => .ok f (store.clone f)) (v, s.world) =
        FieldValue.replace f (v, { s.world with store := s.world.store.clone f }) := rfl
    have mutable' : v.isImmutable { s.world with store := s.world.store.clone f } = false := mutable
    simp only [succeeds, move, step, found, found', kind, ne_eq, not_true, if_false, onValue,
      cloned, FieldValue.replace, mutable', Bool.false_eq_true, Succeeds]
  · simp only [succeeds, move, found, found', kind, ne_eq, not_true, if_false, onValue,
      FieldValue.replace, mutable, Bool.false_eq_true, Succeeds]
  · simp only [succeeds, move, step, onValue, found, FieldValue.setLength, mutable,
      Bool.false_eq_true, if_false]
    by_cases equal : n = v.length
    · simp only [if_pos equal, Succeeds]
    · simp only [if_neg equal, if_pos (Nat.lt_of_le_of_ne shorter equal), Succeeds]

/-- Whatever arrays and views share, they show what lists of their own do; nothing
that is done to the others changes them, a capacity that was set is there, and what
takes no memory succeeds. -/
theorem moveAll_shows_lists (system : System) (moves : List ArrayMove) :
    let s := (start system).moveAll moves
    s.shows = Lists.run .empty ((start system).verdicts moves) ∧
      (∀ slot v, s.values.get? slot = some v → v.length = (v.values s.world).length) ∧
      (∀ more slot, (∀ t ∈ more, slot ∉ ArrayMove.arrays t) →
        (s.moveAll more).shows.arrays slot = s.shows.arrays slot) ∧
      (∀ more slot, (∀ t ∈ more, slot ∉ ArrayMove.views t) →
        (s.moveAll more).shows.views slot = s.shows.views slot) ∧
      (∀ slot n v v', let t := Outcome.state (step (.setCapacity slot n) s)
        s.succeeds (.step (.setCapacity slot n)) = true →
        s.values.get? slot = some v → t.values.get? slot = some v' →
        v'.values t.world = v.values s.world ∧ v'.length = v.length ∧
          (v.isCapacityMutable s.world = true → n ≤ v'.capacity t.world)) ∧
      ∀ value view v f, s.values.get? value = some v → s.views.get? view = some f →
        s.succeeds (.step (.view value view)) = true ∧
          (∀ offset count, s.succeeds (.step (.sliceView view offset count)) = true) ∧
          s.succeeds (.step (.dropView view)) = true ∧
          (v.isImmutable s.world = false → v.kind = f.kind →
            s.succeeds (.step (.swap value view)) = true ∧
              s.succeeds (.step (.install value view)) = true ∧
              s.succeeds (.pass value view) = true ∧
              ∀ n ≤ v.length, s.succeeds (.step (.setLength value n)) = true) := by
  intro s
  obtain ⟨sound, shown⟩ : s.Sound [] ∧ s.shows = (start system).shows.run _ :=
    moveAll_follows (sound_start system) moves
  exact ⟨shown, fun slot v found => (sound.length_values found).symm,
    fun more slot apart => moveAll_arrays sound apart,
    fun more slot apart => moveAll_views sound apart,
    fun slot n v v' done found found' => setCapacity_room sound done found found',
    fun value view v f found found' => succeeds_found found found'⟩

/-- An array is shortened, lengthened again and given room beside two views of it, one of
which is narrowed and exchanged with the array. -/
theorem moveAll_shows_lists_exchanged :
    let moves : List ArrayMove := [.step (.create 0 ⟨"x", .int⟩ none),
      .step (.put 0 [.int 1, .int 2, .int 3]), .step (.view 0 0), .step (.view 0 1),
      .step (.setLength 0 1), .step (.setLength 0 2), .step (.sliceView 1 1 2)]
    let s := (start .machine).moveAll moves
    let t := s.moveAll [.step (.swap 0 1), .step (.drop 0)]
    let u := Outcome.state (step (.setCapacity 0 9) s)
    s.shows.arrays 0 = some ⟨.int, [.int 1, .int 0]⟩ ∧
      s.shows.views 1 = some ⟨.int, [.int 2, .int 3]⟩ ∧
      t.shows.views 0 = some ⟨.int, [.int 1, .int 2, .int 3]⟩ ∧
      s.succeeds (.step (.swap 0 1)) = true ∧
      ∃ v, u.values.get? 0 = some v ∧ v.values u.world = [.int 1, .int 0] ∧
        9 ≤ v.capacity u.world := by
  intro moves s t u
  obtain ⟨shown, -, -, views, room, free⟩ := moveAll_shows_lists .machine moves
  have other : t.shows.views 0 = s.shows.views 0 := views _ 0 (by decide)
  have before : ∃ v ∈ s.values.get? 0, ∃ f ∈ s.views.get? 1,
      v.values s.world = [.int 1, .int 0] ∧ v.isImmutable s.world = false ∧
        v.isCapacityMutable s.world = true ∧ v.kind = f.kind := by decide +kernel
  obtain ⟨v, found, f, viewed, shows, mutable, roomy, kind⟩ := before
  obtain ⟨v', found'⟩ : ∃ v', u.values.get? 0 = some v' :=
    Option.isSome_iff_exists.1 (by decide +kernel)
  obtain ⟨kept, -, large⟩ := room 0 9 v v' (by decide +kernel) found found'
  obtain ⟨-, -, -, written⟩ := free 0 1 v f found viewed
  exact ⟨(congrArg (fun p => p.arrays 0) shown).trans (by decide +kernel),
    (congrArg (fun p => p.views 1) shown).trans (by decide +kernel),
    other.trans ((congrArg (fun p => p.views 0) shown).trans (by decide +kernel)),
    (written mutable kind).1, v', found', kept.trans shows, large roomy⟩

end ArrayState

end ArrayStore.Session
