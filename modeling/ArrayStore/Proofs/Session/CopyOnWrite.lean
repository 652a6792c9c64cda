import ArrayStore.Proofs.Session.Slots

/-! Copy on write cannot be seen.
Main statement: after any run of steps every slot shows what its plain
counterpart does. Whether a step that takes memory succeeds is read off the run
itself. -/

namespace ArrayStore.Session

namespace VectorState

variable {k : Kind} {s : VectorState} {store : Store}

/-- The outcome of a step is that of the plain step. -/
def Refines (k : Kind) (p : Plain) (step : VectorStep) : Outcome VectorState VectorReply → Prop
  | .ok _ t => t.Sound k ∧ t.shows = p.step k true step
  | .error _ t => t.Sound k ∧ t.shows = p.step k false step

theorem make_refines {r : Outcome Store VectorSlot} {shown : Shown} {step : VectorStep}
    (h : s.Sound k) (slot : Nat)
    (taken : ∀ done, s.shows.step k done step =
      if done then s.shows.put slot (some shown) else s.shows)
    (spec : match r with
      | .ok v store =>
        store.Holds (held (some v) ++ frozens s.slots) ∧ s.store.Keeps store (frozens s.slots) ∧
          v.Fits k ∧ v.shown store = shown
      | .error _ store =>
        store.Holds (frozens s.slots) ∧ s.store.Keeps store (frozens s.slots)) :
    Refines k s.shows step (s.make slot r) := by
  cases r with
  | error e store =>
    obtain ⟨sound, shows⟩ := h.keep spec.1 spec.2
    exact ⟨sound, shows.trans (taken false).symm⟩
  | ok v store =>
    obtain ⟨holds, keeps, fits, rfl⟩ := spec
    obtain ⟨sound, shows⟩ := put_spec h slot holds keeps fits
    exact ⟨sound, shows.trans (taken true).symm⟩

theorem onAllocators_spec {change : Change Allocators Writable} {values : List Scalar}
    (h : s.Sound k)
    (spec : ∀ w m, change s.store.allocators = .ok w m →
      w.Sound ∧ w.kind = k ∧ w.values = values) :
    match asWritable (Store.onAllocators change s.store) with
    | .ok v store =>
      store.Holds (held (some v) ++ frozens s.slots) ∧ s.store.Keeps store (frozens s.slots) ∧
        v.Fits k ∧ v.shown store = .writable values
    | .error _ store =>
      store.Holds (frozens s.slots) ∧ s.store.Keeps store (frozens s.slots) := by
  simp only [Store.onAllocators]
  cases run : change s.store.allocators with
  | error e m => exact h.holds.congr rfl rfl
  | ok w m =>
    obtain ⟨sound, kind, exact⟩ := spec w m run
    obtain ⟨holds, keeps⟩ := h.holds.congr (t := { s.store with allocators := m }) rfl rfl
    exact ⟨holds, keeps, ⟨sound, kind⟩, congrArg Shown.writable exact⟩

theorem change_refines {change : Change (Writable × Allocators) Unit} {step : VectorStep}
    {w : Writable} {slot : Nat} (values : List Scalar) (h : s.Sound k)
    (found : s.slots.get? slot = some (.writable w))
    (taken : ∀ done, s.shows.step k done step =
      if done then s.shows.put slot (some (.writable values)) else s.shows)
    (spec : match change (w, s.store.allocators) with
      | .ok () t => t.1.Sound ∧ t.1.kind = k ∧ t.1.values = values
      | .error _ t => t.1 = w) :
    Refines k s.shows step (s.change slot w change) := by
  have split := h.split slot
  rw [found] at split
  simp only [VectorState.change, Store.onWritable]
  cases run : change (w, s.store.allocators) with
  | error e t =>
    obtain ⟨v, m⟩ := t
    rw [run] at spec
    have unchanged : v = w := spec
    obtain ⟨holds, keeps⟩ := split.congr (t := { s.store with allocators := m }) rfl rfl
    rw [unchanged]
    obtain ⟨sound, shows⟩ := h.fill slot (.writable w) holds keeps (h.fits slot _ found)
    refine ⟨sound, shows.trans ?_⟩
    have same : some (Shown.writable w.values) = s.shows slot := (shows_of_get? found).symm
    rw [taken, VectorSlot.shown, same, Plain.put_self, if_neg Bool.false_ne_true]
  | ok _ t =>
    obtain ⟨v, m⟩ := t
    rw [run] at spec
    obtain ⟨sound, kind, exact⟩ := spec
    obtain ⟨holds, keeps⟩ := split.congr (t := { s.store with allocators := m }) rfl rfl
    obtain ⟨sound', shows⟩ := h.fill slot (.writable v) holds keeps ⟨sound, kind⟩
    refine ⟨sound', shows.trans ?_⟩
    rw [taken, VectorSlot.shown, exact, if_pos rfl]

theorem swap_frozen {slot other : Nat} {a b : Frozen} (h : s.Sound k)
    (found : s.slots.get? slot = some (.frozen a)) (apart : other ≠ slot)
    (found' : s.slots.get? other = some (.frozen b)) :
    let slots := (s.slots.insert slot (.frozen b)).insert other (.frozen a)
    Sound k { s with slots } ∧ shows { s with slots } =
      (s.shows.put slot (some (.frozen (s.store.values b)))).put other
        (some (.frozen (s.store.values a))) := by
  have sorted := Table.insert_sorted h.sorted slot (.frozen b)
  have there : (s.slots.erase slot).get? other = some (.frozen b) := by
    rw [Table.get?_erase, if_neg apart, found']
  have before := frozens_perm h.sorted slot
  have between := frozens_perm (Table.erase_sorted h.sorted slot) other
  have after := frozens_set_perm sorted other (some (.frozen a))
  have rest := (Table.insert_erase_perm h.sorted (Ne.symm apart) (.frozen b)).filterMap
    fun e => e.2.frozen?
  rw [found] at before
  rw [there] at between
  rw [filterMap_cons_frozen?] at rest
  have same : (frozens s.slots).Perm
      (frozens ((s.slots.insert slot (.frozen b)).insert other (.frozen a))) :=
    (before.trans (between.cons a)).trans (after.trans (rest.cons a)).symm
  refine ⟨⟨h.kind_eq, Table.insert_sorted sorted other _, h.holds.perm same, fun i v eq => ?_⟩,
    funext fun i => ?_⟩
  · simp only [Table.get?_insert] at eq
    split at eq
    · cases eq
      exact h.fits slot _ found
    · split at eq
      · cases eq
        exact h.fits other _ found'
      · exact h.fits i v eq
  · simp only [shows, Plain.put, Table.get?_insert]
    split
    · rfl
    · split <;> rfl

/-! One lemma for each kind of step. A step on an empty slot, or on a vector of
the other form, is idle on both sides. -/

theorem create_refines (h : s.Sound k) (slot : Nat) (pool : Option Nat) :
    Refines k s.shows (.create slot pool) (VectorState.step (.create slot pool) s) := by
  obtain ⟨holds, keeps⟩ := h.holds.congr
    (t := (s.store.emptyWritable s.kind (s.allocator pool)).2) rfl rfl
  exact put_spec h slot holds keeps ⟨Writable.empty_sound _ _ s.store.allocators, h.kind_eq⟩

theorem ofList_refines (h : s.Sound k) (slot : Nat) (values : List Scalar) (pool : Option Nat) :
    Refines k s.shows (.ofList slot values pool)
      (VectorState.step (.ofList slot values pool) s) := by
  refine make_refines h slot (fun _ => rfl) (onAllocators_spec h fun w m run => ?_)
  rw [h.kind_eq] at run
  exact Writable.ofList_ok run

theorem frozenOfList_refines (h : s.Sound k) (slot : Nat) (values : List Scalar) :
    Refines k s.shows (.frozenOfList slot values)
      (VectorState.step (.frozenOfList slot values) s) := by
  refine make_refines h slot (fun _ => rfl) ?_
  have made := h.holds.ofList s.kind .shared values
  cases run : Store.ofList s.kind .shared values s.store with
  | error e store =>
    rw [run] at made
    exact made
  | ok f store =>
    rw [run] at made
    obtain ⟨holds, keeps, same, exact⟩ := made
    exact ⟨holds, keeps, same.trans h.kind_eq, congrArg Shown.frozen exact⟩

theorem emptyFrozen_refines (h : s.Sound k) (slot : Nat) :
    Refines k s.shows (.emptyFrozen slot) (VectorState.step (.emptyFrozen slot) s) := by
  have holds := h.holds.cons_bare (f := .empty s.kind) rfl rfl
  obtain ⟨sound, shows⟩ := put_spec (v := .frozen (.empty s.kind)) h slot holds
    (fun _ _ => rfl) h.kind_eq
  exact ⟨sound, shows.trans (by rw [VectorSlot.shown, Store.values_none rfl]; rfl)⟩

theorem blank_refines (h : s.Sound k) (slot length : Nat) (zero : Bool) (pool : Option Nat) :
    Refines k s.shows (.blank slot length zero pool)
      (VectorState.step (.blank slot length zero pool) s) := by
  refine make_refines h slot (fun _ => rfl) (onAllocators_spec h fun w m run => ?_)
  rw [h.kind_eq] at run
  exact Writable.blank_ok run

theorem freeze_refines (h : s.Sound k) (slot : Nat) :
    Refines k s.shows (.freeze slot) (VectorState.step (.freeze slot) s) := by
  have split := h.split slot
  cases found : s.slots.get? slot with
  | none =>
    simp only [VectorState.step, found]
    exact ⟨h, by simp only [Plain.step, shows_of_none found]⟩
  | some v =>
    have plain := shows_of_get? found
    rw [found] at split
    cases v with
    | frozen f =>
      simp only [VectorState.step, found]
      exact ⟨h, by simp only [Plain.step, plain, VectorSlot.shown]⟩
    | writable w =>
      obtain ⟨sound, fits⟩ := h.fits slot _ found
      obtain ⟨holds, keeps⟩ := split.freeze sound
      obtain ⟨sound', shows⟩ := h.fill slot (.frozen (s.store.freeze w).1) holds keeps
        ((Store.kind_freeze s.store w).trans fits)
      simp only [VectorState.step, found]
      refine ⟨sound', shows.trans ?_⟩
      simp only [Plain.step, plain, VectorSlot.shown, Store.values_freeze]

theorem thaw_refines (h : s.Sound k) (slot : Nat) (pool : Option Nat) :
    Refines k s.shows (.thaw slot pool) (VectorState.step (.thaw slot pool) s) := by
  have split := h.split slot
  cases found : s.slots.get? slot with
  | none =>
    simp only [VectorState.step, found]
    exact ⟨h, by simp only [Plain.step, shows_of_none found]⟩
  | some v =>
    have plain := shows_of_get? found
    rw [found] at split
    cases v with
    | writable w =>
      simp only [VectorState.step, found]
      exact ⟨h, by simp only [Plain.step, plain, VectorSlot.shown]⟩
    | frozen f =>
      have thawed := split.thaw (s.allocator pool)
      simp only [VectorState.step, found]
      cases run : Store.thaw f (s.allocator pool) s.store with
      | error e store =>
        rw [run] at thawed
        obtain ⟨sound, shows⟩ := h.clear slot thawed.1 thawed.2
        refine ⟨sound, shows.trans ?_⟩
        simp only [Plain.step, plain, VectorSlot.shown, if_neg Bool.false_ne_true]
      | ok w store =>
        rw [run] at thawed
        obtain ⟨holds, keeps, sound, same, exact⟩ := thawed
        obtain ⟨sound', shows⟩ := h.fill slot (.writable w) holds keeps
          ⟨sound, same.trans (h.fits slot _ found)⟩
        refine ⟨sound', shows.trans ?_⟩
        simp only [Plain.step, plain, VectorSlot.shown, exact, if_pos]

theorem clone_refines (h : s.Sound k) (slot other : Nat) :
    Refines k s.shows (.clone slot other) (VectorState.step (.clone slot other) s) := by
  have parts := frozens_perm h.sorted slot
  cases found : s.slots.get? slot with
  | none =>
    simp only [VectorState.step, found]
    exact ⟨h, by simp only [Plain.step, shows_of_none found]⟩
  | some v =>
    have plain := shows_of_get? found
    rw [found] at parts
    cases v with
    | writable w =>
      simp only [VectorState.step, found]
      exact ⟨h, by simp only [Plain.step, plain, VectorSlot.shown]⟩
    | frozen f =>
      obtain ⟨holds, keeps⟩ := (h.holds.perm parts).clone
      have kept : s.store.Keeps (s.store.clone f) (frozens s.slots) := fun g member =>
        keeps g (parts.mem_iff.1 member)
      obtain ⟨sound, shows⟩ := put_spec (v := .frozen f) h other
        (holds.perm (parts.symm.cons f)) kept (h.fits slot _ found)
      simp only [VectorState.step, found]
      refine ⟨sound, shows.trans ?_⟩
      simp only [Plain.step, plain, VectorSlot.shown, kept f (mem_frozens slot found)]

theorem drop_refines (h : s.Sound k) (slot : Nat) :
    Refines k s.shows (.drop slot) (VectorState.step (.drop slot) s) := by
  have split := h.split slot
  cases found : s.slots.get? slot with
  | none =>
    simp only [VectorState.step, found]
    exact ⟨h, by rw [Plain.step, ← shows_of_none found, Plain.put_self]⟩
  | some v =>
    rw [found] at split
    obtain ⟨holds, keeps⟩ := discard_spec split
    simp only [VectorState.step, found]
    exact h.clear slot holds keeps

theorem slice_refines (h : s.Sound k) (slot offset count : Nat) :
    Refines k s.shows (.slice slot offset count)
      (VectorState.step (.slice slot offset count) s) := by
  have split := h.split slot
  cases found : s.slots.get? slot with
  | none =>
    have empty := shows_of_none found
    simp only [VectorState.step, found]
    exact ⟨h, by rw [Plain.step, empty, Option.map_none, ← empty, Plain.put_self]⟩
  | some v =>
    have plain := shows_of_get? found
    rw [found] at split
    cases v with
    | writable w =>
      obtain ⟨sound, fits⟩ := h.fits slot _ found
      obtain ⟨sound', shows⟩ := h.fill slot (.writable (w.slice offset count)) split
        (fun _ _ => rfl) ⟨Writable.slice_sound sound offset count, fits⟩
      simp only [VectorState.step, found]
      refine ⟨sound', shows.trans ?_⟩
      simp only [Plain.step, plain, Option.map_some, VectorSlot.shown, Shown.map,
        Writable.values_slice sound]
    | frozen f =>
      obtain ⟨holds, exact⟩ := split.slice offset count
      have same : f.kind = k := h.fits slot _ found
      obtain ⟨sound', shows⟩ := h.fill slot (.frozen (f.slice offset count)) holds
        (fun _ _ => rfl) same
      simp only [VectorState.step, found]
      refine ⟨sound', shows.trans ?_⟩
      simp only [Plain.step, plain, Option.map_some, VectorSlot.shown, Shown.map, exact]

theorem reserve_refines (h : s.Sound k) (slot capacity : Nat) :
    Refines k s.shows (.reserve slot capacity) (VectorState.step (.reserve slot capacity) s) := by
  cases found : s.slots.get? slot with
  | none =>
    simp only [VectorState.step, found]
    exact ⟨h, rfl⟩
  | some v =>
    cases v with
    | frozen f =>
      simp only [VectorState.step, found]
      exact ⟨h, rfl⟩
    | writable w =>
      have plain : s.shows slot = some (.writable w.values) := shows_of_get? found
      obtain ⟨sound, fits⟩ := h.fits slot _ found
      simp only [VectorState.step, found]
      refine change_refines w.values h found (fun done => ?_) ?_
      · rw [← plain, Plain.put_self, ite_self]
        rfl
      · cases run : Writable.reserve capacity (w, s.store.allocators) with
        | error e t => exact Writable.reserve_error run
        | ok _ t =>
          obtain ⟨sound', exact, same, -⟩ := Writable.reserve_ok sound run
          exact ⟨sound', same.trans fits, exact⟩

theorem resize_refines (h : s.Sound k) (slot length : Nat) :
    Refines k s.shows (.resize slot length) (VectorState.step (.resize slot length) s) := by
  cases found : s.slots.get? slot with
  | none =>
    simp only [VectorState.step, found]
    exact ⟨h, by simp only [Plain.step, shows_of_none found]⟩
  | some v =>
    have plain := shows_of_get? found
    cases v with
    | frozen f =>
      simp only [VectorState.step, found]
      exact ⟨h, by simp only [Plain.step, plain, VectorSlot.shown]⟩
    | writable w =>
      obtain ⟨sound, fits⟩ := h.fits slot _ found
      simp only [VectorState.step, found]
      refine change_refines
        (w.values.take length ++ List.replicate (length - w.values.length) k.blank) h found
        (fun done => by simp only [Plain.step, plain, VectorSlot.shown]) ?_
      cases run : Writable.resize length (w, s.store.allocators) with
      | error e t => exact Writable.resize_error run
      | ok _ t =>
        obtain ⟨sound', same, exact⟩ := Writable.resize_ok sound run
        exact ⟨sound', same.trans fits, by rw [exact, fits, Writable.length_values sound]⟩

theorem set_refines (h : s.Sound k) (slot index : Nat) (value : Scalar) :
    Refines k s.shows (.set slot index value)
      (VectorState.step (.set slot index value) s) := by
  have split := h.split slot
  cases found : s.slots.get? slot with
  | none =>
    simp only [VectorState.step, found]
    exact ⟨h, by simp only [Plain.step, shows_of_none found]⟩
  | some v =>
    have plain := shows_of_get? found
    rw [found] at split
    cases v with
    | frozen f =>
      simp only [VectorState.step, found]
      exact ⟨h, by simp only [Plain.step, plain, VectorSlot.shown]⟩
    | writable w =>
      obtain ⟨sound, fits⟩ := h.fits slot _ found
      by_cases visible : index < w.length
      · obtain ⟨v, set, sound', same, exact⟩ := Writable.set?_of_lt value sound visible
        obtain ⟨sound'', shows⟩ := h.fill slot (.writable v) split (fun _ _ => rfl)
          ⟨sound', same.trans fits⟩
        simp only [VectorState.step, found, set]
        refine ⟨sound'', shows.trans ?_⟩
        simp only [Plain.step, plain, VectorSlot.shown, exact]
      · have out : w.length ≤ index := Nat.le_of_not_lt visible
        have kept : w.values.set index value = w.values :=
          List.set_eq_of_length_le (by rwa [Writable.length_values sound])
        simp only [VectorState.step, found, Writable.set?_eq_none index value out]
        refine ⟨h, ?_⟩
        simp only [Plain.step, plain, VectorSlot.shown, kept]
        rw [show some (Shown.writable w.values) = s.shows slot from plain.symm, Plain.put_self]

theorem distinct_of_get?_erase {slot other : Nat} {v : VectorSlot}
    (found : (s.slots.erase slot).get? other = some v) :
    other ≠ slot ∧ s.slots.get? other = some v := by
  rw [Table.get?_erase] at found
  split at found
  · cases found
  · next apart => exact ⟨apart, found⟩

theorem shows_put_none (slot other : Nat) :
    s.shows.put slot none other =
      ((s.slots.erase slot).get? other).map (·.shown s.store) := by
  simp only [Plain.put, Table.get?_erase, shows]
  split <;> rfl

theorem swap_writable {slot other : Nat} {a b : Writable} (h : s.Sound k)
    (found : s.slots.get? slot = some (.writable a)) (apart : other ≠ slot)
    (found' : s.slots.get? other = some (.writable b)) :
    let slots := (s.slots.insert slot (.writable b)).insert other (.writable a)
    Sound k { s with slots } ∧ shows { s with slots } =
      (s.shows.put slot (some (.writable b.values))).put other (some (.writable a.values)) := by
  have split := h.split slot
  rw [found] at split
  obtain ⟨sound, shows⟩ := h.fill slot (.writable b) split (fun _ _ => rfl)
    (h.fits other _ found')
  have moved : (s.slots.insert slot (.writable b)).get? other = some (.writable b) := by
    rw [Table.get?_insert, if_neg apart, found']
  have split' := sound.split other
  rw [moved] at split'
  obtain ⟨sound', shows'⟩ := sound.fill other (.writable a) split' (fun _ _ => rfl)
    (h.fits slot _ found)
  exact ⟨sound', shows'.trans (by rw [shows]; rfl)⟩

theorem swap_refines (h : s.Sound k) (slot other : Nat) :
    Refines k s.shows (.swap slot other) (VectorState.step (.swap slot other) s) := by
  have split := h.split slot
  have after := shows_put_none (s := s) slot other
  cases found : s.slots.get? slot with
  | none =>
    simp only [VectorState.step, found]
    exact ⟨h, by simp only [Plain.step, shows_of_none found]⟩
  | some v =>
    have plain := shows_of_get? found
    rw [found] at split
    cases found' : (s.slots.erase slot).get? other with
    | none =>
      obtain ⟨holds, keeps⟩ := discard_spec split
      obtain ⟨sound, shows⟩ := h.clear slot holds keeps
      simp only [VectorState.step, found, found']
      refine ⟨sound, shows.trans ?_⟩
      simp only [Plain.step, after, found', plain, Option.map_none]
    | some u =>
      obtain ⟨apart, there⟩ := distinct_of_get?_erase found'
      rw [found', Option.map_some] at after
      cases v with
      | writable a =>
        cases u with
        | writable b =>
          obtain ⟨sound, shows⟩ := swap_writable h found apart there
          simp only [VectorState.step, found, found']
          exact ⟨sound, shows.trans (by simp only [Plain.step, after, plain, VectorSlot.shown])⟩
        | frozen b =>
          simp only [VectorState.step, found, found']
          exact ⟨h, by simp only [Plain.step, after, plain, VectorSlot.shown]⟩
      | frozen a =>
        cases u with
        | writable b =>
          simp only [VectorState.step, found, found']
          exact ⟨h, by simp only [Plain.step, after, plain, VectorSlot.shown]⟩
        | frozen b =>
          obtain ⟨sound, shows⟩ := swap_frozen h found apart there
          simp only [VectorState.step, found, found']
          exact ⟨sound, shows.trans (by simp only [Plain.step, after, plain, VectorSlot.shown])⟩

theorem step_refines (h : s.Sound k) (step : VectorStep) :
    Refines k s.shows step (VectorState.step step s) := by
  cases step with
  | create slot pool => exact create_refines h slot pool
  | ofList slot values pool => exact ofList_refines h slot values pool
  | frozenOfList slot values => exact frozenOfList_refines h slot values
  | emptyFrozen slot => exact emptyFrozen_refines h slot
  | blank slot length zero pool => exact blank_refines h slot length zero pool
  | freeze slot => exact freeze_refines h slot
  | thaw slot pool => exact thaw_refines h slot pool
  | clone slot other => exact clone_refines h slot other
  | drop slot => exact drop_refines h slot
  | slice slot offset count => exact slice_refines h slot offset count
  | reserve slot capacity => exact reserve_refines h slot capacity
  | resize slot length => exact resize_refines h slot length
  | set slot index value => exact set_refines h slot index value
  | swap slot other => exact swap_refines h slot other

def succeeds (s : VectorState) (step : VectorStep) : Bool :=
  match VectorState.step step s with
  | .ok .. => true
  | .error .. => false

def verdicts (s : VectorState) : List VectorStep → List (VectorStep × Bool)
  | [] => []
  | step :: steps =>
    (step, s.succeeds step) :: verdicts (Outcome.state (VectorState.step step s)) steps

theorem step_spec (h : s.Sound k) (step : VectorStep) :
    (Outcome.state (VectorState.step step s)).Sound k ∧
      (Outcome.state (VectorState.step step s)).shows =
        s.shows.step k (s.succeeds step) step := by
  have refines := step_refines h step
  unfold succeeds
  cases run : VectorState.step step s <;> rwa [run] at refines

theorem runAll_spec (h : s.Sound k) (steps : List VectorStep) :
    (s.runAll steps).Sound k ∧ (s.runAll steps).shows = s.shows.run k (s.verdicts steps) := by
  -- Soundness carries the induction: it is what one step hands to the next.
  induction steps generalizing s with
  | nil => exact ⟨h, rfl⟩
  | cons step steps ih =>
    obtain ⟨sound, shows⟩ := step_spec h step
    obtain ⟨sound', shows'⟩ := ih sound
    refine ⟨sound', shows'.trans ?_⟩
    rw [shows]
    rfl

theorem sound_start (k : Kind) (m : Allocators) (pools : List Allocator) :
    Sound k { kind := k, store := { allocators := m }, pools } :=
  ⟨rfl, .nil, Store.holds_nil m, fun _ _ eq => by cases eq⟩

/-- Whatever is shared, narrowed and moved underneath, the slots show what plain
slots do; a step leaves the other slots alone, and growth that fails its own. -/
theorem runAll_shows_plain (k : Kind) (m : Allocators) (pools : List Allocator)
    (steps : List VectorStep) :
    let start : VectorState := { kind := k, store := { allocators := m }, pools }
    let s := start.runAll steps
    s.shows = Plain.run k (fun _ => none) (start.verdicts steps) ∧
    ∀ step, let t := Outcome.state (VectorState.step step s)
      (∀ i, i ∉ step.targets → t.shows i = s.shows i) ∧
      ∀ slot n, step = .reserve slot n ∨ step = .resize slot n → s.succeeds step = false →
        t.shows = s.shows := by
  intro start s
  obtain ⟨sound, shows⟩ : s.Sound k ∧ s.shows = start.shows.run k (start.verdicts steps) :=
    runAll_spec (sound_start k m pools) steps
  refine ⟨shows, fun step => ?_⟩
  intro t
  have next : t.shows = s.shows.step k (s.succeeds step) step := (step_spec sound step).2
  refine ⟨fun i apart => ?_, fun slot n growth failed => ?_⟩
  · rw [next, Plain.step_of_not_target k s.shows _ apart]
  · rw [next, failed]
    obtain rfl | rfl := growth
    · rfl
    · simp only [Plain.step]
      split <;> rfl

/-- A narrowed copy is thawed, overwritten, shrunk and lengthened again beside
its source; then a request that is too large changes neither. -/
theorem runAll_shows_plain_copy :
    let start : VectorState := { kind := .int, store := { allocators := {} }, pools := [] }
    let s := start.runAll
      [.ofList 0 [.int 1, .int 2, .int 3, .int 4] none, .freeze 0, .clone 0 1, .slice 1 1 2,
        .thaw 1 none, .set 1 0 (.int 9), .resize 1 1, .resize 1 3]
    let t := Outcome.state (VectorState.step (.reserve 1 0x4000000000000000) s)
    s.shows 0 = some (.frozen [.int 1, .int 2, .int 3, .int 4]) ∧
      s.shows 1 = some (.writable [.int 9, .int 0, .int 0]) ∧
      t.shows 0 = s.shows 0 ∧ t.shows 1 = s.shows 1 := by
  intro start s t
  obtain ⟨shows, next⟩ := runAll_shows_plain .int {} []
    [.ofList 0 [.int 1, .int 2, .int 3, .int 4] none, .freeze 0, .clone 0 1, .slice 1 1 2,
      .thaw 1 none, .set 1 0 (.int 9), .resize 1 1, .resize 1 3]
  obtain ⟨others, failed⟩ := next (.reserve 1 0x4000000000000000)
  refine ⟨(congrFun shows 0).trans (by decide), (congrFun shows 1).trans (by decide),
    others 0 (by decide), congrFun (failed 1 _ (.inl rfl) (by decide)) 1⟩

end VectorState

end ArrayStore.Session
