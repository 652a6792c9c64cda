import ArrayStore.Proofs.Session.Mixed

/-! Operations on arrays that fail.
Main statement: in whatever state of the session an operation on an array fails,
nothing can be told from before, neither of the array nor of anything else, but
that a vector that was passed in to replace the content is gone. -/

namespace ArrayStore

namespace FieldValue

/-- An operation has failed that takes memory or reads. -/
inductive Failed (v : FieldValue) (w : World) (v' : FieldValue) (w' : World) : Prop where
  | setLength (n : Nat) (e : Error) (run : setLength n (v, w) = .error e (v', w'))
  | setCapacity (n : Nat) (e : Error) (run : setCapacity n (v, w) = .error e (v', w'))
  | putFrom (values : List Scalar) (e : Error) (run : putFrom values (v, w) = .error e (v', w'))
  | deserialize (input input' : Incoming) (e : Error)
    (run : deserialize (v, w, input) = .error e (v', w', input'))

/-- A value and a world before and after an operation, of which nothing can be told apart, nor of
other vectors. -/
structure Unchanged (v : FieldValue) (w : World) (others : List Frozen) (v' : FieldValue)
    (w' : World) : Prop where
  values : v'.values w' = v.values w
  length : v'.length = v.length
  capacity : v'.capacity w' = v.capacity w
  address : w'.store.address v'.value = w.store.address v.value
  holders : w'.store.holders v'.value = w.store.holders v.value
  /-- The field, the allocator, the token, the owner and the mark on the capacity. -/
  marks : v' = { v with value := v'.value }
  isImmutable : v'.isImmutable w' = v.isImmutable w
  isCapacityMutable : v'.isCapacityMutable w' = v.isCapacityMutable w
  flags : w'.flags = w.flags
  trackers : w'.trackers = w.trackers ∧ w'.tracked = w.tracked
  others : w.store.Alike w'.store others
  numAllocs : ∀ id, (w'.store.allocators.snapshot (.pool id)).numAllocs =
    (w.store.allocators.snapshot (.pool id)).numAllocs

variable {v v' : FieldValue} {w w' : World} {l : List Holding}

theorem Untouched.unchanged (u : Untouched v w l v' w') (h : w.store.Owns (v.holdings ++ l)) :
    Unchanged v w (Holding.frozens l) v' w' := by
  have marks := u.value_eq
  have world := u.world_eq
  have flags : w'.flags = w.flags := (congrArg World.flags world).trans rfl
  have token : v'.token = v.token := (congrArg FieldValue.token marks).trans rfl
  have immutable : v'.isImmutable w' = v.isImmutable w := by
    rw [FieldValue.isImmutable, flags, token]
    rfl
  have counted : v'.capacityMutable = v.capacityMutable :=
    (congrArg FieldValue.capacityMutable marks).trans rfl
  refine {
    values := u.values_eq
    length := u.length_eq
    capacity := congrArg Sight.capacity u.sight_eq
    address := congrArg Sight.address u.sight_eq
    holders := congrArg Sight.holders u.sight_eq
    marks := marks
    isImmutable := immutable
    isCapacityMutable := by rw [FieldValue.isCapacityMutable, immutable, counted]; rfl
    flags := flags
    trackers :=
      ⟨(congrArg World.trackers world).trans rfl, (congrArg World.tracked world).trans rfl⟩
    others := u.alike
    numAllocs := fun id => ?_ }
  -- Neither the value nor its content is a writable vector, so only cells matter.
  have loose : Holding.loose (v'.holdings ++ l) = Holding.loose (v.holdings ++ l) := rfl
  rw [u.owns.lends.numAllocs, h.lends.numAllocs, loose]
  exact (u.blocks.append_right _).countP_eq _

theorem Failed.unchanged (failed : Failed v w v' w') (h : w.store.Owns (v.holdings ++ l))
    (kind : v.value.kind = v.kind) : Unchanged v w (Holding.frozens l) v' w' := by
  suffices Untouched v w l v' w' from this.unchanged h
  cases failed with
  | setLength n e run =>
    have spec := setLength_spec h n
    rwa [run] at spec
  | setCapacity n e run =>
    have spec := setCapacity_spec h n
    rwa [run] at spec
  | putFrom values e run =>
    have spec := putFrom_spec h kind values
    rwa [run] at spec
  | deserialize input input' e run =>
    have spec := deserialize_spec h kind input
    rwa [run] at spec

end FieldValue

namespace Session.MixedState

open FieldValue (Failed Unchanged)

/-- Whatever is shared and however little memory is left: an operation on an array that fails
leaves all as it was, but that a vector passed in to replace the content is dropped. -/
theorem failed_unchanged (system : System) (moves : List MixedMove) :
    let s := (start system).runAll moves
    let w := s.arrays.world
    ∀ slot v, s.arrays.values.get? slot = some v →
      let rest := { s with arrays.values := s.arrays.values.erase slot }
      (∀ v' w', Failed v w v' w' → Unchanged v w (Holding.frozens rest.holdings) v' w') ∧
      (∀ view f e v' w', s.arrays.views.get? view = some f →
        FieldValue.replace f (v, w) = .error e (v', w') →
        v' = v ∧ w' = { w with store := w'.store } ∧
          let others := { rest with arrays.views := s.arrays.views.erase view }
          ∀ g ∈ v.value :: Holding.frozens others.holdings,
            w.store.sight g = { w'.store.sight g with
              holders := w'.store.holders g + if g.cell.isSome ∧ g.cell = f.cell then 1 else 0 }) ∧
      ∀ other e v' other' w', FieldValue.swap (v, other, w) = .error e (v', other', w') →
        v' = v ∧ other' = other ∧ w' = w := by
  intro s w slot v found rest
  have sound : s.Sound := runAll_sound (sound_start system) moves
  have owns : w.store.Owns (v.holdings ++ rest.holdings) := sound.arrays.value found
  refine ⟨fun v' w' failed => failed.unchanged owns (sound.arrays.fits slot v found),
    fun view f e v' w' found' run => ?_, fun other e v' other' w' run => FieldValue.swap_error run⟩
  obtain ⟨rfl, rfl⟩ := FieldValue.replace_error run
  refine ⟨rfl, rfl, fun g member => ?_⟩
  have both := ((sound.arrays.takeValue found).1.takeView found').1.owns
  rw [List.cons_append, List.append_assoc] at both
  exact both.sight_dropped member

/-- A pool of a single block, on which an array and a view lie. The array cannot be lengthened,
since that takes a copy; once it is immutable its content cannot be replaced by the view. -/
theorem failed_unchanged_capped :
    let moves : List MixedMove := [.array (.build ⟨"single", some 4, .capped 1, 0⟩ 4),
      .array (.step (.create 0 ⟨"x", .int⟩ (some 0))),
      .array (.step (.put 0 [.int 1, .int 2, .int 3])), .array (.step (.view 0 0)),
      .array (.step (.sliceView 0 1 1))]
    let s := (start .machine).runAll moves
    let t := (start .machine).runAll (moves ++ [.array (.step (.setImmutable 0))])
    (∃ v e v' w', s.arrays.values.get? 0 = some v ∧
      FieldValue.setLength 5 (v, s.arrays.world) = .error e (v', w') ∧
      v'.values w' = [.int 1, .int 2, .int 3] ∧ w'.store.holders v'.value = 2 ∧
      (w'.store.allocators.snapshot (.pool 0)).numAllocs = 1) ∧
    ∃ v f e v' w', t.arrays.values.get? 0 = some v ∧ t.arrays.views.get? 0 = some f ∧
      FieldValue.replace f (v, t.arrays.world) = .error e (v', w') ∧ v' = v ∧
      t.arrays.world.store.holders v.value = w'.store.holders v.value + 1 := by
  intro moves s t
  constructor
  · have fails : ∃ v ∈ s.arrays.values.get? 0, v.values s.arrays.world = [.int 1, .int 2, .int 3] ∧
        s.arrays.world.store.holders v.value = 2 ∧
        (match FieldValue.setLength 5 (v, s.arrays.world) with
          | .ok .. => false
          | .error .. => true) = true := by decide +kernel
    obtain ⟨v, found, values, two, failed⟩ := fails
    cases run : FieldValue.setLength 5 (v, s.arrays.world) with
    | ok _ _ =>
      rw [run] at failed
      cases failed
    | error e p =>
      have unchanged := (failed_unchanged .machine moves 0 v found).1 p.1 p.2 (.setLength 5 e run)
      exact ⟨v, e, p.1, p.2, found, run ▸ rfl, unchanged.values.trans values,
        unchanged.holders.trans two, (unchanged.numAllocs 0).trans (by decide +kernel)⟩
  · have refused : ∃ v ∈ t.arrays.values.get? 0, ∃ f ∈ t.arrays.views.get? 0,
        v.isImmutable t.arrays.world = true ∧ v.value.cell.isSome = true ∧
          v.value.cell = f.cell := by decide +kernel
    obtain ⟨v, found, f, found', immutable, block, same⟩ := refused
    have run : FieldValue.replace f (v, t.arrays.world) = .error (.immutable v.field.name)
        (v, { t.arrays.world with store := t.arrays.world.store.drop f }) := by
      simp only [FieldValue.replace, immutable, if_true]
    have replaced := (failed_unchanged .machine _ 0 v found).2.1 0 f _ _ _ found' run
    have sight := congrArg Sight.holders (replaced.2.2 v.value List.mem_cons_self)
    rw [if_pos ⟨block, same⟩] at sight
    exact ⟨v, f, _, _, _, found, found', run, rfl, sight⟩

end Session.MixedState

end ArrayStore
