import ArrayStore.Proofs.Session.Mixed
import ArrayStore.Proofs.Session.PoolSafety
import ArrayStore.Proofs.Vector.Coverage

/-! No request is served with too small a block.
An allocator compares products of element sizes and counts that a machine word
may not hold: the shared one refuses such a product, and a pool takes the largest
word in its place. Main statement: whatever was asked for before, a block that is
served is as large as the exact product, what arrays and vectors were given room
for lies within their capacity and their block, and room for more bytes than can
be numbered is refused. That the system grants no such request is part of what a
system is. -/

namespace ArrayStore

namespace FieldValue

variable {v v' : FieldValue} {w w' : World} {l : List Holding} {shown : List Scalar} {n : Nat}
  {e : Error} {t : FieldValue × World}

theorem modify_refused {change : Change (Writable × Allocators) Unit}
    (only : ∀ p e u, change p = .error e u → e.isAllocationFailure = true)
    (run : modify change (v, w) = .error e t) : e.isAllocationFailure = true := by
  simp only [modify] at run
  generalize thawed : Store.thaw v.value v.allocator _ = r at run
  cases r with
  | error e' s =>
    cases run
    exact Store.thaw_refused thawed
  | ok next s =>
    simp only [Store.onWritable] at run
    cases changed : change (next, s.allocators) with
    | error e' u =>
      simp only [changed] at run
      split at run <;> cases run <;> exact only _ _ _ changed
    | ok _ u =>
      simp only [changed] at run
      cases run

theorem setCapacity_refused (run : setCapacity n (v, w) = .error e t) :
    e.isAllocationFailure = true := by
  simp only [setCapacity] at run
  split at run
  · cases run
  · split at run
    · cases run
    · exact modify_refused (fun p _ _ => Writable.reserve_refused (w := p.1) (m := p.2)) run

theorem setLength_refused (free : v.isImmutable w = false)
    (run : setLength n (v, w) = .error e t) : e.isAllocationFailure = true := by
  simp only [setLength, free, Bool.false_eq_true, if_false] at run
  split at run
  · cases run
  · split at run
    · cases run
    · exact modify_refused (fun p _ _ => Writable.resize_refused (w := p.1) (m := p.2)) run

theorem Renewed.covers (h : Renewed v w l shown v' w') (room : n ≤ v'.capacity w') :
    w'.store.Covers v'.value n ∧ n * v.value.kind.footprint < addressBound := by
  have live : .frozen v'.value ∈ v'.holdings ++ l := by simp [holdings]
  exact ⟨h.owns.covers live room, h.kind_eq ▸ h.owns.bytes_lt live room⟩

theorem Renewed.covers_shown (h : Renewed v w l shown v' w') :
    w'.store.Covers v'.value shown.length ∧
      shown.length * v.value.kind.footprint < addressBound := by
  have live : .frozen v'.value ∈ v'.holdings ++ l := by simp [holdings]
  have size : shown.length = v'.value.length := h.values_eq ▸ h.owns.length_values live
  exact h.covers (size ▸ h.owns.length_le live)

theorem putFrom_covers {elements : List Scalar} (h : w.store.Owns (v.holdings ++ l))
    (kind : v.value.kind = v.kind) (run : putFrom elements (v, w) = .ok () (v', w')) :
    w'.store.Covers v'.value elements.length := by
  have renewed := putFrom_spec h kind elements
  rw [run] at renewed
  exact renewed.covers_shown.1

theorem setLength_covers (h : w.store.Owns (v.holdings ++ l))
    (run : setLength n (v, w) = .ok () (v', w')) :
    w'.store.Covers v'.value n ∧ n * v.value.kind.footprint < addressBound := by
  have renewed := setLength_spec h n
  rw [run] at renewed
  have size : (v.values w).length = v.length := h.length_values (by simp [holdings])
  have shown : ((v.values w).take n ++
      List.replicate (n - v.length) v.value.kind.blank).length = n := by
    rw [List.length_append, List.length_take, List.length_replicate, size]
    omega
  exact shown ▸ renewed.covers_shown

theorem setCapacity_covers (h : w.store.Owns (v.holdings ++ l))
    (free : v.isCapacityMutable w = true) (run : setCapacity n (v, w) = .ok () (v', w')) :
    w'.store.Covers v'.value n ∧ n * v.value.kind.footprint < addressBound := by
  have spec := setCapacity_spec h n
  rw [run] at spec
  exact spec.1.covers (spec.2 free)

theorem setLength_huge (h : w.store.Owns (v.holdings ++ l)) (free : v.isImmutable w = false)
    (huge : addressBound ≤ n * v.value.kind.footprint) :
    Outcome.Refused (setLength n (v, w)) :=
  Outcome.refused_of_huge (fun _ _ run => (setLength_covers h run).2)
    (fun _ _ => setLength_refused free) huge

theorem setCapacity_huge (h : w.store.Owns (v.holdings ++ l)) (free : v.isCapacityMutable w = true)
    (huge : addressBound ≤ n * v.value.kind.footprint) :
    Outcome.Refused (setCapacity n (v, w)) :=
  Outcome.refused_of_huge (fun _ _ run => (setCapacity_covers h free run).2)
    (fun _ _ => setCapacity_refused) huge

end FieldValue

namespace Session

/-- Whatever was requested, built, frozen, shared, dropped and refused before: a block that is
served has as many bytes as the exact product of what was asked for, and a pool serves no product
beyond its blocks. What is made from a list, made blank, thawed, given room or made longer has room
for all that was asked for, and room for more bytes than can be numbered is refused for want of
memory, whether it is a vector or an array that may change. -/
theorem runAll_covers (system : System) (registry : RegistryId) (steps : List PoolStep)
    (moves : List MixedMove) :
    (PoolState.runAll { allocators := { system }, registry } steps).allocators.ServesExactly ∧
    let s := (MixedState.start system).runAll moves
    let w := s.arrays.world
    let m := w.store.allocators
    m.ServesExactly ∧
    (∀ k a values u m', Writable.ofList k a values m = .ok u m' → u.Covers values.length) ∧
    (∀ k a n zero u m', Writable.blank k a n zero m = .ok u m' → u.Covers n) ∧
    (∀ u, .writable u ∈ s.holdings → ∀ n,
      (∀ u' m', Writable.reserve n (u, m) = .ok () (u', m') → u'.Covers n) ∧
      (∀ u' m', Writable.resize n (u, m) = .ok () (u', m') → u'.Covers n) ∧
      (addressBound ≤ n * u.kind.footprint →
        Outcome.Refused (Writable.reserve n (u, m)) ∧
          Outcome.Refused (Writable.resize n (u, m)))) ∧
    (∀ f, .frozen f ∈ s.holdings → ∀ fallback, m.Alive fallback → ∀ u t,
      Store.thaw f fallback w.store = .ok u t → u.Covers f.length) ∧
    ∀ slot v, s.arrays.values.get? slot = some v →
      (∀ elements v' w', FieldValue.putFrom elements (v, w) = .ok () (v', w') →
        w'.store.Covers v'.value elements.length) ∧
      ∀ n, (∀ v' w', FieldValue.setLength n (v, w) = .ok () (v', w') →
          w'.store.Covers v'.value n) ∧
        (v.isCapacityMutable w = true → ∀ v' w',
          FieldValue.setCapacity n (v, w) = .ok () (v', w') → w'.store.Covers v'.value n) ∧
        (addressBound ≤ n * v.kind.footprint →
          (v.isImmutable w = false → Outcome.Refused (FieldValue.setLength n (v, w))) ∧
          (v.isCapacityMutable w = true → Outcome.Refused (FieldValue.setCapacity n (v, w)))) := by
  have raw : PoolState.Sound (PoolState.runAll { allocators := { system }, registry } steps) :=
    PoolState.runAll_sound (PoolState.sound_start system registry) steps
  refine ⟨raw.lends.servesExactly, ?_⟩
  intro s w m
  have sound : s.Sound := MixedState.runAll_sound (MixedState.sound_start system) moves
  have lends := sound.owns.lends
  refine ⟨lends.servesExactly,
    fun k a values u m' run => Writable.ofList_covers lends run,
    fun k a n zero u m' run => Writable.blank_covers lends run, fun u live n => ?_,
    fun f live fallback alive u t run => ?_, fun slot v found => ?_⟩
  · obtain ⟨rest, owns⟩ := sound.owns.front live
    have own := owns.sound u List.mem_cons_self
    have roomy := owns.roomy _ List.mem_cons_self
    exact ⟨fun u' m' run => (Writable.reserve_covers owns.lends_head own roomy run).1,
      fun u' m' run => (Writable.resize_covers owns.lends_head own roomy run).1,
      fun huge => ⟨Writable.reserve_huge owns.lends_head own roomy huge,
        Writable.resize_huge owns.lends_head own roomy huge⟩⟩
  · obtain ⟨rest, owns⟩ := sound.owns.front live
    exact owns.thaw_covers alive run
  · have owns := sound.arrays.value found
    have kind : v.value.kind = v.kind := sound.arrays.fits slot v found
    refine ⟨fun elements v' w' run => FieldValue.putFrom_covers owns kind run, fun n =>
      ⟨fun v' w' run => (FieldValue.setLength_covers owns run).1,
        fun free v' w' run => (FieldValue.setCapacity_covers owns free run).1, fun huge => ?_⟩⟩
    rw [← kind] at huge
    exact ⟨fun free => FieldValue.setLength_huge owns free huge,
      fun free => FieldValue.setCapacity_huge owns free huge⟩

/-- Among the pools is one with the largest block that can be numbered, which the system never
grants: a product that is zero as a machine word is not served from it. A pool of blocks for two
elements serves four smaller ones, for a vector and for an array that shares its content with a
view. What would take `2 ^ 64` bytes is refused. -/
theorem runAll_covers_pools :
    let quarter := 4611686018427387904
    let steps : List PoolStep := [.freelist 0 "widest" 1 18446744073709551615 4 0 false,
      .freelist 1 "pairs" 8 2 4 0 true]
    let moves : List MixedMove := [.array (.build ⟨"pairs", some 2, .capped 4, 0⟩ 8),
      .vector .int (.ofList 0 [.int 1, .int 2] (some 0)),
      .array (.step (.create 0 ⟨"x", .int⟩ (some 0))),
      .array (.step (.put 0 [.int 1, .int 2, .int 3])), .array (.step (.view 0 0)), .lend 0 1]
    let m := (PoolState.runAll { allocators := { system := .machine }, registry := 1 }
      steps).allocators
    let s := (MixedState.start .machine).runAll moves
    let w := s.arrays.world
    let u : Writable := ⟨.int, some ⟨⟨0, .pool 0, 16, none⟩, 4, #[.int 1, .int 2]⟩, 0, 2, .pool 0⟩
    let f : Frozen := ⟨.int, some 0, 0, 3⟩
    (∀ b n, Allocators.alloc (.pool 0) quarter 4 false m ≠ .ok b n) ∧
      (∃ b n, Allocators.alloc (.pool 1) 3 5 false m = .ok b n ∧ 15 ≤ b.size) ∧
      s.slots.get? 0 = some (.writable u) ∧ s.slots.get? 1 = some (.frozen f) ∧
      (∃ u' n, Writable.resize 4 (u, w.store.allocators) = .ok () (u', n) ∧ u'.Covers 4) ∧
      Outcome.Refused (Writable.reserve quarter (u, w.store.allocators)) ∧
      (∃ u' t, Store.thaw f .shared w.store = .ok u' t ∧ u'.Covers 3) ∧
      ∃ v, s.arrays.values.get? 0 = some v ∧
        (∃ v' w', FieldValue.setLength 4 (v, w) = .ok () (v', w') ∧
          w'.store.Covers v'.value 4) ∧
        Outcome.Refused (FieldValue.setLength quarter (v, w)) ∧
        Outcome.Refused (FieldValue.setCapacity quarter (v, w)) := by
  intro quarter steps moves m s w u f
  obtain ⟨raw, -, -, -, vectors, frozen, arrays⟩ := runAll_covers .machine 1 steps moves
  have widest : ∃ t ∈ m.pools.get? 0, t.pool.blockBytes < quarter * 4 := by decide +kernel
  have slots : s.slots.get? 0 = some (.writable u) ∧ s.slots.get? 1 = some (.frozen f) := by
    decide +kernel
  have array : ∃ v ∈ s.arrays.values.get? 0, v.kind = .int ∧ v.isImmutable w = false ∧
      v.isCapacityMutable w = true ∧
      (Outcome.answer (FieldValue.setLength 4 (v, w))).toBool = true := by
    decide +kernel
  obtain ⟨t, pool, narrow⟩ := widest
  obtain ⟨there, lent⟩ := slots
  obtain ⟨v, found, kind, free, roomy, lengthens⟩ := array
  obtain ⟨b, n, served⟩ : ∃ b n, Allocators.alloc (.pool 1) 3 5 false m = .ok b n :=
    Outcome.exists_ok (by decide +kernel)
  obtain ⟨⟨⟩, ⟨u', n'⟩, resized⟩ : ∃ a r, Writable.resize 4 (u, w.store.allocators) = .ok a r :=
    Outcome.exists_ok (by decide +kernel)
  obtain ⟨u'', t', thawed⟩ : ∃ a r, Store.thaw f .shared w.store = .ok a r :=
    Outcome.exists_ok (by decide +kernel)
  obtain ⟨⟨⟩, ⟨v', w'⟩, lengthened⟩ := Outcome.exists_ok lengthens
  have live : ∀ slot x, s.slots.get? slot = some x → x.holding ∈ s.holdings :=
    fun slot x stored => List.mem_append_left _ (List.mem_map_of_mem
      (List.mem_map_of_mem (f := Prod.snd) (Table.mem_entries_of_get? stored)))
  have huge : addressBound ≤ quarter * Kind.int.footprint := by decide
  have vector := vectors u (live 0 _ there)
  have grown := (arrays 0 v found).2
  obtain ⟨long, large⟩ := (grown quarter).2.2 (kind ▸ huge)
  refine ⟨fun b n run => ?_, ⟨b, n, served, (raw _ 3 5 _ b n served).1⟩, there, lent,
    ⟨u', n', resized, (vector 4).2.1 u' n' resized⟩, ((vector quarter).2.2 huge).1,
    ⟨u'', t', thawed, frozen f (live 1 _ lent) .shared trivial u'' t' thawed⟩,
    v, found, ⟨v', w', lengthened, (grown 4).1 v' w' lengthened⟩, long free, large roomy⟩
  have exact := (raw _ quarter 4 _ b n run).2 0 t rfl pool
  omega

end Session

end ArrayStore
