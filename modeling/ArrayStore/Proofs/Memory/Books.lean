import ArrayStore.Memory.Basic
import ArrayStore.Proofs.Memory.Turnover
import ArrayStore.Proofs.Table.Entries

/-! The books that allocators keep.
Some handles and some blocks are out. The books are right if every pool counts
its own among them, if nothing out refers to a pool that is gone, and if no two
blocks, spare or out, bear one number. Every operation takes right books to
right books; which handles and blocks it adds or removes is all it needs to say.
Blocks of the shared allocator are numbered but not counted. -/

namespace ArrayStore

/-- Numbers without repetition, all of them given out. -/
def Numbered (bound : Nat) (ids : List BlockId) : Prop := ids.Nodup ∧ ∀ i ∈ ids, i < bound

namespace Numbered

variable {bound later : Nat} {ids other : List BlockId}

theorem perm (h : Numbered bound ids) (p : ids.Perm other) : Numbered bound other :=
  ⟨p.nodup h.1, fun i member => h.2 i (p.mem_iff.2 member)⟩

theorem sublist (h : Numbered bound ids) (s : other.Sublist ids) : Numbered bound other :=
  ⟨s.nodup h.1, fun i member => h.2 i (s.subset member)⟩

theorem mono (h : Numbered bound ids) (le : bound ≤ later) : Numbered later ids :=
  ⟨h.1, fun i member => Nat.lt_of_lt_of_le (h.2 i member) le⟩

theorem next (h : Numbered bound ids) : Numbered (bound + 1) (bound :: ids) := by
  refine ⟨List.nodup_cons.2 ⟨fun member => Nat.lt_irrefl _ (h.2 _ member), h.1⟩, fun i member => ?_⟩
  obtain rfl | member := List.mem_cons.1 member
  · exact Nat.lt_succ_self _
  · exact Nat.lt_succ_of_lt (h.2 i member)

end Numbered

def Block.isOf (id : Nat) (b : Block) : Bool := b.owner = .pool id

theorem Block.isOf_iff {id : Nat} {b : Block} : b.isOf id = true ↔ b.owner = .pool id := by
  simp [isOf]

structure Tenant.Tallies (id : Nat) (handles : List Allocator) (out : List Block) (t : Tenant) :
    Prop where
  balanced : t.pool.Balanced
  handled : t.handles = handles.count (.pool id)
  lent : t.pool.outstanding = out.countP (Block.isOf id)
  sized : ∀ b ∈ out, b.owner = .pool id → b.size = t.pool.blockBytes

namespace Tenant

variable {id : Nat} {handles : List Allocator} {out : List Block} {t : Tenant} {b : Block}

theorem tallies_cons_handle {a : Allocator} (apart : a ≠ .pool id) :
    t.Tallies id (a :: handles) out ↔ t.Tallies id handles out := by
  have same : (a :: handles).count (.pool id) = handles.count (.pool id) :=
    List.count_cons_of_ne apart
  constructor
  · exact fun h => ⟨h.balanced, same ▸ h.handled, h.lent, h.sized⟩
  · exact fun h => ⟨h.balanced, same ▸ h.handled, h.lent, h.sized⟩

theorem tallies_cons_block (apart : b.owner ≠ .pool id) :
    t.Tallies id handles (b :: out) ↔ t.Tallies id handles out := by
  have same : (b :: out).countP (Block.isOf id) = out.countP (Block.isOf id) :=
    List.countP_cons_of_neg fun own => apart (Block.isOf_iff.1 own)
  constructor
  · exact fun h =>
      ⟨h.balanced, h.handled, same ▸ h.lent,
        fun c member => h.sized c (List.mem_cons_of_mem _ member)⟩
  · refine fun h => ⟨h.balanced, h.handled, same ▸ h.lent, fun c member own => ?_⟩
    obtain rfl | member := List.mem_cons.1 member
    · exact absurd own apart
    · exact h.sized c member own

theorem Tallies.lend {q : Pool} (h : t.Tallies id handles out) (own : b.owner = .pool id)
    (balanced : q.Balanced) (more : q.outstanding = t.pool.outstanding + 1)
    (bytes : q.blockBytes = t.pool.blockBytes) (size : b.size = q.blockBytes) :
    Tallies id handles (b :: out) { t with pool := q } := by
  have one : (b :: out).countP (Block.isOf id) = out.countP (Block.isOf id) + 1 :=
    List.countP_cons_of_pos (Block.isOf_iff.2 own)
  refine ⟨balanced, h.handled, by rw [one, ← h.lent]; exact more, fun c member own' => ?_⟩
  obtain rfl | member := List.mem_cons.1 member
  · exact size
  · exact (h.sized c member own').trans bytes.symm

theorem Tallies.out_ne_zero (h : t.Tallies id handles (b :: out)) (own : b.owner = .pool id) :
    t.pool.outstanding ≠ 0 := by
  rw [h.lent, List.countP_cons_of_pos (Block.isOf_iff.2 own)]
  exact Nat.succ_ne_zero _

theorem Tallies.takeBack {q : Pool} (h : t.Tallies id handles (b :: out)) (own : b.owner = .pool id)
    (balanced : q.Balanced) (less : q.outstanding = t.pool.outstanding - 1)
    (bytes : q.blockBytes = t.pool.blockBytes) :
    Tallies id handles out { t with pool := q } := by
  have one : (b :: out).countP (Block.isOf id) = out.countP (Block.isOf id) + 1 :=
    List.countP_cons_of_pos (Block.isOf_iff.2 own)
  refine ⟨balanced, h.handled, ?_, fun c member own' => ?_⟩
  · rw [less, h.lent, one, Nat.add_sub_cancel]
  · exact (h.sized c (List.mem_cons_of_mem _ member) own').trans bytes.symm

end Tenant

namespace Allocators

def spares (m : Allocators) : List BlockId := m.pools.values.flatMap fun t => t.pool.spares

def Alive (m : Allocators) : Allocator → Prop
  | .shared => True
  | .pool id => ∃ t, m.pools.get? id = some t

/-- Books that are right, although a pool may stand in them that nothing refers to. -/
structure Books (handles : List Allocator) (out : List Block) (m : Allocators) : Prop where
  sorted : m.pools.Sorted
  unbuilt : ∀ id, m.built ≤ id → m.pools.get? id = none
  tallies : ∀ id t, m.pools.get? id = some t → t.Tallies id handles out
  handled : ∀ a ∈ handles, m.Alive a
  housed : ∀ b ∈ out, m.Alive b.owner
  numbered : Numbered m.system.requests (m.spares ++ out.map Block.id)

/-- Right books, in which every pool is referred to. -/
structure Lends (handles : List Allocator) (out : List Block) (m : Allocators) : Prop
    extends Books handles out m where
  needed : ∀ id t, m.pools.get? id = some t → t.handles ≠ 0 ∨ t.pool.outstanding ≠ 0

variable {m n : Allocators} {handles handles' : List Allocator} {out out' : List Block} {id : Nat}
  {t : Tenant} {a : Allocator} {b : Block}

theorem lends_nil (system : System) : Lends [] [] { system } where
  sorted := .nil
  unbuilt _ _ := rfl
  tallies _ _ found := by cases found
  handled _ member := absurd member List.not_mem_nil
  housed _ member := absurd member List.not_mem_nil
  numbered := ⟨List.nodup_nil, fun _ member => absurd member List.not_mem_nil⟩
  needed _ _ found := by cases found

theorem Lends.perm (h : Lends handles out m) (p : handles.Perm handles') (q : out.Perm out') :
    Lends handles' out' m where
  sorted := h.sorted
  unbuilt := h.unbuilt
  tallies id t found := by
    obtain ⟨balanced, handled, lent, sized⟩ := h.tallies id t found
    exact ⟨balanced, handled.trans (p.count_eq _), lent.trans (q.countP_eq _),
      fun b member => sized b (q.mem_iff.2 member)⟩
  handled a member := h.handled a (p.mem_iff.2 member)
  housed b member := h.housed b (q.mem_iff.2 member)
  numbered := h.numbered.perm ((q.map _).append_left _)
  needed := h.needed

theorem spares_perm (h : m.pools.Sorted) (found : m.pools.get? id = some t) :
    m.spares.Perm (t.pool.spares ++ (m.pools.erase id).values.flatMap fun t => t.pool.spares) :=
  Table.flatMap_values_perm h found _

theorem spares_insert_perm (h : m.pools.Sorted) (id : Nat) (t : Tenant) (system : System) :
    (spares { m with system, pools := m.pools.insert id t }).Perm
      (t.pool.spares ++ (m.pools.erase id).values.flatMap fun t => t.pool.spares) :=
  Table.flatMap_values_insert_perm h id t _

theorem alive_insert {u : Tenant} (system : System) (built : Nat)
    (known : a = .pool id ∨ m.Alive a) : Alive ⟨system, m.pools.insert id u, built⟩ a := by
  cases a with
  | shared => trivial
  | pool other =>
    simp only [Alive, Table.get?_insert]
    by_cases same : other = id
    · exact ⟨u, if_pos same⟩
    · rw [if_neg same]
      exact known.resolve_left fun eq => same (Allocator.pool.inj eq)

/-- A change to one pool, to the handles on it and to its blocks. -/
theorem Books.insert {u : Tenant} {system : System} (h : Books handles out m)
    (found : m.pools.get? id = some t) (own : u.Tallies id handles' out')
    (others : ∀ other (v : Tenant), other ≠ id →
      v.Tallies other handles out → v.Tallies other handles' out')
    (handled : ∀ a ∈ handles', a = .pool id ∨ a ∈ handles)
    (housed : ∀ b ∈ out', b.owner = .pool id ∨ b ∈ out)
    (numbered : ∀ rest, Numbered m.system.requests (t.pool.spares ++ (rest ++ out.map Block.id)) →
      Numbered system.requests (u.pool.spares ++ (rest ++ out'.map Block.id))) :
    Books handles' out' { m with system, pools := m.pools.insert id u } := by
  refine ⟨Table.insert_sorted h.sorted id u, fun other late => ?_, fun other v there => ?_,
    fun a member => alive_insert system _ ((handled a member).imp_right (h.handled a)),
    fun b member => alive_insert system _ ((housed b member).imp_right (h.housed b)), ?_⟩
  · have unbuilt := h.unbuilt other late
    simp only [Table.get?_insert]
    rw [if_neg fun same => by rw [same, found] at unbuilt; cases unbuilt]
    exact unbuilt
  · simp only [Table.get?_insert] at there
    split at there
    · next same =>
      cases there
      rwa [same]
    · next apart => exact others other v apart (h.tallies other v there)
  · have before := h.numbered.perm ((spares_perm h.sorted found).append_right _)
    rw [List.append_assoc] at before
    refine (numbered _ before).perm ?_
    rw [← List.append_assoc]
    exact ((spares_insert_perm h.sorted id u system).append_right _).symm

/-- A pool that nothing refers to is dropped; the others are referred to. -/
theorem Books.settle (h : Books handles out m)
    (others : ∀ other t, other ≠ id → m.pools.get? other = some t →
      t.handles ≠ 0 ∨ t.pool.outstanding ≠ 0) : Lends handles out (m.settle id) := by
  unfold Allocators.settle
  cases found : m.pools.get? id with
  | none =>
    refine ⟨h, fun other t there => others other t (fun same => ?_) there⟩
    rw [same, found] at there
    cases there
  | some t =>
    simp only
    by_cases idle : t.handles = 0 ∧ t.pool.outstanding = 0
    · rw [if_pos idle]
      obtain ⟨-, handled, lent, -⟩ := h.tallies id t found
      rw [idle.1, eq_comm, List.count_eq_zero] at handled
      rw [idle.2, eq_comm, List.countP_eq_zero] at lent
      have alive : ∀ a, a ≠ .pool id → m.Alive a →
          Alive { m with pools := m.pools.erase id } a := by
        intro a apart known
        cases a with
        | shared => trivial
        | pool other =>
          simp only [Alive, Table.get?_erase]
          rw [if_neg fun same => apart (congrArg _ same)]
          exact known
      have left : ∀ other u, (m.pools.erase id).get? other = some u →
          other ≠ id ∧ m.pools.get? other = some u := by
        intro other u there
        rw [Table.get?_erase] at there
        split at there
        · cases there
        · next apart => exact ⟨apart, there⟩
      refine ⟨⟨Table.erase_sorted h.sorted id, fun other late => ?_,
        fun other u there => h.tallies other u (left other u there).2,
        fun a member => alive a (fun same => handled (same ▸ member)) (h.handled a member),
        fun b member => alive _ (fun same => lent b member (Block.isOf_iff.2 same))
          (h.housed b member), ?_⟩,
        fun other u there => others other u (left other u there).1 (left other u there).2⟩
      · rw [Table.get?_erase, h.unbuilt other late, ite_self]
      · refine (h.numbered.perm ((spares_perm h.sorted found).append_right _)).sublist ?_
        exact (List.sublist_append_right _ _).append_right _
    · rw [if_neg idle]
      refine ⟨h, fun other u there => ?_⟩
      by_cases same : other = id
      · rw [same, found] at there
        cases there
        omega
      · exact others other u same there

theorem Lends.of_insert {u : Tenant} {system : System} (h : Lends handles out m)
    (books : Books handles' out' { m with system, pools := m.pools.insert id u })
    (needed : u.handles ≠ 0 ∨ u.pool.outstanding ≠ 0) :
    Lends handles' out' { m with system, pools := m.pools.insert id u } := by
  refine ⟨books, fun other v there => ?_⟩
  simp only [Table.get?_insert] at there
  split at there
  · cases there
    exact needed
  · exact h.needed other v there

theorem Lends.retain (h : Lends handles out m) (alive : m.Alive a) :
    Lends (a :: handles) out (m.retain a) := by
  cases a with
  | shared =>
    refine ⟨⟨h.sorted, h.unbuilt,
      fun id t found => (Tenant.tallies_cons_handle
        (show Allocator.shared ≠ .pool id by simp)).2 (h.tallies id t found),
      fun a member => ?_, h.housed, h.numbered⟩, h.needed⟩
    obtain rfl | member := List.mem_cons.1 member
    · trivial
    · exact h.handled a member
  | pool id =>
    obtain ⟨t, found⟩ := alive
    simp only [Allocators.retain, Table.modify_of_get? h.sorted found]
    obtain ⟨balanced, handled, lent, sized⟩ := h.tallies id t found
    refine h.of_insert (h.toBooks.insert found ⟨balanced, ?_, lent, sized⟩
      (fun other v apart => (Tenant.tallies_cons_handle fun same =>
        apart (Allocator.pool.inj same).symm).2)
      (fun a => List.mem_cons.1) (fun b => .inr) (fun _ numbered => numbered))
      (.inl (Nat.succ_ne_zero _))
    rw [handled, List.count_cons_self]

theorem Lends.letGo (h : Lends (a :: handles) out m) : Lends handles out (m.letGo a) := by
  cases a with
  | shared =>
    exact ⟨⟨h.sorted, h.unbuilt,
      fun id t found => (Tenant.tallies_cons_handle
        (show Allocator.shared ≠ .pool id by simp)).1 (h.tallies id t found),
      fun a member => h.handled a (List.mem_cons_of_mem _ member), h.housed, h.numbered⟩, h.needed⟩
  | pool id =>
    obtain ⟨t, found⟩ := h.handled _ List.mem_cons_self
    simp only [Allocators.letGo, Table.modify_of_get? h.sorted found]
    obtain ⟨balanced, handled, lent, sized⟩ := h.tallies id t found
    refine (h.toBooks.insert (u := { t with handles := t.handles - 1 }) found
      ⟨balanced, ?_, lent, sized⟩
      (fun other v apart => (Tenant.tallies_cons_handle fun same =>
        apart (Allocator.pool.inj same).symm).1)
      (fun a member => .inr (List.mem_cons_of_mem _ member)) (fun b => .inr)
      (fun _ numbered => numbered)).settle fun other u apart there => ?_
    · simp only [handled, List.count_cons_self, Nat.add_sub_cancel]
    · simp only [Table.get?_insert] at there
      rw [if_neg apart] at there
      exact h.needed other u there

theorem Lends.allocShared (h : Lends handles out m) (elementSize count : Nat) (zero : Bool) :
    match Allocators.allocShared elementSize count zero m with
    | .ok b n => Lends handles (b :: out) n ∧ b.owner = .shared ∧ elementSize * count ≤ b.size
    | .error _ n => Lends handles out n := by
  have later : Lends handles out { m with system := m.system.asks (elementSize * count) } :=
    ⟨⟨h.sorted, h.unbuilt, h.tallies, h.handled, h.housed, h.numbered.mono (Nat.le_succ _)⟩,
      h.needed⟩
  simp only [Allocators.allocShared]
  by_cases large : addressBound ≤ elementSize * count
  · rw [if_pos large]
    exact h
  · rw [if_neg large]
    obtain ⟨granted, -⟩ | refused := m.system.request_cases (elementSize * count)
    · rw [granted]
      refine ⟨⟨⟨h.sorted, h.unbuilt, fun id t found => ?_, h.handled, fun b member => ?_, ?_⟩,
        h.needed⟩, rfl, Nat.le_refl _⟩
      · exact (Tenant.tallies_cons_block (by simp)).2 (h.tallies id t found)
      · obtain rfl | member := List.mem_cons.1 member
        · trivial
        · exact h.housed b member
      · exact h.numbered.next.perm List.perm_middle.symm
    · rw [refused]
      exact later

theorem Lends.refused {elementSize count : Nat} {zero : Bool} {e : Error} {q : Pool}
    {system : System} (h : Lends handles out m) (found : m.pools.get? id = some t)
    (run : Pool.alloc elementSize count zero (t.pool, m.system) = .error e (q, system)) :
    Lends handles out { m with system, pools := m.pools.insert id { t with pool := q } } := by
  have tallies := h.tallies id t found
  obtain ⟨rfl, cause⟩ := Pool.alloc_error run
  have later : m.system.requests ≤ system.requests := by
    obtain ⟨-, rfl⟩ | ⟨-, rfl⟩ | ⟨-, refused⟩ := cause
    · exact Nat.le_refl _
    · exact Nat.le_refl _
    · have next := m.system.requests_request t.pool.blockBytes
      rw [refused] at next
      exact next ▸ Nat.le_succ _
  exact h.of_insert (h.toBooks.insert found
    ⟨tallies.balanced.refuse, tallies.handled, tallies.lent, tallies.sized⟩
    (fun _ _ _ kept => kept) (fun _ => .inr) (fun _ => .inr)
    fun _ numbered => numbered.mono later) (h.needed id t found)

theorem Lends.served {elementSize count : Nat} {zero : Bool} {spare : Spare} {q : Pool}
    {system : System} (h : Lends handles out m) (found : m.pools.get? id = some t)
    (run : Pool.alloc elementSize count zero (t.pool, m.system) = .ok spare (q, system)) :
    Lends handles (⟨spare.id, .pool id, q.blockBytes, spare.fill⟩ :: out)
        { m with system, pools := m.pools.insert id { t with pool := q } } ∧
      elementSize * count ≤ q.blockBytes := by
  have tallies := h.tallies id t found
  obtain ⟨more, bytes⟩ := Pool.outstanding_alloc run
  have fits := ((Pool.alloc_ok_iff tallies.balanced m.system elementSize count zero).1
    ⟨_, _, run⟩).1
  refine ⟨h.of_insert (h.toBooks.insert found
    (tallies.lend rfl (tallies.balanced.alloc run) more bytes rfl)
    (fun other v apart => (Tenant.tallies_cons_block fun same =>
      apart (Allocator.pool.inj same).symm).2)
    (fun _ => .inr) (fun b member => ?_) fun rest numbered => ?_)
    (.inr (more ▸ Nat.succ_ne_zero _)), bytes ▸ fits⟩
  · exact (List.mem_cons.1 member).imp_left fun same => by rw [same]
  · obtain ⟨listed, rfl⟩ | ⟨same, fresh, rfl⟩ := Pool.spares_alloc run
    · rw [listed] at numbered
      refine numbered.perm ?_
      rw [← List.append_assoc, ← List.append_assoc]
      exact List.perm_middle.symm
    · rw [same, List.map_cons, fresh]
      refine numbered.next.perm ?_
      rw [← List.append_assoc, ← List.append_assoc]
      exact List.perm_middle.symm

theorem Lends.alloc (h : Lends handles out m) (a : Allocator) (elementSize count : Nat)
    (zero : Bool) :
    match Allocators.alloc a elementSize count zero m with
    | .ok b n => Lends handles (b :: out) n ∧ b.owner = a ∧ elementSize * count ≤ b.size
    | .error _ n => Lends handles out n := by
  cases a with
  | shared => exact h.allocShared elementSize count zero
  | pool id =>
    simp only [Allocators.alloc]
    cases found : m.pools.get? id with
    | none => exact h
    | some t =>
      simp only
      cases run : Pool.alloc elementSize count zero (t.pool, m.system) with
      | error e u => exact h.refused found run
      | ok spare u =>
        obtain ⟨lends, fits⟩ := h.served found run
        exact ⟨lends, rfl, fits⟩

theorem Lends.release (h : Lends handles (b :: out) m) : Lends handles out (m.release b).1 := by
  have alive := h.housed b List.mem_cons_self
  unfold Allocators.release
  cases own : b.owner with
  | shared =>
    have others : ∀ id, b.owner ≠ .pool id := fun id => by simp [own]
    exact ⟨⟨h.sorted, h.unbuilt,
      fun id t found => (Tenant.tallies_cons_block (others id)).1 (h.tallies id t found), h.handled,
      fun c member => h.housed c (List.mem_cons_of_mem _ member),
      h.numbered.sublist ((List.sublist_cons_self ..).append_left _)⟩, h.needed⟩
  | pool id =>
    rw [own] at alive
    obtain ⟨t, found⟩ := alive
    have tallies := h.tallies id t found
    have out_ne_zero := tallies.out_ne_zero own
    simp only [found]
    obtain ⟨counters, cases⟩ := t.pool.release_cases b.id
    have back : ∃ q evicted, t.pool.release b.id = (q, evicted) ∧ q.Balanced ∧
        q.outstanding = t.pool.outstanding - 1 ∧ q.blockBytes = t.pool.blockBytes ∧
        (q.spares = b.id :: t.pool.spares ∨ q.spares = t.pool.spares) := by
      have balanced := tallies.balanced.release out_ne_zero b.id
      obtain ⟨-, run⟩ | ⟨-, run⟩ := cases
      · rw [run] at balanced
        exact ⟨_, _, run, balanced, rfl, rfl, .inl rfl⟩
      · rw [run] at balanced
        exact ⟨_, _, run, balanced, rfl, rfl, .inr rfl⟩
    obtain ⟨q, evicted, run, balanced, less, bytes, spares⟩ := back
    simp only [run]
    refine (h.toBooks.insert (u := { t with pool := q }) found
      (tallies.takeBack own balanced less bytes)
      (fun other v apart => (Tenant.tallies_cons_block fun same =>
        apart (Allocator.pool.inj (own.symm.trans same)).symm).1)
      (fun _ => .inr) (fun c member => .inr (List.mem_cons_of_mem _ member))
      fun rest numbered => ?_).settle fun other u apart there => ?_
    · rw [List.map_cons] at numbered
      obtain kept | gone := spares
      · rw [kept]
        refine numbered.perm ?_
        rw [← List.append_assoc, ← List.append_assoc]
        exact List.perm_middle
      · rw [gone]
        exact numbered.sublist (((List.sublist_cons_self ..).append_left _).append_left _)
    · simp only [Table.get?_insert] at there
      rw [if_neg apart] at there
      exact h.needed other u there

theorem Lends.buildPool (h : Lends handles out m) (registry : RegistryId) (name : String)
    (elementSize blockElements limit initial : Nat) (capped : Bool) :
    match buildPool registry name elementSize blockElements limit initial capped m with
    | .ok a n => Lends (a :: handles) out n
    | .error _ n => Lends handles out n := by
  unfold Allocators.buildPool
  cases run : Pool.create name elementSize blockElements limit initial capped m.system with
  | error e system =>
    exact ⟨⟨h.sorted, h.unbuilt, h.tallies, h.handled, h.housed,
      h.numbered.mono (Pool.create_error run)⟩, h.needed⟩
  | ok pool system =>
    obtain ⟨balanced, unused, nodup, later, fresh⟩ := Pool.create_ok run
    have absent : m.pools.get? m.built = none := h.unbuilt _ (Nat.le_refl _)
    have unknown : ∀ a, m.Alive a → a ≠ .pool m.built := by
      rintro _ known rfl
      obtain ⟨t, found⟩ := known
      rw [absent] at found
      cases found
    simp only
    refine ⟨⟨Table.insert_sorted h.sorted _ _, fun id late => ?_, fun id t there => ?_,
      fun a member => alive_insert system _ ((List.mem_cons.1 member).imp_right (h.handled a)),
      fun b member => alive_insert system _ (.inr (h.housed b member)), ?_⟩,
      fun id t there => ?_⟩
    · simp only at late
      rw [Table.get?_insert, if_neg (by omega), h.unbuilt id (by omega)]
    · rw [Table.get?_insert] at there
      split at there
      · next same =>
        cases there
        have none : handles.count (.pool id) = 0 :=
          List.count_eq_zero.2 fun member => unknown _ (h.handled _ member) (same ▸ rfl)
        have none' : out.countP (Block.isOf id) = 0 := List.countP_eq_zero.2 fun b member own =>
          unknown _ (h.housed b member) (same ▸ Block.isOf_iff.1 own)
        refine ⟨balanced, ?_, unused.trans none'.symm, fun b member own => ?_⟩
        · rw [← same, List.count_cons_self, none]
        · exact absurd (own.trans (same ▸ rfl)) (unknown _ (h.housed b member))
      · next other =>
        exact (Tenant.tallies_cons_handle fun same =>
          other (Allocator.pool.inj same).symm).2 (h.tallies id t there)
    · have perm := (spares_insert_perm h.sorted m.built ⟨pool, 1, registry⟩ system).append_right
        (out.map Block.id)
      rw [Table.erase_of_get?_eq_none absent, List.append_assoc] at perm
      refine Numbered.perm ⟨List.nodup_append.2 ⟨nodup, h.numbered.1, ?_⟩, fun i member => ?_⟩
        perm.symm
      · rintro i new j old rfl
        exact absurd (h.numbered.2 i old) (Nat.not_lt_of_le (fresh i new).1)
      · obtain new | old := List.mem_append.1 member
        · exact (fresh i new).2
        · exact Nat.lt_of_lt_of_le (h.numbered.2 i old) later
    · rw [Table.get?_insert] at there
      split at there
      · cases there
        exact .inl Nat.one_ne_zero
      · exact h.needed id t there

theorem Lends.build (h : Lends handles out m) (registry : RegistryId) (config : PoolConfig)
    (elementSize : Nat) :
    match Allocators.build registry config elementSize m with
    | .ok a n => Lends (a :: handles) out n
    | .error _ n => Lends handles out n := by
  unfold Allocators.build
  by_cases empty : elementSize = 0
  · rw [if_pos empty]
    exact h
  · rw [if_neg empty]
    cases config.problem? with
    | some problem => exact h
    | none =>
      cases config.blockElements with
      | none => exact h.retain trivial
      | some elements => exact h.buildPool ..

theorem Lends.overwrite (h : Lends handles (b :: out) m) (fill : Option UInt8) :
    Lends handles ({ b with fill } :: out) m where
  sorted := h.sorted
  unbuilt := h.unbuilt
  tallies id t found := by
    obtain ⟨balanced, handled, lent, sized⟩ := h.tallies id t found
    refine ⟨balanced, handled, by rwa [List.countP_cons] at lent ⊢, fun c member => ?_⟩
    obtain rfl | member := List.mem_cons.1 member
    · exact sized b List.mem_cons_self
    · exact sized c (List.mem_cons_of_mem _ member)
  handled := h.handled
  housed c member := by
    obtain rfl | member := List.mem_cons.1 member
    · exact h.housed b List.mem_cons_self
    · exact h.housed c (List.mem_cons_of_mem _ member)
  numbered := h.numbered
  needed := h.needed

theorem Lends.numAllocs (h : Lends handles out m) (id : Nat) :
    (m.snapshot (.pool id)).numAllocs = out.countP (Block.isOf id) := by
  cases found : m.pools.get? id with
  | some t =>
    simp only [snapshot, pool?, found, Option.map_some, Option.elim_some, Pool.snapshot]
    exact (h.tallies id t found).lent
  | none =>
    have away : ∀ b ∈ out, ¬b.isOf id = true := by
      intro b member own
      have alive := h.housed b member
      rw [Block.isOf_iff.1 own] at alive
      obtain ⟨t, there⟩ := alive
      rw [found] at there
      cases there
    simp only [snapshot, pool?, found, Option.map_none, Option.elim_none, sharedSnapshot]
    exact (List.countP_eq_zero.2 away).symm

theorem Lends.fresh (h : Lends handles (b :: out) m) : b.id ∉ out.map Block.id := by
  have distinct := (List.nodup_append.1 h.numbered.1).2.1
  rw [List.map_cons] at distinct
  exact (List.nodup_cons.1 distinct).1

/-- A pool serves what it can, and keeps its blocks where it cannot. -/
theorem Books.alloc_pool (h : Books handles out m) (found : m.pools.get? id = some t)
    (elementSize count : Nat) (zero : Bool) :
    match Allocators.alloc (.pool id) elementSize count zero m with
    | .ok _ _ => t.pool.Serves m.system (elementSize * count)
    | .error _ n =>
      ¬t.pool.Serves m.system (elementSize * count) ∧ ∃ u, n.pools.get? id = some u ∧
        u.pool.free = t.pool.free ∧ u.pool.outstanding = t.pool.outstanding := by
  have serves := Pool.alloc_ok_iff (h.tallies id t found).balanced m.system elementSize count zero
  simp only [Allocators.alloc, found]
  cases run : Pool.alloc elementSize count zero (t.pool, m.system) with
  | ok spare u => exact serves.1 ⟨_, _, run⟩
  | error e u =>
    obtain ⟨q, system⟩ := u
    obtain ⟨rfl, -⟩ := Pool.alloc_error run
    refine ⟨fun can => ?_, { t with pool := t.pool.refuse }, ?_, rfl, rfl⟩
    · obtain ⟨spare, u, run'⟩ := serves.2 can
      rw [run] at run'
      cases run'
    · rw [Table.get?_insert, if_pos rfl]

theorem Books.alloc_le (h : Books handles out m) {elementSize count : Nat} {zero : Bool}
    (run : Allocators.alloc a elementSize count zero m = .ok b n) : b.size ≤ System.sizeBound := by
  cases a with
  | shared =>
    simp only [Allocators.alloc, allocShared] at run
    split at run
    · cases run
    · obtain ⟨granted, low⟩ | refused := m.system.request_cases (elementSize * count)
      · rw [granted] at run
        cases run
        exact low.elim (fun none => none ▸ Nat.zero_le _) fun low => low
      · rw [refused] at run
        cases run
  | pool id =>
    simp only [Allocators.alloc] at run
    split at run
    · cases run
    · next t found =>
      split at run
      · next spare q system served =>
        cases run
        have more := (Pool.outstanding_alloc served).1
        exact ((h.tallies id t found).balanced.alloc served).real (.inr (more ▸ Nat.succ_ne_zero _))
      · cases run

/-- Whatever is served is as large as the exact product of what was asked for, although products
are compared only as far as numbers go, and a pool serves nothing larger than its blocks. -/
def ServesExactly (m : Allocators) : Prop :=
  ∀ a elementSize count zero b n, Allocators.alloc a elementSize count zero m = .ok b n →
    elementSize * count ≤ b.size ∧ ∀ id t, a = .pool id → m.pools.get? id = some t →
      elementSize * count ≤ t.pool.blockBytes

theorem Lends.servesExactly (h : Lends handles out m) : m.ServesExactly := by
  intro a elementSize count zero b n run
  have served := h.alloc a elementSize count zero
  rw [run] at served
  refine ⟨served.2.2, fun id t own found => ?_⟩
  subst own
  have serves := h.alloc_pool found elementSize count zero
  rw [run] at serves
  exact serves.1

theorem alloc_refused {elementSize count : Nat} {zero : Bool} {e : Error}
    (run : Allocators.alloc a elementSize count zero m = .error e n) :
    e.isAllocationFailure = true := by
  cases a with
  | shared =>
    simp only [Allocators.alloc, allocShared] at run
    split at run
    · cases run
      rfl
    · split at run
      · cases run
      · cases run
        rfl
  | pool id =>
    simp only [Allocators.alloc] at run
    split at run
    · cases run
      rfl
    · next t found =>
      split at run
      · cases run
      · next e' q system refused =>
        cases run
        exact Pool.alloc_refused refused

theorem Books.distinct (h : Books handles out m) (found : m.pools.get? id = some t) :
    (t.pool.spares ++ (out.filter (Block.isOf id)).map Block.id).Nodup := by
  have numbered := h.numbered.perm ((spares_perm h.sorted found).append_right _)
  rw [List.append_assoc] at numbered
  refine (numbered.sublist (List.Sublist.append_left ?_ _)).1
  exact (List.filter_sublist.map _).trans (List.sublist_append_right _ _)

end Allocators

end ArrayStore
