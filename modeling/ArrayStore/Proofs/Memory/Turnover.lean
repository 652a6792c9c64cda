import ArrayStore.Memory.Pool

/-! What one request or one release does to a pool.
A request takes the block on top of the free list, or a new one from the system
if the list is empty, or changes nothing but a counter. A release puts the block
on top or gives it to the system. Every statement on pools is derived from these
cases. That the block released is one of the pool is left to its users. -/

namespace ArrayStore

namespace System

theorem request_cases (s : System) (size : Nat) :
    (s.request size = (some s.requests, s.asks size) ∧
      (size = 0 ∨ size ≤ sizeBound)) ∨
    s.request size = (none, s.asks size) := by
  unfold request
  by_cases granted : size = 0 ∨ (size ≤ sizeBound ∧ s.grants s.requests size = true)
  · exact .inl ⟨if_pos granted, granted.imp_right And.left⟩
  · exact .inr (if_neg granted)

theorem stock_ok {size count : Nat} {start stock : List BlockId} {s t : System}
    (nodup : start.Nodup) (old : ∀ i ∈ start, i < s.requests)
    (run : System.stock size count start s = (some stock, t)) :
    stock.Nodup ∧ stock.length = count + start.length ∧ s.requests ≤ t.requests ∧
      (∀ i ∈ stock, i ∈ start ∨ s.requests ≤ i) ∧ (∀ i ∈ stock, i < t.requests) ∧
      (count ≠ 0 → size ≤ sizeBound) := by
  induction count generalizing start s with
  | zero =>
    cases run
    exact ⟨nodup, (Nat.zero_add _).symm, Nat.le_refl _, fun _ => .inl, old,
      fun impossible => absurd rfl impossible⟩
  | succ count ih =>
    simp only [System.stock] at run
    obtain ⟨granted, low⟩ | refused := s.request_cases size
    · rw [granted] at run
      have fresh : s.requests ∉ start := fun member => Nat.lt_irrefl _ (old _ member)
      have bound : ∀ i ∈ s.requests :: start, i < s.requests + 1 := by
        intro i member
        obtain rfl | member := List.mem_cons.1 member
        · exact Nat.lt_succ_self _
        · exact Nat.lt_succ_of_lt (old i member)
      obtain ⟨nodup', size', later, drawn, known, -⟩ :=
        ih (List.nodup_cons.2 ⟨fresh, nodup⟩) bound run
      simp only [asks] at later drawn
      refine ⟨nodup', by simp only [size', List.length_cons]; omega, by omega, ?_, known,
        fun _ => by omega⟩
      intro i member
      obtain there | late := drawn i member
      · obtain rfl | there := List.mem_cons.1 there
        · exact .inr (Nat.le_refl _)
        · exact .inl there
      · exact .inr (by omega)
    · rw [refused] at run
      cases run

theorem requests_le_stock (size count : Nat) (start : List BlockId) (s : System) :
    s.requests ≤ (System.stock size count start s).2.requests := by
  induction count generalizing start s with
  | zero => exact Nat.le_refl _
  | succ count ih =>
    simp only [System.stock]
    obtain ⟨granted, -⟩ | refused := s.request_cases size
    · rw [granted]
      have later := ih (s.requests :: start) (s.asks size)
      exact Nat.le_of_succ_le later
    · rw [refused]
      exact Nat.le_succ _

end System

namespace Pool

def spares (p : Pool) : List BlockId := p.free.map Spare.id

/-- A pool within its limit. A block that exists is one that the system can give. -/
structure Balanced (p : Pool) : Prop where
  kept : p.free.length ≤ p.limit
  within : p.capped = true → p.outstanding + p.free.length ≤ p.limit
  real : p.free ≠ [] ∨ p.outstanding ≠ 0 → p.blockBytes ≤ System.sizeBound

/-- A request of so many bytes that can be served: it fits a block, the pool may hand one
out, and there is one to be had. -/
def Serves (p : Pool) (s : System) (bytes : Nat) : Prop :=
  bytes ≤ p.blockBytes ∧ ¬(p.capped = true ∧ p.outstanding = p.limit) ∧
    (p.free ≠ [] ∨ (s.request p.blockBytes).1.isSome = true)

variable {p q : Pool} {s t : System} {elementSize count : Nat} {zero : Bool}

theorem alloc_ok {spare : Spare}
    (run : alloc elementSize count zero (p, s) = .ok spare (q, t)) :
    ¬p.blockBytes < requested elementSize count ∧
      ¬(p.capped = true ∧ p.outstanding = p.limit) ∧
      ((∃ fill free, p.free = ⟨spare.id, fill⟩ :: free ∧ q = { p with free }.handOut ∧ t = s) ∨
        (p.free = [] ∧ s.request p.blockBytes = (some spare.id, t) ∧ q = p.handOut)) := by
  simp only [alloc] at run
  split at run
  · cases run
  · next fits =>
    split at run
    · cases run
    · next room =>
      refine ⟨fits, room, ?_⟩
      split at run
      · next top free listed =>
        cases run
        refine .inl ⟨top.fill, free, ?_, rfl, rfl⟩
        rw [listed]
        split <;> rfl
      · next empty =>
        split at run
        · next id s' granted =>
          cases run
          exact .inr ⟨empty, granted, rfl⟩
        · cases run

theorem alloc_error {e : Error} (run : alloc elementSize count zero (p, s) = .error e (q, t)) :
    q = p.refuse ∧
      (p.blockBytes < requested elementSize count ∧ t = s ∨
        (p.capped = true ∧ p.outstanding = p.limit) ∧ t = s ∨
        p.free = [] ∧ s.request p.blockBytes = (none, t)) := by
  simp only [alloc] at run
  split at run
  · next large =>
    cases run
    exact ⟨rfl, .inl ⟨large, rfl⟩⟩
  · split at run
    · next full =>
      cases run
      exact ⟨rfl, .inr (.inl ⟨full, rfl⟩)⟩
    · split at run
      · cases run
      · next empty =>
        split at run
        · cases run
        · next s' refused =>
          cases run
          exact ⟨rfl, .inr (.inr ⟨empty, refused⟩)⟩

theorem alloc_refused {e : Error} {u : Pool × System}
    (run : alloc elementSize count zero (p, s) = .error e u) : e.isAllocationFailure = true := by
  simp only [alloc] at run
  split at run
  · cases run
    rfl
  · split at run
    · cases run
      rfl
    · split at run
      · cases run
      · split at run
        · cases run
        · cases run
          rfl

theorem release_cases (p : Pool) (id : BlockId) :
    ∃ counters, (p.free.length < p.limit ∧
        p.release id = ({ p with
          outstanding := p.outstanding - 1
          free := ⟨id, some releasePattern⟩ :: p.free
          counters }, false)) ∨
      (p.limit ≤ p.free.length ∧
        p.release id = ({ p with outstanding := p.outstanding - 1, counters }, true)) := by
  unfold release
  by_cases room : p.free.length < p.limit
  · exact ⟨_, .inl ⟨room, if_pos room⟩⟩
  · exact ⟨_, .inr ⟨Nat.le_of_not_lt room, if_neg room⟩⟩

theorem spares_alloc {spare : Spare}
    (run : alloc elementSize count zero (p, s) = .ok spare (q, t)) :
    (p.spares = spare.id :: q.spares ∧ t = s) ∨
      (q.spares = p.spares ∧ spare.id = s.requests ∧ t = s.asks p.blockBytes) := by
  obtain ⟨-, -, ⟨fill, free, listed, rfl, rfl⟩ | ⟨-, granted, rfl⟩⟩ := alloc_ok run
  · exact .inl ⟨by rw [spares, listed]; rfl, rfl⟩
  · obtain ⟨given, -⟩ | refused := s.request_cases p.blockBytes
    · rw [given] at granted
      obtain ⟨same, rfl⟩ := Prod.mk.inj granted
      exact .inr ⟨rfl, (Option.some.inj same).symm, rfl⟩
    · rw [refused] at granted
      cases granted

theorem outstanding_alloc {spare : Spare}
    (run : alloc elementSize count zero (p, s) = .ok spare (q, t)) :
    q.outstanding = p.outstanding + 1 ∧ q.blockBytes = p.blockBytes := by
  obtain ⟨-, -, ⟨-, -, -, rfl, -⟩ | ⟨-, -, rfl⟩⟩ := alloc_ok run
  · exact ⟨rfl, rfl⟩
  · exact ⟨rfl, rfl⟩

theorem Balanced.refuse (h : p.Balanced) : p.refuse.Balanced := ⟨h.kept, h.within, h.real⟩

theorem Balanced.alloc {spare : Spare} (h : p.Balanced)
    (run : alloc elementSize count zero (p, s) = .ok spare (q, t)) : q.Balanced := by
  have kept := h.kept
  obtain ⟨-, room, ⟨fill, free, listed, rfl, rfl⟩ | ⟨empty, granted, rfl⟩⟩ := alloc_ok run
  · have size : p.free.length = free.length + 1 := by rw [listed, List.length_cons]
    refine ⟨?_, fun capped => ?_,
      fun _ => h.real (.inl (by rw [listed]; exact List.cons_ne_nil _ _))⟩
    · simp only [handOut]
      omega
    · have within := h.within capped
      simp only [handOut]
      omega
  · refine ⟨kept, fun capped => ?_, fun _ => ?_⟩
    -- A capped pool has room here, since its limit is not yet reached.
    · have within := h.within capped
      have below : p.outstanding ≠ p.limit := fun full => room ⟨capped, full⟩
      simp only [handOut, empty, List.length_nil] at within ⊢
      omega
    · obtain ⟨-, low⟩ | refused := s.request_cases p.blockBytes
      · change p.blockBytes ≤ System.sizeBound
        omega
      · rw [refused] at granted
        cases granted

theorem Balanced.release (h : p.Balanced) (out : p.outstanding ≠ 0) (id : BlockId) :
    (p.release id).1.Balanced := by
  obtain ⟨counters, ⟨room, run⟩ | ⟨full, run⟩⟩ := p.release_cases id
  · rw [run]
    refine ⟨room, fun capped => ?_, fun _ => h.real (.inr out)⟩
    have within := h.within capped
    simp only [List.length_cons]
    omega
  · rw [run]
    refine ⟨h.kept, fun capped => ?_, fun _ => h.real (.inr out)⟩
    have within := h.within capped
    simp only
    omega

/-- The bytes asked for are counted exactly, although the pool compares them only up to
the largest number that a request can name. -/
theorem alloc_ok_iff (h : p.Balanced) (s : System) (elementSize count : Nat) (zero : Bool) :
    (∃ spare u, alloc elementSize count zero (p, s) = .ok spare u) ↔
      p.Serves s (elementSize * count) := by
  constructor
  · rintro ⟨spare, ⟨q, t⟩, run⟩
    obtain ⟨fits, room, source⟩ := alloc_ok run
    have exists' : p.blockBytes ≤ System.sizeBound := by
      have real := (h.alloc run).real (.inr (by rw [(outstanding_alloc run).1]; omega))
      rwa [(outstanding_alloc run).2] at real
    refine ⟨?_, room, ?_⟩
    · have bound : System.sizeBound < addressBound - 1 := by decide
      simp only [requested] at fits
      omega
    · obtain ⟨fill, free, listed, -, -⟩ | ⟨-, granted, -⟩ := source
      · exact .inl (by rw [listed]; exact List.cons_ne_nil _ _)
      · exact .inr (by rw [granted]; rfl)
  · rintro ⟨fits, room, source⟩
    have small : ¬p.blockBytes < requested elementSize count := by
      simp only [requested]
      omega
    simp only [Pool.alloc, if_neg small, if_neg room]
    cases listed : p.free with
    | cons top free => exact ⟨_, _, rfl⟩
    | nil =>
      have given := source.resolve_left fun more => more listed
      cases asked : s.request p.blockBytes with
      | mk id t =>
        rw [asked] at given
        obtain ⟨id, rfl⟩ := Option.isSome_iff_exists.1 given
        exact ⟨_, _, rfl⟩

theorem create_error {name : String} {blockElements limit initial : Nat} {capped : Bool} {e : Error}
    (run : create name elementSize blockElements limit initial capped s = .error e t) :
    s.requests ≤ t.requests := by
  have later := System.requests_le_stock (elementSize * blockElements) initial [] s
  simp only [create] at run
  split at run
  · cases run
    exact Nat.le_refl _
  · split at run
    · cases run
      exact Nat.le_refl _
    · split at run
      · cases run
        exact Nat.le_refl _
      · split at run
        · next stocked =>
          cases run
          rwa [stocked] at later
        · cases run

theorem create_ok {name : String} {blockElements limit initial : Nat} {capped : Bool}
    (run : create name elementSize blockElements limit initial capped s = .ok p t) :
    p.Balanced ∧ p.outstanding = 0 ∧ p.spares.Nodup ∧ s.requests ≤ t.requests ∧
      ∀ i ∈ p.spares, s.requests ≤ i ∧ i < t.requests := by
  simp only [create] at run
  split at run
  · cases run
  · split at run
    · cases run
    · next enough =>
      split at run
      · cases run
      · split at run
        · cases run
        · next stock t' stocked =>
          cases run
          obtain ⟨nodup, size, later, drawn, known, low⟩ :=
            System.stock_ok List.nodup_nil (fun _ member => absurd member List.not_mem_nil) stocked
          have ids : (stock.map fun id => (⟨id, none⟩ : Spare)).map Spare.id = stock := by
            rw [List.map_map]
            exact List.map_id _
          simp only [List.length_nil, Nat.add_zero] at size
          refine ⟨⟨?_, fun _ => ?_, fun some => ?_⟩, rfl, ?_, later, fun i member => ?_⟩
          · simp only [List.length_map]
            omega
          · simp only [List.length_map]
            omega
          · refine low fun none => ?_
            rw [none, List.length_eq_zero_iff] at size
            simp [size] at some
          · rwa [spares, ids]
          · rw [spares, ids] at member
            exact ⟨(drawn i member).resolve_left List.not_mem_nil, known i member⟩

end Pool

end ArrayStore
