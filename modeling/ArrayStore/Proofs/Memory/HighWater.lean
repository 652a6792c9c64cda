import ArrayStore.Proofs.Memory.Passage

/-! How many blocks a pool has.
As long as no block goes back to the system, a pool has as many as it was
stocked with, or as many as were ever out at one time. The two counts of what is
out, that of the pool and that of its statistics, agree. Whether a released
block finds room is left to the users. -/

namespace ArrayStore

namespace Pool

/-- A pool that was stocked with `initial` blocks, has no more than were needed at one time since
then, and has given none back. -/
structure AtPeak (initial : Nat) (p : Pool) : Prop where
  counted : p.counters.outstanding = p.outstanding
  total : p.outstanding + p.free.length = max initial p.counters.statistics.peakOutstanding
  kept : p.counters.statistics.evictions = 0

variable {p q : Pool} {s t : System} {initial : Nat}

/-- A pool as it is built, of which nothing has been asked yet. -/
structure Stocked (initial : Nat) (p : Pool) : Prop where
  outstanding : p.outstanding = 0
  size : p.free.length = initial
  counters : p.counters = {}

theorem create_stocked {name : String} {elementSize blockElements limit : Nat} {capped : Bool}
    (run : create name elementSize blockElements limit initial capped s = .ok p t) :
    p.Stocked initial := by
  simp only [create] at run
  split at run
  · cases run
  · split at run
    · cases run
    · split at run
      · cases run
      · split at run
        · cases run
        · next stock t' stocked =>
          cases run
          obtain ⟨-, size, -⟩ :=
            System.stock_ok List.nodup_nil (fun _ member => absurd member List.not_mem_nil) stocked
          exact ⟨rfl, (List.length_map ..).trans size, rfl⟩

theorem Stocked.atPeak (h : p.Stocked initial) : p.AtPeak initial := by
  refine ⟨?_, ?_, ?_⟩
  · rw [h.counters, h.outstanding]
  · rw [h.counters, h.outstanding, h.size]
    exact (Nat.zero_add _).trans (Nat.max_zero _).symm
  · rw [h.counters]

/-- A spare block is handed out below the mark; a new one is needed just at the mark, and moves
it. -/
theorem AtPeak.asked (h : p.AtPeak initial) (asked : p.Asked q) : q.AtPeak initial := by
  have counted := h.counted
  have total := h.total
  obtain rfl | rfl | ⟨free, -, size, rfl⟩ | ⟨empty, rfl⟩ := asked_cases asked
  · exact h
  · exact ⟨counted, total, h.kept⟩
  · refine ⟨congrArg Nat.succ counted, ?_, h.kept⟩
    simp only [handOut, Counters.record, counted]
    omega
  · refine ⟨congrArg Nat.succ counted, ?_, h.kept⟩
    rw [empty, List.length_nil] at total
    simp only [handOut, Counters.record, counted, empty, List.length_nil]
    omega

theorem AtPeak.returned (h : p.AtPeak initial) (returned : p.Returned q)
    (room : p.outstanding ≠ 0 → p.free.length < p.limit) : q.AtPeak initial := by
  obtain rfl | ⟨id, out, rfl⟩ := returned
  · exact h
  · have counted := h.counted
    have total := h.total
    rw [release_of_room (room out)]
    refine ⟨?_, ?_, h.kept⟩
    · simp only [Counters.record, counted, if_neg out]
    · simp only [Counters.record, List.length_cons]
      omega

/-- A pool that has no more blocks than it may keep has room for one that comes back, even if it
has just taken a new one. -/
theorem Asked.room (asked : p.Asked q) (few : p.outstanding + p.free.length ≤ p.limit)
    (some : 0 < p.limit) (out : q.outstanding ≠ 0) : q.free.length < q.limit := by
  obtain rfl | rfl | ⟨free, -, size, rfl⟩ | ⟨empty, rfl⟩ := asked_cases asked
  · omega
  · simp only [refuse] at out ⊢
    omega
  · simp only [handOut]
    omega
  · simp only [handOut, empty, List.length_nil]
    exact some

theorem Balanced.room (h : p.Balanced) (capped : p.capped = true) (out : p.outstanding ≠ 0) :
    p.free.length < p.limit := by
  have within := h.within capped
  omega

theorem spares_release {id : BlockId}
    (kept : (p.release id).1.counters.statistics.evictions = p.counters.statistics.evictions) :
    (p.release id).1.spares = id :: p.spares := by
  by_cases room : p.free.length < p.limit
  · rw [release_of_room room]
    rfl
  · rw [release_of_full room] at kept
    exact absurd kept (Nat.succ_ne_self _)

theorem AtPeak.exhausted (h : p.AtPeak initial) {elementSize count : Nat} {zero : Bool}
    (asked : (Outcome.state (alloc elementSize count zero (p, s))).2.requests ≠ s.requests) :
    p.free = [] ∧ p.outstanding = max initial p.counters.statistics.peakOutstanding := by
  have total := h.total
  suffices empty : p.free = [] by
    rw [empty, List.length_nil, Nat.add_zero] at total
    exact ⟨empty, total⟩
  cases run : alloc elementSize count zero (p, s) with
  | error e t =>
    obtain ⟨-, ⟨-, same⟩ | ⟨-, same⟩ | ⟨empty, -⟩⟩ := alloc_error run
    · rw [run, Outcome.state_error, same] at asked
      exact absurd rfl asked
    · rw [run, Outcome.state_error, same] at asked
      exact absurd rfl asked
    · exact empty
  | ok spare t =>
    obtain ⟨-, -, ⟨-, -, -, -, same⟩ | ⟨empty, -⟩⟩ := alloc_ok run
    · rw [run, Outcome.state_ok, same] at asked
      exact absurd rfl asked
    · exact empty

end Pool

end ArrayStore
