import ArrayStore.Error

/-! Sources: where read bytes come from.
A source delivers its bytes in portions. A read may be interrupted, which means
that it is to be tried again, and from some position on every read may fail.
What was delivered, followed by what is left, is always the same. -/

namespace ArrayStore

structure Source where
  /-- The bytes not yet delivered. -/
  rest : List UInt8
  position : Nat := 0
  reads : Nat := 0
  /-- The most bytes that a read delivers, by its number; none for no bound. -/
  portion : Nat → Option Nat := fun _ => none
  /-- The numbers of the reads that are interrupted. -/
  interrupts : List Nat := []
  /-- The position from which on reads fail, and the fault they report. -/
  failure : Option (Nat × StreamFault) := none

namespace Source

/-- The bytes that one uninterrupted read delivers, or the fault it reports. -/
def deliver (s : Source) (asked : Nat) : Except StreamFault (List UInt8) :=
  let asked := (s.portion s.reads).elim asked (min asked)
  match s.failure with
  | none => .ok (s.rest.take asked)
  | some (position, fault) =>
    if position ≤ s.position then .error fault
    else .ok (s.rest.take (min asked (position - s.position)))

def pendingInterrupts (s : Source) : Nat := s.interrupts.countP (s.reads ≤ ·)

theorem countP_succ_le (start : Nat) (l : List Nat) :
    l.countP (start + 1 ≤ ·) ≤ l.countP (start ≤ ·) :=
  List.countP_mono_left fun n _ hn => by
    simp only [decide_eq_true_eq] at hn ⊢
    omega

theorem countP_succ_lt {start : Nat} {l : List Nat} (h : start ∈ l) :
    l.countP (start + 1 ≤ ·) < l.countP (start ≤ ·) := by
  induction l with
  | nil => exact absurd h List.not_mem_nil
  | cons n l ih =>
    simp only [List.countP_cons, decide_eq_true_eq]
    rcases List.mem_cons.1 h with rfl | hl
    · have := countP_succ_le start l
      rw [if_neg (by omega), if_pos (by omega)]
      omega
    · have := ih hl
      split <;> split <;> omega

theorem pendingInterrupts_lt (s : Source) (h : s.reads ∈ s.interrupts) :
    pendingInterrupts { s with reads := s.reads + 1 } < s.pendingInterrupts :=
  countP_succ_lt h

/-- Read at most `asked` bytes, trying again while interrupted. -/
def read (asked : Nat) (s : Source) : Except StreamFault (List UInt8) × Source :=
  if _h : s.reads ∈ s.interrupts then
    read asked { s with reads := s.reads + 1 }
  else
    match s.deliver asked with
    | .error fault => (.error fault, { s with reads := s.reads + 1 })
    | .ok chunk =>
      let size := chunk.length
      (.ok chunk,
        { s with rest := s.rest.drop size, position := s.position + size, reads := s.reads + 1 })
termination_by s.pendingInterrupts
decreasing_by exact s.pendingInterrupts_lt _h

theorem deliver_isPrefix (s : Source) (asked : Nat) (chunk : List UInt8)
    (h : s.deliver asked = .ok chunk) : chunk ++ s.rest.drop chunk.length = s.rest := by
  have key : ∀ n : Nat, s.rest.take n ++ s.rest.drop (s.rest.take n).length = s.rest := by
    intro n
    by_cases hn : n ≤ s.rest.length
    · simp [Nat.min_eq_left hn]
    · simp [List.take_of_length_le (by omega : s.rest.length ≤ n)]
  simp only [deliver] at h
  split at h
  · cases h
    exact key _
  · split at h
    · cases h
    · cases h
      exact key _

/-- What a read delivers, followed by what it leaves, is what there was. -/
theorem read_rest (asked : Nat) (s : Source) (chunk : List UInt8)
    (h : (s.read asked).1 = .ok chunk) : chunk ++ (s.read asked).2.rest = s.rest := by
  fun_induction read asked s with
  | case1 s hs ih => exact ih h
  | case2 => cases h
  | case3 s _ chunk' hd size =>
    cases h
    exact s.deliver_isPrefix asked chunk hd

theorem read_error_rest (asked : Nat) (s : Source) (fault : StreamFault)
    (h : (s.read asked).1 = .error fault) : (s.read asked).2.rest = s.rest := by
  fun_induction read asked s with
  | case1 s hs ih => exact ih h
  | case2 => rfl
  | case3 => cases h

def ended : StreamFault := ⟨.unexpectedEnd, "failed to fill whole buffer"⟩

/-- Read exactly `count` bytes, in as many portions as it takes, behind `front`. -/
def readExact (count : Nat) (front : Array UInt8) (s : Source) :
    Except StreamFault (Array UInt8) × Source :=
  if count = 0 then (.ok front, s)
  else
    match _h : s.read count with
    | (.error fault, s') => (.error fault, s')
    | (.ok [], s') => (.error ended, s')
    | (.ok (b :: chunk), s') =>
      readExact (count - (chunk.length + 1)) (front ++ (b :: chunk)) s'
termination_by s.rest.length
decreasing_by
  have := s.read_rest count (b :: chunk) (by rw [_h])
  rw [_h] at this
  simp only [← this, List.length_append, List.length_cons]
  omega

end Source

end ArrayStore
