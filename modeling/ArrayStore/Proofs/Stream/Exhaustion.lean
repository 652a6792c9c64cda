import ArrayStore.Proofs.Stream.Delivery

/-! Reading no further than the bytes that there are.
A source that faults only from its last byte on, or further on, is compared
with the same source without a fault. As long as reads are begun while bytes are
left, the two deliver the same. An operation is frugal if, where it succeeds,
each of its reads has delivered something, so that none was begun at the end and
it succeeds before the faulty source as well: the requests for bytes through a
buffer and past it are. -/

namespace ArrayStore

namespace Source

def failing (fault : Nat × StreamFault) (s : Source) : Source := { s with failure := some fault }

structure Before (fault : Nat × StreamFault) (s : Source) : Prop where
  faultless : s.failure = none
  within : s.position + s.rest.length ≤ fault.1

/-- A source comes from another by reads, each of which has delivered at least one byte. -/
inductive Draws : Source → Source → Prop where
  | none (s : Source) : Draws s s
  | read {s t u : Source} {asked : Nat} {b : UInt8} {chunk : List UInt8}
      (given : s.read asked = (.ok (b :: chunk), t)) (next : Draws t u) : Draws s u

variable {fault : Nat × StreamFault} {s t u : Source}

theorem Draws.trans (first : Draws s t) (second : Draws t u) : Draws s u := by
  induction first with
  | none => exact second
  | read given _ ih => exact .read given (ih second)

theorem rest_ne_nil_of_read {asked : Nat} {b : UInt8} {chunk : List UInt8}
    (run : s.read asked = (.ok (b :: chunk), t)) : s.rest ≠ [] := by
  have whole := s.read_rest asked (b :: chunk) (by rw [run])
  rw [← whole]
  exact List.cons_ne_nil _ _

theorem Before.deliver (h : s.Before fault) (left : s.rest ≠ []) (asked : Nat) :
    (s.failing fault).deliver asked = s.deliver asked := by
  have positive : 0 < s.rest.length := List.length_pos_iff.2 left
  have room := h.within
  have early : ¬fault.1 ≤ (s.failing fault).position := by
    change ¬fault.1 ≤ s.position
    omega
  have waiting : (s.failing fault).failure = some fault := rfl
  simp only [Source.deliver, waiting, h.faultless, if_neg early]
  simp only [failing]
  generalize (s.portion s.reads).elim asked (min asked) = most
  -- The bound that the fault puts on a read is at least the number of bytes left.
  congr 1
  rw [List.take_eq_take_iff]
  omega

theorem Before.read {b : UInt8} {chunk : List UInt8} {asked : Nat} (h : s.Before fault)
    (run : s.read asked = (.ok (b :: chunk), t)) :
    t.Before fault ∧ (s.failing fault).read asked = (.ok (b :: chunk), t.failing fault) := by
  have left : s.rest ≠ [] := rest_ne_nil_of_read run
  fun_induction Source.read asked s with
  | case1 s interrupted ih =>
    obtain ⟨before, same⟩ := ih ⟨h.faultless, h.within⟩ run left
    refine ⟨before, ?_⟩
    have again : (s.failing fault).reads ∈ (s.failing fault).interrupts := interrupted
    rw [Source.read, dif_pos again]
    exact same
  | case2 => cases run
  | case3 s ready given delivered size =>
    have given_eq : given = b :: chunk := Except.ok.inj (congrArg Prod.fst run)
    subst given_eq
    have left_eq := s.deliver_isPrefix asked (b :: chunk) delivered
    have length := congrArg List.length left_eq
    rw [List.length_append] at length
    have room := h.within
    have rest_eq := congrArg Prod.snd run
    subst rest_eq
    refine ⟨⟨h.faultless, ?_⟩, ?_⟩
    · simp only [size]
      omega
    · have again : (s.failing fault).reads ∉ (s.failing fault).interrupts := ready
      rw [Source.read, dif_neg again, h.deliver left, delivered]
      rfl

/-- What was drawn from a source is drawn from it with a fault waiting behind its last byte. -/
theorem Draws.failing (draws : Draws s t) (h : s.Before fault) :
    Draws (s.failing fault) (t.failing fault) := by
  induction draws with
  | none => exact .none _
  | read given _ ih =>
    obtain ⟨before, same⟩ := h.read given
    exact .read same (ih before)

theorem Before.readExact {count : Nat} {front all : Array UInt8} (h : s.Before fault)
    (run : s.readExact count front = (.ok all, t)) :
    Draws s t ∧ t.Before fault ∧
      (s.failing fault).readExact count front = (.ok all, t.failing fault) := by
  fun_induction Source.readExact count front s with
  | case1 front s =>
    cases run
    exact ⟨.none _, h, by rw [Source.readExact, if_pos rfl]⟩
  | case2 | case3 => cases run
  | case4 count front s positive b chunk u given ih =>
    obtain ⟨before, same⟩ := h.read given
    obtain ⟨draws, before', same'⟩ := ih before run
    refine ⟨.read given draws, before', ?_⟩
    rw [Source.readExact, if_neg positive]
    split
    · next read =>
      rw [same] at read
      cases read
    · next read =>
      rw [same] at read
      cases read
    · next read =>
      rw [same] at read
      cases read
      exact same'

end Source

def Reader.failing (fault : Nat × StreamFault) (r : Reader) : Reader :=
  { r with source := r.source.failing fault }

namespace Incoming

def failing (fault : Nat × StreamFault) : Incoming → Incoming
  | ⟨b, .stream r⟩ => ⟨b, .stream (r.failing fault)⟩
  | s => s

def Before (fault : Nat × StreamFault) (s : Incoming) : Prop :=
  ∃ r, s.inlet = .stream r ∧ r.source.Before fault

def Draws (s t : Incoming) : Prop :=
  ∃ r q, s.inlet = .stream r ∧ t.inlet = .stream q ∧ r.source.Draws q.source

structure Drawn (fault : Nat × StreamFault) (s t : Incoming) : Prop where
  draws : s.Draws t
  before : t.Before fault

/-- An operation that, where it succeeds, begins no read at the end of the source, and does not
notice a fault there. -/
def Frugal {α : Type} (op : Change Incoming α) : Prop :=
  ∀ fault s, s.Before fault → ∀ a t, op s = .ok a t →
    Drawn fault s t ∧ op (s.failing fault) = .ok a (t.failing fault)

variable {fault : Nat × StreamFault} {s t u : Incoming}

@[simp] theorem buffer_failing (fault : Nat × StreamFault) (s : Incoming) :
    (s.failing fault).buffer = s.buffer := by
  obtain ⟨b, inlet⟩ := s
  cases inlet <;> rfl

theorem Drawn.refl (h : s.Before fault) : Drawn fault s s := by
  obtain ⟨r, stream, before⟩ := h
  exact ⟨⟨r, r, stream, stream, .none _⟩, r, stream, before⟩

theorem Drawn.trans (first : Drawn fault s t) (second : Drawn fault t u) : Drawn fault s u := by
  obtain ⟨r, q, start, between, draws⟩ := first.draws
  obtain ⟨q', p, between', finish, draws'⟩ := second.draws
  cases between.symm.trans between'
  exact ⟨⟨r, p, start, finish, draws.trans draws'⟩, second.before⟩

theorem Drawn.source {b c : Buffer} {r q : Reader}
    (h : Drawn fault ⟨b, .stream r⟩ ⟨c, .stream q⟩) : r.source.Draws q.source := by
  obtain ⟨_, _, start, finish, draws⟩ := h.draws
  cases start
  cases finish
  exact draws

theorem refill_draws {b c : Buffer} {r q : Reader} {n : Nat} (h : r.source.Before fault)
    (run : refill b r = .ok (n + 1) (c, q)) :
    r.source.Draws q.source ∧ q.source.Before fault ∧
      refill b (r.failing fault) = .ok (n + 1) (c, q.failing fault) := by
  cases read : r.source.read (min b.compact.remaining r.fragment) with
  | mk delivered source =>
    cases delivered with
    | error e =>
      simp only [refill, read] at run
      cases run
    | ok chunk =>
      simp only [refill, read] at run
      cases chunk with
      | nil => cases run
      | cons byte chunk =>
        obtain ⟨before, same⟩ := h.read read
        cases run
        refine ⟨.read read (.none _), before, ?_⟩
        simp only [refill, Reader.failing, same]
        rfl

theorem fillTo_draws {target : Nat} {b c : Buffer} {r q : Reader} (h : r.source.Before fault)
    (run : fillTo target b r = .ok () (c, q)) :
    r.source.Draws q.source ∧ q.source.Before fault ∧
      fillTo target b (r.failing fault) = .ok () (c, q.failing fault) := by
  fun_induction fillTo target b r with
  | case1 | case2 => cases run
  | case3 b r missing n d p filled ih =>
    obtain ⟨draws, before, same⟩ := refill_draws h filled
    obtain ⟨draws', before', same'⟩ := ih before run
    refine ⟨draws.trans draws', before', ?_⟩
    rw [fillTo, if_pos missing]
    split
    · next again =>
      rw [same] at again
      cases again
    · next again =>
      rw [same] at again
      cases again
    · next again =>
      rw [same] at again
      cases again
      exact same'
  | case4 b r held =>
    cases run
    exact ⟨.none _, h, by rw [fillTo, if_neg held]⟩

theorem ensureData_frugal (size : Nat) : Frugal (ensureData size) := by
  intro fault s h _ t run
  obtain ⟨b, inlet⟩ := s
  obtain ⟨r, rfl, before⟩ := h
  by_cases full : 0 < size ∧ min (b.remaining + size) b.capacity ≤ b.remaining
  · simp only [ensureData, if_pos full] at run
    cases run
  · simp only [ensureData, if_neg full] at run
    cases filled : fillTo (min (b.remaining + size) b.capacity) b r with
    | error e p =>
      rw [filled] at run
      cases run
    | ok _ p =>
      obtain ⟨c, q⟩ := p
      obtain ⟨draws, before', same⟩ := fillTo_draws before filled
      rw [filled] at run
      cases run
      refine ⟨⟨⟨r, q, rfl, rfl, draws⟩, q, rfl, before'⟩, ?_⟩
      simp only [failing, ensureData, if_neg full, same]

theorem ensureRemaining_frugal (size : Nat) : Frugal (ensureRemaining size) := by
  intro fault s h _ t run
  by_cases held : size ≤ s.buffer.remaining
  · simp only [ensureRemaining, if_pos held] at run
    cases run
    refine ⟨.refl h, ?_⟩
    simp only [ensureRemaining, buffer_failing, if_pos held]
  · simp only [ensureRemaining, if_neg held] at run
    cases ready : ensureData (size - s.buffer.remaining) s with
    | error e u =>
      simp only [ready] at run
      cases run
    | ok _ u =>
      obtain ⟨drawn, same⟩ := ensureData_frugal _ fault s h _ u ready
      simp only [ready] at run
      split at run
      · cases run
      · next enough =>
        cases run
        refine ⟨drawn, ?_⟩
        simp only [ensureRemaining, buffer_failing, if_neg held, same, if_neg enough]

theorem onBuffer_frugal {α : Type} (change : Change Buffer α) : Frugal (onBuffer change) := by
  intro fault s h a t run
  obtain ⟨b, inlet⟩ := s
  obtain ⟨r, rfl, before⟩ := h
  cases changed : change b with
  | error e c =>
    simp only [onBuffer, changed] at run
    cases run
  | ok a' c =>
    simp only [onBuffer, changed] at run
    cases run
    refine ⟨⟨⟨r, r, rfl, rfl, .none _⟩, r, rfl, before⟩, ?_⟩
    simp only [failing, onBuffer, changed]

theorem readDirect_frugal (count : Nat) : Frugal (readDirect count) := by
  intro fault s h a t run
  obtain ⟨b, inlet⟩ := s
  obtain ⟨r, rfl, before⟩ := h
  by_cases direct : r.direct = true
  · simp only [readDirect, if_pos direct] at run
    cases got : Buffer.getBytes (min b.remaining count) b with
    | error e c =>
      simp only [got] at run
      cases run
    | ok front c =>
      cases read : r.source.readExact (count - min b.remaining count) front.toArray with
      | mk delivered source =>
        simp only [got, read] at run
        cases delivered with
        | error e => cases run
        | ok bytes =>
          obtain ⟨draws, before', same⟩ := before.readExact read
          cases run
          refine ⟨⟨⟨r, _, rfl, rfl, draws⟩, _, rfl, before'⟩, ?_⟩
          simp only [failing, readDirect, Reader.failing, if_pos direct, got, same]
  · simp only [readDirect, if_neg direct] at run
    cases run
    refine ⟨.refl ⟨r, rfl, before⟩, ?_⟩
    simp only [failing, readDirect, Reader.failing, if_neg direct]

end Incoming

end ArrayStore
