import ArrayStore.Proofs.Stream.Judgment
import Mathlib.Data.List.Infix

/-! What a bound on the sink changes.
Two runs of an operation are compared: one before a sink that stores everything,
one before the same sink with a bound. They go through the same states until the
bounded sink is full. It then holds the first bytes of what the other one holds,
the operation fails, and from there on nothing more is stored, while the other
run only adds behind what it has. -/

namespace ArrayStore

namespace Sink

variable {s : Sink} {n : Nat}

theorem stored_write_limit (small : s.stored.toList.length ≤ n) (bytes : List UInt8) :
    (write { s with limit := some n } bytes).stored.toList = (s.stored.toList ++ bytes).take n := by
  rw [stored_write, List.take_append, List.take_of_length_le small, Array.length_toList]
  rfl

theorem fits_limit_iff (small : s.stored.toList.length ≤ n) (bytes : List UInt8) :
    fits { s with limit := some n } bytes = true ↔ (s.stored.toList ++ bytes).length ≤ n := by
  rw [Array.length_toList] at small
  rw [List.length_append, Array.length_toList]
  simp only [fits, decide_eq_true_eq]
  omega

end Sink

namespace Outgoing

/-- What an operation may do to a sink: store more behind what is there, within the bound. -/
structure Grown (s t : Outgoing) : Prop where
  bounded_eq : ∀ bound, s.bounded bound = s → t.bounded bound = t
  delivered : s.delivered <+: t.delivered
  within : ∀ n, s.bounded (some n) = s → s.delivered.length ≤ n → t.delivered.length ≤ n

/-- The outcomes of the same operation before a sink that stores everything and before one that
stores `n` bytes. -/
inductive Truncated {α : Type} (n : Nat) : Outcome Outgoing α → Outcome Outgoing α → Prop where
  | ok {a : α} {t : Outgoing} (free : t.bounded none = t) (fits : t.delivered.length ≤ n) :
      Truncated n (.ok a t) (.ok a (t.bounded (some n)))
  | error {e : Error} {t : Outgoing} (free : t.bounded none = t) (fits : t.delivered.length ≤ n) :
      Truncated n (.error e t) (.error e (t.bounded (some n)))
  | full {r : Outcome Outgoing α} {u : Outgoing} (bound : u.bounded (some n) = u)
      (stored : u.delivered = (Outcome.state r).delivered.take n)
      (filled : u.delivered.length = n) :
      Truncated n r (.error (.stream "writing stream" Sink.full) u)

/-- An operation that a bound on the sink behind `s` cuts off and changes in no other way. -/
structure Cuts {α : Type} (op : Change Outgoing α) (s : Outgoing) : Prop where
  grows : Grown s (Outcome.state (op s))
  cuts : ∀ n, s.bounded none = s → s.delivered.length ≤ n →
    Truncated n (op s) (op (s.bounded (some n)))

variable {α β : Type} {n : Nat} {s t u : Outgoing}

theorem Grown.trans (first : Grown s t) (second : Grown t u) : Grown s u :=
  ⟨fun m h => second.bounded_eq m (first.bounded_eq m h),
    first.delivered.trans second.delivered,
    fun n h small => second.within n (first.bounded_eq _ h) (first.within n h small)⟩

theorem Grown.delivered_of_full (h : Grown s t) (bound : s.bounded (some n) = s)
    (filled : s.delivered.length = n) : t.delivered = s.delivered := by
  have small := h.within n bound (Nat.le_of_eq filled)
  exact (h.delivered.eq_of_length_le (by omega)).symm

theorem Grown.take_delivered (h : Grown s t) (long : n ≤ s.delivered.length) :
    t.delivered.take n = s.delivered.take n := by
  obtain ⟨more, same⟩ := h.delivered
  rw [← same, List.take_append_of_le_length long]

theorem Truncated.of_grown {r : Outcome Outgoing α} (grown : Grown t (Outcome.state r))
    (bound : u.bounded (some n) = u) (stored : u.delivered = t.delivered.take n)
    (filled : u.delivered.length = n) :
    Truncated n r (.error (.stream "writing stream" Sink.full) u) := by
  have long : n ≤ t.delivered.length := by
    rw [stored, List.length_take] at filled
    omega
  exact .full bound (stored.trans (grown.take_delivered long).symm) filled

/-! Operations that leave the state as it is, and operations in sequence. -/

theorem grown_of_outlet (s : Outgoing) (c : Buffer) : Grown s ⟨c, s.outlet⟩ where
  bounded_eq limit same := by
    obtain ⟨b, outlet⟩ := s
    cases outlet with
    | closed => rfl
    | stream w =>
      have limit_eq : w.sink.limit = limit := (congrArg bound same).symm
      subst limit_eq
      rfl
  delivered := List.prefix_rfl
  within _ _ small := small

theorem Truncated.of_fits {r q : Outcome Outgoing α}
    (answer_eq : Outcome.answer q = Outcome.answer r)
    (state_eq : Outcome.state q = (Outcome.state r).bounded (some n))
    (free : (Outcome.state r).bounded none = Outcome.state r)
    (fits : (Outcome.state r).delivered.length ≤ n) : Truncated n r q := by
  cases r with
  | ok a t =>
    cases q with
    | ok a' u =>
      cases answer_eq
      cases state_eq
      exact .ok free fits
    | error e u => cases answer_eq
  | error e t =>
    cases q with
    | ok a u => cases answer_eq
    | error e' u =>
      cases answer_eq
      cases state_eq
      exact .error free fits

/-- An operation that gives the same answer and leaves the same buffer before every sink, and the
sink alone. -/
theorem Cuts.quiet {op : Change Outgoing α} (r : Except Error α) (c : Buffer)
    (same : ∀ bound, Outcome.answer (op (s.bounded bound)) = r ∧
      Outcome.state (op (s.bounded bound)) = ⟨c, (s.bounded bound).outlet⟩) : Cuts op s where
  grows := by
    have here := (same s.bound).2
    rw [bounded_bound] at here
    exact here ▸ grown_of_outlet s c
  cuts n free fits := by
    obtain ⟨answer, state⟩ := same none
    obtain ⟨answer', state'⟩ := same (some n)
    rw [free] at answer state
    have grown := grown_of_outlet s c
    refine .of_fits (answer'.trans answer.symm) ?_ ?_ ?_
    · rw [state', state]
      obtain ⟨b, outlet⟩ := s
      cases outlet <;> rfl
    · rw [state]
      exact grown.bounded_eq none free
    · rw [state]
      exact fits

theorem Cuts.congr {op op' : Change Outgoing α}
    (same : ∀ bound, op (s.bounded bound) = op' (s.bounded bound)) (h : Cuts op' s) :
    Cuts op s where
  grows := by
    have here := same s.bound
    rw [bounded_bound] at here
    exact here ▸ h.grows
  cuts n free fits := by
    have here := same none
    rw [free] at here
    rw [here, same]
    exact h.cuts n free fits

theorem Cuts.bind {first : Change Outgoing α} {op : Change Outgoing β}
    (second : α → Change Outgoing β)
    (unfolds : ∀ bound, op (s.bounded bound) = match first (s.bounded bound) with
      | .error e t => .error e t
      | .ok a t => second a t)
    (h : Cuts first s) (k : ∀ bound a t, first (s.bounded bound) = .ok a t → Cuts (second a) t) :
    Cuts op s where
  grows := by
    have here := unfolds s.bound
    have next := k s.bound
    rw [bounded_bound] at here next
    have grown := h.grows
    rw [here]
    cases run : first s with
    | error e t =>
      rw [run] at grown
      exact grown
    | ok a t =>
      rw [run] at grown
      exact grown.trans (next a t run).grows
  cuts n free fits := by
    have here := unfolds none
    have next := k none
    rw [free] at here next
    have pair := h.cuts n free fits
    rw [here, unfolds]
    generalize first (s.bounded (some n)) = q at pair
    cases run : first s with
    | error e t =>
      rw [run] at pair
      cases pair with
      | error free' fits' => exact .error free' fits'
      | full bound stored filled => exact .full bound stored filled
    | ok a t =>
      rw [run] at pair
      cases pair with
      | ok free' fits' => exact (next a t run).cuts n free' fits'
      | full bound stored filled =>
        exact .of_grown (next a t run).grows bound stored filled

theorem grown_write (bytes : List UInt8) (b c : Buffer) {w v : Writer}
    (stored : v.sink = w.sink.write bytes) : Grown ⟨b, .stream w⟩ ⟨c, .stream v⟩ where
  bounded_eq limit same := by
    have limit_eq : w.sink.limit = limit := (congrArg bound same).symm
    have kept : v.sink.limit = limit := by
      rw [stored, ← limit_eq]
      rfl
    subst kept
    rfl
  delivered := ⟨w.sink.fitting bytes, by
    change w.sink.stored.toList ++ w.sink.fitting bytes = v.sink.stored.toList
    rw [stored, Sink.stored_write]⟩
  within n same small := by
    have limit_eq : w.sink.limit = some n := (congrArg bound same).symm
    change w.sink.stored.toList.length ≤ n at small
    change v.sink.stored.toList.length ≤ n
    have cut := List.length_take_le (n - w.sink.stored.toList.length) bytes
    simp only [stored, Sink.stored_write, Sink.fitting, limit_eq, List.length_append,
      ← Array.length_toList]
    omega

theorem Cuts.hand {op : Change Outgoing α} {a : α} {b c : Buffer} {w : Writer}
    (bytes : List UInt8) (more : Nat)
    (hands : ∀ limit, op ⟨b, .stream (w.bounded limit)⟩ =
      match Writer.write bytes (w.bounded limit) with
      | .error e v => .error e ⟨c, .stream v⟩
      | .ok () v => .ok a ⟨c, .stream { v with flushes := v.flushes + more }⟩) :
    Cuts op ⟨b, .stream w⟩ where
  grows := by
    have here := hands w.sink.limit
    change op ⟨b, .stream w⟩ = _ at here
    rw [here, Writer.write]
    by_cases fits : (w.bounded w.sink.limit).sink.fits bytes = true
    · rw [if_pos fits]
      exact grown_write bytes b c rfl
    · rw [if_neg fits]
      exact grown_write bytes b c rfl
  cuts n free small := by
    have limit_eq : w.sink.limit = none := (congrArg bound free).symm
    have here := hands none
    change op (bounded none ⟨b, .stream w⟩) = _ at here
    change Truncated n _ (op ⟨b, .stream (w.bounded (some n))⟩)
    rw [free, Writer.write_of_unlimited bytes rfl] at here
    rw [here, hands, Writer.write]
    have whole : ((w.bounded none).sink.write bytes).stored.toList =
        w.sink.stored.toList ++ bytes := Sink.stored_write_of_unlimited bytes rfl
    have cut : ((w.bounded (some n)).sink.write bytes).stored.toList =
        (w.sink.stored.toList ++ bytes).take n := Sink.stored_write_limit small bytes
    have room : (w.bounded (some n)).sink.fits bytes = true ↔
        (w.sink.stored.toList ++ bytes).length ≤ n := Sink.fits_limit_iff small bytes
    by_cases fits : (w.bounded (some n)).sink.fits bytes = true
    · have same : (w.bounded (some n)).sink.write bytes =
          { (w.bounded none).sink.write bytes with limit := some n } := by
        rw [Sink.write, Sink.fitting_of_fits _ _ fits]
        rfl
      rw [if_pos fits, same]
      refine .ok (t := ⟨c, .stream { (w.bounded none) with
        sink := (w.bounded none).sink.write bytes
        bytesWritten := w.bytesWritten + bytes.length
        flushes := w.flushes + more }⟩) rfl ?_
      exact (congrArg List.length whole).trans_le (room.1 fits)
    · rw [if_neg fits]
      refine .full rfl (cut.trans (congrArg (List.take n) whole).symm) ?_
      refine (congrArg List.length cut).trans ?_
      rw [List.length_take]
      exact Nat.min_eq_left (Nat.le_of_not_le fun fit => fits (room.2 fit))

theorem cuts_judges : Judgment @Cuts := ⟨.quiet, .congr, .bind, .hand⟩

end Outgoing

end ArrayStore
