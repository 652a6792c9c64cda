import ArrayStore.Proofs.Stream.Judgment
import ArrayStore.Proofs.Stream.Retention

/-! How the counters of a stream follow what it transfers.
A counter advances when a transfer has succeeded as a whole. A sink that fills up has stored a part
of the bytes of the write that fails, and a source that breaks off has delivered a part of those of
the transfer past the buffer that fails; these parts are counted by nobody. A refill is counted by
what it brought. So a counter is never ahead, and behind only where such a failure is reported:
`Writer.Tallies` and `Reader.Tallies` say so of a stretch of operations, and compose. -/

namespace ArrayStore

/-- How the count of a writer follows its sink over a stretch of operations, exactly if it was a
calm one. -/
structure Writer.Tallies (calm : Prop) (w v : Writer) : Prop where
  limit_eq : v.sink.limit = w.sink.limit
  stored : w.sink.stored.toList <+: v.sink.stored.toList
  within : ∀ n, w.sink.limit = some n → w.sink.stored.size ≤ n → v.sink.stored.size ≤ n
  not_ahead : v.bytesWritten + w.sink.stored.size ≤ w.bytesWritten + v.sink.stored.size
  exact : calm → v.bytesWritten + w.sink.stored.size = w.bytesWritten + v.sink.stored.size
  full : v.bytesWritten + w.sink.stored.size ≠ w.bytesWritten + v.sink.stored.size →
    v.sink.limit = some v.sink.stored.size

/-- How the count of a reader follows its source over a stretch of operations, exactly if it was a
calm one. -/
structure Reader.Tallies (calm : Prop) (r q : Reader) : Prop where
  direct_eq : q.direct = r.direct
  rest : q.source.rest <:+ r.source.rest
  not_ahead : q.bytesRead + q.source.rest.length ≤ r.bytesRead + r.source.rest.length
  exact : calm → q.bytesRead + q.source.rest.length = r.bytesRead + r.source.rest.length

namespace Writer

variable {calm calm' : Prop} {w v x : Writer}

theorem Tallies.of_same (sink : v.sink = w.sink) (count : v.bytesWritten = w.bytesWritten) :
    Tallies calm w v where
  limit_eq := by rw [sink]
  stored := by rw [sink]
  within := by
    rw [sink]
    exact fun _ _ small => small
  not_ahead := by rw [sink, count]
  exact := by
    rw [sink, count]
    exact fun _ => rfl
  full := by
    rw [sink, count]
    exact fun differ => absurd rfl differ

theorem Tallies.mono (h : Tallies calm w v) (calmer : calm' → calm) : Tallies calm' w v :=
  { h with exact := fun quiet => h.exact (calmer quiet) }

theorem Tallies.stored_eq_of_full (h : Tallies calm w v)
    (full : w.sink.limit = some w.sink.stored.size) : v.sink.stored = w.sink.stored := by
  have small := h.within _ full (Nat.le_refl _)
  rw [← Array.length_toList, ← Array.length_toList] at small
  exact Array.ext' (h.stored.eq_of_length_le small).symm

/-- What a count misses over two stretches it misses in one of them, since a sink that was too small
in the first has no room in the second. -/
theorem Tallies.trans (first : Tallies calm w v) (second : Tallies calm' v x) :
    Tallies (calm ∧ calm') w x where
  limit_eq := second.limit_eq.trans first.limit_eq
  stored := first.stored.trans second.stored
  within n bound small := second.within n (first.limit_eq.trans bound) (first.within n bound small)
  not_ahead := by
    have := first.not_ahead
    have := second.not_ahead
    omega
  exact quiet := by
    have := first.exact quiet.1
    have := second.exact quiet.2
    omega
  full behind := by
    by_cases late : x.bytesWritten + v.sink.stored.size = v.bytesWritten + x.sink.stored.size
    · have filled := first.full (by omega)
      rw [second.limit_eq, filled, second.stored_eq_of_full filled]
    · exact second.full late

theorem size_write (bytes : List UInt8) (s : Sink) :
    (s.write bytes).stored.size = s.stored.size + (s.fitting bytes).length := by
  have grown := congrArg List.length (s.stored_write bytes)
  rwa [List.length_append, Array.length_toList, Array.length_toList] at grown

theorem Tallies.of_whole {bytes : List UInt8} (fits : w.sink.fits bytes = true)
    (sink : v.sink = w.sink.write bytes)
    (count : v.bytesWritten = w.bytesWritten + bytes.length) : Tallies calm w v := by
  have size : v.sink.stored.size = w.sink.stored.size + bytes.length := by
    rw [sink, size_write, Sink.fitting_of_fits _ _ fits]
  have even : v.bytesWritten + w.sink.stored.size = w.bytesWritten + v.sink.stored.size := by omega
  refine ⟨by rw [sink, Sink.write], ⟨_, by rw [sink, Sink.stored_write]⟩, fun n bound small => ?_,
    Nat.le_of_eq even, fun _ => even, fun differ => absurd even differ⟩
  simp only [Sink.fits, bound, decide_eq_true_eq] at fits
  omega

/-- Of bytes that do not fit some are stored, until the sink is full, and none are counted. -/
theorem Tallies.of_cut {bytes : List UInt8} (cut : ¬ w.sink.fits bytes = true)
    (sink : v.sink = w.sink.write bytes) (count : v.bytesWritten = w.bytesWritten) :
    Tallies False w v := by
  have size : v.sink.stored.size = w.sink.stored.size + (w.sink.fitting bytes).length := by
    rw [sink, size_write]
  have limit : v.sink.limit = w.sink.limit := by rw [sink, Sink.write]
  cases bound : w.sink.limit with
  | none => simp [Sink.fits, bound] at cut
  | some n =>
    simp only [Sink.fits, bound, decide_eq_true_eq, Nat.not_le] at cut
    have room : (w.sink.fitting bytes).length = n - w.sink.stored.size := by
      rw [Sink.fitting, bound, List.length_take]
      omega
    refine ⟨limit, ⟨_, by rw [sink, Sink.stored_write]⟩, fun m bound' small => ?_, by omega,
      fun impossible => impossible.elim, fun behind => ?_⟩
    · cases bound.symm.trans bound'
      omega
    · rw [limit, bound]
      congr 1
      omega

/-- Whether an operation reports nothing of a sink that took less than it was handed. -/
def Calm (e : Option Error) : Prop := e ≠ some (.stream "writing stream" Sink.full)

theorem calm_none : Calm none := by simp [Calm]

end Writer

namespace Outgoing

def Counts {α : Type} (op : Change Outgoing α) (s : Outgoing) : Prop :=
  ∀ w, s.outlet = .stream w → ∃ v, (Outcome.state (op s)).outlet = .stream v ∧
    Writer.Tallies (Writer.Calm (Outcome.failure (op s))) w v

theorem counts_judges : Judgment @Counts where
  quiet {_ op s} r c same w stands := by
    have left := (same s.bound).2
    rw [bounded_bound] at left
    exact ⟨w, by rw [left, stands], .of_same rfl rfl⟩
  congr {_ op op' s} same h := by
    have here := same s.bound
    rw [bounded_bound] at here
    rw [Counts, here]
    exact h
  bind {_ _ first op s} second unfolds h k w stands := by
    have here := unfolds s.bound
    have next := k s.bound
    rw [bounded_bound] at here next
    obtain ⟨v, left, tallies⟩ := h w stands
    rw [here]
    cases run : first s with
    | error e t =>
      rw [run] at left tallies
      exact ⟨v, left, tallies⟩
    | ok a t =>
      rw [run] at left tallies
      obtain ⟨x, end_, rest⟩ := next a t run v left
      exact ⟨x, end_, (tallies.trans rest).mono fun calm => ⟨Writer.calm_none, calm⟩⟩
  hand {_ op a b c w} bytes more hands w' stands := by
    cases stands
    have here := hands w.sink.limit
    change op ⟨b, .stream w⟩ = _ at here
    by_cases fits : w.sink.fits bytes = true
    · have whole : (w.bounded w.sink.limit).sink.fits bytes = true := fits
      rw [Writer.write, if_pos whole] at here
      rw [here]
      exact ⟨_, rfl, .of_whole fits rfl rfl⟩
    · have cut : ¬ (w.bounded w.sink.limit).sink.fits bytes = true := fits
      rw [Writer.write, if_neg cut] at here
      rw [here]
      refine ⟨_, rfl, Writer.Tallies.mono (.of_cut fits rfl rfl) fun calm => ?_⟩
      exact calm rfl

end Outgoing

namespace Reader

variable {calm calm' : Prop} {r q p : Reader}

theorem Tallies.refl (r : Reader) : Tallies calm r r :=
  ⟨rfl, List.suffix_rfl, Nat.le_refl _, fun _ => rfl⟩

theorem Tallies.mono (h : Tallies calm r q) (calmer : calm' → calm) : Tallies calm' r q :=
  { h with exact := fun quiet => h.exact (calmer quiet) }

theorem Tallies.trans (first : Tallies calm r q) (second : Tallies calm' q p) :
    Tallies (calm ∧ calm') r p where
  direct_eq := second.direct_eq.trans first.direct_eq
  rest := second.rest.trans first.rest
  not_ahead := Nat.le_trans second.not_ahead first.not_ahead
  exact quiet := (second.exact quiet.2).trans (first.exact quiet.1)

theorem Tallies.of_delivered (delivered : List UInt8) (counted : Nat)
    (direct : q.direct = r.direct) (rest : r.source.rest = delivered ++ q.source.rest)
    (count : q.bytesRead = r.bytesRead + counted) (some : counted ≤ delivered.length)
    (whole : calm → counted = delivered.length) : Tallies calm r q := by
  have size := congrArg List.length rest
  rw [List.length_append] at size
  refine ⟨direct, ⟨delivered, rest.symm⟩, by omega, fun quiet => ?_⟩
  have := whole quiet
  omega

/-- Whether an operation reports nothing of a source that stopped a transfer past the buffer. -/
def Calm (direct : Bool) (e : Option Error) : Prop := direct = true → e.bind Error.source? = none

end Reader

namespace Incoming

variable {s t : Incoming} {e : Option Error}

theorem refill_tallies (b : Buffer) (r : Reader) (calm : Prop) :
    Reader.Tallies calm r (Outcome.state (refill b r)).2 := by
  simp only [refill]
  split
  · next fault source stopped =>
    have kept := r.source.read_error_rest _ fault (by rw [stopped])
    rw [stopped] at kept
    exact .of_delivered [] 0 rfl kept.symm rfl (Nat.le_refl _)
      fun _ => rfl
  · next chunk source came =>
    exact .of_delivered chunk _ rfl (Source.read_ok came).2.symm rfl (Nat.le_refl _) fun _ => rfl

/-- Only a transfer past the buffer that breaks off leaves bytes uncounted. -/
theorem readDirect_tallies (count : Nat) (b : Buffer) (r : Reader) :
    ∃ c q, Outcome.state (readDirect count ⟨b, .stream r⟩) = ⟨c, .stream q⟩ ∧
      Reader.Tallies (Reader.Calm r.direct (Outcome.failure (readDirect count ⟨b, .stream r⟩)))
        r q := by
  simp only [readDirect, Buffer.getBytes_of_le (Nat.min_le_left b.remaining count)]
  split
  · next direct =>
    split
    · next fault source stopped =>
      obtain ⟨gone, rest⟩ := r.source.readExact_rest (count - min b.remaining count)
        (b.unread.take (min b.remaining count)).toArray
      rw [stopped] at rest
      refine ⟨_, _, rfl, .of_delivered gone 0 rfl rest rfl (Nat.zero_le _) fun calm => ?_⟩
      cases calm direct
    · next bytes source came =>
      obtain ⟨taken, -, size, rest⟩ := Source.readExact_ok came
      exact ⟨_, _, rfl, .of_delivered taken _ rfl rest rfl (Nat.le_of_eq size.symm)
        fun _ => size.symm⟩
  · exact ⟨b, r, rfl, .refl r⟩

def Counted (s : Incoming) (e : Option Error) (t : Incoming) : Prop :=
  ∀ r, s.inlet = .stream r → ∃ q, t.inlet = .stream q ∧
    Reader.Tallies (Reader.Calm r.direct e) r q

theorem Move.counted (move : Move s e t) : Counted s e t := by
  intro r stands
  cases move with
  | take run =>
    simp only [onBuffer] at run
    split at run <;> cases run
    exact ⟨r, stands, .refl r⟩
  | @refill b _ p _ _ run | @fault b _ p _ _ run =>
    cases stands
    refine ⟨_, rfl, ?_⟩
    have once := refill_tallies b r
    rw [run] at once
    exact once _
  | direct run | cut run =>
    obtain ⟨b, inlet⟩ := s
    cases stands
    obtain ⟨c, q, left, tallies⟩ := readDirect_tallies _ b r
    rw [run] at left tallies
    exact ⟨q, congrArg Incoming.inlet left, tallies⟩

theorem Trail.counted (trail : Trail s e t) : Counted s e t := by
  induction trail with
  | stop => exact fun r stands => ⟨r, stands, .refl r⟩
  | halt move => exact move.counted
  | @next s t u e move rest ih =>
    intro r stands
    obtain ⟨q, left, first⟩ := move.counted r stands
    obtain ⟨p, end_, second⟩ := ih q left
    rw [first.direct_eq] at second
    exact ⟨p, end_, (first.trans second).mono fun calm => ⟨fun _ => rfl, calm⟩⟩

end Incoming

end ArrayStore
