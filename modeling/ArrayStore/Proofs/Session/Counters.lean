import ArrayStore.Proofs.Session.Reading
import ArrayStore.Proofs.Session.Writing
import ArrayStore.Proofs.Stream.Counters

/-! The counters of a stream over whole runs.
A run on a writer mixes steps that write, steps that fail and steps that only touch the buffer, and
so does a run on a reader. What one step adds to a counter is told against what the sink has stored
or the source has delivered in it, and the stretches compose. Main statement: `runAll_tallies`, by
which the counters agree with the transfers after every run in which no step reported that a
transfer broke off, and otherwise say too little and never too much. -/

namespace ArrayStore.Session

namespace Writing

variable {b : Buffer} {w : Writer} {steps : List Writing}

theorem calm_of_quiet {r : Outcome Outgoing StreamReply}
    (quiet : reportsFull (Outcome.answer r) = false) : Writer.Calm (Outcome.failure r) := by
  cases r with
  | ok reply t => exact Writer.calm_none
  | error e t =>
    rintro same
    cases same
    cases quiet

theorem runAll_counted {s : Outgoing} (stands : s.outlet = .stream w) (steps : List Writing) :
    ∃ v, (runAll s steps).outlet = .stream v ∧
      w.Tallies (∀ a ∈ answers s steps, reportsFull a = false) v := by
  induction steps generalizing s w with
  | nil => exact ⟨w, stands, .of_same rfl rfl⟩
  | cons t steps ih =>
    obtain ⟨v, left, first⟩ := judge_run Outgoing.counts_judges t s w stands
    obtain ⟨x, last, rest⟩ := ih left
    refine ⟨x, last, (first.trans rest).mono fun quiet => ⟨?_, fun a later => ?_⟩⟩
    · exact calm_of_quiet (quiet _ (.head _))
    · exact quiet a (.tail _ later)

end Writing

/-- What is done to a buffer that is read through: to the buffer alone, or to the stream too. -/
inductive Handling where
  | buffer (step : BufferStep)
  | reading (step : Reading)

namespace Handling

def run : Handling → Change Incoming StreamReply
  | .buffer step => Incoming.onBuffer step.run
  | .reading step => step.run

def runAll (s : Incoming) (steps : List Handling) : Incoming :=
  steps.foldl (fun s t => Outcome.state (t.run s)) s

def reports (s : Incoming) : List Handling → List (Option Error)
  | [] => []
  | t :: steps => Reading.reported (t.run s) :: reports (Outcome.state (t.run s)) steps

theorem run_counted (t : Handling) (s : Incoming) :
    Incoming.Counted s (Reading.reported (t.run s)) (Outcome.state (t.run s)) := by
  cases t with
  | reading step => exact (Reading.run_trail step s).counted
  | buffer step =>
    intro r stands
    obtain ⟨b, inlet⟩ := s
    refine ⟨r, ?_, .refl r⟩
    simp only [run, Incoming.onBuffer]
    cases step.run b <;> exact stands

theorem runAll_counted {s : Incoming} {r : Reader} (stands : s.inlet = .stream r)
    (steps : List Handling) :
    ∃ q, (runAll s steps).inlet = .stream q ∧
      r.Tallies (∀ e ∈ reports s steps, Reader.Calm r.direct e) q := by
  induction steps generalizing s r with
  | nil => exact ⟨r, stands, .refl r⟩
  | cons t steps ih =>
    obtain ⟨q, left, first⟩ := run_counted t s r stands
    obtain ⟨p, last, rest⟩ := ih left
    rw [first.direct_eq] at rest
    refine ⟨p, last, (first.trans rest).mono fun quiet => ⟨?_, fun e later => ?_⟩⟩
    · exact quiet _ (.head _)
    · exact quiet e (.tail _ later)

end Handling

/-- The counters of a stream. A writer has never counted more than its sink stored in a run, as
much if no step of the run reported a full sink, and less only if the sink is full. A reader has
never counted more than its source delivered in a run, and as much if it does not read past its
buffer or no step of the run reported that the source failed or ended. -/
theorem runAll_tallies (b : Buffer) (w : Writer) (r : Reader) (writing : List Writing)
    (reading : List Handling) :
    let s : Outgoing := ⟨b, .stream w⟩
    let t : Incoming := ⟨b, .stream r⟩
    (∃ v stored, (Writing.runAll s writing).outlet = .stream v ∧
      v.sink.stored.toList = w.sink.stored.toList ++ stored ∧
      v.bytesWritten ≤ w.bytesWritten + stored.length ∧
      ((∀ a ∈ Writing.answers s writing, Writing.reportsFull a = false) →
        v.bytesWritten = w.bytesWritten + stored.length) ∧
      (v.bytesWritten ≠ w.bytesWritten + stored.length →
        v.sink.limit = some v.sink.stored.size)) ∧
    ∃ q delivered, (Handling.runAll t reading).inlet = .stream q ∧
      r.source.rest = delivered ++ q.source.rest ∧
      q.bytesRead ≤ r.bytesRead + delivered.length ∧
      (r.direct = false ∨ (∀ e ∈ Handling.reports t reading, e.bind Error.source? = none) →
        q.bytesRead = r.bytesRead + delivered.length) := by
  intro s t
  constructor
  · obtain ⟨v, last, tallies⟩ := Writing.runAll_counted (s := s) rfl writing
    obtain ⟨stored, more⟩ := tallies.stored
    have size : w.sink.stored.size + stored.length = v.sink.stored.size :=
      List.length_append.symm.trans (congrArg List.length more)
    have behind := tallies.not_ahead
    refine ⟨v, stored, last, more.symm, by omega, fun quiet => ?_, fun differ => ?_⟩
    · have even := tallies.exact quiet
      omega
    · exact tallies.full (by omega)
  · obtain ⟨q, last, tallies⟩ := Handling.runAll_counted (s := t) rfl reading
    obtain ⟨delivered, rest⟩ := tallies.rest
    have size := congrArg List.length rest
    rw [List.length_append] at size
    have behind := tallies.not_ahead
    refine ⟨q, delivered, last, rest.symm, by omega, fun quiet => ?_⟩
    have even := tallies.exact fun e reported direct => by
      rcases quiet with buffered | quiet
      · cases buffered.symm.trans direct
      · exact quiet e reported
    omega

/-- A text, a size that has no encoding and an array past the buffer, before a sink that has room
for them; a size and an array past the buffer, from a source that is interrupted and delivers two
bytes at a time, and an advance that is refused. -/
theorem runAll_tallies_direct :
    let b := Buffer.empty 8 .native
    let w : Writer := { sink := { limit := some 16 }, direct := true }
    let writing : List Writing := [.through (.text "abc"), .through (.size Wire.sizeBound),
      .through (.array .short [.short 1, .short 2])]
    let r : Reader := { source := { rest := [5, 2, 1, 0, 2, 0, 7]
                                    portion := fun _ => some 2, interrupts := [1] }
                        direct := true }
    let reading : List Handling := [.buffer .flip, .reading (.through .size),
      .reading (.through (.array .short [])), .buffer (.advance 9)]
    (∀ a ∈ Writing.answers ⟨b, .stream w⟩ writing, Writing.reportsFull a = false) ∧
      (∃ v, (Writing.runAll ⟨b, .stream w⟩ writing).outlet = .stream v ∧
        v.bytesWritten = v.sink.stored.size) ∧
      (∀ e ∈ Handling.reports ⟨b, .stream r⟩ reading, e.bind Error.source? = none) ∧
      ∃ q delivered, (Handling.runAll ⟨b, .stream r⟩ reading).inlet = .stream q ∧
        r.source.rest = delivered ++ q.source.rest ∧ q.bytesRead = delivered.length := by
  intro b w writing r reading
  have quiet : ∀ a ∈ Writing.answers ⟨b, .stream w⟩ writing, Writing.reportsFull a = false := by
    decide +kernel
  have calm : ∀ e ∈ Handling.reports ⟨b, .stream r⟩ reading, e.bind Error.source? = none := by
    decide +kernel
  obtain ⟨⟨v, stored, last, more, -, even, -⟩, q, delivered, end_, rest, -, exact_⟩ :=
    runAll_tallies b w r writing reading
  refine ⟨quiet, ⟨v, last, ?_⟩, calm, q, delivered, end_, rest, ?_⟩
  · rw [even quiet, ← Array.length_toList, more]
    exact (Nat.zero_add _).trans (congrArg List.length (List.nil_append _)).symm
  · exact (exact_ (.inr calm)).trans (Nat.zero_add _)

def readerView (s : Incoming) : Option (Nat × List UInt8) :=
  match s.inlet with
  | .stream q => some (q.bytesRead, q.source.rest)
  | _ => none

/-- A flush of five bytes before a sink that takes three, and a transfer of four bytes past the
buffer from a source that has two: what was transferred is not counted. -/
theorem runAll_behind_broken_off :
    let b := Buffer.empty 8 .big
    let w : Writer := { sink := { limit := some 3 } }
    let r : Reader := { source := { rest := [1, 2] }, direct := true }
    let writing : List Writing := [.buffer (.putBytes [1, 2, 3, 4, 5]), .through .flush]
    let reading : List Handling := [.buffer .flip, .reading (.through (.direct 4))]
    (Writing.runAll ⟨b, .stream w⟩ writing).outlet =
        .stream { w with sink := { w.sink with stored := #[1, 2, 3] }, bytesWritten := 0 } ∧
      readerView (Handling.runAll ⟨b, .stream r⟩ reading) = some (0, []) := by
  decide +kernel

end ArrayStore.Session
