import ArrayStore.Proofs.Stream.Truncation
import ArrayStore.Proofs.Wire.Judgment
import ArrayStore.Session.Stream

/-! Runs of writing steps before a sink that may be full.
A judgment on the parts of an operation is one on every step of a run. A bound on
the sink only shows where bytes are handed to it, and so where a flush fails.
Main statement: after every step of a run the bounded sink holds the first bytes
of what the same run stores without a bound, and until a step reports that the
sink is full the two runs answer the same and leave the same buffer. -/

namespace ArrayStore

open Outgoing (Cuts Judgment)

namespace Session

/-- What writes on a stream: the steps that stay in the buffer, those that go through it or past
it, and a value of any world, as a whole or in part. -/
inductive Writing where
  | buffer (step : BufferStep)
  | through (step : WriteStep)
  | value (v : FieldValue) (w : World)
  | range (v : FieldValue) (w : World) (offset count : Nat)

namespace Writing

def run : Writing → Change Outgoing StreamReply
  | .buffer step => Outgoing.onBuffer step.run
  | .through step => step.run
  | .value v w => fun s => silent (v.serialize w s)
  | .range v w offset count => fun s => silent (v.serializeRange w offset count s)

def runAll (s : Outgoing) (steps : List Writing) : Outgoing :=
  steps.foldl (fun s t => Outcome.state (t.run s)) s

def answers (s : Outgoing) : List Writing → List (Except Error StreamReply)
  | [] => []
  | t :: steps => Outcome.answer (t.run s) :: answers (Outcome.state (t.run s)) steps

def reportsFull : Except Error StreamReply → Bool
  | .ok _ => false
  | .error e => e.source?.any (·.kind == .writeZero)

variable {α : Type} {n : Nat} {s q : Outgoing}

section Judging

variable {J : ∀ {α : Type}, Change Outgoing α → Outgoing → Prop} (rules : Judgment J)

include rules

theorem judge_replying {op : Change Outgoing α} (reply : α → StreamReply) (h : J op s) :
    J (fun t => replying reply (op t)) s :=
  rules.bind (fun a t => .ok (reply a) t)
    (fun bound => by cases op (s.bounded bound) <;> rfl) h fun _ _ _ _ => rules.ok fun _ => rfl

theorem judge_serialize (v : FieldValue) (w : World) (s : Outgoing) : J (v.serialize w) s :=
  rules.writeArray v.kind (v.values w) s

theorem judge_serializeRange (v : FieldValue) (w : World) (offset count : Nat) (s : Outgoing) :
    J (v.serializeRange w offset count) s :=
  rules.writeArray v.kind _ s

theorem judge_step (t : WriteStep) (s : Outgoing) : J t.run s := by
  cases t with
  | size n => exact judge_replying rules _ (rules.writeSize n s)
  | nullSize => exact judge_replying rules _ (rules.writeNullSize s)
  | text value => exact judge_replying rules _ (rules.writeText value s)
  | ensureRoom n => exact judge_replying rules _ (rules.ensureRoom n s)
  | flush => exact judge_replying rules _ (rules.flush s)
  | direct bytes => exact judge_replying rules _ (rules.writeDirect bytes s)
  | array k values =>
    simp only [WriteStep.run]
    cases loaded k values with
    | error e p => exact rules.error fun _ => rfl
    | ok _ p => exact judge_replying rules _ (judge_serialize rules p.1 p.2 s)
  | range k values offset count =>
    simp only [WriteStep.run]
    cases loaded k values with
    | error e p => exact rules.error fun _ => rfl
    | ok _ p => exact judge_replying rules _ (judge_serializeRange rules p.1 p.2 offset count s)
  | finish =>
    obtain ⟨b, outlet⟩ := s
    cases outlet with
    | closed => exact rules.ok fun _ => rfl
    | stream w =>
      have ended := judge_replying rules (fun _ => .done) (rules.finish ⟨b, .stream w⟩)
      refine rules.congr (fun bound => ?_) ended
      rfl

theorem judge_run (t : Writing) (s : Outgoing) : J t.run s := by
  cases t with
  | buffer step => exact rules.onBuffer step.run s
  | through step => exact judge_step rules step s
  | value v w => exact judge_replying rules _ (judge_serialize rules v w s)
  | range v w offset count =>
    exact judge_replying rules _ (judge_serializeRange rules v w offset count s)

end Judging

theorem run_cuts (t : Writing) (s : Outgoing) : Cuts t.run s := judge_run Outgoing.cuts_judges t s

/-- Where two runs of the same steps are, before a sink that stores everything and before one that
stores `n` bytes. -/
inductive Paired (n : Nat) : Outgoing → Outgoing → Prop where
  | twin {s : Outgoing} (free : s.bounded none = s) (fits : s.delivered.length ≤ n) :
      Paired n s (s.bounded (some n))
  | full {s q : Outgoing} (bound : q.bounded (some n) = q)
      (stored : q.delivered = s.delivered.take n) (filled : q.delivered.length = n) : Paired n s q

theorem Paired.delivered_eq (h : Paired n s q) : q.delivered = s.delivered.take n := by
  cases h with
  | twin free fits => rw [Outgoing.delivered_bounded, List.take_of_length_le fits]
  | full bound stored filled => exact stored

theorem Paired.step (h : Paired n s q) (t : Writing) :
    Paired n (Outcome.state (t.run s)) (Outcome.state (t.run q)) := by
  cases h with
  | twin free fits =>
    have pair := (run_cuts t s).cuts n free fits
    generalize t.run s = r, t.run (s.bounded (some n)) = r' at pair
    cases pair with
    | ok free' fits' | error free' fits' => exact .twin free' fits'
    | full bound stored filled => exact .full bound stored filled
  | full bound stored filled =>
    have grown := (run_cuts t s).grows
    have kept := (run_cuts t q).grows
    have still := kept.delivered_of_full bound filled
    have long : n ≤ s.delivered.length := by
      rw [stored, List.length_take] at filled
      omega
    refine .full (kept.bounded_eq _ bound) ?_ (by rw [still, filled])
    rw [still, stored, grown.take_delivered long]

theorem Paired.run (h : Paired n s q) (steps : List Writing) :
    Paired n (runAll s steps) (runAll q steps) := by
  induction steps generalizing s q with
  | nil => exact h
  | cons t steps ih => exact ih (h.step t)

/-- As long as no step reports a full sink, the two runs cannot be told apart. -/
theorem answers_twin (free : s.bounded none = s) (fits : s.delivered.length ≤ n)
    (steps : List Writing)
    (quiet : ∀ a ∈ answers (s.bounded (some n)) steps, reportsFull a = false) :
    answers (s.bounded (some n)) steps = answers s steps ∧
      runAll (s.bounded (some n)) steps = (runAll s steps).bounded (some n) := by
  induction steps generalizing s with
  | nil => exact ⟨rfl, rfl⟩
  | cons t steps ih =>
    have pair := (run_cuts t s).cuts n free fits
    simp only [answers, runAll, List.foldl_cons] at quiet ⊢
    generalize t.run s = r, t.run (s.bounded (some n)) = r' at pair quiet
    cases pair with
    | ok free' fits' | error free' fits' =>
      obtain ⟨same, state⟩ := ih free' fits' fun a mem => quiet a (.tail _ mem)
      exact ⟨congrArg _ same, state⟩
    | full bound stored filled => cases quiet _ (.head _)

/-- A bound on the sink truncates what a run of writing steps stores, and changes nothing before a
step reports it. -/
theorem runAll_truncates (b : Buffer) (w : Writer) (n : Nat) (free : w.sink.limit = none)
    (small : w.sink.stored.size ≤ n) (steps : List Writing) :
    let s : Outgoing := ⟨b, .stream w⟩
    let q : Outgoing := ⟨b, .stream { w with sink := { w.sink with limit := some n } }⟩
    (runAll q steps).delivered = (runAll s steps).delivered.take n ∧
      ((∀ a ∈ answers q steps, reportsFull a = false) →
        answers q steps = answers s steps ∧ (runAll q steps).buffer = (runAll s steps).buffer) := by
  intro s q
  have unbounded : s.bounded none = s := by
    obtain ⟨⟨stored, limit, fault⟩, direct, written, flushes⟩ := w
    cases free
    rfl
  have fits : s.delivered.length ≤ n := small
  refine ⟨((Paired.twin unbounded fits).run steps).delivered_eq, fun quiet => ?_⟩
  obtain ⟨same, state⟩ := answers_twin unbounded fits steps quiet
  refine ⟨same, ?_⟩
  have buffers := congrArg Outgoing.buffer state
  rwa [Outgoing.buffer_bounded] at buffers

/-- A text that flushes the buffer twice, before a sink that takes three bytes. -/
theorem runAll_truncates_text :
    let b := Buffer.empty 4 .little
    let steps : List Writing :=
      [.through .nullSize, .through (.text "abcdef"), .through .flush, .buffer (.putBytes [7])]
    let s : Outgoing := ⟨b, .stream {}⟩
    let q : Outgoing := ⟨b, .stream { sink := { limit := some 3 } }⟩
    ({} : Writer).sink.limit = none ∧ ({} : Writer).sink.stored.size ≤ 3 ∧
      (runAll s steps).delivered = [0xff, 6, 97, 98, 99, 100, 101, 102] ∧
      (runAll q steps).delivered = [0xff, 6, 97] ∧
      answers q (steps.take 1) = answers s (steps.take 1) := by
  intro b steps s q
  have whole : (runAll s steps).delivered = [0xff, 6, 97, 98, 99, 100, 101, 102] := by
    decide +kernel
  have quiet : ∀ a ∈ answers q (steps.take 1), reportsFull a = false := by decide +kernel
  obtain ⟨cut, -⟩ := runAll_truncates b {} 3 rfl (by decide) steps
  obtain ⟨-, same⟩ := runAll_truncates b {} 3 rfl (by decide) (steps.take 1)
  exact ⟨rfl, by decide, whole, cut.trans (congrArg (List.take 3) whole), (same quiet).1⟩

end Writing

end Session

end ArrayStore
