import ArrayStore.Proofs.Stream.Retention
import ArrayStore.Proofs.Value.Trails
import ArrayStore.Session.Stream

/-! Runs of reading steps on one stream.
Every step leaves a trail, also when it stops midway, so it drops bytes from the
front only. Main statement: at every point of a run, whatever the source does
there, each further step leaves the bytes ahead as they were, some of the first
apart; making sure of bytes leaves all of them and, if it succeeds, has as many
in the buffer as it was asked for. -/

namespace ArrayStore

open Incoming (Sheds Trail Trails)

namespace Session

/-- What reads on a stream: the steps that go through the buffer or past it, those that take from
the buffer alone, and a value of any world that takes a new content. -/
inductive Reading where
  | get (k : Kind)
  | getAll (k : Kind) (count : Nat)
  | getBytes (count : Nat)
  | through (step : ReadStep)
  | into (v : FieldValue) (w : World)

namespace Reading

def run : Reading → Change Incoming StreamReply
  | .get k => fun s => replying .scalar (Incoming.onBuffer (Buffer.get k) s)
  | .getAll k count => fun s => replying .scalars (Incoming.onBuffer (Buffer.getAll k count) s)
  | .getBytes count => fun s => replying .bytes (Incoming.onBuffer (Buffer.getBytes count) s)
  | .through step => step.run
  | .into v w => fun s =>
    match FieldValue.deserialize (v, w, s) with
    | .ok () (_, _, s) => .ok .done s
    | .error e (_, _, s) => .error e s

def runAll (s : Incoming) (steps : List Reading) : Incoming :=
  steps.foldl (fun s t => Outcome.state (t.run s)) s

/-- The failure that a reply tells of. A value that could not be read as a whole is shown with
what it holds instead. -/
def told : StreamReply → Option Error
  | .array _ _ failure => failure
  | _ => none

/-- What a step reports, in its reply or in its place. -/
def reported : Outcome Incoming StreamReply → Option Error
  | .ok reply _ => told reply
  | .error e _ => some e

theorem trail_replying {α : Type} {op : Change Incoming α} {s : Incoming} {reply : α → StreamReply}
    (plain : ∀ a, told (reply a) = none) (h : Trails op) :
    Trail s (reported (replying reply (op s))) (Outcome.state (replying reply (op s))) := by
  have left := h s
  cases run : op s with
  | ok a t =>
    rw [run] at left
    rw [replying, reported, plain]
    exact left
  | error e t =>
    rw [run] at left
    exact left

theorem readInto_trail (k : Kind) (prior : List Scalar) (s : Incoming) :
    Trail s (reported (readInto k prior s)) (Outcome.state (readInto k prior s)) := by
  simp only [readInto]
  split
  · exact .stop _ _
  · next v w loaded =>
    have read := FieldValue.deserialize_trail v w s
    split
    · next run =>
      rw [run] at read
      exact read
    · next run =>
      rw [run] at read
      exact read

theorem step_trail (t : ReadStep) (s : Incoming) :
    Trail s (reported (t.run s)) (Outcome.state (t.run s)) := by
  cases t with
  | size => exact trail_replying (fun _ => rfl) Wire.readSize_trails
  | text => exact trail_replying (fun _ => rfl) Wire.readText_trails
  | ensureRemaining n => exact trail_replying (fun _ => rfl) (Incoming.ensureRemaining_trails n)
  | ensureData n => exact trail_replying (fun _ => rfl) (Incoming.ensureData_trails n)
  | direct n =>
    have read := Incoming.readDirect_trails n s
    simp only [ReadStep.run]
    cases run : Incoming.readDirect n s with
    | error e t =>
      rw [run] at read
      exact read
    | ok taken t =>
      rw [run] at read
      cases taken <;> exact read
  | array k prior => exact readInto_trail k prior s

theorem run_trail (t : Reading) (s : Incoming) :
    Trail s (reported (t.run s)) (Outcome.state (t.run s)) := by
  cases t with
  | get k => exact trail_replying (fun _ => rfl) (Incoming.get_trails k)
  | getAll k count => exact trail_replying (fun _ => rfl) (Incoming.getAll_trails k count)
  | getBytes count => exact trail_replying (fun _ => rfl) (Incoming.getBytes_trails count)
  | through step => exact step_trail step s
  | into v w =>
    have read := FieldValue.deserialize_trail v w s
    simp only [run]
    cases ran : FieldValue.deserialize (v, w, s) with
    | ok _ t | error e t =>
      rw [ran] at read
      exact read

theorem runAll_sheds {s : Incoming} (valid : s.buffer.Valid) (steps : List Reading) :
    ∃ gone, Sheds s (runAll s steps) gone := by
  induction steps generalizing s with
  | nil => exact ⟨[], .refl valid⟩
  | cons t steps ih =>
    obtain ⟨gone, first⟩ := (run_trail t s).sheds valid
    obtain ⟨rest, second⟩ := ih first.valid
    exact ⟨gone ++ rest, first.trans second⟩

/-- Wherever a run of reading steps has come on a stream, whatever its source did meanwhile and
does next: a step that succeeds and one that fails leave all bytes ahead but some of the first;
bytes that are handed over are just those that are gone; making sure of bytes takes none, and when
it succeeds they are in the buffer. -/
theorem runAll_keeps_ahead (b : Buffer) (valid : b.Valid) (r : Reader) (steps : List Reading) :
    let s := runAll ⟨b, .stream r⟩ steps
    (∀ t : Reading, (Outcome.state (t.run s)).ahead <:+ s.ahead) ∧
    (∀ count bytes t, Incoming.onBuffer (Buffer.getBytes count) s = .ok bytes t ∨
      Incoming.readDirect count s = .ok (some bytes) t → s.ahead = bytes ++ t.ahead) ∧
    (∀ n, (Outcome.state (Incoming.ensureData n s)).ahead = s.ahead ∧
      ∀ t, Incoming.ensureData n s = .ok () t →
        min (s.buffer.unread.length + n) s.buffer.capacity ≤ t.buffer.unread.length) ∧
    ∀ n, (Outcome.state (Incoming.ensureRemaining n s)).ahead = s.ahead ∧
      ∀ t, Incoming.ensureRemaining n s = .ok () t → n ≤ t.buffer.unread.length := by
  intro s
  obtain ⟨gone, before⟩ := runAll_sheds (s := ⟨b, .stream r⟩) valid steps
  have valid' : s.buffer.Valid := before.valid
  refine ⟨fun t => ?_, fun count bytes t taken => ?_, fun n => ⟨?_, fun t run => ?_⟩,
    fun n => ⟨?_, fun t run => ?_⟩⟩
  · obtain ⟨more, next⟩ := (run_trail t s).sheds valid'
    exact next.suffix
  · rcases taken with run | run
    · exact (Incoming.getBytes_onward valid' run).1.ahead_eq
    · exact (Incoming.readDirect_onward valid' run).1.ahead_eq
  · exact (Incoming.ensureData_sheds n valid').ahead_eq
  · have ready := Incoming.ensureData_sheds n valid'
    rw [run] at ready
    have valid'' : t.buffer.Valid := ready.valid
    rw [Buffer.length_unread valid', Buffer.length_unread valid'']
    exact Incoming.ensureData_ok before.flows_eq run
  · exact (Incoming.ensureRemaining_sheds n valid').ahead_eq
  · have ready := Incoming.ensureRemaining_sheds n valid'
    rw [run] at ready
    have valid'' : t.buffer.Valid := ready.valid
    rw [Buffer.length_unread valid'']
    exact Incoming.ensureRemaining_ok run

/-- A source that is interrupted, delivers two bytes at a time and fails at its last byte. -/
theorem runAll_keeps_ahead_failing :
    let b : Buffer := (Buffer.empty 4 .little).flip
    let r : Reader :=
      { source :=
          { rest := [7, 8, 9, 10, 11, 12]
            portion := fun _ => some 2
            interrupts := [1]
            failure := some (5, ⟨.other, "device"⟩) } }
    let s := runAll ⟨b, .stream r⟩ [.through (.ensureRemaining 3), .getBytes 1]
    b.Valid ∧ s.ahead = [8, 9, 10, 11, 12] ∧
      (∃ t, Incoming.ensureRemaining 4 s = .ok () t ∧ 4 ≤ t.buffer.unread.length) ∧
      ∃ e t, (Reading.through .text).run s = .error e t ∧ t.ahead <:+ [8, 9, 10, 11, 12] := by
  intro b r s
  have valid : b.Valid := by decide
  have ahead : s.ahead = [8, 9, 10, 11, 12] := by decide +kernel
  have enough : (Outcome.answer (Incoming.ensureRemaining 4 s)).isOk = true := by decide +kernel
  have broken : (Outcome.answer ((Reading.through .text).run s)).isOk = false := by decide +kernel
  obtain ⟨kept, -, -, sure⟩ := runAll_keeps_ahead b valid r
    [.through (.ensureRemaining 3), .getBytes 1]
  refine ⟨valid, ahead, ?_, ?_⟩
  · cases run : Incoming.ensureRemaining 4 s with
    | error e t =>
      rw [run] at enough
      cases enough
    | ok _ t => exact ⟨t, rfl, (sure 4).2 t run⟩
  · have left := kept (.through .text)
    cases run : (Reading.through .text).run s with
    | ok reply t =>
      rw [run] at broken
      cases broken
    | error e t =>
      have left : (Outcome.state ((Reading.through .text).run s)).ahead <:+ s.ahead := left
      rw [run, ahead] at left
      exact ⟨e, t, rfl, left⟩

end Reading

end Session

end ArrayStore
