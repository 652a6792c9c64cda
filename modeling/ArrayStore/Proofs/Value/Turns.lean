import ArrayStore.Proofs.Wire.Turns
import ArrayStore.Value.Basic

/-! Arrays that are read and written under watch.
A turn that reads fixed-width elements takes some, or has more bytes buffered
than there were, although nothing asks whether it has; a turn that reads a chunk
or a string goes on behind it. An inlet that reports success and adds nothing
shows that the watch is needed: behind it no number of turns is enough. Main
statement: whatever else the buffer holds, the source delivers and the sink
takes, a number of turns suffices for reading an array and for writing one, as a
whole or in part, and then the result is the one that is had unwatched. -/

namespace ArrayStore

namespace Watched

/-! Reading -/

def readChunk (k : Kind) (width size turns : Nat) (s : Incoming) :
    Option (Outcome Incoming (Option (List UInt8))) :=
  if k.anyPattern && !s.buffer.reverses k then readDirect (size * width) turns s
  else some (.ok none s)

def furtherOrFuller (p q : Nat × Intake) : Bool :=
  p.1 < q.1 || (p.1 == q.1 && p.2.input.buffer.remaining < q.2.input.buffer.remaining)

def readElementsTurn (k : Kind) (width count stop turns : Nat) :
    Nat × Intake → Option (Turn (Nat × Intake) (Outcome Intake Unit))
  | (done, ⟨next, input, store⟩) =>
    if stop ≤ done then some (.done (.ok () ⟨next, input, store⟩))
    else
      let held := input.buffer.remaining
      if held / width = 0 then
        (ensureData (if count - done = 1 then width - held else width) turns input).map fun
          | .error e input => .done (.error e ⟨next, input, store⟩)
          | .ok () input => .on (done, ⟨next, input, store⟩)
      else
        let run := min (held / width) (stop - done)
        match Incoming.onBuffer (Buffer.getAll k run) input with
        | .error e input => some (.done (.error e ⟨next, input, store⟩))
        | .ok values input => some (.on (done + run, ⟨next.store done values, input, store⟩))

/-- Read elements into the places from `done` up to `stop`. Each turn has to read some, or to have
more bytes buffered. -/
def readElements (k : Kind) (width count stop done turns : Nat) (s : Intake) :
    Option (Outcome Intake Unit) :=
  loop furtherOrFuller (readElementsTurn k width count stop turns) turns (done, s)

def further (p q : Nat × Intake) : Bool := p.1 < q.1

def readFixedTurn (k : Kind) (width count turns : Nat) :
    Nat × Intake → Option (Turn (Nat × Intake) (Outcome Intake Unit))
  | (done, s) =>
    if count ≤ done then some (.done (.ok () s))
    else
      let stop := min count (done + Intake.chunk width)
      match Intake.growTo stop count s with
      | .error e s => some (.done (.error e s))
      | .ok () ⟨next, input, store⟩ =>
        (readChunk k width (stop - done) turns input).bind fun
          | .error e input => some (.done (.error e ⟨next, input, store⟩))
          | .ok (some bytes) input =>
            let values := k.decodeAll .native (stop - done) bytes
            some (.on (stop, ⟨next.store done values, input, store⟩))
          | .ok none input =>
            (readElements k width count stop done turns ⟨next, input, store⟩).map fun
              | .error e s => .done (.error e s)
              | .ok () s => .on (stop, s)

def readFixed (k : Kind) (width count done turns : Nat) (s : Intake) :
    Option (Outcome Intake Unit) :=
  loop further (readFixedTurn k width count turns) turns (done, s)

def readTextsTurn (count turns : Nat) :
    Nat × Intake → Option (Turn (Nat × Intake) (Outcome Intake Unit))
  | (0, s) => some (.done (.ok () s))
  | (missing + 1, ⟨next, input, store⟩) =>
    (readText turns input).map fun
      | .error e input => .done (.error e ⟨next, input, store⟩)
      | .ok text input =>
        let index := count - (missing + 1)
        match Intake.growTo (index + 1) count ⟨next, input, store⟩ with
        | .error e s => .done (.error e s)
        | .ok () ⟨next, input, store⟩ =>
          .on (missing, ⟨next.store index [.text text], input, store⟩)

def readTexts (count missing turns : Nat) (s : Intake) : Option (Outcome Intake Unit) :=
  loop fewerMissing (readTextsTurn count turns) turns (missing, s)

def readAll (k : Kind) (count turns : Nat) (s : Intake) : Option (Outcome Intake Unit) :=
  match k.width? with
  | none => readTexts count count turns s
  | some width => readFixed k width count 0 turns s

def readArray (k : Kind) (a : Allocator) (turns : Nat) :
    Incoming × Store → Option (Outcome (Incoming × Store) Frozen)
  | (input, store) =>
    (readSize turns input).bind fun
      | .error e input => some (.error e (input, store))
      | .ok count input =>
        let (next, store) := store.emptyWritable k a
        (readAll k count turns ⟨next, input, store⟩).map fun
          | .error e ⟨next, input, store⟩ => .error e (input, store.dropWritable next)
          | .ok () ⟨next, input, store⟩ =>
            let (value, store) := store.freeze next
            .ok value (input, store)

def deserialize (turns : Nat) :
    FieldValue × World × Incoming → Option (Outcome (FieldValue × World × Incoming) Unit)
  | (v, w, input) =>
    if v.isImmutable w then some (.error (.immutable v.field.name) (v, w, input))
    else
      (readArray v.kind v.allocator turns (input, w.store)).map fun
        | .error e (input, store) => .error e (v, { w with store }, input)
        | .ok next (input, store) =>
          let w := { w with store := store.drop v.value }
          let v := { v with value := next }
          .ok () (v, v.post w, input)

theorem readChunk_ends (k : Kind) (width size : Nat) (s : Incoming) :
    Ends (readChunk k width size · s) (Intake.readChunk? k width size s) := by
  simp only [readChunk, Intake.readChunk?]
  split
  · exact readDirect_ends _ s
  · exact .of _

variable {k : Kind} {width : Nat} {s t : Intake}

theorem readElements_ends (width_pos : 0 < width) (count stop done : Nat) (live : s.input.Live) :
    Ends (readElements k width count stop done · s)
        (Intake.readElements k width width_pos count stop done s) ∧
      ∀ a t, Intake.readElements k width width_pos count stop done s = .ok a t → t.input.Live := by
  refine Ends.loop
    (fun p : Nat × Intake => Intake.readElements k width width_pos count stop p.1 p.2)
    (fun p => (stop - p.1, width - p.2.input.buffer.remaining))
    (P := fun p => p.2.input.Live) (Q := fun r => ∀ a t, r = .ok a t → t.input.Live)
    (fun p live => ?_) live
  obtain ⟨done, next, input, store⟩ := p
  have whole := Intake.readElements.eq_def k width width_pos count stop done ⟨next, input, store⟩
  simp only at whole live
  by_cases finished : stop ≤ done
  · rw [if_pos finished] at whole
    refine ⟨.done (.ok () ⟨next, input, store⟩), ?_, whole.symm, fun _ _ same => ?_⟩
    · simp only [readElementsTurn, if_pos finished]
      exact .of _
    · cases same
      exact live
  rw [if_neg finished] at whole
  simp only [readElementsTurn, if_neg finished]
  by_cases short : input.buffer.remaining / width = 0
  · have less : input.buffer.remaining < width := (Nat.div_eq_zero_iff_lt width_pos).1 short
    rw [dif_pos short] at whole
    simp only [if_pos short]
    refine ⟨_, (ensureData_ends live _).map rfl, ?_⟩
    split at whole
    · next given =>
      rw [given]
      exact ⟨whole.symm, fun _ _ same => by cases same⟩
    · next u given =>
      obtain ⟨live', grows⟩ := live.ensureData given
      have more : input.buffer.remaining < u.buffer.remaining := grows (by split <;> omega)
      rw [if_pos more] at whole
      rw [given]
      refine ⟨?_, whole.symm, live', Prod.Lex.right _ ?_⟩
      · simp only [furtherOrFuller, decide_eq_true more, beq_self_eq_true, Bool.and_self,
          Bool.or_true]
      · show width - u.buffer.remaining < width - input.buffer.remaining
        omega
  · have some : 0 < min (input.buffer.remaining / width) (stop - done) :=
      Nat.lt_min.2 ⟨Nat.pos_of_ne_zero short, by omega⟩
    rw [dif_neg short] at whole
    simp only [if_neg short]
    generalize min (input.buffer.remaining / width) (stop - done) = run at whole some
    cases got : Incoming.onBuffer (Buffer.getAll k run) input with
    | error e u =>
      rw [got] at whole
      exact ⟨.done _, .of _, whole.symm, fun _ _ same => by cases same⟩
    | ok values u =>
      have onward : done < done + run := Nat.lt_add_of_pos_right some
      rw [got] at whole
      refine ⟨.on _, .of _, ?_, whole.symm, live.getAll got, Prod.Lex.left _ _ ?_⟩
      · simp only [furtherOrFuller, decide_eq_true onward, Bool.true_or]
      · exact Nat.sub_lt_sub_left (Nat.lt_of_not_le finished) onward

end Watched

namespace Intake

variable {k : Kind} {s t : Intake}

theorem input_growTo {length count : Nat} (run : growTo length count s = .ok () t) :
    t.input = s.input := by
  simp only [growTo] at run
  split at run <;> cases run
  rfl

theorem live_readChunk? {width size : Nat} {bytes : Option (List UInt8)} {input input' : Incoming}
    (live : input.Live) (run : readChunk? k width size input = .ok bytes input') : input'.Live := by
  simp only [readChunk?] at run
  split at run
  · exact live.readDirect run
  · cases run
    exact live

end Intake

namespace Watched

variable {k : Kind} {s : Intake}

theorem readFixed_ends {width : Nat} (width_pos : 0 < width) (count done : Nat)
    (live : s.input.Live) :
    Ends (readFixed k width count done · s) (Intake.readFixed k width width_pos count done s) := by
  refine (Ends.loop (fun p : Nat × Intake => Intake.readFixed k width width_pos count p.1 p.2)
    (fun p => count - p.1) (P := fun p => p.2.input.Live) (Q := fun _ => True)
    (fun p live => ?_) live).1
  obtain ⟨done, s⟩ := p
  have whole := Intake.readFixed.eq_def k width width_pos count done s
  simp only at live
  by_cases finished : count ≤ done
  · rw [if_pos finished] at whole
    refine ⟨.done (.ok () s), ?_, whole.symm, trivial⟩
    simp only [readFixedTurn, if_pos finished]
    exact .of _
  have onward : done < min count (done + Intake.chunk width) := by
    have : 1 ≤ Intake.chunk width := Nat.le_max_right _ _
    omega
  rw [if_neg finished] at whole
  simp only [readFixedTurn, if_neg finished]
  generalize min count (done + Intake.chunk width) = stop at whole onward
  have nearer : count - stop < count - done :=
    Nat.sub_lt_sub_left (Nat.lt_of_not_le finished) onward
  cases grown : Intake.growTo stop count s with
  | error e t =>
    simp only [grown] at whole ⊢
    exact ⟨.done _, .of _, whole.symm, trivial⟩
  | ok _ t =>
    obtain ⟨next, input, store⟩ := t
    have same : input = s.input := Intake.input_growTo grown
    rw [← same] at live
    simp only [grown] at whole ⊢
    have chunk := readChunk_ends k width (stop - done) input
    cases read : Intake.readChunk? k width (stop - done) input with
    | error e u =>
      rw [read] at whole chunk
      exact ⟨.done (.error e ⟨next, u, store⟩), chunk.bind (.of _), whole.symm, trivial⟩
    | ok bytes u =>
      have live := Intake.live_readChunk? live read
      rw [read] at whole chunk
      cases bytes with
      | some bytes =>
        let stored := next.store done (k.decodeAll .native (stop - done) bytes)
        exact ⟨.on (stop, ⟨stored, u, store⟩), chunk.bind (.of _), decide_eq_true onward,
          whole.symm, live, nearer⟩
      | none =>
        obtain ⟨elements, left⟩ := readElements_ends (k := k) (s := ⟨next, u, store⟩) width_pos
          count stop done live
        refine ⟨_, chunk.bind (elements.map rfl), ?_⟩
        cases filled : Intake.readElements k width width_pos count stop done ⟨next, u, store⟩ with
        | error e t =>
          simp only [filled] at whole
          exact ⟨whole.symm, trivial⟩
        | ok _ t =>
          simp only [filled] at whole
          exact ⟨decide_eq_true onward, whole.symm, left _ _ filled, nearer⟩

theorem readTexts_ends (count missing : Nat) (live : s.input.Live) :
    Ends (readTexts count missing · s) (Intake.readTexts count missing s) := by
  refine (Ends.loop (fun p : Nat × Intake => Intake.readTexts count p.1 p.2) Prod.fst
    (P := fun p => p.2.input.Live) (Q := fun _ => True) (fun p live => ?_) live).1
  obtain ⟨missing, next, input, store⟩ := p
  cases missing with
  | zero => exact ⟨.done (.ok () ⟨next, input, store⟩), .of _, rfl, trivial⟩
  | succ missing =>
    obtain ⟨ends, left⟩ := readText_ends (s := input) live
    have fewer : missing < missing + 1 := Nat.lt_succ_self missing
    have whole := congrFun (Intake.readTexts.eq_def count (missing + 1)) ⟨next, input, store⟩
    refine ⟨_, ends.map rfl, ?_⟩
    cases read : Wire.readText input with
    | error e u =>
      simp only [read] at whole
      exact ⟨whole.symm, trivial⟩
    | ok text u =>
      simp only [read] at whole ⊢
      cases grown : Intake.growTo (count - (missing + 1) + 1) count ⟨next, u, store⟩ with
      | error e t =>
        rw [grown] at whole
        exact ⟨whole.symm, trivial⟩
      | ok _ t =>
        rw [grown] at whole
        have same : t.input = u := Intake.input_growTo grown
        exact ⟨decide_eq_true fewer, whole.symm, same ▸ left _ _ read, fewer⟩

theorem readAll_ends (k : Kind) (count : Nat) (live : s.input.Live) :
    Ends (readAll k count · s) (Intake.readAll k count s) := by
  unfold Intake.readAll
  split
  · next text =>
    simp only [readAll, text]
    exact readTexts_ends count count live
  · next width fixed =>
    simp only [readAll, fixed]
    exact readFixed_ends (Kind.width?_pos fixed) count 0 live

/-- An array is read or refused, whatever the buffer holds and the source delivers. -/
theorem readArray_ends (k : Kind) (a : Allocator) {input : Incoming} (live : input.Live)
    (store : Store) :
    Ends (readArray k a · (input, store)) (Wire.readArray k a (input, store)) := by
  simp only [Wire.readArray]
  refine (readSize_ends live).bind ?_
  cases sized : Wire.readSize input with
  | error e t => exact .of _
  | ok count t =>
    obtain ⟨next, room⟩ := store.emptyWritable k a
    refine (readAll_ends (s := ⟨next, t, room⟩) k count (live.readSize sized)).map ?_
    simp only
    cases Intake.readAll k count ⟨next, t, room⟩ <;> rfl

theorem deserialize_ends (v : FieldValue) (w : World) {input : Incoming} (live : input.Live) :
    Ends (deserialize · (v, w, input)) (FieldValue.deserialize (v, w, input)) := by
  simp only [deserialize, FieldValue.deserialize]
  split
  · exact .of _
  · refine (readArray_ends v.kind v.allocator live w.store).map ?_
    cases Wire.readArray v.kind v.allocator (input, w.store) <;> rfl

/-! Writing -/

def serialize (v : FieldValue) (w : World) (turns : Nat) (out : Outgoing) :
    Option (Outcome Outgoing Unit) :=
  writeArray v.kind (v.values w) turns out

def serializeRange (v : FieldValue) (w : World) (offset count turns : Nat) (out : Outgoing) :
    Option (Outcome Outgoing Unit) :=
  writeArray v.kind (w.store.values (v.value.slice offset count)) turns out

/-- An array that is read from a stream, or from a buffer that holds the whole of it, and an array
that is written, all of it or a part, take a number of turns, each of which gets ahead unless it is
the last one. The buffer may hold less than an element, and be in any state; the source may deliver
as it likes, and the sink take as much as it likes. -/
theorem transfers_end (v : FieldValue) (w : World) :
    (∀ input : Incoming, input.buffer.Valid → input.inlet ≠ .idle →
      Ends (deserialize · (v, w, input)) (FieldValue.deserialize (v, w, input))) ∧
    (∀ out, Ends (serialize v w · out) (v.serialize w out)) ∧
    ∀ offset count out,
      Ends (serializeRange v w offset count · out) (v.serializeRange w offset count out) :=
  ⟨fun _ valid fed => deserialize_ends v w ⟨valid, fed⟩, fun out => writeArray_ends v.kind _ out,
    fun _ _ out => writeArray_ends v.kind _ out⟩

/-- An int is read through a buffer of five bytes, in portions of two and with two interruptions,
and refused through a buffer of three. No loop takes more than three turns. -/
theorem transfers_end_narrow :
    let v := (FieldValue.create ⟨"x", .int⟩ .shared {}).1
    let w := (FieldValue.create ⟨"x", .int⟩ .shared {}).2
    let r : Reader :=
      { source :=
          { rest := [1, 0, 0, 0, 7]
            portion := fun _ => some 2
            interrupts := [1, 3] } }
    let roomy : Incoming := ⟨⟨#[0, 0, 0, 0, 0], 0, 0, .big⟩, .stream r⟩
    let narrow : Incoming := ⟨⟨#[0, 0, 0], 0, 0, .big⟩, .stream r⟩
    Ends (deserialize · (v, w, roomy)) (FieldValue.deserialize (v, w, roomy)) ∧
      Ends (deserialize · (v, w, narrow)) (FieldValue.deserialize (v, w, narrow)) ∧
      (deserialize 3 (v, w, roomy)).map
        (fun q => (Outcome.state q).1.values (Outcome.state q).2.1) = some [.int 7] ∧
      (deserialize 3 (v, w, narrow)).map (fun q => (Outcome.answer q).isOk) = some false := by
  intro v w r roomy narrow
  obtain ⟨read, -⟩ := transfers_end v w
  exact ⟨read roomy (by decide) (fun idle => by cases idle),
    read narrow (by decide) (fun idle => by cases idle), by decide +kernel, by decide +kernel⟩

end Watched

end ArrayStore
