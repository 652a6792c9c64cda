import ArrayStore.Proofs.Stream.Turns
import ArrayStore.Proofs.Wire.Canonical
import ArrayStore.Wire.Reading

/-! Sizes, strings and arrays under watch.
A turn that reads a string takes some of its bytes, and a turn that writes
stores some bytes or elements, or empties the buffer for those that are next.
Main statements: with enough turns, reading a size or a string from a live
stream and writing an array to any outlet give what they give unwatched. -/

namespace ArrayStore

open Incoming (Live)

namespace Watched

/-! Reading -/

def readLongSize (turns : Nat) (s : Incoming) : Option (Outcome Incoming Nat) :=
  (ensureRemaining 4 turns s).map fun
    | .error e s => .error e s
    | .ok () s =>
      match Incoming.onBuffer (Buffer.getBytes 4) s with
      | .error e s => .error e s
      | .ok bytes s =>
        let size := Wire.signed32 (s.buffer.order.join bytes)
        if size < 0 then .error (.malformed (.negativeSize size)) s else .ok size.toNat s

def readSize (turns : Nat) (s : Incoming) : Option (Outcome Incoming Nat) :=
  (ensureRemaining 1 turns s).bind fun
    | .error e s => some (.error e s)
    | .ok () s =>
      match Incoming.onBuffer (Buffer.getBytes 1) s with
      | .error e s => some (.error e s)
      | .ok bytes s =>
        let lead := bytes.headD 0
        if lead = Wire.nullSize then some (.ok 0 s)
        else if lead = Wire.sizeEscape then readLongSize turns s
        else some (.ok lead.toNat s)

def ensureAny (missing turns : Nat) (s : Incoming) : Option (Outcome Incoming Unit) :=
  if s.buffer.hasRemaining then some (.ok () s)
  else
    (ensureData (min missing s.buffer.capacity) turns s).map fun
      | .error e s => .error e s
      | .ok () s =>
        if s.buffer.hasRemaining then .ok () s else .error (.insufficientSpace missing 0) s

def fewerMissing {α : Type} (p q : Nat × α) : Bool := q.1 < p.1

def readBytesTurn (turns : Nat) : Nat × Array UInt8 × Incoming →
    Option (Turn (Nat × Array UInt8 × Incoming) (Outcome Incoming (Array UInt8)))
  | (missing, front, s) =>
    if missing = 0 then some (.done (.ok front s))
    else
      (ensureAny missing turns s).map fun
        | .error e s => .done (.error e s)
        | .ok () s =>
          let count := min missing s.buffer.remaining
          match Incoming.onBuffer (Buffer.getBytes count) s with
          | .error e s => .done (.error e s)
          | .ok chunk s => .on (missing - count, front ++ chunk, s)

def readBytes (missing : Nat) (front : Array UInt8) (turns : Nat) (s : Incoming) :
    Option (Outcome Incoming (Array UInt8)) :=
  loop fewerMissing (readBytesTurn turns) turns (missing, front, s)

def readText (turns : Nat) (s : Incoming) : Option (Outcome Incoming String) :=
  (readSize turns s).bind fun
    | .error e s => some (.error e s)
    | .ok size s =>
      (readBytes size #[] turns s).map fun
        | .error e s => .error e s
        | .ok bytes s =>
          match Utf8.decode bytes with
          | .error fault => .error (.malformed (.invalidText fault)) s
          | .ok text => .ok text s

variable {s t : Incoming}

theorem readLongSize_ends (live : s.Live) : Ends (readLongSize · s) (Wire.readLongSize s) := by
  simp only [Wire.readLongSize]
  refine (ensureRemaining_ends live 4).map ?_
  cases Incoming.ensureRemaining 4 s <;> rfl

theorem readSize_ends (live : s.Live) : Ends (readSize · s) (Wire.readSize s) := by
  simp only [Wire.readSize]
  refine (ensureRemaining_ends live 1).bind ?_
  cases ready : Incoming.ensureRemaining 1 s with
  | error e t => exact .of _
  | ok _ t =>
    simp only
    cases got : Incoming.onBuffer (Buffer.getBytes 1) t with
    | error e u => exact .of _
    | ok bytes u =>
      simp only
      split
      · exact .of _
      · split
        · exact readLongSize_ends ((live.ensureRemaining ready).getBytes got)
        · exact .of _

theorem ensureAny_ends (live : s.Live) (missing : Nat) :
    Ends (ensureAny missing · s) (Wire.ensureAny missing s) := by
  simp only [ensureAny, Wire.ensureAny]
  split
  · exact .of _
  · refine (ensureData_ends live _).map ?_
    cases Incoming.ensureData (min missing s.buffer.capacity) s <;> rfl

end Watched

namespace Incoming

variable {s t : Incoming}

theorem Live.readSize {size : Nat} (live : s.Live) (run : Wire.readSize s = .ok size t) :
    t.Live := by
  simp only [Wire.readSize] at run
  split at run
  · cases run
  · next ready =>
    have live := live.ensureRemaining ready
    split at run
    · cases run
    · next got =>
      have live := live.getBytes got
      split at run
      · cases run
        exact live
      · split at run
        · simp only [Wire.readLongSize] at run
          split at run
          · cases run
          · next ready =>
            have live := live.ensureRemaining ready
            split at run
            · cases run
            · next got =>
              split at run <;> cases run
              exact live.getBytes got
        · cases run
          exact live

theorem Live.ensureAny {missing : Nat} (live : s.Live)
    (run : Wire.ensureAny missing s = .ok () t) : t.Live := by
  simp only [Wire.ensureAny] at run
  split at run
  · cases run
    exact live
  · split at run
    · cases run
    · next ready =>
      split at run <;> cases run
      exact (live.ensureData ready).1

end Incoming

namespace Watched

variable {s t : Incoming}

theorem readBytes_ends (live : s.Live) (missing : Nat) (front : Array UInt8) :
    Ends (readBytes missing front · s) (Wire.readBytes missing front s) ∧
      ∀ bytes t, Wire.readBytes missing front s = .ok bytes t → t.Live := by
  refine Ends.loop
    (fun p : Nat × Array UInt8 × Incoming => Wire.readBytes p.1 p.2.1 p.2.2) Prod.fst
    (P := fun p => p.2.2.Live) (Q := fun r => ∀ bytes t, r = .ok bytes t → t.Live)
    (fun p live => ?_) live
  obtain ⟨missing, front, s⟩ := p
  have whole := Wire.readBytes.eq_def missing front s
  by_cases nothing : missing = 0
  · rw [dif_pos nothing] at whole
    refine ⟨.done (.ok front s), ?_, whole.symm, fun _ _ same => ?_⟩
    · simp only [readBytesTurn, if_pos nothing]
      exact .of _
    · cases same
      exact live
  · rw [dif_neg nothing] at whole
    simp only [readBytesTurn, if_neg nothing]
    refine ⟨_, (ensureAny_ends live missing).map rfl, ?_⟩
    split at whole
    · next given =>
      rw [given]
      exact ⟨whole.symm, fun _ _ same => by cases same⟩
    · next u given =>
      rw [given]
      have some := (Buffer.hasRemaining_iff _).1 (Wire.hasRemaining_of_ensureAny given)
      have live : u.Live := Live.ensureAny live given
      simp only at whole ⊢
      cases got : Incoming.onBuffer (Buffer.getBytes (min missing u.buffer.remaining)) u with
      | error e v =>
        rw [got] at whole
        exact ⟨whole.symm, fun _ _ same => by cases same⟩
      | ok chunk v =>
        rw [got] at whole
        have fewer : missing - min missing u.buffer.remaining < missing := by omega
        exact ⟨decide_eq_true fewer, whole.symm, live.getBytes got, fewer⟩

theorem readText_ends (live : s.Live) :
    Ends (readText · s) (Wire.readText s) ∧ ∀ text t, Wire.readText s = .ok text t → t.Live := by
  simp only [Wire.readText]
  constructor
  · refine (readSize_ends live).bind ?_
    cases sized : Wire.readSize s with
    | error e t => exact .of _
    | ok size t =>
      refine (readBytes_ends (live.readSize sized) size #[]).1.map ?_
      simp only
      cases Wire.readBytes size #[] t with
      | error e u => rfl
      | ok bytes u => rfl
  · intro text t run
    split at run
    · cases run
    · next sized =>
      split at run
      · cases run
      · next read =>
        split at run <;> cases run
        exact (readBytes_ends (live.readSize sized) _ #[]).2 _ _ read

/-! Writing -/

def fewerLeft {α : Type} (p q : List α × Outgoing) : Bool := q.1.length < p.1.length

def writeBytesTurn : List UInt8 × Outgoing → Turn (List UInt8 × Outgoing) (Outcome Outgoing Unit)
  | (bytes, s) =>
    if bytes = [] then .done (.ok () s)
    else
      match Wire.ensureSome bytes s with
      | .error e s => .done (.error e s)
      | .ok () s =>
        let room := s.buffer.remaining
        match Outgoing.onBuffer (Buffer.putBytes (bytes.take room)) s with
        | .error e s => .done (.error e s)
        | .ok () s => .on (bytes.drop room, s)

def writeBytes (bytes : List UInt8) (turns : Nat) (s : Outgoing) : Option (Outcome Outgoing Unit) :=
  loop fewerLeft (fun p => some (writeBytesTurn p)) turns (bytes, s)

def writeText (text : String) (turns : Nat) (s : Outgoing) : Option (Outcome Outgoing Unit) :=
  let bytes := Utf8.encode text
  match Wire.writeSize bytes.length s with
  | .error e s => some (.error e s)
  | .ok () s => writeBytes bytes turns s

def fewerOrRoom (width : Nat) (p q : List Scalar × Outgoing) : Bool :=
  fewerLeft p q || (p.2.buffer.remaining < width && width ≤ q.2.buffer.remaining)

def writeElementsTurn (width : Nat) : List Scalar × Outgoing →
    Turn (List Scalar × Outgoing) (Outcome Outgoing Unit)
  | (values, s) =>
    if values = [] then .done (Outgoing.flush s)
    else
      let run := s.buffer.remaining / width
      if run = 0 then
        match Outgoing.flush s with
        | .error e s => .done (.error e s)
        | .ok () s =>
          if s.buffer.remaining < width then
            .done (.error (.insufficientSpace width s.buffer.remaining) s)
          else .on (values, s)
      else
        match Outgoing.onBuffer (Buffer.putAll (values.take run)) s with
        | .error e s => .done (.error e s)
        | .ok () s => .on (values.drop run, s)

def writeElements (width : Nat) (values : List Scalar) (turns : Nat) (s : Outgoing) :
    Option (Outcome Outgoing Unit) :=
  loop (fewerOrRoom width) (fun p => some (writeElementsTurn width p)) turns (values, s)

def textOf : Scalar → String
  | .text text => text
  | _ => ""

def writeTextsTurn (turns : Nat) : List Scalar × Outgoing →
    Option (Turn (List Scalar × Outgoing) (Outcome Outgoing Unit))
  | ([], s) => some (.done (.ok () s))
  | (value :: values, s) =>
    (writeText (textOf value) turns s).map fun
      | .error e s => .done (.error e s)
      | .ok () s => .on (values, s)

def writeTexts (values : List Scalar) (turns : Nat) (s : Outgoing) :
    Option (Outcome Outgoing Unit) :=
  loop fewerLeft (writeTextsTurn turns) turns (values, s)

def writeFixed (k : Kind) (width : Nat) (values : List Scalar) (turns : Nat) (s : Outgoing) :
    Option (Outcome Outgoing Unit) :=
  if s.buffer.reverses k then writeElements width values turns s
  else
    match Outgoing.writeDirect (Scalar.rawBytes values) s with
    | .error e s => some (.error e s)
    | .ok true s => some (.ok () s)
    | .ok false s => writeElements width values turns s

def writeArray (k : Kind) (values : List Scalar) (turns : Nat) (s : Outgoing) :
    Option (Outcome Outgoing Unit) :=
  match Wire.writeSize values.length s with
  | .error e s => some (.error e s)
  | .ok () s =>
    match k.width? with
    | none => writeTexts values turns s
    | some width => writeFixed k width values turns s

variable {out next : Outgoing}

theorem writeBytes_ends (bytes : List UInt8) (out : Outgoing) :
    Ends (writeBytes bytes · out) (Wire.writeBytes bytes out) := by
  refine Ends.loop_of_forall (fun p : List UInt8 × Outgoing => Wire.writeBytes p.1 p.2)
    (fun p => p.1.length) (fun p => ⟨writeBytesTurn p, .of _, ?_⟩) (bytes, out)
  obtain ⟨bytes, s⟩ := p
  have whole := Wire.writeBytes.eq_def bytes s
  by_cases nothing : bytes = []
  · rw [dif_pos nothing] at whole
    simp only [writeBytesTurn, if_pos nothing]
    exact ⟨whole.symm, trivial⟩
  · rw [dif_neg nothing] at whole
    simp only [writeBytesTurn, if_neg nothing]
    split at whole
    · next given =>
      simp only [given]
      exact ⟨whole.symm, trivial⟩
    · next u given =>
      have some := (Buffer.hasRemaining_iff _).1 (Wire.hasRemaining_of_ensureSome given)
      have left := List.length_pos_iff.2 nothing
      simp only [given] at whole ⊢
      cases put : Outgoing.onBuffer (Buffer.putBytes (bytes.take u.buffer.remaining)) u with
      | error e v =>
        rw [put] at whole
        exact ⟨whole.symm, trivial⟩
      | ok _ v =>
        rw [put] at whole
        have fewer : (bytes.drop u.buffer.remaining).length < bytes.length := by
          rw [List.length_drop]
          omega
        exact ⟨decide_eq_true fewer, whole.symm, trivial, fewer⟩

theorem writeText_ends (text : String) (out : Outgoing) :
    Ends (writeText text · out) (Wire.writeText text out) := by
  simp only [writeText, Wire.writeText]
  cases Wire.writeSize (Utf8.encode text).length out with
  | error e s => exact .of _
  | ok _ s => exact writeBytes_ends _ s

theorem writeElements_of_ready {width : Nat} {pos : 0 < width} {values : List Scalar}
    (some : values ≠ []) (ready : Wire.ensureElement width out = .ok () next) :
    let run := next.buffer.remaining / width
    Wire.writeElements width pos values out =
      match Outgoing.onBuffer (Buffer.putAll (values.take run)) next with
      | .error e s => .error e s
      | .ok () s => Wire.writeElements width pos (values.drop run) s := by
  intro run
  rw [Wire.writeElements.eq_def, dif_neg some]
  split
  · next refused =>
    rw [ready] at refused
    cases refused
  · next given =>
    rw [ready] at given
    cases given
    rfl

theorem writeElements_of_refused {width : Nat} {pos : 0 < width} {values : List Scalar} {e : Error}
    (some : values ≠ []) (refused : Wire.ensureElement width out = .error e next) :
    Wire.writeElements width pos values out = .error e next := by
  rw [Wire.writeElements.eq_def, dif_neg some]
  split
  · next given =>
    rw [refused] at given
    cases given
    rfl
  · next given =>
    rw [refused] at given
    cases given

theorem writeElements_ends {width : Nat} (pos : 0 < width) (values : List Scalar)
    (out : Outgoing) :
    Ends (writeElements width values · out) (Wire.writeElements width pos values out) := by
  refine Ends.loop_of_forall
    (fun p : List Scalar × Outgoing => Wire.writeElements width pos p.1 p.2)
    (fun p => (p.1.length, if width ≤ p.2.buffer.remaining then 0 else 1))
    (fun p => ⟨writeElementsTurn width p, .of _, ?_⟩) (values, out)
  obtain ⟨values, s⟩ := p
  by_cases nothing : values = []
  · have whole := Wire.writeElements.eq_def width pos values s
    rw [dif_pos nothing] at whole
    simp only [writeElementsTurn, if_pos nothing]
    exact ⟨whole.symm, trivial⟩
  simp only [writeElementsTurn, if_neg nothing]
  by_cases full : s.buffer.remaining / width = 0
  · have short : s.buffer.remaining < width := (Nat.div_eq_zero_iff_lt pos).1 full
    have drained := Wire.ensureElement.eq_def width s
    rw [if_neg (Nat.not_le.2 short)] at drained
    simp only [if_pos full]
    cases flushed : Outgoing.flush s with
    | error e u =>
      rw [flushed] at drained
      exact ⟨(writeElements_of_refused nothing drained).symm, trivial⟩
    | ok _ u =>
      simp only [flushed] at drained ⊢
      by_cases still : u.buffer.remaining < width
      · simp only [if_pos still] at drained ⊢
        exact ⟨(writeElements_of_refused nothing drained).symm, trivial⟩
      · have room : width ≤ u.buffer.remaining := Nat.le_of_not_lt still
        have ready : Wire.ensureElement width u = .ok () u := if_pos room
        simp only [if_neg still] at drained ⊢
        refine ⟨?_, (writeElements_of_ready nothing ready).trans
          (writeElements_of_ready nothing drained).symm, trivial, Prod.Lex.right _ ?_⟩
        · simp only [fewerOrRoom, decide_eq_true short, decide_eq_true room, Bool.and_self,
            Bool.or_true]
        · rw [if_pos room, if_neg (Nat.not_le.2 short)]
          exact Nat.zero_lt_one
  · have room : width ≤ s.buffer.remaining :=
      Nat.le_of_not_lt fun short => full (Nat.div_eq_of_lt short)
    have ready : Wire.ensureElement width s = .ok () s := if_pos room
    have whole : Wire.writeElements width pos values s = _ := writeElements_of_ready nothing ready
    simp only [if_neg full]
    cases put : Outgoing.onBuffer (Buffer.putAll (values.take (s.buffer.remaining / width))) s with
    | error e u =>
      rw [put] at whole
      exact ⟨whole.symm, trivial⟩
    | ok _ u =>
      rw [put] at whole
      have left := List.length_pos_iff.2 nothing
      have fewer : (values.drop (s.buffer.remaining / width)).length < values.length := by
        rw [List.length_drop]
        exact Nat.sub_lt left (Nat.pos_of_ne_zero full)
      refine ⟨?_, whole.symm, trivial, Prod.Lex.left _ _ fewer⟩
      simp only [fewerOrRoom, fewerLeft, decide_eq_true fewer, Bool.true_or]

theorem writeTexts_cons (value : Scalar) (values : List Scalar) (out : Outgoing) :
    Wire.writeTexts (value :: values) out =
      match Wire.writeText (textOf value) out with
      | .error e s => .error e s
      | .ok () s => Wire.writeTexts values s := by
  cases value <;> rfl

theorem writeTexts_ends (values : List Scalar) (out : Outgoing) :
    Ends (writeTexts values · out) (Wire.writeTexts values out) := by
  refine Ends.loop_of_forall (fun p : List Scalar × Outgoing => Wire.writeTexts p.1 p.2)
    (fun p => p.1.length) (fun p => ?_) (values, out)
  obtain ⟨values, s⟩ := p
  cases values with
  | nil => exact ⟨.done (.ok () s), .of _, rfl, trivial⟩
  | cons value values =>
    have whole := writeTexts_cons value values s
    refine ⟨_, (writeText_ends (textOf value) s).map rfl, ?_⟩
    cases written : Wire.writeText (textOf value) s with
    | error e t =>
      rw [written] at whole
      exact ⟨whole.symm, trivial⟩
    | ok _ t =>
      have fewer : values.length < (value :: values).length := Nat.lt_succ_self _
      rw [written] at whole
      exact ⟨decide_eq_true fewer, whole.symm, trivial, fewer⟩

theorem writeFixed_ends (k : Kind) {width : Nat} (pos : 0 < width) (values : List Scalar)
    (out : Outgoing) :
    Ends (writeFixed k width values · out) (Wire.writeFixed k width pos values out) := by
  simp only [writeFixed, Wire.writeFixed]
  split
  · exact writeElements_ends pos values out
  · cases Outgoing.writeDirect (Scalar.rawBytes values) out with
    | error e s => exact .of _
    | ok taken s =>
      cases taken with
      | true => exact .of _
      | false => exact writeElements_ends pos values s

/-- An array is written or refused, whatever the buffer holds and the outlet takes. -/
theorem writeArray_ends (k : Kind) (values : List Scalar) (out : Outgoing) :
    Ends (writeArray k values · out) (Wire.writeArray k values out) := by
  cases fixed : k.width? with
  | none =>
    cases (Kind.width?_eq_none_iff _).1 fixed
    simp only [writeArray, Wire.writeArray]
    cases Wire.writeSize values.length out with
    | error e s => exact .of _
    | ok _ s => exact writeTexts_ends values s
  | some width =>
    rw [Wire.writeArray_fixed fixed]
    simp only [writeArray, fixed]
    cases Wire.writeSize values.length out with
    | error e s => exact .of _
    | ok _ s => exact writeFixed_ends k _ values s

end Watched

end ArrayStore
