import ArrayStore.Proofs.Stream.Progress

/-! Loops under watch.
A loop that is watched may take a number of turns and no more, and each turn
that does not end it has to get ahead: to consume something, to have more bytes
in the buffer, or to use up an interruption. It gives no result where it does
not. Here the reading of a stream is written as such loops, turn by turn, and
without any check of its own. Main statements: with enough turns, reading from
the source and filling the buffer give what they give unwatched, provided that
the inlet is not one that reports success and adds nothing. -/

namespace ArrayStore

inductive Turn (σ ρ : Type) where
  /-- The loop goes on from a state. -/
  | on (state : σ)
  | done (result : ρ)

namespace Watched

variable {σ ρ τ : Type}

/-- At most so many turns, each of which gets ahead or ends the loop. -/
def loop (ahead : σ → σ → Bool) (turn : σ → Option (Turn σ ρ)) : (turns : Nat) → σ → Option ρ
  | 0, _ => none
  | turns + 1, s =>
    match turn s with
    | none => none
    | some (.done r) => some r
    | some (.on t) => if ahead s t then loop ahead turn turns t else none

/-- With enough turns there is a result, and it is this one. -/
def Ends (x : (turns : Nat) → Option ρ) (r : ρ) : Prop :=
  ∃ bound, ∀ turns, bound ≤ turns → x turns = some r

theorem Ends.of (r : ρ) : Ends (fun _ => some r) r := ⟨0, fun _ _ => rfl⟩

theorem Ends.bind {x : Nat → Option ρ} {y : ρ → Nat → Option τ} {r : ρ} {q : τ} (first : Ends x r)
    (second : Ends (y r) q) : Ends (fun turns => (x turns).bind fun a => y a turns) q := by
  obtain ⟨m, first⟩ := first
  obtain ⟨n, second⟩ := second
  refine ⟨max m n, fun turns enough => ?_⟩
  simp only [first turns (Nat.le_trans (Nat.le_max_left m n) enough), Option.bind_some]
  exact second turns (Nat.le_trans (Nat.le_max_right m n) enough)

theorem Ends.map {x : Nat → Option ρ} {g : ρ → τ} {r : ρ} {q : τ} (ends : Ends x r)
    (same : g r = q) : Ends (fun turns => (x turns).map g) q := by
  obtain ⟨bound, ends⟩ := ends
  exact ⟨bound, fun turns enough => by simp only [ends turns enough, Option.map_some, same]⟩

/-- What a turn makes of a loop that computes `f`: it ends it with the result, of which something
is known, or it gets ahead to a state that has the same result and is nearer to the end. -/
def Serves {γ : Type} [WellFoundedRelation γ] (f : σ → ρ) (ahead : σ → σ → Bool) (P : σ → Prop)
    (Q : ρ → Prop) (measure : σ → γ) (s : σ) : Turn σ ρ → Prop
  | .done r => r = f s ∧ Q r
  | .on t => ahead s t = true ∧ f t = f s ∧ P t ∧ WellFoundedRelation.rel (measure t) (measure s)

/-- A loop ends if each of its turns does and serves it. -/
theorem Ends.loop {γ : Type} [WellFoundedRelation γ] (f : σ → ρ) (measure : σ → γ)
    {ahead : σ → σ → Bool} {P : σ → Prop} {Q : ρ → Prop}
    {turn : (turns : Nat) → σ → Option (Turn σ ρ)}
    (serves : ∀ s, P s → ∃ next, Ends (turn · s) next ∧ Serves f ahead P Q measure s next)
    {s : σ} (start : P s) :
    Ends (fun turns => loop ahead (turn turns) turns s) (f s) ∧ Q (f s) := by
  -- The turns within a turn are not those of the loop, which become fewer.
  suffices ends : (∃ bound, ∀ turns left, bound ≤ turns → bound ≤ left →
      Watched.loop ahead (turn turns) left s = some (f s)) ∧ Q (f s) by
    obtain ⟨⟨bound, ends⟩, known⟩ := ends
    exact ⟨⟨bound, fun turns enough => ends turns turns enough enough⟩, known⟩
  induction s using (InvImage.wf measure WellFoundedRelation.wf).induction with
  | _ s ih =>
    obtain ⟨next, ⟨m, ends⟩, served⟩ := serves s start
    cases next with
    | done r =>
      obtain ⟨rfl, known⟩ := served
      refine ⟨⟨m + 1, fun turns left enough some => ?_⟩, known⟩
      cases left with
      | zero => omega
      | succ left => simp only [Watched.loop, ends turns (by omega)]
    | on t =>
      obtain ⟨further, same, kept, nearer⟩ := served
      obtain ⟨⟨n, rest⟩, known⟩ := ih t nearer kept
      refine ⟨⟨max m n + 1, fun turns left enough some => ?_⟩, same ▸ known⟩
      cases left with
      | zero => omega
      | succ left =>
        simp only [Watched.loop, ends turns (by omega), further, if_true]
        rw [rest turns left (by omega) (by omega), same]

theorem Ends.loop_of_forall {γ : Type} [WellFoundedRelation γ] (f : σ → ρ) (measure : σ → γ)
    {ahead : σ → σ → Bool} {turn : (turns : Nat) → σ → Option (Turn σ ρ)}
    (serves : ∀ s, ∃ next, Ends (turn · s) next ∧
      Serves f ahead (fun _ => True) (fun _ => True) measure s next) (s : σ) :
    Ends (fun turns => Watched.loop ahead (turn turns) turns s) (f s) :=
  (Ends.loop f measure (fun s _ => serves s) trivial).1

/-! Sources -/

def fewerInterrupts (s t : Source) : Bool := t.pendingInterrupts < s.pendingInterrupts

def readTurn (asked : Nat) (s : Source) :
    Option (Turn Source (Except StreamFault (List UInt8) × Source)) :=
  if s.reads ∈ s.interrupts then some (.on { s with reads := s.reads + 1 })
  else
    match s.deliver asked with
    | .error fault => some (.done (.error fault, { s with reads := s.reads + 1 }))
    | .ok chunk =>
      let size := chunk.length
      some (.done (.ok chunk,
        { s with rest := s.rest.drop size, position := s.position + size, reads := s.reads + 1 }))

def read (asked turns : Nat) (s : Source) : Option (Except StreamFault (List UInt8) × Source) :=
  loop fewerInterrupts (readTurn asked) turns s

theorem read_ends (asked : Nat) (s : Source) : Ends (read asked · s) (s.read asked) := by
  refine Ends.loop_of_forall (Source.read asked) Source.pendingInterrupts (fun s => ?_) s
  by_cases interrupted : s.reads ∈ s.interrupts
  · have fewer := s.pendingInterrupts_lt interrupted
    refine ⟨.on { s with reads := s.reads + 1 }, ?_, decide_eq_true fewer, ?_, trivial, fewer⟩
    · simp only [readTurn, if_pos interrupted]
      exact .of _
    · rw [Source.read.eq_def asked s, dif_pos interrupted]
  · refine ⟨.done (s.read asked), ?_, rfl, trivial⟩
    rw [Source.read, dif_neg interrupted]
    simp only [readTurn, if_neg interrupted]
    cases s.deliver asked <;> exact .of _

def readExactTurn (turns : Nat) : Nat × Array UInt8 × Source →
    Option (Turn (Nat × Array UInt8 × Source) (Except StreamFault (Array UInt8) × Source))
  | (missing, front, s) =>
    if missing = 0 then some (.done (.ok front, s))
    else
      (read missing turns s).map fun
        | (.error fault, s) => .done (.error fault, s)
        | (.ok [], s) => .done (.error Source.ended, s)
        | (.ok (b :: chunk), s) => .on (missing - (chunk.length + 1), front ++ (b :: chunk), s)

def readExact (count : Nat) (front : Array UInt8) (turns : Nat) (s : Source) :
    Option (Except StreamFault (Array UInt8) × Source) :=
  loop (fun p q => q.1 < p.1) (readExactTurn turns) turns (count, front, s)

theorem readExact_ends (count : Nat) (front : Array UInt8) (s : Source) :
    Ends (readExact count front · s) (s.readExact count front) := by
  refine Ends.loop_of_forall (fun p : Nat × Array UInt8 × Source => p.2.2.readExact p.1 p.2.1)
    Prod.fst (fun p => ?_) (count, front, s)
  obtain ⟨missing, front, s⟩ := p
  have whole := Source.readExact.eq_def missing front s
  by_cases nothing : missing = 0
  · rw [if_pos nothing] at whole
    refine ⟨.done (.ok front, s), ?_, whole.symm, trivial⟩
    simp only [readExactTurn, if_pos nothing]
    exact .of _
  · rw [if_neg nothing] at whole
    simp only [readExactTurn, if_neg nothing]
    refine ⟨_, (read_ends missing s).map rfl, ?_⟩
    split at whole
    · next given =>
      rw [given]
      exact ⟨whole.symm, trivial⟩
    · next given =>
      rw [given]
      exact ⟨whole.symm, trivial⟩
    · next chunk t given =>
      have fewer : missing - (chunk.length + 1) < missing :=
        Nat.sub_lt (Nat.pos_of_ne_zero nothing) (Nat.succ_pos _)
      rw [given]
      exact ⟨decide_eq_true fewer, whole.symm, trivial, fewer⟩

/-! Buffers that are filled up -/

def refill (b : Buffer) (r : Reader) (turns : Nat) : Option (Outcome (Buffer × Reader) Nat) :=
  let b := b.compact
  (read (min b.remaining r.fragment) turns r.source).map fun
    | (.error fault, source) => .error (.stream "reading stream" fault) (b.flip, { r with source })
    | (.ok chunk, source) =>
      let count := chunk.length
      .ok count ((b.store chunk).flip,
        { r with source, bytesRead := r.bytesRead + count, refills := r.refills + 1 })

theorem refill_ends (b : Buffer) (r : Reader) : Ends (refill b r) (Incoming.refill b r) := by
  simp only [Incoming.refill]
  refine (read_ends _ r.source).map ?_
  cases r.source.read (min b.compact.remaining r.fragment) with
  | mk given source => cases given <;> rfl

def fuller (p q : Buffer × Reader) : Bool := p.1.remaining < q.1.remaining

def fillTurn (target turns : Nat) : Buffer × Reader →
    Option (Turn (Buffer × Reader) (Outcome (Buffer × Reader) Unit))
  | (b, r) =>
    if b.remaining < target then
      (refill b r turns).map fun
        | .error e s => .done (.error e s)
        | .ok 0 s => .done (.error (.stream "reading stream" Incoming.ended) s)
        | .ok (_ + 1) s => .on s
    else some (.done (.ok () (b, r)))

def fillTo (target : Nat) (b : Buffer) (r : Reader) (turns : Nat) :
    Option (Outcome (Buffer × Reader) Unit) :=
  loop fuller (fillTurn target turns) turns (b, r)

theorem remaining_refill {b c : Buffer} {r q : Reader} {count : Nat} (valid : b.Valid)
    (run : Incoming.refill b r = .ok count (c, q)) : c.remaining = b.remaining + count := by
  cases given : r.source.read (min b.compact.remaining r.fragment) with
  | mk delivered source =>
    cases delivered with
    | error fault =>
      simp only [Incoming.refill, given] at run
      cases run
    | ok chunk =>
      simp only [Incoming.refill, given] at run
      cases run
      exact Buffer.remaining_topUp valid

theorem fillTo_ends (target : Nat) {b : Buffer} (valid : b.Valid) (r : Reader) :
    Ends (fillTo target b r) (Incoming.fillTo target b r) := by
  refine (Ends.loop (fun p : Buffer × Reader => Incoming.fillTo target p.1 p.2)
    (fun p => p.2.source.rest.length) (P := fun p => p.1.Valid) (Q := fun _ => True)
    (fun p valid => ?_) valid).1
  obtain ⟨b, r⟩ := p
  have whole := Incoming.fillTo.eq_def target b r
  by_cases missing : b.remaining < target
  · rw [if_pos missing] at whole
    simp only [fillTurn, if_pos missing]
    refine ⟨_, (refill_ends b r).map rfl, ?_⟩
    split at whole
    · next given =>
      rw [given]
      exact ⟨whole.symm, trivial⟩
    · next given =>
      rw [given]
      exact ⟨whole.symm, trivial⟩
    · next n c q given =>
      have added : c.remaining = b.remaining + (n + 1) := remaining_refill valid given
      have less := Incoming.refill_rest given
      rw [given]
      exact ⟨decide_eq_true (show b.remaining < c.remaining by omega), whole.symm,
        (Incoming.refill_onward valid given).valid,
        show q.source.rest.length < r.source.rest.length by omega⟩
  · rw [if_neg missing] at whole
    refine ⟨.done (.ok () (b, r)), ?_, whole.symm, trivial⟩
    simp only [fillTurn, if_neg missing]
    exact .of _

end Watched

namespace Incoming

/-- A buffer that can be read, with an inlet that adds to it or reports that it does not. -/
structure Live (s : Incoming) : Prop where
  valid : s.buffer.Valid
  fed : s.inlet ≠ .idle

variable {s t : Incoming}

theorem fillTo_reaches {target : Nat} {b c : Buffer} {r q : Reader}
    (run : fillTo target b r = .ok () (c, q)) : target ≤ c.remaining := by
  fun_induction fillTo target b r with
  | case1 | case2 => cases run
  | case3 b r missing n d p filled ih => exact ih run
  | case4 b r held =>
    cases run
    exact Nat.le_of_not_lt held

theorem Live.ensureData {size : Nat} (live : s.Live) (run : ensureData size s = .ok () t) :
    t.Live ∧ (0 < size → s.buffer.remaining < t.buffer.remaining) := by
  have onward := ensureData_onward live.valid run
  obtain ⟨b, inlet⟩ := s
  cases inlet with
  | closed => cases run
  | idle => exact absurd rfl live.fed
  | stream r =>
    simp only [Incoming.ensureData] at run
    split at run
    · cases run
    · next short =>
      split at run
      · next filled =>
        cases run
        refine ⟨⟨onward.valid, fun idle => by cases idle⟩, fun some => ?_⟩
        have above : b.remaining < min (b.remaining + size) b.capacity := by omega
        exact Nat.lt_of_lt_of_le above (fillTo_reaches filled)
      · cases run

theorem Live.ensureRemaining {size : Nat} (live : s.Live)
    (run : ensureRemaining size s = .ok () t) : t.Live := by
  simp only [Incoming.ensureRemaining] at run
  split at run
  · cases run
    exact live
  · split at run
    · cases run
    · next ready =>
      split at run
      · cases run
      · cases run
        exact (live.ensureData ready).1

theorem inlet_onBuffer {α : Type} {change : Change Buffer α} {a : α}
    (run : onBuffer change s = .ok a t) : t.inlet = s.inlet := by
  obtain ⟨b, inlet⟩ := s
  simp only [onBuffer] at run
  split at run <;> cases run
  rfl

theorem Live.getBytes {count : Nat} {bytes : List UInt8} (live : s.Live)
    (run : onBuffer (Buffer.getBytes count) s = .ok bytes t) : t.Live :=
  ⟨(getBytes_onward live.valid run).1.valid, inlet_onBuffer run ▸ live.fed⟩

theorem Live.getAll {k : Kind} {count : Nat} {values : List Scalar} (live : s.Live)
    (run : onBuffer (Buffer.getAll k count) s = .ok values t) : t.Live :=
  have ⟨_, onward, _⟩ := getAll_onward live.valid run
  ⟨onward.valid, inlet_onBuffer run ▸ live.fed⟩

theorem Live.readDirect {count : Nat} {bytes : Option (List UInt8)} (live : s.Live)
    (run : readDirect count s = .ok bytes t) : t.Live := by
  cases bytes with
  | none => exact readDirect_none run ▸ live
  | some bytes =>
    refine ⟨(readDirect_onward live.valid run).1.valid, ?_⟩
    obtain ⟨b, inlet⟩ := s
    cases inlet with
    | closed => cases run
    | idle => cases run
    | stream r =>
      simp only [Incoming.readDirect] at run
      split at run
      · split at run
        · cases run
        · split at run <;> cases run
          exact fun idle => by cases idle
      · cases run

end Incoming

namespace Watched

open Incoming (Live)

def ensureData (size turns : Nat) : Incoming → Option (Outcome Incoming Unit)
  | ⟨b, .closed⟩ =>
    some (.error (Incoming.shortage b size b.remaining) ⟨b, .closed⟩)
  | ⟨b, .idle⟩ => some (.ok () ⟨b, .idle⟩)
  | ⟨b, .stream r⟩ =>
    let target := min (b.remaining + size) b.capacity
    if 0 < size ∧ target ≤ b.remaining then
      some (.error (Incoming.shortage b size b.capacity) ⟨b, .stream r⟩)
    else
      (fillTo target b r turns).map fun
        | .ok () (b, r) => .ok () ⟨b, .stream r⟩
        | .error e (b, r) => .error e ⟨b, .stream r⟩

variable {s : Incoming}

theorem ensureData_ends (live : s.Live) (size : Nat) :
    Ends (ensureData size · s) (Incoming.ensureData size s) := by
  obtain ⟨b, inlet⟩ := s
  cases inlet with
  | closed | idle => exact .of _
  | stream r =>
    simp only [ensureData, Incoming.ensureData]
    split
    · exact .of _
    · refine (fillTo_ends _ live.valid r).map ?_
      cases Incoming.fillTo (min (b.remaining + size) b.capacity) b r <;> rfl

def ensureRemaining (size turns : Nat) (s : Incoming) : Option (Outcome Incoming Unit) :=
  if size ≤ s.buffer.remaining then some (.ok () s)
  else
    (ensureData (size - s.buffer.remaining) turns s).map fun
      | .error e s => .error e s
      | .ok () s =>
        if s.buffer.remaining < size then .error (.insufficientSpace size s.buffer.remaining) s
        else .ok () s

theorem ensureRemaining_ends (live : s.Live) (size : Nat) :
    Ends (ensureRemaining size · s) (Incoming.ensureRemaining size s) := by
  simp only [ensureRemaining, Incoming.ensureRemaining]
  split
  · exact .of _
  · refine (ensureData_ends live _).map ?_
    cases Incoming.ensureData (size - s.buffer.remaining) s <;> rfl

def readDirect (count turns : Nat) : Incoming → Option (Outcome Incoming (Option (List UInt8)))
  | ⟨b, .stream r⟩ =>
    if r.direct then
      let buffered := min b.remaining count
      match Buffer.getBytes buffered b with
      | .error e b => some (.error e ⟨b, .stream r⟩)
      | .ok front b =>
        (readExact (count - buffered) front.toArray turns r.source).map fun
          | (.error fault, source) =>
            .error (.stream "reading stream" fault) ⟨b, .stream { r with source }⟩
          | (.ok bytes, source) =>
            .ok (some bytes.toList)
              ⟨b, .stream { r with source, bytesRead := r.bytesRead + (count - buffered) }⟩
    else some (.ok none ⟨b, .stream r⟩)
  | s => some (.ok none s)

theorem readDirect_ends (count : Nat) (s : Incoming) :
    Ends (readDirect count · s) (Incoming.readDirect count s) := by
  obtain ⟨b, inlet⟩ := s
  cases inlet with
  | closed | idle => exact .of _
  | stream r =>
    simp only [readDirect, Incoming.readDirect]
    split
    · cases Buffer.getBytes (min b.remaining count) b with
      | error e b => exact .of _
      | ok front c =>
        refine (readExact_ends _ front.toArray r.source).map ?_
        cases read : r.source.readExact (count - min b.remaining count) front.toArray with
        | mk given source => cases given <;> simp only [read]
    · exact .of _

end Watched

end ArrayStore
