import ArrayStore.Proofs.Session.ArrayLists
import ArrayStore.Proofs.Session.Marks
import ArrayStore.Proofs.Value.Calls

/-! Immutability cannot be undone, with one exception.
A flag that is raised stays raised, and a value that is given another token raises
a flag of that one too. Only a token that has no flag at all cannot be frozen: a
value that is given it may change again. Main statement: short of that, a value
that is immutable is so after any run of moves. -/

namespace ArrayStore

namespace Session

def ArrayMove.refills : ArrayMove → Option Nat
  | .step (.create value ..) | .step (.add _ value _) | .step (.drop value) => some value
  | _ => none

namespace Marks

variable {m : Marks} {slot : Nat} {x : Token}

theorem attach_flags (immutable : m.flags.isImmutable x = true) (value : Nat) (y : Mark)
    (token : Token) (owner : Owner) :
    (m.attach value y token owner).flags.isImmutable x = true := by
  simp only [attach]
  split
  · exact Flags.isImmutable_freeze immutable token
  · exact immutable

theorem step_flags (immutable : m.flags.isImmutable x = true) (t : ArrayStep) :
    (m.step t).flags.isImmutable x = true := by
  cases places : t.places with
  | false =>
    obtain ⟨flags, tokens, trackers, same, raised, -⟩ := m.step_quiet t places
    rw [same]
    exact raised x immutable
  | true =>
    cases t with
    | record | tracker | create | drop => exact immutable
    | add record value field =>
      simp only [step]
      cases m.records record with
      | none => exact immutable
      | some r =>
        refine attach_flags ?_ ..
        exact immutable
    | attach value token watch offset =>
      simp only [step]
      split
      · exact attach_flags immutable ..
      · exact immutable
    | _ => cases places

def Fixed (m : Marks) (slot : Nat) : Prop :=
  ∃ x, m.values slot = some x ∧ m.flags.isImmutable x.token = true

theorem step_values (t : ArrayStep) (stays : (ArrayMove.step t).refills ≠ some slot)
    (apart : ∀ token watch offset, t ≠ .attach slot token watch offset) :
    (m.step t).values slot = m.values slot := by
  cases places : t.places with
  | false =>
    obtain ⟨flags, tokens, trackers, same, -⟩ := m.step_quiet t places
    rw [same]
  | true =>
    cases t with
    | record | tracker => rfl
    | create value | drop value =>
      exact Function.update_of_ne (fun same => stays (congrArg some same.symm)) ..
    | add record value field =>
      simp only [step]
      cases m.records record with
      | none => rfl
      | some r => exact Function.update_of_ne (fun same => stays (congrArg some same.symm)) ..
    | attach value token watch offset =>
      simp only [step]
      split
      · exact Function.update_of_ne (fun same => apart token watch offset (by rw [same])) ..
      · rfl
    | _ => cases places

theorem Fixed.step (h : m.Fixed slot) (t : ArrayStep)
    (stays : (ArrayMove.step t).refills ≠ some slot)
    (flagged : ∀ token watch offset, t = .attach slot token watch offset →
      m.tokens token ≠ some .bare) : (m.step t).Fixed slot := by
  obtain ⟨x, found, immutable⟩ := h
  by_cases attaches : ∃ token watch offset, t = .attach slot token watch offset
  · obtain ⟨token, watch, offset, rfl⟩ := attaches
    simp only [Marks.step, found]
    split
    · next y u id same named heard =>
      cases same
      refine ⟨_, Function.update_self .., ?_⟩
      simp only [attach, immutable, if_true]
      refine m.flags.isImmutable_freeze_self fun bare => flagged token watch offset rfl ?_
      exact named.trans (congrArg some (congrArg Token.mk bare))
    · exact ⟨x, found, immutable⟩
  · have apart : ∀ token watch offset, t ≠ .attach slot token watch offset :=
      fun token watch offset same => attaches ⟨token, watch, offset, same⟩
    exact ⟨x, (step_values t stays apart).trans found, step_flags immutable t⟩

theorem Fixed.move (h : m.Fixed slot) (t : ArrayMove) (stays : t.refills ≠ some slot)
    (flagged : ∀ token watch offset, t = .step (.attach slot token watch offset) →
      m.tokens token ≠ some .bare) : (m.move t).Fixed slot := by
  cases t with
  | step t =>
    exact h.step t stays fun token watch offset same => flagged token watch offset (same ▸ rfl)
  | decode value | pass value =>
    simp only [Marks.move]
    rw [tell_eq]
    exact h
  | build | forget => exact h

end Marks

namespace ArrayState

open FieldValue (Call)

variable {s : ArrayState} {slot : Nat}

theorem fixed_iff : s.marks.Fixed slot ↔
    ∃ v, s.values.get? slot = some v ∧ v.isImmutable s.world = true := by
  constructor
  · rintro ⟨x, found, immutable⟩
    obtain ⟨v, there, rfl⟩ := Option.map_eq_some_iff.1 found
    exact ⟨v, there, immutable⟩
  · rintro ⟨v, found, immutable⟩
    exact ⟨v.mark, congrArg (Option.map FieldValue.mark) found, immutable⟩

theorem moveAll_fixed (h : s.marks.Fixed slot) (moves : List ArrayMove)
    (stays : ∀ t ∈ moves, t.refills ≠ some slot)
    (flagged : ∀ n token watch offset, moves[n]? = some (.step (.attach slot token watch offset)) →
      (s.moveAll (moves.take n)).tokens.get? token ≠ some .bare) :
    (s.moveAll moves).marks.Fixed slot := by
  induction moves generalizing s with
  | nil => exact h
  | cons t moves ih =>
    have next : (Outcome.state (move t s)).marks.Fixed slot := by
      rw [move_moves s t]
      split
      · refine h.move t (stays t List.mem_cons_self) fun token watch offset same => ?_
        exact flagged 0 token watch offset (congrArg some same)
      · exact h
    exact ih next (fun u member => stays u (List.mem_cons_of_mem _ member))
      fun n token watch offset there => flagged (n + 1) token watch offset there

/-- Whatever is done to an immutable value, to its record and to its tokens, it stays immutable
and refuses to be written, as long as it is not given a token without a flag. -/
theorem moveAll_stays_immutable (s : ArrayState) (slot : Nat) (v : FieldValue)
    (found : s.values.get? slot = some v) (immutable : v.isImmutable s.world = true)
    (moves : List ArrayMove) (stays : ∀ t ∈ moves, t.refills ≠ some slot)
    (flagged : ∀ n token watch offset, moves[n]? = some (.step (.attach slot token watch offset)) →
      (s.moveAll (moves.take n)).tokens.get? token ≠ some .bare) :
    let t := s.moveAll moves
    ∃ u, t.values.get? slot = some u ∧ u.isImmutable t.world = true ∧
      ∀ c : Call, c.writes = true →
        ∃ u' w', c.run u t.world = .error (.immutable u.field.name) (c, u', w') := by
  intro t
  obtain ⟨u, there, fixed⟩ :=
    fixed_iff.1 (moveAll_fixed (fixed_iff.2 ⟨v, found, immutable⟩) moves stays flagged)
  refine ⟨u, there, fixed, fun c writes => ?_⟩
  obtain ⟨u', -, run⟩ := c.run_of_immutable fixed
  exact ⟨u', _, run.trans (if_pos writes)⟩

/-- A field of a frozen record moves to another record, under a token that lies below one without
a flag, and its new changes are forgotten. -/
theorem moveAll_stays_immutable_moved :
    let s := (start .machine).moveAll [.step (.record 0 "old"), .step (.add 0 0 ⟨"x", .int⟩),
      .step (.put 0 [.int 1]), .step (.freezeRecord 0)]
    let moves : List ArrayMove := [.step (.record 1 "new"), .step (.token 0 .bare),
      .step (.token 1 (.childOf 0)), .step (.attach 0 1 (.record 1) 1), .step (.clear (.record 1)),
      .step (.token 2 .fresh), .step (.attach 0 2 (.record 0) 2), .step (.put 0 [.int 2])]
    ∃ u, (s.moveAll moves).values.get? 0 = some u ∧
      u.isImmutable (s.moveAll moves).world = true ∧
      ∃ u' w', (Call.setLength 3).run u (s.moveAll moves).world =
        .error (.immutable u.field.name) (.setLength 3, u', w') := by
  intro s moves
  have before : ∃ v ∈ s.values.get? 0, v.isImmutable s.world = true := by decide +kernel
  obtain ⟨v, found, immutable⟩ := before
  have third : (s.moveAll (moves.take 3)).tokens.get? 1 ≠ some .bare := by decide +kernel
  have sixth : (s.moveAll (moves.take 6)).tokens.get? 2 ≠ some .bare := by decide +kernel
  obtain ⟨u, there, fixed, refuses⟩ := moveAll_stays_immutable s 0 v found immutable moves
    (by decide) fun n token watch offset attaches => by
      match n with
      | 3 => cases attaches; exact third
      | 6 => cases attaches; exact sixth
      | 0 | 1 | 2 | 4 | 5 | 7 => cases attaches
      | n + 8 => cases attaches
  exact ⟨u, there, fixed, refuses (.setLength 3) rfl⟩

/-- A value that is immutable is given a token without a flag, and can be lengthened again. -/
theorem attach_bare_unlocks :
    let s := (start .machine).moveAll [.step (.create 0 ⟨"x", .int⟩ none), .step (.setImmutable 0),
      .step (.token 0 .bare), .step (.tracker 0)]
    let t := s.moveAll [.step (.attach 0 0 (.tracker 0) 1)]
    (∃ v ∈ s.values.get? 0, v.isImmutable s.world = true) ∧
      (∃ u ∈ t.values.get? 0, u.isImmutable t.world = false) ∧
      t.succeeds (.step (.setLength 0 3)) = true := by
  decide +kernel

end ArrayState

end Session

end ArrayStore
