import ArrayStore.Proofs.Record.Hierarchy
import ArrayStore.Proofs.Session.Immutability
import ArrayStore.Proofs.Session.Notifications

/-! What freezing a record does to its fields, and what it does not do.
A session makes its tokens as any program does: each has a flag of its own that
no other token of the session has first, unless it is a copy of one in a slot.
So the flag of a record is raised by freezing the record and by nothing else,
and every field that was added and has not been given another token since has
it behind a flag of its own. -/

namespace ArrayStore.Session

open Function (update)

inductive Holder where
  | value (slot : Nat)
  | record (slot : Nat)
  | token (slot : Nat)
  deriving DecidableEq, Repr

def ArrayStep.freezes : ArrayStep → Option Holder
  | .freezeRecord slot => some (.record slot)
  | .freezeToken slot => some (.token slot)
  | .attach _ taken _ _ => some (.token taken)
  | .setImmutable value => some (.value value)
  | _ => none

namespace Marks

def held (m : Marks) : Holder → Option Token
  | .value slot => (m.values slot).map Mark.token
  | .record slot => (m.records slot).map Record.token
  | .token slot => m.tokens slot

def Bears (m : Marks) (h : Holder) (flag : Nat) : Prop :=
  ∃ t, m.held h = some t ∧ t.flags.head? = some flag

/-- All that a step can do to own flags: it makes new ones, copies those in the slots of tokens, and
raises those that it freezes. -/
structure Advances (frozen : Option Holder) (m n : Marks) : Prop where
  made : m.flags.made ≤ n.flags.made
  bears : ∀ h flag, n.Bears h flag → m.Bears h flag ∨ (∃ slot, m.Bears (.token slot) flag) ∨
    (m.flags.made ≤ flag ∧ flag < n.flags.made)
  raised : ∀ flag, n.flags.isRaised flag = true → m.flags.isRaised flag = true ∨
    (∃ h, frozen = some h ∧ m.Bears h flag) ∨ (m.flags.made ≤ flag ∧ flag < n.flags.made)

variable {m n : Marks} {frozen : Option Holder} {slot flag : Nat}

theorem Advances.refl (frozen : Option Holder) (m : Marks) : Advances frozen m m :=
  ⟨Nat.le_refl _, fun _ _ => .inl, fun _ => .inl⟩

theorem Advances.of_held (o : Holder) (made : m.flags.made ≤ n.flags.made)
    (others : ∀ h, h ≠ o → n.held h = m.held h)
    (own : ∀ flag, n.Bears o flag → m.Bears o flag ∨ (∃ slot, m.Bears (.token slot) flag) ∨
      (m.flags.made ≤ flag ∧ flag < n.flags.made))
    (raised : ∀ flag, n.flags.isRaised flag = true → m.flags.isRaised flag = true ∨
      (∃ h, frozen = some h ∧ m.Bears h flag) ∨ (m.flags.made ≤ flag ∧ flag < n.flags.made)) :
    Advances frozen m n := by
  refine ⟨made, fun h flag bears => ?_, raised⟩
  by_cases same : h = o
  · subst same
    exact own flag bears
  · obtain ⟨t, found, head⟩ := bears
    exact .inl ⟨t, (others h same).symm.trans found, head⟩

theorem advances_trackers (frozen : Option Holder) (m : Marks)
    (trackers : TrackerId → Option Tracker) : Advances frozen m { m with trackers } :=
  ⟨Nat.le_refl _, fun h _ bears => .inl (by cases h <;> exact bears), fun _ => .inl⟩

theorem held_value (value : Nat) (values : ∀ i, i ≠ value → n.values i = m.values i)
    (records : ∀ i, (n.records i).map Record.token = (m.records i).map Record.token)
    (tokens : n.tokens = m.tokens) (h : Holder) (other : h ≠ .value value) :
    n.held h = m.held h := by
  cases h with
  | value i => exact congrArg (Option.map Mark.token) (values i fun same => other (congrArg _ same))
  | record i => exact records i
  | token i => exact congrFun tokens i

theorem fresh_head {own made made' : Nat} {above : List Nat} {t : Token}
    (flags : t.flags = own :: above) (new : made ≤ own) (counted : own < made') (flag : Nat)
    (head : t.flags.head? = some flag) : made ≤ flag ∧ flag < made' := by
  rw [flags] at head
  cases head
  exact ⟨new, counted⟩

theorem freeze_advances {α : Type} {h : Holder} (o : Option α) (token : α → Token)
    (held : m.held h = o.map token) :
    Advances (some h) m (o.elim m fun x => m.freeze (token x)) := by
  cases o with
  | none => exact .refl _ m
  | some x =>
    refine ⟨Nat.le_of_eq (Flags.made_freeze ..).symm,
      fun i flag bears => .inl (by cases i <;> exact bears), fun flag raised => ?_⟩
    rcases (Flags.isRaised_freeze ..).1 raised with own | old
    · exact .inr (.inl ⟨h, rfl, token x, held, own⟩)
    · exact .inl old

theorem place_advances (value : Nat) (x : Option Mark) {flags : Flags}
    (made : m.flags.made ≤ flags.made) (raised : flags.raised = m.flags.raised)
    (new : ∀ y ∈ x, ∀ flag, y.token.flags.head? = some flag →
      m.flags.made ≤ flag ∧ flag < flags.made) :
    Advances frozen m { m with flags, values := update m.values value x } := by
  refine .of_held (.value value) made (held_value value
    (fun i other => Function.update_of_ne other ..) (fun _ => rfl) rfl) (fun flag bears => ?_)
    fun flag old => .inl (by rwa [Flags.isRaised, raised] at old)
  obtain ⟨t, found, head⟩ := bears
  simp only [held, Function.update_self] at found
  obtain ⟨y, there, rfl⟩ := Option.map_eq_some_iff.1 found
  exact .inr (.inr (new y there flag head))

theorem attach_made (m : Marks) (value : Nat) (x : Mark) (t : Token) (o : Owner) :
    (m.attach value x t o).flags.made = m.flags.made := by
  simp only [attach]
  split
  · exact Flags.made_freeze ..
  · rfl

theorem attach_raised {value : Nat} {x : Mark} {t : Token} {o : Owner}
    (raised : (m.attach value x t o).flags.isRaised flag = true) :
    m.flags.isRaised flag = true ∨ t.flags.head? = some flag := by
  simp only [attach] at raised
  split at raised
  · exact ((Flags.isRaised_freeze ..).1 raised).symm
  · exact .inl raised

/-- The value of a new field has a token for a moment, and then one below that of the record. -/
theorem add_advances {r : Record} (found : m.records slot = some r) (value : Nat) (field : Field) :
    Advances none m (m.add slot value field r) := by
  have made : (m.add slot value field r).flags.made = m.flags.made + 2 := attach_made ..
  have new (flag : Nat) (head : ((m.flags.made + 1) :: r.token.flags).head? = some flag) :
      m.flags.made ≤ flag ∧ flag < m.flags.made + 2 := by
    cases head
    exact ⟨Nat.le_succ _, Nat.lt_succ_self _⟩
  refine .of_held (.value value) (by rw [made]; omega) (held_value value
    (fun i other => Function.update_of_ne other ..) (fun i => ?_) rfl) (fun flag bears => ?_)
    fun flag raised => ?_
  · simp only [add, attach, Function.update_apply]
    split
    · next same =>
      rw [same, found]
      rfl
    · rfl
  · obtain ⟨t, there, head⟩ := bears
    simp only [held, add, attach, Function.update_self, Option.map_some, Option.some_inj] at there
    subst there
    rw [made]
    exact .inr (.inr (new flag head))
  · rw [made]
    exact (attach_raised raised).imp_right fun head => .inr (new flag head)

theorem token?_head {source : TokenSource} {p : Token × Flags} (made : m.token? source = some p) :
    m.flags.made ≤ p.2.made ∧ p.2.raised = m.flags.raised ∧
      ∀ flag, p.1.flags.head? = some flag → (∃ slot, m.Bears (.token slot) flag) ∨
        (m.flags.made ≤ flag ∧ flag < p.2.made) := by
  cases source with
  | fresh =>
    cases made
    exact ⟨Nat.le_succ _, rfl, fun flag head =>
      .inr (fresh_head rfl (Nat.le_refl _) (Nat.lt_succ_self _) flag head)⟩
  | bare =>
    cases made
    exact ⟨Nat.le_refl _, rfl, fun flag head => by cases head⟩
  | childOf parent =>
    obtain ⟨t, -, rfl⟩ := Option.map_eq_some_iff.1 made
    exact ⟨Nat.le_succ _, rfl, fun flag head =>
      .inr (fresh_head rfl (Nat.le_refl _) (Nat.lt_succ_self _) flag head)⟩
  | copyOf other =>
    obtain ⟨t, there, rfl⟩ := Option.map_eq_some_iff.1 made
    exact ⟨Nat.le_refl _, rfl, fun flag head => .inl ⟨other, t, there, head⟩⟩

theorem token_advances {source : TokenSource} {p : Token × Flags} (made : m.token? source = some p)
    (slot : Nat) :
    Advances none m { m with flags := p.2, tokens := update m.tokens slot (some p.1) } := by
  obtain ⟨more, raised, new⟩ := token?_head made
  refine .of_held (.token slot) more (fun h other => ?_) (fun flag bears => ?_)
    fun flag old => .inl (by rwa [Flags.isRaised, raised] at old)
  · cases h with
    | value i | record i => rfl
    | token i => exact Function.update_of_ne (fun same => other (congrArg _ same)) ..
  · obtain ⟨t, there, head⟩ := bears
    simp only [held, Function.update_self, Option.some_inj] at there
    subst there
    exact .inr (new flag head)

theorem step_advances (m : Marks) (t : ArrayStep) : Advances t.freezes m (m.step t) := by
  cases t with
  | freezeRecord slot => exact freeze_advances (m.records slot) Record.token rfl
  | freezeToken slot => exact freeze_advances (m.tokens slot) id Option.map_id'.symm
  | setImmutable value => exact freeze_advances (m.values value) Mark.token rfl
  | record slot name =>
    refine .of_held (.record slot) (Nat.le_succ _) (fun h other => ?_) (fun flag bears => ?_)
      fun _ => .inl
    · cases h with
      | value i | token i => rfl
      | record i =>
        exact congrArg (Option.map Record.token)
          (Function.update_of_ne (fun same => other (congrArg Holder.record same)) ..)
    · obtain ⟨t, found, head⟩ := bears
      simp only [held, step, record, Function.update_self, Option.map_some, Option.some_inj]
        at found
      subst found
      exact .inr (.inr (fresh_head rfl (Nat.le_refl _) (Nat.lt_succ_self _) flag head))
  | create value field pool =>
    refine place_advances value _ (Nat.le_succ _) rfl fun y there flag head => ?_
    cases there
    exact fresh_head rfl (Nat.le_refl _) (Nat.lt_succ_self _) flag head
  | drop value => exact place_advances value none (Nat.le_refl _) rfl fun y there => by cases there
  | add slot value field =>
    simp only [step]
    cases found : m.records slot with
    | none => exact .refl _ m
    | some r =>
      exact add_advances found value field
  | attach value token watch offset =>
    simp only [step]
    split
    · next x t id there named heard =>
      refine .of_held (.value value) ?_ (held_value value
        (fun i other => Function.update_of_ne other ..) (fun i => rfl) rfl) (fun flag bears => ?_)
        fun flag raised => ?_
      · exact Nat.le_of_eq (attach_made ..).symm
      · obtain ⟨u, stands, head⟩ := bears
        simp only [held, attach, Function.update_self, Option.map_some, Option.some_inj] at stands
        subst stands
        exact .inr (.inl ⟨token, t, named, head⟩)
      · exact (attach_raised raised).imp_right fun head => .inl ⟨_, rfl, t, named, head⟩
    · exact .refl _ m
  | token slot source =>
    simp only [step]
    cases made : m.token? source with
    | none => exact .refl _ m
    | some p => exact token_advances made slot
  | tracker slot =>
    exact ⟨Nat.le_refl _, fun h _ bears => .inl (by cases h <;> exact bears), fun _ => .inl⟩
  | post watch offset | clear watch =>
    simp only [step]
    cases m.watch? watch with
    | none => exact .refl _ m
    | some id => exact advances_trackers ..
  | put value | replace value | install value | deserialize value =>
    simp only [step]
    rw [tell_eq]
    exact advances_trackers ..
  | _ => exact .refl _ m

end Marks

def ArrayMove.freezes : ArrayMove → Option Holder
  | .step t => t.freezes
  | _ => none

theorem ArrayMove.eq_of_freezes {t : ArrayMove} {slot : Nat}
    (freezes : t.freezes = some (.record slot)) : t = .step (.freezeRecord slot) := by
  cases t with
  | step t =>
    cases t <;> cases freezes
    rfl
  | _ => cases freezes

theorem Account.offsets_move {a : Account} {slot i offset : Nat} {t : ArrayMove}
    (holds : (a.move slot t).offsets i = some offset) :
    (∃ field, t = .step (.add slot i field)) ∨
      (a.offsets i = some offset ∧ t.refills ≠ some i ∧
        ∀ token watch place, t ≠ .step (.attach i token watch place)) := by
  have lost {value : Nat} (holds : (a.lose value).offsets i = some offset) :
      i ≠ value ∧ a.offsets i = some offset := by
    simp only [lose, Function.update_apply] at holds
    split at holds
    · cases holds
    · next other => exact ⟨other, holds⟩
  have renewed (value : Nat) : (a.renew value).offsets = a.offsets := by
    unfold renew
    cases a.offsets value <;> rfl
  have kept (holds : a.offsets i = some offset) (refills : t.refills = none)
      (other : ∀ token watch place, t ≠ .step (.attach i token watch place)) :
      (∃ field, t = .step (.add slot i field)) ∨
        (a.offsets i = some offset ∧ t.refills ≠ some i ∧
          ∀ token watch place, t ≠ .step (.attach i token watch place)) :=
    .inr ⟨holds, fun same => (by cases refills.symm.trans same), other⟩
  cases t with
  | step t =>
    cases t with
    | add record value field =>
      simp only [move] at holds
      split at holds
      · next same =>
        subst same
        simp only [add, Function.update_apply] at holds
        split at holds
        · next same =>
          subst same
          exact .inl ⟨field, rfl⟩
        · next other =>
          exact .inr ⟨holds, fun same => other (Option.some.inj same).symm,
            fun _ _ _ same => by cases same⟩
      · obtain ⟨other, old⟩ := lost holds
        exact .inr ⟨old, fun same => other (Option.some.inj same).symm,
          fun _ _ _ same => by cases same⟩
    | create value | drop value =>
      obtain ⟨other, old⟩ := lost holds
      exact .inr ⟨old, fun same => other (Option.some.inj same).symm,
        fun _ _ _ same => by cases same⟩
    | attach value =>
      obtain ⟨other, old⟩ := lost holds
      refine kept old rfl fun token watch place same => ?_
      cases same
      exact other rfl
    | put value | replace value | install value | deserialize value =>
      simp only [move, renewed] at holds
      exact kept holds rfl fun _ _ _ same => by cases same
    | clear watch =>
      cases watch with
      | record record =>
        simp only [move] at holds
        split at holds <;> exact kept holds rfl fun _ _ _ same => by cases same
      | tracker => exact kept holds rfl fun _ _ _ same => by cases same
    | _ => exact kept holds rfl fun _ _ _ same => by cases same
  | decode value | pass value =>
    simp only [move, renewed] at holds
    exact kept holds rfl fun _ _ _ same => by cases same
  | build | forget => exact kept holds rfl fun _ _ _ same => by cases same

namespace Marks

/-- All own flags have been made, and so have all that are raised. -/
structure Known (m : Marks) : Prop where
  bears : ∀ h flag, m.Bears h flag → flag < m.flags.made
  raised : ∀ flag, m.flags.isRaised flag = true → flag < m.flags.made

variable {m n : Marks} {slot own : Nat} {frozen : Prop} {a : Account}

theorem Known.advance {h : Option Holder} (known : m.Known) (step : Advances h m n) : n.Known where
  bears i flag bears := by
    rcases step.bears i flag bears with old | ⟨_, old⟩ | ⟨-, new⟩
    · exact Nat.lt_of_lt_of_le (known.bears _ _ old) step.made
    · exact Nat.lt_of_lt_of_le (known.bears _ _ old) step.made
    · exact new
  raised flag raised := by
    rcases step.raised flag raised with old | ⟨_, -, old⟩ | ⟨-, new⟩
    · exact Nat.lt_of_lt_of_le (known.raised _ old) step.made
    · exact Nat.lt_of_lt_of_le (known.bears _ _ old) step.made
    · exact new

theorem move_advances (m : Marks) (t : ArrayMove) : Advances t.freezes m (m.move t) := by
  cases t with
  | step t => exact step_advances m t
  | decode value | pass value =>
    simp only [move]
    rw [tell_eq]
    exact advances_trackers ..
  | build | forget => exact .refl _ m

theorem Known.run (known : m.Known) (moves : List (ArrayMove × Bool)) : (m.run moves).Known := by
  induction moves generalizing m with
  | nil => exact known
  | cons t moves ih =>
    obtain ⟨t, done⟩ := t
    cases done with
    | false => exact ih known
    | true => exact ih (known.advance (move_advances m t))

/-- The record in a slot has a flag that no one else has first, and its fields have it behind flags
of their own. -/
structure Guards (slot own : Nat) (frozen : Prop) (a : Account) (m : Marks) : Prop where
  known : m.Known
  record : ∃ r, m.records slot = some r ∧ r.token.flags = [own]
  alone : ∀ h, h ≠ .record slot → ¬m.Bears h own
  raised : m.flags.isRaised own = true ↔ frozen
  fields : ∀ i offset, a.offsets i = some offset →
    ∃ x key, m.values i = some x ∧ x.token.flags = [key, own]
  apart : ∀ i j p q key, a.offsets i = some p → a.offsets j = some q → i ≠ j →
    m.Bears (.value i) key → ¬m.Bears (.value j) key

theorem Known.guards (known : m.Known) (slot : Nat) (name : String) :
    (m.record slot name).Guards slot m.flags.made False {} where
  known := known.advance (step_advances m (.record slot name))
  record := ⟨_, Function.update_self .., rfl⟩
  alone h other := by
    rintro ⟨t, found, head⟩
    have old : m.held h = some t := by
      cases h with
      | value i | token i => exact found
      | record i =>
        have apart : i ≠ slot := fun same => other (congrArg _ same)
        simp only [held, Marks.record, Function.update_of_ne apart] at found
        exact found
    exact Nat.lt_irrefl _ (known.bears h _ ⟨t, old, head⟩)
  raised := ⟨fun raised => Nat.lt_irrefl _ (known.raised _ raised), nofun⟩
  fields := nofun
  apart := nofun

theorem move_raised (m : Marks) (t : ArrayMove) {flag : Nat}
    (raised : m.flags.isRaised flag = true) : (m.move t).flags.isRaised flag = true := by
  have single (f : Flags) : f.isImmutable ⟨[flag]⟩ = f.isRaised flag := by
    simp [Flags.isImmutable]
  rw [← single] at raised ⊢
  cases t with
  | step t => exact step_flags raised t
  | decode value | pass value =>
    simp only [move]
    rw [tell_eq]
    exact raised
  | build | forget => exact raised

theorem move_values (m : Marks) (t : ArrayMove) {i : Nat} (stays : t.refills ≠ some i)
    (apart : ∀ token watch place, t ≠ .step (.attach i token watch place)) :
    (m.move t).values i = m.values i := by
  cases t with
  | step t => exact step_values t stays fun token watch place same => apart _ _ _ (congrArg _ same)
  | decode value | pass value =>
    simp only [move]
    rw [tell_eq]
  | build | forget => rfl

theorem move_record (m : Marks) (t : ArrayMove) {r : Record} (found : m.records slot = some r)
    (stays : ∀ name, t ≠ .step (.record slot name)) :
    ∃ r', (m.move t).records slot = some r' ∧ r'.token = r.token := by
  cases t with
  | step t =>
    cases places : t.places with
    | false =>
      obtain ⟨flags, tokens, trackers, same, -⟩ := m.step_quiet t places
      refine ⟨r, ?_, rfl⟩
      simp only [move, same]
      exact found
    | true =>
      cases t with
      | tracker | create | drop => exact ⟨r, found, rfl⟩
      | record other name =>
        have apart : slot ≠ other := fun same => stays name (by rw [same])
        exact ⟨r, (Function.update_of_ne apart ..).trans found, rfl⟩
      | add other value field =>
        simp only [move, step]
        cases there : m.records other with
        | none => exact ⟨r, found, rfl⟩
        | some r' =>
          by_cases same : slot = other
          · subst same
            cases found.symm.trans there
            exact ⟨_, Function.update_self .., rfl⟩
          · exact ⟨r, (Function.update_of_ne same ..).trans found, rfl⟩
      | attach value token watch offset =>
        refine ⟨r, ?_, rfl⟩
        simp only [move, step]
        split <;> exact found
      | _ => cases places
  | decode value | pass value =>
    refine ⟨r, ?_, rfl⟩
    simp only [move]
    rw [tell_eq]
    exact found
  | build | forget => exact ⟨r, found, rfl⟩

theorem Guards.bears (h : m.Guards slot own frozen a) : m.Bears (.record slot) own := by
  obtain ⟨r, found, flags⟩ := h.record
  exact ⟨r.token, congrArg (Option.map Record.token) found, by rw [flags]; rfl⟩

/-- A field that is added has a flag that no one has had. -/
theorem Guards.added (h : m.Guards slot own frozen a) (value : Nat) (field : Field) :
    ∃ x, (m.move (.step (.add slot value field))).values value = some x ∧
      x.token.flags = [m.flags.made + 1, own] := by
  obtain ⟨r, found, flags⟩ := h.record
  simp only [move, step, found, Option.elim_some]
  exact ⟨_, Function.update_self .., congrArg (List.cons (m.flags.made + 1)) flags⟩

theorem Guards.move (h : m.Guards slot own frozen a) (t : ArrayMove)
    (stays : ∀ name, t ≠ .step (.record slot name)) :
    (m.move t).Guards slot own (frozen ∨ t = .step (.freezeRecord slot)) (a.move slot t) := by
  have step := move_advances m t
  have counted := h.known.bears _ _ h.bears
  have alone (i : Holder) (other : i ≠ .record slot) : ¬(m.move t).Bears i own := by
    intro bears
    rcases step.bears i own bears with old | ⟨_, old⟩ | ⟨new, -⟩
    · exact h.alone i other old
    · exact h.alone (.token _) nofun old
    · exact absurd counted (Nat.not_lt_of_le new)
  have kept {i offset : Nat} (old : a.offsets i = some offset) (holds : t.refills ≠ some i)
      (apart : ∀ token watch place, t ≠ .step (.attach i token watch place)) {key : Nat}
      (bears : (m.move t).Bears (.value i) key) : m.Bears (.value i) key := by
    obtain ⟨u, found, head⟩ := bears
    simp only [held, move_values m t holds apart] at found
    exact ⟨u, found, head⟩
  refine ⟨h.known.advance step, ?_, alone, ⟨fun raised => ?_, ?_⟩, fun i offset holds => ?_,
    fun i j p q key holds holds' other bears bears' => ?_⟩
  · obtain ⟨r, found, flags⟩ := h.record
    obtain ⟨r', found', same⟩ := move_record m t found stays
    exact ⟨r', found', same ▸ flags⟩
  · rcases step.raised own raised with old | ⟨i, freezes, bears⟩ | ⟨new, -⟩
    · exact .inl (h.raised.1 old)
    · by_cases mine : i = .record slot
      · exact .inr (ArrayMove.eq_of_freezes (mine ▸ freezes))
      · exact absurd bears (h.alone i mine)
    · exact absurd counted (Nat.not_lt_of_le new)
  · rintro (old | rfl)
    · exact move_raised m t (h.raised.2 old)
    · obtain ⟨r, found, flags⟩ := h.record
      simp only [Marks.move, Marks.step, found, Option.elim_some, freeze]
      exact (Flags.isRaised_freeze ..).2 (.inl (by rw [flags]; rfl))
  · rcases Account.offsets_move holds with ⟨field, rfl⟩ | ⟨old, holds, apart⟩
    · obtain ⟨x, found, flags⟩ := h.added i field
      exact ⟨x, _, found, flags⟩
    · rw [move_values m t holds apart]
      exact h.fields i offset old
  · have fresh {i : Nat} {field : Field} (added : t = .step (.add slot i field))
        (bears : (m.move t).Bears (.value i) key) : m.flags.made ≤ key := by
      subst added
      obtain ⟨x, found, flags⟩ := h.added i field
      obtain ⟨u, there, head⟩ := bears
      simp only [held, found, Option.map_some, Option.some_inj] at there
      subst there
      rw [flags] at head
      cases head
      exact Nat.le_succ _
    rcases Account.offsets_move holds with ⟨field, added⟩ | ⟨old, stays, apart⟩
    · rcases Account.offsets_move holds' with ⟨field', added'⟩ | ⟨old', stays', apart'⟩
      · rw [added] at added'
        cases added'
        exact other rfl
      · exact Nat.not_lt_of_le (fresh added bears)
          (h.known.bears _ _ (kept old' stays' apart' bears'))
    · rcases Account.offsets_move holds' with ⟨field', added'⟩ | ⟨old', stays', apart'⟩
      · exact Nat.not_lt_of_le (fresh added' bears')
          (h.known.bears _ _ (kept old stays apart bears))
      · exact h.apart i j p q key old old' other (kept old stays apart bears)
          (kept old' stays' apart' bears')

theorem Guards.isImmutable_freeze (h : m.Guards slot own frozen a) {i p : Nat}
    (holds : a.offsets i = some p) {x : Mark} (found : m.values i = some x) :
    (∀ r, m.records slot = some r →
      (m.freeze x.token).flags.isImmutable r.token = m.flags.isImmutable r.token) ∧
    ∀ j q y, j ≠ i → a.offsets j = some q → m.values j = some y →
      (m.freeze x.token).flags.isImmutable y.token = m.flags.isImmutable y.token := by
  have same {t : Token} (other : ∀ flag ∈ t.flags, x.token.flags.head? ≠ some flag) :
      (m.freeze x.token).flags.isImmutable t = m.flags.isImmutable t := by
    rw [Bool.eq_iff_iff, Flags.isImmutable_eq_true_iff, Flags.isImmutable_eq_true_iff]
    refine exists_congr fun flag => and_congr_right fun inside => ?_
    exact (Flags.isRaised_freeze ..).trans (or_iff_right (other flag inside))
  have bears {j : Nat} {y : Mark} (there : m.values j = some y) {flag : Nat}
      (head : y.token.flags.head? = some flag) : m.Bears (.value j) flag :=
    ⟨y.token, congrArg (Option.map Mark.token) there, head⟩
  refine ⟨fun r there => same fun flag inside head => ?_, fun j q y other holds' there =>
    same fun flag inside head => ?_⟩
  · obtain ⟨r', found', flags⟩ := h.record
    cases there.symm.trans found'
    rw [flags, List.mem_singleton] at inside
    exact h.alone (.value i) nofun (bears found (inside ▸ head))
  · obtain ⟨y', key, found', flags⟩ := h.fields j q holds'
    cases there.symm.trans found'
    rw [flags, List.mem_cons, List.mem_singleton] at inside
    rcases inside with rfl | rfl
    · exact h.apart j i q p flag holds' holds other (bears there (by rw [flags]; rfl))
        (bears found head)
    · exact h.alone (.value i) nofun (bears found head)

end Marks

namespace ArrayState

variable {s : ArrayState} {a : Account} {slot own : Nat} {frozen : Prop}

theorem known_start (system : System) : (start system).marks.Known where
  bears h flag := by
    rintro ⟨t, found, -⟩
    cases h <;> cases found
  raised := nofun

theorem succeeds_freezeRecord (h : s.marks.Guards slot own frozen a) :
    s.succeeds (.step (.freezeRecord slot)) = true := by
  obtain ⟨r, found, -⟩ := h.record
  have there : s.records.get? slot = some r := found
  simp only [succeeds, move, step, there]
  rfl

theorem moveAll_guards (h : s.marks.Guards slot own frozen a) (moves : List ArrayMove)
    (stays : ∀ t ∈ moves, ∀ name, t ≠ .step (.record slot name)) :
    (s.moveAll moves).marks.Guards slot own (frozen ∨ .step (.freezeRecord slot) ∈ moves)
      (a.run slot (s.verdicts moves)) := by
  induction moves generalizing s a frozen with
  | nil =>
    simp only [List.not_mem_nil, or_false]
    exact h
  | cons t moves ih =>
    have moved : (Outcome.state (move t s)).marks =
        if s.succeeds t then s.marks.move t else s.marks := move_moves s t
    have next : (Outcome.state (move t s)).marks.Guards slot own
        (frozen ∨ t = .step (.freezeRecord slot)) (if s.succeeds t then a.move slot t else a) := by
      rw [moved]
      cases done : s.succeeds t with
      | true => exact h.move t (stays t List.mem_cons_self)
      | false =>
        have other : t ≠ .step (.freezeRecord slot) := by
          rintro rfl
          rw [succeeds_freezeRecord h] at done
          cases done
        simpa [other] using h
    have rest := ih next fun u member => stays u (List.mem_cons_of_mem _ member)
    simp only [List.mem_cons, ← or_assoc, @eq_comm _ (ArrayMove.step _) t]
    exact rest

theorem moveAll_record_guards (system : System) (before : List ArrayMove) (slot : Nat)
    (name : String) (later : List ArrayMove)
    (stays : ∀ t ∈ later, ∀ other, t ≠ .step (.record slot other)) :
    let s₀ := (start system).moveAll (before ++ [.step (.record slot name)])
    ∃ own, (s₀.moveAll later).marks.Guards slot own (.step (.freezeRecord slot) ∈ later)
      (Account.run slot {} (s₀.verdicts later)) := by
  intro s₀
  have known : ((start system).moveAll before).marks.Known := by
    rw [moveAll_marks]
    exact (known_start system).run _
  have last : s₀.marks = ((start system).moveAll before).marks.record slot name :=
    (congrArg marks (moveAll_append ..)).trans
      (move_moves ((start system).moveAll before) (.step (.record slot name)))
  have created : s₀.marks.Guards slot _ False {} := last ▸ known.guards slot name
  have guards := moveAll_guards created later stays
  rw [false_or] at guards
  exact ⟨_, guards⟩

theorem marks_setImmutable {i : Nat} {x : Mark} (found : s.marks.values i = some x) :
    (s.moveAll [.step (.setImmutable i)]).marks = s.marks.freeze x.token := by
  obtain ⟨v, there, rfl⟩ := Option.map_eq_some_iff.1 found
  have moved := move_moves s (.step (.setImmutable i))
  have done : Succeeds (move (.step (.setImmutable i)) s) = true := by
    simp only [move, step, there]
    rfl
  rw [Moves, if_pos done] at moved
  simp only [Marks.move, Marks.step, found, Option.elim_some] at moved
  exact moved

/-- A token is immutable just if it, or one that it descends from, or a clone of one of these has
been frozen, and freezing a token is not seen at its ancestors and siblings nor anywhere else but
below it. So a record that is frozen freezes all its fields, those that are added later too, and a
field that is made immutable freezes neither the record nor another field. -/
theorem freezing_reaches_below :
    (∀ steps : List TokenStep,
      let g := Grove.run steps
      let f := Family.run steps
      (∀ i t, g.tokens[i]? = some t →
        (g.flags.isImmutable t = true ↔ ∃ j ∈ f.frozen, f.Under i j)) ∧
      ∀ j,
        (∀ i t, g.tokens[i]? = some t → ¬f.Under i j →
          (g.step (.freeze j)).flags.isImmutable t = g.flags.isImmutable t) ∧
        (∀ i a, f.Descends j a → f.Clones a i → ¬f.Under i j) ∧
        ∀ i, f.Siblings i j → ¬f.Under i j) ∧
    ∀ (system : System) (before : List ArrayMove) (slot : Nat) (name : String)
      (later : List ArrayMove), (∀ t ∈ later, ∀ other, t ≠ .step (.record slot other)) →
      let s₀ := (start system).moveAll (before ++ [.step (.record slot name)])
      let a := Account.run slot {} (s₀.verdicts later)
      let s := s₀.moveAll later
      ∃ r, s.records.get? slot = some r ∧
        (r.isImmutable s.world = true ↔ .step (.freezeRecord slot) ∈ later) ∧
        ∀ i p, a.offsets i = some p → ∃ v, s.values.get? i = some v ∧
          (.step (.freezeRecord slot) ∈ later → v.isImmutable s.world = true) ∧
          let t := s.moveAll [.step (.setImmutable i)]
          r.isImmutable t.world = r.isImmutable s.world ∧
          ∀ j q u, j ≠ i → a.offsets j = some q → s.values.get? j = some u →
            u.isImmutable t.world = u.isImmutable s.world := by
  constructor
  · intro steps g f
    have follows := Grove.follows_run steps
    exact ⟨fun i t found => follows.isImmutable_iff found, fun j =>
      ⟨fun i t found apart => follows.isImmutable_apart found apart,
        fun i a descends clones => follows.not_under_of_descends descends clones,
        fun i siblings => follows.not_under_of_siblings siblings⟩⟩
  · intro system before slot name later stays s₀ a s
    obtain ⟨own, guards⟩ := moveAll_record_guards system before slot name later stays
    obtain ⟨r, found, flags⟩ := guards.record
    have shown : r.isImmutable s.world = s.marks.flags.isRaised own := by
      simp only [Record.isImmutable, Flags.isImmutable, flags, List.any_cons, List.any_nil,
        Bool.or_false]
      rfl
    refine ⟨r, found, by rw [shown]; exact guards.raised, fun i p holds => ?_⟩
    obtain ⟨x, key, there, marked⟩ := guards.fields i p holds
    obtain ⟨v, stands, rfl⟩ := Option.map_eq_some_iff.1 there
    obtain ⟨record, others⟩ := guards.isImmutable_freeze holds there
    have frozen := congrArg Marks.flags (marks_setImmutable there)
    refine ⟨v, stands, fun done => ?_, ?_, fun j q u other holds' there' => ?_⟩
    · refine (Flags.isImmutable_eq_true_iff ..).2 ⟨own, ?_, guards.raised.2 done⟩
      exact marked ▸ List.mem_cons_of_mem _ List.mem_cons_self
    · exact (congrArg (Flags.isImmutable · r.token) frozen).trans (record r found)
    · exact (congrArg (Flags.isImmutable · u.token) frozen).trans
        (others j q u.mark other holds' (congrArg (Option.map FieldValue.mark) there'))

/-- A child of a token is made after a clone of the token was frozen, and a field is added after
its record was frozen. Before that one of two fields of the record is made immutable. -/
theorem freezing_reaches_below_later :
    let steps : List TokenStep := [.new, .child 0, .clone 1, .freeze 2, .child 1]
    let early : List ArrayMove := [.step (.add 0 0 ⟨"x", .int⟩), .step (.add 0 1 ⟨"y", .int⟩)]
    let later : List ArrayMove := early ++ [.step (.freezeRecord 0), .step (.add 0 2 ⟨"z", .int⟩)]
    let s₀ := (start .machine).moveAll [.step (.record 0 "r")]
    let s := s₀.moveAll early
    (∃ t, (Grove.run steps).tokens[3]? = some t ∧ (Grove.run steps).flags.isImmutable t = true ∧
      (Family.run steps).Under 3 2) ∧
    (∃ t, (Grove.run steps).tokens[0]? = some t ∧
      (Grove.run steps).flags.isImmutable t = false) ∧
    (∃ v, (s₀.moveAll later).values.get? 2 = some v ∧
      v.isImmutable (s₀.moveAll later).world = true) ∧
    ∃ r u, s.records.get? 0 = some r ∧ s.values.get? 1 = some u ∧
      r.isImmutable (s.moveAll [.step (.setImmutable 0)]).world = false ∧
      u.isImmutable (s.moveAll [.step (.setImmutable 0)]).world = false := by
  intro steps early later s₀ s
  obtain ⟨forest, sessions⟩ := freezing_reaches_below
  have kept : ∀ t ∈ later, ∀ name, t ≠ .step (.record 0 name) := by simp [later, early]
  have third : (Account.run 0 {} (s₀.verdicts later)).offsets 2 = some 3 := by decide +kernel
  have first : (Account.run 0 {} (s₀.verdicts early)).offsets 0 = some 1 := by decide +kernel
  have second : (Account.run 0 {} (s₀.verdicts early)).offsets 1 = some 2 := by decide +kernel
  refine ⟨?_, ⟨_, rfl, rfl⟩, ?_, ?_⟩
  · obtain ⟨j, frozen, under⟩ := ((forest steps).1 3 _ rfl).1 rfl
    cases List.mem_singleton.1 frozen
    exact ⟨_, rfl, rfl, under⟩
  · obtain ⟨r, -, -, fields⟩ := sessions .machine [] 0 "r" later kept
    obtain ⟨v, found, frozen, -⟩ := fields 2 3 third
    exact ⟨v, found, frozen (by simp [later])⟩
  · obtain ⟨r, found, frozen, fields⟩ := sessions .machine [] 0 "r" early fun t member =>
      kept t (List.mem_append_left _ member)
    obtain ⟨-, -, -, record, others⟩ := fields 0 1 first
    obtain ⟨u, there, -⟩ := fields 1 2 second
    have free : r.isImmutable s.world = false :=
      Bool.eq_false_iff.2 fun immutable => by simpa [early] using frozen.1 immutable
    have changes : ∀ u ∈ s.values.get? 1, u.isImmutable s.world = false := by decide +kernel
    exact ⟨r, u, found, there, record.trans free,
      (others 1 2 u (by decide) second there).trans (changes u there)⟩

end ArrayState

end ArrayStore.Session
