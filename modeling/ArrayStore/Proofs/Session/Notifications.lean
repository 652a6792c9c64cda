import ArrayStore.Proofs.Record.Changes
import ArrayStore.Proofs.Session.ArrayLists
import ArrayStore.Proofs.Session.Marks

/-! What a record hears of its fields.
An account is kept of a record from outside: which slot holds which of its fields,
how many new contents they have had, and which have had one since the changes
were last forgotten. Main statement: after any run of moves the tracker of the
record says just what the account does, so that nothing else is ever heard. -/

namespace ArrayStore.Session

open Function (update)

/-- What has happened to a record and to its fields. -/
structure Account where
  /-- The fields in the order in which they were added. -/
  fields : List Field := []
  /-- The offset of the field that a slot of values holds, if it holds one. -/
  offsets : Nat → Option Nat := fun _ => none
  /-- How often a field has had a new content. -/
  posts : Nat := 0
  /-- The fields that have had one since the changes were last forgotten. -/
  changed : Finset Nat := ∅

namespace Account

/-- The offsets count from 1. -/
def add (a : Account) (value : Nat) (field : Field) : Account :=
  { a with
    fields := a.fields ++ [field]
    offsets := update a.offsets value (some (a.fields.length + 1)) }

def lose (a : Account) (value : Nat) : Account :=
  { a with offsets := update a.offsets value none }

def renew (a : Account) (value : Nat) : Account :=
  (a.offsets value).elim a fun offset =>
    { a with posts := a.posts + 1, changed := insert offset a.changed }

/-- What a move that succeeds is to the record in a slot. -/
def move (slot : Nat) (a : Account) : ArrayMove → Account
  | .step (.add record value field) => if record = slot then a.add value field else a.lose value
  | .step (.create value ..) | .step (.drop value) | .step (.attach value ..) => a.lose value
  | .step (.put value _) | .step (.replace value _) | .step (.install value _)
  | .step (.deserialize value ..) | .decode value .. | .pass value _ => a.renew value
  | .step (.clear (.record record)) => if record = slot then { a with changed := ∅ } else a
  | _ => a

def run (slot : Nat) (a : Account) (moves : List (ArrayMove × Bool)) : Account :=
  moves.foldl (fun a t => if t.2 then a.move slot t.1 else a) a

end Account

/-- Whether a move goes to the tracker of a record other than through a field that was added to
it, or puts another record in its place. -/
def ArrayMove.bypasses (slot : Nat) : ArrayMove → Bool
  | .step (.record other _) | .step (.post (.record other) _)
  | .step (.attach _ _ (.record other) _) => other = slot
  | _ => false

namespace Marks

/-- All trackers that are known have been made. -/
structure Made (m : Marks) : Prop where
  records : ∀ i r, m.records i = some r → r.tracker < m.tracked
  watches : ∀ i id, m.watches i = some id → id < m.tracked
  owners : ∀ i x o, m.values i = some x → x.owner = some o → o.tracker < m.tracked

/-- The tracker of the record in a slot agrees with an account, and no one else goes to it. -/
structure Agrees (slot : Nat) (k : TrackerId) (m : Marks) (a : Account) : Prop where
  record : ∃ r, m.records slot = some r ∧ r.tracker = k ∧ r.fields = a.fields
  heard : ∃ t, m.trackers k = some t ∧ t.posts = a.posts ∧
    ∀ offset, t.isChanged offset = true ↔ offset ∈ a.changed
  owned : ∀ i offset, a.offsets i = some offset ↔
    ∃ x, m.values i = some x ∧ x.owner = some ⟨k, offset⟩
  listed : ∀ i offset x, a.offsets i = some offset → m.values i = some x →
    0 < offset ∧ a.fields[offset - 1]? = some x.field
  apart : ∀ i j offset, a.offsets i = some offset → a.offsets j = some offset → i = j
  made : k < m.tracked
  records : ∀ i r, i ≠ slot → m.records i = some r → r.tracker ≠ k
  watches : ∀ i id, m.watches i = some id → id ≠ k

variable {m : Marks} {a : Account} {slot k : Nat}

theorem Agrees.watch (h : m.Agrees slot k a) {watch : Watch} {id : TrackerId}
    (heard : m.watch? watch = some id) (other : watch ≠ .record slot) : id ≠ k := by
  cases watch with
  | record i =>
    obtain ⟨r, found, rfl⟩ := Option.map_eq_some_iff.1 heard
    exact h.records i r (fun same => other (congrArg Watch.record same)) found
  | tracker i => exact h.watches i id heard

theorem Agrees.withFlags (h : m.Agrees slot k a) (flags : Flags) (tokens : Nat → Option Token) :
    Agrees slot k { m with flags, tokens } a :=
  ⟨h.record, h.heard, h.owned, h.listed, h.apart, h.made, h.records, h.watches⟩

theorem Agrees.quiet (h : m.Agrees slot k a) (t : ArrayStep) (places : t.places = false)
    (tells : t.tells = false) : (m.step t).Agrees slot k a := by
  obtain ⟨flags, tokens, trackers, same, -, kept⟩ := m.step_quiet t places
  rw [same, kept tells]
  exact h.withFlags flags tokens

theorem Agrees.onOther (h : m.Agrees slot k a) {id : TrackerId} (other : id ≠ k)
    (f : Tracker → Tracker) : (m.onTracker id f).Agrees slot k a := by
  obtain ⟨t, found, heard⟩ := h.heard
  exact ⟨h.record, ⟨t, (if_neg other.symm).trans found, heard⟩, h.owned, h.listed, h.apart, h.made,
    h.records, h.watches⟩

theorem Agrees.newTracker (h : m.Agrees slot k a) : m.newTracker.Agrees slot k a := by
  obtain ⟨t, found, heard⟩ := h.heard
  exact ⟨h.record, ⟨t, (Function.update_of_ne (Nat.ne_of_lt h.made) ..).trans found, heard⟩,
    h.owned, h.listed, h.apart, Nat.lt_succ_of_lt h.made, h.records, h.watches⟩

theorem Agrees.lose (h : m.Agrees slot k a) (value : Nat) {x : Option Mark}
    (other : ∀ y offset, x = some y → y.owner ≠ some ⟨k, offset⟩) :
    Agrees slot k { m with values := update m.values value x } (a.lose value) := by
  refine ⟨h.record, h.heard, fun i offset => ?_, fun i offset y => ?_, fun i j offset => ?_, h.made,
    h.records, h.watches⟩
  · simp only [Account.lose, Function.update_apply]
    split
    · refine ⟨fun none => (by cases none), fun ⟨y, found, own⟩ => absurd own (other y offset found)⟩
    · exact h.owned i offset
  · simp only [Account.lose, Function.update_apply]
    split
    · exact fun none => (by cases none)
    · exact h.listed i offset y
  · simp only [Account.lose, Function.update_apply]
    split
    · exact fun none => (by cases none)
    · split
      · exact fun _ none => (by cases none)
      · exact h.apart i j offset

theorem Agrees.tell (h : m.Agrees slot k a) (value : Nat) :
    (m.tell value).Agrees slot k (a.renew value) := by
  have foreign : (∀ offset, (m.values value).bind Mark.owner ≠ some ⟨k, offset⟩) →
      a.renew value = a := fun other => by
    have none : a.offsets value = none := by
      refine Option.eq_none_iff_forall_ne_some.2 fun offset found => ?_
      obtain ⟨x, there, own⟩ := (h.owned value offset).1 found
      exact other offset (by rw [there]; exact own)
    rw [Account.renew, none]
    rfl
  unfold Marks.tell
  cases own : (m.values value).bind Mark.owner with
  | none =>
    rw [foreign fun offset => by simp [own]]
    exact h
  | some o =>
    by_cases mine : o.tracker = k
    · obtain ⟨x, there, own⟩ := Option.bind_eq_some_iff.1 own
      have offset : a.offsets value = some o.offset :=
        (h.owned value o.offset).2 ⟨x, there, by rw [own, ← mine]⟩
      obtain ⟨t, found, posts, changed⟩ := h.heard
      rw [Account.renew, offset]
      refine ⟨h.record, ⟨t.post o.offset, ?_, congrArg Nat.succ posts, fun other => ?_⟩, h.owned,
        h.listed, h.apart, h.made, h.records, h.watches⟩
      · simp only [Option.elim_some, post, onTracker, mine, if_true, found, Option.map_some]
      · rw [Tracker.isChanged_post, Bool.or_eq_true, decide_eq_true_iff, changed, Option.elim_some,
          Finset.mem_insert]
    · rw [foreign fun offset same =>
        mine (congrArg Owner.tracker (Option.some.inj (own.symm.trans same)))]
      exact h.onOther mine _

theorem Agrees.add (h : m.Agrees slot k a) {r : Record} (found : m.records slot = some r)
    (value : Nat) (field : Field) :
    (m.add slot value field r).Agrees slot k (a.add value field) := by
  obtain ⟨r', there, mine, fields⟩ := h.record
  cases found.symm.trans there
  have size : (r.fields ++ [field]).length = a.fields.length + 1 := by
    rw [fields, List.length_append, List.length_singleton]
  -- The offsets that are taken count fields that are already there.
  have taken : ∀ i offset, a.offsets i = some offset → offset ≤ a.fields.length := by
    intro i offset held
    obtain ⟨x, stands, -⟩ := (h.owned i offset).1 held
    obtain ⟨positive, named⟩ := h.listed i offset x held stands
    have within := (List.getElem?_eq_some_iff.1 named).1
    omega
  refine ⟨⟨_, Function.update_self .., mine, congrArg (· ++ [field]) fields⟩, h.heard,
    fun i offset => ?_, fun i offset x => ?_, fun i j offset => ?_, h.made, fun i r' other => ?_,
    h.watches⟩
  · simp only [Account.add, Marks.add, attach, Function.update_apply, mine, size]
    split
    · simp
    · exact h.owned i offset
  · simp only [Account.add, Marks.add, attach, Function.update_apply]
    split
    · intro offset' x'
      cases offset'
      cases x'
      exact ⟨Nat.succ_pos _, List.getElem?_concat_length ..⟩
    · intro held stands
      obtain ⟨positive, named⟩ := h.listed i offset x held stands
      exact ⟨positive,
        (List.getElem?_append_left (List.getElem?_eq_some_iff.1 named).1).trans named⟩
  · simp only [Account.add, Function.update_apply]
    intro first second
    split at first
    · split at second
      · next one two => exact one.trans two.symm
      · cases first
        exact absurd (taken j _ second) (Nat.not_succ_le_self _)
    · split at second
      · cases second
        exact absurd (taken i _ first) (Nat.not_succ_le_self _)
      · exact h.apart i j offset first second
  · simp only [Marks.add, attach, Function.update_of_ne other]
    exact h.records i r' other

theorem Agrees.addOther (h : m.Agrees slot k a) {record : Nat} {r : Record} (other : record ≠ slot)
    (found : m.records record = some r) (value : Nat) (field : Field) :
    (m.add record value field r).Agrees slot k (a.lose value) := by
  have foreign : r.tracker ≠ k := h.records record r other found
  obtain ⟨⟨r', there, same⟩, heard, owned, listed, apart, made, records, watches⟩ :
      Agrees slot k { m with values := (m.add record value field r).values } (a.lose value) :=
    h.lose value fun y offset same => by
      cases same
      exact fun same => foreign (congrArg Owner.tracker (Option.some.inj same))
  refine ⟨⟨r', (Function.update_of_ne other.symm ..).trans there, same⟩, heard, owned, listed,
    apart, made, fun i r'' ne there => ?_, watches⟩
  simp only [Marks.add, attach, Function.update_apply] at there
  split at there
  · cases there
    exact foreign
  · exact records i r'' ne there

theorem Agrees.clear (h : m.Agrees slot k a) :
    (m.onTracker k Tracker.clear).Agrees slot k { a with changed := ∅ } := by
  obtain ⟨t, found, posts, -⟩ := h.heard
  refine ⟨h.record, ⟨t.clear, ?_, posts, fun offset => ?_⟩, h.owned, h.listed, h.apart, h.made,
    h.records, h.watches⟩
  · simp only [onTracker, if_true, found, Option.map_some]
  · simp only [Tracker.isChanged_clear, Bool.false_eq_true, Finset.notMem_empty]

def Admits (m : Marks) : ArrayMove → Prop
  | .step (.add record ..) => (m.records record).isSome = true
  | .step (.attach value token watch _) =>
    (m.values value).isSome = true ∧ (m.tokens token).isSome = true ∧
      (m.watch? watch).isSome = true
  | _ => True

theorem Agrees.step (h : m.Agrees slot k a) (t : ArrayStep)
    (own : (ArrayMove.step t).bypasses slot = false) (admits : m.Admits (.step t)) :
    (m.step t).Agrees slot k (a.move slot (.step t)) := by
  cases t with
  | record other name =>
    have apart : other ≠ slot := of_decide_eq_false own
    obtain ⟨⟨r, found, same⟩, heard, owned, listed, distinct, made, records, watches⟩ :=
      h.newTracker
    refine ⟨⟨r, (Function.update_of_ne apart.symm ..).trans found, same⟩, heard, owned, listed,
      distinct, made, fun i r' ne there => ?_, watches⟩
    simp only [Marks.step, Marks.record, Function.update_apply] at there
    split at there
    · cases there
      exact Nat.ne_of_gt h.made
    · exact records i r' ne there
  | tracker other =>
    obtain ⟨record, heard, owned, listed, distinct, made, records, watches⟩ := h.newTracker
    refine ⟨record, heard, owned, listed, distinct, made, records, fun i id there => ?_⟩
    simp only [Marks.step, Function.update_apply] at there
    split at there
    · cases there
      exact Nat.ne_of_gt h.made
    · exact watches i id there
  | add record value field =>
    obtain ⟨r, found⟩ := Option.isSome_iff_exists.1 admits
    simp only [Marks.step, found, Option.elim_some, Account.move]
    by_cases mine : record = slot
    · subst mine
      rw [if_pos rfl]
      exact h.add found value field
    · rw [if_neg mine]
      exact h.addOther mine found value field
  | create value field pool =>
    exact (h.withFlags m.flags.newToken.2 m.tokens).lose value fun y offset same => by
      cases same
      exact fun never => by cases never
  | drop value => exact h.lose value fun y offset same => by cases same
  | attach value token watch offset =>
    obtain ⟨there, named, heard⟩ := admits
    obtain ⟨x, there⟩ := Option.isSome_iff_exists.1 there
    obtain ⟨t, named⟩ := Option.isSome_iff_exists.1 named
    obtain ⟨id, heard⟩ := Option.isSome_iff_exists.1 heard
    have other : watch ≠ .record slot := fun same => by simp [same, ArrayMove.bypasses] at own
    have foreign := h.watch heard other
    simp only [Marks.step, there, named, heard, Account.move]
    exact (h.withFlags (m.attach value x t ⟨id, offset⟩).flags m.tokens).lose value
        fun y offset same => by
      cases same
      exact fun same => foreign (congrArg Owner.tracker (Option.some.inj same))
  | post watch offset =>
    have other : watch ≠ .record slot := fun same => by simp [same, ArrayMove.bypasses] at own
    simp only [Marks.step]
    cases heard : m.watch? watch with
    | none => exact h
    | some id => exact h.onOther (h.watch heard other) _
  | clear watch =>
    simp only [Marks.step]
    by_cases mine : watch = .record slot
    · subst mine
      obtain ⟨r, found, same, -⟩ := h.record
      have heard : m.watch? (.record slot) = some k :=
        (congrArg (Option.map Record.tracker) found).trans (congrArg some same)
      rw [heard, Account.move, if_pos rfl]
      exact h.clear
    · have kept : a.move slot (.step (.clear watch)) = a := by
        cases watch with
        | record other => exact if_neg fun same => mine (congrArg Watch.record same)
        | tracker other => rfl
      rw [kept]
      cases heard : m.watch? watch with
      | none => exact h
      | some id => exact h.onOther (h.watch heard mine) _
  | put value | replace value | install value | deserialize value => exact h.tell value
  | _ => exact h.quiet _ rfl rfl

theorem Agrees.move (h : m.Agrees slot k a) (t : ArrayMove) (own : t.bypasses slot = false)
    (admits : m.Admits t) : (m.move t).Agrees slot k (a.move slot t) := by
  cases t with
  | step t => exact h.step t own admits
  | decode value | pass value => exact h.tell value
  | build | forget => exact h

theorem Made.watch (h : m.Made) {watch : Watch} {id : TrackerId}
    (heard : m.watch? watch = some id) : id < m.tracked := by
  cases watch with
  | record i =>
    obtain ⟨r, found, rfl⟩ := Option.map_eq_some_iff.1 heard
    exact h.records i r found
  | tracker i => exact h.watches i id heard

theorem Made.withValue (h : m.Made) (value : Nat) {x : Option Mark}
    (made : ∀ y o, x = some y → y.owner = some o → o.tracker < m.tracked) :
    Made { m with values := update m.values value x } := by
  refine ⟨h.records, h.watches, fun i y o there own => ?_⟩
  simp only [Function.update_apply] at there
  split at there
  · exact made y o there own
  · exact h.owners i y o there own

theorem Made.withRecord (h : m.Made) (slot : Nat) {r : Record} (made : r.tracker < m.tracked) :
    Made { m with records := update m.records slot (some r) } := by
  refine ⟨fun i r' there => ?_, h.watches, h.owners⟩
  simp only [Function.update_apply] at there
  split at there
  · cases there
    exact made
  · exact h.records i r' there

theorem Made.withFlags (h : m.Made) (flags : Flags) : Made { m with flags } :=
  ⟨h.records, h.watches, h.owners⟩

theorem Made.newTracker (h : m.Made) : m.newTracker.Made :=
  ⟨fun i r there => Nat.lt_succ_of_lt (h.records i r there),
    fun i id there => Nat.lt_succ_of_lt (h.watches i id there),
    fun i x o there own => Nat.lt_succ_of_lt (h.owners i x o there own)⟩

theorem Made.step (h : m.Made) (t : ArrayStep) : (m.step t).Made := by
  cases places : t.places with
  | false =>
    obtain ⟨flags, tokens, trackers, same, -⟩ := m.step_quiet t places
    rw [same]
    exact ⟨h.records, h.watches, h.owners⟩
  | true =>
    cases t with
    | record slot name =>
      exact (h.newTracker.withFlags m.flags.newToken.2).withRecord slot (Nat.lt_succ_self _)
    | tracker slot =>
      refine ⟨h.newTracker.records, fun i id there => ?_, h.newTracker.owners⟩
      simp only [Marks.step, Function.update_apply] at there
      split at there
      · cases there
        exact Nat.lt_succ_self _
      · exact h.newTracker.watches i id there
    | add record value field =>
      simp only [Marks.step]
      cases found : m.records record with
      | none => exact h
      | some r =>
        have made := h.records record r found
        have marked := h.withFlags (m.add record value field r).flags
        refine (marked.withRecord record ?_).withValue value fun y o same own => ?_
        · exact made
        · cases same
          cases own
          exact made
    | create value field pool =>
      exact (h.withFlags m.flags.newToken.2).withValue value fun y o same own => by
        cases same
        cases own
    | drop value => exact h.withValue value fun y o same => by cases same
    | attach value token watch offset =>
      simp only [Marks.step]
      split
      · next x t id found named heard =>
        have made := h.watch heard
        have marked := h.withFlags (m.attach value x t ⟨id, offset⟩).flags
        refine marked.withValue value fun y o same own => ?_
        cases same
        cases own
        exact made
      · exact h
    | _ => cases places

theorem Made.move (h : m.Made) (t : ArrayMove) : (m.move t).Made := by
  cases t with
  | step t => exact h.step t
  | decode value | pass value =>
    simp only [Marks.move]
    rw [tell_eq]
    exact ⟨h.records, h.watches, h.owners⟩
  | build | forget => exact h

theorem Made.run (h : m.Made) (moves : List (ArrayMove × Bool)) : (m.run moves).Made := by
  induction moves generalizing m with
  | nil => exact h
  | cons t moves ih =>
    obtain ⟨t, done⟩ := t
    cases done with
    | false => exact ih h
    | true => exact ih (h.move t)

theorem Made.agrees (h : m.Made) (slot : Nat) (name : String) :
    (m.record slot name).Agrees slot m.tracked {} := by
  refine ⟨⟨_, Function.update_self .., rfl, rfl⟩,
    ⟨{}, Function.update_self .., rfl, fun offset => ?_⟩, fun i offset => ?_,
    fun i offset x none => (by cases none),
    fun i j offset none => (by cases none), Nat.lt_succ_self _, fun i r other there => ?_,
    fun i id there => Nat.ne_of_lt (h.watches i id there)⟩
  · simp only [Tracker.isChanged_empty, Bool.false_eq_true, Finset.notMem_empty]
  · refine ⟨fun none => (by cases none), fun ⟨x, there, own⟩ => ?_⟩
    exact absurd (h.owners i x _ there own) (Nat.lt_irrefl _)
  · have kept : m.records i = some r := (Function.update_of_ne other ..).symm.trans there
    exact Nat.ne_of_lt (h.records i r kept)

end Marks

namespace ArrayState

variable {s : ArrayState} {a : Account} {slot k : Nat}

theorem made_start (system : System) : (start system).marks.Made :=
  ⟨fun _ _ none => (by cases none), fun _ _ none => (by cases none),
    fun _ _ _ none => (by cases none)⟩

theorem admits_of_succeeds {t : ArrayMove} (done : s.succeeds t = true) : s.marks.Admits t := by
  cases t with
  | step t =>
    cases t with
    | add record value field =>
      cases found : s.records.get? record with
      | none =>
        simp only [succeeds, move, step, found] at done
        cases done
      | some r => exact congrArg Option.isSome found
    | attach value token watch offset =>
      simp only [succeeds, move, step] at done
      split at done
      · next v t id found named heard =>
        rw [trackerOf?_eq] at heard
        exact ⟨congrArg (fun x => (x.map FieldValue.mark).isSome) found,
          congrArg Option.isSome named, congrArg Option.isSome heard⟩
      · cases done
    | _ => trivial
  | _ => trivial

theorem moveAll_agrees (h : s.marks.Agrees slot k a) (moves : List ArrayMove)
    (own : ∀ t ∈ moves, t.bypasses slot = false) :
    (s.moveAll moves).marks.Agrees slot k (a.run slot (s.verdicts moves)) := by
  induction moves generalizing s a with
  | nil => exact h
  | cons t moves ih =>
    have moved : (Outcome.state (move t s)).marks =
        if s.succeeds t then s.marks.move t else s.marks := move_moves s t
    have next : (Outcome.state (move t s)).marks.Agrees slot k
        (if s.succeeds t then a.move slot t else a) := by
      rw [moved]
      cases done : s.succeeds t with
      | true => exact h.move t (own t List.mem_cons_self) (admits_of_succeeds done)
      | false => exact h
    exact ih next fun u member => own u (List.mem_cons_of_mem _ member)

theorem moveAll_append (s : ArrayState) (first second : List ArrayMove) :
    s.moveAll (first ++ second) = (s.moveAll first).moveAll second := List.foldl_append ..

/-- Whatever is done to a record and to its fields, or to anything else, with or without success:
the fields that were added report to the record under the numbers in which they were added, and
the record has heard of as many new contents as there were, of just the fields that had them. -/
theorem moveAll_notifies (system : System) (before : List ArrayMove) (slot : Nat) (name : String)
    (later : List ArrayMove) (own : ∀ t ∈ later, t.bypasses slot = false) :
    let s₀ := (start system).moveAll (before ++ [.step (.record slot name)])
    let a := Account.run slot {} (s₀.verdicts later)
    let s := s₀.moveAll later
    ∃ r t, s.records.get? slot = some r ∧ s.world.trackers.get? r.tracker = some t ∧
      r.fields = a.fields ∧
      (∀ i offset, a.offsets i = some offset ↔
        ∃ v, s.values.get? i = some v ∧ v.owner = some ⟨r.tracker, offset⟩) ∧
      (∀ i offset v, a.offsets i = some offset → s.values.get? i = some v →
        0 < offset ∧ r.fields[offset - 1]? = some v.field) ∧
      (∀ i j offset, a.offsets i = some offset → a.offsets j = some offset → i = j) ∧
      t.posts = a.posts ∧ t.changedOffsets = a.changed.sort := by
  intro s₀ a s
  have made : ((start system).moveAll before).marks.Made := by
    rw [moveAll_marks]
    exact (made_start system).run _
  have created : s₀.marks.Agrees slot ((start system).moveAll before).world.tracked {} := by
    have next := move_moves ((start system).moveAll before) (.step (.record slot name))
    have last : s₀.marks = ((start system).moveAll before).marks.record slot name :=
      (congrArg marks (moveAll_append ..)).trans next
    rw [last]
    exact made.agrees slot name
  obtain ⟨⟨r, found, mine, fields⟩, ⟨t, heard, posts, changed⟩, owned, listed, apart, -⟩ :=
    moveAll_agrees created later own
  rw [← mine] at heard owned
  refine ⟨r, t, found, heard, fields, fun i offset => (owned i offset).trans ?_,
    fun i offset v held there => ?_, apart, posts, Tracker.changedOffsets_eq_sort changed⟩
  · constructor
    · rintro ⟨x, there, mark⟩
      obtain ⟨v, stands, rfl⟩ := Option.map_eq_some_iff.1 there
      exact ⟨v, stands, mark⟩
    · rintro ⟨v, stands, mark⟩
      exact ⟨v.mark, congrArg (Option.map FieldValue.mark) stands, mark⟩
  · rw [fields]
    exact listed i offset v.mark held (congrArg (Option.map FieldValue.mark) there)

/-- Two records. The fields of one are written and replaced, its changes are forgotten, one field
is replaced once more, and then the record is frozen and refuses to be written and read. -/
theorem moveAll_notifies_two_records :
    let before : List ArrayMove := [.step (.record 1 "other"), .step (.add 1 5 ⟨"z", .int⟩)]
    let later : List ArrayMove := [.step (.add 0 0 ⟨"x", .int⟩), .step (.add 0 1 ⟨"y", .int⟩),
      .step (.put 0 [.int 1, .int 2]), .step (.put 5 [.int 3]), .step (.makeView 0 .int [.int 4]),
      .step (.install 1 0), .pass 0 0, .step (.setLength 0 9), .step (.clear (.record 0)),
      .step (.replace 1 []), .step (.freezeRecord 0), .step (.put 0 [.int 6]),
      .step (.deserialize 0 [1, 0, 0, 0, 5] .big)]
    let s := ((start .machine).moveAll (before ++ [.step (.record 0 "r")])).moveAll later
    ∃ r t, s.records.get? 0 = some r ∧ s.world.trackers.get? r.tracker = some t ∧
      (∃ v, s.values.get? 1 = some v ∧ v.owner = some ⟨r.tracker, 2⟩) ∧
      t.posts = 4 ∧ t.changedOffsets = [2] := by
  intro before later
  have own : ∀ t ∈ later, t.bypasses 0 = false := by decide
  have account : ∃ a, a = Account.run 0 {}
      (((start .machine).moveAll (before ++ [.step (.record 0 "r")])).verdicts later) ∧
      a.offsets 1 = some 2 ∧ a.posts = 4 ∧ a.changed = {2} := ⟨_, rfl, by decide +kernel⟩
  -- The run has been computed, and is not to be computed again.
  clear_value before later
  obtain ⟨a, same, second, four, last⟩ := account
  obtain ⟨r, t, found, heard, -, owned, -, -, posts, changed⟩ :=
    moveAll_notifies .machine before 0 "r" later own
  rw [← same] at owned posts changed
  rw [last, Finset.sort_singleton] at changed
  exact ⟨r, t, found, heard, (owned 1 2).1 second, posts.trans four, changed⟩

end ArrayState

end ArrayStore.Session
