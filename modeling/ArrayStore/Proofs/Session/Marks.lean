import ArrayStore.Proofs.Session.Lists
import ArrayStore.Proofs.Value.Marks
import Mathlib.Logic.Function.Basic

/-! Marks, records, tokens and trackers without contents.
What a session says of immutability and of changes does not depend on what the
arrays hold, where it lies or who shares it. Main statement: a move that succeeds
changes the marks as a move on marks alone does, and a move that fails does not
change them at all. -/

namespace ArrayStore.Session

/-- All of a session but contents, views and pools. -/
structure Marks where
  values : Nat → Option Mark
  records : Nat → Option Record
  tokens : Nat → Option Token
  watches : Nat → Option TrackerId
  flags : Flags
  trackers : TrackerId → Option Tracker
  tracked : TrackerId

/-- Whether a step makes a record or a tracker, or puts marks into a slot or takes them out. -/
def ArrayStep.places : ArrayStep → Bool
  | .record .. | .tracker _ | .add .. | .create .. | .drop _ | .attach .. => true
  | _ => false

def ArrayStep.tells : ArrayStep → Bool
  | .post .. | .clear _ | .put .. | .replace .. | .install .. | .deserialize .. => true
  | _ => false

namespace Marks

open Function (update)

def watch? (m : Marks) : Watch → Option TrackerId
  | .record slot => (m.records slot).map Record.tracker
  | .tracker slot => m.watches slot

def freeze (m : Marks) (t : Token) : Marks := { m with flags := m.flags.freeze t }

def onTracker (m : Marks) (id : TrackerId) (f : Tracker → Tracker) : Marks :=
  { m with trackers := fun i => if i = id then (m.trackers i).map f else m.trackers i }

def post (m : Marks) (o : Owner) : Marks := m.onTracker o.tracker fun t => t.post o.offset

/-- The owner of a value, if it has one, hears of a new content. -/
def tell (m : Marks) (slot : Nat) : Marks := ((m.values slot).bind Mark.owner).elim m m.post

def newTracker (m : Marks) : Marks :=
  { m with trackers := update m.trackers m.tracked (some {}), tracked := m.tracked + 1 }

def record (m : Marks) (slot : Nat) (name : String) : Marks :=
  let (token, flags) := m.flags.newToken
  { m.newTracker with flags, records := update m.records slot (some ⟨name, token, m.tracked, []⟩) }

def create (m : Marks) (slot : Nat) (field : Field) : Marks :=
  let (token, flags) := m.flags.newToken
  { m with flags, values := update m.values slot (some ⟨field, token, none⟩) }

def attach (m : Marks) (slot : Nat) (x : Mark) (token : Token) (owner : Owner) : Marks :=
  { m with
    flags := if m.flags.isImmutable x.token then m.flags.freeze token else m.flags
    values := update m.values slot (some { x with token, owner := some owner }) }

/-- A new field of a record, which was a value without an owner first. -/
def add (m : Marks) (slot value : Nat) (field : Field) (r : Record) : Marks :=
  let (own, flags) := m.flags.newToken
  let (token, flags) := flags.childToken r.token
  let r := { r with fields := r.fields ++ [field] }
  attach { m with flags, records := update m.records slot (some r) } value ⟨field, own, none⟩ token
    ⟨r.tracker, r.fields.length⟩

def token? (m : Marks) : TokenSource → Option (Token × Flags)
  | .fresh => some m.flags.newToken
  | .bare => some (.bare, m.flags)
  | .childOf slot => (m.tokens slot).map m.flags.childToken
  | .copyOf slot => (m.tokens slot).map fun t => (t, m.flags)

def step (m : Marks) : ArrayStep → Marks
  | .record slot name => m.record slot name
  | .freezeRecord slot => (m.records slot).elim m fun r => m.freeze r.token
  | .add slot value field => (m.records slot).elim m (m.add slot value field)
  | .token slot source =>
    (m.token? source).elim m fun (t, flags) => { m with flags, tokens := update m.tokens slot t }
  | .freezeToken slot => (m.tokens slot).elim m m.freeze
  | .tracker slot => { m.newTracker with watches := update m.watches slot (some m.tracked) }
  | .post watch offset => (m.watch? watch).elim m fun id => m.post ⟨id, offset⟩
  | .clear watch => (m.watch? watch).elim m fun id => m.onTracker id Tracker.clear
  | .attach value token watch offset =>
    match m.values value, m.tokens token, m.watch? watch with
    | some x, some t, some id => m.attach value x t ⟨id, offset⟩
    | _, _, _ => m
  | .create value field _ => m.create value field
  | .drop value => { m with values := update m.values value none }
  | .setImmutable value => (m.values value).elim m fun x => m.freeze x.token
  | .put value _ | .replace value _ | .install value _ | .deserialize value .. => m.tell value
  | _ => m

def move (m : Marks) : ArrayMove → Marks
  | .step step => m.step step
  | .decode value .. | .pass value _ => m.tell value
  | .build .. | .forget _ => m

theorem tell_eq (m : Marks) (slot : Nat) :
    m.tell slot = { m with trackers := (m.tell slot).trackers } := by
  unfold tell
  cases (m.values slot).bind Mark.owner with
  | none => rfl
  | some o => rfl

/-- The other steps leave all slots of values, records and trackers as they are, lower no flag, and
few of them go to a tracker. -/
theorem step_quiet (m : Marks) (t : ArrayStep) (quiet : t.places = false) :
    ∃ flags tokens trackers, m.step t = { m with flags, tokens, trackers } ∧
      (∀ x, m.flags.isImmutable x = true → flags.isImmutable x = true) ∧
      (t.tells = false → trackers = m.trackers) := by
  have same : ∃ flags tokens trackers, m = { m with flags, tokens, trackers } ∧
      (∀ x, m.flags.isImmutable x = true → flags.isImmutable x = true) ∧
      (t.tells = false → trackers = m.trackers) := ⟨_, _, _, rfl, fun _ => id, fun _ => rfl⟩
  cases t with
  | record | tracker | add | create | drop | attach => cases quiet
  | freezeRecord record =>
    simp only [step]
    cases m.records record with
    | none => exact same
    | some r =>
      exact ⟨_, _, _, rfl, fun _ before => Flags.isImmutable_freeze before r.token, fun _ => rfl⟩
  | freezeToken token =>
    simp only [step]
    cases m.tokens token with
    | none => exact same
    | some t =>
      exact ⟨_, _, _, rfl, fun _ before => Flags.isImmutable_freeze before t, fun _ => rfl⟩
  | setImmutable value =>
    simp only [step]
    cases m.values value with
    | none => exact same
    | some x =>
      exact ⟨_, _, _, rfl, fun _ before => Flags.isImmutable_freeze before x.token, fun _ => rfl⟩
  | token slot source =>
    cases source with
    | fresh | bare => exact ⟨_, _, _, rfl, fun _ => id, fun _ => rfl⟩
    | childOf other | copyOf other =>
      simp only [step, token?]
      cases m.tokens other with
      | none => exact same
      | some t => exact ⟨_, _, _, rfl, fun _ => id, fun _ => rfl⟩
  | post watch offset | clear watch =>
    simp only [step]
    cases m.watch? watch with
    | none => exact same
    | some id => exact ⟨_, _, _, rfl, fun _ before => before, nofun⟩
  | put value | replace value | install value | deserialize value =>
    exact ⟨_, _, _, m.tell_eq value, fun _ => id, nofun⟩
  | _ => exact same

def run (m : Marks) (moves : List (ArrayMove × Bool)) : Marks :=
  moves.foldl (fun m t => if t.2 then m.move t.1 else m) m

end Marks

namespace ArrayState

open FieldValue (Heard Tells)
open Function (update)

def marks (s : ArrayState) : Marks where
  values slot := (s.values.get? slot).map FieldValue.mark
  records := s.records.get?
  tokens := s.tokens.get?
  watches := s.trackers.get?
  flags := s.world.flags
  trackers := s.world.trackers.get?
  tracked := s.world.tracked

variable {s : ArrayState} {slot : Nat} {v v' : FieldValue} {w w' : World}

/-- A change of the marks is carried out if the move succeeds, and not at all otherwise. -/
def Moves (s : ArrayState) (f : Marks → Marks) (r : Outcome ArrayState ArrayReply) : Prop :=
  (Outcome.state r).marks = if Succeeds r then f s.marks else s.marks

theorem get?_insert_eq {α : Type} (t : Table α) (key : Nat) (x : α) :
    (t.insert key x).get? = update t.get? key (some x) :=
  funext fun i => by rw [Table.get?_insert, Function.update_apply]

theorem mark_insert (t : Table FieldValue) (slot : Nat) (v : FieldValue) :
    (fun i => ((t.insert slot v).get? i).map FieldValue.mark) =
      update (fun i => (t.get? i).map FieldValue.mark) slot (some v.mark) := by
  funext i
  rw [Table.get?_insert, Function.update_apply]
  split <;> rfl

theorem mark_erase (t : Table FieldValue) (slot : Nat) :
    (fun i => ((t.erase slot).get? i).map FieldValue.mark) =
      update (fun i => (t.get? i).map FieldValue.mark) slot none := by
  funext i
  rw [Table.get?_erase, Function.update_apply]
  split <;> rfl

theorem marks_insert (s : ArrayState) (slot : Nat) (v : FieldValue) (w : World) :
    marks { s with world := w, values := s.values.insert slot v } =
      { s.marks with
        values := update s.marks.values slot (some v.mark)
        flags := w.flags
        trackers := w.trackers.get?
        tracked := w.tracked } := by
  simp only [marks, mark_insert]

theorem marks_putValue (s : ArrayState) (slot : Nat) (v : FieldValue) (w : World) :
    (s.putValue slot v w).marks =
      { s.marks with
        values := update s.marks.values slot (some v.mark)
        flags := w.flags
        trackers := w.trackers.get?
        tracked := w.tracked } := by
  unfold putValue
  cases s.values.get? slot with
  | none => exact marks_insert s slot v w
  | some old => exact marks_insert s slot v (old.drop w)

theorem marks_putView (s : ArrayState) (view : Nat) (f : Frozen) (store : Store) :
    (s.putView view f { s.world with store }).marks = s.marks := by
  unfold putView
  cases s.views.get? view <;> rfl

theorem trackers_post (w : World) (o : Owner) :
    (w.post o.tracker o.offset).trackers.get? = fun i =>
      if i = o.tracker then (w.trackers.get? i).map fun t => t.post o.offset
      else w.trackers.get? i :=
  funext fun _ => Table.get?_modify ..

theorem marks_heard {told : Bool} (found : s.values.get? slot = some v)
    (heard : Heard told v s.world v' w') :
    marks { s with world := w', values := s.values.insert slot v' } =
      if told then s.marks.tell slot else s.marks := by
  have there : s.marks.values slot = some v.mark := congrArg (Option.map FieldValue.mark) found
  have kept : update s.marks.values slot (some v'.mark) = s.marks.values := by
    rw [heard.mark, ← there, Function.update_eq_self]
  rw [marks_insert, kept, heard.flags, heard.trackers, heard.tracked]
  cases told with
  | false => rfl
  | true =>
    simp only [if_true, Marks.tell, there, Option.bind_some]
    rw [FieldValue.mark, FieldValue.post]
    cases v.owner with
    | none => rfl
    | some o => exact congrArg (fun t => { s.marks with trackers := t }) (trackers_post s.world o)

theorem onValue_moves (told : Bool) {change : Change (FieldValue × World) Unit} (slot : Nat)
    (tells : ∀ v, s.values.get? slot = some v → Tells told v s.world (change (v, s.world))) :
    s.Moves (fun m => if told then m.tell slot else m) (s.onValue slot change) := by
  unfold onValue
  cases found : s.values.get? slot with
  | none => rfl
  | some v =>
    have heard := tells v found
    simp only
    cases run : change (v, s.world) with
    | ok _ p =>
      rw [run] at heard
      exact marks_heard found heard
    | error e p =>
      rw [run] at heard
      exact marks_heard found heard

theorem trackerOf?_eq (s : ArrayState) (watch : Watch) :
    s.trackerOf? watch = s.marks.watch? watch := by
  cases watch <;> rfl

theorem install_tells (make : Change Store Frozen) (v : FieldValue) (w : World) :
    Tells true v w (install make (v, w)) := by
  obtain ⟨store, flags, trackers, tracked⟩ := w
  simp only [install, World.onStore]
  cases make store with
  | error e t => exact FieldValue.heard_of_store v.value t
  | ok next t => exact FieldValue.replace_tells next v ⟨store, flags, trackers, tracked⟩ t

theorem add_moves (s : ArrayState) (slot value : Nat) (field : Field) :
    s.Moves (fun m => m.step (.add slot value field)) (step (.add slot value field) s) := by
  simp only [step]
  cases found : s.records.get? slot with
  | none => rfl
  | some r =>
    have there : s.marks.records slot = some r := found
    simp only [Moves, Outcome.state_ok, marks_putValue, Marks.step, there, Option.elim_some,
      Succeeds, if_true]
    simp only [Marks.add, Marks.attach, Record.add, FieldValue.create, FieldValue.attach_eq,
      World.newToken, World.childToken, marks, get?_insert_eq]
    rfl

theorem attach_moves (s : ArrayState) (value token : Nat) (watch : Watch) (offset : Nat) :
    s.Moves (fun m => m.step (.attach value token watch offset))
      (step (.attach value token watch offset) s) := by
  simp only [step, trackerOf?_eq]
  cases found : s.values.get? value with
  | none => rfl
  | some v =>
    cases named : s.tokens.get? token with
    | none => rfl
    | some t =>
      cases heard : s.marks.watch? watch with
      | none => rfl
      | some id =>
        have there : s.marks.values value = some v.mark :=
          congrArg (Option.map FieldValue.mark) found
        have named' : s.marks.tokens token = some t := named
        simp only [Moves, Outcome.state_ok, Marks.step, there, named', heard, Succeeds, if_true]
        simp only [marks_insert, Marks.attach, FieldValue.attach_eq]
        rfl

theorem token_moves (s : ArrayState) (slot : Nat) (source : TokenSource) :
    s.Moves (fun m => m.step (.token slot source)) (step (.token slot source) s) := by
  have put (t : Token) (w : World) (flags : Flags) (same : w.flags = flags)
      (trackers : w.trackers = s.world.trackers) (tracked : w.tracked = s.world.tracked) :
      marks { s with world := w, tokens := s.tokens.insert slot t } =
        { s.marks with flags, tokens := update s.marks.tokens slot t } := by
    simp only [marks, get?_insert_eq, same, trackers, tracked]
  cases source with
  | fresh => exact put _ _ _ rfl rfl rfl
  | bare => exact put _ _ _ rfl rfl rfl
  | childOf other =>
    simp only [step]
    cases found : s.tokens.get? other with
    | none => rfl
    | some t =>
      have there : s.marks.tokens other = some t := found
      simp only [Moves, Option.map_some, Outcome.state_ok, Marks.step, Marks.token?, there,
        Option.elim_some, Succeeds, if_true]
      exact put _ _ _ rfl rfl rfl
  | copyOf other =>
    simp only [step]
    cases found : s.tokens.get? other with
    | none => rfl
    | some t =>
      have there : s.marks.tokens other = some t := found
      simp only [Moves, Option.map_some, Outcome.state_ok, Marks.step, Marks.token?, there,
        Option.elim_some, Succeeds, if_true]
      exact put _ _ _ rfl rfl rfl

theorem swap_moves (s : ArrayState) (value view : Nat) :
    s.Moves id (step (.swap value view) s) := by
  simp only [step]
  split
  · next v f found viewed =>
    split
    · rfl
    · have heard := FieldValue.swap_tells f v s.world
      cases run : FieldValue.swap (v, f, s.world) with
      | error e p =>
        rw [run] at heard
        exact marks_heard found heard
      | ok _ p =>
        rw [run] at heard
        exact marks_heard found heard
  · rfl

theorem onDecode_moves (s : ArrayState) (slot : Nat) (input : Incoming) :
    s.Moves (fun m => m.tell slot) (s.onDecode slot input) := by
  unfold onDecode
  cases found : s.values.get? slot with
  | none => rfl
  | some v =>
    have heard := FieldValue.deserialize_tells v s.world input
    simp only
    cases run : FieldValue.deserialize (v, s.world, input) with
    | error e p =>
      rw [run] at heard
      exact marks_heard found heard
    | ok _ p =>
      rw [run] at heard
      exact marks_heard found heard

theorem freezeRecord_moves (s : ArrayState) (slot : Nat) :
    s.Moves (fun m => m.step (.freezeRecord slot)) (step (.freezeRecord slot) s) := by
  simp only [step]
  cases found : s.records.get? slot with
  | none => rfl
  | some r =>
    have there : s.marks.records slot = some r := found
    simp only [Moves, Marks.step, there]
    rfl

theorem freezeToken_moves (s : ArrayState) (slot : Nat) :
    s.Moves (fun m => m.step (.freezeToken slot)) (step (.freezeToken slot) s) := by
  simp only [step]
  cases found : s.tokens.get? slot with
  | none => rfl
  | some t =>
    have there : s.marks.tokens slot = some t := found
    simp only [Moves, Marks.step, there]
    rfl

theorem setImmutable_moves (s : ArrayState) (value : Nat) :
    s.Moves (fun m => m.step (.setImmutable value)) (step (.setImmutable value) s) := by
  simp only [step]
  cases found : s.values.get? value with
  | none => rfl
  | some v =>
    have there : s.marks.values value = some v.mark := congrArg (Option.map FieldValue.mark) found
    have kept := Function.update_eq_self value s.marks.values
    rw [there] at kept
    simp only [Moves, FieldValue.setImmutable, Outcome.state_ok, marks_insert, Marks.step, there]
    exact congrArg (fun values => { s.marks.freeze v.token with values }) kept

theorem post_moves (s : ArrayState) (watch : Watch) (offset : Nat) :
    s.Moves (fun m => m.step (.post watch offset)) (step (.post watch offset) s) := by
  simp only [step, trackerOf?_eq]
  cases heard : s.marks.watch? watch with
  | none => rfl
  | some id =>
    simp only [Moves, Marks.step, heard]
    exact congrArg (fun trackers => { s.marks with trackers }) (trackers_post s.world ⟨id, offset⟩)

theorem clear_moves (s : ArrayState) (watch : Watch) :
    s.Moves (fun m => m.step (.clear watch)) (step (.clear watch) s) := by
  simp only [step, trackerOf?_eq]
  cases heard : s.marks.watch? watch with
  | none => rfl
  | some id =>
    simp only [Moves, Marks.step, heard]
    exact congrArg (fun trackers => { s.marks with trackers })
      (funext fun _ => Table.get?_modify ..)

theorem drop_moves (s : ArrayState) (value : Nat) :
    s.Moves (fun m => m.step (.drop value)) (step (.drop value) s) := by
  simp only [step]
  cases s.values.get? value with
  | none => rfl
  | some v =>
    simp only [Moves, Outcome.state_ok, marks, mark_erase]
    rfl

theorem growFrom_moves (s : ArrayState) (value : Nat) (pool : Option Nat) :
    s.Moves id (step (.growFrom value pool) s) := by
  simp only [step]
  cases found : s.values.get? value with
  | none => rfl
  | some v =>
    have heard : Heard false v s.world (v.growFrom (s.allocator pool) s.world).1
        (v.growFrom (s.allocator pool) s.world).2 := ⟨rfl, rfl, rfl, rfl⟩
    exact marks_heard found heard

theorem replace_moves (s : ArrayState) (value : Nat) (elements : List Scalar) :
    s.Moves (fun m => m.tell value) (step (.replace value elements) s) := by
  simp only [step]
  cases s.values.get? value with
  | none => rfl
  | some v => exact onValue_moves true value fun u _ => install_tells _ u s.world

theorem install_moves (s : ArrayState) (value view : Nat) :
    s.Moves (fun m => m.tell value) (step (.install value view) s) := by
  simp only [step]
  split
  · split
    · rfl
    · exact onValue_moves true value fun u _ => install_tells _ u s.world
  · rfl

theorem view_moves (s : ArrayState) (value view : Nat) :
    s.Moves id (step (.view value view) s) := by
  simp only [step]
  cases s.values.get? value with
  | none => rfl
  | some v => exact marks_putView s view _ _

theorem makeView_moves (s : ArrayState) (view : Nat) (k : Kind) (elements : List Scalar) :
    s.Moves id (step (.makeView view k elements) s) := by
  obtain ⟨⟨store, flags, trackers, tracked⟩, pools, values, views, records, tokens, watches⟩ := s
  simp only [step, World.onStore]
  cases Store.ofList k .shared elements store with
  | error e t => rfl
  | ok f t => exact marks_putView _ view f t

theorem sliceView_moves (s : ArrayState) (view offset count : Nat) :
    s.Moves id (step (.sliceView view offset count) s) := by
  simp only [step]
  cases s.views.get? view <;> rfl

theorem dropView_moves (s : ArrayState) (view : Nat) :
    s.Moves id (step (.dropView view) s) := by
  simp only [step]
  cases s.views.get? view <;> rfl

theorem step_moves (s : ArrayState) (t : ArrayStep) : s.Moves (fun m => m.step t) (step t s) := by
  cases t with
  | record slot name =>
    simp only [Moves, step, Record.create, World.newToken, World.newTracker, Outcome.state_ok,
      marks, get?_insert_eq]
    rfl
  | tracker slot =>
    simp only [Moves, step, World.newTracker, Outcome.state_ok, marks, get?_insert_eq]
    rfl
  | freezeRecord slot => exact freezeRecord_moves s slot
  | freezeToken slot => exact freezeToken_moves s slot
  | setImmutable value => exact setImmutable_moves s value
  | post watch offset => exact post_moves s watch offset
  | clear watch => exact clear_moves s watch
  | create value field pool => exact marks_putValue s value _ _
  | growFrom value pool => exact growFrom_moves s value pool
  | drop value => exact drop_moves s value
  | token slot source => exact token_moves s slot source
  | add slot value field => exact add_moves s slot value field
  | attach value token watch offset => exact attach_moves s value token watch offset
  | put value elements =>
    exact onValue_moves true value fun v _ => FieldValue.putFrom_tells elements v s.world
  | replace value elements => exact replace_moves s value elements
  | setLength value length =>
    exact onValue_moves false value fun v _ => FieldValue.setLength_tells length v s.world
  | setCapacity value capacity =>
    exact onValue_moves false value fun v _ => FieldValue.setCapacity_tells capacity v s.world
  | setCapacityMutable value on =>
    exact onValue_moves false value fun v _ => FieldValue.setCapacityMutable_tells on v s.world
  | install value view => exact install_moves s value view
  | deserialize value bytes order => exact onDecode_moves s value _
  | swap value view => exact swap_moves s value view
  | view value view => exact view_moves s value view
  | makeView view k elements => exact makeView_moves s view k elements
  | sliceView view offset count => exact sliceView_moves s view offset count
  | dropView view => exact dropView_moves s view
  | serialize value capacity order direct range =>
    rw [Moves, s.state_serialize]
    exact (ite_self _).symm

/-- A move that succeeds changes the marks as it does without contents; a move that fails does not
change them. -/
theorem move_moves (s : ArrayState) (t : ArrayMove) : s.Moves (fun m => m.move t) (move t s) := by
  cases t with
  | step t => exact step_moves s t
  | decode value input valid => exact onDecode_moves s value input
  | build config elementSize =>
    simp only [move]
    cases Allocators.build registry config elementSize s.world.store.allocators with
    | error e m => rfl
    | ok a m => rfl
  | forget pool =>
    simp only [move]
    cases s.pools[pool]? with
    | none => rfl
    | some a => rfl
  | pass value view =>
    simp only [move]
    split
    · next v f found viewed =>
      split
      · rfl
      · exact onValue_moves true (s := { s with views := s.views.erase view }) value
          fun u _ => FieldValue.replace_tells f u s.world s.world.store
    · rfl

theorem moveAll_marks (s : ArrayState) (moves : List ArrayMove) :
    (s.moveAll moves).marks = s.marks.run (s.verdicts moves) := by
  induction moves generalizing s with
  | nil => rfl
  | cons t moves ih =>
    refine (ih (Outcome.state (move t s))).trans ?_
    rw [move_moves s t]
    rfl

end ArrayState

end ArrayStore.Session
