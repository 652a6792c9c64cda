import ArrayStore.Proofs.Session.Mixed
import ArrayStore.Proofs.Value.Assertions

/-! Sessions that check what vectors rely on.
A run with assertions stops at the first that fails; where it does not stop it
leaves the same state as the run without them. Main statement: no run stops, with
any pools, refusals and sizes, and after it every vector lies within its storage
and every storage within its block. -/

namespace ArrayStore.Session

namespace VectorState

def change? (s : VectorState) (slot : Nat) (w : Writable)
    (change? : Asserting (Writable × Allocators) Unit) : Option (Outcome VectorState VectorReply) :=
  (Store.onWritable? change? (w, s.store)).map fun
    | .ok () (w, store) =>
      .ok .done { s with store, slots := s.slots.insert slot (.writable w) }
    | .error e (w, store) => .error e { s with store, slots := s.slots.insert slot (.writable w) }

/-- The steps that reach elements or ask for blocks come with their assertions. -/
def step? (t : VectorStep) : Asserting VectorState VectorReply := fun s =>
  match t with
  | .ofList slot values pool =>
    (Store.onAllocators? (Writable.ofList? s.kind (s.allocator pool) values) s.store).map fun r =>
      s.make slot (asWritable r)
  | .frozenOfList slot values =>
    (Store.frozen? (Writable.ofList? s.kind .shared values) s.store).map fun r =>
      s.make slot (asFrozen r)
  | .blank slot length zero pool =>
    (Store.onAllocators? (Writable.blank? s.kind (s.allocator pool) length zero) s.store).map
      fun r => s.make slot (asWritable r)
  | .thaw slot pool =>
    match s.slots.get? slot with
    | some (.frozen f) =>
      (Store.thaw? f (s.allocator pool) s.store).map fun
        | .ok w store => .ok .done { s with store, slots := s.slots.insert slot (.writable w) }
        | .error e store => .error e { s with store, slots := s.slots.erase slot }
    | _ => some (.ok .noSlot s)
  | .reserve slot capacity =>
    match s.slots.get? slot with
    | some (.writable w) => s.change? slot w (Writable.reserve? capacity)
    | _ => some (.ok .noSlot s)
  | .resize slot length =>
    match s.slots.get? slot with
    | some (.writable w) => s.change? slot w (Writable.resize? length)
    | _ => some (.ok .noSlot s)
  | .set slot index value =>
    match s.slots.get? slot with
    | some (.writable w) => w.values?.map fun _ => step (.set slot index value) s
    | _ => some (.ok .noSlot s)
  | t => some (step t s)

variable {s : VectorState} {frame : List Holding} {slot : Nat} {w : Writable}

theorem Owned.change?_eq {change? : Asserting (Writable × Allocators) Unit}
    {change : Change (Writable × Allocators) Unit} (h : s.Owned frame)
    (found : s.slots.get? slot = some (.writable w)) (passes : Writable.Passes change? change) :
    s.change? slot w change? = some (s.change slot w change) := by
  have taken : s.store.Owns (.writable w :: _) := h.take found
  simp only [VectorState.change?, VectorState.change, taken.onWritable?_eq passes, Option.map_some]
  cases Store.onWritable change (w, s.store) <;> rfl

theorem Owned.step?_eq (h : s.Owned frame) (t : VectorStep) : step? t s = some (step t s) := by
  have lends := h.owns.lends
  cases t with
  | create | emptyFrozen | freeze | clone | drop | slice | swap => rfl
  | ofList slot values pool =>
    have passes := Store.onAllocators?_eq
      (Writable.ofList?_eq lends s.kind (s.allocator pool) values)
    simp only [step?, step, passes, Option.map_some]
  | frozenOfList slot values =>
    have passes := Store.frozen?_eq (Writable.ofList?_eq lends s.kind .shared values)
    simp only [step?, step, passes, Option.map_some]
  | blank slot length zero pool =>
    have passes := Store.onAllocators?_eq
      (Writable.blank?_eq lends s.kind (s.allocator pool) length zero)
    simp only [step?, step, passes, Option.map_some]
  | thaw slot pool =>
    cases found : s.slots.get? slot with
    | none => simp only [step?, step, found]
    | some x =>
      cases x with
      | writable w => simp only [step?, step, found]
      | frozen f =>
        have taken : s.store.Owns (.frozen f :: _) := h.take found
        simp only [step?, step, found, taken.thaw?_eq, Option.map_some]
        cases Store.thaw f (s.allocator pool) s.store <;> rfl
  | reserve slot capacity =>
    cases found : s.slots.get? slot with
    | none => simp only [step?, step, found]
    | some x =>
      cases x with
      | frozen f => simp only [step?, step, found]
      | writable w =>
        simp only [step?, step, found, h.change?_eq found (Writable.reserve_passes capacity)]
  | resize slot length =>
    cases found : s.slots.get? slot with
    | none => simp only [step?, step, found]
    | some x =>
      cases x with
      | frozen f => simp only [step?, step, found]
      | writable w =>
        simp only [step?, step, found, h.change?_eq found (Writable.resize_passes length)]
  | set slot index value =>
    cases found : s.slots.get? slot with
    | none => simp only [step?, step, found]
    | some x =>
      cases x with
      | frozen f => simp only [step?, step, found]
      | writable w =>
        have taken : s.store.Owns (.writable w :: _) := h.take found
        simp only [step?, found, Writable.values?_eq (taken.sound w List.mem_cons_self),
          Option.map_some]

end VectorState

namespace ArrayState

def onValue? (s : ArrayState) (slot : Nat) (change? : Asserting (FieldValue × World) Unit) :
    Option (Outcome ArrayState ArrayReply) :=
  match s.values.get? slot with
  | none => some (.ok .noSlot s)
  | some v =>
    (change? (v, s.world)).map fun
      | .ok () (v, w) => .ok .done { s with world := w, values := s.values.insert slot v }
      | .error e (v, w) => .error e { s with world := w, values := s.values.insert slot v }

def install? (make? : Asserting Store Frozen) : Asserting (FieldValue × World) Unit
  | (v, w) =>
    (World.onStore? make? w).map fun
      | .error e w => .error e (v, w)
      | .ok next w => FieldValue.replace next (v, w)

def onDecode? (s : ArrayState) (slot : Nat) (input : Incoming) :
    Option (Outcome ArrayState ArrayReply) :=
  match s.values.get? slot with
  | none => some (.ok .noSlot s)
  | some v =>
    (FieldValue.deserialize? (v, s.world, input)).map fun
      | .ok () (v, w, input) =>
        .ok (.read input.buffer.remaining none)
          { s with world := w, values := s.values.insert slot v }
      | .error e (v, w, input) =>
        .ok (.read input.buffer.remaining (some e))
          { s with world := w, values := s.values.insert slot v }

def step? (t : ArrayStep) : Asserting ArrayState ArrayReply := fun s =>
  match t with
  | .put value elements => s.onValue? value (FieldValue.putFrom? elements)
  | .replace value elements =>
    match s.values.get? value with
    | none => some (.ok .noSlot s)
    | some v =>
      s.onValue? value (install? (Store.frozen? (Writable.ofList? v.kind .shared elements)))
  | .setLength value length => s.onValue? value (FieldValue.setLength? length)
  | .setCapacity value capacity => s.onValue? value (FieldValue.setCapacity? capacity)
  | .makeView view k elements =>
    (World.onStore? (Store.frozen? (Writable.ofList? k .shared elements)) s.world).map fun
      | .error e w => .error e { s with world := w }
      | .ok f w => .ok .done (s.putView view f w)
  | .serialize value capacity order direct range =>
    match s.values.get? value with
    | none => some (.ok .noSlot s)
    | some v =>
      let shown := range.elim v.value fun r => v.value.slice r.1 r.2
      (s.world.store.values? shown).map fun _ =>
        step (.serialize value capacity order direct range) s
  | .deserialize value bytes order => s.onDecode? value ⟨.holding bytes order, .closed⟩
  | t => some (step t s)

def move? (t : ArrayMove) : Asserting ArrayState ArrayReply := fun s =>
  match t with
  | .step t => step? t s
  | .decode value input _ => s.onDecode? value input
  | t => some (move t s)

variable {s : ArrayState} {hand : List Holding} {slot : Nat} {v : FieldValue}

theorem onValue?_eq {change? : Asserting (FieldValue × World) Unit}
    {change : Change (FieldValue × World) Unit}
    (passes : ∀ v, s.values.get? slot = some v →
      change? (v, s.world) = some (change (v, s.world))) :
    s.onValue? slot change? = some (s.onValue slot change) := by
  cases found : s.values.get? slot with
  | none => simp only [onValue?, onValue, found]
  | some v =>
    simp only [onValue?, onValue, found, passes v found, Option.map_some]
    cases change (v, s.world) <;> rfl

theorem install?_eq {make? : Asserting Store Frozen} {make : Change Store Frozen} {w : World}
    (passes : make? w.store = some (make w.store)) :
    install? make? (v, w) = some (install make (v, w)) := by
  simp only [install?, install, World.onStore?_eq passes, Option.map_some]
  cases World.onStore make w <;> rfl

theorem Sound.onDecode?_eq (h : s.Sound hand) (slot : Nat) (input : Incoming) :
    s.onDecode? slot input = some (s.onDecode slot input) := by
  cases found : s.values.get? slot with
  | none => simp only [onDecode?, onDecode, found]
  | some v =>
    simp only [onDecode?, onDecode, found, FieldValue.deserialize?_eq (h.value found),
      Option.map_some]
    cases FieldValue.deserialize (v, s.world, input) <;> rfl

/-- No assertion fails in a step, also in one that is refused. -/
theorem Sound.step?_eq (h : s.Sound hand) (t : ArrayStep) : step? t s = some (step t s) := by
  have listed := fun k elements =>
    Store.frozen?_eq (Writable.ofList?_eq h.owns.lends k .shared elements)
  cases t with
  | put value elements =>
    exact onValue?_eq fun v found => FieldValue.putFrom?_eq (h.value found) elements
  | setLength value length =>
    exact onValue?_eq fun v found => FieldValue.setLength?_eq (h.value found) length
  | setCapacity value capacity =>
    exact onValue?_eq fun v found => FieldValue.setCapacity?_eq (h.value found) capacity
  | replace value elements =>
    cases found : s.values.get? value with
    | none => simp only [step?, step, found]
    | some v =>
      simp only [step?, step, found]
      exact onValue?_eq fun v' _ => install?_eq (listed v.kind elements)
  | makeView view k elements =>
    simp only [step?, step, World.onStore?_eq (listed k elements), Option.map_some]
    cases World.onStore (Store.ofList k .shared elements) s.world <;> rfl
  | serialize value capacity order direct range =>
    cases found : s.values.get? value with
    | none => simp only [step?, step, found]
    | some v =>
      have start := (h.value found).perm (v.holdings_perm _)
      have shown : s.world.store.values? (range.elim v.value fun r => v.value.slice r.1 r.2) =
          some (s.world.store.values (range.elim v.value fun r => v.value.slice r.1 r.2)) := by
        cases range with
        | none => exact start.values?_eq List.mem_cons_self
        | some r => exact (start.slice r.1 r.2).values?_eq List.mem_cons_self
      simp only [step?, found, shown, Option.map_some]
  | deserialize value bytes order => exact h.onDecode?_eq value ⟨.holding bytes order, .closed⟩
  | _ => rfl

theorem Sound.move?_eq (h : s.Sound hand) (t : ArrayMove) : move? t s = some (move t s) := by
  cases t with
  | step t => exact h.step?_eq t
  | decode value input valid => exact h.onDecode?_eq value input
  | build | forget | pass => rfl

end ArrayState

namespace MixedState

def move? (s : MixedState) : MixedMove → Option MixedState
  | .array t => (ArrayState.move? t s.arrays).map fun r => { s with arrays := Outcome.state r }
  | .vector kind t =>
    (VectorState.step? t (s.vectors kind)).map fun r => s.withVectors (Outcome.state r)
  | t => some (s.move t)

/-- A run that stops at the first assertion that fails. -/
def runAll? (s : MixedState) (moves : List MixedMove) : Option MixedState := moves.foldlM move? s

variable {s : MixedState}

theorem Sound.move?_eq (h : s.Sound) (t : MixedMove) : s.move? t = some (s.move t) := by
  cases t with
  | array t => simp only [move?, move, h.arrays.move?_eq, Option.map_some]
  | vector kind t => simp only [move?, move, (h.vectors kind).step?_eq, Option.map_some]
  | lend | keep => rfl

theorem Sound.runAll?_eq (h : s.Sound) (moves : List MixedMove) :
    s.runAll? moves = some (s.runAll moves) := by
  induction moves generalizing s with
  | nil => rfl
  | cons t moves ih =>
    rw [runAll?, List.foldlM_cons, h.move?_eq]
    exact ih (move_sound h t)

/-- Whatever is allocated, grown, cut, frozen, shared, thawed, read and written, with pools for
elements of any size: the run with assertions is the run without. After it the elements of each
vector can be looked at and the room behind them told, and where a vector has a storage its view
lies within the elements that are set, these within the capacity and the capacity within the
block. -/
theorem runAll_houses (system : System) (moves : List MixedMove) :
    let s := (start system).runAll moves
    let store := s.arrays.world.store
    (start system).runAll? moves = some s ∧
    (∀ w, .writable w ∈ s.holdings → w.values? = some w.values ∧ w.capacity? = some w.capacity ∧
      ∀ b, w.storage = some b → b.Houses w.kind w.offset w.length) ∧
    ∀ f, .frozen f ∈ s.holdings → store.values? f = some (store.values f) ∧
      store.capacity? f = some (store.capacity f) ∧
      ∀ b, store.storage? f = some b → b.Houses f.kind f.offset f.length := by
  intro s store
  have started := sound_start system
  have owns : store.Owns s.holdings := (runAll_sound started moves).owns
  refine ⟨started.runAll?_eq moves, fun w live => ?_, fun f live => ?_⟩
  · have sound := owns.sound w live
    have roomy : w.Roomy := owns.roomy _ live
    exact ⟨Writable.values?_eq sound, Writable.capacity?_eq sound roomy,
      fun b stored => Writable.houses sound roomy stored⟩
  · exact ⟨owns.values?_eq live, owns.capacity?_eq live, fun b stored => owns.houses live stored⟩

/-- A pool of blocks of four elements of eight bytes. A string does not grow to two in such a block,
but it holds eight integers, of which a view of two begins behind the first. -/
theorem runAll_houses_other_size :
    let moves : List MixedMove := [.array (.build ⟨"eights", some 4, .unbounded, 0⟩ 8),
      .vector .text (.ofList 0 [.text "a"] (some 0)), .vector .text (.resize 0 2),
      .vector .int (.ofList 1 [.int 1, .int 2, .int 3] (some 0)), .vector .int (.slice 1 1 9),
      .vector .int (.freeze 1), .vector .int (.clone 1 2), .vector .int (.thaw 2 none)]
    let s := (start .machine).runAll moves
    let store := s.arrays.world.store
    (start .machine).runAll? moves = some s ∧ ∃ f b, .frozen f ∈ s.holdings ∧
      store.storage? f = some b ∧ b.Houses .int 1 2 ∧ b.items.size = 3 ∧ b.capacity = 8 ∧
      b.block.size = 32 := by
  intro moves s store
  obtain ⟨exact, -, housed⟩ := runAll_houses .machine moves
  obtain ⟨f, live, kind, offset, length, lies⟩ : ∃ f ∈ Holding.frozens s.holdings,
      f.kind = .int ∧ f.offset = 1 ∧ f.length = 2 ∧
        (store.storage? f).map (fun b => (b.items.size, b.capacity, b.block.size)) =
          some (3, 8, 32) := by
    decide +kernel
  obtain ⟨b, stored, sizes⟩ := Option.map_eq_some_iff.1 lies
  obtain ⟨set, room, size⟩ : b.items.size = 3 ∧ b.capacity = 8 ∧ b.block.size = 32 := by
    simpa only [Prod.mk.injEq] using sizes
  have houses := (housed f (Holding.mem_frozens.1 live)).2.2 b stored
  rw [kind, offset, length] at houses
  exact ⟨exact, f, b, Holding.mem_frozens.1 live, stored, houses, set, room, size⟩

end MixedState

end ArrayStore.Session
