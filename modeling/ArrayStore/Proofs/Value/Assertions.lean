import ArrayStore.Proofs.Value.Changes
import ArrayStore.Proofs.Value.Storing
import ArrayStore.Proofs.Vector.Assertions

/-! Array values that check what they rely on.
Reading an array and changing a value work on a vector of their own, which they
grow and write to. Main statements: whatever arrives on the stream and whatever
the allocators refuse, no assertion fails on the way, so with assertions an array
is read, and a value changed, just as without them. -/

namespace ArrayStore

namespace Intake

variable {origin : Store} {l : List Holding} {k : Kind} {s : Intake}

def onNext? (change? : Asserting (Writable × Allocators) Unit) : Asserting Intake Unit
  | ⟨next, input, store⟩ =>
    (Store.onWritable? change? (next, store)).map fun
      | .ok () (next, store) => .ok () ⟨next, input, store⟩
      | .error e (next, store) => .error e ⟨next, input, store⟩

def growTo? (length count : Nat) : Asserting Intake Unit := fun s =>
  s.next.capacity?.bind fun room =>
    if room < length then onNext? (Writable.grow? (min (max length (2 * room)) count) length) s
    else onNext? (Writable.resize? length) s

def readFixed? (k : Kind) (width : Nat) (width_pos : 0 < width) (count done : Nat) :
    Asserting Intake Unit := fun s =>
  if count ≤ done then some (.ok () s)
  else
    let stop := min count (done + chunk width)
    (growTo? stop count s).bind fun
      | .error e s => some (.error e s)
      | .ok () ⟨next, input, store⟩ =>
        next.values?.bind fun _ =>
          match readChunk? k width (stop - done) input with
          | .error e input => some (.error e ⟨next, input, store⟩)
          | .ok (some bytes) input =>
            let values := k.decodeAll .native (stop - done) bytes
            readFixed? k width width_pos count stop ⟨next.store done values, input, store⟩
          | .ok none input =>
            match readElements k width width_pos count stop done ⟨next, input, store⟩ with
            | .error e s => some (.error e s)
            | .ok () s => readFixed? k width width_pos count stop s
termination_by count - done
decreasing_by
  all_goals
    have : 1 ≤ chunk width := Nat.le_max_right _ _
    omega

def readTexts? (count : Nat) : (missing : Nat) → Asserting Intake Unit
  | 0 => fun s => some (.ok () s)
  | missing + 1 => fun ⟨next, input, store⟩ =>
    match Wire.readText input with
    | .error e input => some (.error e ⟨next, input, store⟩)
    | .ok text input =>
      let index := count - (missing + 1)
      (growTo? (index + 1) count ⟨next, input, store⟩).bind fun
        | .error e s => some (.error e s)
        | .ok () ⟨next, input, store⟩ =>
          next.values?.bind fun _ =>
            readTexts? count missing ⟨next.store index [.text text], input, store⟩

def readAll? (k : Kind) (count : Nat) : Asserting Intake Unit := fun s =>
  match h : k.width? with
  | none => readTexts? count count s
  | some width => readFixed? k width (Kind.width?_pos h) count 0 s

theorem Owned.onNext?_eq (h : Owned origin l k s)
    {change? : Asserting (Writable × Allocators) Unit}
    {change : Change (Writable × Allocators) Unit} (passes : Writable.Passes change? change) :
    Intake.onNext? change? s = some (Intake.onNext change s) := by
  obtain ⟨next, input, store⟩ := s
  have owns : store.Owns (.writable next :: l) := h.owns
  simp only [onNext?, owns.onWritable?_eq passes, Option.map_some]
  rfl

theorem Owned.growTo?_eq (h : Owned origin l k s) (length count : Nat) :
    growTo? length count s = some (Intake.growTo length count s) := by
  have room : s.next.capacity? = some s.next.capacity :=
    Writable.capacity?_eq (h.owns.sound s.next List.mem_cons_self)
      (h.owns.roomy _ List.mem_cons_self)
  simp only [growTo?, room, Option.bind_some]
  by_cases tight : s.next.capacity < length
  · rw [if_pos tight, growTo_of_tight tight, h.onNext?_eq (Writable.grow_passes _ length)]
  · rw [if_neg tight, growTo_of_roomy tight, h.onNext?_eq (Writable.resize_passes length)]

theorem Owned.values?_eq {next : Writable} {input : Incoming} {store : Store}
    (h : Owned origin l k ⟨next, input, store⟩) : next.values? = some next.values :=
  Writable.values?_eq (h.owns.sound next List.mem_cons_self)

theorem Owned.readFixed?_eq {width : Nat} (width_pos : 0 < width) (count done : Nat)
    (h : Owned origin l k s) : readFixed? k width width_pos count done s =
      some (Intake.readFixed k width width_pos count done s) := by
  fun_induction Intake.readFixed k width width_pos count done s with
  | case1 done s all => rw [readFixed?, if_pos all]
  | case2 done s more stop e t failed =>
    simp only [stop] at failed
    rw [readFixed?, if_neg more]
    simp only [h.growTo?_eq, failed, Option.bind_some]
  | case3 done s more stop next input store ran e input' failed =>
    have owned := h.of_growTo ran
    simp only [stop] at ran failed
    rw [readFixed?, if_neg more]
    simp only [h.growTo?_eq, ran, owned.values?_eq, failed, Option.bind_some]
  | case4 done s more stop next input store ran bytes input' bulk values ih =>
    have owned := h.of_growTo ran
    have rest := ih (owned.store input' done values)
    simp only [stop] at ran bulk
    rw [readFixed?, if_neg more]
    simp only [h.growTo?_eq, ran, owned.values?_eq, bulk, Option.bind_some]
    exact rest
  | case5 done s more stop next input store ran input' declined e t failed =>
    have owned := h.of_growTo ran
    simp only [stop] at ran declined failed
    rw [readFixed?, if_neg more]
    simp only [h.growTo?_eq, ran, owned.values?_eq, declined, failed, Option.bind_some]
  | case6 done s more stop next input store ran input' declined t elements ih =>
    have owned := h.of_growTo ran
    have gathered := (owned.feed input').readElements width_pos count stop done
    simp only [elements] at gathered
    have rest := ih gathered
    simp only [stop] at ran declined elements
    rw [readFixed?, if_neg more]
    simp only [h.growTo?_eq, ran, owned.values?_eq, declined, elements, Option.bind_some]
    exact rest

theorem Owned.readTexts?_eq (count missing : Nat) (h : Owned origin l k s) :
    readTexts? count missing s = some (Intake.readTexts count missing s) := by
  induction missing generalizing s with
  | zero => rfl
  | succ missing ih =>
    obtain ⟨next, input, store⟩ := s
    simp only [readTexts?, Intake.readTexts]
    cases Wire.readText input with
    | error e input' => rfl
    | ok text input' =>
      have fed := h.feed input'
      simp only [fed.growTo?_eq, Option.bind_some]
      cases run : Intake.growTo (count - (missing + 1) + 1) count ⟨next, input', store⟩ with
      | error e t => rfl
      | ok _ t =>
        have owned := fed.of_growTo run
        simp only [owned.values?_eq, Option.bind_some]
        exact ih (owned.store t.input _ [.text text])

theorem Owned.readAll?_eq (count : Nat) (h : Owned origin l k s) :
    readAll? k count s = some (Intake.readAll k count s) := by
  cases fixed : k.width? with
  | none =>
    cases (Kind.width?_eq_none_iff _).1 fixed
    exact h.readTexts?_eq count count
  | some width =>
    have elements := h.readFixed?_eq (Kind.width?_pos fixed) count 0
    cases k <;> cases fixed <;> exact elements

end Intake

namespace Wire

def readArray? (k : Kind) (a : Allocator) : Asserting (Incoming × Store) Frozen
  | (input, store) =>
    match readSize input with
    | .error e input => some (.error e (input, store))
    | .ok count input =>
      let (next, store) := store.emptyWritable k a
      (Intake.readAll? k count ⟨next, input, store⟩).map fun
        | .error e ⟨next, input, store⟩ => .error e (input, store.dropWritable next)
        | .ok () ⟨next, input, store⟩ =>
          let (value, store) := store.freeze next
          .ok value (input, store)

end Wire

theorem Store.Owns.readArray?_eq {s : Store} {l : List Holding} {a : Allocator} (h : s.Owns l)
    (alive : s.allocators.Alive a) (k : Kind) (input : Incoming) :
    Wire.readArray? k a (input, s) = some (Wire.readArray k a (input, s)) := by
  simp only [Wire.readArray?, Wire.readArray]
  cases Wire.readSize input with
  | error e input' => rfl
  | ok count input' =>
    have start : Intake.Owned s l k ⟨(s.emptyWritable k a).1, input', (s.emptyWritable k a).2⟩ :=
      ⟨h.emptyWritable alive k, rfl, rfl⟩
    simp only [start.readAll?_eq, Option.map_some]
    cases Intake.readAll k count ⟨(s.emptyWritable k a).1, input', (s.emptyWritable k a).2⟩ <;> rfl

namespace World

def onStore? {α : Type} (change? : Asserting Store α) : Asserting World α := fun w =>
  (change? w.store).map fun
    | .ok a store => .ok a { w with store }
    | .error e store => .error e { w with store }

theorem onStore?_eq {α : Type} {w : World} {change? : Asserting Store α} {change : Change Store α}
    (passes : change? w.store = some (change w.store)) :
    onStore? change? w = some (onStore change w) := by
  simp only [onStore?, onStore, passes, Option.map_some]
  cases change w.store <;> rfl

end World

namespace FieldValue

variable {v : FieldValue} {w : World} {l : List Holding}

def modify? (change? : Asserting (Writable × Allocators) Unit) : Asserting (FieldValue × World) Unit
  | (v, w) =>
    let sole := w.store.unique v.value
    let store := if sole then w.store else w.store.clone v.value
    (Store.thaw? v.value v.allocator store).bind fun
      | .error e store =>
        some (.error e (if sole then { v with value := .empty v.kind } else v, { w with store }))
      | .ok next store =>
        (Store.onWritable? change? (next, store)).map fun
          | .ok () (next, store) =>
            let (value, store) := store.freeze next
            let store := if sole then store else store.drop v.value
            .ok () ({ v with value }, { w with store })
          | .error e (next, store) =>
            if sole then
              let (value, store) := store.freeze next
              .error e ({ v with value }, { w with store })
            else .error e (v, { w with store := store.dropWritable next })

def setCapacity? (capacity : Nat) : Asserting (FieldValue × World) Unit
  | (v, w) =>
    if !v.isCapacityMutable w then some (.ok () (v, w))
    else
      (w.store.capacity? v.value).bind fun room =>
        if capacity ≤ room then some (.ok () (v, w))
        else modify? (Writable.reserve? capacity) (v, w)

def setLength? (length : Nat) : Asserting (FieldValue × World) Unit
  | (v, w) =>
    if v.isImmutable w then some (.error (.immutable v.field.name) (v, w))
    else if length = v.length then some (.ok () (v, w))
    else if length < v.length then some (.ok () ({ v with value := v.value.slice 0 length }, w))
    else modify? (Writable.resize? length) (v, w)

def putFrom? (values : List Scalar) : Asserting (FieldValue × World) Unit
  | (v, w) =>
    if v.isImmutable w then some (.error (.immutable v.field.name) (v, w))
    else
      (World.onStore? (Store.frozen? (Writable.copied? v.kind v.allocator values)) w).map fun
        | .error e w => .error e (v, w)
        | .ok next w => replace next (v, w)

def deserialize? : Asserting (FieldValue × World × Incoming) Unit
  | (v, w, input) =>
    if v.isImmutable w then some (.error (.immutable v.field.name) (v, w, input))
    else
      (Wire.readArray? v.kind v.allocator (input, w.store)).map fun
        | .error e (input, store) => .error e (v, { w with store }, input)
        | .ok next (input, store) =>
          let w := { w with store := store.drop v.value }
          let v := { v with value := next }
          .ok () (v, v.post w, input)

theorem modify?_eq {change? : Asserting (Writable × Allocators) Unit}
    {change : Change (Writable × Allocators) Unit} (passes : Writable.Passes change? change)
    (h : w.store.Owns (v.holdings ++ l)) :
    modify? change? (v, w) = some (modify change (v, w)) := by
  have start := h.perm (v.holdings_perm l)
  -- With a copy in hand, whether the reference is the only one makes no difference.
  have turned : ∃ r, Store.Owns (if w.store.unique v.value then w.store else
      w.store.clone v.value) (.frozen v.value :: .handle v.allocator :: r) := by
    split
    · exact ⟨l, start⟩
    · exact ⟨.frozen v.value :: l, start.clone.perm ((List.Perm.swap ..).cons _)⟩
  obtain ⟨r, owns⟩ := turned
  have thawed := owns.thaw (owns.alive (a := v.allocator) (by simp))
  simp only [modify?, modify, owns.thaw?_eq, Option.bind_some]
  cases run : Store.thaw v.value v.allocator
      (if w.store.unique v.value then w.store else w.store.clone v.value) with
  | error e t => rfl
  | ok next t =>
    rw [run] at thawed
    simp only [thawed.onWritable?_eq passes, Option.map_some]
    cases Store.onWritable change (next, t) <;> rfl

theorem setCapacity?_eq (h : w.store.Owns (v.holdings ++ l)) (capacity : Nat) :
    setCapacity? capacity (v, w) = some (setCapacity capacity (v, w)) := by
  have room : w.store.capacity? v.value = some (v.capacity w) := h.capacity?_eq (by simp [holdings])
  simp only [setCapacity?, setCapacity, room, Option.bind_some]
  split
  · rfl
  · split
    · rfl
    · exact modify?_eq (Writable.reserve_passes capacity) h

theorem setLength?_eq (h : w.store.Owns (v.holdings ++ l)) (length : Nat) :
    setLength? length (v, w) = some (setLength length (v, w)) := by
  simp only [setLength?, setLength]
  split
  · rfl
  · split
    · rfl
    · split
      · rfl
      · exact modify?_eq (Writable.resize_passes length) h

theorem putFrom?_eq (h : w.store.Owns (v.holdings ++ l)) (values : List Scalar) :
    putFrom? values (v, w) = some (putFrom values (v, w)) := by
  have passes := World.onStore?_eq (w := w)
    (Store.frozen?_eq (Writable.copied?_eq h.lends v.kind v.allocator values))
  simp only [putFrom?, putFrom, passes, Option.map_some]
  split
  · rfl
  · cases World.onStore (Store.ofList v.kind v.allocator values) w <;> rfl

theorem deserialize?_eq (h : w.store.Owns (v.holdings ++ l)) (input : Incoming) :
    deserialize? (v, w, input) = some (deserialize (v, w, input)) := by
  have passes := h.readArray?_eq (h.alive (a := v.allocator) (by simp [holdings])) v.kind input
  simp only [deserialize?, deserialize, passes, Option.map_some]
  split
  · rfl
  · cases Wire.readArray v.kind v.allocator (input, w.store) <;> rfl

end FieldValue

end ArrayStore
