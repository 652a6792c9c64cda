import ArrayStore.Session.Vector

/-! Slots that own their lists: nothing in them is shared, narrowed or moved.
A step changes its own slots only. Whether a step that takes memory succeeds is
left open, since the plain slots need none. -/

namespace ArrayStore.Session

/-- What a slot shows: the form of its vector and the elements. -/
inductive Shown where
  | writable (values : List Scalar)
  | frozen (values : List Scalar)
  deriving DecidableEq

namespace Shown

def map (change : List Scalar → List Scalar) : Shown → Shown
  | writable values => writable (change values)
  | frozen values => frozen (change values)

end Shown

/-- Slots that own their lists. -/
abbrev Plain := Nat → Option Shown

namespace Plain

def put (p : Plain) (slot : Nat) (shown : Option Shown) : Plain := fun i =>
  if i = slot then shown else p i

/-- What a step does to the slots, given whether there was memory for it. An
exchange with an empty slot and a failed thaw lose the vector they took out. -/
def step (k : Kind) (p : Plain) (done : Bool) : VectorStep → Plain
  | .create slot _ => p.put slot (some (.writable []))
  | .ofList slot values _ => if done then p.put slot (some (.writable values)) else p
  | .frozenOfList slot values => if done then p.put slot (some (.frozen values)) else p
  | .emptyFrozen slot => p.put slot (some (.frozen []))
  | .blank slot length _ _ =>
    if done then p.put slot (some (.writable (List.replicate length k.blank))) else p
  | .freeze slot =>
    match p slot with
    | some (.writable values) => p.put slot (some (.frozen values))
    | _ => p
  | .thaw slot _ =>
    match p slot with
    | some (.frozen values) => p.put slot (if done then some (.writable values) else none)
    | _ => p
  | .clone slot other =>
    match p slot with
    | some (.frozen values) => p.put other (some (.frozen values))
    | _ => p
  | .drop slot => p.put slot none
  | .slice slot offset count =>
    p.put slot ((p slot).map (Shown.map fun values => (values.drop offset).take count))
  | .reserve _ _ => p
  | .resize slot length =>
    match p slot with
    | some (.writable values) =>
      if done then
        p.put slot (some (.writable
          (values.take length ++ List.replicate (length - values.length) k.blank)))
      else p
    | _ => p
  | .set slot index value =>
    match p slot with
    | some (.writable values) => p.put slot (some (.writable (values.set index value)))
    | _ => p
  | .swap slot other =>
    match p slot, p.put slot none other with
    | some (.writable a), some (.writable b) =>
      (p.put slot (some (.writable b))).put other (some (.writable a))
    | some (.frozen a), some (.frozen b) =>
      (p.put slot (some (.frozen b))).put other (some (.frozen a))
    | some _, none => p.put slot none
    | _, _ => p

def run (k : Kind) (p : Plain) (steps : List (VectorStep × Bool)) : Plain :=
  steps.foldl (fun p t => p.step k t.2 t.1) p

theorem put_self (p : Plain) (slot : Nat) : p.put slot (p slot) = p := by
  funext i
  unfold put
  split
  · next same => rw [same]
  · rfl

end Plain

/-- The slots whose content a step may change. -/
def VectorStep.targets : VectorStep → List Nat
  | .create slot _ | .ofList slot _ _ | .frozenOfList slot _ | .emptyFrozen slot
  | .blank slot _ _ _ | .freeze slot | .thaw slot _ | .drop slot | .slice slot _ _
  | .reserve slot _ | .resize slot _ | .set slot _ _ => [slot]
  | .clone _ other => [other]
  | .swap slot other => [slot, other]

namespace Plain

theorem put_of_ne {p : Plain} {slot i : Nat} (apart : i ≠ slot) (shown : Option Shown) :
    p.put slot shown i = p i := if_neg apart

theorem step_of_not_target (k : Kind) (p : Plain) (done : Bool) {step : VectorStep} {i : Nat}
    (apart : i ∉ step.targets) : p.step k done step i = p i := by
  cases step with
  | swap slot other =>
    simp only [VectorStep.targets, List.mem_cons, List.not_mem_nil, or_false, not_or] at apart
    have first := put_of_ne apart.1 (p := p)
    have second := fun q => put_of_ne apart.2 (p := q)
    match found : p slot, found' : p.put slot none other with
    | none, _ => simp only [step, found]
    | some v, none => cases v <;> simp only [step, found, found', first]
    | some (.writable a), some (.frozen b) | some (.frozen a), some (.writable b) =>
      simp only [step, found, found']
    | some (.writable a), some (.writable b) | some (.frozen a), some (.frozen b) =>
      simp only [step, found, found', first, second]
  | freeze slot | thaw slot _ | clone slot _ | resize slot _ | set slot _ _ =>
    simp only [VectorStep.targets, List.mem_singleton] at apart
    have kept := put_of_ne apart (p := p)
    match found : p slot with
    | none => simp only [step, found]
    | some (.writable values) | some (.frozen values) =>
      cases done <;> simp [step, found, kept]
  | _ =>
    simp only [VectorStep.targets, List.mem_singleton] at apart
    have kept := put_of_ne apart (p := p)
    cases done <;> simp [step, kept]

end Plain

end ArrayStore.Session
