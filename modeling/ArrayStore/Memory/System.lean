/-! The system that blocks come from.
Which requests it grants is a parameter: it may refuse any of them. Every block
it grants bears a number that no other block bears. The sizes that are asked for
are logged, whether or not they are granted. -/

namespace ArrayStore

abbrev BlockId := Nat

structure System where
  /-- Whether the request of a given number, for a given size, is granted. -/
  grants : Nat → Nat → Bool
  requests : Nat := 0
  /-- The sizes asked for, the last one first. -/
  asked : List Nat := []

namespace System

def sizeBound : Nat := 0x7ffffffffffffff0

/-- A machine that grants every request below `2 ^ 48` bytes. -/
def machine : System := { grants := fun _ size => size < 0x1000000000000 }

def asks (s : System) (size : Nat) : System :=
  { s with requests := s.requests + 1, asked := size :: s.asked }

/-- Ask for a block. Nothing is asked of the system for an empty one. -/
def request (s : System) (size : Nat) : Option BlockId × System :=
  if size = 0 ∨ (size ≤ sizeBound ∧ s.grants s.requests size = true) then
    (some s.requests, s.asks size)
  else (none, s.asks size)

theorem request_snd (s : System) (size : Nat) : (s.request size).2 = s.asks size := by
  unfold request
  split <;> rfl

@[simp] theorem requests_request (s : System) (size : Nat) :
    (s.request size).2.requests = s.requests + 1 := congrArg requests (s.request_snd size)

/-- Ask for `count` blocks on top of those in `stock`; none if one is refused. -/
def stock (size : Nat) : (count : Nat) → List BlockId → System → Option (List BlockId) × System
  | 0, stock, s => (some stock, s)
  | count + 1, stock, s =>
    match s.request size with
    | (some id, s) => System.stock size count (id :: stock) s
    | (none, s) => (none, s)

end System

end ArrayStore
