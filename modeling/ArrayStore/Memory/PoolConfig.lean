import ArrayStore.Error

/-! Descriptions of pools, and the calls that build one up. -/

namespace ArrayStore

inductive Policy where
  /-- No cap on blocks outstanding, and every released block is kept. -/
  | unbounded
  /-- At most so many blocks are outstanding. -/
  | capped (limit : Nat)
  /-- No cap on blocks outstanding, and at most so many released blocks are kept. -/
  | cached (limit : Nat)
  deriving DecidableEq, Repr, Inhabited

namespace Policy

def noLimit : Nat := UInt64.size - 1

def limit : Policy → Nat
  | unbounded => noLimit
  | capped limit | cached limit => limit

def isCapped : Policy → Bool
  | capped _ => true
  | _ => false

def describe : Policy → String
  | unbounded => "Unbounded"
  | capped limit => s!"Capped({limit})"
  | cached limit => s!"Cached({limit})"

end Policy

structure PoolConfig where
  name : String := ""
  /-- Elements per block; none selects the shared allocator, which takes any size. -/
  blockElements : Option Nat := none
  policy : Policy := .unbounded
  /-- Blocks allocated up front. -/
  initialCount : Nat := 1
  deriving DecidableEq, Repr, Inhabited

namespace PoolConfig

/-- The longest name kept, in characters. -/
def maxName : Nat := 59

def truncate (name : String) : String :=
  if name.length ≤ maxName then name else String.ofList (name.toList.take maxName)

theorem length_truncate_le (name : String) : (truncate name).length ≤ maxName := by
  unfold truncate
  split
  · assumption
  · rw [String.length_ofList, List.length_take]
    exact Nat.min_le_left _ _

def named (name : String) : PoolConfig := { name := truncate name }

def isFixed (c : PoolConfig) : Bool := c.blockElements.isSome

/-- What is wrong with a description. Without a block size nothing else matters. -/
def problem? (c : PoolConfig) : Option Misuse :=
  match c.blockElements with
  | none => none
  | some elements =>
    if elements = 0 then some .emptyBlock
    else if c.policy.limit < c.initialCount then
      some (.countBeyondLimit c.initialCount c.policy.limit)
    else none

inductive Call where
  | name (name : String)
  | fixed (elements : Nat)
  | dynamic
  | capped (limit : Nat)
  | cached (limit : Nat)
  | initial (count : Nat)
  deriving DecidableEq, Repr

def call (c : PoolConfig) : Call → PoolConfig
  | .name name => { c with name := truncate name }
  | .fixed elements => { c with blockElements := some elements }
  | .dynamic => { c with blockElements := none }
  | .capped limit => { c with policy := .capped limit }
  | .cached limit => { c with policy := .cached limit }
  | .initial count => { c with initialCount := count }

def callAll (c : PoolConfig) (calls : List Call) : PoolConfig := calls.foldl call c

end PoolConfig

end ArrayStore
