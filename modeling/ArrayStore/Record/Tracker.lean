/-! Change trackers.
A tracker counts the posts it receives and keeps the set of offsets posted since
it was last cleared, one bit per offset in words of 64 bits. -/

namespace ArrayStore

structure Tracker where
  words : Array (BitVec 64) := #[]
  posts : Nat := 0
  deriving DecidableEq, Repr, Inhabited

namespace Tracker

def isChanged (t : Tracker) (offset : Nat) : Bool :=
  match t.words[offset / 64]? with
  | some word => word.getLsbD (offset % 64)
  | none => false

def wordsFor (t : Tracker) (offset : Nat) : Array (BitVec 64) :=
  t.words ++ Array.replicate (offset / 64 + 1 - t.words.size) 0

def post (t : Tracker) (offset : Nat) : Tracker where
  words := (t.wordsFor offset).modify (offset / 64) fun word =>
    word ||| BitVec.twoPow 64 (offset % 64)
  posts := t.posts + 1

/-- Forget the changes. The posts stay counted. -/
def clear (t : Tracker) : Tracker := { t with words := t.words.map fun _ => 0 }

theorem strip_lt {bits : BitVec 64} (h : bits ≠ 0) : (bits &&& (bits - 1)).toNat < bits.toNat := by
  have positive : bits.toNat ≠ 0 := fun zero => h (BitVec.eq_of_toNat_eq zero)
  have less : (bits - 1).toNat = bits.toNat - 1 := by bv_omega
  rw [BitVec.toNat_and, less]
  exact Nat.lt_of_le_of_lt Nat.and_le_right (Nat.sub_one_lt positive)

/-- The positions of the bits that are set, read off by stripping the lowest one until none is
left. -/
def setBits (bits : BitVec 64) : List Nat :=
  if h : bits = 0 then [] else bits.ctz.toNat :: setBits (bits &&& (bits - 1))
termination_by bits.toNat
decreasing_by exact strip_lt h

def offsetsOf (index : Nat) (word : BitVec 64) : List Nat :=
  (setBits word).map (64 * index + ·)

def changedOffsets (t : Tracker) : List Nat :=
  t.words.toList.zipIdx.flatMap fun (word, index) => offsetsOf index word

def describe (t : Tracker) : String :=
  "ChangeTracker \x7b changed: [" ++ ", ".intercalate (t.changedOffsets.map toString)
    ++ "], posts: " ++ toString t.posts ++ " \x7d"

end Tracker

end ArrayStore
