/-! Immutability tokens.
A token holds flags: its own first, then one for each enclosing record. A flag
that is raised stays raised. A token is immutable when any of its flags is
raised, so freezing a record reaches every token below it and none above. -/

namespace ArrayStore

/-- The flags of a program: how many there are, and which are raised. -/
structure Flags where
  made : Nat := 0
  raised : List Nat := []
  deriving DecidableEq, Repr, Inhabited

structure Token where
  flags : List Nat
  deriving DecidableEq, Repr, Inhabited

namespace Flags

def isRaised (f : Flags) (flag : Nat) : Bool := f.raised.contains flag

def raise (f : Flags) (flag : Nat) : Flags := { f with raised := flag :: f.raised }

def isImmutable (f : Flags) (t : Token) : Bool := t.flags.any f.isRaised

def newToken (f : Flags) : Token × Flags := (⟨[f.made]⟩, { f with made := f.made + 1 })

def childToken (f : Flags) (t : Token) : Token × Flags :=
  (⟨f.made :: t.flags⟩, { f with made := f.made + 1 })

/-- Raise the own flag of a token; nothing happens to a token without flags. -/
def freeze (f : Flags) (t : Token) : Flags := t.flags.head?.elim f f.raise

theorem isRaised_raise (f : Flags) (flag other : Nat) :
    (f.raise flag).isRaised other = (other = flag || f.isRaised other) := by
  simp [isRaised, raise]

theorem isImmutable_freeze {f : Flags} {t : Token} (immutable : f.isImmutable t = true)
    (u : Token) : (f.freeze u).isImmutable t = true := by
  obtain ⟨flag, member, raised⟩ := List.any_eq_true.1 immutable
  refine List.any_eq_true.2 ⟨flag, member, ?_⟩
  unfold freeze
  cases u.flags.head? with
  | none => exact raised
  | some own => simp only [Option.elim_some, isRaised_raise, raised, Bool.or_true]

theorem isImmutable_freeze_self (f : Flags) {t : Token} (flagged : t.flags ≠ []) :
    (f.freeze t).isImmutable t = true := by
  obtain ⟨own, rest, flags⟩ := List.exists_cons_of_ne_nil flagged
  refine List.any_eq_true.2 ⟨own, flags ▸ List.mem_cons_self, ?_⟩
  simp only [freeze, flags, List.head?_cons, Option.elim_some, isRaised_raise, decide_true,
    Bool.true_or]

end Flags

namespace Token

/-- The token that has no flag at all. -/
def bare : Token := ⟨[]⟩

end Token

end ArrayStore
