import ArrayStore.Kind
import ArrayStore.Text.Quoted
import ArrayStore.Text.Utf8

/-! What can go wrong, by cause.
The wording of every cause stands here and nowhere else. -/

namespace ArrayStore

inductive Refusal where
  | exceedsBlock (bytes : Nat)
  | capped (blocks : Nat)
  | sizeOverflow
  | systemRefused
  | stockRefused
  | other (text : String)
  deriving DecidableEq, Repr

def Refusal.text : Refusal → String
  | exceedsBlock bytes => s!"exceeds block size of {bytes} bytes"
  | capped blocks => s!"capped at {blocks} blocks"
  | sizeOverflow => "size overflow"
  | systemRefused => "system allocation failed"
  | stockRefused => "system allocation failed during initial stock"
  | other text => text

inductive Misuse where
  | positionBeyondLimit (position limit : Nat)
  | limitBeyondCapacity (limit capacity : Nat)
  | sizeNotEncodable (size : Nat)
  | emptyBlock
  | emptyElement
  | blockOverflow
  | countBeyondLimit (count limit : Nat)
  | stockBeyondLimit (stock limit : Nat)
  | wrongKind (field : Field) (kind : Kind)
  | unknownKind (name : String)
  | notANumber (option : String)
  | other (parameter text : String)
  deriving DecidableEq, Repr

namespace Misuse

def parameter : Misuse → String
  | positionBeyondLimit .. => "position"
  | limitBeyondCapacity .. => "limit"
  | sizeNotEncodable _ => "size"
  | emptyBlock | blockOverflow => "fixed"
  | emptyElement => "element_size"
  | countBeyondLimit .. | stockBeyondLimit .. => "initial"
  | wrongKind .. => "field"
  | unknownKind _ => "kind"
  | notANumber option => option
  | other parameter _ => parameter

def text : Misuse → String
  | positionBeyondLimit position limit => s!"{position} beyond limit {limit}"
  | limitBeyondCapacity limit capacity => s!"{limit} beyond capacity {capacity}"
  | sizeNotEncodable size => s!"{size} does not fit the size encoding"
  | emptyBlock => "fixed() allocation size must be > 0"
  | emptyElement => "element size must be > 0"
  | blockOverflow => "block size overflows"
  | countBeyondLimit count limit => s!"initial count {count} exceeds pool limit {limit}"
  | stockBeyondLimit stock limit => s!"initial stock {stock} exceeds pool limit {limit}"
  | wrongKind field kind => field.typeId ++ " does not hold " ++ kind.name ++ " elements"
  | unknownKind name => "unknown type '" ++ name ++ "'"
  | notANumber _ => "invalid number"
  | other _ text => text

end Misuse

inductive Malformation where
  | negativeSize (size : Int)
  | invalidText (fault : Utf8.Fault)
  | other (text : String)
  deriving DecidableEq, Repr

def Malformation.text : Malformation → String
  | negativeSize size => s!"negative size {size}"
  | invalidText fault => "invalid UTF-8: " ++ fault.message
  | other text => text

inductive FaultKind where
  | unexpectedEnd | writeZero | notFound | other
  deriving DecidableEq, Repr

def FaultKind.name : FaultKind → String
  | unexpectedEnd => "UnexpectedEof"
  | writeZero => "WriteZero"
  | notFound => "NotFound"
  | other => "Other"

structure StreamFault where
  kind : FaultKind
  text : String
  deriving DecidableEq, Repr

inductive Error where
  /-- A structural change was asked of an immutable array. -/
  | immutable (field : String)
  | allocationFailed (pool : String) (requested : Nat) (reason : Refusal)
  | invalidParameter (problem : Misuse)
  | insufficientSpace (requested available : Nat)
  | stream (context : String) (fault : StreamFault)
  | malformed (problem : Malformation)
  /-- An inlet reported success without adding anything, and would do so for ever. -/
  | stalled
  /-- A sum of sizes is beyond the machine's words, and the operation does not return. -/
  | overflow
  deriving DecidableEq, Repr

namespace Error

def className : Error → String
  | immutable _ => "Immutable"
  | allocationFailed .. => "AllocationFailed"
  | invalidParameter _ => "InvalidParameter"
  | insufficientSpace .. => "InsufficientSpace"
  | stream .. => "Io"
  | malformed _ => "Serialization"
  | stalled => "Stalled"
  | overflow => "Overflow"

def message : Error → String
  | immutable field => "Immutable: " ++ field ++ " cannot be modified"
  | allocationFailed pool requested reason =>
    "Allocation failed in " ++ pool ++ s!": requested {requested} bytes (" ++ reason.text ++ ")"
  | invalidParameter problem =>
    "Invalid parameter: " ++ problem.parameter ++ " - " ++ problem.text
  | insufficientSpace requested available =>
    s!"Insufficient space: requested {requested}, available {available}"
  | stream context fault => "I/O error: " ++ context ++ ": " ++ fault.text
  | malformed problem => "Serialization error: " ++ problem.text
  | stalled => "Stalled: the inlet makes no progress"
  | overflow => "Overflow: attempt to add with overflow"

def ofFault (fault : StreamFault) : Error := stream "stream operation failed" fault

def isImmutable : Error → Bool
  | immutable _ => true
  | _ => false

def isAllocationFailure : Error → Bool
  | allocationFailed .. => true
  | _ => false

def source? : Error → Option StreamFault
  | stream _ fault => some fault
  | _ => none

/-- The error with its members named, as a failed program prints it. -/
def members : Error → String
  | immutable field => "Immutable \x7b field: " ++ Text.quoted field ++ " \x7d"
  | allocationFailed pool requested reason =>
    "AllocationFailed \x7b pool: " ++ Text.quoted pool ++ ", requested: " ++ toString requested
      ++ ", reason: " ++ Text.quoted reason.text ++ " \x7d"
  | invalidParameter problem =>
    "InvalidParameter \x7b parameter: " ++ Text.quoted problem.parameter ++ ", message: "
      ++ Text.quoted problem.text ++ " \x7d"
  | insufficientSpace requested available =>
    "InsufficientSpace \x7b requested: " ++ toString requested ++ ", available: "
      ++ toString available ++ " \x7d"
  | stream context fault =>
    "Io \x7b message: " ++ Text.quoted (context ++ ": " ++ fault.text)
      ++ ", source: Some(Custom \x7b kind: " ++ fault.kind.name ++ ", error: "
      ++ Text.quoted fault.text ++ " \x7d) \x7d"
  | malformed problem => "Serialization \x7b message: " ++ Text.quoted problem.text ++ " \x7d"
  | stalled => "Stalled"
  | overflow => "Overflow"

end Error

/-- The answer of an operation together with the state it leaves. An operation
that fails leaves a state too, so that what it kept can be said. -/
abbrev Outcome (σ α : Type) := EStateM.Result Error σ α

abbrev Change (σ α : Type) := EStateM Error σ α

namespace Outcome

def state {σ α : Type} : Outcome σ α → σ
  | .ok _ s => s
  | .error _ s => s

def answer {σ α : Type} : Outcome σ α → Except Error α
  | .ok a _ => .ok a
  | .error e _ => .error e

@[simp] theorem state_ok {σ α : Type} (a : α) (s : σ) :
    state (.ok a s : Outcome σ α) = s := rfl

@[simp] theorem state_error {σ α : Type} (e : Error) (s : σ) :
    state (.error e s : Outcome σ α) = s := rfl

end Outcome

end ArrayStore
