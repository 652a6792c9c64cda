/-! Documents: trees of nulls, truth values, numbers, texts, lists and members.
Descriptions of fields and pools are exchanged in this form. -/

namespace ArrayStore

inductive Document where
  | null
  | truth (value : Bool)
  /-- A whole number written without fraction and exponent. -/
  | whole (value : Int)
  /-- Any other number, as it is written. -/
  | decimal (literal : String)
  | text (value : String)
  | list (items : List Document)
  | members (members : List (String × Document))
  deriving Inhabited

namespace Document

def natural (n : Nat) : Document := .whole n

def naturals (ns : List Nat) : Document := .list (ns.map natural)

def orNull : Option Document → Document
  | none => .null
  | some d => d

/-- The member of a name; of several the last one counts. -/
def member? (name : String) : Document → Option Document
  | members ms => (ms.reverse.find? fun m => m.1 == name).map Prod.snd
  | _ => none

def text? : Document → Option String
  | text value => some value
  | _ => none

def truth? : Document → Option Bool
  | truth value => some value
  | _ => none

def whole? : Document → Option Int
  | whole value => some value
  | _ => none

def list? : Document → Option (List Document)
  | list items => some items
  | _ => none

def word? : Document → Option Nat
  | whole (.ofNat n) => if n < UInt64.size then some n else none
  | _ => none

/-- The fields of a structure, in order: by name, or as a list of just so many items. -/
def fields? (names : List String) : Document → Option (List (Option Document))
  | list items => if items.length = names.length then some (items.map some) else none
  | members ms => some (names.map fun name => member? name (members ms))
  | _ => none

/-- A choice without content: its name, or a single member of that name that holds null. -/
def choice? : Document → Option String
  | text name => some name
  | members [(name, .null)] => some name
  | _ => none

end Document

end ArrayStore
