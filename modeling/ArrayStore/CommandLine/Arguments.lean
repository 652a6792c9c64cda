/-! Reading command-line arguments.
Options are named in full after two dashes or by one letter after one dash. A
value follows an equals sign, stands in the next argument, or directly follows
the letter. An option that is named without a value takes its default. -/

namespace ArrayStore.CommandLine

structure OptionSpec where
  name : String
  letter : Option Char := none
  /-- The value when none is given; none for a switch, which takes no value. -/
  default : Option String := none
  deriving Repr

inductive Request where
  | help
  | version
  | wrong
  deriving DecidableEq, Repr

structure Use where
  option : String
  value : Option String
  deriving DecidableEq, Repr

def isOption (arg : List Char) : Bool := arg.head? == some '-' && arg.length != 1

def nextValue (rest : List String) : Option String × List String :=
  match rest with
  | value :: more => if isOption value.toList then (none, rest) else (some value, more)
  | [] => (none, [])

def readLong (specs : List OptionSpec) (arg : List Char) (rest : List String) :
    Except Request (Use × List String) :=
  let body := arg.dropWhile (· == '-')
  let name := String.ofList (body.takeWhile (· != '='))
  let tail := body.dropWhile (· != '=')
  if name = "help" then .error .help
  else if name = "version" then .error .version
  else
    match specs.find? fun spec => spec.name == name with
    | none => .error .wrong
    | some spec =>
      if spec.default.isNone then .ok (⟨name, none⟩, rest)
      else if tail.isEmpty then
        let (value, rest) := nextValue rest
        .ok (⟨name, value⟩, rest)
      else .ok (⟨name, some (String.ofList (tail.dropWhile (· == '=')))⟩, rest)

def readShort (specs : List OptionSpec) (arg : List Char) (rest : List String) :
    Except Request (Use × List String) :=
  match arg.dropWhile (· == '-') with
  | [] => .error .wrong
  | letter :: tail =>
    match specs.find? fun spec => spec.letter == some letter with
    | none =>
      if letter = 'h' then .error .help
      else if letter = 'V' then .error .version
      else .error .wrong
    | some spec =>
      if tail.isEmpty then
        let (value, rest) := nextValue rest
        .ok (⟨spec.name, value⟩, rest)
      else .ok (⟨spec.name, some (String.ofList (tail.dropWhile (· == '=')))⟩, rest)

/-- All uses of options. No other arguments are taken. The fuel is the number
of arguments, of which each use takes at least one. -/
def readUses (specs : List OptionSpec) : (fuel : Nat) → List String → Except Request (List Use)
  | 0, _ => .ok []
  | _, [] => .ok []
  | fuel + 1, arg :: rest =>
    let chars := arg.toList
    if arg = "--" then if rest.isEmpty then .ok [] else .error .wrong
    else if !isOption chars then .error .wrong
    else
      let read := if chars.take 2 = ['-', '-'] then readLong specs chars rest
        else readShort specs chars rest
      match read with
      | .error r => .error r
      | .ok (use, rest) =>
        match readUses specs fuel rest with
        | .error r => .error r
        | .ok uses => .ok (use :: uses)

def readOptions (specs : List OptionSpec) (args : List String) : Except Request (List Use) :=
  match readUses specs args.length args with
  | .error r => .error r
  | .ok uses =>
    if specs.all fun spec => (uses.filter fun use => use.option == spec.name).length ≤ 1
    then .ok uses
    else .error .wrong

def valueOf (specs : List OptionSpec) (uses : List Use) (name : String) : String :=
  let given := (uses.find? fun use => use.option == name).bind Use.value
  let default := (specs.find? fun spec => spec.name == name).bind OptionSpec.default
  (given.or default).getD ""

def isUsed (uses : List Use) (name : String) : Bool := uses.any fun use => use.option == name

/-- A decimal number that fits 64 bits, with an optional plus sign. -/
def number? (text : String) : Option Nat :=
  let digits :=
    match text.toList with
    | '+' :: rest => rest
    | digits => digits
  if digits.isEmpty || !digits.all Char.isDigit then none
  else
    let n := Nat.ofDigitChars 10 digits 0
    if n < UInt64.size then some n else none

end ArrayStore.CommandLine
