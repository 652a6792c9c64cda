import ArrayStore.Document.Basic

/-! Reading documents from text.
Blanks may stand between any two signs. A character outside the first 65536 may
be escaped as two halves, which have to follow each other. -/

namespace ArrayStore.Document

def isBlank (c : Char) : Bool := c == ' ' || c == '\t' || c == '\n' || c == '\r'

def skipBlanks (cs : List Char) : List Char := cs.dropWhile isBlank

def hexDigit? (c : Char) : Option Nat :=
  if '0' ≤ c ∧ c ≤ '9' then some (c.toNat - '0'.toNat)
  else if 'a' ≤ c ∧ c ≤ 'f' then some (c.toNat - 'a'.toNat + 10)
  else if 'A' ≤ c ∧ c ≤ 'F' then some (c.toNat - 'A'.toNat + 10)
  else none

def hexNumber? (cs : List Char) : Option Nat :=
  cs.foldlM (fun n c => (hexDigit? c).map (16 * n + ·)) 0

def shortEscape? : Char → Option Char
  | '"' => some '"'
  | '\\' => some '\\'
  | '/' => some '/'
  | 'b' => some '\x08'
  | 'f' => some '\x0c'
  | 'n' => some '\n'
  | 'r' => some '\r'
  | 't' => some '\t'
  | _ => none

/-- The rest of a text behind its opening quote. `high` is the first half of a
character written in two escapes. -/
def readText (high : Option Nat) (done : List Char) : List Char → Option (String × List Char)
  | [] => none
  | '\\' :: 'u' :: a :: b :: c :: d :: rest =>
    match hexNumber? [a, b, c, d], high with
    | none, _ => none
    | some n, some h =>
      if 0xDC00 ≤ n ∧ n < 0xE000 then
        readText none (Char.ofNat (0x10000 + (h - 0xD800) * 0x400 + (n - 0xDC00)) :: done) rest
      else none
    | some n, none =>
      if 0xD800 ≤ n ∧ n < 0xDC00 then readText (some n) done rest
      else if 0xDC00 ≤ n ∧ n < 0xE000 then none
      else readText none (Char.ofNat n :: done) rest
  | c :: rest =>
    if high.isSome then none
    else if c = '"' then some (String.ofList done.reverse, rest)
    else if c = '\\' then
      match rest with
      | e :: rest => (shortEscape? e).bind fun c => readText none (c :: done) rest
      | [] => none
    else if c.toNat < 0x20 then none
    else readText none (c :: done) rest

def isNumberPart (c : Char) : Bool :=
  c.isDigit || c == '-' || c == '+' || c == '.' || c == 'e' || c == 'E'

def areDigits (cs : List Char) : Bool := !cs.isEmpty && cs.all Char.isDigit

def isPlain (cs : List Char) : Bool := areDigits cs && (cs.length == 1 || cs.head? != some '0')

def isExponent : List Char → Bool
  | [] => false
  | letter :: rest =>
    let digits :=
      match rest with
      | '+' :: digits | '-' :: digits => digits
      | digits => digits
    (letter == 'e' || letter == 'E') && areDigits digits

def isFractional : List Char → Bool
  | '.' :: rest =>
    let tail := rest.dropWhile Char.isDigit
    areDigits (rest.takeWhile Char.isDigit) && (tail.isEmpty || isExponent tail)
  | rest => isExponent rest

/-- A number as it is written. Minus zero is no whole number. -/
def number? (literal : List Char) : Option Document :=
  let (negative, body) :=
    match literal with
    | '-' :: body => (true, body)
    | body => (false, body)
  let digits := body.takeWhile Char.isDigit
  let tail := body.dropWhile Char.isDigit
  if !isPlain digits then none
  else if tail.isEmpty then
    let n := Nat.ofDigitChars 10 digits 0
    if !negative then some (.whole n)
    else if n = 0 then some (.decimal "-0")
    else some (.whole (-n))
  else if isFractional tail then some (.decimal (String.ofList literal))
  else none

mutual

/-- One document. The fuel bounds the depth and the length of what is read. -/
def readValue (fuel : Nat) (cs : List Char) : Option (Document × List Char) :=
  match fuel with
  | 0 => none
  | fuel + 1 =>
    match skipBlanks cs with
    | 'n' :: 'u' :: 'l' :: 'l' :: rest => some (.null, rest)
    | 't' :: 'r' :: 'u' :: 'e' :: rest => some (.truth true, rest)
    | 'f' :: 'a' :: 'l' :: 's' :: 'e' :: rest => some (.truth false, rest)
    | '"' :: rest => (readText none [] rest).map fun (s, rest) => (.text s, rest)
    | '[' :: rest =>
      match skipBlanks rest with
      | ']' :: rest => some (.list [], rest)
      | rest => readItems fuel [] rest
    | '\x7b' :: rest =>
      match skipBlanks rest with
      | '\x7d' :: rest => some (.members [], rest)
      | rest => readMembers fuel [] rest
    | cs =>
      (number? (cs.takeWhile isNumberPart)).map fun d => (d, cs.dropWhile isNumberPart)

def readItems (fuel : Nat) (done : List Document) (cs : List Char) :
    Option (Document × List Char) :=
  match fuel with
  | 0 => none
  | fuel + 1 =>
    match readValue fuel cs with
    | none => none
    | some (d, rest) =>
      match skipBlanks rest with
      | ',' :: rest => readItems fuel (d :: done) rest
      | ']' :: rest => some (.list (d :: done).reverse, rest)
      | _ => none

def readMembers (fuel : Nat) (done : List (String × Document)) (cs : List Char) :
    Option (Document × List Char) :=
  match fuel with
  | 0 => none
  | fuel + 1 =>
    match skipBlanks cs with
    | '"' :: rest =>
      match readText none [] rest with
      | none => none
      | some (name, rest) =>
        match skipBlanks rest with
        | ':' :: rest =>
          match readValue fuel rest with
          | none => none
          | some (d, rest) =>
            match skipBlanks rest with
            | ',' :: rest => readMembers fuel ((name, d) :: done) rest
            | '\x7d' :: rest => some (.members ((name, d) :: done).reverse, rest)
            | _ => none
        | _ => none
    | _ => none

end

def read? (text : String) : Option Document :=
  let cs := text.toList
  match readValue (2 * cs.length + 1) cs with
  | some (d, rest) => if (skipBlanks rest).isEmpty then some d else none
  | none => none

end ArrayStore.Document
