import ArrayStore.Document.Basic
import ArrayStore.Text.Quoted

/-! Writing documents as text. -/

namespace ArrayStore.Document

def fourDigits (n : Nat) : List Char :=
  let digits := Text.hexadecimal n
  List.replicate (4 - digits.length) '0' ++ digits

def escape (c : Char) : List Char :=
  if c = '"' then ['\\', '"']
  else if c = '\\' then ['\\', '\\']
  else if c.toNat < 0x20 then ['\\', 'u'] ++ fourDigits c.toNat
  else [c]

def writeText (s : String) : String := String.ofList ('"' :: s.toList.flatMap escape ++ ['"'])

mutual

def write : Document → String
  | null => "null"
  | truth value => if value then "true" else "false"
  | whole value => toString value
  | decimal literal => literal
  | text value => writeText value
  | list items => "[" ++ writeItems items ++ "]"
  | members ms => "\x7b" ++ writeMembers ms ++ "\x7d"

def writeItems : List Document → String
  | [] => ""
  | [d] => d.write
  | d :: rest => d.write ++ "," ++ writeItems rest

def writeMembers : List (String × Document) → String
  | [] => ""
  | [(name, d)] => writeText name ++ ":" ++ d.write
  | (name, d) :: rest => writeText name ++ ":" ++ d.write ++ "," ++ writeMembers rest

end

end ArrayStore.Document
