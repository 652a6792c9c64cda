import ArrayStore.CommandLine.Commands

/-! The command-line tool as a program. -/

namespace ArrayStore.CommandLine

def report (result : Result) : IO UInt32 := do
  for line in result.lines do
    IO.println line
  match result.failure with
  | some e => IO.eprintln ("Error: " ++ e.members)
  | none => pure ()
  return UInt32.ofNat result.code

end ArrayStore.CommandLine

def main (args : List String) : IO UInt32 :=
  ArrayStore.CommandLine.report (ArrayStore.CommandLine.run args)
