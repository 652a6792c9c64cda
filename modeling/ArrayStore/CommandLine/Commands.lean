import ArrayStore.CommandLine.Arguments
import ArrayStore.Value.Basic

/-! The command-line tool: it builds sample pools and reports on them, and it
sends a synthetic array through a stream and back. -/

namespace ArrayStore.CommandLine

structure Result where
  code : Nat
  lines : List String
  failure : Option Error := none
  deriving DecidableEq, Repr

def programName : String := "pvwire-cli"

def version : String := "0.3.0"

def registry : RegistryId := 1

def poolsOptions : List OptionSpec := [⟨"elements", some 'e', some "16"⟩]

def roundTripOptions : List OptionSpec :=
  [⟨"kind", some 'k', some "double"⟩, ⟨"count", some 'c', some "1000"⟩,
   ⟨"fragment", some 'f', some "7"⟩, ⟨"buffer", some 'b', some "64"⟩,
   ⟨"direct", none, none⟩, ⟨"little-endian", none, none⟩]

def numberOf (specs : List OptionSpec) (uses : List Use) (name : String) : Except Error Nat :=
  match number? (valueOf specs uses name) with
  | some n => .ok n
  | none => .error (.invalidParameter (.notANumber name))

/-- A change run for its answer and the state it leaves. -/
def attempt {σ α : Type} (change : Change σ α) (s : σ) : Except Error (α × σ) :=
  match change s with
  | .ok a s => .ok (a, s)
  | .error e _ => .error e

def poolReport (elements : Nat) : Except Error (List String) := do
  let build (calls : List PoolConfig.Call) (size : Nat) :=
    Allocators.build registry (PoolConfig.callAll {} calls) size
  let m : Allocators := {}
  let (capped, m) ←
    attempt (build [.name "capped pool", .fixed elements, .capped 2, .initial 1] 8) m
  let (cached, m) ←
    attempt (build [.name "cached pool", .fixed elements, .cached 2, .initial 0] 4) m
  let (unnamed, m) ← attempt (build [.fixed elements] 1) m
  let (_, m) ← attempt (Writable.blank .double capped elements false) m
  let (a, m) ← attempt (Writable.blank .int cached elements false) m
  let (b, m) ← attempt (Writable.blank .int cached elements false) m
  let (c, m) ← attempt (Writable.blank .int cached elements false) m
  let m := c.drop (b.drop (a.drop m))
  let (_, m) ← attempt (Writable.blank .ubyte unnamed 1 false) m
  let report := (m.report registry).splitOn "\n" |>.dropLast
  let summary (a : Allocator) : String :=
    m.name a ++ ": " ++ ((m.statistics? a).getD {}).summary
  return report ++ [summary capped, summary cached]

def synthetic (k : Kind) (i : Nat) : Scalar :=
  match k with
  | .boolean => .boolean (i % 3 == 0)
  | .byte => .byte (UInt8.ofNat i).toInt8
  | .short => .short (UInt16.ofNat i).toInt16
  | .int => .int ((UInt32.ofNat i).toInt32 * 7)
  | .long => .long (-(UInt64.ofNat i).toInt64)
  | .ubyte => .ubyte (UInt8.ofNat i)
  | .ushort => .ushort (UInt16.ofNat i)
  | .uint => .uint (UInt32.ofNat i)
  | .ulong => .ulong (UInt64.ofNat i)
  | .float => .float ((UInt64.ofNat i).toFloat32 * 0.5).toBits
  | .double => .double ((UInt64.ofNat i).toFloat / 3.0).toBits
  | .text => .text s!"element {i}"

structure Trip where
  kind : Kind
  count : Nat
  fragment : Nat
  buffer : Nat
  direct : Bool
  order : ByteOrder
  deriving DecidableEq, Repr

def Trip.run (t : Trip) : Except Error (List String × Bool) := do
  let field : Field := ⟨"synthetic", t.kind⟩
  let (source, w) := FieldValue.create field .shared {}
  let values := (List.range t.count).map (synthetic t.kind)
  let (_, source, w) ← attempt (FieldValue.putFrom values) (source, w)
  let outgoing : Outgoing := ⟨.empty t.buffer t.order, .stream { direct := t.direct }⟩
  let (_, outgoing) ← attempt (source.serialize w) outgoing
  let (_, outgoing) ← attempt Outgoing.finish outgoing
  let bytes := outgoing.delivered
  let flushes :=
    match outgoing.outlet with
    | .closed => 0
    | .stream writer => writer.flushes
  let reader : Reader := { source := { rest := bytes }, direct := t.direct }
  let (target, w) := FieldValue.create field .shared w
  let incoming : Incoming :=
    ⟨(Buffer.empty t.buffer t.order).flip, .stream (reader.withFragment t.fragment)⟩
  let (_, target, w, incoming) ← attempt FieldValue.deserialize (target, w, incoming)
  let refills :=
    match incoming.inlet with
    | .stream reader => reader.refills
    | _ => 0
  let equal := source.same target w
  let lines :=
    ["Round trip of " ++ t.kind.name ++ s!"[{t.count}]:",
     "  Byte order: " ++ t.order.name,
     s!"  Direct path: {t.direct}",
     s!"  Encoded bytes: {bytes.length}",
     s!"  Buffer flushes: {flushes}",
     s!"  Stream refills: {refills}",
     s!"  Equal: {equal}"]
  return (lines, equal)

def Trip.ofOptions (uses : List Use) : Except Error Trip := do
  let specs := roundTripOptions
  let kindName := valueOf specs uses "kind"
  let kind ←
    match Kind.ofName? kindName with
    | some kind => .ok kind
    | none => .error (.invalidParameter (.unknownKind kindName))
  let count ← numberOf specs uses "count"
  let fragment ← numberOf specs uses "fragment"
  let buffer ← numberOf specs uses "buffer"
  return ⟨kind, count, fragment, buffer, isUsed uses "direct",
    if isUsed uses "little-endian" then .little else .big⟩

def information : List String :=
  ["pvwire v" ++ version, "Copy-on-write array values and wire codec", "", "Build information:",
   "  Debug build: true"]

def failed (e : Error) : Result := ⟨1, [], some e⟩

def answer (command : String) : Request → Result
  | .help => ⟨0, [], none⟩
  | .version =>
    ⟨0, [if command.isEmpty then programName ++ " " ++ version
      else programName ++ "-" ++ command ++ " "], none⟩
  | .wrong => ⟨1, [], none⟩

def runPools (args : List String) : Result :=
  match readOptions poolsOptions args with
  | .error r => answer "pools" r
  | .ok uses =>
    match numberOf poolsOptions uses "elements" >>= poolReport with
    | .error e => failed e
    | .ok lines => ⟨0, lines, none⟩

def runRoundTrip (args : List String) : Result :=
  match readOptions roundTripOptions args with
  | .error r => answer "roundtrip" r
  | .ok uses =>
    match Trip.ofOptions uses >>= Trip.run with
    | .error e => failed e
    | .ok (lines, true) => ⟨0, lines, none⟩
    | .ok (lines, false) =>
      ⟨1, lines, some (.malformed (.other "decoded array differs from source"))⟩

def runInformation (args : List String) : Result :=
  match readOptions [] args with
  | .error r => answer "info" r
  | .ok _ => ⟨0, information, none⟩

def commandNames : List String := ["pools", "roundtrip", "info", "help"]

def runHelp (topics : List String) : Result :=
  match topics with
  | [] => answer "" .help
  | [topic] => answer topic (if commandNames.contains topic then .help else .wrong)
  | _ => answer "" .wrong

def run (args : List String) : Result :=
  match args with
  | "pools" :: rest => runPools rest
  | "roundtrip" :: rest => runRoundTrip rest
  | "info" :: rest => runInformation rest
  | "help" :: topics => runHelp topics
  | args =>
    match readOptions [] args with
    | .error r => answer "" r
    | .ok _ => ⟨0, ["Use --help for usage information"], none⟩

end ArrayStore.CommandLine
