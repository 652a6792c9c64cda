import ArrayStore.ByteOrder
import ArrayStore.Document.Basic
import ArrayStore.Kind
import ArrayStore.Memory.Pool

/-! Descriptions as documents.
A structure is read from its members or from a list of its fields in order. A
choice is its name, or a single member under that name. -/

namespace ArrayStore

namespace Kind

def toDocument (k : Kind) : Document := .text k.name

def ofDocument? (d : Document) : Option Kind := d.choice?.bind ofName?

end Kind

namespace ByteOrder

def toDocument (o : ByteOrder) : Document := .text o.name

def ofDocument? (d : Document) : Option ByteOrder :=
  match d.choice? with
  | some "Big" => some .big
  | some "Little" => some .little
  | _ => none

end ByteOrder

namespace Field

def toDocument (f : Field) : Document :=
  .members [("name", .text f.name), ("element_type", f.kind.toDocument)]

def ofDocument? (d : Document) : Option Field :=
  match d.fields? ["name", "element_type"] with
  | some [some name, some kind] => do return ⟨← name.text?, ← Kind.ofDocument? kind⟩
  | _ => none

end Field

namespace Policy

def toDocument : Policy → Document
  | unbounded => .text "Unbounded"
  | capped limit => .members [("Capped", .natural limit)]
  | cached limit => .members [("Cached", .natural limit)]

def ofDocument? : Document → Option Policy
  | .members [("Capped", d)] => d.word?.map capped
  | .members [("Cached", d)] => d.word?.map cached
  | d => if d.choice? = some "Unbounded" then some unbounded else none

end Policy

namespace PoolConfig

def toDocument (c : PoolConfig) : Document :=
  .members
    [("name", .text c.name),
     ("block_elements", .orNull (c.blockElements.map Document.natural)),
     ("policy", c.policy.toDocument),
     ("initial_count", .natural c.initialCount)]

def blockElementsOf? : Option Document → Option (Option Nat)
  | none | some .null => some none
  | some d => d.word?.map some

def ofDocument? (d : Document) : Option PoolConfig :=
  match d.fields? ["name", "block_elements", "policy", "initial_count"] with
  | some [some name, elements, some policy, some count] => do
    return ⟨← name.text?, ← blockElementsOf? elements, ← Policy.ofDocument? policy, ← count.word?⟩
  | _ => none

end PoolConfig

namespace Snapshot

def toDocument (s : Snapshot) : Document :=
  .members
    [("name", .text s.name), ("num_allocs", .natural s.numAllocs),
     ("size_allocs", .natural s.sizeAllocs), ("num_free", .natural s.numFree),
     ("size_free", .natural s.sizeFree), ("alloc_size", .natural s.allocSize),
     ("fixed_size", .truth s.fixedSize), ("has_stats", .truth s.hasStats)]

def ofDocument? (d : Document) : Option Snapshot :=
  match d.fields? ["name", "num_allocs", "size_allocs", "num_free", "size_free", "alloc_size",
      "fixed_size", "has_stats"] with
  | some [some name, some numAllocs, some sizeAllocs, some numFree, some sizeFree,
      some allocSize, some fixedSize, some hasStats] => do
    return ⟨← name.text?, ← numAllocs.word?, ← sizeAllocs.word?, ← numFree.word?,
      ← sizeFree.word?, ← allocSize.word?, ← fixedSize.truth?, ← hasStats.truth?⟩
  | _ => none

end Snapshot

namespace Statistics

def toDocument (s : Statistics) : Document :=
  .members
    [("total_allocations", .natural s.totalAllocations),
     ("total_releases", .natural s.totalReleases),
     ("allocation_failures", .natural s.allocationFailures),
     ("evictions", .natural s.evictions),
     ("peak_outstanding", .natural s.peakOutstanding)]

def ofDocument? (d : Document) : Option Statistics :=
  match d.fields? ["total_allocations", "total_releases", "allocation_failures", "evictions",
      "peak_outstanding"] with
  | some [some allocations, some releases, some failures, some evictions, some peak] => do
    return ⟨← allocations.word?, ← releases.word?, ← failures.word?, ← evictions.word?,
      ← peak.word?⟩
  | _ => none

end Statistics

end ArrayStore
