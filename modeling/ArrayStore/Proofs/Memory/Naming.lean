import ArrayStore.Proofs.Memory.Plates

/-! The names of pools.
A name is cut to a bounded number of characters where it is given, by a call or with a description
of a name alone; a description that is spelled out is taken as it is. Main statement:
`build_bounds_name`, by which a pool bears the beginning of the last name given, and a longer one
than the bound in the last of these cases only. -/

namespace ArrayStore

namespace PoolConfig

theorem truncate_isPrefix (name : String) : (truncate name).toList <+: name.toList := by
  unfold truncate
  split
  · exact List.prefix_rfl
  · rw [String.toList_ofList]
    exact List.take_prefix maxName name.toList

theorem min_le_length_truncate (name : String) :
    min name.length maxName ≤ (truncate name).length := by
  unfold truncate
  split
  · exact Nat.min_le_left _ _
  · rw [String.length_ofList, List.length_take, String.length_toList]
    exact Nat.le_of_eq (Nat.min_comm _ _)

def Call.name? : Call → Option String
  | .name given => some given
  | _ => none

/-- The names that calls give, the last one last. -/
def namesGiven (calls : List Call) : List String := calls.filterMap Call.name?

theorem namesGiven_name (name : String) (calls : List Call) :
    namesGiven (.name name :: calls) = name :: namesGiven calls := rfl

theorem namesGiven_other {t : Call} (other : t.name? = none) (calls : List Call) :
    namesGiven (t :: calls) = namesGiven calls :=
  List.filterMap_cons_none other

theorem callAll_cons (c : PoolConfig) (t : Call) (calls : List Call) :
    c.callAll (t :: calls) = (c.call t).callAll calls := rfl

theorem callAll_append (c : PoolConfig) (front back : List Call) :
    c.callAll (front ++ back) = (c.callAll front).callAll back :=
  List.foldl_append

theorem name_callAll (c : PoolConfig) (calls : List Call) :
    (c.callAll calls).name = ((namesGiven calls).map truncate).getLastD c.name := by
  induction calls generalizing c with
  | nil => rfl
  | cons t calls ih =>
    rw [callAll_cons, ih]
    cases t with
    | name name => rw [namesGiven_name, List.map_cons, List.getLastD_cons, call]
    | _ => rw [namesGiven_other rfl, call]

theorem call_name_comm (c : PoolConfig) (name : String) {t : Call} (other : t.name? = none) :
    (c.call (.name name)).call t = (c.call t).call (.name name) := by
  cases t with
  | name => cases other
  | _ => rfl

theorem callAll_name_comm (c : PoolConfig) (name : String) {others : List Call}
    (silent : namesGiven others = []) :
    (c.call (.name name)).callAll others = (c.callAll others).call (.name name) := by
  induction others generalizing c with
  | nil => rfl
  | cons t others ih =>
    rw [namesGiven, List.filterMap_eq_nil_iff] at silent
    have first := c.call_name_comm name (silent t List.mem_cons_self)
    have rest := ih (c.call t) (List.filterMap_eq_nil_iff.2 fun u later =>
      silent u (List.mem_cons_of_mem t later))
    rw [callAll_cons, callAll_cons, first, rest]

/-- Where a description comes from: it is blank, it is of a name alone, or its fields are spelled
out, one by one or in a document. -/
inductive Origin where
  | blank
  | named (name : String)
  | spelled (config : PoolConfig)

namespace Origin

def config : Origin → PoolConfig
  | blank => {}
  | named name => PoolConfig.named name
  | spelled config => config

def given : Origin → String
  | blank => ""
  | named name => name
  | spelled config => config.name

theorem name_isPrefix (o : Origin) : o.config.name.toList <+: o.given.toList := by
  cases o with
  | blank | spelled => exact List.prefix_rfl
  | named name => exact truncate_isPrefix name

theorem min_le_length_name (o : Origin) : min o.given.length maxName ≤ o.config.name.length := by
  cases o with
  | blank | spelled => exact Nat.min_le_left _ _
  | named name => exact min_le_length_truncate name

end Origin

theorem name_of_callAll (origin : Origin) (calls : List Call) :
    let name := (origin.config.callAll calls).name
    let last := (namesGiven calls).getLastD origin.given
    name.toList <+: last.toList ∧ min last.length maxName ≤ name.length ∧
      (name.length ≤ maxName ↔ namesGiven calls ≠ [] ∨ origin.config.name.length ≤ maxName) := by
  intro name last
  have called : name = ((namesGiven calls).map truncate).getLastD origin.config.name :=
    name_callAll _ _
  rcases List.eq_nil_or_concat (namesGiven calls) with none | ⟨earlier, given, some⟩
  · have first : last = origin.given := by simp only [last, none, List.getLastD_nil]
    rw [none, List.map_nil, List.getLastD_nil] at called
    rw [called, first, none]
    exact ⟨origin.name_isPrefix, origin.min_le_length_name, by simp⟩
  · rw [List.concat_eq_append] at some
    have final : last = given := by simp only [last, some, List.getLastD_concat]
    rw [some, List.map_append, List.map_singleton, List.getLastD_concat] at called
    rw [called, final, some]
    exact ⟨truncate_isPrefix given, min_le_length_truncate given,
      iff_of_true (length_truncate_le given) (.inl (by simp))⟩

end PoolConfig

namespace Allocators

variable {m n o : Allocators} {id : Nat}

theorem build_name {registry : RegistryId} {config : PoolConfig} {elementSize : Nat}
    (built : build registry config elementSize m = .ok (.pool id) n) :
    ∃ p, n.pool? (.pool id) = some p ∧ p.name = config.name := by
  have ordered : (PoolOrder.described config elementSize).build registry m = .ok (.pool id) n :=
    built
  obtain ⟨none, -⟩ | ⟨same, -, plates⟩ := PoolOrder.build_ok ordered
  · cases none
  · have plate := plates id
    rw [Allocator.pool.inj same, if_pos rfl, plate?, Option.map_eq_some_iff] at plate
    obtain ⟨t, found, there⟩ := plate
    rw [← Allocator.pool.inj same] at found
    exact ⟨t.pool, by rw [pool?, found, Option.map_some], congrArg Plate.name there⟩

theorem Since.name {p q : Pool} (since : o.Since n) (before : n.pool? (.pool id) = some p)
    (after : o.pool? (.pool id) = some q) : q.name = p.name := by
  obtain ⟨t, found, rfl⟩ := Option.map_eq_some_iff.1 before
  obtain ⟨u, later, rfl⟩ := Option.map_eq_some_iff.1 after
  obtain gone | same := since.plates id
  · rw [plate?, later] at gone
    cases gone
  · rw [plate?, plate?, found, later] at same
    exact congrArg Plate.name (Option.some.inj same)

/-- The names of fixed-size pools, wherever a description comes from and whatever calls are made on
it. A pool that is built bears the beginning of the last name given, with no more cut off than
the bound asks for, and bears it for as long as it stands. The name is within the bound exactly if
a call gave it or the description came with one that is; a description that is blank or of a name
alone always does. A call that gives a name can be made before or after any other calls. -/
theorem build_bounds_name (origin : PoolConfig.Origin) (calls : List PoolConfig.Call) :
    let last := (PoolConfig.namesGiven calls).getLastD origin.given
    (∀ registry elementSize m id n,
      build registry (origin.config.callAll calls) elementSize m = .ok (.pool id) n →
      ∃ p, n.pool? (.pool id) = some p ∧
        p.name.toList <+: last.toList ∧ min last.length PoolConfig.maxName ≤ p.name.length ∧
        (p.name.length ≤ PoolConfig.maxName ↔ PoolConfig.namesGiven calls ≠ [] ∨
          origin.config.name.length ≤ PoolConfig.maxName) ∧
        ∀ o : Allocators, o.Since n → ∀ q, o.pool? (.pool id) = some q → q.name = p.name) ∧
    ((∀ config, origin ≠ .spelled config) →
      origin.config.name.length ≤ PoolConfig.maxName) ∧
    ∀ name before others after, PoolConfig.namesGiven others = [] →
      origin.config.callAll (before ++ .name name :: (others ++ after)) =
        origin.config.callAll (before ++ (others ++ .name name :: after)) := by
  intro last
  refine ⟨fun registry elementSize m id n built => ?_, fun plain => ?_,
    fun name before others after silent => ?_⟩
  · obtain ⟨p, found, named⟩ := build_name built
    obtain ⟨front, enough, bounded⟩ := PoolConfig.name_of_callAll origin calls
    rw [← named] at front enough bounded
    exact ⟨p, found, front, enough, bounded, fun o since q later => since.name found later⟩
  · cases origin with
    | blank => exact Nat.zero_le _
    | named name => exact PoolConfig.length_truncate_le name
    | spelled config => exact absurd rfl (plain config)
  · simp only [PoolConfig.callAll_append, PoolConfig.callAll_cons]
    exact congrArg (PoolConfig.callAll · after)
      (PoolConfig.callAll_name_comm (origin.config.callAll before) name silent)

/-- A name of sixty characters, each of them two bytes long, takes the place of a shorter one. -/
theorem build_bounds_name_two_bytes :
    let given := String.ofList (List.replicate 60 'é')
    let short := (PoolConfig.Origin.named "short").config
    let config := short.callAll [.fixed 2, .name given, .capped 3, .initial 0]
    config = short.callAll [.fixed 2, .capped 3, .initial 0, .name given] ∧
    ∃ m p q, build .process config 8 {} = .ok (.pool 0) m ∧ m.pool? (.pool 0) = some p ∧
      p.name.toList <+: given.toList ∧ p.name.length = PoolConfig.maxName ∧
      (m.retain (.pool 0)).pool? (.pool 0) = some q ∧ q.name = p.name := by
  intro given short config
  obtain ⟨names, plain, commute⟩ :=
    build_bounds_name (.named "short") [.fixed 2, .name given, .capped 3, .initial 0]
  obtain ⟨p, found, front, enough, bounded, later⟩ := names .process 8 {} 0 _ rfl
  have within := bounded.2 (.inr (plain fun _ => nofun))
  have sixty : given.length = 60 := String.length_ofList.trans List.length_replicate
  change min given.length PoolConfig.maxName ≤ p.name.length at enough
  rw [sixty] at enough
  exact ⟨commute given [.fixed 2] [.capped 3, .initial 0] [] rfl, _, p, _, rfl, found, front,
    Nat.le_antisymm within enough, rfl, later _ (retain_since _ (.pool 0)) _ rfl⟩

/-- A description that is spelled out keeps a name that is over the bound. -/
theorem build_keeps_spelled_name :
    let config : PoolConfig :=
      { name := String.ofList (List.replicate 60 'x'), blockElements := some 1 }
    ∃ m p, build .process config 4 {} = .ok (.pool 0) m ∧ m.pool? (.pool 0) = some p ∧
      PoolConfig.maxName < p.name.length :=
  ⟨_, _, rfl, rfl, by decide⟩

end Allocators

end ArrayStore
