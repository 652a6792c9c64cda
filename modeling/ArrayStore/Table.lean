/-! Tables: values under numbers, in ascending order of the numbers.
Looking up after `insert` and `erase` is said by one equation each. -/

namespace ArrayStore

structure Table (α : Type) where
  entries : List (Nat × α) := []
  deriving Repr

namespace Table

variable {α : Type}

def empty : Table α := ⟨[]⟩

instance : Inhabited (Table α) := ⟨empty⟩

def lookup (key : Nat) : List (Nat × α) → Option α
  | [] => none
  | (k, x) :: rest => if key = k then some x else lookup key rest

def put (key : Nat) (value : α) : List (Nat × α) → List (Nat × α)
  | [] => [(key, value)]
  | (k, x) :: rest =>
    if key < k then (key, value) :: (k, x) :: rest
    else if key = k then (key, value) :: rest
    else (k, x) :: put key value rest

def remove (key : Nat) : List (Nat × α) → List (Nat × α)
  | [] => []
  | (k, x) :: rest => if k = key then remove key rest else (k, x) :: remove key rest

def get? (t : Table α) (key : Nat) : Option α := lookup key t.entries

def insert (t : Table α) (key : Nat) (value : α) : Table α := ⟨put key value t.entries⟩

def erase (t : Table α) (key : Nat) : Table α := ⟨remove key t.entries⟩

def set (t : Table α) (key : Nat) : Option α → Table α
  | none => t.erase key
  | some value => t.insert key value

def modify (t : Table α) (key : Nat) (f : α → α) : Table α :=
  ⟨t.entries.map fun e => if e.1 = key then (e.1, f e.2) else e⟩

def values (t : Table α) : List α := t.entries.map Prod.snd

theorem get?_insert (t : Table α) (key other : Nat) (value : α) :
    (t.insert key value).get? other = if other = key then some value else t.get? other := by
  obtain ⟨entries⟩ := t
  simp only [get?, insert]
  induction entries with
  | nil => simp [put, lookup]
  | cons e rest ih =>
    obtain ⟨k, x⟩ := e
    simp only [put]
    split
    · simp [lookup]
    · split
      · next h =>
        subst h
        by_cases ho : other = key <;> simp [lookup, ho]
      · next h =>
        simp only [lookup, ih]
        by_cases ho : other = k
        · simp [ho, Ne.symm h]
        · simp [ho]

theorem get?_erase (t : Table α) (key other : Nat) :
    (t.erase key).get? other = if other = key then none else t.get? other := by
  obtain ⟨entries⟩ := t
  simp only [get?, erase]
  induction entries with
  | nil => simp [remove, lookup]
  | cons e rest ih =>
    obtain ⟨k, x⟩ := e
    by_cases hk : k = key
    · subst hk
      by_cases ho : other = k
      · subst ho
        simpa [remove] using ih
      · simp [remove, lookup, ih, ho]
    · by_cases ho : other = k
      · subst ho
        simp [remove, hk, lookup]
      · simp [remove, hk, lookup, ho, ih]

theorem get?_modify (t : Table α) (key other : Nat) (f : α → α) :
    (t.modify key f).get? other = if other = key then (t.get? other).map f else t.get? other := by
  obtain ⟨entries⟩ := t
  simp only [get?, modify]
  induction entries with
  | nil => simp [lookup]
  | cons e rest ih =>
    obtain ⟨k, x⟩ := e
    by_cases hk : k = key
    · subst hk
      by_cases ho : other = k
      · simp [lookup, ho]
      · simp only [ho, if_false] at ih
        simp [lookup, ho, ih]
    · by_cases ho : other = k
      · subst ho
        simp [lookup, hk]
      · simp [lookup, hk, ho, ih]

end Table

end ArrayStore
