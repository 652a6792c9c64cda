import ArrayStore.Table

/-! The entries of a table as a list.
In ascending order no number occurs twice, so that a table is, up to order, any
of its entries and the table without it. -/

namespace ArrayStore.Table

variable {α : Type} {t : Table α} {key other : Nat} {value : α}

def Sorted (t : Table α) : Prop := t.entries.Pairwise fun a b => a.1 < b.1

theorem remove_eq_filter (key : Nat) (l : List (Nat × α)) :
    remove key l = l.filter fun e => e.1 ≠ key := by
  induction l with
  | nil => rfl
  | cons e l ih =>
    by_cases same : e.1 = key
    · simp [remove, same, ih]
    · simp [remove, same, ih]

theorem entries_erase (t : Table α) (key : Nat) :
    (t.erase key).entries = t.entries.filter fun e => e.1 ≠ key := remove_eq_filter key t.entries

theorem erase_sorted (h : t.Sorted) (key : Nat) : (t.erase key).Sorted := by
  rw [Sorted, entries_erase]
  exact h.filter _

theorem remove_of_lt {l : List (Nat × α)} (above : ∀ e ∈ l, key < e.1) : remove key l = l := by
  rw [remove_eq_filter, List.filter_eq_self]
  intro e member
  have bound := above e member
  simp only [ne_eq, decide_not, Bool.not_eq_true', decide_eq_false_iff_not]
  omega

theorem mem_put {l : List (Nat × α)} {e : Nat × α} (member : e ∈ put key value l) :
    e = (key, value) ∨ e ∈ l := by
  induction l with
  | nil => exact .inl (List.mem_singleton.1 member)
  | cons d l ih =>
    obtain ⟨k, x⟩ := d
    simp only [put] at member
    split at member
    · exact List.mem_cons.1 member
    · split at member
      · exact (List.mem_cons.1 member).imp_right (List.mem_cons_of_mem _)
      · obtain first | member := List.mem_cons.1 member
        · exact .inr (first ▸ List.mem_cons_self)
        · exact (ih member).imp_right (List.mem_cons_of_mem _)

theorem insert_sorted (h : t.Sorted) (key : Nat) (value : α) : (t.insert key value).Sorted := by
  obtain ⟨l⟩ := t
  simp only [Sorted, insert] at h ⊢
  induction l with
  | nil => exact List.pairwise_singleton _ _
  | cons d l ih =>
    obtain ⟨k, x⟩ := d
    obtain ⟨above, sorted⟩ := List.pairwise_cons.1 h
    simp only [put]
    by_cases less : key < k
    · rw [if_pos less]
      refine List.pairwise_cons.2 ⟨fun e member => ?_, h⟩
      obtain rfl | member := List.mem_cons.1 member
      · exact less
      · exact Nat.lt_trans less (above e member)
    · rw [if_neg less]
      by_cases same : key = k
      · rw [if_pos same]
        exact List.pairwise_cons.2 ⟨fun e member => same ▸ above e member, sorted⟩
      · rw [if_neg same]
        refine List.pairwise_cons.2 ⟨fun e member => ?_, ih sorted⟩
        obtain rfl | member := mem_put member
        · simp only
          omega
        · exact above e member

theorem insert_perm (h : t.Sorted) (key : Nat) (value : α) :
    (t.insert key value).entries.Perm ((key, value) :: (t.erase key).entries) := by
  obtain ⟨l⟩ := t
  simp only [Sorted, insert, erase] at h ⊢
  induction l with
  | nil => exact .refl _
  | cons d l ih =>
    obtain ⟨k, x⟩ := d
    obtain ⟨above, sorted⟩ := List.pairwise_cons.1 h
    simp only [put, remove]
    by_cases less : key < k
    · have all : ∀ e ∈ l, key < e.1 := fun e member => Nat.lt_trans less (above e member)
      rw [if_pos less, if_neg (by omega), remove_of_lt all]
    · rw [if_neg less]
      by_cases same : key = k
      · rw [if_pos same, if_pos same.symm, remove_of_lt fun e member => same ▸ above e member]
      · rw [if_neg same, if_neg (Ne.symm same)]
        exact ((ih sorted).cons _).trans (.swap ..)

theorem perm_of_get? (h : t.Sorted) (found : t.get? key = some value) :
    t.entries.Perm ((key, value) :: (t.erase key).entries) := by
  obtain ⟨l⟩ := t
  simp only [Sorted, get?, erase] at h found ⊢
  induction l with
  | nil => cases found
  | cons d l ih =>
    obtain ⟨k, x⟩ := d
    obtain ⟨above, sorted⟩ := List.pairwise_cons.1 h
    simp only [lookup, remove] at found ⊢
    by_cases same : key = k
    · rw [if_pos same] at found
      cases found
      rw [if_pos same.symm, remove_of_lt fun e member => same ▸ above e member, same]
    · rw [if_neg same] at found
      rw [if_neg (Ne.symm same)]
      exact ((ih sorted found).cons _).trans (.swap ..)

theorem erase_of_get?_eq_none (absent : t.get? key = none) : t.erase key = t := by
  obtain ⟨l⟩ := t
  simp only [get?, erase] at absent ⊢
  congr 1
  induction l with
  | nil => rfl
  | cons d l ih =>
    obtain ⟨k, x⟩ := d
    simp only [lookup] at absent
    split at absent
    · cases absent
    · next apart => rw [remove, if_neg (Ne.symm apart), ih absent]

theorem insert_erase_perm (h : t.Sorted) (apart : key ≠ other) (value : α) :
    ((t.insert key value).erase other).entries.Perm
      ((key, value) :: ((t.erase key).erase other).entries) := by
  have rest := (insert_perm h key value).filter fun e => e.1 ≠ other
  rw [List.filter_cons_of_pos (by simpa using apart)] at rest
  rwa [entries_erase, entries_erase]

theorem mem_entries_of_get? (found : t.get? key = some value) : (key, value) ∈ t.entries := by
  obtain ⟨l⟩ := t
  simp only [get?] at found ⊢
  induction l with
  | nil => cases found
  | cons d l ih =>
    obtain ⟨k, x⟩ := d
    simp only [lookup] at found
    split at found
    · next same =>
      cases found
      rw [same]
      exact List.mem_cons_self
    · exact List.mem_cons_of_mem _ (ih found)

theorem get?_of_mem_entries (h : t.Sorted) (member : (key, value) ∈ t.entries) :
    t.get? key = some value := by
  have gone : (key, value) ∉ (t.erase key).entries := by simp [entries_erase]
  cases found : t.get? key with
  | none =>
    rw [erase_of_get?_eq_none found] at gone
    exact absurd member gone
  | some other =>
    obtain same | member := List.mem_cons.1 ((perm_of_get? h found).mem_iff.1 member)
    · cases same
      rfl
    · exact absurd member gone

theorem mem_values_iff (h : t.Sorted) : value ∈ t.values ↔ ∃ key, t.get? key = some value := by
  constructor
  · intro member
    obtain ⟨⟨key, other⟩, there, rfl⟩ := List.mem_map.1 member
    exact ⟨key, get?_of_mem_entries h there⟩
  · rintro ⟨key, found⟩
    exact List.mem_map_of_mem (mem_entries_of_get? found)

theorem values_perm_of_get? (h : t.Sorted) (found : t.get? key = some value) :
    t.values.Perm (value :: (t.erase key).values) := (perm_of_get? h found).map Prod.snd

theorem values_insert_perm (h : t.Sorted) (key : Nat) (value : α) :
    (t.insert key value).values.Perm (value :: (t.erase key).values) :=
  (insert_perm h key value).map Prod.snd

theorem flatMap_values_perm {β : Type} (h : t.Sorted) (found : t.get? key = some value)
    (f : α → List β) :
    (t.values.flatMap f).Perm (f value ++ (t.erase key).values.flatMap f) :=
  ((values_perm_of_get? h found).flatMap_right f).trans (.of_eq (List.flatMap_cons ..))

theorem flatMap_values_insert_perm {β : Type} (h : t.Sorted) (key : Nat) (value : α)
    (f : α → List β) :
    ((t.insert key value).values.flatMap f).Perm (f value ++ (t.erase key).values.flatMap f) :=
  ((values_insert_perm h key value).flatMap_right f).trans (.of_eq (List.flatMap_cons ..))

theorem ext_of_get? {u : Table α} (h : t.Sorted) (h' : u.Sorted)
    (same : ∀ key, t.get? key = u.get? key) : t = u := by
  have nodup : ∀ {v : Table α}, v.Sorted → v.entries.Nodup := fun sorted =>
    sorted.imp fun less eq => absurd (congrArg Prod.fst eq) (Nat.ne_of_lt less)
  have perm : t.entries.Perm u.entries := by
    refine (List.perm_ext_iff_of_nodup (nodup h) (nodup h')).2 fun ⟨key, value⟩ => ?_
    constructor
    · intro member
      exact mem_entries_of_get? ((same key).symm.trans (get?_of_mem_entries h member))
    · intro member
      exact mem_entries_of_get? ((same key).trans (get?_of_mem_entries h' member))
  have entries : t.entries = u.entries := by
    refine perm.eq_of_pairwise (fun a b _ _ below above => ?_) h h'
    exact absurd below (Nat.lt_asymm above)
  cases t
  cases u
  exact congrArg Table.mk entries

theorem modify_sorted (h : t.Sorted) (key : Nat) (f : α → α) : (t.modify key f).Sorted := by
  refine List.pairwise_map.2 (h.imp fun {a b} less => ?_)
  split <;> split <;> exact less

theorem modify_of_get? (h : t.Sorted) (found : t.get? key = some value) (f : α → α) :
    t.modify key f = t.insert key (f value) := by
  refine ext_of_get? (modify_sorted h key f) (insert_sorted h key _) fun other => ?_
  rw [get?_modify, get?_insert]
  split
  · next same => rw [same, found, Option.map_some]
  · rfl

theorem insert_of_get? (h : t.Sorted) (found : t.get? key = some value) :
    t.insert key value = t := by
  refine ext_of_get? (insert_sorted h key value) h fun other => ?_
  rw [get?_insert]
  split
  · next same => rw [same, found]
  · rfl

theorem get?_set (t : Table α) (key other : Nat) (value : Option α) :
    (t.set key value).get? other = if other = key then value else t.get? other := by
  cases value with
  | none => exact get?_erase t key other
  | some value => exact get?_insert t key other value

theorem set_sorted (h : t.Sorted) (key : Nat) (value : Option α) : (t.set key value).Sorted := by
  cases value with
  | none => exact erase_sorted h key
  | some value => exact insert_sorted h key value

end ArrayStore.Table
