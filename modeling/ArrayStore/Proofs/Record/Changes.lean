import ArrayStore.Record.Tracker
import Mathlib.Data.Finset.Sort
import Mathlib.Data.List.Nodup

/-! A change tracker is a set of offsets.
The words hold one bit for each offset; words that are not there hold none.
Main statements: a post adds its offset and a clearing removes them all, and the
offsets that are listed are those of the set, in ascending order. -/

namespace ArrayStore

namespace Tracker

variable {t : Tracker} {offset other : Nat}

def word (t : Tracker) (index : Nat) : BitVec 64 := (t.words[index]?).getD 0

theorem isChanged_eq (t : Tracker) (offset : Nat) :
    t.isChanged offset = (t.word (offset / 64)).getLsbD (offset % 64) := by
  unfold isChanged word
  cases t.words[offset / 64]? with
  | none => exact BitVec.getLsbD_zero.symm
  | some word => rfl

theorem word_wordsFor (t : Tracker) (offset index : Nat) :
    ((t.wordsFor offset)[index]?).getD 0 = t.word index := by
  unfold wordsFor word
  rw [Array.getElem?_append]
  split
  · rfl
  · next beyond =>
    rw [Array.getElem?_eq_none (Nat.le_of_not_lt beyond), Array.getElem?_replicate]
    split <;> rfl

theorem size_wordsFor (t : Tracker) (offset : Nat) : offset / 64 < (t.wordsFor offset).size := by
  simp only [wordsFor, Array.size_append, Array.size_replicate]
  omega

theorem word_post (t : Tracker) (offset index : Nat) :
    (t.post offset).word index =
      if offset / 64 = index then t.word index ||| BitVec.twoPow 64 (offset % 64)
      else t.word index := by
  have there := word_wordsFor t offset index
  simp only [word, post, Array.getElem?_modify]
  split
  · next same =>
    subst same
    obtain found := Array.getElem?_eq_getElem (size_wordsFor t offset)
    rw [found, Option.getD_some] at there
    rw [found, Option.map_some, Option.getD_some, there]
    rfl
  · exact there

theorem isChanged_post (t : Tracker) (offset other : Nat) :
    (t.post offset).isChanged other = (decide (other = offset) || t.isChanged other) := by
  have within : offset % 64 < 64 := Nat.mod_lt _ (by decide)
  rw [isChanged_eq, isChanged_eq, word_post]
  split
  · next same =>
    rw [BitVec.getLsbD_or, BitVec.getLsbD_twoPow, decide_eq_true within, Bool.true_and,
      Bool.or_comm]
    congr 1
    rw [decide_eq_decide]
    omega
  · next apart =>
    have differ : other ≠ offset := fun same => apart (congrArg (· / 64) same.symm)
    rw [decide_eq_false differ, Bool.false_or]

theorem isChanged_clear (t : Tracker) (offset : Nat) : t.clear.isChanged offset = false := by
  rw [isChanged_eq]
  simp only [word, clear, Array.getElem?_map]
  cases t.words[offset / 64]? <;> exact BitVec.getLsbD_zero

theorem isChanged_empty (offset : Nat) : isChanged {} offset = false := rfl

/-! ### Reading a word -/

section Bits

variable {bits : BitVec 64}

theorem toNat_eq_lowest (h : bits ≠ 0) :
    bits.toNat = 2 ^ (bits.ctz.toNat + 1) * (bits.toNat / 2 ^ (bits.ctz.toNat + 1))
      + 2 ^ bits.ctz.toNat := by
  have lowest : bits.toNat % 2 ^ (bits.ctz.toNat + 1) = 2 ^ bits.ctz.toNat := by
    refine Nat.eq_of_testBit_eq fun j => ?_
    rw [Nat.testBit_mod_two_pow, Nat.testBit_two_pow, BitVec.testBit_toNat]
    rcases Nat.lt_trichotomy j bits.ctz.toNat with below | rfl | above
    · rw [BitVec.getLsbD_false_of_lt_ctz below, Bool.and_false,
        decide_eq_false (Nat.ne_of_gt below)]
    · simp [BitVec.getLsbD_true_ctz_of_ne_zero h]
    · rw [decide_eq_false (by omega), decide_eq_false (by omega), Bool.false_and]
  exact (lowest ▸ Nat.div_add_mod ..).symm

theorem getLsbD_strip (h : bits ≠ 0) (i : Nat) :
    (bits &&& (bits - 1)).getLsbD i = (bits.getLsbD i && decide (bits.ctz.toNat < i)) := by
  have split := toNat_eq_lowest h
  generalize bits.ctz.toNat = low at *
  generalize bits.toNat / 2 ^ (low + 1) = above at split
  have one_le : 1 ≤ 2 ^ low := Nat.one_le_two_pow
  have small : 2 ^ low < 2 ^ (low + 1) := Nat.pow_lt_pow_succ (by decide)
  have less : (bits - 1).toNat = 2 ^ (low + 1) * above + (2 ^ low - 1) := by bv_omega
  rw [BitVec.getLsbD_and, ← BitVec.testBit_toNat, ← BitVec.testBit_toNat, less, split,
    Nat.testBit_two_pow_mul_add _ small, Nat.testBit_two_pow_mul_add _ (by omega)]
  split
  · rw [Nat.testBit_two_pow, Nat.testBit_two_pow_sub_one]
    by_cases low = i <;> simp_all
  · rw [decide_eq_true (by omega), Bool.and_true, Bool.and_self]

theorem mem_setBits {i : Nat} : i ∈ setBits bits ↔ bits.getLsbD i = true := by
  fun_induction setBits bits with
  | case1 => simp
  | case2 bits h ih =>
    have lowest := BitVec.getLsbD_true_ctz_of_ne_zero h
    rw [List.mem_cons, ih, getLsbD_strip h, Bool.and_eq_true, decide_eq_true_iff]
    constructor
    · rintro (rfl | ⟨set, -⟩)
      · exact lowest
      · exact set
    · intro set
      rcases Nat.lt_trichotomy i bits.ctz.toNat with below | same | above
      · exact absurd ((BitVec.getLsbD_false_of_lt_ctz below).symm.trans set) Bool.false_ne_true
      · exact .inl same
      · exact .inr ⟨set, above⟩

theorem setBits_ascending (bits : BitVec 64) : (setBits bits).Pairwise (· < ·) := by
  fun_induction setBits bits with
  | case1 => exact .nil
  | case2 bits h ih =>
    refine .cons (fun i listed => ?_) ih
    have set := mem_setBits.1 listed
    rw [getLsbD_strip h, Bool.and_eq_true, decide_eq_true_iff] at set
    exact set.2

end Bits

theorem mem_offsetsOf {index : Nat} {word : BitVec 64} :
    offset ∈ offsetsOf index word ↔ offset / 64 = index ∧ word.getLsbD (offset % 64) = true := by
  simp only [offsetsOf, List.mem_map, mem_setBits]
  constructor
  · rintro ⟨bit, set, rfl⟩
    have within := BitVec.lt_of_getLsbD set
    have quotient : (64 * index + bit) / 64 = index := by omega
    have rest : (64 * index + bit) % 64 = bit := by omega
    rw [rest]
    exact ⟨quotient, set⟩
  · rintro ⟨rfl, set⟩
    exact ⟨offset % 64, set, Nat.div_add_mod offset 64⟩

theorem mem_changedOffsets : offset ∈ t.changedOffsets ↔ t.isChanged offset = true := by
  simp only [changedOffsets, List.mem_flatMap, mem_offsetsOf, isChanged_eq, word]
  constructor
  · rintro ⟨⟨word, index⟩, listed, rfl, set⟩
    have found := List.mem_zipIdx_iff_getElem?.1 listed
    rw [Array.getElem?_toList] at found
    rw [found]
    exact set
  · intro set
    cases found : t.words[offset / 64]? with
    | none =>
      rw [found, Option.getD_none] at set
      exact absurd (BitVec.getLsbD_zero.symm.trans set) Bool.false_ne_true
    | some word =>
      rw [found] at set
      refine ⟨(word, offset / 64), List.mem_zipIdx_iff_getElem?.2 ?_, rfl, set⟩
      rw [Array.getElem?_toList, found]

theorem offsetsOf_ascending (index : Nat) (word : BitVec 64) :
    (offsetsOf index word).Pairwise (· < ·) :=
  List.pairwise_map.2 ((setBits_ascending word).imp fun before => by omega)

theorem changedOffsets_ascending (t : Tracker) : t.changedOffsets.Pairwise (· < ·) := by
  have indices : t.words.toList.zipIdx.Pairwise fun x y => x.2 < y.2 := by
    refine List.pairwise_map.1 ?_
    rw [List.zipIdx_map_snd]
    exact List.pairwise_lt_range'
  refine List.pairwise_flatMap.2 ⟨fun x _ => offsetsOf_ascending x.2 x.1, indices.imp ?_⟩
  intro x y before offset first other second
  obtain ⟨low, -⟩ := mem_offsetsOf.1 first
  obtain ⟨high, -⟩ := mem_offsetsOf.1 second
  omega

theorem changedOffsets_eq_sort {changed : Finset Nat}
    (same : ∀ offset, t.isChanged offset = true ↔ offset ∈ changed) :
    t.changedOffsets = changed.sort := by
  have listed : t.changedOffsets.toFinset = changed :=
    Finset.ext fun offset => List.mem_toFinset.trans (mem_changedOffsets.trans (same offset))
  have ascending := t.changedOffsets_ascending
  have once : t.changedOffsets.Nodup := ascending.imp Nat.ne_of_lt
  rw [← listed]
  exact ((List.toFinset_sort (· ≤ ·) once).2 (ascending.imp Nat.le_of_lt)).symm

end Tracker

end ArrayStore
