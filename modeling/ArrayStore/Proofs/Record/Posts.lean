import ArrayStore.Proofs.Record.Changes

/-! Trackers that are posted to and cleared, over and over.
An offset stands if one of the calls posted it and none of the calls after that one cleared the
tracker. What the words hold is carried through one call, and from there through any list of them.
Main statement: `applyAll_is_set`, by which a new tracker lists just the offsets that stand, each
once and in ascending order, however the posts and the clearings are mixed. -/

namespace ArrayStore

namespace Tracker

inductive Call where
  | post (offset : Nat)
  | clear
  deriving DecidableEq, Repr

def apply (t : Tracker) : Call → Tracker
  | .post offset => t.post offset
  | .clear => t.clear

def applyAll (t : Tracker) (calls : List Call) : Tracker := calls.foldl apply t

/-- The offset was posted, and has not been cleared since. -/
def Stands (calls : List Call) (offset : Nat) : Prop :=
  ∃ before after, calls = before ++ .post offset :: after ∧ .clear ∉ after

variable {t : Tracker} {calls : List Call} {call : Call} {offset : Nat}

theorem not_stands_nil : ¬ Stands [] offset := by
  rintro ⟨before, after, parts, -⟩
  exact absurd parts.symm (by simp)

theorem stands_cons :
    Stands (call :: calls) offset ↔
      Stands calls offset ∨ (call = .post offset ∧ .clear ∉ calls) := by
  constructor
  · rintro ⟨before, after, parts, kept⟩
    cases before with
    | nil =>
      obtain ⟨rfl, rfl⟩ := List.cons.inj parts
      exact .inr ⟨rfl, kept⟩
    | cons first before =>
      obtain ⟨rfl, rfl⟩ := List.cons.inj parts
      exact .inl ⟨before, after, rfl, kept⟩
  · rintro (⟨before, after, rfl, kept⟩ | ⟨rfl, kept⟩)
    · exact ⟨call :: before, after, rfl, kept⟩
    · exact ⟨[], calls, rfl, kept⟩

theorem isChanged_apply :
    (t.apply call).isChanged offset = true ↔
      call = .post offset ∨ (t.isChanged offset = true ∧ call ≠ .clear) := by
  cases call with
  | post other =>
    simp only [apply, isChanged_post, Bool.or_eq_true, decide_eq_true_iff, Call.post.injEq, ne_eq,
      reduceCtorEq, not_false_eq_true, and_true]
    rw [eq_comm]
  | clear => simp [apply, isChanged_clear]

theorem isChanged_applyAll :
    (t.applyAll calls).isChanged offset = true ↔
      Stands calls offset ∨ (t.isChanged offset = true ∧ .clear ∉ calls) := by
  induction calls generalizing t with
  | nil => simp [applyAll, not_stands_nil]
  | cons call calls ih =>
    have next : (t.applyAll (call :: calls)).isChanged offset =
      ((t.apply call).applyAll calls).isChanged offset := rfl
    rw [next, ih, isChanged_apply, stands_cons, List.mem_cons, ne_comm]
    tauto

theorem posts_apply (t : Tracker) (call : Call) :
    (t.apply call).posts = t.posts + if call = .clear then 0 else 1 := by
  cases call <;> rfl

theorem posts_applyAll (t : Tracker) (calls : List Call) :
    (t.applyAll calls).posts = t.posts + calls.countP (· ≠ .clear) := by
  induction calls generalizing t with
  | nil => rfl
  | cons call calls ih =>
    have next : (t.applyAll (call :: calls)).posts = ((t.apply call).applyAll calls).posts := rfl
    rw [next, ih, posts_apply, List.countP_cons]
    cases call with
    | post other =>
      simp only [reduceCtorEq, if_false, ne_eq, not_false_eq_true, decide_true, if_true]
      omega
    | clear => simp

theorem isChanged_beyond (beyond : 64 * t.words.size ≤ offset) : t.isChanged offset = false := by
  have none : t.words[offset / 64]? = none := Array.getElem?_eq_none (by omega)
  rw [isChanged, none]

/-- A tracker is a set of offsets: whatever is posted, in whatever order and however often, and
wherever the tracker is cleared in between, it lists the offsets posted since the last clearing in
ascending order, answers for an offset as the list does, and has counted every post. -/
theorem applyAll_is_set (calls : List Call) :
    let t := applyAll {} calls
    t.changedOffsets.Pairwise (· < ·) ∧
      (∀ offset, offset ∈ t.changedOffsets ↔
        ∃ before after, calls = before ++ .post offset :: after ∧ .clear ∉ after) ∧
      (∀ offset, t.isChanged offset = true ↔ offset ∈ t.changedOffsets) ∧
      (∀ offset, 64 * t.words.size ≤ offset → t.isChanged offset = false) ∧
      t.posts = calls.countP (· ≠ .clear) := by
  intro t
  have stands (offset : Nat) : t.isChanged offset = true ↔ Stands calls offset := by
    rw [isChanged_applyAll, isChanged_empty]
    simp
  exact ⟨t.changedOffsets_ascending, fun offset => mem_changedOffsets.trans (stands offset),
    fun _ => mem_changedOffsets.symm, fun _ => isChanged_beyond,
    (posts_applyAll {} calls).trans (Nat.zero_add _)⟩

/-- The last bit of a word and the first of the next, a word that is skipped, and a word that is
kept when the tracker is cleared. -/
theorem applyAll_is_set_across_words :
    let calls : List Call := [.post 70, .post 3, .post 3, .clear, .post 191, .post 64, .post 63,
      .post 64]
    let t := applyAll {} calls
    t.changedOffsets = [63, 64, 191] ∧ t.changedOffsets.Pairwise (· < ·) ∧
      (∃ before after, calls = before ++ .post 63 :: after ∧ .clear ∉ after) ∧
      t.isChanged 191 = true ∧ 64 * t.words.size ≤ 192 ∧ t.isChanged 192 = false ∧
      t.posts = 7 := by
  intro calls t
  have listed : t.changedOffsets = [63, 64, 191] := by decide +kernel
  have beyond : 64 * t.words.size ≤ 192 := by decide +kernel
  obtain ⟨ascending, posted, same, silent, posts⟩ := applyAll_is_set calls
  have last : 191 ∈ t.changedOffsets := listed ▸ by decide
  exact ⟨listed, ascending, (posted 63).1 (listed ▸ by decide), (same 191).2 last, beyond,
    silent 192 beyond, posts⟩

end Tracker

end ArrayStore
