import ArrayStore.Proofs.Stream.Judgment
import ArrayStore.Proofs.Wire.Canonical

/-! Judgments on what is written in the wire format.
Sizes, strings and arrays are written by making room and storing in the buffer, or past it where
the outlet takes that path. So what is judged of the parts is judged of them. Main statement:
`Judgment.writeArray`. -/

namespace ArrayStore

namespace Wire

def fillBytes (bytes : List UInt8) : Change Outgoing Unit := fun s =>
  match Outgoing.onBuffer (Buffer.putBytes (bytes.take s.buffer.remaining)) s with
  | .error e t => .error e t
  | .ok () t => writeBytes (bytes.drop s.buffer.remaining) t

def fillElements (width : Nat) (width_pos : 0 < width) (values : List Scalar) :
    Change Outgoing Unit := fun s =>
  match Outgoing.onBuffer (Buffer.putAll (values.take (s.buffer.remaining / width))) s with
  | .error e t => .error e t
  | .ok () t => writeElements width width_pos (values.drop (s.buffer.remaining / width)) t

end Wire

namespace Outgoing.Judgment

variable {J : ∀ {α : Type}, Change Outgoing α → Outgoing → Prop} (rules : Judgment J)

include rules

theorem writeSize (size : Nat) (s : Outgoing) : J (Wire.writeSize size) s := by
  by_cases small : size < Wire.sizeBound
  · exact rules.seq (Outgoing.onBuffer (Wire.putHeader size))
      (fun bound => Wire.writeSize_eq small (s.bounded bound))
      (rules.ensureRoom _ s) fun _ t _ => rules.onBuffer _ t
  · have large := Nat.le_of_not_lt small
    have long : ¬size < Wire.sizeEscape.toNat := Nat.not_lt.2 (Nat.le_trans (by decide) large)
    exact rules.error fun bound => by rw [Wire.writeSize, if_neg long, if_pos large]

theorem writeNullSize (s : Outgoing) : J Wire.writeNullSize s :=
  rules.seq (Outgoing.onBuffer (Buffer.putBytes [Wire.nullSize])) (fun _ => rfl)
    (rules.ensureRoom 1 s) fun _ t _ => rules.onBuffer _ t

theorem ensureSome (missing : List UInt8) (s : Outgoing) : J (Wire.ensureSome missing) s := by
  by_cases room : s.buffer.hasRemaining = true
  · refine rules.ok (a := ()) fun bound => ?_
    rw [Wire.ensureSome, buffer_bounded, if_pos room]
  · refine rules.seq (fun t =>
      if t.buffer.hasRemaining then .ok () t
      else .error (.insufficientSpace missing.length 0) t)
      (fun bound => ?_) (rules.flush s) fun _ t _ => ?_
    · rewrite [Wire.ensureSome, buffer_bounded, if_neg room]
      rfl
    · by_cases some : t.buffer.hasRemaining = true
      · exact rules.ok fun bound => by rw [buffer_bounded, if_pos some]
      · exact rules.error fun bound => by rw [buffer_bounded, if_neg some]

theorem writeBytes (bytes : List UInt8) (s : Outgoing) : J (Wire.writeBytes bytes) s := by
  induction size : bytes.length using Nat.strongRecOn generalizing bytes s with
  | ind _ ih =>
    by_cases nothing : bytes = []
    · refine rules.ok (a := ()) fun bound => ?_
      rw [Wire.writeBytes, dif_pos nothing]
    · refine rules.seq (Wire.fillBytes bytes) (fun bound => ?_) (rules.ensureSome bytes s)
        fun _ t ready => ?_
      · rw [Wire.writeBytes, dif_neg nothing]
        split
        · next ran => rw [ran]
        · next ran =>
          rewrite [ran]
          rfl
      · refine rules.seq (Wire.writeBytes (bytes.drop t.buffer.remaining)) (fun bound => ?_)
          (rules.onBuffer (Buffer.putBytes (bytes.take t.buffer.remaining)) t)
          fun _ u _ => ih _ ?_ _ _ rfl
        · rewrite [Wire.fillBytes, buffer_bounded]
          rfl
        · have more : 0 < t.buffer.remaining :=
            (Buffer.hasRemaining_iff _).1 (Wire.hasRemaining_of_ensureSome ready)
          have some : 0 < bytes.length := List.length_pos_iff.2 nothing
          rw [List.length_drop]
          omega

theorem writeText (text : String) (s : Outgoing) : J (Wire.writeText text) s :=
  rules.seq (Wire.writeBytes (Utf8.encode text)) (fun _ => rfl) (rules.writeSize _ s)
    fun _ t _ => rules.writeBytes _ t

theorem writeElements {width : Nat} (width_pos : 0 < width) (values : List Scalar)
    (s : Outgoing) : J (Wire.writeElements width width_pos values) s := by
  induction size : values.length using Nat.strongRecOn generalizing values s with
  | ind _ ih =>
    by_cases nothing : values = []
    · refine rules.congr (fun bound => ?_) (rules.flush s)
      rw [Wire.writeElements, dif_pos nothing]
    · refine rules.seq (Wire.fillElements width width_pos values) (fun bound => ?_)
        (Wire.ensureElement_eq width ▸ rules.ensureRoom width s) fun _ t ready => ?_
      · rw [Wire.writeElements, dif_neg nothing]
        split
        · next ran => rw [ran]
        · next ran =>
          rewrite [ran]
          rfl
      · refine rules.seq
          (Wire.writeElements width width_pos (values.drop (t.buffer.remaining / width)))
          (fun bound => ?_)
          (rules.onBuffer (Buffer.putAll (values.take (t.buffer.remaining / width))) t)
          fun _ u _ => ih _ ?_ _ _ rfl
        · rewrite [Wire.fillElements, buffer_bounded]
          rfl
        · have whole : 0 < t.buffer.remaining / width :=
            Nat.div_pos (Wire.le_remaining_of_ensureElement ready) width_pos
          have some : 0 < values.length := List.length_pos_iff.2 nothing
          rw [List.length_drop]
          omega

theorem writeTexts (values : List Scalar) (s : Outgoing) : J (Wire.writeTexts values) s := by
  induction values generalizing s with
  | nil => exact rules.ok fun _ => rfl
  | cons value values ih =>
    exact rules.seq (Wire.writeTexts values) (fun _ => rfl) (rules.writeText _ s) fun _ t _ => ih t

theorem writeFixed (k : Kind) {width : Nat} (width_pos : 0 < width) (values : List Scalar)
    (s : Outgoing) : J (Wire.writeFixed k width width_pos values) s := by
  by_cases swapped : s.buffer.reverses k = true
  · refine rules.congr (fun bound => ?_) (rules.writeElements width_pos values s)
    rw [Wire.writeFixed, buffer_bounded, if_pos swapped]
  · refine rules.bind
      (fun taken u => if taken then .ok () u else Wire.writeElements width width_pos values u)
      (fun bound => ?_) (rules.writeDirect (Scalar.rawBytes values) s) fun _ taken u _ => ?_
    · rw [Wire.writeFixed, buffer_bounded, if_neg swapped]
      cases Outgoing.writeDirect (Scalar.rawBytes values) (s.bounded bound) with
      | error e u => rfl
      | ok taken u => cases taken <;> rfl
    · cases taken with
      | false => exact rules.writeElements width_pos values u
      | true => exact rules.ok fun _ => rfl

theorem writeArray (k : Kind) (values : List Scalar) (s : Outgoing) :
    J (Wire.writeArray k values) s := by
  have size := rules.writeSize values.length s
  cases fixed : k.width? with
  | none =>
    cases (Kind.width?_eq_none_iff _).1 fixed
    exact rules.seq (Wire.writeTexts values) (fun _ => rfl) size
      fun _ t _ => rules.writeTexts values t
  | some width =>
    have pos := Kind.width?_pos fixed
    exact rules.seq (Wire.writeFixed k width pos values)
      (fun _ => Wire.writeArray_fixed fixed values _) size
      fun _ t _ => rules.writeFixed k pos values t

end Outgoing.Judgment

end ArrayStore
