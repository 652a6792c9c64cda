import ArrayStore.Proofs.Stream.Trails
import ArrayStore.Value.Basic

/-! Reading operations leave trails.
Sizes, strings and arrays are read by making sure of bytes and taking them, or past the buffer where
that is allowed, and by nothing else; room for new elements is made without a look at the stream.
Main statements: `readText_trails` and `deserialize_trail`. -/

namespace ArrayStore

open Incoming (Trail Trails)

namespace Wire

theorem readLongSize_trails : Trails readLongSize := by
  intro s
  simp only [readLongSize]
  cases ready : Incoming.ensureRemaining 4 s with
  | error e t => exact (Incoming.ensureRemaining_trails 4).error ready
  | ok _ t =>
    have first := (Incoming.ensureRemaining_trails 4).ok ready
    simp only
    cases got : Incoming.onBuffer (Buffer.getBytes 4) t with
    | error e u => exact first.trans ((Incoming.getBytes_trails 4).error got)
    | ok bytes u =>
      have second := first.trans ((Incoming.getBytes_trails 4).ok got)
      simp only
      split <;> exact second.trans (.stop _ _)

theorem readSize_trails : Trails readSize := by
  intro s
  simp only [readSize]
  cases ready : Incoming.ensureRemaining 1 s with
  | error e t => exact (Incoming.ensureRemaining_trails 1).error ready
  | ok _ t =>
    have first := (Incoming.ensureRemaining_trails 1).ok ready
    simp only
    cases got : Incoming.onBuffer (Buffer.getBytes 1) t with
    | error e u => exact first.trans ((Incoming.getBytes_trails 1).error got)
    | ok bytes u =>
      have second := first.trans ((Incoming.getBytes_trails 1).ok got)
      simp only
      split
      · exact second
      · split
        · exact second.trans (readLongSize_trails u)
        · exact second

theorem ensureAny_trails (missing : Nat) : Trails (ensureAny missing) := by
  intro s
  simp only [ensureAny]
  split
  · exact .stop _ _
  · cases ready : Incoming.ensureData (min missing s.buffer.capacity) s with
    | error e t => exact (Incoming.ensureData_trails _).error ready
    | ok _ t =>
      have tried := (Incoming.ensureData_trails _).ok ready
      simp only
      split <;> exact tried.trans (.stop _ _)

theorem readBytes_trails (missing : Nat) (front : Array UInt8) :
    Trails (readBytes missing front) := by
  intro s
  fun_induction readBytes missing front s with
  | case1 front s => exact .stop _ _
  | case2 missing front s more e t failed => exact (ensureAny_trails missing).error failed
  | case3 missing front s more t ready count e u failed =>
    have first := (ensureAny_trails missing).ok ready
    exact first.trans ((Incoming.getBytes_trails count).error failed)
  | case4 missing front s more t ready count chunk u got ih =>
    have first := (ensureAny_trails missing).ok ready
    exact (first.trans ((Incoming.getBytes_trails count).ok got)).trans ih

theorem readText_trails : Trails readText := by
  intro s
  simp only [readText]
  cases sized : readSize s with
  | error e t => exact readSize_trails.error sized
  | ok size t =>
    have first := readSize_trails.ok sized
    simp only
    cases got : readBytes size #[] t with
    | error e u => exact first.trans ((readBytes_trails size #[]).error got)
    | ok bytes u =>
      have second := first.trans ((readBytes_trails size #[]).ok got)
      simp only
      split <;> exact second.trans (.stop _ _)

end Wire

namespace Intake

variable {s t : Intake}

def Feeds (op : Change Intake Unit) : Prop :=
  ∀ s, Trail s.input (Outcome.failure (op s)) (Outcome.state (op s)).input

theorem Feeds.ok {op : Change Intake Unit} (h : Feeds op) (run : op s = .ok () t) :
    Trail s.input none t.input := by
  have left := h s
  rwa [run] at left

theorem Feeds.error {op : Change Intake Unit} {e : Error} (h : Feeds op) (run : op s = .error e t) :
    Trail s.input (some e) t.input := by
  have left := h s
  rwa [run] at left

theorem growTo_feeds (length count : Nat) : Feeds (growTo length count) := by
  intro s
  simp only [growTo]
  split <;> exact .stop _ _

theorem readElements_feeds (k : Kind) {width : Nat} (width_pos : 0 < width)
    (count stop done : Nat) : Feeds (readElements k width width_pos count stop done) := by
  intro s
  fun_induction readElements k width width_pos count stop done s with
  | case1 done next input store all => exact .stop _ _
  | case2 done next input store more held less e t failed =>
    exact (Incoming.ensureData_trails _).error failed
  | case3 done next input store more held less t ready grown ih =>
    exact ((Incoming.ensureData_trails _).ok ready).trans ih
  | case4 done next input store more held less t ready stalled =>
    exact ((Incoming.ensureData_trails _).ok ready).trans (.stop _ _)
  | case5 done next input store more held whole part e t failed =>
    exact (Incoming.getAll_trails k part).error failed
  | case6 done next input store more held whole part values t got ih =>
    exact ((Incoming.getAll_trails k part).ok got).trans ih

theorem readChunk?_trails (k : Kind) (width size : Nat) : Trails (readChunk? k width size) := by
  intro s
  simp only [readChunk?]
  split
  · exact Incoming.readDirect_trails (size * width) s
  · exact .stop _ _

theorem readFixed_feeds (k : Kind) {width : Nat} (width_pos : 0 < width) (count done : Nat) :
    Feeds (readFixed k width width_pos count done) := by
  intro s
  fun_induction readFixed k width width_pos count done s with
  | case1 done s all => exact .stop _ _
  | case2 done s more stop e t failed => exact (growTo_feeds stop count).error failed
  | case3 done s more stop next input store ran e t failed =>
    have first := (growTo_feeds stop count).ok ran
    exact first.trans ((readChunk?_trails k width (stop - done)).error failed)
  | case4 done s more stop next input store ran bytes t bulk values ih =>
    have first := (growTo_feeds stop count).ok ran
    exact (first.trans ((readChunk?_trails k width (stop - done)).ok bulk)).trans ih
  | case5 done s more stop next input store ran t declined e u failed =>
    have first := (growTo_feeds stop count).ok ran
    have second := first.trans ((readChunk?_trails k width (stop - done)).ok declined)
    exact second.trans ((readElements_feeds k width_pos count stop done).error failed)
  | case6 done s more stop next input store ran t declined u elements ih =>
    have first := (growTo_feeds stop count).ok ran
    have second := first.trans ((readChunk?_trails k width (stop - done)).ok declined)
    exact (second.trans ((readElements_feeds k width_pos count stop done).ok elements)).trans ih

theorem readTexts_feeds (count missing : Nat) : Feeds (readTexts count missing) := by
  induction missing with
  | zero => exact fun s => .stop _ _
  | succ missing ih =>
    intro ⟨next, input, store⟩
    simp only [readTexts]
    cases read : Wire.readText input with
    | error e t => exact Wire.readText_trails.error read
    | ok text t =>
      have first := Wire.readText_trails.ok read
      simp only
      cases ran : growTo (count - (missing + 1) + 1) count ⟨next, t, store⟩ with
      | error e u => exact first.trans ((growTo_feeds _ count).error ran)
      | ok _ u =>
        have second := first.trans ((growTo_feeds _ count).ok ran)
        obtain ⟨v, feed, kept⟩ := u
        exact second.trans (ih ⟨v.store (count - (missing + 1)) [.text text], feed, kept⟩)

theorem readAll_feeds (k : Kind) (count : Nat) : Feeds (readAll k count) := by
  intro s
  unfold readAll
  split
  · exact readTexts_feeds count count s
  · exact readFixed_feeds k _ count 0 s

end Intake

theorem Wire.readArray_trail (k : Kind) (a : Allocator) (input : Incoming) (store : Store) :
    Trail input (Outcome.failure (readArray k a (input, store)))
      (Outcome.state (readArray k a (input, store))).1 := by
  simp only [readArray]
  cases sized : readSize input with
  | error e t => exact readSize_trails.error sized
  | ok count t =>
    have first := readSize_trails.ok sized
    simp only
    cases gathered : Intake.readAll k count
        ⟨(store.emptyWritable k a).1, t, (store.emptyWritable k a).2⟩ with
    | error e u => exact first.trans ((Intake.readAll_feeds k count).error gathered)
    | ok _ u => exact first.trans ((Intake.readAll_feeds k count).ok gathered)

theorem FieldValue.deserialize_trail (v : FieldValue) (w : World) (input : Incoming) :
    Trail input (Outcome.failure (deserialize (v, w, input)))
      (Outcome.state (deserialize (v, w, input))).2.2 := by
  obtain ⟨store, flags, trackers, tracked⟩ := w
  have read := Wire.readArray_trail v.kind v.allocator input store
  simp only [deserialize]
  split
  · exact .stop _ _
  · split
    · next run =>
      rw [run] at read
      exact read
    · next run =>
      rw [run] at read
      exact read

end ArrayStore
