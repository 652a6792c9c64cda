import ArrayStore.Record.Token
import ArrayStore.Record.Tracker
import ArrayStore.Vector.Frozen

/-! What array values refer to: the store, the immutability flags and the
change trackers. -/

namespace ArrayStore

abbrev TrackerId := Nat

structure World where
  store : Store := {}
  flags : Flags := {}
  trackers : Table Tracker := {}
  tracked : Nat := 0

namespace World

def newTracker (w : World) : TrackerId × World :=
  (w.tracked,
    { w with trackers := w.trackers.insert w.tracked {}, tracked := w.tracked + 1 })

def tracker (w : World) (id : TrackerId) : Tracker := (w.trackers.get? id).getD {}

def post (w : World) (id : TrackerId) (offset : Nat) : World :=
  { w with trackers := w.trackers.modify id fun t => t.post offset }

def clearTracker (w : World) (id : TrackerId) : World :=
  { w with trackers := w.trackers.modify id Tracker.clear }

def newToken (w : World) : Token × World :=
  let (token, flags) := w.flags.newToken
  (token, { w with flags })

def childToken (w : World) (t : Token) : Token × World :=
  let (token, flags) := w.flags.childToken t
  (token, { w with flags })

def freezeToken (w : World) (t : Token) : World := { w with flags := w.flags.freeze t }

def onStore {α : Type} (change : Change Store α) : Change World α := fun w =>
  match w with
  | ⟨store, flags, trackers, tracked⟩ =>
    match change store with
    | .ok a store => .ok a ⟨store, flags, trackers, tracked⟩
    | .error e store => .error e ⟨store, flags, trackers, tracked⟩

end World

end ArrayStore
