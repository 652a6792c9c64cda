import ArrayStore.Proofs.Session.Hands
import Mathlib.Data.List.Perm.Basic

/-! One move on arrays and views is one move on lists.
A lemma for each kind of move, whatever is in hand beside the slots. Most moves
change one value, and are read off what the operation on it does; the others
take something out of a slot or put something in. -/

namespace ArrayStore.Session

namespace ArrayState

open FieldValue (Renewed)

variable {s : ArrayState} {hand : List Holding} {slot : Nat} {v v' : FieldValue} {f : Frozen}
  {w : World}

/-- The outcome of a move is that of the move on lists. -/
def Follows (hand : List Holding) (p : Lists) (t : ArrayMove) (r : Outcome ArrayState ArrayReply) :
    Prop :=
  (Outcome.state r).Sound hand ∧ (Outcome.state r).shows = p.move (Succeeds r) t

theorem Sound.withRest {u : ArrayState} (h : s.Sound hand) (store : u.world.store = s.world.store)
    (pools : u.pools = s.pools) (values : u.values = s.values) (views : u.views = s.views) :
    u.Sound hand ∧ u.shows = s.shows := by
  obtain ⟨world, us, vs, fs, records, tokens, trackers⟩ := u
  simp only at store pools values views
  subst pools values views
  obtain ⟨sound, shown⟩ := h.withMarks store
  exact ⟨⟨sound.values_sorted, sound.views_sorted, sound.fits, sound.owns⟩, shown⟩

theorem Sound.remark (h : s.Sound hand) (found : s.values.get? slot = some v) (v' : FieldValue)
    (field : v'.field = v.field) (value : v'.value = v.value)
    (handle : v'.allocator = v.allocator) (store : w.store = s.world.store) :
    Sound hand { s with world := w, values := s.values.insert slot v' } ∧
      shows { s with world := w, values := s.values.insert slot v' } = s.shows := by
  have same : v'.holdings = v.holdings := by rw [FieldValue.holdings, value, handle]; rfl
  have kind : v'.kind = v.kind := by rw [FieldValue.kind, field]; rfl
  obtain ⟨taken, gone⟩ := h.takeValue found
  rw [← same] at taken
  obtain ⟨sound, kept⟩ := taken.withMarks store
  obtain ⟨sound', given⟩ := Sound.giveValue (s := { s with world := w }) sound h.values_sorted
    (by rw [value, kind]; exact h.fits slot v found)
  refine ⟨sound', given.trans ?_⟩
  have values : v'.values w = v.values s.world := by
    rw [FieldValue.values, value, store]
    rfl
  simp only [kept, gone, Lists.setArray_setArray, kind, values]
  rw [← shows_of_value found, Lists.setArray_self]

theorem onValue_follows {t : ArrayMove} {change : Change (FieldValue × World) Unit}
    (g : Listed → List Scalar) (h : s.Sound hand) (slot : Nat)
    (plain : ∀ done, s.shows.move done t = if done then s.shows.change slot g else s.shows)
    (spec : ∀ v, s.values.get? slot = some v →
      match change (v, s.world) with
      | .ok () (v', w') =>
        Renewed v s.world (hand ++ holdings { s with values := s.values.erase slot })
          (g ⟨v.kind, v.values s.world⟩) v' w'
      | .error _ (v', w') =>
        Renewed v s.world (hand ++ holdings { s with values := s.values.erase slot })
          (v.values s.world) v' w') :
    Follows hand s.shows t (s.onValue slot change) := by
  unfold ArrayState.onValue
  cases found : s.values.get? slot with
  | none => exact ⟨h, (plain false).symm⟩
  | some v =>
    have renewed := spec v found
    have shown := shows_of_value found
    simp only
    cases run : change (v, s.world) with
    | ok _ p =>
      obtain ⟨v', w'⟩ := p
      rw [run] at renewed
      obtain ⟨sound, shown'⟩ := h.renew found renewed
      refine ⟨sound, shown'.trans ?_⟩
      rw [plain, Lists.change, shown]
      rfl
    | error e p =>
      obtain ⟨v', w'⟩ := p
      rw [run] at renewed
      obtain ⟨sound, shown'⟩ := h.renew found renewed
      refine ⟨sound, shown'.trans ?_⟩
      rw [plain, ← shown, Lists.setArray_self]
      rfl

theorem install_renews {l : List Holding} {make : Change Store Frozen} {shown : List Scalar}
    (spec : match make w.store with
      | .ok f t =>
        t.Owns (.frozen f :: (v.holdings ++ l)) ∧
          w.store.Keeps t (Holding.frozens (v.holdings ++ l)) ∧
          f.kind = v.value.kind ∧ t.values f = shown
      | .error _ t =>
        t.Owns (v.holdings ++ l) ∧ w.store.Keeps t (Holding.frozens (v.holdings ++ l))) :
    match install make (v, w) with
    | .ok () (v', w') => Renewed v w l shown v' w'
    | .error _ (v', w') => Renewed v w l (v.values w) v' w' := by
  obtain ⟨store, flags, trackers, tracked⟩ := w
  have own : v.value ∈ Holding.frozens (v.holdings ++ l) :=
    Holding.mem_frozens.2 (by simp [FieldValue.holdings])
  simp only [install, World.onStore]
  cases run : make store with
  | error e t =>
    rw [run] at spec
    obtain ⟨owns, keeps⟩ := spec
    exact ⟨rfl, rfl, owns, keeps.of_append, keeps _ own⟩
  | ok f t =>
    rw [run] at spec
    obtain ⟨owns, keeps, kind, values⟩ := spec
    have replaced := FieldValue.replace_spec (w := ⟨t, flags, trackers, tracked⟩) owns kind
    simp only
    cases step : FieldValue.replace f (v, ⟨t, flags, trackers, tracked⟩) with
    | ok _ p =>
      obtain ⟨v', w'⟩ := p
      rw [step] at replaced
      obtain ⟨value, kind', owns', keeps', values'⟩ := replaced
      exact ⟨value, kind', owns', keeps.of_append.trans keeps', values'.trans values⟩
    | error e p =>
      obtain ⟨v', w'⟩ := p
      rw [step] at replaced
      obtain ⟨-, rfl, rfl⟩ := replaced
      have dropped := owns.frozen.drop.2
      exact ⟨rfl, rfl, owns.drop, (keeps.trans dropped).of_append, keeps.trans dropped _ own⟩

theorem Sound.putNew {a : Allocator} (h : s.Sound hand)
    (alive : s.world.store.allocators.Alive a)
    (handle : v.allocator = a) (content : v.value = .empty v.kind)
    (store : w.store = s.world.store.retain a) (slot : Nat) :
    (s.putValue slot v w).Sound hand ∧
      (s.putValue slot v w).shows = s.shows.setArray slot (some ⟨v.kind, []⟩) := by
  have owns : w.store.Owns ((v.holdings ++ hand) ++ s.holdings) := by
    rw [store, FieldValue.holdings, handle, content]
    exact ((h.owns.retain alive).bare v.kind).perm (.swap ..)
  obtain ⟨taken, shown⟩ := h.withWorld owns (by
    rw [store]
    exact fun _ _ => rfl)
  obtain ⟨sound, shown'⟩ := taken.putValue (by rw [content]; rfl) slot
  have none : v.values w = [] := Store.values_none (by rw [content]; rfl)
  rw [shown, none] at shown'
  exact ⟨sound, shown'⟩

theorem add_follows (h : s.Sound hand) (slot value : Nat) (field : Field) :
    Follows hand s.shows (.step (.add slot value field)) (step (.add slot value field) s) := by
  simp only [step]
  cases s.records.get? slot with
  | none => exact ⟨h, rfl⟩
  | some r =>
    have store : (r.add field s.world).2.2.store = s.world.store.retain .shared := by
      simp only [Record.add, FieldValue.attach]
      split <;> rfl
    obtain ⟨sound, shown⟩ := h.withRest
      (u := { s with records := s.records.insert slot (r.add field s.world).1 }) rfl rfl rfl rfl
    obtain ⟨sound', shown'⟩ := sound.putNew (a := .shared) (v := (r.add field s.world).2.1) trivial
      rfl rfl store value
    exact ⟨sound', shown'.trans (congrArg (Lists.setArray · value _) shown)⟩

theorem drop_follows (h : s.Sound hand) (value : Nat) :
    Follows hand s.shows (.step (.drop value)) (step (.drop value) s) := by
  simp only [step]
  cases found : s.values.get? value with
  | none => exact ⟨h, rfl⟩
  | some v =>
    obtain ⟨taken, gone⟩ := h.takeValue found
    obtain ⟨⟨sound, shown⟩, -⟩ := taken.dropValue
    exact ⟨sound, shown.trans gone⟩

/-- Storage that is yet to come does not show. -/
theorem growFrom_follows (h : s.Sound hand) (value : Nat) (pool : Option Nat) :
    Follows hand s.shows (.step (.growFrom value pool)) (step (.growFrom value pool) s) := by
  simp only [step]
  cases found : s.values.get? value with
  | none => exact ⟨h, rfl⟩
  | some v =>
    obtain ⟨taken, gone⟩ := h.takeValue found
    have held := FieldValue.growFrom_owns (h.value found) (h.alive_allocator pool)
    rw [← List.append_assoc] at held
    obtain ⟨sound, kept⟩ := taken.withWorld held fun _ _ => rfl
    obtain ⟨sound', given⟩ := Sound.giveValue
      (s := { s with world := (v.growFrom (s.allocator pool) s.world).2 }) sound h.values_sorted
      (h.fits value v found)
    refine ⟨sound', given.trans ?_⟩
    simp only [kept, gone, Lists.setArray_setArray]
    exact (congrArg (s.shows.setArray value) (shows_of_value found).symm).trans
      (Lists.setArray_self ..)

theorem attach_follows (h : s.Sound hand) (value token : Nat) (watch : Watch) (offset : Nat) :
    Follows hand s.shows (.step (.attach value token watch offset))
      (step (.attach value token watch offset) s) := by
  simp only [step]
  split
  · next v t id found _ _ =>
    have store : (v.attach t ⟨id, offset⟩ s.world).2.store = s.world.store := by
      simp only [FieldValue.attach]
      split <;> rfl
    exact h.remark found (v.attach t ⟨id, offset⟩ s.world).1 rfl rfl rfl store
  · exact ⟨h, rfl⟩

theorem setImmutable_follows (h : s.Sound hand) (value : Nat) :
    Follows hand s.shows (.step (.setImmutable value)) (step (.setImmutable value) s) := by
  simp only [step]
  cases found : s.values.get? value with
  | none => exact ⟨h, rfl⟩
  | some v =>
    exact h.remark (w := (v.setImmutable s.world).2) found (v.setImmutable s.world).1 rfl rfl rfl
      rfl

theorem setCapacityMutable_follows (h : s.Sound hand) (value : Nat) (on : Bool) :
    Follows hand s.shows (.step (.setCapacityMutable value on))
      (step (.setCapacityMutable value on) s) := by
  simp only [step, onValue]
  cases found : s.values.get? value with
  | none => exact ⟨h, rfl⟩
  | some v =>
    simp only [FieldValue.setCapacityMutable]
    by_cases refused : (on && v.isImmutable s.world) = true
    · simp only [refused, if_true]
      exact h.remark found v rfl rfl rfl rfl
    · simp only [refused]
      exact h.remark found { v with capacityMutable := on } rfl rfl rfl rfl

theorem setLength_follows (h : s.Sound hand) (value length : Nat) :
    Follows hand s.shows (.step (.setLength value length))
      (step (.setLength value length) s) := by
  refine onValue_follows _ h value (fun _ => rfl) fun v found => ?_
  have owns := h.value found
  have kind := h.fits value v found
  have size : (v.values s.world).length = v.length :=
    owns.length_values (by simp [FieldValue.holdings])
  have spec := FieldValue.setLength_spec owns length
  cases run : FieldValue.setLength length (v, s.world) with
  | ok _ p =>
    rw [run, kind, ← size] at spec
    exact spec
  | error e p =>
    rw [run] at spec
    exact spec.toRenewed

theorem setCapacity_follows (h : s.Sound hand) (value capacity : Nat) :
    Follows hand s.shows (.step (.setCapacity value capacity))
      (step (.setCapacity value capacity) s) := by
  refine onValue_follows Listed.values h value (fun done => ?_) fun v found => ?_
  · rw [Lists.change_self, ite_self]
    cases done <;> rfl
  · have spec := FieldValue.setCapacity_spec (h.value found) capacity
    cases run : FieldValue.setCapacity capacity (v, s.world) with
    | ok _ p =>
      rw [run] at spec
      exact spec.1
    | error e p =>
      rw [run] at spec
      exact spec.toRenewed

theorem put_follows (h : s.Sound hand) (value : Nat) (elements : List Scalar) :
    Follows hand s.shows (.step (.put value elements)) (step (.put value elements) s) := by
  refine onValue_follows (fun _ => elements) h value (fun _ => rfl) fun v found => ?_
  have spec := FieldValue.putFrom_spec (h.value found) (h.fits value v found) elements
  cases run : FieldValue.putFrom elements (v, s.world) with
  | ok _ p =>
    rw [run] at spec
    exact spec
  | error e p =>
    rw [run] at spec
    exact spec.toRenewed

theorem replace_follows (h : s.Sound hand) (value : Nat) (elements : List Scalar) :
    Follows hand s.shows (.step (.replace value elements)) (step (.replace value elements) s) := by
  simp only [step]
  cases found : s.values.get? value with
  | none => exact ⟨h, rfl⟩
  | some v =>
    refine onValue_follows (fun _ => elements) h value (fun _ => rfl) fun u found' => ?_
    cases found.symm.trans found'
    have owns := (h.value found).ofList (a := .shared) trivial v.kind elements
    have made := (h.value found).holds.ofList v.kind .shared elements
    refine install_renews ?_
    cases run : Store.ofList v.kind .shared elements s.world.store with
    | ok f t =>
      rw [run] at owns made
      exact ⟨owns, made.2.1, made.2.2.1.trans (h.fits value v found).symm, made.2.2.2⟩
    | error e t =>
      rw [run] at owns made
      exact ⟨owns, made.2⟩

theorem install_follows (h : s.Sound hand) (value view : Nat) :
    Follows hand s.shows (.step (.install value view)) (step (.install value view) s) := by
  simp only [step]
  split
  · next v f found found' =>
    split
    · exact ⟨h, rfl⟩
    · next same =>
      have kind : v.kind = f.kind := not_not.1 same
      refine onValue_follows (fun _ => s.world.store.values f) h value (fun done => ?_)
        fun u found'' => ?_
      · simp only [Lists.move, Lists.step, Lists.change, shows_of_value found,
          shows_of_view found', Option.map_some, kind]
      · cases found.symm.trans found''
        have live : .frozen f ∈ v.holdings ++
            (hand ++ holdings { s with values := s.values.erase value }) :=
          List.mem_append_right _ (List.mem_append_right _ (mem_holdings_view found'))
        obtain ⟨owns, keeps⟩ := (h.value found).clone_live live
        exact install_renews ⟨owns, keeps, kind.symm.trans (h.fits value v found).symm,
          keeps f (Holding.mem_frozens.2 live)⟩
  · exact ⟨h, rfl⟩

theorem view_follows (h : s.Sound hand) (value view : Nat) :
    Follows hand s.shows (.step (.view value view)) (step (.view value view) s) := by
  simp only [step]
  cases found : s.values.get? value with
  | none => exact ⟨h, rfl⟩
  | some v =>
    obtain ⟨sound, shown⟩ :=
      h.copyView (List.mem_append_right _ (mem_holdings_value found)) view
    refine ⟨sound, shown.trans ?_⟩
    rw [h.fits value v found]
    exact congrArg (s.shows.setView view) (shows_of_value found).symm

theorem makeView_follows (h : s.Sound hand) (view : Nat) (k : Kind) (elements : List Scalar) :
    Follows hand s.shows (.step (.makeView view k elements))
      (step (.makeView view k elements) s) := by
  have owns := h.owns.ofList (a := .shared) trivial k elements
  have made := h.owns.holds.ofList k .shared elements
  simp only [step, World.onStore]
  cases run : Store.ofList k .shared elements s.world.store with
  | error e t =>
    rw [run] at owns made
    exact h.withWorld (w := { s.world with store := t }) owns made.2.of_append
  | ok f t =>
    rw [run] at owns made
    obtain ⟨-, keeps, kind, values⟩ := made
    obtain ⟨taken, shown⟩ := h.withWorld (w := { s.world with store := t })
      (l := .frozen f :: hand) owns keeps.of_append
    obtain ⟨sound, shown'⟩ := taken.putView view
    refine ⟨sound, shown'.trans ?_⟩
    rw [shown, kind, values]
    rfl

theorem sliceView_follows (h : s.Sound hand) (view offset count : Nat) :
    Follows hand s.shows (.step (.sliceView view offset count))
      (step (.sliceView view offset count) s) := by
  simp only [step]
  cases found : s.views.get? view with
  | none =>
    refine ⟨h, rfl⟩
  | some f =>
    obtain ⟨taken, gone⟩ := h.takeView found
    have owns : s.world.store.Owns (.frozen f :: (hand ++ _)) := taken.owns
    obtain ⟨-, values⟩ := owns.frozen.slice offset count
    obtain ⟨sliced, shown⟩ := taken.withWorld (w := s.world)
      (l := .frozen (f.slice offset count) :: hand) (owns.slice offset count) fun _ _ => rfl
    obtain ⟨sound, shown'⟩ := sliced.giveView h.views_sorted
    refine ⟨sound, shown'.trans ?_⟩
    rw [gone, Lists.setView_setView, values]
    simp only [Lists.move, Lists.step, Succeeds, if_true, shows_of_view found, Option.map_some]
    rfl

theorem dropView_follows (h : s.Sound hand) (view : Nat) :
    Follows hand s.shows (.step (.dropView view)) (step (.dropView view) s) := by
  simp only [step]
  cases found : s.views.get? view with
  | none => exact ⟨h, rfl⟩
  | some f =>
    obtain ⟨taken, gone⟩ := h.takeView found
    obtain ⟨⟨sound, shown⟩, -⟩ := taken.dropFrozen
    exact ⟨sound, shown.trans gone⟩

theorem swap_follows (h : s.Sound hand) (value view : Nat) :
    Follows hand s.shows (.step (.swap value view)) (step (.swap value view) s) := by
  simp only [step]
  split
  · next v f found found' =>
    split
    · exact ⟨h, rfl⟩
    · next same =>
      have kind : v.kind = f.kind := not_not.1 same
      cases run : FieldValue.swap (v, f, s.world) with
      | error e p =>
        obtain ⟨v', f', w'⟩ := p
        obtain ⟨rfl, rfl, rfl⟩ := FieldValue.swap_error run
        simp only [Table.insert_of_get? h.values_sorted found,
          Table.insert_of_get? h.views_sorted found']
        exact ⟨h, rfl⟩
      | ok _ p =>
        obtain ⟨v', f', w'⟩ := p
        obtain ⟨rfl, rfl, rfl⟩ := FieldValue.swap_ok run
        obtain ⟨taken, gone⟩ := h.takeValue found
        obtain ⟨both, gone'⟩ :=
          taken.takeView (s := { s with values := s.values.erase value }) found'
        have order := (List.reverse_perm [Holding.frozen f, .handle v.allocator,
          .frozen v.value]).symm.append_right hand
        obtain ⟨turned, -⟩ := both.withWorld (w := s.world)
          (l := .frozen v.value :: (FieldValue.holdings { v with value := f } ++ hand))
          (both.owns.perm (order.append_right _)) fun _ _ => rfl
        obtain ⟨given, shown⟩ := Sound.giveView
          (s := { s with values := s.values.erase value }) turned h.views_sorted
        obtain ⟨sound, shown'⟩ := Sound.giveValue
          (s := { s with views := s.views.insert view v.value }) given h.values_sorted kind.symm
        refine ⟨sound, shown'.trans ?_⟩
        simp only [shown, gone', gone, Lists.setView_setView, h.fits value v found]
        simp only [Lists.move, Lists.step, Succeeds, if_true, shows_of_value found,
          shows_of_view found', ← kind]
        exact congrArg (Lists.setView · view _) (Lists.setArray_setArray ..)
  · exact ⟨h, rfl⟩

theorem onDecode_follows {t : ArrayMove} (h : s.Sound hand) (slot : Nat) (input : Incoming)
    (valid : input.buffer.Valid)
    (plain : ∀ done, s.shows.move done t =
      if done then s.shows.change slot (Lists.parsed input.buffer.order input.ahead)
      else s.shows) :
    Follows hand s.shows t (s.onDecode slot input) := by
  unfold onDecode
  cases found : s.values.get? slot with
  | none => exact ⟨h, (plain false).symm⟩
  | some v =>
    have spec := FieldValue.deserialize_spec (h.value found) (h.fits slot v found) input
    simp only
    cases run : FieldValue.deserialize (v, s.world, input) with
    | ok _ p =>
      obtain ⟨v', w', input'⟩ := p
      rw [run] at spec
      obtain ⟨shown, renewed, parse⟩ := spec
      obtain ⟨sound, shown'⟩ := h.renew found renewed
      refine ⟨sound, shown'.trans ?_⟩
      simp only [plain, Succeeds, if_true, Lists.change, shows_of_value found, Option.map_some,
        Lists.parsed, parse valid]
    | error e p =>
      obtain ⟨v', w', input'⟩ := p
      rw [run] at spec
      obtain ⟨sound, shown'⟩ := h.renew found spec.toRenewed
      refine ⟨sound, shown'.trans ?_⟩
      rw [plain, ← shows_of_value found, Lists.setArray_self]
      rfl

theorem deserialize_follows (h : s.Sound hand) (value : Nat) (bytes : List UInt8)
    (order : ByteOrder) :
    Follows hand s.shows (.step (.deserialize value bytes order))
      (step (.deserialize value bytes order) s) := by
  refine onDecode_follows h value ⟨.holding bytes order, .closed⟩
    (Buffer.valid_holding bytes order) fun done => ?_
  have ahead : Incoming.ahead ⟨.holding bytes order, .closed⟩ = bytes := by
    rw [Incoming.ahead, Buffer.unread_holding, List.append_nil]
  rw [ahead]
  rfl

theorem step_follows (h : s.Sound hand) (t : ArrayStep) :
    Follows hand s.shows (.step t) (step t s) := by
  cases t with
  | record slot name => exact h.withRest rfl rfl rfl rfl
  | tracker slot => exact h.withRest rfl rfl rfl rfl
  | freezeRecord slot | freezeToken slot | post watch offset | clear watch =>
    simp only [step]
    split
    · exact ⟨h, rfl⟩
    · exact h.withRest rfl rfl rfl rfl
  | token slot source =>
    simp only [step]
    split
    · exact ⟨h, rfl⟩
    · next t w made =>
      refine h.withRest ?_ rfl rfl rfl
      cases source with
      | fresh | bare =>
        cases made
        rfl
      | childOf other | copyOf other =>
        obtain ⟨token, -, same⟩ := Option.map_eq_some_iff.1 made
        cases same
        rfl
  | serialize value capacity order direct range =>
    rw [Follows, s.state_serialize]
    exact ⟨h, (ite_self _).symm⟩
  | create value field pool => exact h.putNew (h.alive_allocator pool) rfl rfl rfl value
  | add slot value field => exact add_follows h slot value field
  | attach value token watch offset => exact attach_follows h value token watch offset
  | growFrom value pool => exact growFrom_follows h value pool
  | drop value => exact drop_follows h value
  | put value elements => exact put_follows h value elements
  | replace value elements => exact replace_follows h value elements
  | setLength value length => exact setLength_follows h value length
  | setCapacity value capacity => exact setCapacity_follows h value capacity
  | setCapacityMutable value on => exact setCapacityMutable_follows h value on
  | setImmutable value => exact setImmutable_follows h value
  | view value view => exact view_follows h value view
  | makeView view k elements => exact makeView_follows h view k elements
  | sliceView view offset count => exact sliceView_follows h view offset count
  | dropView view => exact dropView_follows h view
  | swap value view => exact swap_follows h value view
  | install value view => exact install_follows h value view
  | deserialize value bytes order => exact deserialize_follows h value bytes order

theorem build_follows (h : s.Sound hand) (config : PoolConfig) (elementSize : Nat) :
    Follows hand s.shows (.build config elementSize) (move (.build config elementSize) s) := by
  have built := h.owns.build registry config elementSize
  simp only [move]
  cases run : Allocators.build registry config elementSize s.world.store.allocators with
  | error e m =>
    rw [run] at built
    exact ⟨⟨h.values_sorted, h.views_sorted, h.fits, built⟩, rfl⟩
  | ok a m =>
    rw [run] at built
    have order := holdings_pools (s := s) (List.perm_append_singleton a s.pools)
    exact ⟨⟨h.values_sorted, h.views_sorted, h.fits,
      built.perm ((order.append_left hand).trans List.perm_middle).symm⟩, rfl⟩

theorem forget_follows (h : s.Sound hand) (pool : Nat) :
    Follows hand s.shows (.forget pool) (move (.forget pool) s) := by
  simp only [move]
  cases named : s.pools[pool]? with
  | none => exact ⟨h, rfl⟩
  | some a =>
    obtain ⟨bound, rfl⟩ := List.getElem?_eq_some_iff.1 named
    have order := holdings_pools (s := s) (List.getElem_cons_eraseIdx_perm bound).symm
    exact ⟨⟨h.values_sorted, h.views_sorted, h.fits,
      (h.owns.perm ((order.append_left hand).trans List.perm_middle)).letGo⟩, rfl⟩

theorem pass_follows (h : s.Sound hand) (value view : Nat) :
    Follows hand s.shows (.pass value view) (move (.pass value view) s) := by
  simp only [move]
  split
  · next v f found found' =>
    have plain : ∀ done, s.shows.move done (.pass value view) =
        if v.kind = f.kind then
          (if done then s.shows.setArray value (some ⟨f.kind, s.world.store.values f⟩)
            else s.shows).setView view none
        else s.shows := fun done => by
      simp only [Lists.move, shows_of_value found, shows_of_view found']
    split
    · next apart => exact ⟨h, ((plain false).trans (if_neg apart)).symm⟩
    · next same =>
      have kind : v.kind = f.kind := not_not.1 same
      obtain ⟨taken, gone⟩ := h.takeView found'
      have owns := (taken.value found).perm List.perm_middle
      have spec := FieldValue.replace_spec owns (kind.symm.trans (h.fits value v found).symm)
      have empty : s.values.get? value = some v := found
      simp only [onValue, found]
      cases run : FieldValue.replace f (v, s.world) with
      | ok _ p =>
        obtain ⟨v', w'⟩ := p
        rw [run] at spec
        obtain ⟨sound, shown⟩ := taken.renew (l := hand) found spec
        refine ⟨sound, shown.trans ?_⟩
        rw [plain, if_pos kind, gone, kind]
        rfl
      | error e p =>
        obtain ⟨v', w'⟩ := p
        rw [run] at spec
        obtain ⟨-, rfl, rfl⟩ := spec
        obtain ⟨⟨sound, shown⟩, -⟩ := taken.dropFrozen
        simp only [Table.insert_of_get? h.values_sorted found]
        refine ⟨sound, (shown.trans gone).trans ?_⟩
        rw [plain, if_pos kind]
        rfl
  · next missing =>
    refine ⟨h, ?_⟩
    simp only [Lists.move]
    split
    · next a b shown shown' =>
      obtain ⟨v, found, -⟩ := Option.map_eq_some_iff.1 shown
      obtain ⟨f, found', -⟩ := Option.map_eq_some_iff.1 shown'
      exact absurd found' (missing v f found)
    · rfl

/-- Every move does to the slots what it does to lists. -/
theorem move_follows (h : s.Sound hand) (t : ArrayMove) : Follows hand s.shows t (move t s) := by
  cases t with
  | step t => exact step_follows h t
  | build config elementSize => exact build_follows h config elementSize
  | forget pool => exact forget_follows h pool
  | decode value input valid => exact onDecode_follows h value input valid fun _ => rfl
  | pass value view => exact pass_follows h value view

end ArrayState

end ArrayStore.Session
