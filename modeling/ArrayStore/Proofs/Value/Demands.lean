import ArrayStore.Proofs.Value.Operations
import ArrayStore.Proofs.Vector.Demands

/-! Storage follows the data, not the announced count.
The requests for blocks that reading an array makes are listed beside it, each
with the elements that were in place when it was made. With the allocator that
is shared by all, the room of the new vector never exceeds the announced count
and, until it has come there, is a whole number of chunks; when it has to grow
it is full, so that it asks for a first chunk or for twice what has arrived.
Main statement: whatever bytes come, each request keeps to that, what was there
is kept, and an array that is read has just the room it needs. -/

namespace ArrayStore

/-- A request for a block by a vector under construction: for how many elements, which ones were
in place before and which are afterwards. -/
structure Demand where
  elements : Nat
  placed : List Scalar
  kept : List Scalar

/-- How many elements may be asked for before any has arrived: a mebibyte of them, or one text. -/
def Kind.lead (k : Kind) : Nat := k.width?.elim 1 fun width => 0x100000 / width

/-- A request that follows the data: `count` elements were announced, and `rest` are the bytes
behind the announcement. -/
structure Demand.Follows (k : Kind) (order : ByteOrder) (count : Nat) (rest : List UInt8)
    (d : Demand) : Prop where
  announced : d.elements ≤ count
  doubles : d.elements ≤ max k.lead (2 * d.placed.length)
  arrived : ∃ left, Wire.parseMany (Wire.parseElement k order) d.placed.length rest =
    .ok (d.placed, left)
  keeps : d.placed <+: d.kept

def Demand.sizes (k : Kind) (ds : List Demand) : List Nat :=
  ds.map fun d => k.footprint * d.elements

namespace Intake

def growAsks (length count : Nat) (s : Intake) : List Nat :=
  if s.next.capacity < length then
    Writable.growAsks (min (max length (2 * s.next.capacity)) count) length
      (s.next, s.store.allocators)
  else Writable.resizeAsks length s.next

def growDemands (length count : Nat) (s : Intake) : List Demand :=
  (growAsks length count s).map fun elements =>
    ⟨elements, s.next.values, (Outcome.state (growTo length count s)).next.values⟩

def fixedDemands (k : Kind) (width : Nat) (width_pos : 0 < width) (count done : Nat)
    (s : Intake) : List Demand :=
  if count ≤ done then []
  else
    let stop := min count (done + chunk width)
    growDemands stop count s ++
      match growTo stop count s with
      | .error _ _ => []
      | .ok () ⟨next, input, store⟩ =>
        match readChunk? k width (stop - done) input with
        | .error _ _ => []
        | .ok (some bytes) input =>
          let values := k.decodeAll .native (stop - done) bytes
          fixedDemands k width width_pos count stop ⟨next.store done values, input, store⟩
        | .ok none input =>
          match readElements k width width_pos count stop done ⟨next, input, store⟩ with
          | .error _ _ => []
          | .ok () s => fixedDemands k width width_pos count stop s
termination_by count - done
decreasing_by
  all_goals
    have : 1 ≤ chunk width := Nat.le_max_right _ _
    omega

def textDemands (count : Nat) : (missing : Nat) → Intake → List Demand
  | 0, _ => []
  | missing + 1, ⟨next, input, store⟩ =>
    match Wire.readText input with
    | .error _ _ => []
    | .ok text input =>
      let index := count - (missing + 1)
      growDemands (index + 1) count ⟨next, input, store⟩ ++
        match growTo (index + 1) count ⟨next, input, store⟩ with
        | .error _ _ => []
        | .ok () ⟨next, input, store⟩ =>
          textDemands count missing ⟨next.store index [.text text], input, store⟩

def allDemands (k : Kind) (count : Nat) (s : Intake) : List Demand :=
  match h : k.width? with
  | none => textDemands count count s
  | some width => fixedDemands k width (Kind.width?_pos h) count 0 s

/-- A vector from the shared allocator on its way to `count` elements, in steps: its room does not
exceed the count, and until they have come there room and length are whole numbers of steps. -/
structure Paced (step count : Nat) (w : Writable) : Prop where
  shared : w.allocator = .shared
  low : w.length ≤ w.capacity
  high : w.capacity ≤ count
  capacity_dvd : w.capacity < count → step ∣ w.capacity
  length_dvd : w.length < count → step ∣ w.length

variable {k : Kind} {step count : Nat} {s : Intake}

theorem Paced.store {w : Writable} (h : Paced step count w) (index : Nat) (values : List Scalar) :
    Paced step count (w.store index values) := by
  have capacity := w.capacity_store index values
  have length := w.length_store index values
  exact ⟨(w.held_store index values).2.1.trans h.shared, by rw [capacity, length]; exact h.low,
    by rw [capacity]; exact h.high, by rw [capacity]; exact h.capacity_dvd,
    by rw [length]; exact h.length_dvd⟩

theorem Paced.full {w : Writable} (h : Paced step count w) (more : w.length < count)
    (tight : w.capacity < min count (w.length + step)) : w.capacity = w.length := by
  have whole : step ∣ w.capacity - w.length :=
    Nat.dvd_sub (h.capacity_dvd (by omega)) (h.length_dvd more)
  have low := h.low
  have none := Nat.eq_zero_of_dvd_of_lt whole (by omega)
  omega

/-- What a full vector asks for: a first step, or twice what it holds. -/
theorem Paced.target {w : Writable} (h : Paced step count w) (more : w.length < count) :
    let target := min (max (min count (w.length + step)) (2 * w.length)) count
    target ≤ max step (2 * w.length) ∧ (target < count → step ∣ target) := by
  have whole := h.length_dvd more
  refine ⟨?_, fun short => ?_⟩
  · rcases Nat.eq_zero_or_pos w.length with none | some
    · omega
    · have := Nat.le_of_dvd some whole
      omega
  · obtain same | same : min (max (min count (w.length + step)) (2 * w.length)) count =
        w.length + step ∨ min (max (min count (w.length + step)) (2 * w.length)) count =
        2 * w.length := by omega
    · rw [same]
      exact Nat.dvd_add whole (Nat.dvd_refl step)
    · rw [same]
      exact Nat.dvd_mul_left_of_dvd whole 2

/-- One step of growth: at most one request, which keeps the pace. -/
theorem growTo_paced (h : Paced step count s.next) (more : s.next.length < count)
    (small : s.next.kind.footprint * count < addressBound) :
    let stop := min count (s.next.length + step)
    (∀ n ∈ growAsks stop count s, n ≤ count ∧ n ≤ max step (2 * s.next.length)) ∧
    let asked := s.store.allocators.system.requestAll
      ((growAsks stop count s).map (s.next.kind.footprint * ·))
    match growTo stop count s with
    | .ok () t => asked = (true, t.store.allocators.system) ∧ Paced step count t.next ∧
        t.next.length = stop
    | .error _ t => asked.2 = t.store.allocators.system ∧ t.next = s.next := by
  intro stop
  have length_dvd : stop < count → step ∣ stop := fun short => by
    have same : stop = s.next.length + step := by omega
    rw [same]
    exact Nat.dvd_add (h.length_dvd more) (Nat.dvd_refl step)
  by_cases tight : s.next.capacity < stop
  · have full := h.full more tight
    obtain ⟨doubles, dvd⟩ := h.target more
    let target := min (max stop (2 * s.next.capacity)) count
    have same : target = min (max stop (2 * s.next.length)) count := by
      simp only [target, full]
    rw [← same] at doubles dvd
    have bounded : s.next.kind.footprint * target < addressBound :=
      Nat.lt_of_le_of_lt (Nat.mul_le_mul_left _ (Nat.min_le_right _ _)) small
    obtain ⟨asks, grown⟩ := Writable.grow_shared (m := s.store.allocators) h.shared
      (show s.next.capacity < target by omega) bounded (show stop ≤ target by omega)
    rw [growTo_of_tight tight, growAsks, if_pos tight, asks]
    refine ⟨fun n member => ?_, ?_⟩
    · obtain rfl := List.mem_singleton.1 member
      exact ⟨Nat.min_le_right _ _, doubles⟩
    · obtain ⟨next, input, m, cells, made⟩ := s
      simp only [onNext, Store.onWritable, List.map_cons, List.map_nil]
      cases run : Writable.grow target stop (next, m) with
      | error e t =>
        rw [run] at grown
        exact ⟨grown.2, grown.1⟩
      | ok _ t =>
        rw [run] at grown
        obtain ⟨capacity, handle, size, asked⟩ := grown
        refine ⟨asked, ⟨handle.trans h.shared, ?_, ?_, ?_, ?_⟩, size⟩
        · simp only [capacity, size]
          omega
        · rw [capacity]
          exact Nat.min_le_right _ _
        · rw [capacity]
          exact dvd
        · rw [size]
          exact length_dvd
  · obtain ⟨asks, v, run, capacity, handle, size⟩ :=
      Writable.resize_within (Nat.le_of_not_lt tight) s.store.allocators
    rw [growTo_of_roomy tight, growAsks, if_neg tight, asks]
    refine ⟨fun n member => absurd member List.not_mem_nil, ?_⟩
    obtain ⟨next, input, m, cells, made⟩ := s
    simp only [onNext, Store.onWritable, run]
    refine ⟨rfl, ⟨handle.trans h.shared, ?_, ?_, ?_, ?_⟩, size⟩
    · rw [capacity, size]
      exact Nat.le_of_not_lt tight
    · rw [capacity]
      exact h.high
    · rw [capacity]
      exact h.capacity_dvd
    · rw [size]
      exact length_dvd

theorem growTo_keeps (h : Paced step count s.next) (sound : s.next.Sound)
    (more : s.next.length < count) (small : s.next.kind.footprint * count < addressBound) :
    s.next.values <+:
      (Outcome.state (growTo (min count (s.next.length + step)) count s)).next.values := by
  obtain ⟨-, grown⟩ := growTo_paced h more small
  cases run : growTo (min count (s.next.length + step)) count s with
  | error e t =>
    rw [run] at grown
    exact ⟨[], by rw [List.append_nil, Outcome.state_error, grown.2]⟩
  | ok _ t =>
    obtain ⟨-, -, kept⟩ := growTo_grown sound rfl run
    have size : s.next.values.length = s.next.length := Writable.length_values sound
    rw [Outcome.state_ok, kept.values, List.take_of_length_le (by omega)]
    exact List.prefix_append _ _

def stepOf (k : Kind) : Nat := k.width?.elim 1 chunk

theorem stepOf_le (k : Kind) : stepOf k ≤ k.lead := by cases k <;> decide

/-- A step of growth behind the elements that have arrived since `o`, which had none: its requests
follow the data, and are all that the system is asked for. -/
theorem growTo_follows {o : Intake} {stop : Nat} (bare : o.next.values = [])
    (start : Collects k s.next.length o s) (paced : Paced (stepOf k) count s.next)
    (more : s.next.length < count) (small : k.footprint * count < addressBound)
    (step : stop = min count (s.next.length + stepOf k)) (input : Incoming) :
    let u : Intake := { s with input }
    (∀ d ∈ growDemands stop count u, d.Follows k o.input.buffer.order count o.input.ahead) ∧
    let asked := s.store.allocators.system.requestAll (Demand.sizes k (growDemands stop count u))
    (∀ t, growTo stop count u = .ok () t → asked = (true, t.store.allocators.system) ∧
      Paced (stepOf k) count t.next ∧ t.next.length = stop) ∧
    ∀ e t, growTo stop count u = .error e t → asked.2 = t.store.allocators.system := by
  intro u
  subst step
  have low : s.next.kind.footprint * count < addressBound := start.kind_eq.symm ▸ small
  have size : s.next.values.length = s.next.length := Writable.length_values start.sound
  have lead := stepOf_le k
  obtain ⟨vs, parsed, values⟩ := start.elements
  rw [bare, List.nil_append] at values
  obtain ⟨asks, grown⟩ := growTo_paced (s := u) paced more low
  refine ⟨fun d member => ?_, ?_⟩
  · obtain ⟨n, asked, rfl⟩ := List.mem_map.1 member
    obtain ⟨announced, doubles⟩ := asks n asked
    have doubles : n ≤ max (stepOf k) (2 * s.next.length) := doubles
    refine ⟨announced, ?_, ?_, growTo_keeps (s := u) paced start.sound more low⟩
    · change n ≤ max k.lead (2 * s.next.values.length)
      omega
    · change ∃ left, Wire.parseMany _ s.next.values.length _ = .ok (s.next.values, left)
      rw [size, values]
      exact ⟨_, parsed⟩
  · have sizes : Demand.sizes k (growDemands (min count (s.next.length + stepOf k)) count u) =
        (growAsks (min count (s.next.length + stepOf k)) count u).map
          (u.next.kind.footprint * ·) := by
      have kind : u.next.kind = k := start.kind_eq
      rw [Demand.sizes, growDemands, List.map_map, kind]
      rfl
    simp only [sizes]
    refine ⟨fun t run => ?_, fun e t run => ?_⟩
    all_goals
      change growTo (min count (u.next.length + stepOf k)) count u = _ at run
      rw [run] at grown
    · exact grown
    · exact grown.1

theorem readElements_paced {width : Nat} (width_pos : 0 < width) (total stop done : Nat)
    (h : Paced step count s.next) :
    let t := Outcome.state (readElements k width width_pos total stop done s)
    t.next.length = s.next.length ∧ Paced step count t.next := by
  fun_induction readElements k width width_pos total stop done s with
  | case1 | case2 | case4 | case5 => exact ⟨rfl, h⟩
  | case3 done next input store more held less t ready grown ih => exact ih h
  | case6 done next input store more held whole part values t got ih =>
    obtain ⟨size, paced⟩ := ih (h.store ..)
    exact ⟨size.trans (next.length_store ..), paced⟩

/-- What reading comes to that begins with `s` and makes the requests `ds`: each follows the data,
the system is asked for just their sizes, and at the end there is just room for the count. -/
structure Measured (k : Kind) (order : ByteOrder) (count : Nat) (rest : List UInt8) (s : Intake)
    (r : Outcome Intake Unit) (ds : List Demand) : Prop where
  follows : ∀ d ∈ ds, d.Follows k order count rest
  asked : (s.store.allocators.system.requestAll (Demand.sizes k ds)).2 =
    (Outcome.state r).store.allocators.system
  full : ∀ u, r = .ok () u → u.next.length = count ∧ u.next.capacity = count ∧
    (s.store.allocators.system.requestAll (Demand.sizes k ds)).1 = true

variable {order : ByteOrder} {rest : List UInt8} {r : Outcome Intake Unit} {t : Intake}
  {es ds : List Demand}

theorem Measured.after (follows : ∀ d ∈ es, d.Follows k order count rest)
    (asked : s.store.allocators.system.requestAll (Demand.sizes k es) =
      (true, t.store.allocators.system))
    (next : Measured k order count rest t r ds) : Measured k order count rest s r (es ++ ds) := by
  have all : s.store.allocators.system.requestAll (Demand.sizes k (es ++ ds)) =
      t.store.allocators.system.requestAll (Demand.sizes k ds) := by
    rw [Demand.sizes, List.map_append, System.requestAll_append]
    simp only [Demand.sizes] at asked ⊢
    rw [asked, Bool.true_and]
  refine ⟨fun d member => ?_, by rw [all]; exact next.asked, fun u run => by
    rw [all]; exact next.full u run⟩
  rcases List.mem_append.1 member with early | late
  · exact follows d early
  · exact next.follows d late

theorem Measured.refused {e : Error} (follows : ∀ d ∈ es, d.Follows k order count rest)
    (asked : (s.store.allocators.system.requestAll (Demand.sizes k es)).2 =
      t.store.allocators.system) : Measured k order count rest s (.error e t) (es ++ []) := by
  rw [List.append_nil]
  exact ⟨follows, asked, fun _ eq => by cases eq⟩

theorem Measured.stop {e : Error} {u : Intake} (same : u.store = s.store) :
    Measured k order count rest s (.error e u) [] :=
  ⟨fun _ member => absurd member List.not_mem_nil,
    congrArg (fun store => store.allocators.system) same.symm, fun _ eq => by cases eq⟩

theorem Measured.done (paced : Paced step count s.next) (all : count ≤ s.next.length) :
    Measured k order count rest s (.ok () s) [] := by
  refine ⟨fun _ member => absurd member List.not_mem_nil, rfl, fun u eq => ?_⟩
  cases eq
  have room := paced.low
  have high := paced.high
  exact ⟨by omega, by omega, rfl⟩

theorem fixedDemands_measured {width done : Nat} (width_pos : 0 < width)
    (wide : k.width? = some width) (small : k.footprint * count < addressBound) {o : Intake}
    (bare : o.next.values = []) (start : Collects k done o s) (size : s.next.length = done)
    (low : done ≤ count) (paced : Paced (stepOf k) count s.next) :
    Measured k o.input.buffer.order count o.input.ahead s
      (readFixed k width width_pos count done s) (fixedDemands k width width_pos count done s) := by
  have step : stepOf k = chunk width := by rw [stepOf, wide, Option.elim_some]
  fun_induction readFixed k width width_pos count done s with
  | case1 done s all =>
    rw [fixedDemands, if_pos all]
    exact .done paced (by omega)
  | case2 done s more stop e t failed =>
    subst size
    obtain ⟨follows, -, asked⟩ := growTo_follows bare start paced (by omega) small
      (show stop = _ by rw [step]) s.input
    have refused := asked e t failed
    rw [fixedDemands, if_neg more]
    simp only [stop] at failed
    simp only [failed]
    exact .refused follows refused
  | case3 done s more stop next input store ran e input' failed =>
    subst size
    obtain ⟨follows, grown, -⟩ := growTo_follows bare start paced (by omega) small
      (show stop = _ by rw [step]) s.input
    obtain ⟨asked, -⟩ := grown _ ran
    rw [fixedDemands, if_neg more]
    simp only [stop] at ran failed
    simp only [ran, failed]
    exact .after follows asked (.stop rfl)
  | case4 done s more stop next input store ran bytes input' bulk values ih =>
    subst size
    obtain ⟨follows, grown, -⟩ := growTo_follows bare start paced (by omega) small
      (show stop = _ by rw [step]) s.input
    obtain ⟨asked, paced', size'⟩ := grown _ ran
    have chunk := bulk_collects wide start.sound start.kind_eq start.valid rfl (by omega) ran bulk
    have start' := start.trans chunk
    rw [Nat.add_sub_cancel' (by omega : s.next.length ≤ stop)] at start'
    have measured := ih start' ((next.length_store ..).trans size') (Nat.min_le_left _ _)
      (paced'.store ..)
    rw [fixedDemands, if_neg more]
    simp only [stop] at ran bulk
    simp only [ran, bulk]
    exact .after (t := ⟨next.store s.next.length values, input', store⟩) follows asked measured
  | case5 done s more stop next input store ran input' declined e t failed =>
    subst size
    obtain ⟨follows, grown, -⟩ := growTo_follows bare start paced (by omega) small
      (show stop = _ by rw [step]) s.input
    obtain ⟨asked, -⟩ := grown _ ran
    have same := store_readElements (k := k) width_pos count stop s.next.length
      ⟨next, input', store⟩
    rw [failed, Outcome.state_error] at same
    rw [fixedDemands, if_neg more]
    simp only [stop] at ran declined failed
    simp only [ran, declined, failed]
    exact .after follows asked (.stop same)
  | case6 done s more stop next input store ran input' declined t elements ih =>
    subst size
    obtain ⟨follows, grown, -⟩ := growTo_follows bare start paced (by omega) small
      (show stop = _ by rw [step]) s.input
    obtain ⟨asked, paced', size'⟩ := grown _ ran
    have same := store_readElements (k := k) width_pos count stop s.next.length
      ⟨next, input', store⟩
    obtain ⟨size'', kept⟩ := readElements_paced (k := k) (s := ⟨next, input', store⟩) width_pos
      count stop s.next.length paced'
    rw [elements, Outcome.state_ok] at same size'' kept
    have still := readChunk?_none declined
    subst still
    have chunk := elements_collects wide start.sound start.kind_eq start.valid rfl (by omega) ran
      width_pos elements
    have start' := start.trans chunk
    rw [Nat.add_sub_cancel' (by omega : s.next.length ≤ stop)] at start'
    have measured := ih start' (size''.trans size') (Nat.min_le_left _ _) kept
    rw [← same] at asked
    rw [fixedDemands, if_neg more]
    simp only [stop] at ran declined elements
    simp only [ran, declined, elements]
    exact .after (t := t) follows asked measured

theorem textDemands_measured (text : k.width? = none) (small : k.footprint * count < addressBound)
    {o : Intake} (bare : o.next.values = []) {missing : Nat} (low : missing ≤ count)
    (start : Collects k (count - missing) o s) (size : s.next.length = count - missing)
    (paced : Paced (stepOf k) count s.next) :
    Measured k o.input.buffer.order count o.input.ahead s (readTexts count missing s)
      (textDemands count missing s) := by
  have one : stepOf k = 1 := by rw [stepOf, text, Option.elim_none]
  induction missing generalizing s with
  | zero => exact .done paced (by omega)
  | succ missing ih =>
    obtain ⟨w, input, store⟩ := s
    have index : count - (missing + 1) = w.length := size.symm
    cases string : Wire.readText input with
    | error e input' =>
      simp only [readTexts, textDemands, string]
      exact .stop rfl
    | ok content input' =>
      rw [index] at start
      obtain ⟨follows, grown, refused⟩ := growTo_follows (s := ⟨w, input, store⟩)
        bare start paced (by simp only; omega) small
        (show w.length + 1 = _ by simp only [one]; omega) input'
      simp only [readTexts, textDemands, string, index]
      cases ran : growTo (w.length + 1) count ⟨w, input', store⟩ with
      | error e t => exact .refused follows (refused e t ran)
      | ok _ t =>
        obtain ⟨next, feed, kept⟩ := t
        obtain ⟨asked, paced', size'⟩ := grown _ ran
        have more := start.trans
          (text_collects text start.sound start.kind_eq start.valid string ran)
        have step : w.length + 1 = count - missing := by omega
        have measured := ih (by omega) (step ▸ more)
          ((next.length_store ..).trans (size'.trans step)) (paced'.store ..)
        exact .after (t := ⟨next.store w.length [.text content], feed, kept⟩) follows asked measured

theorem allDemands_of_text (text : k.width? = none) :
    allDemands k count s = textDemands count count s := by
  unfold allDemands
  split
  · rfl
  · next width wide =>
    rw [text] at wide
    cases wide

theorem allDemands_of_width {width : Nat} (wide : k.width? = some width) :
    allDemands k count s = fixedDemands k width (Kind.width?_pos wide) count 0 s := by
  unfold allDemands
  split
  · next text =>
    rw [wide] at text
    cases text
  · next width' wide' =>
    cases wide.symm.trans wide'
    rfl

theorem allDemands_measured (small : k.footprint * count < addressBound) (sound : s.next.Sound)
    (kind : s.next.kind = k) (valid : s.input.buffer.Valid) (shared : s.next.allocator = .shared)
    (bare : s.next.storage = none) (size : s.next.length = 0) :
    Measured k s.input.buffer.order count s.input.ahead s (readAll k count s)
      (allDemands k count s) := by
  have empty : s.next.values = [] := by rw [Writable.values, bare, Option.elim_none]
  have room : s.next.capacity = 0 := by rw [Writable.capacity, bare, Option.elim_none]
  have start : Collects k 0 s s := .none sound kind valid
  have paced : Paced (stepOf k) count s.next :=
    ⟨shared, by omega, by omega, fun _ => room ▸ Nat.dvd_zero _, fun _ => size ▸ Nat.dvd_zero _⟩
  unfold readAll
  split
  · next text =>
    rw [allDemands_of_text text]
    rw [← Nat.sub_self count] at start size
    exact textDemands_measured text small empty (Nat.le_refl _) start size paced
  · next width wide =>
    rw [allDemands_of_width wide]
    exact fixedDemands_measured (Kind.width?_pos wide) wide small empty start size (Nat.zero_le _)
      paced

end Intake

namespace Wire

def arrayDemands (k : Kind) (a : Allocator) : Incoming × Store → List Demand
  | (input, store) =>
    match readSize input with
    | .error _ _ => []
    | .ok count input =>
      let (next, store) := store.emptyWritable k a
      Intake.allDemands k count ⟨next, input, store⟩

theorem footprint_le (k : Kind) : k.footprint ≤ 24 := by cases k <;> decide

theorem readArray_measured (k : Kind) {input : Incoming} (valid : input.buffer.Valid)
    (store : Store) :
    let ds := arrayDemands k .shared (input, store)
    let r := readArray k .shared (input, store)
    let asked := store.allocators.system.requestAll (Demand.sizes k ds)
    (∀ d ∈ ds, ∃ count rest, parseSize input.buffer.order input.ahead = .ok (count, rest) ∧
      d.Follows k input.buffer.order count rest) ∧
    asked.2 = (Outcome.state r).2.allocators.system ∧
    ∀ f t kept, r = .ok f (t, kept) → asked.1 = true ∧ kept.capacity f = f.length := by
  have sized := readSize_accepts valid
  simp only [arrayDemands, readArray]
  cases first : readSize input with
  | error e t =>
    exact ⟨fun _ member => absurd member List.not_mem_nil, rfl, fun _ _ _ eq => by cases eq⟩
  | ok count t =>
    rw [first] at sized
    obtain ⟨parsed, valid', order⟩ := sized
    let start : Intake := ⟨(store.emptyWritable k .shared).1, t, (store.emptyWritable k .shared).2⟩
    have small : k.footprint * count < addressBound := by
      have low : count < 0x80000000 := parseSize_lt parsed
      calc k.footprint * count ≤ 24 * 0x80000000 :=
            Nat.mul_le_mul (footprint_le k) (Nat.le_of_lt low)
        _ < addressBound := by decide
    have measured : Intake.Measured k t.buffer.order count t.ahead start
        (Intake.readAll k count start) (Intake.allDemands k count start) :=
      Intake.allDemands_measured (s := start) small
        (Writable.empty_sound k .shared store.allocators) rfl valid' rfl rfl rfl
    rw [order] at measured
    have asked := measured.asked
    refine ⟨fun d member => ⟨count, t.ahead, parsed, measured.follows d member⟩, ?_⟩
    cases run : Intake.readAll k count start with
    | error e u =>
      rw [run] at asked
      simp only [start] at run
      simp only [run, Outcome.state_error, Store.system_dropWritable]
      exact ⟨asked, fun _ _ _ eq => by cases eq⟩
    | ok _ u =>
      obtain ⟨size, room, granted⟩ := measured.full u run
      rw [run] at asked
      simp only [start] at run
      simp only [run, Outcome.state_ok, Store.system_freeze]
      refine ⟨asked, fun f t' kept eq => ?_⟩
      cases eq
      have sight := congrArg Sight.capacity (Store.sight_freeze u.store u.next)
      rw [Store.length_freeze, size]
      exact ⟨granted, sight.trans room⟩

end Wire

namespace FieldValue

def demands (v : FieldValue) (w : World) (input : Incoming) : List Demand :=
  if v.isImmutable w then [] else Wire.arrayDemands v.kind v.allocator (input, w.store)

variable {v : FieldValue} {w : World} {l : List Holding}

/-- Whatever bytes come through whatever buffer, into an array that grows from the shared allocator:
each request for its new content is for no more elements than were announced, and for no more
than a first mebibyte or text or twice those that have been read and are in place, which it
keeps. The system is asked for blocks of just these sizes, in this order, whether or not the
reading succeeds, and an array that is read has been granted all of them and has room for just its
elements. -/
theorem deserialize_follows_data (owns : w.store.Owns (v.holdings ++ l))
    (shared : v.allocator = .shared) (input : Incoming) (valid : input.buffer.Valid) :
    let ds := v.demands w input
    let r := deserialize (v, w, input)
    let asked := w.store.allocators.system.requestAll (Demand.sizes v.kind ds)
    (∀ d ∈ ds, ∃ count rest,
      Wire.parseSize input.buffer.order input.ahead = .ok (count, rest) ∧
      d.Follows v.kind input.buffer.order count rest) ∧
    asked.2 = (Outcome.state r).2.1.store.allocators.system ∧
    (Outcome.state r).2.1.store.allocators.system.asked =
      (Demand.sizes v.kind ds).reverse ++ w.store.allocators.system.asked ∧
    ∀ v' w' t, r = .ok () (v', w', t) → asked.1 = true ∧ v'.capacity w' = v'.length := by
  cases immutable : v.isImmutable w with
  | true =>
    simp only [demands, deserialize, immutable, if_true]
    exact ⟨fun _ member => absurd member List.not_mem_nil, rfl, rfl, fun _ _ _ eq => by cases eq⟩
  | false =>
    obtain ⟨store, flags, trackers, tracked⟩ := w
    obtain ⟨follows, asked, full⟩ := Wire.readArray_measured v.kind valid store
    have logged := store.allocators.system.asked_requestAll
      (Demand.sizes v.kind (Wire.arrayDemands v.kind .shared (input, store)))
    have read := owns.readArray (owns.alive (a := v.allocator) (by simp [holdings])) v.kind input
    simp only [demands, deserialize, immutable, Bool.false_eq_true, if_false, shared] at read ⊢
    refine ⟨follows, ?_⟩
    cases run : Wire.readArray v.kind .shared (input, store) with
    | error e p =>
      rw [run] at asked
      exact ⟨asked, asked ▸ logged, fun _ _ _ eq => by cases eq⟩
    | ok f p =>
      obtain ⟨input', kept⟩ := p
      obtain ⟨granted, room⟩ := full f input' kept run
      rw [run] at read asked
      simp only [Outcome.state_ok, store_post, Store.system_drop]
      refine ⟨asked, asked ▸ logged, fun v' w' t eq => ?_⟩
      cases eq
      have order : (Holding.frozen f :: (v.holdings ++ l)).Perm
          (.frozen v.value :: .frozen f :: .handle v.allocator :: l) :=
        ((v.holdings_perm l).cons _).trans (.swap ..)
      have same := (read.1.perm order).storage_dropped (g := f)
        (Holding.mem_frozens.2 List.mem_cons_self)
      simp only [capacity, store_post, Store.capacity, same]
      exact ⟨granted, room⟩

/-- Two texts behind an announcement of `2 ^ 31 - 1`, and three behind an announcement of three. -/
theorem deserialize_follows_data_texts :
    let v := (create ⟨"x", .text⟩ .shared {}).1
    let w := (create ⟨"x", .text⟩ .shared {}).2
    let hostile : Incoming :=
      ⟨.holding [0xFE, 0x7F, 0xFF, 0xFF, 0xFF, 1, 97, 1, 98] .big, .closed⟩
    let honest : Incoming := ⟨.holding [3, 1, 97, 1, 98, 1, 99] .big, .closed⟩
    (v.demands w hostile).map Demand.elements = [1, 2] ∧
      (∀ d ∈ v.demands w hostile, d.elements ≤ max 1 (2 * d.placed.length)) ∧
      (v.demands w honest).map Demand.elements = [1, 2, 3] ∧
      ∃ v' w' t, deserialize (v, w, honest) = .ok () (v', w', t) ∧ v'.length = 3 ∧
        v'.capacity w' = 3 := by
  intro v w hostile honest
  have owns : w.store.Owns (v.holdings ++ []) :=
    create_owns (w := {}) (Store.owns_nil .machine) ⟨"x", .text⟩ (a := .shared) trivial
  obtain ⟨follows, -⟩ := deserialize_follows_data owns rfl hostile (by decide)
  obtain ⟨-, -, -, full⟩ := deserialize_follows_data owns rfl honest (by decide)
  have read : (Outcome.answer (deserialize (v, w, honest))).isOk = true := by decide +kernel
  have three : (Outcome.state (deserialize (v, w, honest))).1.length = 3 := by decide +kernel
  refine ⟨by decide +kernel, fun d member => ?_, by decide +kernel, ?_⟩
  · obtain ⟨count, rest, -, kept⟩ := follows d member
    exact kept.doubles
  · cases run : deserialize (v, w, honest) with
    | error e p =>
      rw [run] at read
      cases read
    | ok _ p =>
      rw [run] at three
      exact ⟨_, _, _, rfl, three, (full _ _ _ run).2.trans three⟩

end FieldValue

end ArrayStore
