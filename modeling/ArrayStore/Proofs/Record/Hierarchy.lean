import ArrayStore.Record.Token
import Mathlib.Logic.Relation

/-! Who sees that a token is frozen.
Tokens are numbered in the order in which a program makes them. The history of
a program, which knows no flags, says which token lies below which, which are
clones of one another, and which have been frozen. Main statement: a token is
immutable just if a clone of it, or of a token that it lies below, has been
frozen, so that to freeze a token is seen nowhere but at it and below it. -/

namespace ArrayStore

namespace Flags

theorem isRaised_freeze (f : Flags) (t : Token) (flag : Nat) :
    (f.freeze t).isRaised flag = true ↔ t.flags.head? = some flag ∨ f.isRaised flag = true := by
  unfold freeze
  cases t.flags.head? with
  | none => simp
  | some own =>
    rw [Option.elim_some, isRaised_raise, Bool.or_eq_true, decide_eq_true_iff, Option.some_inj,
      @eq_comm _ own]

theorem made_freeze (f : Flags) (t : Token) : (f.freeze t).made = f.made := by
  unfold freeze
  cases t.flags.head? <;> rfl

theorem isImmutable_eq_true_iff (f : Flags) (t : Token) :
    f.isImmutable t = true ↔ ∃ flag ∈ t.flags, f.isRaised flag = true := List.any_eq_true

end Flags

/-- What a program does with tokens. A step that names a token that is not there does nothing. -/
inductive TokenStep where
  | new
  | child (parent : Nat)
  | clone (original : Nat)
  | freeze (token : Nat)
  deriving DecidableEq, Repr

/-- The tokens of a program, in the order in which they were made. -/
structure Grove where
  flags : Flags := {}
  tokens : List Token := []
  deriving DecidableEq, Repr

namespace Grove

def step (g : Grove) : TokenStep → Grove
  | .new =>
    let (t, flags) := g.flags.newToken
    ⟨flags, g.tokens ++ [t]⟩
  | .child parent =>
    match g.tokens[parent]? with
    | none => g
    | some t =>
      let (t, flags) := g.flags.childToken t
      ⟨flags, g.tokens ++ [t]⟩
  | .clone original =>
    match g.tokens[original]? with
    | none => g
    | some t => { g with tokens := g.tokens ++ [t] }
  | .freeze token =>
    match g.tokens[token]? with
    | none => g
    | some t => { g with flags := g.flags.freeze t }

def run (steps : List TokenStep) : Grove := steps.foldl step {}

end Grove

inductive Birth where
  | root
  | under (parent : Nat)
  | copy (original : Nat)
  deriving DecidableEq, Repr

/-- The history of a program: how each of its tokens came to be, and which it has frozen. -/
structure Family where
  births : List Birth := []
  frozen : List Nat := []
  deriving DecidableEq, Repr

namespace Family

def step (f : Family) : TokenStep → Family
  | .new => { f with births := f.births ++ [.root] }
  | .child parent =>
    if parent < f.births.length then { f with births := f.births ++ [.under parent] } else f
  | .clone original =>
    if original < f.births.length then { f with births := f.births ++ [.copy original] } else f
  | .freeze token =>
    if token < f.births.length then { f with frozen := token :: f.frozen } else f

def run (steps : List TokenStep) : Family := steps.foldl step {}

/-- Two tokens are one, or copies of one another by way of any others. -/
def Clones (f : Family) : Nat → Nat → Prop :=
  Relation.EqvGen fun i o => f.births[i]? = some (.copy o)

/-- A token descends from its parent and from all that its parent, or the token it was copied from,
descends from. -/
inductive Descends (f : Family) : Nat → Nat → Prop where
  | parent {i p : Nat} (born : f.births[i]? = some (.under p)) : Descends f i p
  | above {i p a : Nat} (born : f.births[i]? = some (.under p)) (h : Descends f p a) :
      Descends f i a
  | copy {i o a : Nat} (born : f.births[i]? = some (.copy o)) (h : Descends f o a) :
      Descends f i a

/-- A clone of the one token is the other token or one that it descends from. -/
def Under (f : Family) (i j : Nat) : Prop := ∃ a, (a = i ∨ f.Descends i a) ∧ f.Clones a j

/-- Two children of one parent, or of clones of one. -/
def Siblings (f : Family) (i j : Nat) : Prop :=
  i ≠ j ∧ ∃ p q, f.births[i]? = some (.under p) ∧ f.births[j]? = some (.under q) ∧ f.Clones p q

variable {f : Family} {i a : Nat}

theorem not_descends_of_root (born : f.births[i]? = some .root) : ¬f.Descends i a := by
  intro h
  cases h with
  | parent other | above other | copy other => cases born.symm.trans other

theorem descends_iff_of_under {p : Nat} (born : f.births[i]? = some (.under p)) :
    f.Descends i a ↔ a = p ∨ f.Descends p a := by
  constructor
  · intro h
    cases h with
    | parent other =>
      cases born.symm.trans other
      exact .inl rfl
    | above other above =>
      cases born.symm.trans other
      exact .inr above
    | copy other => cases born.symm.trans other
  · rintro (rfl | above)
    · exact .parent born
    · exact .above born above

theorem descends_iff_of_copy {o : Nat} (born : f.births[i]? = some (.copy o)) :
    f.Descends i a ↔ f.Descends o a := by
  constructor
  · intro h
    cases h with
    | parent other | above other => cases born.symm.trans other
    | copy other above =>
      cases born.symm.trans other
      exact above
  · exact .copy born

end Family

namespace Grove

/-- How the flags of a token show its birth, among the tokens that were there before. -/
def Born (before : List Token) (t : Token) : Birth → Prop
  | .root => ∃ own, t.flags = [own] ∧ ∀ u ∈ before, own ∉ u.flags
  | .under p => ∃ own u, before[p]? = some u ∧ t.flags = own :: u.flags ∧
      ∀ u ∈ before, own ∉ u.flags
  | .copy o => before[o]? = some t

def Bears (g : Grove) (i flag : Nat) : Prop :=
  ∃ t, g.tokens[i]? = some t ∧ t.flags.head? = some flag

/-- The tokens of a program have the flags that its history gives them. -/
structure Follows (g : Grove) (f : Family) : Prop where
  size : g.tokens.length = f.births.length
  born : ∀ i t b, g.tokens[i]? = some t → f.births[i]? = some b → Born (g.tokens.take i) t b
  made : ∀ t ∈ g.tokens, ∀ flag ∈ t.flags, flag < g.flags.made
  there : ∀ j ∈ f.frozen, j < g.tokens.length
  raised : ∀ flag, g.flags.isRaised flag = true ↔
    ∃ j ∈ f.frozen, g.Bears j flag

variable {g : Grove} {f : Family} {i j a : Nat} {t u : Token} {flag : Nat}

theorem Follows.birth (h : g.Follows f) (found : g.tokens[i]? = some t) :
    ∃ b, f.births[i]? = some b ∧ Born (g.tokens.take i) t b := by
  have within := (List.getElem?_eq_some_iff.1 found).1
  rw [h.size] at within
  exact ⟨_, List.getElem?_eq_getElem within, h.born i t _ found (List.getElem?_eq_getElem within)⟩

theorem Follows.token (h : g.Follows f) {b : Birth} (born : f.births[i]? = some b) :
    ∃ t, g.tokens[i]? = some t ∧ Born (g.tokens.take i) t b := by
  have within := (List.getElem?_eq_some_iff.1 born).1
  rw [← h.size] at within
  exact ⟨_, List.getElem?_eq_getElem within, h.born i _ b (List.getElem?_eq_getElem within) born⟩

theorem of_take (found : (g.tokens.take i)[j]? = some t) : j < i ∧ g.tokens[j]? = some t := by
  have within := (List.getElem?_eq_some_iff.1 found).1
  rw [List.length_take] at within
  have early : j < i := by omega
  rw [List.getElem?_take_of_lt early] at found
  exact ⟨early, found⟩

/-! What steps preserve. -/

theorem Follows.append (h : g.Follows f) {b : Birth} {flags : Flags}
    (born : Born g.tokens t b) (older : g.flags.made ≤ flags.made)
    (made : ∀ flag ∈ t.flags, flag < flags.made)
    (same : ∀ flag, flags.isRaised flag = g.flags.isRaised flag) :
    Follows ⟨flags, g.tokens ++ [t]⟩ { f with births := f.births ++ [b] } where
  size := by
    rw [List.length_append, List.length_append, h.size]
    rfl
  born i u c found named := by
    have within := (List.getElem?_eq_some_iff.1 found).1
    rw [List.length_append, List.length_singleton] at within
    by_cases last : i = g.tokens.length
    · subst last
      rw [List.getElem?_concat_length] at found
      rw [h.size, List.getElem?_concat_length] at named
      cases found
      cases named
      rwa [List.take_left]
    · have old : i < g.tokens.length := by omega
      rw [List.getElem?_append_left old] at found
      rw [List.getElem?_append_left (h.size ▸ old)] at named
      rw [List.take_append_of_le_length (Nat.le_of_lt old)]
      exact h.born i u c found named
  made u member flag inside := by
    rcases List.mem_append.1 member with old | new
    · exact Nat.lt_of_lt_of_le (h.made u old flag inside) older
    · cases List.mem_singleton.1 new
      exact made flag inside
  there j member := by
    rw [List.length_append]
    exact Nat.lt_add_right _ (h.there j member)
  raised flag := by
    rw [same, h.raised]
    refine exists_congr fun j => and_congr_right fun member => ?_
    simp only [Bears, List.getElem?_append_left (h.there j member)]

theorem Follows.new (h : g.Follows f) : (g.step .new).Follows (f.step .new) := by
  have fresh : ∀ u ∈ g.tokens, g.flags.made ∉ u.flags := fun u member inside =>
    Nat.lt_irrefl _ (h.made u member _ inside)
  refine h.append (b := .root) ⟨_, rfl, fresh⟩ (Nat.le_succ _) (fun flag inside => ?_)
    fun _ => rfl
  rw [List.mem_singleton.1 inside]
  exact Nat.lt_succ_self _

theorem Follows.child (h : g.Follows f) (parent : Nat) :
    (g.step (.child parent)).Follows (f.step (.child parent)) := by
  simp only [step, Family.step, ← h.size]
  cases found : g.tokens[parent]? with
  | none =>
    rw [if_neg (Nat.not_lt_of_le (List.getElem?_eq_none_iff.1 found))]
    exact h
  | some u =>
    obtain ⟨within, -⟩ := List.getElem?_eq_some_iff.1 found
    have member := List.mem_of_getElem? found
    have fresh : ∀ u ∈ g.tokens, g.flags.made ∉ u.flags := fun u member inside =>
      Nat.lt_irrefl _ (h.made u member _ inside)
    rw [if_pos within]
    refine h.append (b := .under parent) ⟨_, u, found, rfl, fresh⟩ (Nat.le_succ _)
      (fun flag inside => ?_) fun _ => rfl
    rcases List.mem_cons.1 inside with own | above
    · rw [own]
      exact Nat.lt_succ_self _
    · exact Nat.lt_succ_of_lt (h.made u member flag above)

theorem Follows.clone (h : g.Follows f) (original : Nat) :
    (g.step (.clone original)).Follows (f.step (.clone original)) := by
  simp only [step, Family.step, ← h.size]
  cases found : g.tokens[original]? with
  | none =>
    rw [if_neg (Nat.not_lt_of_le (List.getElem?_eq_none_iff.1 found))]
    exact h
  | some u =>
    obtain ⟨within, -⟩ := List.getElem?_eq_some_iff.1 found
    rw [if_pos within]
    exact h.append (b := .copy original) found (Nat.le_refl _)
      (h.made u (List.mem_of_getElem? found)) fun _ => rfl

theorem Follows.freeze (h : g.Follows f) (token : Nat) :
    (g.step (.freeze token)).Follows (f.step (.freeze token)) := by
  simp only [step, Family.step, ← h.size]
  cases found : g.tokens[token]? with
  | none =>
    rw [if_neg (Nat.not_lt_of_le (List.getElem?_eq_none_iff.1 found))]
    exact h
  | some u =>
    obtain ⟨within, -⟩ := List.getElem?_eq_some_iff.1 found
    rw [if_pos within]
    refine ⟨h.size, h.born, fun t member flag inside => ?_, fun j member => ?_, fun flag => ?_⟩
    · rw [Flags.made_freeze]
      exact h.made t member flag inside
    · rcases List.mem_cons.1 member with rfl | old
      · exact within
      · exact h.there j old
    · rw [Flags.isRaised_freeze, h.raised]
      constructor
      · rintro (own | ⟨j, member, raised⟩)
        · exact ⟨token, List.mem_cons_self, u, found, own⟩
        · exact ⟨j, List.mem_cons_of_mem _ member, raised⟩
      · rintro ⟨j, member, t, named, own⟩
        rcases List.mem_cons.1 member with rfl | old
        · cases found.symm.trans named
          exact .inl own
        · exact .inr ⟨j, old, t, named, own⟩

theorem Follows.step (h : g.Follows f) (t : TokenStep) : (g.step t).Follows (f.step t) := by
  cases t with
  | new => exact h.new
  | child parent => exact h.child parent
  | clone original => exact h.clone original
  | freeze token => exact h.freeze token

theorem follows_run (steps : List TokenStep) : (run steps).Follows (Family.run steps) := by
  have follows : ∀ (g : Grove) (f : Family), g.Follows f →
      (steps.foldl Grove.step g).Follows (steps.foldl Family.step f) := by
    induction steps with
    | nil => exact fun g f h => h
    | cons t steps ih => exact fun g f h => ih _ _ (h.step t)
  refine follows {} {} ⟨rfl, ?_, ?_, ?_, ?_⟩
  · exact fun i t b none => by cases none
  · exact fun t none => by cases none
  · exact fun j none => by cases none
  · intro flag
    constructor
    · exact fun none => by cases none
    · rintro ⟨j, none, -⟩
      cases none

/-! What flags say of the history. -/

theorem Follows.tokens_eq (h : g.Follows f) (clones : f.Clones i j) :
    g.tokens[i]? = g.tokens[j]? := by
  induction clones with
  | rel i o born =>
    obtain ⟨t, found, copied⟩ := h.token born
    rw [found, (of_take copied).2]
  | refl => rfl
  | symm _ _ _ ih => exact ih.symm
  | trans _ _ _ _ _ first second => exact first.trans second

theorem Follows.token_of_descends (h : g.Follows f) (descends : f.Descends i a) :
    ∃ t, g.tokens[i]? = some t := by
  cases descends with
  | parent born | above born | copy born =>
    obtain ⟨t, found, -⟩ := h.token born
    exact ⟨t, found⟩

theorem Follows.descends_lt (h : g.Follows f) (descends : f.Descends i a)
    (found : g.tokens[i]? = some t) :
    ∃ u, g.tokens[a]? = some u ∧ u.flags.length < t.flags.length := by
  induction descends generalizing t with
  | parent born =>
    obtain ⟨t', found', own, u, there, flags, -⟩ := h.token born
    cases found.symm.trans found'
    exact ⟨u, (of_take there).2, by rw [flags]; exact Nat.lt_succ_self _⟩
  | above born _ ih =>
    obtain ⟨t', found', own, u, there, flags, -⟩ := h.token born
    cases found.symm.trans found'
    obtain ⟨v, above, less⟩ := ih (of_take there).2
    exact ⟨v, above, by rw [flags]; exact Nat.lt_succ_of_lt less⟩
  | copy born _ ih =>
    obtain ⟨t', found', copied⟩ := h.token born
    cases found.symm.trans found'
    exact ih (of_take copied).2

theorem bears_iff (found : g.tokens[i]? = some t) : g.Bears i flag ↔ t.flags.head? = some flag := by
  simp only [Bears, found, Option.some_inj, exists_eq_left']

/-- The flags of a token are the own flags of the token and of those it descends from. -/
theorem Follows.mem_flags_iff (h : g.Follows f) (found : g.tokens[i]? = some t) (flag : Nat) :
    flag ∈ t.flags ↔ g.Bears i flag ∨ ∃ a, f.Descends i a ∧ g.Bears a flag := by
  induction i using Nat.strongRecOn generalizing t with
  | ind i ih =>
    obtain ⟨b, born, shown⟩ := h.birth found
    rw [bears_iff found]
    cases b with
    | root =>
      obtain ⟨own, flags, -⟩ := shown
      simp only [flags, List.mem_singleton, List.head?_cons, Option.some_inj,
        Family.not_descends_of_root born, false_and, exists_false, or_false, eq_comm]
    | under p =>
      obtain ⟨own, u, there, flags, -⟩ := shown
      obtain ⟨early, there⟩ := of_take there
      simp only [flags, List.mem_cons, List.head?_cons, Option.some_inj, ih p early there,
        Family.descends_iff_of_under born, or_and_right, exists_or, exists_eq_left]
      rw [@eq_comm _ own]
    | copy o =>
      obtain ⟨early, there⟩ := of_take shown
      simp only [ih o early there, bears_iff there, Family.descends_iff_of_copy born]

theorem Follows.head?_mem (h : g.Follows f) (found : g.tokens[i]? = some t) :
    ∃ own ∈ t.flags, t.flags.head? = some own := by
  induction i using Nat.strongRecOn with
  | ind i ih =>
    obtain ⟨b, -, shown⟩ := h.birth found
    cases b with
    | root =>
      obtain ⟨own, flags, -⟩ := shown
      rw [flags]
      exact ⟨own, List.mem_cons_self, rfl⟩
    | under p =>
      obtain ⟨own, u, -, flags, -⟩ := shown
      rw [flags]
      exact ⟨own, List.mem_cons_self, rfl⟩
    | copy o =>
      obtain ⟨early, there⟩ := of_take shown
      exact ih o early there

theorem Follows.own_fresh (h : g.Follows f) {b : Birth} (born : f.births[i]? = some b)
    (original : ∀ o, b ≠ .copy o) (found : g.tokens[i]? = some t) (early : j < i)
    (found' : g.tokens[j]? = some u) : t.flags.head? ≠ u.flags.head? := by
  intro same
  obtain ⟨own, inside, head⟩ := h.head?_mem found'
  have before : u ∈ g.tokens.take i := by
    rw [← List.getElem?_take_of_lt early] at found'
    exact List.mem_of_getElem? found'
  have shown := h.born i t b found born
  cases b with
  | root =>
    obtain ⟨own', flags, fresh⟩ := shown
    rw [flags, head] at same
    exact fresh u before (Option.some.inj same ▸ inside)
  | under p =>
    obtain ⟨own', v, -, flags, fresh⟩ := shown
    rw [flags, head] at same
    exact fresh u before (Option.some.inj same ▸ inside)
  | copy o => exact original o rfl

theorem Follows.clones (h : g.Follows f) (found : g.tokens[i]? = some t)
    (found' : g.tokens[j]? = some u) (own : t.flags.head? = u.flags.head?) : f.Clones i j := by
  -- A copy goes back to its original until both tokens are originals.
  induction sum : i + j using Nat.strongRecOn generalizing i j t u with
  | ind n ih =>
    obtain ⟨b, born, shown⟩ := h.birth found
    obtain ⟨c, born', shown'⟩ := h.birth found'
    cases b with
    | copy o =>
      obtain ⟨early, there⟩ := of_take shown
      exact .trans _ _ _ (.rel _ _ born) (ih (o + j) (by omega) there found' own rfl)
    | root | under =>
      cases c with
      | copy o =>
        obtain ⟨early, there⟩ := of_take shown'
        exact .trans _ _ _ (ih (i + o) (by omega) found there own rfl) (.symm _ _ (.rel _ _ born'))
      | root | under =>
        rcases Nat.lt_trichotomy i j with early | rfl | early
        · exact absurd own.symm (h.own_fresh born' (fun _ => nofun) found' early found)
        · exact .refl i
        · exact absurd own (h.own_fresh born (fun _ => nofun) found early found')

theorem Follows.under_of_mem (h : g.Follows f) (found : g.tokens[i]? = some t)
    (inside : flag ∈ t.flags) (bears : g.Bears j flag) : f.Under i j := by
  obtain ⟨u, there, own⟩ := bears
  rcases (h.mem_flags_iff found flag).1 inside with ⟨v, named, own'⟩ | ⟨a, above, v, named, own'⟩
  · exact ⟨i, .inl rfl, h.clones named there (own'.trans own.symm)⟩
  · exact ⟨a, .inr above, h.clones named there (own'.trans own.symm)⟩

theorem Follows.mem_of_under (h : g.Follows f) (found : g.tokens[i]? = some t)
    (under : f.Under i j) (bears : g.Bears j flag) : flag ∈ t.flags := by
  obtain ⟨a, above, clones⟩ := under
  obtain ⟨u, there, own⟩ := bears
  have bears : g.Bears a flag := ⟨u, (h.tokens_eq clones).trans there, own⟩
  rcases above with rfl | above
  · exact (h.mem_flags_iff found flag).2 (.inl bears)
  · exact (h.mem_flags_iff found flag).2 (.inr ⟨a, above, bears⟩)

/-- What is frozen is seen from below, and from nowhere else. -/
theorem Follows.isImmutable_iff (h : g.Follows f) (found : g.tokens[i]? = some t) :
    g.flags.isImmutable t = true ↔ ∃ j ∈ f.frozen, f.Under i j := by
  rw [Flags.isImmutable_eq_true_iff]
  constructor
  · rintro ⟨flag, inside, raised⟩
    obtain ⟨j, frozen, bears⟩ := (h.raised flag).1 raised
    exact ⟨j, frozen, h.under_of_mem found inside bears⟩
  · rintro ⟨j, frozen, under⟩
    obtain ⟨own, -, head⟩ := h.head?_mem (List.getElem?_eq_getElem (h.there j frozen))
    have bears : g.Bears j own := ⟨_, List.getElem?_eq_getElem (h.there j frozen), head⟩
    exact ⟨own, h.mem_of_under found under bears, (h.raised own).2 ⟨j, frozen, bears⟩⟩

theorem Follows.isImmutable_apart (h : g.Follows f) (found : g.tokens[i]? = some t)
    (apart : ¬f.Under i j) :
    (g.step (.freeze j)).flags.isImmutable t = g.flags.isImmutable t := by
  simp only [Grove.step]
  cases there : g.tokens[j]? with
  | none => rfl
  | some u =>
    rw [Bool.eq_iff_iff, Flags.isImmutable_eq_true_iff, Flags.isImmutable_eq_true_iff]
    refine exists_congr fun flag => and_congr_right fun inside => ?_
    rw [Flags.isRaised_freeze, or_iff_right]
    exact fun own => apart (h.under_of_mem found inside ⟨u, there, own⟩)

theorem Follows.not_under_of_descends (h : g.Follows f) (descends : f.Descends j a)
    (clones : f.Clones a i) : ¬f.Under i j := by
  rintro ⟨c, above, clones'⟩
  obtain ⟨t, found⟩ := h.token_of_descends descends
  obtain ⟨u, there, less⟩ := h.descends_lt descends found
  have same := (h.tokens_eq clones').trans found
  have there' := (h.tokens_eq clones).symm.trans there
  rcases above with rfl | above
  · cases there'.symm.trans same
    exact Nat.lt_irrefl _ less
  · obtain ⟨v, stands, more⟩ := h.descends_lt above there'
    cases stands.symm.trans same
    omega

theorem Follows.not_under_of_siblings (h : g.Follows f) (siblings : f.Siblings i j) :
    ¬f.Under i j := by
  obtain ⟨apart, p, q, born, born', clones⟩ := siblings
  obtain ⟨t, found, own, v, there, flags, -⟩ := h.token born
  obtain ⟨u, found', own', v', there', flags', -⟩ := h.token born'
  have level : t.flags.length = u.flags.length := by
    have same := h.tokens_eq clones
    rw [(of_take there).2, (of_take there').2] at same
    cases same
    rw [flags, flags']
    rfl
  rintro ⟨a, above, clones'⟩
  have same := (h.tokens_eq clones').trans found'
  rcases above with rfl | above
  · cases found.symm.trans same
    rcases Nat.lt_or_gt_of_ne apart with early | early
    · exact h.own_fresh born' (fun _ => nofun) found' early found rfl
    · exact h.own_fresh born (fun _ => nofun) found early found' rfl
  · obtain ⟨w, stands, less⟩ := h.descends_lt above found
    cases stands.symm.trans same
    omega

end Grove

end ArrayStore
