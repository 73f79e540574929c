import Isthmus.Proofs.Lifetime.Release
import Isthmus.Proofs.Run.Growth
import Mathlib.Algebra.BigOperators.Group.List.Basic
import Mathlib.Algebra.Order.Ring.Nat
import Mathlib.Logic.Relation

/-!
# Proofs/Library/Ticker — calls of a ticker that get between each other

Each call of a ticker takes steps: it reaches a value or announces something.  Steps of different calls may
follow each other in any order.  The steps that reach a value are the only ones that touch the ticker, so
values are reached in order and each once, and a value that was reached is announced or waits for its call
to announce it (`Sound.matched`).

* `Reachable.counts` — what has been announced when all calls are done.
* `Calls.runs` — the engine does what the steps of a call do, one after the other.
-/

namespace Isthmus.Ticker

/-! ## Steps -/

namespace Count

variable {value value' : Int32} {c c' : Count} {a : Option Announcement}

/-- A count that goes on does one step and then the rest. -/
theorem run_of_some (h : c.advance value = (value', some c', a)) :
    c.run value = .ofStep value' a :: c'.run value' := by
  rw [run]
  split
  · next h' =>
    cases h.symm.trans h'
    rfl
  · next h' => cases h.symm.trans h'

/-- A count that ends does one step. -/
theorem run_of_none (h : c.advance value = (value', none, a)) : c.run value = [.ofStep value' a] := by
  rw [run]
  split
  · next h' => cases h.symm.trans h'
  · next h' =>
    cases h.symm.trans h'
    rfl

end Count

namespace Deed

def value? : Deed → Option Int32
  | reached v => some v
  | announced _ => none

def announcement? : Deed → Option Announcement
  | reached _ => none
  | announced a => some a

/-- The value of the ticker after what was done. -/
def leaves (value : Int32) : Deed → Int32
  | reached v => v
  | announced _ => value

end Deed

/-- What is left of a call. -/
inductive Activity where
  /-- A step on the caller's own thread, with the value that it reached. -/
  | bump (reached : Option Int32)
  | count (c : Count)

namespace Activity

/-- One step of a call, on the ticker's value. -/
def advance (value : Int32) : Activity → Int32 × Option Activity × Option Announcement
  | bump none => (value + 1, some (bump (some (value + 1))), none)
  | bump (some v) => (value, none, some (announce v))
  | count c => ((c.advance value).1, (c.advance value).2.1.map count, (c.advance value).2.2)

/-- The value that waits to be announced. -/
def reached : Activity → Option Int32
  | bump v => v
  | count c => c.reached

/-- How many values are still to be reached. -/
def left : Activity → Nat
  | bump none => 1
  | bump (some _) => 0
  | count c => c.remaining

/-- What a step of a call comes to: the ticker's value, what is left of the call, what it announces. -/
inductive Takes (value : Int32) (a : Activity) : Int32 → Option Activity → Option Announcement → Prop where
  /-- The next value is reached. -/
  | reach {a'} (hr : a.reached = none) (hv : a'.reached = some (value + 1)) (hl : a'.left + 1 = a.left) :
      Takes value a (value + 1) (some a') none
  /-- The value that was reached before is announced. -/
  | announce {v rest} (hr : a.reached = some v) (hv : rest.bind reached = none)
      (hl : rest.elim 0 left = a.left) : Takes value a value rest (some (announce v))
  /-- The end of a count is announced. -/
  | finish (hr : a.reached = none) (hl : a.left = 0) : Takes value a value none (some ⟨finished, []⟩)

/-- **One step of a call** is one of those that calls can take. -/
theorem takes_advance (value : Int32) (a : Activity) :
    Takes value a (a.advance value).1 (a.advance value).2.1 (a.advance value).2.2 := by
  rcases a with (_ | v) | ⟨_ | n, _ | v⟩
  · exact .reach rfl rfl rfl
  · exact .announce rfl rfl rfl
  · exact .finish rfl rfl
  · exact .announce rfl rfl rfl
  · exact .reach rfl rfl rfl
  · exact .announce rfl rfl rfl

/-- What a step does leaves the value that the step leaves. -/
theorem leaves_advance {value value' : Int32} {rest : Option Activity} {deed : Option Announcement}
    (a : Activity) (h : a.advance value = (value', rest, deed)) :
    (Deed.ofStep value' deed).leaves value = value' := by
  have ht := a.takes_advance value
  rw [h] at ht
  cases ht <;> rfl

/-- What a step announces refers to nothing. -/
theorem refs_advance {value value' : Int32} {rest : Option Activity} {deed : Option Announcement}
    (a : Activity) (h : a.advance value = (value', rest, deed)) :
    ∀ b ∈ (Deed.ofStep value' deed).announcement?, NativeValue.refsIn b.args = [] := by
  have ht := a.takes_advance value
  rw [h] at ht
  intro b hb
  cases ht <;> cases hb <;> rfl

end Activity

namespace Request

/-- What a call has to do. -/
def activity : Request → Activity
  | bump => .bump none
  | start c => .count c

/-- How many values a call reaches. -/
def steps : Request → Nat
  | bump => 1
  | start c => c.remaining

/-- A new call has all of its steps before it. -/
theorem left_activity (r : Request) : r.activity.left = r.steps := by
  cases r <;> rfl

end Request

/-- A call that is accepted is a single step or a count from the beginning. -/
theorem request_cases {nameOf : TypeId → String} {index : Nat} {args : List NativeValue} {r : Request}
    (h : request nameOf index args = .ok r) : r = .bump ∨ ∃ n, r = .start ⟨n, none⟩ := by
  unfold request at h
  split at h
  · exact .inl (Except.ok.inj h).symm
  · cases hsteps : argumentAs (·.toInt nameOf) args 0 with
    | error e =>
      rw [hsteps] at h
      cases h
    | ok steps =>
      rw [hsteps] at h
      simp only [bind, Except.bind] at h
      split at h
      · cases h
      · exact .inr ⟨_, (Except.ok.inj h).symm⟩
  · cases h

/-- A ticker, the calls of it so far with what is left of each, and what they did, oldest first.  A call is
known by its place. -/
structure Calls where
  value : Int32 := 0
  calls : List (Request × Option Activity) := []
  deeds : List (Nat × Deed) := []

namespace Calls

/-- A new call. -/
def add (s : Calls) (r : Request) : Calls :=
  { s with calls := s.calls ++ [(r, some r.activity)] }

/-- What a step of a call makes of it and of the ticker. -/
def take (s : Calls) (k : Nat) (r : Request) (value : Int32) (rest : Option Activity)
    (deed : Option Announcement) : Calls :=
  ⟨value, s.calls.set k (r, rest), s.deeds ++ [(k, .ofStep value deed)]⟩

/-- The call at a place takes a step, if anything is left of it. -/
def advance (s : Calls) (k : Nat) : Calls :=
  match s.calls[k]? with
  | some (r, some a) =>
    s.take k r (a.advance s.value).1 (a.advance s.value).2.1 (a.advance s.value).2.2
  | _ => s

/-- A call is made, or one takes a step. -/
inductive Step : Calls → Calls → Prop where
  | call {s nameOf index args r} (h : request nameOf index args = .ok r) : Step s (s.add r)
  | advance {s} (k : Nat) : Step s (s.advance k)

/-- Any number of steps. -/
abbrev Moves : Calls → Calls → Prop := Relation.ReflTransGen Step

/-- What some calls and steps of a new ticker lead to. -/
def Reachable (s : Calls) : Prop :=
  Moves {} s

variable (s : Calls)

/-- How many values the calls reach. -/
def total : Nat :=
  (s.calls.map (·.1.steps)).sum

/-- How many values are still to be reached. -/
def left : Nat :=
  (s.calls.map (·.2.elim 0 Activity.left)).sum

/-- The values that wait to be announced. -/
def pending : List Int32 :=
  s.calls.filterMap (·.2.bind Activity.reached)

/-- The values that were reached, in order. -/
def values : List Int32 :=
  s.deeds.filterMap (·.2.value?)

/-- What was announced, in order. -/
def announced : List Announcement :=
  s.deeds.filterMap (·.2.announcement?)

/-- What a call did, in order. -/
def doneBy (k : Nat) : List Deed :=
  (s.deeds.filter (·.1 = k)).map (·.2)

/-- What a call announced, in order. -/
def announcedBy (k : Nat) : List Announcement :=
  (s.doneBy k).filterMap Deed.announcement?

/-- No two steps overlap: a value that was reached is announced before the next is reached. -/
def Serial : Prop :=
  ∀ before k v between k' v' after,
    s.deeds = before ++ (k, .reached v) :: (between ++ (k', .reached v') :: after) →
      (k, .announced (announce v)) ∈ between

end Calls

/-- The arguments of the announcements on one event, in order. -/
def argumentsOn (event : Nat) (as : List Announcement) : List (List NativeValue) :=
  (as.filter (·.event = event)).map (·.args)

/-- What was announced before comes first. -/
theorem argumentsOn_append (event : Nat) (as bs : List Announcement) :
    argumentsOn event (as ++ bs) = argumentsOn event as ++ argumentsOn event bs := by
  simp [argumentsOn]

/-- An announcement carries the value that was reached. -/
theorem argumentsOn_announce (v : Int32) : argumentsOn changed [announce v] = [[.int v]] := rfl

namespace Calls

variable {s s' : Calls}

/-! ## What one call does -/

/-- Values that were reached and announced, one after the other. -/
def rounds (vs : List Int32) : List Deed :=
  vs.flatMap fun v => [.reached v, .announced (announce v)]

/-- What a call has done when something is left of it. -/
inductive Course : Request → Option Activity → List Deed → Prop where
  | ready : Course .bump (some (.bump none)) []
  | bumping (v : Int32) : Course .bump (some (.bump (some v))) [.reached v]
  | bumped (v : Int32) : Course .bump none (rounds [v])
  | counting {n m : Nat} (vs : List Int32) (h : vs.length + m = n) :
      Course (.start ⟨n, none⟩) (some (.count ⟨m, none⟩)) (rounds vs)
  | reaching {n m : Nat} (vs : List Int32) (v : Int32) (h : vs.length + (m + 1) = n) :
      Course (.start ⟨n, none⟩) (some (.count ⟨m, some v⟩)) (rounds vs ++ [.reached v])
  | counted {n : Nat} (vs : List Int32) (h : vs.length = n) :
      Course (.start ⟨n, none⟩) none (rounds vs ++ [.announced ⟨finished, []⟩])

namespace Course

variable {r : Request} {a : Activity} {own : List Deed}

/-- A call begins with its activity, having done nothing. -/
theorem start {nameOf : TypeId → String} {index : Nat} {args : List NativeValue}
    (h : request nameOf index args = .ok r) : Course r (some r.activity) [] := by
  rcases request_cases h with rfl | ⟨n, rfl⟩
  · exact .ready
  · exact .counting [] (Nat.zero_add n)

/-- A round is added at the end. -/
theorem rounds_concat (vs : List Int32) (v : Int32) :
    rounds vs ++ [.reached v, .announced (announce v)] = rounds (vs ++ [v]) := by
  simp [rounds]

/-- **A step goes on in the course of its call.** -/
theorem step {value value' : Int32} {rest : Option Activity} {deed : Option Announcement}
    (h : Course r (some a) own) (ha : a.advance value = (value', rest, deed)) :
    Course r rest (own ++ [.ofStep value' deed]) := by
  cases h with
  | ready =>
    cases ha
    exact .bumping _
  | bumping v =>
    cases ha
    exact .bumped v
  | @counting n m vs h =>
    cases m with
    | zero =>
      cases ha
      exact .counted vs h
    | succ m =>
      cases ha
      exact .reaching vs _ h
  | @reaching n m vs v h =>
    cases ha
    rw [List.append_assoc]
    have hlength : (vs ++ [v]).length + m = n := by
      rw [List.length_append, List.length_singleton]
      omega
    exact (rounds_concat vs v).symm ▸ .counting _ hlength

/-- The value that waits to be announced is the last thing that the call did. -/
theorem of_reached {v : Int32} (h : Course r (some a) own) (hv : a.reached = some v) :
    ∃ earlier, own = earlier ++ [.reached v] := by
  cases h with
  | ready | counting => cases hv
  | bumping => exact ⟨[], by cases hv; rfl⟩
  | reaching vs => exact ⟨rounds vs, by cases hv; rfl⟩

/-- Of each round its announcement is heard. -/
theorem announcements_rounds (vs : List Int32) :
    (rounds vs).filterMap Deed.announcement? = vs.map announce := by
  induction vs with
  | nil => rfl
  | cons v vs ih => simpa [rounds, List.filterMap_cons, Deed.announcement?] using ih

/-- A single step that is done announced one value. -/
theorem announced_bump (h : Course .bump none own) :
    ∃ v, own.filterMap Deed.announcement? = [announce v] := by
  cases h with
  | bumped v => exact ⟨v, announcements_rounds [v]⟩

/-- A count that is done announced its values, and then its end. -/
theorem announced_start {c : Count} (h : Course (.start c) none own) :
    ∃ vs : List Int32, vs.length = c.remaining ∧
      own.filterMap Deed.announcement? = vs.map announce ++ [⟨finished, []⟩] := by
  cases h with
  | counted vs h => exact ⟨vs, h, by rw [List.filterMap_append, announcements_rounds]; rfl⟩

end Course

/-! ## What every run keeps -/

/-- A call under way, among the others. -/
theorem exists_split {calls : List (Request × Option Activity)} {k : Nat} {c : Request × Option Activity}
    (h : calls[k]? = some c) : ∃ before after, calls = before ++ c :: after ∧
      ∀ c', calls.set k c' = before ++ c' :: after := by
  obtain ⟨hk, rfl⟩ := List.getElem?_eq_some_iff.1 h
  refine ⟨calls.take k, calls.drop (k + 1), by simp, fun c' => ?_⟩
  rw [List.set_eq_take_append_cons_drop, if_pos hk]

/-- What holds between steps. -/
structure Sound (s : Calls) : Prop where
  /-- The ticker shows how many values were reached. -/
  value : s.value = Int32.ofNat s.values.length
  /-- The values were reached one after the other. -/
  ordered : s.values = (List.range' 1 s.values.length).map Int32.ofNat
  /-- A value that was reached is announced or waits to be. -/
  matched : (argumentsOn changed s.announced ++ s.pending.map fun v => [NativeValue.int v]).Perm
    (s.values.map fun v => [NativeValue.int v])
  budget : s.values.length + s.left = s.total
  course : ∀ k r act, s.calls[k]? = some (r, act) → Course r act (s.doneBy k)
  placed : ∀ e ∈ s.deeds, e.1 < s.calls.length

/-- Nothing has been called yet. -/
theorem sound_new : Sound {} where
  value := rfl
  ordered := rfl
  matched := .nil
  budget := rfl
  course _ _ _ h := by cases h
  placed _ h := absurd h List.not_mem_nil

/-! ### A new call -/

section

variable {nameOf : TypeId → String} {index : Nat} {args : List NativeValue} {r : Request}

/-- A new call leaves nothing to be announced yet. -/
theorem pending_add (h : request nameOf index args = .ok r) : (s.add r).pending = s.pending := by
  have hnone : r.activity.reached = none := by
    rcases request_cases h with rfl | ⟨n, rfl⟩ <;> rfl
  simp [pending, add, hnone]

/-- A new call adds its steps. -/
theorem left_add (s : Calls) (r : Request) :
    (s.add r).left = s.left + r.steps ∧ (s.add r).total = s.total + r.steps := by
  simp [left, total, add, r.left_activity]

/-- A new call has done nothing yet. -/
theorem Sound.add (hs : Sound s) (h : request nameOf index args = .ok r) : Sound (s.add r) where
  value := hs.value
  ordered := hs.ordered
  matched := by
    rw [pending_add h]
    exact hs.matched
  budget := by
    have hbudget : s.values.length + s.left = s.total := hs.budget
    rw [(left_add s r).1, (left_add s r).2, ← hbudget, Nat.add_assoc]
    rfl
  course k r' act hk := by
    rw [Calls.add] at hk
    rcases Nat.lt_or_ge k s.calls.length with hlt | hge
    · rw [List.getElem?_append_left hlt] at hk
      exact hs.course k r' act hk
    · have hfresh : s.doneBy k = [] := by
        simp only [doneBy, List.map_eq_nil_iff, List.filter_eq_nil_iff, decide_eq_true_eq]
        intro e he
        exact Nat.ne_of_lt (Nat.lt_of_lt_of_le (hs.placed e he) hge)
      rw [List.getElem?_append_right hge, List.getElem?_singleton] at hk
      split at hk
      · obtain ⟨rfl, rfl⟩ := Prod.mk.inj (Option.some.inj hk)
        exact hfresh ▸ .start h
      · cases hk
  placed e he := by
    rw [Calls.add, List.length_append]
    exact Nat.lt_add_right _ (hs.placed e he)

end

/-! ### A step of a call -/

variable {k : Nat} {r : Request} {a : Activity} {value : Int32} {rest : Option Activity}
  {deed : Option Announcement}

@[simp] theorem values_take : (s.take k r value rest deed).values =
    s.values ++ if deed.isNone then [value] else [] := by
  cases deed <;> simp [values, take, Deed.ofStep, Deed.value?]

@[simp] theorem announced_take : (s.take k r value rest deed).announced = s.announced ++ deed.toList := by
  cases deed <;> simp [announced, take, Deed.ofStep, Deed.announcement?]

/-- A step is done by its own call. -/
theorem doneBy_take (k' : Nat) : (s.take k r value rest deed).doneBy k' =
    s.doneBy k' ++ if k = k' then [.ofStep value deed] else [] := by
  by_cases h : k = k' <;> simp [doneBy, take, h]

/-- A call waits with at most one value, and the others do not matter to it. -/
theorem pending_take {act : Option Activity} (hk : s.calls[k]? = some (r, act)) :
    ∃ before after, s.pending = before ++ (act.bind Activity.reached).toList ++ after ∧
      ∀ value rest deed, (s.take k r value rest deed).pending =
        before ++ (rest.bind Activity.reached).toList ++ after := by
  obtain ⟨before, after, hcalls, hset⟩ := exists_split hk
  refine ⟨before.filterMap (·.2.bind Activity.reached), after.filterMap (·.2.bind Activity.reached), ?_,
    fun value rest deed => ?_⟩
  · simp only [pending, hcalls, List.filterMap_append, List.filterMap_cons, List.append_assoc]
    cases act.bind Activity.reached <;> rfl
  · simp only [pending, take, hset, List.filterMap_append, List.filterMap_cons, List.append_assoc]
    cases rest.bind Activity.reached <;> rfl

/-- A step is taken from those that are left. -/
theorem left_take {act : Option Activity} (hk : s.calls[k]? = some (r, act)) :
    (s.take k r value rest deed).left + act.elim 0 Activity.left =
        s.left + rest.elim 0 Activity.left ∧
      (s.take k r value rest deed).total = s.total := by
  obtain ⟨before, after, hcalls, hset⟩ := exists_split hk
  rw [take, left, left, total, total, hset, hcalls]
  simp only [List.map_append, List.map_cons, List.sum_append, List.sum_cons, and_true]
  omega

namespace Sound

section

variable (hs : Sound s) (hk : s.calls[k]? = some (r, some a))
  (ht : a.Takes s.value value rest deed)

include hs ht

/-- The count of the instance is the number of values that it has shown. -/
theorem value_take : (s.take k r value rest deed).value =
    Int32.ofNat (s.take k r value rest deed).values.length := by
  have hvalue := hs.value
  rw [values_take]
  cases ht with
  | reach => simpa [Calls.take, Int32.ofNat_add] using hvalue
  | announce | finish => simpa [Calls.take] using hvalue

/-- It shows the numbers from one on, in order. -/
theorem ordered_take : (s.take k r value rest deed).values =
    (List.range' 1 (s.take k r value rest deed).values.length).map Int32.ofNat := by
  have hordered := hs.ordered
  rw [values_take]
  cases ht with
  | reach =>
    have hnext : s.value + 1 = Int32.ofNat (1 + s.values.length) := by
      rw [hs.value, Nat.add_comm, Int32.ofNat_add]
      rfl
    simp only [Option.isNone_none, if_true, List.length_append, List.length_singleton,
      List.range'_1_concat, List.map_append, List.map_singleton, ← hordered, hnext]
  | announce | finish => simpa using hordered

include hk

/-- A value that is reached waits for its announcement, and no other step touches what waits. -/
theorem matched_take :
    (argumentsOn changed (s.take k r value rest deed).announced ++
        (s.take k r value rest deed).pending.map fun v => [NativeValue.int v]).Perm
      ((s.take k r value rest deed).values.map fun v => [NativeValue.int v]) := by
  obtain ⟨before, after, hpending, hpending'⟩ := pending_take hk
  have hmatched := hs.matched
  rw [hpending] at hmatched
  rw [hpending', values_take, announced_take]
  cases ht with
  | reach hr hv =>
    simp only [Option.bind_some, hr, hv, Option.toList_none, Option.toList_some, List.append_nil,
      List.map_append, ← List.append_assoc] at hmatched ⊢
    refine List.Perm.trans ?_ (hmatched.append_right _)
    simp only [Option.isNone_none, if_true, List.append_assoc]
    exact .append_left _ (.append_left _ List.perm_append_comm)
  | announce hr hv =>
    simp only [Option.bind_some, hr, hv, Option.toList_none, Option.toList_some, List.append_nil,
      List.map_append, Option.isNone_some, Bool.false_eq_true, if_false, argumentsOn_append,
      argumentsOn_announce] at hmatched ⊢
    refine List.Perm.trans ?_ hmatched
    simp only [List.append_assoc]
    exact .append_left _ (List.perm_append_comm_assoc ..)
  | finish hr =>
    simpa [hr, argumentsOn, changed, finished] using hmatched

/-- Steps are done or left. -/
theorem budget_take : (s.take k r value rest deed).values.length + (s.take k r value rest deed).left =
    (s.take k r value rest deed).total := by
  obtain ⟨hleft, htotal⟩ : (s.take k r value rest deed).left + (some a).elim 0 Activity.left =
      s.left + rest.elim 0 Activity.left ∧ (s.take k r value rest deed).total = s.total := left_take hk
  have hbudget := hs.budget
  rw [htotal, values_take, ← hbudget, List.length_append]
  cases ht with
  | reach _ _ hl | announce _ _ hl | finish _ hl =>
    simp only [Option.elim_some, Option.elim_none, Option.isNone_none, Option.isNone_some, if_true,
      Bool.false_eq_true, if_false, List.length_singleton, List.length_nil] at hleft hl ⊢
    omega

end

/-- A call does its own steps in order, whatever others do between. -/
theorem course_take (hs : Sound s) (hk : s.calls[k]? = some (r, some a))
    (ha : a.advance s.value = (value, rest, deed)) {k' : Nat} {r' : Request} {act : Option Activity}
    (hk' : (s.take k r value rest deed).calls[k']? = some (r', act)) :
    Course r' act ((s.take k r value rest deed).doneBy k') := by
  rw [doneBy_take]
  rw [Calls.take, List.getElem?_set] at hk'
  split at hk'
  · next heq =>
    subst heq
    rw [if_pos rfl]
    split at hk'
    · obtain ⟨rfl, rfl⟩ := Prod.mk.inj (Option.some.inj hk')
      exact (hs.course k _ _ hk).step ha
    · cases hk'
  · next hne =>
    rw [if_neg hne, List.append_nil]
    exact hs.course k' r' act hk'

/-- **One step of any call keeps it all**. -/
theorem advance (hs : Sound s) (k : Nat) : Sound (s.advance k) := by
  rw [Calls.advance]
  split
  · next r a hk =>
    have ht := a.takes_advance s.value
    exact {
      value := hs.value_take ht
      ordered := hs.ordered_take ht
      matched := hs.matched_take hk ht
      budget := hs.budget_take hk ht
      course := fun k' r' act hk' => hs.course_take hk rfl hk'
      placed := fun e he => by
        rw [take, List.length_set]
        rcases List.mem_append.1 he with he | he
        · exact hs.placed e he
        · obtain rfl := List.mem_singleton.1 he
          exact (List.getElem?_eq_some_iff.1 hk).1 }
  · exact hs

end Sound

/-- **Every run keeps it**. -/
theorem Reachable.sound (h : Reachable s) : Sound s := by
  induction h with
  | refl => exact sound_new
  | tail _ hstep ih =>
    cases hstep with
    | call h => exact ih.add h
    | advance k => exact ih.advance k

/-! ## Steps that do not overlap -/

/-- Of what a call did, the last thing stands in the list of all deeds with none of its own after it. -/
theorem exists_last {k : Nat} {earlier : List Deed} {d : Deed} (h : s.doneBy k = earlier ++ [d]) :
    ∃ before between, s.deeds = before ++ (k, d) :: between ∧ ∀ e ∈ between, e.1 ≠ k := by
  obtain ⟨l₁, l₂, hfilter, -, hl₂⟩ := List.map_eq_append_iff.1 h
  obtain ⟨x, rfl, rfl⟩ := List.map_eq_singleton_iff.1 hl₂
  obtain ⟨m₁, m₂, hdeeds, -, hm₂⟩ := List.filter_eq_append_iff.1 hfilter
  obtain ⟨n₁, n₂, rfl, -, hx, hn₂⟩ := List.filter_eq_cons_iff.1 hm₂
  refine ⟨m₁ ++ n₁, n₂, ?_, fun e he heq => ?_⟩
  · rw [hdeeds, List.append_assoc, ← of_decide_eq_true hx]
  · exact List.filter_eq_nil_iff.1 hn₂ e he (decide_eq_true heq)

/-- Calls that do not overlap did not before. -/
theorem Serial.of_take {k : Nat} {r : Request} {value : Int32} {rest : Option Activity}
    {deed : Option Announcement} (h : (s.take k r value rest deed).Serial) : s.Serial := by
  intro before k₁ v between k₂ v' after hdeeds
  refine h before k₁ v between k₂ v' (after ++ [(k, .ofStep value deed)]) ?_
  rw [take, hdeeds]
  simp

/-- Where no steps overlap, a value that is reached finds none that waits. -/
theorem Sound.pending_eq_nil (hs : Sound s) {k : Nat} {r : Request} {value : Int32}
    {rest : Option Activity} (h : (s.take k r value rest none).Serial) : s.pending = [] := by
  refine List.eq_nil_iff_forall_not_mem.2 fun v hv => ?_
  obtain ⟨c, hc, hreached⟩ := List.mem_filterMap.1 hv
  obtain ⟨a, ha, hav⟩ := Option.bind_eq_some_iff.1 hreached
  obtain ⟨k', hk'⟩ := List.mem_iff_getElem?.1 hc
  obtain ⟨r', act⟩ := c
  subst ha
  obtain ⟨earlier, hdone⟩ := (hs.course k' r' _ hk').of_reached hav
  obtain ⟨before, between, hdeeds, hbetween⟩ := exists_last hdone
  have hmem := h before k' v between k value [] (by rw [take, hdeeds]; simp; rfl)
  exact hbetween _ hmem rfl

/-- At most one value waits, and the announcements come in the order of the values. -/
def InOrder (s : Calls) : Prop :=
  s.pending.length ≤ 1 ∧ (argumentsOn changed s.announced ++ s.pending.map fun v => [NativeValue.int v]) =
    s.values.map fun v => [NativeValue.int v]

/-- As long as calls do not overlap, announcements come in the order of values. -/
theorem InOrder.take {k : Nat} {r : Request} {a : Activity} {value : Int32} {rest : Option Activity}
    {deed : Option Announcement} (h : s.InOrder) (hs : Sound s) (hk : s.calls[k]? = some (r, some a))
    (ht : a.Takes s.value value rest deed) (hserial : (s.take k r value rest deed).Serial) :
    (s.take k r value rest deed).InOrder := by
  obtain ⟨hone, horder⟩ := h
  obtain ⟨before, after, hpending, hpending'⟩ := pending_take hk
  rw [InOrder, hpending', values_take, announced_take, argumentsOn_append]
  rw [hpending] at hone horder
  cases ht with
  | reach hr hv =>
    have hnil : before ++ after = [] := by
      simpa [hpending, hr] using hs.pending_eq_nil hserial
    obtain ⟨rfl, rfl⟩ := List.append_eq_nil_iff.1 hnil
    simpa [hr, hv, argumentsOn] using horder
  | announce hr hv =>
    have hnil : before = [] ∧ after = [] := by
      simp only [Option.bind_some, hr, Option.toList_some, List.length_append,
        List.length_singleton] at hone
      exact ⟨List.length_eq_zero_iff.1 (by omega), List.length_eq_zero_iff.1 (by omega)⟩
    obtain ⟨rfl, rfl⟩ := hnil
    simpa [hr, hv, argumentsOn_announce] using horder
  | finish hr =>
    simpa [hr, argumentsOn, changed, finished] using And.intro hone horder

/-- **Calls that do not overlap announce in order**. -/
theorem Reachable.inOrder (h : Reachable s) (hserial : s.Serial) : s.InOrder := by
  induction h with
  | refl => exact ⟨Nat.zero_le _, rfl⟩
  | @tail s s' hreach hstep ih =>
    cases hstep with
    | @call _ _ _ r hr =>
      rw [InOrder, pending_add hr]
      exact ih hserial
    | advance k =>
      rw [advance] at hserial ⊢
      split at hserial
      · next r a hk => exact (ih hserial.of_take).take (Reachable.sound hreach) hk (a.takes_advance _) hserial
      · exact ih hserial

/-! ## All calls done -/

/-- Nothing is left of any call. -/
def Done (s : Calls) : Prop :=
  ∀ c ∈ s.calls, c.2 = none

theorem Done.pending (h : s.Done) : s.pending = [] :=
  List.filterMap_eq_nil_iff.2 fun c hc => by rw [h c hc]; rfl

/-- When all calls are done, no step is left. -/
theorem Done.left (h : s.Done) : s.left = 0 := by
  have hzero : s.calls.map (·.2.elim 0 Activity.left) = s.calls.map fun _ => 0 :=
    List.map_congr_left fun c hc => by rw [h c hc]; rfl
  rw [Calls.left, hzero]
  refine List.sum_eq_zero fun n hn => ?_
  obtain ⟨c, -, rfl⟩ := List.mem_map.1 hn
  rfl

/-- When all calls are done, the values reached are those from one to the total. -/
theorem Sound.values_of_done (hs : Sound s) (h : s.Done) :
    s.values = (List.range' 1 s.total).map Int32.ofNat := by
  have htotal : s.values.length = s.total := by
    rw [← hs.budget, h.left, Nat.add_zero]
  exact htotal ▸ hs.ordered

/-! ## One call at a time -/

/-- A call under way takes its next step. -/
theorem Moves.take {k : Nat} {r : Request} {a : Activity} {value : Int32} {rest : Option Activity}
    {deed : Option Announcement} (hk : s.calls[k]? = some (r, some a))
    (ha : a.advance s.value = (value, rest, deed)) : Moves s (s.take k r value rest deed) := by
  have hstep : Step s (s.advance k) := .advance k
  simp only [advance, hk, ha] at hstep
  exact .single hstep

/-- Some calls take steps, one after the other. -/
theorem Reachable.advance (h : Reachable s) (schedule : List Nat) :
    Reachable (schedule.foldl Calls.advance s) := by
  induction schedule generalizing s with
  | nil => exact h
  | cons k schedule ih => exact ih (h.tail (.advance k))

/-- What some steps of a call lead to: what they did, in order, and what is left of the call. -/
structure Advances (s : Calls) (k : Nat) (r : Request) (deeds : List Deed) (s' : Calls) : Prop where
  moves : Moves s s'
  does : s'.deeds = s.deeds ++ deeds.map (k, ·)
  calls : s'.calls = s.calls.set k (r, none)
  value : s'.value = deeds.foldl Deed.leaves s.value
  /-- What is announced refers to nothing. -/
  quiet : ∀ deed ∈ deeds, ∀ a ∈ deed.announcement?, NativeValue.refsIn a.args = []

/-- The last step of a call. -/
theorem Advances.last {k : Nat} {r : Request} {a : Activity} {value : Int32} {deed : Option Announcement}
    (hk : s.calls[k]? = some (r, some a)) (ha : a.advance s.value = (value, none, deed)) :
    Advances s k r [.ofStep value deed] (s.take k r value none deed) where
  moves := .take hk ha
  does := rfl
  calls := rfl
  value := (a.leaves_advance ha).symm
  quiet d hd := by
    obtain rfl := List.mem_singleton.1 hd
    exact a.refs_advance ha

/-- A step of a call, and those after it. -/
theorem Advances.cons {k : Nat} {r : Request} {a a' : Activity} {value : Int32}
    {deed : Option Announcement} {deeds : List Deed} (hk : s.calls[k]? = some (r, some a))
    (ha : a.advance s.value = (value, some a', deed))
    (h : Advances (s.take k r value (some a') deed) k r deeds s') :
    Advances s k r (.ofStep value deed :: deeds) s' where
  moves := (Moves.take hk ha).trans h.moves
  does := by
    rw [h.does, Calls.take, List.append_assoc]
    rfl
  calls := by rw [h.calls, Calls.take, List.set_set]
  value := by
    rw [h.value, List.foldl_cons, a.leaves_advance ha]
    rfl
  quiet d hd := by
    obtain rfl | hd := List.mem_cons.1 hd
    · exact a.refs_advance ha
    · exact h.quiet d hd

/-- A call is where its step leaves it. -/
theorem getElem?_take {k : Nat} {r : Request} {c : Request × Option Activity} {value : Int32}
    {rest : Option Activity} {deed : Option Announcement} (hk : s.calls[k]? = some c) :
    (s.take k r value rest deed).calls[k]? = some (r, rest) :=
  List.getElem?_set_self (List.getElem?_eq_some_iff.1 hk).1

/-- A single step, from its beginning to its end. -/
theorem Advances.bump {k : Nat} (hk : s.calls[k]? = some (.bump, some (.bump none))) :
    ∃ s', Advances s k .bump (rounds [s.value + 1]) s' := by
  have hreach : (Activity.bump none).advance s.value =
      (s.value + 1, some (.bump (some (s.value + 1))), none) := rfl
  have hannounce : (Activity.bump (some (s.value + 1))).advance (s.value + 1) =
      (s.value + 1, none, some (announce (s.value + 1))) := rfl
  exact ⟨_, .cons hk hreach (.last (getElem?_take hk) hannounce)⟩

/-- **A count that runs without interruption takes the steps of its call one after the other.** -/
theorem Advances.run {k : Nat} {r : Request} (value : Int32) (c : Count) (hv : s.value = value)
    (hk : s.calls[k]? = some (r, some (.count c))) : ∃ s', Advances s k r (c.run value) s' := by
  induction value, c using Count.run.induct generalizing s with
  | case1 value c value' c' a h _ ih =>
    have ha : (Activity.count c).advance s.value = (value', some (.count c'), a) := by
      rw [hv, Activity.advance, h]
      rfl
    obtain ⟨s', hs'⟩ := ih rfl (getElem?_take hk)
    rw [Count.run_of_some h]
    exact ⟨s', .cons hk ha hs'⟩
  | case2 value c value' a h =>
    have ha : (Activity.count c).advance s.value = (value', none, a) := by
      rw [hv, Activity.advance, h]
      rfl
    rw [Count.run_of_none h]
    exact ⟨_, .last hk ha⟩

end Calls

/-! ## The engine -/

open Engine

section

variable {w : World} {id : InstanceId} {value : Int32} {source : SourceId} {index : Nat}
  {args : List NativeValue}

/-- The world in which a ticker shows another value. -/
def showing (w : World) (id : InstanceId) (source : SourceId) (v : Int32) : World :=
  { w with instances := w.instances.modify id.index fun _ => .ticker v source }

/-- A ticker that is shown a value has it. -/
theorem instance?_showing (hi : w.instance? id = some (.ticker value source)) (v : Int32) :
    (showing w id source v).instance? id = some (.ticker v source) := by
  rw [World.instance?] at hi ⊢
  rw [showing, Store.get?_modify, hi, if_pos rfl]
  rfl

/-- An event whose arguments refer to nothing gives nothing up, and leaves the instances as they are. -/
theorem fire_of_refs (target : ChannelsId) (event : Nat) (ha : NativeValue.refsIn args = []) :
    (w.fire target event args).1.instances = w.instances ∧ (w.fire target event args).2 = [] := by
  rw [World.fire]
  split
  · rw [World.launch]
    split
    · rw [World.post]
      split
      · exact ⟨rfl, rfl⟩
      · exact ⟨rfl, congrArg _ ha⟩
    · exact ⟨rfl, congrArg _ ha⟩
  · exact ⟨rfl, rfl⟩

/-- A value that is reached is what the ticker shows then, and nothing else changes. -/
theorem run_reached (hi : w.instance? id = some (.ticker value source)) (v : Int32) :
    (enact id (.reached v)).run w = .ok () (showing w id source v) := by
  rw [enact, run_get_bind, hi]
  refine congrArg (EStateM.Result.ok ()) (World.letGo_of_owned (w := showing w id source v) fun r hr => ?_)
  exact World.mem_references_of_instance (instance?_showing hi v) hr

/-- An announcement that refers to nothing leaves the instances as they are. -/
theorem run_announced (hi : w.instance? id = some (.ticker value source)) {a : Announcement}
    (ha : NativeValue.refsIn a.args = []) :
    ∃ w', (enact id (.announced a)).run w = .ok () w' ∧ w'.instances = w.instances := by
  rw [enact, run_get_bind, hi]
  dsimp only
  rw [emit, run_get_bind]
  cases w.source? source with
  | none => exact ⟨w, rfl, rfl⟩
  | some s =>
    dsimp only
    clear hi
    induction s.targets generalizing w with
    | nil => exact ⟨w, rfl, rfl⟩
    | cons target rest ih =>
      have hfire := fire_of_refs (w := w) target a.event ha
      obtain ⟨w', hrest, hsame⟩ := ih (w := (w.fire target a.event a.args).1)
      have hrun : (operate (·.fire target a.event a.args)).run w =
          .ok () (w.fire target a.event a.args).1 :=
        congrArg (EStateM.Result.ok ()) (by beta_reduce; rw [hfire.2, World.release])
      exact ⟨w', (run_bind_of_ok hrun).trans hrest, hsame.trans hfire.1⟩

/-- What a step comes to is done, and the ticker shows the value that the step leaves. -/
theorem run_enact (hi : w.instance? id = some (.ticker value source)) {deed : Deed}
    (hd : ∀ a ∈ deed.announcement?, NativeValue.refsIn a.args = []) :
    ∃ w', (enact id deed).run w = .ok () w' ∧
      w'.instance? id = some (.ticker (deed.leaves value) source) := by
  cases deed with
  | reached v => exact ⟨_, run_reached hi v, instance?_showing hi v⟩
  | announced a =>
    obtain ⟨w', hrun, hsame⟩ := run_announced hi (hd a rfl)
    exact ⟨w', hrun, (congrArg (·.get? id.index) hsame).trans hi⟩

/-- The deeds of a job leave the instance with the last value that they set. -/
theorem run_deeds {deeds : List Deed} (hi : w.instance? id = some (.ticker value source))
    (hd : ∀ deed ∈ deeds, ∀ a ∈ deed.announcement?, NativeValue.refsIn a.args = []) :
    ∃ w', (deeds.forM (enact id)).run w = .ok () w' ∧
      w'.instance? id = some (.ticker (deeds.foldl Deed.leaves value) source) := by
  induction deeds generalizing w value with
  | nil => exact ⟨w, rfl, hi⟩
  | cons deed deeds ih =>
    obtain ⟨w₁, hrun, hi₁⟩ := run_enact hi (hd deed (List.mem_cons_self ..))
    obtain ⟨w', hrest, hi'⟩ := ih hi₁ fun d hm => hd d (List.mem_cons_of_mem _ hm)
    exact ⟨w', (run_bind_of_ok hrun).trans hrest, hi'⟩

/-- A single step is carried out on the spot, what it comes to one after the other. -/
theorem invoke_bump (hi : w.instance? id = some (.ticker value source))
    (h : request ClassKey.typeName index args = .ok .bump) : (invoke id index args).run w =
      (do (Calls.rounds [value + 1]).forM (enact id); return .ok .void : Engine Outcome).run w := by
  have hreached := run_reached hi (value + 1)
  have hupdate : (updateInstance id (.ticker (value + 1) source) (.ticker (value + 1) source)).run w =
      (enact id (.reached (value + 1))).run w := by
    rw [enact, run_get_bind, hi]
    rfl
  have hannounced : (enact id (.announced (announce (value + 1)))).run (showing w id source (value + 1)) =
      (emit source changed [.int (value + 1)]).run (showing w id source (value + 1)) := by
    rw [enact, run_get_bind, instance?_showing hi]
    rfl
  rw [invoke, run_get_bind, hi]
  dsimp only
  rw [h]
  simp only [settleFault, pure_bind, Calls.rounds, List.flatMap_cons, List.flatMap_nil,
    List.append_nil, List.forM_eq_forM, List.forM_cons, List.forM_nil, bind_assoc]
  rw [run_bind_of_ok (hupdate.trans hreached), run_bind_of_ok hreached, EStateM.run_bind,
    EStateM.run_bind, hannounced]
  rfl

/-- A count is left to the background, and takes no step before. -/
theorem invoke_start (hi : w.instance? id = some (.ticker value source)) {c : Count}
    (h : request ClassKey.typeName index args = .ok (.start c)) :
    (invoke id index args).run w = .ok (.ok .void) { w with jobs := w.jobs ++ [.count id c] } := by
  rw [invoke, run_get_bind, hi]
  dsimp only
  rw [h]
  rfl

/-- A call that is refused changes nothing. -/
theorem invoke_refused (hi : w.instance? id = some (.ticker value source)) {e : NativeError}
    (h : request ClassKey.typeName index args = .error (.error e)) :
    (invoke id index args).run w = .ok (.error e) w := by
  rw [invoke, run_get_bind, hi]
  dsimp only
  rw [h]
  rfl

end

/-- A count with a negative number of steps is refused. -/
theorem request_negative {nameOf : TypeId → String} {args : List NativeValue} {v : NativeValue}
    {n : Int32} (hv : args[0]? = some v) (hn : v.toInt nameOf = .ok n) (hneg : n.toInt < 0) :
    request nameOf 1 args =
      .error (.error (.argument ("negative step count " ++ toString n.toInt))) := by
  simp only [request, argumentAs, argument, hv, hn, bind, Except.bind]
  rw [if_pos hneg]
  rfl

/-- A count with a number of steps is accepted. -/
theorem request_start {nameOf : TypeId → String} {args : List NativeValue} {v : NativeValue}
    {n : Int32} (hv : args[0]? = some v) (hn : v.toInt nameOf = .ok n) (hpos : 0 ≤ n.toInt) :
    request nameOf 1 args = .ok (.start ⟨n.toInt.toNat, none⟩) := by
  simp only [request, argumentAs, argument, hv, hn, bind, Except.bind]
  rw [if_neg (Int.not_lt.2 hpos)]
  rfl

/-! ## The law -/

namespace Calls

/-- **How a ticker counts**, in whatever order its calls take their steps. -/
structure Counts (s : Calls) : Prop where
  /-- In the end the ticker shows the number of values that the calls had to reach. -/
  value : s.Done → s.total < 2 ^ 31 → s.value.toInt = s.total
  /-- The values announced are those from one to that number, each once. -/
  announced : s.Done → (argumentsOn changed s.announced).Perm
    ((List.range' 1 s.total).map fun n => [.int (Int32.ofNat n)])
  /-- A single step that is over announced one value. -/
  bumped : ∀ k, s.calls[k]? = some (.bump, none) → ∃ v, s.announcedBy k = [announce v]
  /-- A count that is over announced as many values as it had to reach, and then its end, once. -/
  counted : ∀ k c, s.calls[k]? = some (.start c, none) → ∃ vs : List Int32, vs.length = c.remaining ∧
    s.announcedBy k = vs.map announce ++ [⟨finished, []⟩]
  /-- If no two steps overlapped, the values were announced in increasing order. -/
  ordered : s.Done → s.Serial → argumentsOn changed s.announced =
    (List.range' 1 s.total).map fun n => [.int (Int32.ofNat n)]

/-- An action does in the world what a call takes its steps for: each thing that the steps do, one after the
other.  In the end the ticker shows the value that they lead to. -/
def Enacted {α : Type} (s : Calls) (w : World) (id : InstanceId) (source : SourceId) (k : Nat)
    (r : Request) (act : Engine α) (a : α) : Prop :=
  ∃ deeds s' w', Advances s k r deeds s' ∧ (deeds.forM (enact id)).run w = .ok () w' ∧
    act.run w = .ok a w' ∧ w'.instance? id = some (.ticker s'.value source)

/-- **How the calls of a ticker run**, on an instance that shows the value that they have come to. -/
structure Runs (s : Calls) (w : World) (id : InstanceId) (source : SourceId) : Prop where
  /-- A single step is made on the spot. -/
  bump : ∀ args, Step s (s.add .bump) ∧
    (s.add .bump).Enacted w id source s.calls.length .bump (invoke id 0 args) (.ok .void)
  /-- A count is accepted, and left to the background before it takes a step. -/
  start : ∀ args v n, args[0]? = some v → v.toInt ClassKey.typeName = .ok n → 0 ≤ n.toInt →
    Step s (s.add (.start ⟨n.toInt.toNat, none⟩)) ∧
    (invoke id 1 args).run w =
      .ok (.ok .void) { w with jobs := w.jobs ++ [.count id ⟨n.toInt.toNat, none⟩] }
  /-- In the background it takes all its steps. -/
  count : ∀ k r c, s.calls[k]? = some (r, some (.count c)) →
    s.Enacted w id source k r (runJob (.count id c)) ()
  /-- A count with a negative number of steps is refused, which changes nothing. -/
  refused : ∀ args v n, args[0]? = some v → v.toInt ClassKey.typeName = .ok n → n.toInt < 0 →
    (invoke id 1 args).run w =
      .ok (.error (.argument ("negative step count " ++ toString n.toInt))) w

variable {s s' : Calls}

/-- **What calls count and announce**, in every run. -/
theorem Reachable.counts (h : Reachable s) : s.Counts where
  value hdone hfew := by
    rw [h.sound.value, h.sound.values_of_done hdone, List.length_map, List.length_range',
      Int32.toInt_ofNat_of_lt hfew]
  announced hdone := by
    have hmatched := h.sound.matched
    rwa [hdone.pending, List.map_nil, List.append_nil, h.sound.values_of_done hdone,
      List.map_map] at hmatched
  bumped k hk := (h.sound.course k _ _ hk).announced_bump
  counted k c hk := (h.sound.course k _ _ hk).announced_start
  ordered hdone hserial := by
    have horder := (h.inOrder hserial).2
    rwa [hdone.pending, List.map_nil, List.append_nil, h.sound.values_of_done hdone,
      List.map_map] at horder

section

variable {w : World} {id : InstanceId} {source : SourceId}

/-- What the steps of a call do can be carried out where the ticker shows the value before them. -/
theorem Advances.enacted {k : Nat} {r : Request} {deeds : List Deed} {α : Type} {act : Engine α} {a : α}
    (h : Advances s k r deeds s') (hi : w.instance? id = some (.ticker s.value source))
    (hact : ∀ w', (deeds.forM (enact id)).run w = .ok () w' → act.run w = .ok a w') :
    s.Enacted w id source k r act a := by
  obtain ⟨w', hrun, hi'⟩ := run_deeds hi h.quiet
  exact ⟨deeds, s', w', h, hrun, hact w' hrun, h.value ▸ hi'⟩

/-- A call that bumps does its one step in the engine. -/
theorem enacted_bump (hi : w.instance? id = some (.ticker s.value source)) (args : List NativeValue) :
    (s.add .bump).Enacted w id source s.calls.length .bump (invoke id 0 args) (.ok .void) := by
  have hk : (s.add .bump).calls[s.calls.length]? = some (.bump, some (.bump none)) := by
    rw [add, List.getElem?_append_right (Nat.le_refl _), Nat.sub_self]
    rfl
  obtain ⟨s', hs'⟩ := Advances.bump hk
  refine hs'.enacted hi fun w' hrun => ?_
  rw [invoke_bump hi rfl]
  exact run_bind_of_ok hrun

/-- A background count does its steps in the engine. -/
theorem enacted_count (hi : w.instance? id = some (.ticker s.value source)) {k : Nat} {r : Request}
    {c : Count} (hk : s.calls[k]? = some (r, some (.count c))) :
    s.Enacted w id source k r (runJob (.count id c)) () := by
  obtain ⟨s', hs'⟩ := Advances.run s.value c rfl hk
  refine hs'.enacted hi fun w' hrun => ?_
  rw [runJob, run_get_bind, hi]
  exact hrun

/-- **Each step of a call is run by the engine**. -/
theorem runs (hi : w.instance? id = some (.ticker s.value source)) : s.Runs w id source where
  bump args :=
    have h : request ClassKey.typeName 0 args = .ok .bump := rfl
    ⟨.call h, enacted_bump hi args⟩
  start _ _ _ hv hn hpos :=
    have h := request_start hv hn hpos
    ⟨.call h, invoke_start hi h⟩
  count _ _ _ hk := enacted_count hi hk
  refused _ _ _ hv hn hneg := invoke_refused hi (request_negative hv hn hneg)

end

/-- **A ticker counts every step once**, whatever calls are made, and in whatever order they take their
steps.  What the engine does for a call is what the call takes its steps for. -/
theorem announces : (∀ s : Calls, s.Reachable → s.Counts) ∧
    ∀ (s : Calls) (w : World) id source, w.instance? id = some (.ticker s.value source) →
      s.Runs w id source :=
  ⟨fun _ => Reachable.counts, fun _ _ _ _ => runs⟩

/-- A count of two, and a single step that gets between a value of the count and its announcement. -/
def overtaken : Calls :=
  [0, 1, 1, 0, 0, 0, 0].foldl advance ((({} : Calls).add (.start ⟨2, none⟩)).add .bump)

/-- Two calls that overlap announce out of order, and each counts its steps. -/
theorem announces_overtaken : overtaken.Done ∧ overtaken.total < 2 ^ 31 ∧
    overtaken.announced.map (·.args) = [[.int 2], [.int 1], [.int 3], []] ∧
    overtaken.value.toInt = 3 ∧
    ∃ vs : List Int32, vs.length = 2 ∧ overtaken.announcedBy 0 = vs.map announce ++ [⟨finished, []⟩] := by
  have hstart : request ClassKey.typeName 1 [.int 2] = .ok (.start ⟨2, none⟩) := rfl
  have hbump : request ClassKey.typeName 0 [] = .ok .bump := rfl
  have hreach : Reachable overtaken :=
    Reachable.advance (.tail (.single (.call hstart)) (.call hbump)) _
  have hdone : overtaken.Done := by
    intro c hc
    have hcalls : overtaken.calls = [(.start ⟨2, none⟩, none), (.bump, none)] := rfl
    rw [hcalls, List.mem_cons, List.mem_singleton] at hc
    rcases hc with rfl | rfl <;> rfl
  have hfew : overtaken.total < 2 ^ 31 := by decide
  have hcounts := announces.1 overtaken hreach
  exact ⟨hdone, hfew, rfl, hcounts.value hdone hfew, hcounts.counted 0 ⟨2, none⟩ rfl⟩

end Calls

end Isthmus.Ticker
