/-!
# World/Store — things under keys that are never used twice

A store hands out a fresh key for each thing it takes.  What an operation does is said by `get?`:
`get?_insert`, `get?_erase` and `get?_modify`.  `size` counts what is in the store; erasing a key that
is in use makes it smaller, which is why tearing things down ends.  `total` sums a number over everything
in the store, and each operation changes it by what it adds and takes away.
-/

namespace Isthmus

/-- Things of type `α` under natural keys, oldest first; keys ascend and stay below `next`. -/
structure Store (α : Type) where
  entries : List (Nat × α)
  next : Nat
  ascending : entries.Pairwise (·.1 < ·.1)
  below : ∀ e ∈ entries, e.1 < next

namespace Store

variable {α : Type}

/-- Nothing yet. -/
def empty : Store α :=
  ⟨[], 0, .nil, by simp⟩

instance : Inhabited (Store α) :=
  ⟨empty⟩

/-- The thing under a key. -/
def get? (s : Store α) (key : Nat) : Option α :=
  (s.entries.find? (·.1 = key)).map (·.2)

/-- The key is in use. -/
def contains (s : Store α) (key : Nat) : Bool :=
  s.entries.any (·.1 = key)

/-- How many things are in the store. -/
def size (s : Store α) : Nat :=
  s.entries.length

/-- The things in the store, oldest first. -/
def values (s : Store α) : List α :=
  s.entries.map (·.2)

/-- The keys in use, oldest first. -/
def keys (s : Store α) : List Nat :=
  s.entries.map (·.1)

/-- Puts a thing under the next key. -/
def insert (s : Store α) (a : α) : Store α where
  entries := s.entries ++ [(s.next, a)]
  next := s.next + 1
  ascending := List.pairwise_append.2
    ⟨s.ascending, by simp, fun e he f hf => by
      have := s.below e he
      simp only [List.mem_singleton] at hf
      subst hf
      exact this⟩
  below := fun e he => by
    rcases List.mem_append.1 he with h | h
    · exact Nat.lt_succ_of_lt (s.below e h)
    · simp only [List.mem_singleton] at h
      subst h
      exact Nat.lt_succ_self _

/-- Leaves the next key unused. -/
def skip (s : Store α) : Store α where
  entries := s.entries
  next := s.next + 1
  ascending := s.ascending
  below := fun e he => Nat.lt_succ_of_lt (s.below e he)

/-- Takes the thing under a key out. -/
def erase (s : Store α) (key : Nat) : Store α where
  entries := s.entries.filter (·.1 ≠ key)
  next := s.next
  ascending := s.ascending.filter _
  below := fun e he => s.below e (List.mem_filter.1 he).1

/-- Changes the thing under a key. -/
def modify (s : Store α) (key : Nat) (f : α → α) : Store α where
  entries := s.entries.map fun e => if e.1 = key then (e.1, f e.2) else e
  next := s.next
  ascending := by
    refine List.pairwise_map.2 (s.ascending.imp ?_)
    intro a b h
    split <;> split <;> exact h
  below := fun e he => by
    obtain ⟨e', he', rfl⟩ := List.mem_map.1 he
    have := s.below e' he'
    split <;> exact this

/-! ## Size -/

/-- A new entry is one entry more. -/
@[simp] theorem size_insert (s : Store α) (a : α) : (s.insert a).size = s.size + 1 := by
  simp [insert, size]

@[simp] theorem size_modify (s : Store α) (key : Nat) (f : α → α) :
    (s.modify key f).size = s.size := by
  simp [modify, size]

/-- One that goes is one less. -/
theorem size_erase_lt {s : Store α} {key : Nat} (h : s.contains key) :
    (s.erase key).size < s.size := by
  obtain ⟨e, he, hk⟩ := List.any_eq_true.1 h
  exact List.length_filter_lt_length_iff_exists.2 ⟨e, he, by simpa using hk⟩

/-! ## Contents -/

/-- What is found is there. -/
theorem contains_of_get? {s : Store α} {key : Nat} {a : α} (h : s.get? key = some a) :
    s.contains key := by
  obtain ⟨e, he, rfl⟩ := Option.map_eq_some_iff.1 h
  exact List.any_eq_true.2 ⟨e, List.mem_of_find?_eq_some he, by simpa using List.find?_some he⟩

@[simp] theorem get?_empty (key : Nat) : (empty : Store α).get? key = none := rfl

/-- Nothing is found under a key that was not given out yet. -/
theorem get?_next (s : Store α) : s.get? s.next = none := by
  simp only [get?, Option.map_eq_none_iff, List.find?_eq_none, decide_eq_true_eq]
  intro e he h
  exact absurd (s.below e he) (by simp [h])

/-- A new entry is found under the next key. -/
theorem get?_insert (s : Store α) (a : α) (key : Nat) :
    (s.insert a).get? key = if key = s.next then some a else s.get? key := by
  by_cases h : key = s.next
  · subst h
    have hn := get?_next s
    simp only [get?, Option.map_eq_none_iff] at hn
    simp [get?, insert, List.find?_append, hn]
  · have h' : ¬ s.next = key := fun e => h e.symm
    simp [get?, insert, List.find?_append, h, h']

/-- An entry that goes is found no more. -/
theorem get?_erase (s : Store α) (key other : Nat) :
    (s.erase key).get? other = if other = key then none else s.get? other := by
  by_cases h : other = key
  · subst h
    simp [get?, erase, List.find?_eq_none]
  · rw [if_neg h]
    simp only [get?, erase, List.find?_filter]
    congr 2
    funext e
    by_cases he : e.1 = other
    · simp [he, h]
    · simp [he]

/-- A changed entry is found as it was changed. -/
theorem get?_modify (s : Store α) (key other : Nat) (f : α → α) :
    (s.modify key f).get? other = if other = key then (s.get? other).map f else s.get? other := by
  simp only [get?, modify, List.find?_map]
  have hp : ((fun e : Nat × α => decide (e.1 = other)) ∘
      fun e => if e.1 = key then (e.1, f e.2) else e) = fun e => decide (e.1 = other) := by
    funext e
    simp only [Function.comp]
    split <;> rfl
  rw [hp]
  cases hf : s.entries.find? (fun e => decide (e.1 = other)) with
  | none => simp
  | some e =>
    have he : e.1 = other := by simpa using List.find?_some hf
    by_cases h : other = key
    · simp [he, h]
    · simp [he, h]

@[simp] theorem isSome_get?_modify (s : Store α) (key other : Nat) (f : α → α) :
    ((s.modify key f).get? other).isSome = (s.get? other).isSome := by
  rw [get?_modify]
  split
  · rw [‹other = key›, Option.isSome_map]
  · rfl

/-- What is found are the entries. -/
theorem get?_eq_some_iff {s : Store α} {key : Nat} {a : α} :
    s.get? key = some a ↔ (key, a) ∈ s.entries := by
  obtain ⟨entries, next, asc, below⟩ := s
  simp only [get?]
  clear below
  induction entries with
  | nil => simp
  | cons e entries ih =>
    rw [List.pairwise_cons] at asc
    rw [List.find?_cons, List.mem_cons]
    by_cases h : e.1 = key
    · have hn : (key, a) ∉ entries := fun hm => by
        have := asc.1 _ hm
        simp only [h, Nat.lt_irrefl] at this
      obtain ⟨k, b⟩ := e
      simp only at h
      subst h
      simp [hn, eq_comm]
    · have he : (key, a) ≠ e := fun he => h (by rw [← he])
      simp only [h, decide_false, he, false_or, ih asc.2]

/-- What is found was given out. -/
theorem lt_next_of_get? {s : Store α} {key : Nat} {a : α} (h : s.get? key = some a) :
    key < s.next :=
  s.below _ (get?_eq_some_iff.1 h)

/-- Values are what is found. -/
theorem mem_values {s : Store α} {a : α} : a ∈ s.values ↔ ∃ key, s.get? key = some a := by
  simp [values, get?_eq_some_iff]

/-! ## Totals -/

/-- The sum of a number over all things in the store. -/
def total (f : α → Nat) (s : Store α) : Nat :=
  s.entries.foldr (fun e n => f e.2 + n) 0

@[simp] theorem total_empty (f : α → Nat) : (empty : Store α).total f = 0 := rfl

@[simp] theorem total_insert (f : α → Nat) (s : Store α) (a : α) :
    (s.insert a).total f = s.total f + f a := by
  have hsum (entries : List (Nat × α)) : entries.foldr (fun e n => f e.2 + n) (f a) =
      entries.foldr (fun e n => f e.2 + n) 0 + f a := by
    induction entries with
    | nil => exact (Nat.zero_add _).symm
    | cons e entries ih => rw [List.foldr_cons, ih, List.foldr_cons, Nat.add_assoc]
  simpa [total, insert] using hsum s.entries

/-- A total without an entry. -/
theorem total_erase (f : α → Nat) {s : Store α} {key : Nat} {a : α} (h : s.get? key = some a) :
    (s.erase key).total f + f a = s.total f := by
  obtain ⟨entries, next, asc, below⟩ := s
  rw [get?_eq_some_iff] at h
  simp only [total, erase] at h ⊢
  clear below
  induction entries with
  | nil => exact absurd h List.not_mem_nil
  | cons e entries ih =>
    rw [List.pairwise_cons] at asc
    rcases List.mem_cons.1 h with rfl | h
    · have hs : entries.filter (·.1 ≠ key) = entries :=
        List.filter_eq_self.2 fun e he => by
          have := asc.1 e he
          simp only at this
          simp only [decide_eq_true_eq]
          omega
      rw [List.filter_cons_of_neg (by simp), hs, List.foldr_cons, Nat.add_comm]
    · have he := asc.1 _ h
      have := ih asc.2 h
      rw [List.filter_cons_of_pos (by simp only [decide_eq_true_eq]; omega)]
      simp only [List.foldr_cons] at this ⊢
      omega

/-- Each entry is part of a total. -/
theorem le_total (f : α → Nat) {s : Store α} {key : Nat} {a : α} (h : s.get? key = some a) :
    f a ≤ s.total f := by
  rw [← total_erase f h]
  exact Nat.le_add_left _ _

/-- A total of something has an entry of something. -/
theorem exists_of_total_pos {f : α → Nat} {s : Store α} (h : 0 < s.total f) :
    ∃ key a, s.get? key = some a ∧ 0 < f a := by
  suffices hmem : ∃ e ∈ s.entries, 0 < f e.2 by
    obtain ⟨e, he, hf⟩ := hmem
    exact ⟨e.1, e.2, get?_eq_some_iff.2 he, hf⟩
  rw [total] at h
  generalize s.entries = entries at h ⊢
  induction entries with
  | nil => exact absurd h (Nat.lt_irrefl 0)
  | cons e entries ih =>
    by_cases hf : 0 < f e.2
    · exact ⟨e, List.mem_cons_self .., hf⟩
    · rw [List.foldr_cons, Nat.eq_zero_of_not_pos hf, Nat.zero_add] at h
      obtain ⟨e', he', hf'⟩ := ih h
      exact ⟨e', List.mem_cons_of_mem _ he', hf'⟩

/-- A change to what is not there changes nothing. -/
theorem modify_of_get?_none {s : Store α} {key : Nat} (g : α → α) (h : s.get? key = none) :
    s.modify key g = s := by
  obtain ⟨entries, next, asc, below⟩ := s
  simp only [get?, Option.map_eq_none_iff, List.find?_eq_none, decide_eq_true_eq] at h
  simp only [modify, mk.injEq, and_true]
  refine (List.map_congr_left fun e he => ?_).trans (List.map_id _)
  exact if_neg (h e he)

/-- Nor does one to what is there already. -/
theorem modify_self {s : Store α} {key : Nat} {a : α} (h : s.get? key = some a) :
    s.modify key (fun _ => a) = s := by
  obtain ⟨entries, next, asc, below⟩ := s
  simp only [modify, mk.injEq, and_true]
  refine (List.map_congr_left fun e he => ?_).trans (List.map_id _)
  split
  · next hk =>
    have he' : get? ⟨entries, next, asc, below⟩ e.1 = some e.2 := get?_eq_some_iff.2 he
    rw [hk, h, Option.some.injEq] at he'
    rw [he']
    rfl
  · rfl

/-- A total after a change of one entry. -/
theorem total_modify (f : α → Nat) {s : Store α} {key : Nat} {a : α} (g : α → α)
    (h : s.get? key = some a) : (s.modify key g).total f + f a = s.total f + f (g a) := by
  obtain ⟨entries, next, asc, below⟩ := s
  rw [get?_eq_some_iff] at h
  simp only [total, modify] at h ⊢
  clear below
  induction entries with
  | nil => exact absurd h List.not_mem_nil
  | cons e entries ih =>
    rw [List.pairwise_cons] at asc
    simp only [List.map_cons, List.foldr_cons]
    rcases List.mem_cons.1 h with rfl | h
    · have hs : entries.map (fun e => if e.1 = key then (e.1, g e.2) else e) = entries :=
        (List.map_congr_left fun e he => if_neg (Nat.ne_of_gt (asc.1 e he))).trans (List.map_id _)
      simp only [if_pos, hs]
      omega
    · have he := asc.1 _ h
      have := ih asc.2 h
      rw [if_neg (by omega)]
      omega

/-- A change that does not matter to the sum. -/
theorem total_modify_of_eq (f : α → Nat) (s : Store α) (key : Nat) {g : α → α}
    (hg : ∀ a, f (g a) = f a) : (s.modify key g).total f = s.total f := by
  cases h : s.get? key with
  | none => rw [modify_of_get?_none g h]
  | some a =>
    have := total_modify f g h
    rw [hg] at this
    omega

end Store

end Isthmus
