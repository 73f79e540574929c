import Isthmus.World.Basic
import Mathlib.Data.List.Nodup

/-!
# Proofs/Run/Names — what naming a thing changes

A name is given (`Names.put`) in the place of the one that had it, and given up (`Names.remove`).  Both
keep the names distinct, so at most one thing loses its name: `count_put_of_some` and `count_remove` say
so by counting, `mem_put_or_find?` and `mem_remove_or_find?` by membership.
-/

namespace Isthmus

namespace Names

variable {α : Type} {names : Names α} {name : String} {a : α}

/-- How many names stand for a thing of the sort. -/
def count (names : Names α) (q : α → Bool) : Nat :=
  names.countP fun e => q e.2

theorem names_remove (names : Names α) (name : String) :
    (names.remove name).map (·.1) = (names.map (·.1)).filter (· ≠ name) := by
  rw [remove, List.filter_map]
  rfl

theorem find?_cons (e : String × α) (names : Names α) (name : String) :
    find? (e :: names) name = if e.1 = name then some e.2 else find? names name := by
  by_cases h : e.1 = name
  · simp [find?, h]
  · simp [find?, h]

theorem find?_replace (names : Names α) (name other : String) (b : α) :
    find? (names.map fun e => if e.1 = name then (name, b) else e) other =
      if other = name then (names.find? name).map fun _ => b else names.find? other := by
  induction names with
  | nil => simp [find?]
  | cons e names ih =>
    rw [List.map_cons, find?_cons, find?_cons, find?_cons, ih]
    by_cases he : e.1 = name
    · by_cases ho : other = name
      · simp [he, ho]
      · simp [he, ho, Ne.symm ho]
    · by_cases ho : other = name
      · simp [he, ho]
      · simp [he, ho]

/-- Of a name only the thing changes that it is given. -/
theorem find?_put (names : Names α) (name other : String) (b : α) :
    (names.put name b).find? other = if other = name then some b else names.find? other := by
  rw [put]
  split
  · next h =>
    obtain ⟨a, ha⟩ := Option.isSome_iff_exists.1 h
    rw [find?_replace, ha, Option.map_some]
  · next h =>
    have hnone : names.find? name = none := Option.not_isSome_iff_eq_none.1 h
    have hlast : find? [(name, b)] other = if name = other then some b else none := find?_cons ..
    rw [find?, List.find?_append, Option.map_or]
    change (names.find? other).or (find? [(name, b)] other) = _
    rw [hlast]
    by_cases ho : other = name
    · rw [if_pos ho.symm, if_pos ho, ho, hnone, Option.none_or]
    · rw [if_neg fun h => ho h.symm, if_neg ho, Option.or_none]

theorem remove_of_notMem (h : name ∉ names.map (·.1)) : names.remove name = names :=
  List.filter_eq_self.2 fun _ he => decide_eq_true fun hn => h (hn ▸ List.mem_map_of_mem he)

theorem notMem_of_find?_none (h : names.find? name = none) : name ∉ names.map (·.1) := by
  rw [find?, Option.map_eq_none_iff, List.find?_eq_none] at h
  rintro hm
  obtain ⟨e, he, rfl⟩ := List.mem_map.1 hm
  exact h e he (decide_eq_true rfl)

theorem count_remove (hn : (names.map (·.1)).Nodup) (h : names.find? name = some a)
    (q : α → Bool) :
    (names.remove name).count q + (if q a then 1 else 0) = names.count q := by
  induction names with
  | nil => cases h
  | cons e names ih =>
    rw [List.map_cons, List.nodup_cons] at hn
    rw [find?_cons] at h
    by_cases he : e.1 = name
    · rw [if_pos he, Option.some.injEq] at h
      subst he h
      have hr : Names.remove (e :: names) e.1 = names :=
        (List.filter_cons_of_neg (by simp)).trans (remove_of_notMem hn.1)
      rw [hr, count, count, List.countP_cons]
    · rw [if_neg he] at h
      have hr : Names.remove (e :: names) name = e :: Names.remove names name :=
        List.filter_cons_of_pos (decide_eq_true he)
      have := ih hn.2 h
      rw [count, count] at this
      rw [hr, count, count, List.countP_cons, List.countP_cons]
      omega

theorem count_put_of_none (h : names.find? name = none) (b : α) (q : α → Bool) :
    (names.put name b).count q = names.count q + if q b then 1 else 0 := by
  rw [put, if_neg (by rw [h]; exact Bool.false_ne_true), count, List.countP_append,
    List.countP_cons, List.countP_nil, Nat.zero_add, count]

theorem names_put_of_some (h : names.find? name = some a) (b : α) :
    (names.put name b).map (·.1) = names.map (·.1) := by
  rw [put, if_pos (by rw [h]; rfl), List.map_map]
  refine List.map_congr_left fun e _ => ?_
  simp only [Function.comp]
  split
  · next he => exact he.symm
  · rfl

theorem count_put_of_some (hn : (names.map (·.1)).Nodup) (h : names.find? name = some a) (b : α)
    (q : α → Bool) :
    (names.put name b).count q + (if q a then 1 else 0) =
      names.count q + if q b then 1 else 0 := by
  rw [put, if_pos (by rw [h]; rfl)]
  induction names with
  | nil => cases h
  | cons e names ih =>
    rw [List.map_cons, List.nodup_cons] at hn
    rw [find?_cons] at h
    rw [count, List.map_cons, List.countP_cons, count, List.countP_cons]
    by_cases he : e.1 = name
    · rw [if_pos he, Option.some.injEq] at h
      subst he h
      have hs : names.map (fun e' => if e'.1 = e.1 then (e.1, b) else e') = names :=
        (List.map_congr_left fun e' he' => if_neg fun hn' : e'.1 = e.1 =>
          hn.1 (hn' ▸ List.mem_map_of_mem he')).trans (List.map_id _)
      rw [hs, if_pos rfl]
      change _ + (if q b then 1 else 0) + _ = _
      omega
    · rw [if_neg he] at h
      have := ih hn.2 h
      rw [count, count] at this
      rw [if_neg he]
      omega

theorem nodup_remove (hn : (names.map (·.1)).Nodup) (name : String) :
    ((names.remove name).map (·.1)).Nodup := by
  rw [names_remove]
  exact hn.filter _

theorem nodup_put (hn : (names.map (·.1)).Nodup) (name : String) (b : α) :
    ((names.put name b).map (·.1)).Nodup := by
  cases h : names.find? name with
  | some a =>
    rw [names_put_of_some h]
    exact hn
  | none =>
    rw [put, if_neg (by rw [h]; exact Bool.false_ne_true), ← List.concat_eq_append, List.map_concat]
    exact hn.concat (notMem_of_find?_none h)

theorem find?_of_mem (hn : (names.map (·.1)).Nodup) {e : String × α} (he : e ∈ names) :
    names.find? e.1 = some e.2 := by
  induction names with
  | nil => cases he
  | cons e' names ih =>
    rw [List.map_cons, List.nodup_cons] at hn
    rw [find?_cons]
    obtain rfl | he := List.mem_cons.1 he
    · exact if_pos rfl
    · rw [if_neg fun heq : e'.1 = e.1 => hn.1 (heq ▸ List.mem_map_of_mem he)]
      exact ih hn.2 he

theorem mem_remove_or_find? (hn : (names.map (·.1)).Nodup) {e : String × α} (he : e ∈ names)
    (name : String) : e ∈ names.remove name ∨ names.find? name = some e.2 := by
  by_cases h : e.1 = name
  · exact .inr (h ▸ find?_of_mem hn he)
  · exact .inl (List.mem_filter.2 ⟨he, decide_eq_true h⟩)

theorem mem_put_or_find? (hn : (names.map (·.1)).Nodup) {e : String × α} (he : e ∈ names)
    (name : String) (b : α) : e ∈ names.put name b ∨ names.find? name = some e.2 := by
  by_cases h : e.1 = name
  · exact .inr (h ▸ find?_of_mem hn he)
  · refine .inl ?_
    rw [put]
    split
    · exact List.mem_map.2 ⟨e, he, if_neg h⟩
    · exact List.mem_append_left _ he

theorem mem_put_self (names : Names α) (name : String) (b : α) : (name, b) ∈ names.put name b := by
  rw [put]
  split
  · next h =>
    obtain ⟨a, ha⟩ := Option.isSome_iff_exists.1 h
    obtain ⟨e, he, -⟩ := Option.map_eq_some_iff.1 ha
    exact List.mem_map.2 ⟨e, List.mem_of_find?_eq_some he,
      if_pos (by simpa using List.find?_some he)⟩
  · exact List.mem_append_right _ (List.mem_singleton_self _)

end Names

end Isthmus
