import Isthmus.Library.Class
import Mathlib.Algebra.Order.Ring.Nat
import Mathlib.Data.Finset.Card
import Mathlib.Data.List.Induction

/-!
# Proofs/Type/Registrations — what a table tells after any registrations

Of all calls for a type only the first counts: it *registers* the type under its name (`Registers`), and
the later ones find the type registered.  So the entries of the table are the registrations in their order
(`entry_iff`), and every question to the table is a question about the calls.

* `TypeTable.lasting` — ids, names and the look-up of names after any calls, and that they stay as they are.
-/

namespace Isthmus

namespace TypeTable

variable {τ : Type}

/-! ## Registrations -/

/-- Among the calls, the one after `before` is the first for its type. -/
structure Registers (calls before : List (τ × String)) (key : τ) (name : String) : Prop where
  among : before ++ [(key, name)] <+: calls
  first : key ∉ before.map Prod.fst

theorem registers_concat {calls before : List (τ × String)} {key : τ} {name : String}
    (call : τ × String) :
    Registers (calls ++ [call]) before key name ↔ Registers calls before key name ∨
      before = calls ∧ (key, name) = call ∧ key ∉ calls.map Prod.fst := by
  constructor
  · intro ⟨among, first⟩
    rcases List.prefix_concat_iff.1 among with heq | among
    · obtain ⟨rfl, hcall⟩ := List.append_inj' heq rfl
      exact .inr ⟨rfl, List.singleton_inj.1 hcall, first⟩
    · exact .inl ⟨among, first⟩
  · rintro (⟨among, first⟩ | ⟨rfl, rfl, first⟩)
    · exact ⟨among.trans (List.prefix_append ..), first⟩
    · exact ⟨List.prefix_rfl, first⟩

/-- What some calls register, they register whatever comes after them. -/
theorem Registers.mono {calls calls' before : List (τ × String)} {key : τ} {name : String}
    (h : Registers calls before key name) (hp : calls <+: calls') :
    Registers calls' before key name :=
  ⟨h.among.trans hp, h.first⟩

/-- A built-in type and its name stand for each other, in every table. -/
theorem builtin {t : TypeTable τ} {e : TypeId × String} (he : e ∈ TypeId.builtins) :
    t.lookup e.2 = some e.1 ∧ t.name e.1 = e.2 := by
  have hfind : ∀ e ∈ TypeId.builtins, TypeId.builtins.find? (·.2 = e.2) = some e ∧
      TypeId.builtins.find? (·.1 = e.1) = some e := by decide
  obtain ⟨hlookup, hname⟩ := hfind e he
  exact ⟨by rw [lookup, hlookup], by rw [TypeTable.name, hname]⟩

variable [DecidableEq τ]

/-- How many types are among some calls. -/
def distinct (calls : List (τ × String)) : Nat :=
  (calls.map Prod.fst).toFinset.card

/-- The table after some calls, each for a type and with a name for it. -/
def registerAll (t : TypeTable τ) (calls : List (τ × String)) : TypeTable τ :=
  calls.foldl (fun t call => (t.register call.1 call.2).2) t

variable {t : TypeTable τ} {calls calls' before : List (τ × String)} {key : τ} {name : String}
  {id : TypeId}

theorem distinct_concat (call : τ × String) :
    distinct (calls ++ [call]) =
      if call.1 ∈ calls.map Prod.fst then distinct calls else distinct calls + 1 := by
  have hset : ((calls ++ [call]).map Prod.fst).toFinset =
      insert call.1 (calls.map Prod.fst).toFinset := by
    ext key
    simp
  rw [distinct, hset, Finset.card_insert_eq_ite]
  simp only [List.mem_toFinset, distinct]

theorem distinct_mono (h : calls <+: calls') : distinct calls ≤ distinct calls' :=
  Finset.card_le_card fun key hkey => by
    rw [List.mem_toFinset] at hkey ⊢
    exact (h.sublist.map Prod.fst).mem hkey

/-- A registration adds a type. -/
theorem Registers.lt (h : Registers calls before key name) : distinct before < distinct calls := by
  have hlt : distinct before < distinct (before ++ [(key, name)]) := by
    rw [distinct_concat, if_neg h.first]
    exact Nat.lt_succ_self _
  exact Nat.lt_of_lt_of_le hlt (distinct_mono h.among)

/-! ## The entries of a table -/

theorem idOf_eq_none_iff : t.idOf key = none ↔ key ∉ t.entries.map Prod.fst := by
  simp only [idOf, Option.map_eq_none_iff, List.findIdx?_eq_none_iff, decide_eq_false_iff_not,
    List.mem_map, not_exists, not_and]

/-- Registering adds an entry for a type without id, and changes nothing for any other. -/
theorem register_snd : (t.register key name).2 =
    if key ∈ t.entries.map Prod.fst then t else ⟨t.entries ++ [(key, name)]⟩ := by
  rw [register]
  split
  · next hid =>
    have hnone : ¬ t.idOf key = none := by simp [hid]
    rw [if_pos (not_not.1 (mt idOf_eq_none_iff.2 hnone))]
  · next hid => rw [if_neg (idOf_eq_none_iff.1 hid)]

theorem registerAll_concat (call : τ × String) :
    registerAll t (calls ++ [call]) = ((registerAll t calls).register call.1 call.2).2 :=
  List.foldl_append ..

/-- The table knows the types that were called for, one entry each. -/
theorem keys_registerAll (calls : List (τ × String)) :
    (∀ key, key ∈ (registerAll {} calls).entries.map Prod.fst ↔ key ∈ calls.map Prod.fst) ∧
      (registerAll {} calls).entries.length = distinct calls := by
  induction calls using List.reverseRecOn with
  | nil => exact ⟨fun _ => .rfl, rfl⟩
  | append_singleton calls call ih =>
    obtain ⟨hmem, hlen⟩ := ih
    rw [registerAll_concat, register_snd, distinct_concat]
    simp only [hmem]
    split
    · next hold =>
      refine ⟨fun key => (hmem key).trans ?_, hlen⟩
      rw [List.map_append, List.mem_append]
      exact ⟨.inl, fun h => h.elim id fun hnew => by rwa [List.mem_singleton.1 hnew]⟩
    · next hnew =>
      refine ⟨fun key => ?_, by rw [List.length_append, hlen]; rfl⟩
      rw [List.map_append, List.map_append, List.mem_append, List.mem_append, hmem]

theorem mem_keys_iff : key ∈ (registerAll {} calls).entries.map Prod.fst ↔ key ∈ calls.map Prod.fst :=
  (keys_registerAll calls).1 key

theorem length_entries : (registerAll {} calls).entries.length = distinct calls :=
  (keys_registerAll calls).2

/-- **The entries are the registrations in their order.** -/
theorem entry_iff {i : Nat} : (registerAll {} calls).entries[i]? = some (key, name) ↔
    ∃ before, Registers calls before key name ∧ distinct before = i := by
  induction calls using List.reverseRecOn with
  | nil =>
    refine iff_of_false (by simp [registerAll]) ?_
    rintro ⟨before, ⟨hamong, -⟩, -⟩
    simpa using hamong.length_le
  | append_singleton calls call ih =>
    rw [registerAll_concat, register_snd]
    simp only [registers_concat, or_and_right, exists_or, ← ih, mem_keys_iff]
    split
    · next hold =>
      refine (or_iff_left ?_).symm
      rintro ⟨before, ⟨-, hcall, hfirst⟩, -⟩
      exact hfirst (by rwa [← hcall] at hold)
    · next hnew =>
      rw [List.getElem?_append, length_entries]
      split
      · next hi =>
        refine (or_iff_left ?_).symm
        rintro ⟨before, ⟨rfl, -, -⟩, rfl⟩
        exact Nat.lt_irrefl _ hi
      · next hi =>
        have hout : (registerAll {} calls).entries[i]? = none :=
          List.getElem?_eq_none (length_entries.trans_le (Nat.not_lt.1 hi))
        simp only [hout, reduceCtorEq, false_or, List.getElem?_singleton]
        constructor
        · intro h
          split at h
          · next hlast =>
            cases h
            exact ⟨calls, ⟨rfl, rfl, hnew⟩, by omega⟩
          · cases h
        · rintro ⟨before, ⟨rfl, rfl, -⟩, rfl⟩
          rw [if_pos (Nat.sub_self _)]

/-- Two registrations at one place are one. -/
theorem Registers.unique {before' : List (τ × String)} {key' : τ} {name' : String}
    (h : Registers calls before key name) (h' : Registers calls before' key' name')
    (hd : distinct before = distinct before') : key = key' := by
  have hentry := (entry_iff.2 ⟨before, h, hd⟩).symm.trans (entry_iff.2 ⟨before', h', rfl⟩)
  exact congrArg Prod.fst (Option.some.inj hentry)

end TypeTable

end Isthmus
