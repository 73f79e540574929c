import Isthmus.Bridge.Program
import Mathlib.Data.List.Basic
import Mathlib.Data.List.Induction

/-!
# Proofs/Bridge/Program — what a program makes of settings, after what it did before

A program looks up the names of the dynamic types before it registers the classes of the library.  So
what it makes of settings depends on its past, though on one thing only: whether it has built a registry
before, which it has as soon as it was asked for one whose dynamic types are all built in.

* `Program.outcome_of_past` — the outcome for settings, and after which pasts the outcomes agree.
* `Program.outcome_of_matrix` — settings that are refused at first and accepted later.
-/

namespace Isthmus

open Config

/-! ## Names -/

/-- A built-in type has the name. -/
def TypeId.isBuiltinName (name : String) : Bool :=
  builtins.any (·.2 = name)

/-- The names of the classes of the library. -/
def ClassKey.libraryNames : List String :=
  library.map (·.name)

/-- The table in which the classes of the library are registered. -/
def ClassKey.libraryTypes : TypeTable ClassKey :=
  (({} : Program).registerLibrary).types

namespace TypeTable

variable {t : TypeTable ClassKey} {name : String}

theorem lookup_of_builtin (h : TypeId.isBuiltinName name) :
    t.lookup name = ({} : TypeTable ClassKey).lookup name ∧ (t.lookup name).isSome := by
  obtain ⟨e, he, hn⟩ := List.any_eq_true.1 h
  cases hf : TypeId.builtins.find? (·.2 = name) with
  | none => exact absurd hn (List.find?_eq_none.1 hf e he)
  | some found => exact ⟨by rw [lookup, lookup, hf], by rw [lookup, hf]; rfl⟩

theorem lookup_of_not_builtin (h : ¬ TypeId.isBuiltinName name) :
    t.lookup name = (t.entries.findIdx? (·.2 = name)).map idAt := by
  have hf : TypeId.builtins.find? (·.2 = name) = none :=
    List.find?_eq_none.2 fun e he hn => h (List.any_eq_true.2 ⟨e, he, hn⟩)
  rw [lookup, hf]

/-- A table knows the names of built-in types and of those that were registered. -/
theorem isSome_lookup : (t.lookup name).isSome ↔
    TypeId.isBuiltinName name ∨ name ∈ t.entries.map (·.2) := by
  by_cases h : TypeId.isBuiltinName name
  · exact iff_of_true (lookup_of_builtin h).2 (.inl h)
  · rw [lookup_of_not_builtin h, Option.isSome_map, List.findIdx?_isSome, List.any_eq_true]
    simp only [h, decide_eq_true_eq, List.mem_map, false_or, Bool.false_eq_true]

end TypeTable

/-! ## Registries -/

namespace Config.ConversionSettings

/-- All dynamic types are built in. -/
def Plain (s : ConversionSettings) : Prop :=
  ∀ name ∈ s.dynamicTypes, TypeId.isBuiltinName name

instance (s : ConversionSettings) : Decidable s.Plain :=
  inferInstanceAs (Decidable (∀ name ∈ s.dynamicTypes, TypeId.isBuiltinName name))

/-- The first of the names that a table does not know is reported. -/
theorem dynamicIds_eq (lookup : String → Option TypeId) (s : ConversionSettings) :
    s.dynamicIds lookup = match s.dynamicTypes.find? fun name => (lookup name).isNone with
      | some name => .error (.unknownType name)
      | none => .ok (s.dynamicTypes.filterMap lookup) := by
  rw [dynamicIds]
  induction s.dynamicTypes with
  | nil => rfl
  | cons name names ih =>
    rw [List.mapM_cons, ih]
    cases hl : lookup name with
    | none =>
      rw [List.find?_cons_of_pos (by rw [hl]; rfl)]
      rfl
    | some id =>
      rw [List.find?_cons_of_neg (by rw [hl]; exact Bool.false_ne_true), List.filterMap_cons_some hl]
      cases names.find? fun name => (lookup name).isNone <;> rfl

end Config.ConversionSettings

theorem Registry.ofSettings_eq (lookup : String → Option TypeId) (plans : Plans)
    (s : ConversionSettings) :
    ofSettings lookup plans s = (s.dynamicIds lookup).map fun ids =>
      ClassKey.library.foldl (withClass plans)
        { base with dynamicTypes := ids, maxBufferLength := s.maxBufferLength } := by
  rw [ofSettings, withSettings]
  cases s.dynamicIds lookup <;> rfl

/-! ## Pasts -/

namespace Program

/-- What a program can be asked for that takes a registry. -/
inductive Request where
  | default
  | registry (s : ConversionSettings)
  | host (s : Settings)

/-- The conversion settings that a request is about. -/
def Request.settings : Request → ConversionSettings
  | default => {}
  | registry s => s
  | host s => s.conversion

/-- The registry that a request takes. -/
def answer (p : Program) : Request → Except ConfigError (Registry × Program)
  | .default => p.defaultRegistry
  | .registry s => p.registryFor s
  | .host s => p.registryFor s.conversion

/-- The program after a request; one that fails leaves it as it was. -/
def asked (p : Program) (r : Request) : Program :=
  match p.answer r with
  | .ok (_, p') => p'
  | .error _ => p

/-- A program that was asked for these, one after the other. -/
def past (rs : List Request) : Program :=
  rs.foldl asked {}

/-- What a program makes of settings. -/
def outcome (p : Program) (s : ConversionSettings) : Except ConfigError Registry :=
  (p.registryFor s).map (·.1)

/-- The registry for the default settings, which have no use for the library. -/
def standard : Registry :=
  ClassKey.library.foldl (Registry.withClass {}) Registry.base

/-- A program has registered the library or nothing, and shares the one registry that there is for the
default settings. -/
inductive Lawful : Program → Prop where
  | fresh : Lawful {}
  | ready : Lawful { types := ClassKey.libraryTypes }
  | shares : Lawful { types := ClassKey.libraryTypes, shared := some standard }

variable {p : Program} {s : ConversionSettings} {rs rs' : List Request}

theorem registerLibrary_libraryTypes :
    ({ types := ClassKey.libraryTypes } : Program).registerLibrary.types = ClassKey.libraryTypes :=
  rfl

theorem Lawful.registerLibrary (hp : Lawful p) :
    p.registerLibrary = { types := ClassKey.libraryTypes, shared := p.shared } := by
  cases hp with
  | fresh => rfl
  | ready => exact congrArg (Program.mk · none) registerLibrary_libraryTypes
  | shares => exact congrArg (Program.mk · (some standard)) registerLibrary_libraryTypes

/-- The default settings mean the same to all programs. -/
theorem Lawful.ofSettings_default (hp : Lawful p) :
    Registry.ofSettings p.types.lookup {} {} = .ok standard := by
  cases hp <;> rfl

/-- **A registry** is made with the table that there is; then the library is registered. -/
theorem Lawful.registryFor_eq (hp : Lawful p) (s : ConversionSettings) :
    p.registryFor s = (Registry.ofSettings p.types.lookup {} s).map fun r =>
      (r, { types := ClassKey.libraryTypes, shared := if isShared s then some standard else p.shared }) := by
  rw [registryFor]
  split
  · next hs =>
    obtain rfl : s = {} := of_decide_eq_true hs
    rw [hp.ofSettings_default]
    cases hp <;> rfl
  · rw [build, hp.registerLibrary]
    cases Registry.ofSettings p.types.lookup {} s <;> rfl

theorem Lawful.outcome_eq (hp : Lawful p) (s : ConversionSettings) :
    p.outcome s = Registry.ofSettings p.types.lookup {} s := by
  rw [outcome, hp.registryFor_eq]
  cases Registry.ofSettings p.types.lookup {} s <;> rfl

theorem answer_eq (p : Program) (r : Request) : p.answer r = p.registryFor r.settings := by
  cases r <;> rfl

/-- The table knows all dynamic types. -/
theorem isOk_outcome_iff (hp : Lawful p) :
    (∃ r, p.outcome s = .ok r) ↔ ∀ name ∈ s.dynamicTypes, (p.types.lookup name).isSome := by
  rw [hp.outcome_eq, Registry.ofSettings_eq, ConversionSettings.dynamicIds_eq]
  cases hf : s.dynamicTypes.find? fun name => (p.types.lookup name).isNone with
  | none =>
    refine iff_of_true ⟨_, rfl⟩ fun name hn => ?_
    have hn := List.find?_eq_none.1 hf name hn
    rwa [Bool.not_eq_true, Option.isNone_eq_false_iff] at hn
  | some name =>
    refine iff_of_false nofun fun h => ?_
    have hn := h name (List.mem_of_find?_eq_some hf)
    have hnone := List.find?_some hf
    rw [Option.isNone_iff_eq_none.1 hnone] at hn
    cases hn

/-- A request that succeeds registers the library, and one that fails changes nothing. -/
theorem Lawful.asked (hp : Lawful p) (r : Request) : Lawful (p.asked r) ∧
    ((∃ reg, p.outcome r.settings = .ok reg) → (p.asked r).types = ClassKey.libraryTypes) ∧
    (¬ (∃ reg, p.outcome r.settings = .ok reg) → (p.asked r).types = p.types) := by
  rw [Program.asked, answer_eq, hp.outcome_eq, hp.registryFor_eq]
  cases Registry.ofSettings p.types.lookup {} r.settings with
  | error e => exact ⟨hp, fun ⟨_, h⟩ => (nomatch h), fun _ => rfl⟩
  | ok reg =>
    refine ⟨?_, fun _ => rfl, fun h => absurd ⟨reg, rfl⟩ h⟩
    change Lawful { types := _, shared := ite _ _ _ }
    split
    · exact .shares
    · cases hp with
      | fresh | ready => exact .ready
      | shares => exact .shares

theorem past_append (rs : List Request) (r : Request) : past (rs ++ [r]) = (past rs).asked r :=
  List.foldl_append

/-- What a program knows after what it was asked for: nothing, unless a registry was among that whose
dynamic types are all built in. -/
theorem lawful_past (rs : List Request) : Lawful (past rs) ∧
    (past rs).types = if ∃ r ∈ rs, r.settings.Plain then ClassKey.libraryTypes else {} := by
  induction rs using List.reverseRecOn with
  | nil => exact ⟨.fresh, rfl⟩
  | append_singleton rs r ih =>
    obtain ⟨hp, ht⟩ := ih
    obtain ⟨hp', hok, herror⟩ := hp.asked r
    rw [isOk_outcome_iff hp, ht] at hok herror
    rw [past_append]
    refine ⟨hp', ?_⟩
    by_cases hbefore : ∃ r ∈ rs, r.settings.Plain
    · rw [if_pos hbefore] at herror ht hok
      obtain ⟨r', hm, hr'⟩ := hbefore
      rw [if_pos ⟨r', List.mem_append_left _ hm, hr'⟩]
      exact (Decidable.em _).elim hok herror
    · rw [if_neg hbefore] at herror ht hok
      have hknown : (∀ name ∈ r.settings.dynamicTypes,
          (({} : TypeTable ClassKey).lookup name).isSome) ↔ r.settings.Plain :=
        forall₂_congr fun name _ => TypeTable.isSome_lookup.trans (or_iff_left List.not_mem_nil)
      rw [hknown] at hok herror
      by_cases hr : r.settings.Plain
      · rw [if_pos ⟨r, List.mem_append_right _ (List.mem_singleton_self r), hr⟩]
        exact hok hr
      · rw [if_neg, herror hr]
        rintro ⟨r', hm, hr'⟩
        obtain hm | hm := List.mem_append.1 hm
        · exact hbefore ⟨r', hm, hr'⟩
        · exact hr (List.mem_singleton.1 hm ▸ hr')

/-! ## Outcomes -/

/-- The first dynamic type that is not built in, if there is one, is not of the library either. -/
def Settled (s : ConversionSettings) : Prop :=
  ∀ name, s.dynamicTypes.find? (fun name => !TypeId.isBuiltinName name) = some name →
    name ∉ ClassKey.libraryNames

theorem isNone_lookup_empty (name : String) :
    (({} : TypeTable ClassKey).lookup name).isNone = !TypeId.isBuiltinName name := by
  have h : (({} : TypeTable ClassKey).lookup name).isSome ↔ TypeId.isBuiltinName name :=
    TypeTable.isSome_lookup.trans (or_iff_left List.not_mem_nil)
  rw [← Option.not_isSome, Bool.eq_iff_iff.2 h]

theorem isSome_lookup_libraryTypes {name : String} : (ClassKey.libraryTypes.lookup name).isSome ↔
    TypeId.isBuiltinName name ∨ name ∈ ClassKey.libraryNames :=
  TypeTable.isSome_lookup

/-- With the library registered, a name is reported that is neither built in nor of the library. -/
theorem find?_libraryTypes_ne {names : List String} {name : String} (hn : name ∈ ClassKey.libraryNames) :
    names.find? (fun name => (ClassKey.libraryTypes.lookup name).isNone) ≠ some name := by
  intro hl
  have hnone := List.find?_some hl
  rw [← Option.not_isSome, isSome_lookup_libraryTypes.2 (.inr hn)] at hnone
  cases hnone

theorem find?_libraryTypes {names : List String} {name : String}
    (hf : names.find? (fun name => !TypeId.isBuiltinName name) = some name)
    (hn : name ∉ ClassKey.libraryNames) :
    names.find? (fun name => (ClassKey.libraryTypes.lookup name).isNone) = some name := by
  obtain ⟨hname, before, after, hs, hbefore⟩ := List.find?_eq_some_iff_append.1 hf
  refine List.find?_eq_some_iff_append.2 ⟨?_, before, after, hs, fun other hm => ?_⟩
  · rw [← Option.not_isSome, Bool.not_eq_true']
    refine Bool.eq_false_iff.2 fun h => ?_
    obtain h | h := isSome_lookup_libraryTypes.1 h
    · rw [h] at hname
      cases hname
    · exact hn h
  · have hb : TypeId.isBuiltinName other := by simpa using hbefore other hm
    rw [← Option.not_isSome, (TypeTable.lookup_of_builtin hb).2]
    rfl

/-- All tables give built-in types the same ids. -/
theorem dynamicIds_of_plain (hs : s.Plain) (t t' : TypeTable ClassKey) :
    s.dynamicIds t.lookup = s.dynamicIds t'.lookup := by
  have hfind (t : TypeTable ClassKey) :
      s.dynamicTypes.find? (fun name => (t.lookup name).isNone) = none :=
    List.find?_eq_none.2 fun name hm => by
      rw [← Option.not_isSome, (TypeTable.lookup_of_builtin (hs name hm)).2]
      exact Bool.false_ne_true
  have hids : s.dynamicTypes.filterMap t.lookup = s.dynamicTypes.filterMap t'.lookup :=
    List.filterMap_congr fun name hm => (TypeTable.lookup_of_builtin (hs name hm)).1.trans
      (TypeTable.lookup_of_builtin (hs name hm)).1.symm
  rw [ConversionSettings.dynamicIds_eq, ConversionSettings.dynamicIds_eq, hfind, hfind, hids]

/-- Which settings mean the same whether or not the library is registered. -/
theorem ofSettings_eq_iff : Registry.ofSettings ({} : TypeTable ClassKey).lookup {} s =
    Registry.ofSettings ClassKey.libraryTypes.lookup {} s ↔ Settled s := by
  cases hf : s.dynamicTypes.find? fun name => !TypeId.isBuiltinName name with
  | none =>
    have hs : s.Plain := fun name hm => by simpa using List.find?_eq_none.1 hf name hm
    refine iff_of_true ?_ fun name he => nomatch hf.symm.trans he
    rw [Registry.ofSettings_eq, Registry.ofSettings_eq, dynamicIds_of_plain hs]
  | some name =>
    simp only [Registry.ofSettings_eq, ConversionSettings.dynamicIds_eq, isNone_lookup_empty, hf]
    by_cases hn : name ∈ ClassKey.libraryNames
    · refine iff_of_false (fun he => ?_) fun h => h name hf hn
      have hne : s.dynamicTypes.find? _ ≠ some name := find?_libraryTypes_ne hn
      split at he
      · next other hl =>
        cases he
        exact hne hl
      · cases he
    · rw [find?_libraryTypes hf hn]
      exact iff_of_true rfl fun other he => Option.some.inj (hf.symm.trans he) ▸ hn

/-- **What a program makes of settings** depends on what it was asked for before only in so far as the
library is registered once a registry was among that whose dynamic types are all built in.  It makes
a difference to settings whose first dynamic type that is not built in is a class of the library. -/
theorem outcome_of_past (rs rs' : List Request) (s : ConversionSettings) :
    (past rs).outcome s = Registry.ofSettings
      (if ∃ r ∈ rs, r.settings.Plain then ClassKey.libraryTypes else {}).lookup {} s ∧
    ((past rs).outcome s = (past rs').outcome s ↔
      ((∃ r ∈ rs, r.settings.Plain) ↔ ∃ r ∈ rs', r.settings.Plain) ∨ Settled s) := by
  have houtcome (rs : List Request) : (past rs).outcome s = Registry.ofSettings
      (if ∃ r ∈ rs, r.settings.Plain then ClassKey.libraryTypes else {}).lookup {} s := by
    obtain ⟨hp, ht⟩ := lawful_past rs
    rw [hp.outcome_eq, ht]
  refine ⟨houtcome rs, ?_⟩
  rw [houtcome rs, houtcome rs']
  by_cases h : ∃ r ∈ rs, r.settings.Plain
  · by_cases h' : ∃ r ∈ rs', r.settings.Plain
    · exact iff_of_true (by rw [if_pos h, if_pos h']) (.inl (iff_of_true h h'))
    · rw [if_pos h, if_neg h', eq_comm, ofSettings_eq_iff]
      exact (or_iff_right fun hi => h' (hi.1 h)).symm
  · by_cases h' : ∃ r ∈ rs', r.settings.Plain
    · rw [if_neg h, if_pos h', ofSettings_eq_iff]
      exact (or_iff_right fun hi => h (hi.2 h')).symm
    · exact iff_of_true (by rw [if_neg h, if_neg h']) (.inl (iff_of_false h h'))

/-- A class of the library is refused as a dynamic type by a program that was asked for nothing yet, and
accepted by one that has built the default registry. -/
theorem outcome_of_matrix :
    (past []).outcome { dynamicTypes := ["Matrix"] } = .error (.unknownType "Matrix") ∧
      (past [.default]).outcome { dynamicTypes := ["Matrix"] } =
        .ok { standard with dynamicTypes := [ClassKey.matrix.typeId] } :=
  ⟨rfl, rfl⟩

end Program

end Isthmus
