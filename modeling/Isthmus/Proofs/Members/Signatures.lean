import Isthmus.Proofs.Members.Channels
import Isthmus.Proofs.Type.Registrations

/-!
# Proofs/Members/Signatures — a signature stands for a name and a list of types

A signature is read from its end: the last opening parenthesis is where the name ends, whatever the name has
in it, and the commas after it part the types.  For this the names of the types must be distinct and not
empty, and have neither of the two characters in them (`TypeId.Apart`).  Types that are built in, or not
registered, have such names.

* `MethodDescriptor.signature_eq_iff` — a signature gives back the name and the types.
* `TypeTable.apart` — types that no table has an entry for.
* `TypeDescriptor.overloads` — so a channel is found by its signature, and overloads are channels of their own.
-/

namespace Isthmus

/-! ## Texts that are joined -/

section

variable {α : Type} {a b : α} {l l' m m' : List α} {parts parts' : List (List α)}

/-- The last place of an element parts a list in one way only. -/
theorem append_cons_inj_of_last (hm : a ∉ m) (hm' : a ∉ m') (h : l ++ a :: m = l' ++ a :: m') :
    l = l' ∧ m = m' := by
  rcases List.append_eq_append_iff.1 h with ⟨between, rfl, hrest⟩ | ⟨between, rfl, hrest⟩
  · cases between with
    | nil => exact ⟨(List.append_nil l).symm, (List.cons.inj hrest).2⟩
    | cons x between =>
      refine absurd ?_ hm
      rw [(List.cons.inj hrest).2]
      exact List.mem_append_right _ List.mem_cons_self
  · cases between with
    | nil => exact ⟨List.append_nil l', (List.cons.inj hrest).2.symm⟩
    | cons x between =>
      refine absurd ?_ hm'
      rw [(List.cons.inj hrest).2]
      exact List.mem_append_right _ List.mem_cons_self

theorem mem_of_mem_intercalate (h : b ∈ [a].intercalate parts) : b = a ∨ ∃ part ∈ parts, b ∈ part := by
  induction parts with
  | nil => cases h
  | cons part parts ih =>
    cases parts with
    | nil => exact .inr ⟨part, List.mem_cons_self, by rwa [List.intercalate_singleton] at h⟩
    | cons part' parts =>
      rw [List.intercalate_cons_cons, List.mem_append, List.mem_append] at h
      rcases h with (h | h) | h
      · exact .inr ⟨part, List.mem_cons_self, h⟩
      · exact .inl (List.mem_singleton.1 h)
      · exact (ih h).imp id fun ⟨p, hp, hb⟩ => ⟨p, List.mem_cons_of_mem _ hp, hb⟩

/-- Parts that are not empty, and do not have the separator in them, can be read back. -/
theorem intercalate_inj [DecidableEq α] (hp : ∀ part ∈ parts, part ≠ [] ∧ a ∉ part)
    (hp' : ∀ part ∈ parts', part ≠ [] ∧ a ∉ part)
    (h : [a].intercalate parts = [a].intercalate parts') : parts = parts' := by
  -- Split at the separator, no parts at all are one empty part.
  have hsplit {parts : List (List α)} (hp : ∀ part ∈ parts, part ≠ [] ∧ a ∉ part) :
      ([a].intercalate parts).splitOn a = if parts = [] then [[]] else parts := by
    split
    · next hnil => rw [hnil]; rfl
    · next hne => exact List.splitOn_intercalate a (fun part hpart => (hp part hpart).2) hne
  have heq := (hsplit hp).symm.trans ((congrArg (·.splitOn a) h).trans (hsplit hp'))
  split at heq <;> split at heq
  · next hnil hnil' => rw [hnil, hnil']
  · exact absurd rfl (hp' [] (heq ▸ List.mem_singleton_self [])).1
  · exact absurd rfl (hp [] (heq ▸ List.mem_singleton_self [])).1
  · exact heq

end

/-! ## Signatures -/

/-- **The names of some types tell them apart**, also in a list: they are distinct and not empty, and have
neither an opening parenthesis nor a comma in them. -/
structure TypeId.Apart (nameOf : TypeId → String) (ids : List TypeId) : Prop where
  nonempty : ∀ id ∈ ids, nameOf id ≠ ""
  plain : ∀ id ∈ ids, '(' ∉ (nameOf id).toList ∧ ',' ∉ (nameOf id).toList
  injective : ∀ id ∈ ids, ∀ id' ∈ ids, nameOf id = nameOf id' → id = id'

variable {nameOf : TypeId → String} {ids ids' : List TypeId}

namespace TypeId.Apart

theorem mono (h : Apart nameOf ids) (hsub : ids' ⊆ ids) : Apart nameOf ids' where
  nonempty id hid := h.nonempty id (hsub hid)
  plain id hid := h.plain id (hsub hid)
  injective id hid id' hid' := h.injective id (hsub hid) id' (hsub hid')

theorem parts (h : Apart nameOf ids) :
    ∀ part ∈ ids.map fun id => (nameOf id).toList, part ≠ [] ∧ ',' ∉ part := by
  intro part hpart
  obtain ⟨id, hid, rfl⟩ := List.mem_map.1 hpart
  exact ⟨fun hnil => h.nonempty id hid (String.toList_eq_nil_iff.1 hnil), (h.plain id hid).2⟩

/-- Lists of such types are told apart by the lists of their names. -/
theorem map_inj (h : Apart nameOf (ids ++ ids'))
    (heq : (ids.map fun id => (nameOf id).toList) = ids'.map fun id => (nameOf id).toList) :
    ids = ids' := by
  induction ids generalizing ids' with
  | nil => exact (List.map_eq_nil_iff.1 heq.symm).symm
  | cons id ids ih =>
    obtain ⟨id', rest, rfl, hid, hrest⟩ := List.map_eq_cons_iff.1 heq.symm
    have hhead : id = id' := h.injective id List.mem_cons_self id'
      (List.mem_append_right _ List.mem_cons_self) (String.toList_inj.1 hid.symm)
    have htail : Apart nameOf (ids ++ rest) := h.mono fun i hi => by
      rcases List.mem_append.1 hi with hi | hi
      · exact List.mem_append_left _ (List.mem_cons_of_mem _ hi)
      · exact List.mem_append_right _ (List.mem_cons_of_mem _ hi)
    rw [hhead, ih htail hrest.symm]

end TypeId.Apart

namespace MethodDescriptor

variable {d d' : MethodDescriptor}

/-- The text of the types in a signature. -/
def types (nameOf : TypeId → String) (d : MethodDescriptor) : List Char :=
  [','].intercalate (d.parameters.map fun id => (nameOf id).toList)

theorem toList_signature : (d.signature nameOf).toList = d.name.toList ++ '(' :: (d.types nameOf ++ [')']) := by
  simp only [signature, types, String.toList_append, String.toList_intercalate, List.map_map,
    Function.comp_def, List.append_assoc]
  rfl

theorem notMem_types (h : TypeId.Apart nameOf d.parameters) : '(' ∉ d.types nameOf ++ [')'] := by
  intro hmem
  rcases List.mem_append.1 hmem with hmem | hmem
  · rcases mem_of_mem_intercalate hmem with hmem | ⟨part, hpart, hmem⟩
    · cases hmem
    · obtain ⟨id, hid, rfl⟩ := List.mem_map.1 hpart
      exact (h.plain id hid).1 hmem
  · cases List.mem_singleton.1 hmem

/-- **A signature gives back the name and the types.** -/
theorem signature_eq_iff (h : TypeId.Apart nameOf (d.parameters ++ d'.parameters)) :
    d.signature nameOf = d'.signature nameOf ↔ d.name = d'.name ∧ d.parameters = d'.parameters := by
  have hleft := h.mono (List.subset_append_left d.parameters d'.parameters)
  have hright := h.mono (List.subset_append_right d.parameters d'.parameters)
  constructor
  · intro heq
    have hlist : (d.signature nameOf).toList = (d'.signature nameOf).toList := congrArg _ heq
    rw [toList_signature, toList_signature] at hlist
    obtain ⟨hname, htypes⟩ :=
      append_cons_inj_of_last (notMem_types hleft) (notMem_types hright) hlist
    have hparts := intercalate_inj hleft.parts hright.parts (List.append_cancel_right htypes)
    exact ⟨String.toList_inj.1 hname, h.map_inj hparts⟩
  · rintro ⟨hname, hparameters⟩
    rw [signature, signature, hname, hparameters]

end MethodDescriptor

/-! ## Types without an entry -/

namespace TypeTable

variable {τ : Type} {t : TypeTable τ} {id : TypeId}

/-- A type without an entry is built in, or is named by its number. -/
theorem name_of_typeAt_none (h : t.typeAt id = none) :
    (id, t.name id) ∈ TypeId.builtins ∨ t.name id = "#" ++ toString id.raw := by
  rw [name]
  split
  · next id' name hfind =>
    have hid := List.find?_some hfind
    rw [decide_eq_true_eq] at hid
    exact .inl (hid ▸ List.mem_of_find?_eq_some hfind)
  · rw [typeAt] at h
    split at h
    · next hraw => rw [if_pos hraw, Option.map_eq_none_iff.1 h]; exact .inr rfl
    · next hraw => rw [if_neg hraw]; exact .inr rfl

theorem toList_numbered (n : Nat) : ("#" ++ toString n).toList = '#' :: Nat.toDigits 10 n := by
  rw [String.toList_append, Nat.toString_eq_repr, Nat.toList_repr]
  rfl

theorem notMem_numbered {c : Char} (hc : c ≠ '#') (hd : c.isDigit = false) (n : Nat) :
    c ∉ ("#" ++ toString n).toList := by
  rw [toList_numbered]
  intro h
  rcases List.mem_cons.1 h with h | h
  · exact hc h
  · rw [Nat.isDigit_of_mem_toDigits (by decide) (Nat.le_refl 10) h] at hd
    cases hd

theorem numbered_inj {n n' : Nat} (h : "#" ++ toString n = "#" ++ toString n') : n = n' := by
  have hlist := congrArg String.toList h
  rw [toList_numbered, toList_numbered] at hlist
  calc n = Nat.ofDigitChars 10 (Nat.toDigits 10 n) 0 :=
        (Nat.ofDigitChars_toDigits (by decide) (Nat.le_refl 10)).symm
    _ = Nat.ofDigitChars 10 (Nat.toDigits 10 n') 0 := by rw [(List.cons.inj hlist).2]
    _ = n' := Nat.ofDigitChars_toDigits (by decide) (Nat.le_refl 10)

/-- The names of the types that are built in. -/
theorem builtin_names : ∀ e ∈ TypeId.builtins, e.2 ≠ "" ∧ '(' ∉ e.2.toList ∧ ',' ∉ e.2.toList ∧
    '#' ∉ e.2.toList ∧ ∀ e' ∈ TypeId.builtins, e.2 = e'.2 → e.1 = e'.1 := by
  decide

/-- **The names of types without an entry tell them apart**: of the types that are built in, and of those that
are not registered. -/
theorem apart (h : ∀ id ∈ ids, t.typeAt id = none) : TypeId.Apart t.name ids where
  nonempty id hid := by
    rcases name_of_typeAt_none (h id hid) with hb | hn
    · exact (builtin_names _ hb).1
    · rw [hn, ← String.toList_inj.ne, toList_numbered]
      exact List.cons_ne_nil _ _
  plain id hid := by
    rcases name_of_typeAt_none (h id hid) with hb | hn
    · obtain ⟨-, hparen, hcomma, -⟩ := builtin_names _ hb
      exact ⟨hparen, hcomma⟩
    · rw [hn]
      exact ⟨notMem_numbered (by decide) (by decide) _, notMem_numbered (by decide) (by decide) _⟩
  injective id hid id' hid' heq := by
    -- The names of built-in types have no hash sign in them.
    have hhash (n : Nat) : '#' ∈ ("#" ++ toString n).toList := by
      rw [toList_numbered]
      exact List.mem_cons_self
    rcases name_of_typeAt_none (h id hid) with hb | hn <;>
      rcases name_of_typeAt_none (h id' hid') with hb' | hn'
    · exact (builtin_names _ hb).2.2.2.2 _ hb' heq
    · rw [heq, hn'] at hb
      exact absurd (hhash _) (builtin_names _ hb).2.2.2.1
    · rw [← heq, hn] at hb'
      exact absurd (hhash _) (builtin_names _ hb').2.2.2.1
    · rw [hn, hn'] at heq
      exact congrArg TypeId.mk (numbered_inj heq)

end TypeTable

/-! ## Channels -/

namespace TypeDescriptor

variable {d : TypeDescriptor} {k index : Nat} {m : MethodDescriptor}

/-- The types of the parameters of all events. -/
def eventTypes (d : TypeDescriptor) : List TypeId :=
  d.events.flatMap (·.2.parameters)

theorem findIdx?_congr {α : Type} {p q : α → Bool} {l : List α} (h : ∀ a ∈ l, p a = q a) :
    l.findIdx? p = l.findIdx? q := by
  induction l with
  | nil => rfl
  | cons a l ih =>
    rw [List.findIdx?_cons, List.findIdx?_cons, h a List.mem_cons_self,
      ih fun a' ha' => h a' (List.mem_cons_of_mem _ ha')]

/-- **The signature of an event finds the first event of its name with its types.** -/
theorem findIdx?_channels (h : TypeId.Apart nameOf d.eventTypes) (hk : d.events[k]? = some (index, m)) :
    (d.channels nameOf).findIdx? (· = m.signature nameOf) =
      d.events.findIdx? fun e => e.2.name = m.name ∧ e.2.parameters = m.parameters := by
  have hsub {e : Nat × MethodDescriptor} (he : e ∈ d.events) : e.2.parameters ⊆ d.eventTypes :=
    fun id hid => List.mem_flatMap.2 ⟨e, he, hid⟩
  rw [channels, List.findIdx?_map]
  exact findIdx?_congr fun e he => decide_eq_decide.2 (MethodDescriptor.signature_eq_iff
    (h.mono (List.append_subset.2 ⟨hsub he, hsub (List.mem_of_getElem? hk)⟩)))

/-- An event is found at its own place if no event before it has its name and its types. -/
theorem findIdx?_channels_self (h : TypeId.Apart nameOf d.eventTypes)
    (hk : d.events[k]? = some (index, m))
    (hfirst : ∀ k' < k, ∀ e, d.events[k']? = some e → e.2.name = m.name →
      e.2.parameters ≠ m.parameters) :
    (d.channels nameOf).findIdx? (· = m.signature nameOf) = some k := by
  obtain ⟨hlt, hat⟩ := List.getElem?_eq_some_iff.1 hk
  rw [findIdx?_channels h hk, List.findIdx?_eq_some_iff_getElem]
  refine ⟨hlt, by rw [hat]; exact decide_eq_true ⟨rfl, rfl⟩, fun k' hk' heq => ?_⟩
  obtain ⟨hname, hparameters⟩ := of_decide_eq_true heq
  exact hfirst k' hk' _ (List.getElem?_eq_getElem _) hname hparameters

end TypeDescriptor

/-- A function that is subscribed to the signature of an event takes the place of this event. -/
theorem Channels.Covers.run_subscribe {w : World} {cx : ContextId} {ch : ChannelsId} {c : Channels}
    {d : TypeDescriptor} {k index : Nat} {m : MethodDescriptor} {f : ForeignValue} {home : InstallationId}
    {i : Installation} (hcovers : c.Covers d) (hc : w.channels? ch = some c)
    (h : TypeId.Apart ClassKey.typeName d.eventTypes) (hk : d.events[k]? = some (index, m))
    (hfirst : ∀ k' < k, ∀ e, d.events[k']? = some e → e.2.name = m.name →
      e.2.parameters ≠ m.parameters)
    (hf : w.isFunction f = true) (hb : w.bridge? cx = some (home, i)) :
    (Engine.subscribe cx ch (m.signature ClassKey.typeName) (some f)).run w =
      .ok (.ok ()) (w.subscribing ch k home i.nextSlot (some f)) := by
  refine Engine.run_subscribe hc ?_ hf hb
  rw [hcovers.signatures, ← TypeDescriptor.channels_eq_signatures]
  exact TypeDescriptor.findIdx?_channels_self h hk hfirst

/-! ## The law -/

/-- **Signatures stand for names and lists of types**, and channels for signatures:

* two events whose types have names that tell them apart have one signature if and only if they have one name
  and the same types;
* the types that are built in, and those that are not registered, have such names in every table;
* the search for the signature of an event ends at its own channel, if it is the first event of its name with
  its types, and so every overload is a channel of its own;
* a subscription goes by this search. -/
theorem MethodDescriptor.signatures_identify :
    (∀ nameOf (m m' : MethodDescriptor), TypeId.Apart nameOf (m.parameters ++ m'.parameters) →
      (m.signature nameOf = m'.signature nameOf ↔ m.name = m'.name ∧ m.parameters = m'.parameters)) ∧
    (∀ (τ : Type) (t : TypeTable τ) (ids : List TypeId), (∀ id ∈ ids, t.typeAt id = none) →
      TypeId.Apart t.name ids) ∧
    (∀ nameOf (d : TypeDescriptor), TypeId.Apart nameOf d.eventTypes →
      ∀ k index m, d.events[k]? = some (index, m) →
        (∀ k' < k, ∀ e, d.events[k']? = some e → e.2.name = m.name → e.2.parameters ≠ m.parameters) →
        (d.channels nameOf).findIdx? (· = m.signature nameOf) = some k) ∧
    (∀ (w : World) cx ch c (d : TypeDescriptor), w.channels? ch = some c → c.Covers d →
      TypeId.Apart ClassKey.typeName d.eventTypes → ∀ k index m, d.events[k]? = some (index, m) →
        (∀ k' < k, ∀ e, d.events[k']? = some e → e.2.name = m.name → e.2.parameters ≠ m.parameters) →
        ∀ f home i, w.isFunction f = true → w.bridge? cx = some (home, i) →
          (Engine.subscribe cx ch (m.signature ClassKey.typeName) (some f)).run w =
            .ok (.ok ()) (w.subscribing ch k home i.nextSlot (some f))) :=
  ⟨fun _ _ _ h => signature_eq_iff h, fun _ _ _ h => TypeTable.apart h,
    fun _ _ h _ _ _ hk hfirst => TypeDescriptor.findIdx?_channels_self h hk hfirst,
    fun _ _ _ _ _ hc hcovers h _ _ _ hk hfirst _ _ _ hf hb => hcovers.run_subscribe hc h hk hfirst hf hb⟩

/-- Overloads of one name, and an event whose name looks like the signature of one of them. -/
def overloaded : TypeDescriptor :=
  { name := "Pointer" : TypeDescriptor }
    |>.event "moved(int,int)" []
    |>.event "moved" []
    |>.event "moved" [.int]
    |>.event "moved" [.int, .int]

theorem MethodDescriptor.signatures_identify_overloaded :
    (∀ id ∈ overloaded.eventTypes, ClassKey.types.typeAt id = none) ∧
    overloaded.signatures = ["moved(int,int)()", "moved()", "moved(int)", "moved(int,int)"] ∧
    (overloaded.channels ClassKey.typeName).findIdx? (· = "moved(int,int)") = some 3 := by
  have hnone : ∀ id ∈ overloaded.eventTypes, ClassKey.types.typeAt id = none := by decide
  obtain ⟨-, hapart, hfound, -⟩ := signatures_identify
  have h : TypeId.Apart ClassKey.typeName overloaded.eventTypes := hapart _ _ _ hnone
  have hfirst : ∀ k < 3, ∀ e, overloaded.events[k]? = some e → e.2.name = "moved" →
      e.2.parameters ≠ [.int, .int] := by decide
  exact ⟨hnone, by decide, hfound _ _ h 3 3 ⟨"moved", [.int, .int], .void, false, .event⟩ rfl hfirst⟩

end Isthmus
