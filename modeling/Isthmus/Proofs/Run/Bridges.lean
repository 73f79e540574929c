import Isthmus.Proofs.Run.Effects
import Mathlib.Data.List.Nodup

/-!
# Proofs/Run/Bridges — the installation of a context

* `Reachable.bridged` — the installation that a context carries is there, and it is the one that was
  installed.
* `Reachable.slotted` — slots of an installation are given out once.

A context that was given something to carry exactly once (`bindings`) has had one installation, and keeps
it.
-/

namespace Isthmus

open History

/-! ## Owners -/

namespace World

variable {w : World} {r : Ref}

theorem mem_references_of_context {cx c} (h : w.context? cx = some c) (hr : r ∈ c.refs) :
    r ∈ w.references := by
  have hc : c ∈ w.contexts.values := Store.mem_values.2 ⟨_, h⟩
  have : r ∈ w.contexts.values.flatMap Context.refs := List.mem_flatMap.2 ⟨c, hc, hr⟩
  simp only [references, List.mem_append, this, true_or, or_true]

theorem mem_references_of_installation {id i} (h : w.installation? id = some i) (hr : r ∈ i.refs) :
    r ∈ w.references := by
  have hi : i ∈ w.installations.values := Store.mem_values.2 ⟨_, h⟩
  have : r ∈ w.installations.values.flatMap Installation.refs := List.mem_flatMap.2 ⟨i, hi, hr⟩
  simp only [references, List.mem_append, this, true_or, or_true]

/-- A context keeps its installation. -/
theorem mem_references_of_data? {cx id} (h : w.data? cx = some (.bridge id)) :
    .installation id ∈ w.references := by
  obtain ⟨c, hc, hd⟩ := Option.bind_eq_some_iff.1 h
  refine mem_references_of_context hc ?_
  rw [Context.refs, hd]
  exact List.mem_append_left _ (List.mem_singleton_self _)

/-- An installation keeps the promises that wait. -/
theorem mem_references_of_resolver {id i e} (h : w.installation? id = some i)
    (he : e ∈ i.resolvers) : .object e.2 ∈ w.references := by
  refine mem_references_of_installation h ?_
  rw [Installation.refs]
  exact List.mem_append_left _ (List.mem_append_right _ (List.mem_map_of_mem he))

end World

/-! ## One binding, one installation -/

namespace History

theorem bindings_le_cons (cx : ContextId) (o : Occurrence) (h : List Occurrence) :
    bindings cx h ≤ bindings cx (o :: h) := by
  cases o with
  | installed c id registry => exact Nat.le_add_right ..
  | unbound c => exact Nat.le_add_right ..
  | _ => exact Nat.le_refl _

theorem bindings_le {cx : ContextId} {h h' : List Occurrence} (hs : h <:+ h') :
    bindings cx h ≤ bindings cx h' := by
  obtain ⟨new, rfl⟩ := hs
  induction new with
  | nil => exact Nat.le_refl _
  | cons o new ih => exact Nat.le_trans ih (bindings_le_cons cx o _)

theorem bindings_pos {cx : ContextId} {id registry} {h : List Occurrence}
    (hi : .installed cx id registry ∈ h) : 0 < bindings cx h := by
  obtain ⟨newer, older, rfl⟩ := List.append_of_mem hi
  refine Nat.lt_of_lt_of_le ?_ (bindings_le (List.suffix_append newer _))
  rw [bindings, if_pos rfl]
  exact Nat.succ_pos _

/-- **A context that was given one thing to carry has had at most one installation.** -/
theorem installed_unique {cx : ContextId} {h : List Occurrence} (hb : bindings cx h = 1)
    {id id' : InstallationId} {registry registry' : Registry}
    (hi : .installed cx id registry ∈ h) (hi' : .installed cx id' registry' ∈ h) :
    id = id' ∧ registry = registry' := by
  have hone {h id registry} (hb : bindings cx (.installed cx id registry :: h) = 1) {id' registry'} :
      .installed cx id' registry' ∉ h := fun hm => by
    have := bindings_pos hm
    rw [bindings, if_pos rfl] at hb
    omega
  induction h with
  | nil => cases hi
  | cons o h ih =>
    obtain rfl | hm := List.mem_cons.1 hi
    · obtain he | hm' := List.mem_cons.1 hi'
      · cases he
        exact ⟨rfl, rfl⟩
      · exact absurd hm' (hone hb)
    · obtain rfl | hm' := List.mem_cons.1 hi'
      · exact absurd hm (hone hb)
      · have := bindings_pos hm
        have := bindings_le_cons cx o h
        exact ih (by omega) hm hm'

end History

/-! ## The bridge of a context -/

/-- Contexts and installations are as the history tells. -/
structure Bridged (w : World) : Prop where
  installed : ∀ {cx id}, w.data? cx = some (.bridge id) →
    ∃ i, w.installation? id = some i ∧ .installed cx id i.registry ∈ w.history
  current : ∀ {cx id registry}, .installed cx id registry ∈ w.history →
    bindings cx w.history = 1 → w.data? cx = some (.bridge id)
  fresh : ∀ {cx id registry}, .installed cx id registry ∈ w.history →
    id.index < w.installations.next
  once : ∀ {cx cx' id registry registry'}, .installed cx id registry ∈ w.history →
    .installed cx' id registry' ∈ w.history → cx = cx'

theorem Alters.nextSlot_le {w w' : World} {id i i'} (h : Alters w w' id i i') :
    i.nextSlot ≤ i'.nextSlot := by
  cases h with
  | subscribed f h => exact Nat.le_succ _
  | parked hb h => exact Nat.le_succ _
  | _ => exact Nat.le_refl _

theorem Alters.registry_eq {w w' : World} {id i i'} (h : Alters w w' id i i') :
    i'.registry = i.registry := by
  cases h with
  | _ => rfl

/-- Only installing makes an installation. -/
theorem Move.installed {w w' : World} (hm : Move w w') {cx id registry}
    (h : .installed cx id registry ∈ w'.history) : .installed cx id registry ∈ w.history ∨
      (w.context? cx).isSome ∧ id = ⟨w.installations.next⟩ ∧ w' = w.install cx registry := by
  obtain h | h := hm.arises h
  · exact .inl h
  · cases h with
    | installed hc hw => exact .inr ⟨hc, rfl, hw⟩

theorem Move.installed_old {w w' : World} (hm : Move w w') (hn : World.InstallsNothing w w')
    {cx id registry} (h : .installed cx id registry ∈ w'.history) :
    .installed cx id registry ∈ w.history := by
  obtain h | ⟨-, -, rfl⟩ := hm.installed h
  · exact h
  · exact absurd hn.next_eq (Nat.succ_ne_self _)

theorem Move.installation_old {w w' : World} (hm : Move w w') (hn : World.InstallsNothing w w')
    {id i'} (hi' : w'.installation? id = some i') :
    ∃ i, w.installation? id = some i ∧ Alters w w' id i i' := by
  obtain ⟨i, hi⟩ := Option.isSome_iff_exists.1 (hn.isSome id (by rw [hi']; rfl))
  exact ⟨i, hi, hm.alters hi hi'⟩

/-- What has been there since a context got the one thing that it carries. -/
theorem Move.bindings_eq_one {w w' : World} (hm : Move w w') {cx : ContextId}
    (hpos : 0 < bindings cx w.history) (h1 : bindings cx w'.history = 1) :
    bindings cx w.history = 1 := by
  have hle : bindings cx w.history ≤ bindings cx w'.history := bindings_le hm.history
  omega

theorem World.data?_install {w : World} {cx : ContextId} (hc : (w.context? cx).isSome)
    (registry : Registry) (c : ContextId) : (w.install cx registry).data? c =
      if c = cx then some (.bridge ⟨w.installations.next⟩) else w.data? c := by
  split
  · next h =>
    subst h
    obtain ⟨context, hc⟩ := Option.isSome_iff_exists.1 hc
    rw [data?, context?, w.install_contexts, Store.get?_modify, if_pos rfl,
      show w.contexts.get? c.index = some context from hc]
    rfl
  · next h => exact data?_modify_of_ne (w.install_contexts cx registry) h

theorem Bridged.install {w : World} (hw : Bridged w) {cx : ContextId} (hc : (w.context? cx).isSome)
    (registry : Registry) : Bridged (w.install cx registry) where
  installed {c id} hd := by
    rw [World.data?_install hc] at hd
    rw [World.installation?, World.install, Store.get?_insert]
    split at hd
    · next h =>
      cases hd
      refine ⟨{ registry }, if_pos rfl, ?_⟩
      rw [h]
      exact List.mem_cons_self ..
    · obtain ⟨i, hi, hm⟩ := hw.installed hd
      rw [if_neg (Nat.ne_of_lt (Store.lt_next_of_get? hi))]
      exact ⟨i, hi, List.mem_cons_of_mem _ hm⟩
  current {c id r} hm hb := by
    rw [World.data?_install hc]
    rw [w.bindings_install] at hb
    obtain he | hm := List.mem_cons.1 hm
    · cases he
      rw [if_pos rfl]
    · have := bindings_pos hm
      rw [if_neg]
      · exact hw.current hm (by omega)
      · rintro rfl
        rw [if_pos rfl] at hb
        omega
  fresh hm := by
    obtain he | hm := List.mem_cons.1 hm
    · cases he
      exact Nat.lt_succ_self _
    · exact Nat.lt_succ_of_lt (hw.fresh hm)
  once hm hm' := by
    obtain he | hm := List.mem_cons.1 hm
    · obtain he' | hm' := List.mem_cons.1 hm'
      · cases he
        cases he'
        rfl
      · cases he
        exact absurd (hw.fresh hm') (Nat.lt_irrefl _)
    · obtain he' | hm' := List.mem_cons.1 hm'
      · cases he'
        exact absurd (hw.fresh hm) (Nat.lt_irrefl _)
      · exact hw.once hm hm'

theorem Bridged.move {w w' : World} (hw : Bridged w) (hm : Move w w')
    (hn : World.InstallsNothing w w') : Bridged w' := by
  have hold {cx id registry} (h : .installed cx id registry ∈ w'.history) :
      .installed cx id registry ∈ w.history := hm.installed_old hn h
  refine ⟨fun {cx id} hd => ?_, fun {cx id registry} h hb => ?_, fun h => ?_,
    fun h h' => hw.once (hold h) (hold h')⟩
  · obtain ⟨hc, -⟩ | ⟨registry, -, rfl⟩ | ⟨-, hno⟩ := hm.data cx
    · rw [hc] at hd
      obtain ⟨i, hi, hmem⟩ := hw.installed hd
      obtain ⟨i', hi', ha⟩ | ⟨hr, -⟩ := hm.installation hi
      · exact ⟨i', hi', hm.history.subset (ha.registry_eq ▸ hmem)⟩
      · exact absurd (World.mem_references_of_data? hd) hr
    · exact absurd hn.next_eq (Nat.succ_ne_self _)
    · exact absurd hd (hno id)
  · have hpos := bindings_pos (hold h)
    obtain ⟨hc, hbc⟩ | ⟨registry, -, rfl⟩ | ⟨hb', -⟩ := hm.data cx
    · rw [hc]
      exact hw.current (hold h) (by omega)
    · exact absurd hn.next_eq (Nat.succ_ne_self _)
    · omega
  · rw [hn.next_eq]
    exact hw.fresh (hold h)

/-- **The bridge of a context is there, and is the one that was installed.** -/
theorem Reachable.bridged {w : World} (h : Reachable w) : Bridged w := by
  refine h.rec' (fun plans => ⟨nofun, nofun, nofun, nofun⟩) fun w w' hr hw hm => ?_
  obtain hn | ⟨cx, registry, hc, rfl⟩ := hm.installs
  · exact hw.move hm hn
  · exact hw.install hc registry

/-- Two contexts do not share an installation. -/
theorem Bridged.data?_ne {w : World} (hw : Bridged w) {cx c : ContextId} {home}
    (hb : w.data? c = some (.bridge home)) (hc : cx ≠ c) : w.data? cx ≠ some (.bridge home) := by
  intro h
  obtain ⟨i, -, hi⟩ := hw.installed h
  obtain ⟨i', -, hi'⟩ := hw.installed hb
  exact hc (hw.once hi hi')

/-- The bridge of a context that was given one thing to carry is the one installed on it. -/
theorem Bridged.home_eq {w : World} (hw : Bridged w) {cx : ContextId} {id home i registry}
    (hb : w.bridge? cx = some (home, i)) (hi : .installed cx id registry ∈ w.history)
    (h1 : bindings cx w.history = 1) : id = home := by
  have hd := (World.bridge?_eq_some.1 hb).1
  have := hw.current hi h1
  rw [hd] at this
  cases this
  rfl

/-- An installation is the bridge of the context on which it was installed. -/
theorem Bridged.owner_eq {w : World} (hw : Bridged w) {cx c : ContextId} {id i registry}
    (hb : w.bridge? c = some (id, i)) (hi : .installed cx id registry ∈ w.history) : c = cx := by
  obtain ⟨i', -, hi'⟩ := hw.installed (World.bridge?_eq_some.1 hb).1
  exact hw.once hi' hi

/-- A context that was never given anything to carry has no bridge. -/
theorem Bridged.bridge?_eq_none {w : World} (hw : Bridged w) {cx : ContextId}
    (hb : bindings cx w.history = 0) : w.bridge? cx = none := by
  refine Option.eq_none_iff_forall_ne_some.2 fun b h => ?_
  obtain ⟨i, -, hi⟩ := hw.installed (World.bridge?_eq_some.1 h).1
  have := bindings_pos hi
  omega

/-! ## Slots -/

/-- Slots are given out once, and what is in them is as the history tells. -/
structure Slotted (w : World) : Prop where
  resolver_nodup : ∀ {id i}, w.installation? id = some i → (i.resolvers.map (·.1)).Nodup
  resolver_lt : ∀ {id i e}, w.installation? id = some i → e ∈ i.resolvers → e.1 < i.nextSlot
  resolver : ∀ {id i e}, w.installation? id = some i → e ∈ i.resolvers → ∃ cx registry d,
    .installed cx id registry ∈ w.history ∧ .promised ⟨cx, e.1⟩ e.2 d ∈ w.history
  promised_bound : ∀ {k p d}, .promised k p d ∈ w.history → 0 < bindings k.context w.history
  promised_lt : ∀ {cx id registry i slot p d}, .installed cx id registry ∈ w.history →
    bindings cx w.history = 1 → w.installation? id = some i →
    .promised ⟨cx, slot⟩ p d ∈ w.history → slot < i.nextSlot
  subscription_nodup : ∀ {id i}, w.installation? id = some i → (i.subscriptions.map (·.1)).Nodup
  subscription : ∀ {id i e}, w.installation? id = some i → e ∈ i.subscriptions →
    .subscribed ⟨id, e.1⟩ e.2 ∈ w.history
  subscribed_fresh : ∀ {t f}, .subscribed t f ∈ w.history →
    t.installation.index < w.installations.next
  subscribed_lt : ∀ {t f i}, .subscribed t f ∈ w.history →
    w.installation? t.installation = some i → t.slot < i.nextSlot
  subscribed_unique : ∀ {t f f'}, .subscribed t f ∈ w.history → .subscribed t f' ∈ w.history → f = f'

/-- A slot above all that are taken is a new one. -/
theorem nodup_append_slot {α : Type} {taken : List (Nat × α)} {slot : Nat} {a : α}
    (hn : (taken.map (·.1)).Nodup) (hlt : ∀ e ∈ taken, e.1 < slot) :
    ((taken ++ [(slot, a)]).map (·.1)).Nodup := by
  rw [← List.concat_eq_append, List.map_concat]
  refine hn.concat fun hs => ?_
  obtain ⟨e, he, hs⟩ := List.mem_map.1 hs
  exact Nat.ne_of_lt (hlt e he) hs

namespace Slotted

variable {w w' : World}

theorem install (hw : Slotted w) (hb : Bridged w) (cx : ContextId) (registry : Registry) :
    Slotted (w.install cx registry) := by
  have hold {id i} (h : (w.install cx registry).installation? id = some i) :
      w.installation? id = some i ∨ id = ⟨w.installations.next⟩ ∧ i = { registry } := by
    rw [World.installation?, World.install, Store.get?_insert] at h
    split at h
    · next hn =>
      cases h
      exact .inr ⟨InstallationId.index_inj.1 hn, rfl⟩
    · exact .inl h
  have hmem {o} (ho : o ∈ (w.install cx registry).history)
      (hne : o ≠ .installed cx ⟨w.installations.next⟩ registry) : o ∈ w.history :=
    (List.mem_cons.1 ho).resolve_left hne
  constructor
  case resolver_nodup =>
    intro id i hi
    obtain hi | ⟨-, rfl⟩ := hold hi
    · exact hw.resolver_nodup hi
    · exact .nil
  case resolver_lt =>
    intro id i e hi he
    obtain hi | ⟨-, rfl⟩ := hold hi
    · exact hw.resolver_lt hi he
    · cases he
  case resolver =>
    intro id i e hi he
    obtain hi | ⟨-, rfl⟩ := hold hi
    · obtain ⟨c, r, d, h, h'⟩ := hw.resolver hi he
      exact ⟨c, r, d, List.mem_cons_of_mem _ h, List.mem_cons_of_mem _ h'⟩
    · cases he
  case promised_bound =>
    intro k p d h
    exact Nat.lt_of_lt_of_le (hw.promised_bound (hmem h (by simp))) (bindings_le (List.suffix_cons ..))
  case promised_lt =>
    intro c id r i slot p d hc h1 hi h
    have hpos := hw.promised_bound (hmem h (by simp))
    rw [w.bindings_install] at h1
    obtain he | hc := List.mem_cons.1 hc
    · cases he
      rw [if_pos rfl] at h1
      dsimp only at hpos
      omega
    · obtain hi | ⟨rfl, -⟩ := hold hi
      · refine hw.promised_lt hc ?_ hi (hmem h (by simp))
        dsimp only at hpos
        omega
      · exact absurd (hb.fresh hc) (Nat.lt_irrefl _)
  case subscription_nodup =>
    intro id i hi
    obtain hi | ⟨-, rfl⟩ := hold hi
    · exact hw.subscription_nodup hi
    · exact .nil
  case subscription =>
    intro id i e hi he
    obtain hi | ⟨-, rfl⟩ := hold hi
    · exact List.mem_cons_of_mem _ (hw.subscription hi he)
    · cases he
  case subscribed_fresh =>
    intro t f h
    exact Nat.lt_succ_of_lt (hw.subscribed_fresh (hmem h (by simp)))
  case subscribed_lt =>
    intro t f i h hi
    have hf := hw.subscribed_fresh (hmem h (by simp))
    obtain hi | ⟨hn, -⟩ := hold hi
    · exact hw.subscribed_lt (hmem h (by simp)) hi
    · rw [hn] at hf
      exact absurd hf (Nat.lt_irrefl _)
  case subscribed_unique =>
    intro t f f' h h'
    exact hw.subscribed_unique (hmem h (by simp)) (hmem h' (by simp))

theorem move (hw : Slotted w) (hb : Bridged w) (hm : Move w w')
    (hn : World.InstallsNothing w w') : Slotted w' := by
  have hold {id i'} (hi' : w'.installation? id = some i') :
      ∃ i, w.installation? id = some i ∧ Alters w w' id i i' := hm.installation_old hn hi'
  have hinst {cx id registry} (h : .installed cx id registry ∈ w'.history) :
      .installed cx id registry ∈ w.history := hm.installed_old hn h
  constructor
  case resolver_nodup =>
    intro id i' hi'
    obtain ⟨i, hi, ha⟩ := hold hi'
    have hnodup := hw.resolver_nodup hi
    cases ha with
    | parked hb hp =>
      exact nodup_append_slot hnodup fun e => hw.resolver_lt hi
    | unparked hb hp h => exact hnodup.sublist (List.filter_sublist.map _)
    | _ => exact hnodup
  case resolver_lt =>
    intro id i' e hi' he
    obtain ⟨i, hi, ha⟩ := hold hi'
    have hlt (he : e ∈ i.resolvers) : e.1 < i.nextSlot := hw.resolver_lt hi he
    cases ha with
    | subscribed f h => exact Nat.lt_succ_of_lt (hlt he)
    | parked hb hp =>
      obtain he | he := List.mem_append.1 he
      · exact Nat.lt_succ_of_lt (hlt he)
      · rw [List.mem_singleton.1 he]
        exact Nat.lt_succ_self _
    | unparked hb hp h => exact hlt (List.mem_filter.1 he).1
    | _ => exact hlt he
  case resolver =>
    intro id i' e hi' he
    obtain ⟨i, hi, ha⟩ := hold hi'
    have hkeep (he : e ∈ i.resolvers) : ∃ cx registry d,
        .installed cx id registry ∈ w'.history ∧ .promised ⟨cx, e.1⟩ e.2 d ∈ w'.history := by
      obtain ⟨cx, registry, d, h, h'⟩ := hw.resolver hi he
      exact ⟨cx, registry, d, hm.history.subset h, hm.history.subset h'⟩
    cases ha with
    | @parked cx d hb' hp =>
      obtain he | he := List.mem_append.1 he
      · exact hkeep he
      · rw [List.mem_singleton.1 he]
        obtain ⟨i₀, -, h⟩ := hb.installed (World.bridge?_eq_some.1 hb').1
        exact ⟨cx, _, d, hm.history.subset h, hp⟩
    | unparked hb hp h => exact hkeep (List.mem_filter.1 he).1
    | _ => exact hkeep he
  case promised_bound =>
    intro k p d h
    refine Nat.lt_of_lt_of_le ?_ (bindings_le hm.history)
    obtain h | h := hm.arises h
    · exact hw.promised_bound h
    · cases h with
      | promised hb' hd hw' _ =>
        obtain ⟨i₀, -, h⟩ := hb.installed (World.bridge?_eq_some.1 hb').1
        exact bindings_pos h
  case promised_lt =>
    intro cx id registry i' slot p d hc h1 hi' h
    obtain ⟨i, hi, ha⟩ := hold hi'
    have hb1 := hm.bindings_eq_one (bindings_pos (hinst hc)) h1
    obtain h | h := hm.arises h
    · exact Nat.lt_of_lt_of_le (hw.promised_lt (hinst hc) hb1 hi h) ha.nextSlot_le
    · cases h with
      | promised hb' hd hw' _ =>
        obtain rfl := hb.home_eq hb' (hinst hc) hb1
        rw [hw', World.installation?_promise hb' hd] at hi'
        cases hi'
        exact Nat.lt_succ_self _
  case subscription_nodup =>
    intro id i' hi'
    obtain ⟨i, hi, ha⟩ := hold hi'
    have hnodup := hw.subscription_nodup hi
    cases ha with
    | forgot => exact hnodup.sublist (List.filter_sublist.map _)
    | subscribed f h =>
      refine List.Nodup.sublist (List.filter_sublist.map _) ?_
      exact nodup_append_slot hnodup fun e he => hw.subscribed_lt (hw.subscription hi he) hi
    | _ => exact hnodup
  case subscription =>
    intro id i' e hi' he
    obtain ⟨i, hi, ha⟩ := hold hi'
    have hkeep (he : e ∈ i.subscriptions) : .subscribed ⟨id, e.1⟩ e.2 ∈ w'.history :=
      hm.history.subset (hw.subscription hi he)
    cases ha with
    | forgot => exact hkeep (List.mem_filter.1 he).1
    | subscribed f h =>
      obtain he | he := List.mem_append.1 (List.mem_filter.1 he).1
      · exact hkeep he
      · rw [List.mem_singleton.1 he]
        exact h
    | _ => exact hkeep he
  case subscribed_fresh =>
    intro t f h
    rw [hn.next_eq]
    obtain h | h := hm.arises h
    · exact hw.subscribed_fresh h
    · cases h with
      | subscribed hb' hc hw' hf => exact Store.lt_next_of_get? (World.bridge?_eq_some.1 hb').2
  case subscribed_lt =>
    intro t f i' h hi'
    obtain ⟨i, hi, ha⟩ := hold hi'
    obtain h | h := hm.arises h
    · exact Nat.lt_of_lt_of_le (hw.subscribed_lt h hi) ha.nextSlot_le
    · cases h with
      | subscribed hb' hc hw' hf =>
        rw [hw', World.installation?_setSubscriber hb' hc] at hi'
        cases hi'
        exact Nat.lt_succ_self _
  case subscribed_unique =>
    intro t f f' h h'
    -- an old callback sits in a slot below the one that is taken now
    have hnew {f f'} (h : Arises w w' (.subscribed t f)) (h' : .subscribed t f' ∈ w.history) :
        False := by
      cases h with
      | subscribed hb' hc hw' hf =>
        exact Nat.lt_irrefl _ (hw.subscribed_lt h' (World.bridge?_eq_some.1 hb').2)
    obtain ho | hn := hm.arises h
    · obtain ho' | hn' := hm.arises h'
      · exact hw.subscribed_unique ho ho'
      · exact absurd ho (hnew hn')
    · cases hn with
      | subscribed hb' hc hw' hf =>
        obtain ho' | he := hf _ f' h'
        · exact absurd ho' (hnew (.subscribed hb' hc hw' hf))
        · exact he.symm

end Slotted

/-- **Slots are given out once.** -/
theorem Reachable.slotted {w : World} (h : Reachable w) : Slotted w := by
  refine h.rec' (fun plans => ⟨nofun, nofun, nofun, nofun, nofun, nofun, nofun, nofun, nofun,
    nofun⟩) fun w w' hr hw hm => ?_
  obtain hn | ⟨cx, registry, -, rfl⟩ := hm.installs
  · exact hw.move hr.bridged hm hn
  · exact hw.install hr.bridged cx registry

end Isthmus
