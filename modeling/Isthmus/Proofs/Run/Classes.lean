import Isthmus.Proofs.Run.Bridges
import Isthmus.Proofs.Run.Futures

/-!
# Proofs/Run/Classes — the classes that a bridge keeps

`Reachable.classed`: the classes that the bridge of a context has generated are there, as functions of
that context, whatever scripts do to their properties.
-/

namespace Isthmus

open History

/-- A function that something refers to stays what it is. -/
theorem Reshapes.function {w w' : World} (h : Reshapes w w') {id : ObjectId} {o}
    (ho : w.object? id = some o) (hf : o.isFunction) (hr : .object id ∈ w.references) :
    ∃ o', w'.object? id = some o' ∧ o'.context = o.context ∧ o'.isFunction := by
  have hkind {k} (hk : o.kind = .promise k) : False := by
    rw [Object.isFunction, Object.function?, hk] at hf
    cases hf
  have fixed {p state} (hp : w.IsPending p) :
      ∃ o', (w.fix p state).object? id = some o' ∧ o'.context = o.context ∧ o'.isFunction := by
    obtain ⟨o', reactions, ho', hk⟩ := hp
    have hne : id ≠ p := by
      rintro rfl
      cases ho.symm.trans ho'
      exact hkind hk
    exact ⟨o, by rw [World.object?_fix, if_neg hne, ho], rfl, hf⟩
  cases h with
  | kept h =>
    obtain ⟨o', ho', hc, hk | ⟨r, -, hk, -⟩⟩ := h.kept id.index o ho
    · refine ⟨o', ho', hc, ?_⟩
      rw [Object.isFunction, Object.function?, hk]
      exact hf
    · exact (hkind hk).elim
  | destroyed p hp h =>
    have hne : id.index ≠ p.index := fun he => hp (ObjectId.index_inj.1 he ▸ hr)
    exact ⟨o, by rw [World.object?, h, Store.get?_erase, if_neg hne]; exact ho, rfl, hf⟩
  | settled hd hu hp hi hs hw => exact hw ▸ fixed hp
  | settledOwn state hn hp hw => exact hw ▸ fixed hp

/-- The classes of the bridge are functions of its context. -/
def Classed (w : World) : Prop :=
  ∀ cx id registry i, .installed cx id registry ∈ w.history → w.installation? id = some i →
    ∀ e ∈ i.classes, ∃ o, w.object? e.2 = some o ∧ o.context = cx ∧ o.isFunction

namespace Classed

variable {w w' : World}

theorem install (hw : Classed w) (cx : ContextId) (registry : Registry) :
    Classed (w.install cx registry) := by
  intro c id r i hmem hi e he
  rw [World.installation?, World.install, Store.get?_insert] at hi
  split at hi
  · cases hi
    cases he
  · next hid =>
    obtain heq | hmem := List.mem_cons.1 hmem
    · cases heq
      exact absurd rfl hid
    · exact hw c id r i hmem hi e he

theorem move (hw : Classed w) (hb : Bridged w) (hm : Move w w') (hn : World.InstallsNothing w w') :
    Classed w' := by
  intro cx id registry i' hmem hi' e he
  have hmem := hm.installed_old hn hmem
  obtain ⟨i, hi, ha⟩ := hm.installation_old hn hi'
  have old (he : e ∈ i.classes) : ∃ o, w'.object? e.2 = some o ∧ o.context = cx ∧ o.isFunction := by
    obtain ⟨o, ho, hc, hf⟩ := hw cx id registry i hmem hi e he
    have hr : .object e.2 ∈ w.references := by
      refine World.mem_references_of_installation hi ?_
      exact List.mem_append_left _ (List.mem_append_left _ (List.mem_map.2 ⟨e, he, rfl⟩))
    obtain ⟨o', ho', hc', hf'⟩ := hm.objects.function ho hf hr
    exact ⟨o', ho', hc'.trans hc, hf'⟩
  cases ha with
  | @«class» c o e' hb' ho hc hf =>
    obtain he | he := List.mem_append.1 he
    · exact old he
    · cases List.mem_singleton.1 he
      obtain ⟨_, -, hmem'⟩ := hb.installed (World.bridge?_eq_some.1 hb').1
      exact ⟨o, ho, hc.trans (hb.once hmem' hmem), hf⟩
  | _ => exact old he

end Classed

/-- **The classes of a bridge are there**, as functions of its context. -/
theorem Reachable.classed {w : World} (h : Reachable w) : Classed w := by
  refine h.rec' (fun plans cx id registry i hmem => by cases hmem) fun w w' hr hw hm => ?_
  obtain hn | ⟨cx, registry, -, rfl⟩ := hm.installs
  · exact hw.move hr.bridged hm hn
  · exact hw.install cx registry

end Isthmus
