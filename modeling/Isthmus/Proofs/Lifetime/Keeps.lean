import Isthmus.Proofs.Lifetime.Steady

/-!
# Proofs/Lifetime/Keeps — sessions are sequences of edits

Whatever a script, foreign code and native code do, handles and native data change by edits only, and each
action leaves the frames of the actions outside as they were (`Keeps`).
-/

namespace Isthmus

open World

/-- Edits that lead from an orderly world, and leave alone what the actions outside hold. -/
def Keeps (w w' : World) : Prop :=
  w.Orderly → Edits w w' ∧ w'.held.tail = w.held.tail

namespace Keeps

variable {w w' : World}

instance : IsPreorder World Keeps where
  refl _ _ := ⟨.refl, rfl⟩
  trans _ _ _ h h' hw :=
    let ⟨he, hh⟩ := h hw
    let ⟨he', hh'⟩ := h' (he.orderly hw)
    ⟨he.trans he', hh'.trans hh⟩

theorem edit (h : Edit w w') (hh : w'.held = w.held) : Keeps w w' :=
  fun _ => ⟨.single h, congrArg _ hh⟩

theorem still (h : w.Still w') (hh : w'.held.tail = w.held.tail) : Keeps w w' :=
  fun _ => ⟨.single (.still h), hh⟩

theorem of_eq (h : w'.holdings = w.holdings ∧ w'.held = w.held) : Keeps w w' :=
  still (.of_eq h.1) (congrArg _ h.2)

instance : Releases Keeps where
  release w fs := edit (.release fs) (Thins.release w fs).held

/-- What happens in a frame of its own, which is closed again. -/
theorem frame {w₁ w₂ : World} (h : Keeps { w with held := [] :: w.held } w₁)
    (h₂ : w₂.holdings = w₁.holdings) (_ : w₂.outfit = w₁.outfit)
    (hh : w₁.held.tail = w.held → w₂.held.tail = w.held.tail ∧ w.held.flatten ⊆ w₂.held.flatten) :
    Keeps w w₂.sweep := by
  intro hw
  have hopen : w.Still { w with held := [] :: w.held } := .of_eq rfl
  obtain ⟨he, htail⟩ := h (hopen.orderly hw)
  have hall : Edits w w₂.sweep :=
    ((Relation.ReflTransGen.head (.still hopen) he).tail (.still (.of_eq h₂))).tail (.release _)
  refine ⟨hall, ?_⟩
  rw [sweep, letGo, (Thins.release w₂ _).held]
  exact (hh htail).1

end Keeps

/-! ## Objects and instances -/

namespace Keeps

variable {w w' : World}

theorem hold (w : World) (refs : List Ref) : Keeps w (w.holding refs) :=
  still (.of_eq rfl) (Engine.held_holding w refs)

/-- Objects change or come that are given no native data. -/
theorem objects (w : World) {objects : Store Object}
    (h : w.objects.Extends (fun o o' => o.Continues o' ∧ o'.attachment = o.attachment)
      (·.attachment = none) objects) : Keeps w { w with objects } :=
  still { Still.refl w with objects := h } rfl

theorem addObject (w : World) {o : Object} (ha : o.attachment = none) :
    Keeps w { w with objects := w.objects.insert o } := by
  refine objects w ?_
  exact .insert (fun o => ⟨.refl o, rfl⟩) ha

theorem modifyObject {id : ObjectId} {f : Object → Object}
    (hf : ∀ o, o.Continues (f o) ∧ (f o).attachment = o.attachment) :
    Conserves Keeps (Engine.modifyObject id f) :=
  .modify fun w => objects w (.modify (fun o => ⟨.refl o, rfl⟩) fun o _ => hf o)

/-- A promise gets another state. -/
theorem setState {id : ObjectId} {state : PromiseState} :
    Conserves Keeps (Engine.modifyObject id ({ · with kind := .promise state })) :=
  modifyObject fun _ => ⟨⟨rfl, fun _ h => h, List.prefix_rfl⟩, rfl⟩

theorem observe {promise : ObjectId} {e : PromiseEvent} : Conserves Keeps (Engine.observe promise e) :=
  .modify fun w => still { Still.refl w with } rfl

theorem instances (w : World) {instances : Store Instance}
    (h : w.instances.Extends (fun _ _ => True) (fun _ => True) instances) :
    Keeps w { w with instances } :=
  still { Still.refl w with instances := h } rfl

theorem handles (w : World) {handles : Store Handle}
    (h : w.handles.Extends (fun x x' => x.Advances x' ∧ x'.state = x.state) (·.state = .unbound)
      handles) : Keeps w { w with handles } :=
  still { Still.refl w with handles := h } rfl

/-- A handle is added that is not bound. -/
theorem addHandle (w : World) (cls : ClassKey) (inst : InstanceId) (ownership : Ownership) :
    Keeps w { w with handles := w.handles.insert { cls, inst, ownership } } := by
  refine handles w ?_
  exact .insert (fun x => ⟨.refl x, rfl⟩) rfl

instance : NativeSteady Keeps where
  aside h _ := of_eq h
  hold := hold
  frame := frame
  addInstance w _ := instances w (.insert (fun _ => trivial) trivial)
  setInstance _ _ := instances _ (.modify (fun _ => trivial) fun _ _ => trivial)

end Keeps

/-! ## Binding -/

namespace World

/-- A handle can be bound to an object: it is not bound yet, no one else owns its instance unless it is
shared, and the object belongs to the context and has no native data. -/
structure Bindable (w : World) (cx : ContextId) (x : Handle) (o : Object) : Prop where
  state : x.state = .unbound
  owner : x.ownership = .shared ∨ w.count (.inst x.inst) = 1
  attachment : o.attachment = none
  context : o.context = cx

end World

namespace Engine

variable {w : World} {cx : ContextId} {id : HandleId} {obj : ObjectId} {x : Handle} {o : Object}

/-- **A handle is bound** where it can be. -/
theorem run_bindHandle (hx : w.handle? id = some x) (ho : w.object? obj = some o)
    (h : w.Bindable cx x o) : (bindHandle cx id obj).run w = .ok () (w.binding id obj) := by
  have hexclusive : ¬ (x.ownership = .exclusive ∧ w.count (.inst x.inst) ≠ 1) := by
    rintro ⟨he, hcount⟩
    obtain hs | hone := h.owner
    · exact nomatch he.symm.trans hs
    · exact hcount hone
  have hsome : ¬ o.attachment.isSome := by
    rw [h.attachment]
    exact Bool.false_ne_true
  rw [bindHandle, run_get_bind, hx]
  dsimp only
  rw [if_neg (not_not.2 h.state), if_neg hexclusive, run_bind_of_ok (run_object ho), if_neg hsome, wrap,
    bind_assoc, run_bind_of_ok (run_checkOwned ho h.context), bind_assoc,
    run_bind_of_ok (run_object ho), if_neg hsome]
  rfl

/-- **A handle that cannot be bound is refused**, and nothing changes. -/
theorem run_bindHandle_error (hx : w.handle? id = some x)
    (h : ∀ o, w.object? obj = some o → ¬ w.Bindable cx x o) :
    ∃ text, (bindHandle cx id obj).run w = .error (.aborted text) w := by
  rw [bindHandle, run_get_bind, hx]
  dsimp only
  split
  · exact ⟨_, rfl⟩
  · next hs =>
    split
    · exact ⟨_, rfl⟩
    · next he =>
      cases ho : w.object? obj with
      | none => exact ⟨_, run_bind_of_error (run_object_gone ho)⟩
      | some o =>
        rw [run_bind_of_ok (run_object ho)]
        split
        · exact ⟨_, rfl⟩
        · next ha =>
          have hc : o.context ≠ cx := fun hc => h o ho ⟨not_not.1 hs, ?_, ?_, hc⟩
          · exact ⟨_, ((failsFast_checkOwned ho hc).bind _).bind _⟩
          · cases hown : x.ownership with
            | shared => exact .inl rfl
            | exclusive => exact .inr (Decidable.byContradiction fun hcount => he ⟨hown, hcount⟩)
          · exact Option.not_isSome_iff_eq_none.1 ha

end Engine

/-! ## Actions on objects -/

namespace Keeps

variable {w : World} {cx : ContextId} {obj : ObjectId} {id : HandleId} {x : Handle}

/-- A handle that is made now has no name. -/
theorem newHandle (hw : w.Orderly) (cls : ClassKey) (inst : InstanceId)
    (ownership : Ownership) :
    { w with handles := w.handles.insert { cls, inst, ownership } }.handle? ⟨w.handles.next⟩ =
      some { cls, inst, ownership } ∧ ∀ e ∈ w.roots.handles, e.2 ≠ ⟨w.handles.next⟩ := by
  refine ⟨by rw [World.handle?, Store.get?_insert, if_pos rfl], fun e he heq => ?_⟩
  obtain ⟨x, hx, -⟩ := hw.named e he
  rw [heq] at hx
  exact Nat.lt_irrefl _ (Store.lt_next_of_get? hx)

theorem bindHandle_now (hx : w.handle? id = some x) (hn : ∀ e ∈ w.roots.handles, e.2 ≠ id) :
    Keeps w ((Engine.bindHandle cx id obj).after w) := by
  by_cases h : ∃ o, w.object? obj = some o ∧ w.Bindable cx x o
  · obtain ⟨o, ho, hb⟩ := h
    rw [Engine.after_of_ok (Engine.run_bindHandle hx ho hb)]
    exact edit (.bind hx hb.state hn ho hb.attachment hb.owner) rfl
  · obtain ⟨text, hrun⟩ := Engine.run_bindHandle_error hx fun o ho hb => h ⟨o, ho, hb⟩
    rw [Engine.after_of_error hrun]
    exact refl_of Keeps w

/-- What comes after binding a handle. -/
theorem bindHandle_then {α : Type} {m : Engine α} (hx : w.handle? id = some x)
    (hn : ∀ e ∈ w.roots.handles, e.2 ≠ id) (hm : Conserves Keeps m) :
    Keeps w ((do Engine.bindHandle cx id obj; m).after w) :=
  Conserves.step_now (bindHandle_now hx hn) fun _ w' _ => hm w'

/-- A handle that has no name can be attached to an object, whose members are defined then. -/
theorem attach_now {cls} (hx : w.handle? id = some x) (hn : ∀ e ∈ w.roots.handles, e.2 ≠ id)
    (hdef : ∀ ds, Conserves Keeps (Engine.defineAll cx obj ds)) :
    Keeps w ((Engine.attach cx cls obj id).after w) := by
  have hrest {v : World} {y} (hy : v.handle? id = some y) (hn : ∀ e ∈ v.roots.handles, e.2 ≠ id) :
      Keeps v ((do
        Engine.bindHandle cx id obj
        Engine.defineAll cx obj (Engine.propertyDefinitions cls (w.plans.descriptor cls))).after v) :=
    bindHandle_then hy hn (hdef _)
  obtain h | ⟨source, h⟩ := Steady.after_attach cx w cls obj id
  · rw [h]
    exact hrest hx hn
  have hsame : ((Engine.connect cx (w.plans.descriptor cls) source).after w).holdings = w.holdings ∧
      ((Engine.connect cx (w.plans.descriptor cls) source).after w).held = w.held :=
    Steady.connect_holdings w
  obtain h | ⟨c, -, h⟩ := h
  · rw [h]
    exact of_eq hsame
  · rw [h]
    generalize (Engine.connect cx (w.plans.descriptor cls) source).after w = v at hsame
    have hconnect : Keeps w v := of_eq hsame
    have hequip : Keeps v { v with
        handles := v.handles.modify id.index ({ · with channels := some c }) } := by
      refine handles v ?_
      exact .modify (fun x => ⟨.refl x, rfl⟩) fun _ _ => ⟨⟨rfl, rfl, rfl, Nat.le_refl _⟩, rfl⟩
    simp only [World.holdings, Prod.mk.injEq] at hsame
    obtain ⟨⟨-, hhandles, -, hnames, -⟩, -⟩ := hsame
    refine trans_of Keeps hconnect (trans_of Keeps hequip (hrest (y := { x with channels := some c }) ?_ ?_))
    · rw [World.handle?, Store.get?_modify, if_pos rfl, hhandles]
      exact congrArg (Option.map _) hx
    · exact hnames ▸ hn

/-! ## Sessions -/

instance : Steady Keeps where
  addObject w _ _ ha _ _ := addObject w ha
  createWithPrototype _ _ :=
    .withPrototype (.update (fun w => addObject w rfl) fun _ => .bind .hold fun _ => .pure)
  put _ _ _ := modifyObject fun o => ⟨⟨rfl, fun _ h => h, List.prefix_rfl⟩, rfl⟩
  wrap cx id data := by
    refine .bind .checkOwned fun _ => .bind' .object fun w o w' ho => ?_
    obtain ⟨rfl, ho⟩ := Engine.object_ok ho
    split
    · exact Conserves.abort w'
    · next ha => exact edit (.wrap data ho (Option.not_isSome_iff_eq_none.1 ha)) rfl
  attachNew cx cls ownership := ⟨_, .of_conserves fun inst obj h w hw => by
    obtain ⟨hnew, hunnamed⟩ := newHandle hw cls inst ownership
    have hall : Keeps w ((Engine.attachNew cx cls inst ownership obj).after w) := by
      refine Conserves.step_now (addHandle w cls inst ownership) fun id w' hr => ?_
      cases hr
      exact attach_now hnew hunnamed h
    exact hall hw⟩
  connect _ _ _ w := of_eq (Steady.connect_holdings w)
  setSubscriber w _ _ _ _ _ := of_eq (Steady.setSubscriber_holdings w ..)
  addFinalizer _ _ _ := .bind .checkOwned fun _ =>
    modifyObject fun o => ⟨⟨rfl, fun _ h => h, List.prefix_append _ _⟩, rfl⟩
  settle hrun _ _ _ _ := .settleWith hrun (fun _ => setState) fun _ => observe
  onSettled hrun _ _ _ := .onSettledWith hrun (fun _ => setState) fun _ => observe
  modifyRoots hf := .modify fun w => still { Still.refl w with names := (hf w.roots).handles } rfl
  nameHandle name {cls inst} ownership {w} _ hw := by
    obtain ⟨hnew, hunnamed⟩ := newHandle hw cls inst ownership
    have hall : Keeps w ((do
        let id ← Engine.createHandle cls inst ownership
        Session.assignHandle name id
        Session.showHandle id : Engine Document).after w) := by
      refine Conserves.step_now (addHandle w cls inst ownership) fun id w' hr => ?_
      cases hr
      refine Conserves.step_now (Conserves.get_now ?_) fun _ _ _ =>
        Conserves.bind .get (fun _ => .pure) _
      exact Conserves.step_now (edit (.name name hnew rfl hunnamed) rfl) fun _ _ _ =>
        Conserves.letGo _
    exact hall hw
  bindNamed cx name obj w hw := by
    have hall : Keeps w ((Session.bindNamed cx name obj).after w) := by
      refine Conserves.step_now (Conserves.named w) fun id w' hn => ?_
      obtain ⟨rfl, hf⟩ := Engine.named_ok hn
      obtain ⟨e, hfind, rfl⟩ := Option.map_eq_some_iff.1 hf
      have hname : e.1 = name := by simpa using List.find?_some hfind
      have he := List.mem_of_find?_eq_some hfind
      obtain ⟨x, hx, -⟩ := hw.named e he
      have hremove : Keeps w' { w' with roots.handles := w'.roots.handles.remove name } :=
        still { Still.refl w' with names := Names.remove_sublist _ _ } rfl
      refine Conserves.step_now hremove fun _ w'' hr => ?_
      cases hr
      refine bindHandle_then hx (fun e' he' heq => ?_) (.bind .get fun _ => .pure)
      obtain ⟨he', hne⟩ := List.mem_filter.1 he'
      exact of_decide_eq_true hne ((hw.distinct e' he' e he heq).trans hname)
    exact hall hw

end Keeps

end Isthmus
