import Isthmus.Descriptor.Listing
import Isthmus.Proofs.Lifetime.Steady
import Isthmus.Proofs.Members.Making
import Isthmus.Proofs.Run.Tokens

/-!
# Proofs/Members/Listings — the channels of an instance are the events of its class

A class declares events among its other methods.  Their signatures, in the order of declaration, are what its
description lists (`TypeDescriptor.document_events`), what `on` lists, and what the channels of each of its
instances are called.

* `Channels.Covers` — a set of channels is that of a descriptor.
* `World.Equipped` — the channels of every handle are there, and are those of its class.
* `World.Outfits` — what an action does to handles and channels: a handle keeps its channels, and of channels
  nothing changes but their subscribers.
* `Session.equipped` — so a session comes to equipped worlds only.

A handle refers to its channels, so these stay as long as the handle does; and it is given channels only when
it is attached, right after these were connected for its class.
-/

namespace Isthmus

open World

/-! ## The events of a class -/

namespace TypeDescriptor

variable {d : TypeDescriptor}

/-- The signatures of the events that a class declares, in the order of declaration. -/
def signatures (d : TypeDescriptor) : List String :=
  (d.methods.filter (·.isEvent)).map (·.signature ClassKey.typeName)

/-- The events of a descriptor are its methods that are events, in order. -/
theorem map_snd_events : d.events.map (·.2) = d.methods.filter (·.isEvent) := by
  rw [events, List.filter_map, List.map_map]
  conv => rhs; rw [← List.zipIdx_map_fst 0 d.methods, List.filter_map]
  rfl

/-- The indices of the events ascend. -/
theorem map_fst_events_sublist : (d.events.map (·.1)).Sublist (List.range d.methods.length) := by
  have hall : (d.methods.zipIdx.map fun e => (e.2, e.1)).map (·.1) = List.range d.methods.length := by
    rw [List.map_map, List.range_eq_range', ← List.zipIdx_map_snd 0 d.methods]
    rfl
  rw [← hall]
  exact List.filter_sublist.map _

/-- Their indices are all different. -/
theorem nodup_indices : (d.events.map (·.1)).Nodup :=
  map_fst_events_sublist.nodup List.nodup_range

/-- **Channels are called by the signatures of the events**, in the order of declaration. -/
theorem channels_eq_signatures : d.channels ClassKey.typeName = d.signatures := by
  rw [channels, signatures, ← map_snd_events, List.map_map]
  rfl

/-- **The description of a class** lists the signatures of its events, in the order of declaration. -/
theorem document_events : ∃ fields, d.document ClassKey.typeName = .record fields ∧
    fields.lookup "events" = some (.texts d.signatures) := by
  refine ⟨_, rfl, ?_⟩
  rw [← channels_eq_signatures]
  rfl

end TypeDescriptor

/-- **A set of channels is that of a descriptor**: for each event, in the order of declaration, it has the
index of its method, its signature, and room for one subscriber. -/
structure Channels.Covers (c : Channels) (d : TypeDescriptor) : Prop where
  indices : c.indices = d.events.map (·.1)
  signatures : c.signatures = d.signatures
  room : c.subscribers.length = d.events.length

/-- Channels stay what they are, and only their subscribers may change. -/
structure Channels.Continues (c c' : Channels) : Prop where
  context : c'.context = c.context
  indices : c'.indices = c.indices
  signatures : c'.signatures = c.signatures
  source : c'.source = c.source
  room : c'.subscribers.length = c.subscribers.length

/-- Channels stay what they are. -/
theorem Channels.Continues.refl (c : Channels) : c.Continues c :=
  ⟨rfl, rfl, rfl, rfl, rfl⟩

/-- They go on step by step. -/
theorem Channels.Continues.trans {a b c : Channels} (h : a.Continues b) (h' : b.Continues c) :
    a.Continues c :=
  ⟨h'.context.trans h.context, h'.indices.trans h.indices, h'.signatures.trans h.signatures,
    h'.source.trans h.source, h'.room.trans h.room⟩

/-- Channels that cover a class still do when they have gone on. -/
theorem Channels.Covers.continues {c c' : Channels} {d : TypeDescriptor} (h : c.Covers d)
    (hc : c.Continues c') : c'.Covers d :=
  ⟨hc.indices.trans h.indices, hc.signatures.trans h.signatures, hc.room.trans h.room⟩

/-- A handle stays a handle of its class for its instance, and keeps the channels that it has. -/
structure Handle.Retains (x x' : Handle) : Prop where
  cls : x'.cls = x.cls
  inst : x'.inst = x.inst
  channels : ∀ ch, x.channels = some ch → x'.channels = some ch

/-- A handle keeps what it has. -/
theorem Handle.Retains.refl (x : Handle) : x.Retains x :=
  ⟨rfl, rfl, fun _ h => h⟩

/-- It does so step by step. -/
theorem Handle.Retains.trans {x y z : Handle} (h : x.Retains y) (h' : y.Retains z) : x.Retains z :=
  ⟨h'.cls.trans h.cls, h'.inst.trans h.inst, fun ch hch => h'.channels ch (h.channels ch hch)⟩

/-! ## Equipped worlds -/

namespace World

variable {w w' : World} {cx : ContextId} {cls : ClassKey} {inst : InstanceId} {obj : ObjectId}

/-- The channels of every handle are there, and are those of its class. -/
def Equipped (w : World) : Prop :=
  ∀ id x ch, w.handle? id = some x → x.channels = some ch →
    ∃ c, w.channels? ch = some c ∧ c.Covers (w.plans.descriptor x.cls)

namespace Equipped

/-- Nothing is there to be equipped in the beginning. -/
theorem initial (plans : Plans) : ({ plans } : World).Equipped :=
  nofun

/-- Channels may come, and subscribers change. -/
theorem mono (h : w.Equipped) (hp : w'.plans = w.plans) (hh : w'.handles = w.handles)
    (hc : ∀ ch c, w.channels? ch = some c → ∃ c', w'.channels? ch = some c' ∧ c.Continues c') :
    w'.Equipped := by
  intro id x ch hx hch
  rw [handle?, hh] at hx
  obtain ⟨c, hfound, hcovers⟩ := h id x ch hx hch
  obtain ⟨c', hfound', hcontinues⟩ := hc ch c hfound
  exact ⟨c', hfound', hp ▸ hcovers.continues hcontinues⟩

/-- Who changes neither handles nor channels keeps the world equipped. -/
theorem of_eq (h : w.Equipped) (hh : w'.handles = w.handles) (ho : w'.outfit = w.outfit) :
    w'.Equipped := by
  obtain ⟨hc, hp⟩ := Prod.mk.inj ho
  refine h.mono hp hh fun ch c hfound => ⟨c, ?_, .refl c⟩
  rw [channels?, hc]
  exact hfound

/-- A handle that is made has no channels, and one that is bound keeps those that it has. -/
theorem handles (h : w.Equipped) {handles : Store Handle}
    (hh : ∀ id x', handles.get? id = some x' → x'.channels = none ∨
      ∃ x, w.handles.get? id = some x ∧ x'.cls = x.cls ∧ x'.channels = x.channels) :
    { w with handles }.Equipped := by
  intro id x' ch hx' hch
  obtain hnone | ⟨x, hx, hcls, hchannels⟩ := hh id.index x' hx'
  · cases hnone.symm.trans hch
  · rw [hcls]
    exact h id x ch hx (hchannels ▸ hch)

end Equipped

/-! ## Letting go -/

/-- Channels may go, and nothing else happens to them. -/
structure Sheds (w w' : World) : Prop where
  plans : w'.plans = w.plans
  next : w'.channels.next = w.channels.next
  channels : ∀ key c, w'.channels.get? key = some c → w.channels.get? key = some c

instance : IsPreorder World Sheds where
  refl _ := ⟨rfl, rfl, fun _ _ h => h⟩
  trans _ _ _ h h' := ⟨h'.plans.trans h.plans, h'.next.trans h.next,
    fun key c hc => h.channels key c (h'.channels key c hc)⟩

/-- Who changes no channels sheds none. -/
theorem Sheds.of_eq (ho : w'.outfit = w.outfit) : w.Sheds w' := by
  obtain ⟨hc, hp⟩ := Prod.mk.inj ho
  exact ⟨hp, congrArg _ hc, fun _ _ h => hc ▸ h⟩

/-- Forgetting callbacks leaves channels as they are. -/
theorem prune_outfit (w : World) (id : InstallationId) : (w.prune id).1.outfit = w.outfit := by
  rw [prune]
  split
  · rfl
  · rfl

/-- To destroy something sheds its own channels at most. -/
theorem Sheds.destroy (w : World) (r : Ref) : w.Sheds (w.destroy r).1 := by
  have hd := w.destroys r
  generalize (w.destroy r).1 = w' at hd
  cases hd with
  | @channels id c hc =>
    have herased : w.Sheds (w.disconnect id c) := by
      refine ⟨rfl, rfl, fun key c' hc' => ?_⟩
      have hc' : (w.channels.erase id.index).get? key = some c' := hc'
      rw [Store.get?_erase] at hc'
      split at hc'
      · cases hc'
      · exact hc'
    exact trans_of _ herased (.of_eq (prune_outfit ..))
  | @abandoned id d k hd ha => exact .of_eq (Posts.post (w.expire id) _ _).outfit
  | _ => exact .of_eq rfl

/-- **To release sheds channels**, and changes none. -/
theorem Sheds.release (w : World) (fs : List Farewell) : w.Sheds (w.release fs) :=
  release_induction (fun _ _ => .of_eq rfl) (fun w r _ => .destroy w r) w fs

/-- The channels of a handle are referred to. -/
theorem mem_references_of_channels {id : HandleId} {x : Handle} {ch : ChannelsId}
    (hx : w.handle? id = some x) (hch : x.channels = some ch) : .channels ch ∈ w.references := by
  have hrefs : .channels ch ∈ x.refs := by
    rw [Handle.refs, hch]
    exact List.mem_cons_of_mem _ (List.mem_singleton_self _)
  have hm : .channels ch ∈ w.handles.values.flatMap Handle.refs :=
    List.mem_flatMap.2 ⟨x, Store.mem_values.2 ⟨id.index, hx⟩, hrefs⟩
  simp only [references, List.mem_append, hm, true_or, or_true]

/-- Channels stay as long as a handle has them. -/
theorem Equipped.release (h : w.Equipped) (fs : List Farewell) : (w.release fs).Equipped := by
  intro id x ch hx hch
  have hsheds := Sheds.release w fs
  obtain ⟨c, hc, hcovers⟩ := h id x ch ((Thins.release w fs).handles _ _ hx) hch
  have hstays := (sparesOwned_release w fs).contains _ (mem_references_of_channels hx hch)
    (Store.contains_of_get? hc)
  rw [contains, Store.contains_eq_isSome] at hstays
  obtain ⟨c', hc'⟩ := Option.isSome_iff_exists.1 hstays
  cases hc.symm.trans (hsheds.channels _ _ hc')
  exact ⟨c, hc', hsheds.plans ▸ hcovers⟩

/-! ## What an action does to handles and channels -/

/-- A handle keeps its class, its instance and its channels, of channels only the subscribers change, and
the channels of handles are those of their classes. -/
structure Outfits (w w' : World) : Prop where
  plans : w'.plans = w.plans
  handles : w.handles.Follows Handle.Retains w'.handles
  channels : w.channels.Follows Channels.Continues w'.channels
  equipped : w.Equipped → w'.Equipped

namespace Outfits

instance : IsPreorder World Outfits where
  refl _ := ⟨rfl, .refl .refl _, .refl .refl _, id⟩
  trans _ _ _ h h' := ⟨h'.plans.trans h.plans, h.handles.trans .trans h'.handles,
    h.channels.trans .trans h'.channels, h'.equipped ∘ h.equipped⟩

/-- Handles, channels and plans stay as they are. -/
theorem of_eq (hh : w'.handles = w.handles) (ho : w'.outfit = w.outfit) : w.Outfits w' := by
  obtain ⟨hc, hp⟩ := Prod.mk.inj ho
  refine ⟨hp, ?_, ?_, fun h => h.of_eq hh ho⟩
  · rw [hh]
    exact .refl .refl _
  · rw [hc]
    exact .refl .refl _

/-- Who leaves handles and channels alone leaves the outfit alone. -/
theorem of_holdings (h : w'.holdings = w.holdings) (ho : w'.outfit = w.outfit) : w.Outfits w' := by
  simp only [holdings, Prod.mk.injEq] at h
  exact of_eq h.2.1 ho

instance : Releases Outfits where
  release w fs := by
    have hthins := Thins.release w fs
    have hsheds := Sheds.release w fs
    exact ⟨hsheds.plans, .of_loses .refl hthins.handles_next hthins.handles,
      .of_loses .refl hsheds.next hsheds.channels, fun h => h.release fs⟩

instance : NativeSteady Outfits where
  aside h ho := of_holdings h.1 ho
  hold _ _ := of_eq rfl rfl
  frame {w w₁ w₂} h h₂ ho _ := by
    have hopen : w.Outfits { w with held := [] :: w.held } := of_eq rfl rfl
    have hclose : w₁.Outfits w₂ := of_holdings h₂ ho
    exact trans_of _ (trans_of _ hopen (trans_of _ h hclose)) (Releases.release _ _)
  addInstance _ _ := of_eq rfl rfl
  setInstance _ _ := of_eq rfl rfl

/-! ## Handles -/

/-- A new handle has no channels. -/
theorem addHandle (w : World) (cls : ClassKey) (inst : InstanceId) (ownership : Ownership) :
    w.Outfits { w with handles := w.handles.insert { cls, inst, ownership } } := by
  have hinsert : w.handles.Extends Handle.Retains (fun _ => True)
      (w.handles.insert { cls, inst, ownership }) := .insert .refl trivial
  refine ⟨rfl, hinsert.toFollows, .refl .refl _, fun h => h.handles fun id x hx => ?_⟩
  rw [Store.get?_insert] at hx
  split at hx
  · cases hx
    exact .inl rfl
  · exact .inr ⟨x, hx, rfl, rfl⟩

/-- A handle may change as long as it keeps its class, instance and channels. -/
theorem modifyHandle (w : World) (id : HandleId) {f : Handle → Handle}
    (hf : ∀ x, (f x).cls = x.cls ∧ (f x).inst = x.inst ∧ (f x).channels = x.channels) :
    w.Outfits { w with handles := w.handles.modify id.index f } := by
  have hmodify : w.handles.Extends Handle.Retains (fun _ => True)
      (w.handles.modify id.index f) := by
    refine .modify .refl fun x _ => ?_
    obtain ⟨hcls, hinst, hchannels⟩ := hf x
    exact ⟨hcls, hinst, fun ch hch => hchannels.trans hch⟩
  refine ⟨rfl, hmodify.toFollows, .refl .refl _, fun h => h.handles fun key x' hx' => .inr ?_⟩
  rw [Store.get?_modify] at hx'
  split at hx'
  · obtain ⟨x, hx, rfl⟩ := Option.map_eq_some_iff.1 hx'
    obtain ⟨hcls, -, hchannels⟩ := hf x
    exact ⟨x, by simpa [*] using hx, hcls, hchannels⟩
  · exact ⟨x', hx', rfl, rfl⟩

/-- A handle that has no channels gets channels of its class. -/
theorem equip {id : HandleId} {x : Handle} {ch : ChannelsId} {c : Channels}
    (hx : w.handle? id = some x) (hnone : x.channels = none) (hc : w.channels? ch = some c)
    (hcovers : c.Covers (w.plans.descriptor x.cls)) :
    w.Outfits { w with handles := w.handles.modify id.index ({ · with channels := some ch }) } := by
  have hmodify : w.handles.Extends Handle.Retains (fun _ => True)
      (w.handles.modify id.index ({ · with channels := some ch })) := by
    refine .modify .refl fun y hy => ⟨rfl, rfl, fun ch' hch' => ?_⟩
    cases hx.symm.trans hy
    cases hnone.symm.trans hch'
  refine ⟨rfl, hmodify.toFollows, .refl .refl _, fun h id' x' ch' hx' hch' => ?_⟩
  rw [handle?, Store.get?_modify] at hx'
  split at hx'
  · next hkey =>
    obtain rfl : id' = id := HandleId.index_inj.1 hkey
    obtain ⟨y, hy, rfl⟩ := Option.map_eq_some_iff.1 hx'
    cases hx.symm.trans hy
    cases hch'
    exact ⟨c, hc, hcovers⟩
  · exact h id' x' ch' hx' hch'

/-! ## Channels -/

/-- Channels are added, and the handles stay as they are. -/
theorem addChannels (hp : w'.plans = w.plans) (hh : w'.handles = w.handles)
    (hc : w.channels.Extends Channels.Continues (fun _ => True) w'.channels) : w.Outfits w' := by
  refine ⟨hp, ?_, hc.toFollows, fun h => h.mono hp hh fun ch c hfound => ?_⟩
  · rw [hh]
    exact .refl .refl _
  · have hstays := hc.stays ch.index (Store.contains_of_get? hfound)
    rw [Store.contains_eq_isSome] at hstays
    obtain ⟨c', hfound'⟩ := Option.isSome_iff_exists.1 hstays
    obtain ⟨b, hb, hcontinues⟩ := hc.old (Store.lt_next_of_get? hfound) hfound'
    cases hfound.symm.trans hb
    exact ⟨c', hfound', hcontinues⟩

/-- A connection adds channels, with no subscriber. -/
theorem connect {descriptor : TypeDescriptor} {source : SourceId} :
    Conserves Outfits (Engine.connect cx descriptor source) := by
  intro w
  have hskip : w.channels.Extends Channels.Continues (fun _ => True) w.channels.skip := by
    have hsame : w.channels.Extends Channels.Continues (fun _ => True) w.channels := .refl .refl _
    refine ⟨⟨Nat.le_succ _, hsame.old⟩, hsame.stays, fun _ _ => trivial⟩
  rw [Engine.after, Engine.connect, Engine.run_get_bind]
  dsimp only
  cases hb : w.bridge? cx with
  | some b =>
    refine addChannels rfl rfl ?_
    exact .insert .refl trivial
  | none =>
    have hbridge := Engine.run_bridge_none (w := { w with
      nextConnection := w.nextConnection + 1
      sources := w.sources.modify source.index (·.connect ⟨w.nextConnection⟩ ⟨w.channels.next⟩)
      channels := w.channels.skip }) hb
    dsimp only
    rw [Engine.run_bind_of_ok (m := set _) rfl, Engine.run_bind_of_error hbridge]
    exact addChannels rfl rfl hskip

/-- A subscription changes one place in one of the channels. -/
theorem setSubscriber (w : World) (id : ChannelsId) (place : Nat) (home : InstallationId) (slot : Nat)
    (callback : Option ForeignValue) : w.Outfits (w.setSubscriber id place home slot callback).1 := by
  cases hc : w.channels? id with
  | none =>
    unfold World.setSubscriber
    rw [hc]
    exact refl_of _ w
  | some c =>
    have hh := (Steady.setSubscriber_holdings w id place home slot callback).1
    simp only [holdings, Prod.mk.injEq] at hh
    have hp : (w.setSubscriber id place home slot callback).1.plans = w.plans := by
      unfold World.setSubscriber
      rw [hc]
      cases callback with
      | none => exact (Prod.mk.inj (prune_outfit ..)).2
      | some f => exact (Prod.mk.inj (prune_outfit ..)).2
    refine addChannels hp hh.2.1 ?_
    rw [setSubscriber_channels hc]
    exact .modify .refl fun c _ => ⟨rfl, rfl, rfl, rfl, List.length_set⟩

/-! ## Sessions -/

theorem modifyObject {f : Object → Object} : Conserves Outfits (Engine.modifyObject obj f) :=
  .modify fun _ => of_eq rfl rfl

theorem wrap {data : Attachment} : Conserves Outfits (Engine.wrap cx obj data) :=
  .wrapWith modifyObject

theorem bindHandle {id : HandleId} : Conserves Outfits (Engine.bindHandle cx id obj) :=
  .bindHandleWith wrap (.modify fun w => modifyHandle w id fun _ => ⟨rfl, rfl, rfl⟩)

/-- A handle that has no channels is attached. -/
theorem attach_now {id : HandleId} {x : Handle} (hx : w.handle? id = some x) (hnone : x.channels = none)
    (hd : ∀ ds, Conserves Outfits (Engine.defineAll cx obj ds)) :
    w.Outfits ((Engine.attach cx x.cls obj id).after w) := by
  have hrest {ds} : Conserves Outfits (do
      Engine.bindHandle cx id obj
      Engine.defineAll cx obj ds) := .bind bindHandle fun _ => hd ds
  obtain h | ⟨source, h⟩ := Steady.after_attach cx w x.cls obj id
  · rw [h]
    exact hrest w
  have hconnect : w.Outfits ((Engine.connect cx (w.plans.descriptor x.cls) source).after w) := connect w
  obtain h | ⟨ch, hrun, h⟩ := h
  · rw [h]
    exact hconnect
  · rw [h]
    refine trans_of _ hconnect (trans_of _ ?_ (hrest _))
    obtain ⟨_, _, c, hw, rfl, -, hi, hs, hn⟩ := Engine.connect_ok hrun
    rw [hw]
    have hroom : c.subscribers.length = (w.plans.descriptor x.cls).events.length := by
      rw [hn, List.length_map]
    refine equip (c := c) hx hnone ?_ ⟨hi, ?_, hroom⟩
    · rw [channels?, Store.get?_insert, if_pos rfl]
    · exact hs.trans TypeDescriptor.channels_eq_signatures

/-- To make a handle for an instance admits it without a condition. -/
theorem admits (cx : ContextId) (cls : ClassKey) (ownership : Ownership) :
    Admits Outfits cx cls ownership fun _ _ => True := by
  refine .of_conserves fun inst obj hd w => ?_
  have hnew : { w with handles := w.handles.insert { cls, inst, ownership } }.handle?
      ⟨w.handles.next⟩ = some { cls, inst, ownership } := by
    rw [handle?, Store.get?_insert, if_pos rfl]
  have hcreate : (Engine.createHandle cls inst ownership).run w =
      .ok ⟨w.handles.next⟩ { w with handles := w.handles.insert { cls, inst, ownership } } := rfl
  rw [Engine.attachNew, Engine.after, Engine.run_bind_of_ok hcreate, ← Engine.after]
  exact trans_of _ (addHandle w cls inst ownership) (attach_now hnew rfl hd)

theorem observe {promise : ObjectId} {e : PromiseEvent} : Conserves Outfits (Engine.observe promise e) :=
  .modify fun _ => of_eq rfl rfl

instance : Isthmus.Steady Outfits where
  addObject _ _ _ _ _ _ := of_eq rfl rfl
  createWithPrototype _ _ :=
    .withPrototype (.update (fun _ => of_eq rfl rfl) fun _ => .bind .hold fun _ => .pure)
  put _ _ _ := modifyObject
  addFinalizer _ _ _ := .bind .checkOwned fun _ => modifyObject
  wrap _ _ _ := wrap
  attachNew cx cls ownership := ⟨_, admits cx cls ownership⟩
  connect _ _ _ := connect
  setSubscriber := setSubscriber
  modifyRoots _ := .modify fun _ => of_eq rfl rfl
  nameHandle _ _ _ ownership w _ :=
    Conserves.nameHandleWith (fun _ => .modify fun _ => of_eq rfl rfl) (addHandle w _ _ ownership)
  bindNamed _ _ _ := .bindNamedWith (fun _ => .modify fun _ => of_eq rfl rfl) fun _ => bindHandle
  settle hrun _ _ _ _ := .settleWith hrun (fun _ => modifyObject) fun _ => observe
  onSettled hrun _ _ _ := .onSettledWith hrun (fun _ => modifyObject) fun _ => observe

end Outfits

end World

/-- **A session comes to equipped worlds only**: the channels of every handle are those of its class. -/
theorem Session.equipped (plans : Plans) (ss : List Script.Step) : (steps { plans } ss).2.Equipped := by
  have hsteps : Outfits { plans } (steps { plans } ss).2 := Steady.steps (fun _ _ _ => .of_eq rfl rfl) _ ss
  exact hsteps.equipped (.initial plans)

end Isthmus
