import Mathlib
import Isthmus.Proofs.Lifetime.Lending
import Isthmus.Proofs.Members.Access

/-!
# Proofs/Lifetime/Buffers — shared buffers

Buffers are made, cloned, put into native values, matrices and instances, read from them, converted to
array buffers and back, and given up again, in any order (`Interleaving`).  What becomes of them is kept in a
`Ledger`: the bytes and the label that each storage was made with stand in the order in which they were
made, so that a storage is its own place there.

* `Interleaving.ledger` — the ledger is right after every step.
* `Interleaving.shares` — whoever holds a buffer sees the bytes that it was made with; only making a buffer
  makes a storage, converting a value or using a property copies nothing; the number of handles that is
  reported is the number of holders; and the labels that were reported are those of the buffers that nobody
  holds any more.
-/

namespace Isthmus

open World

/-! ## What is done with buffers -/

/-- Something that is done with buffers. -/
inductive Sharing where
  /-- A buffer is made, and a label with it that is reported when it goes. -/
  | make (name : String) (bytes : Array UInt8) (label : Option String)
  /-- A buffer gets one name more. -/
  | clone (name : String) (b : Buffer)
  /-- A name is given up that stands for a buffer. -/
  | drop (name : String)
  /-- A native value gets a name. -/
  | keep (name : String) (v : NativeValue)
  /-- A name is given up that stands for a native value. -/
  | discard (name : String)
  /-- A matrix is made of a buffer. -/
  | makeMatrix (name : String) (m : Matrix)
  /-- A property of a native instance is read. -/
  | read (name : String) (id : InstanceId) (index : Nat)
  /-- A property of a native instance is written. -/
  | write (id : InstanceId) (index : Nat) (v : NativeValue)
  /-- A native value becomes foreign, and a variable keeps it. -/
  | toForeign (name : String) (cx : ContextId) (v : NativeValue) (h : v.IsData)
  /-- A foreign value becomes native, and gets a name. -/
  | fromForeign (name : String) (cx : ContextId) (v : ForeignValue) (type : TypeId)
  /-- A foreign value is kept in one variable more. -/
  | assign (name : String) (v : ForeignValue)
  /-- A foreign value is kept in a property of an object. -/
  | put (id : ObjectId) (key : String) (v : ForeignValue)
  /-- A variable is given up. -/
  | forget (name : String)

namespace Sharing

open Engine Session

/-- What is done, as an action. -/
def act (run : Runner) : Sharing → Engine Unit
  | make name bytes label => do assignBuffer name (← createBuffer bytes label)
  | clone name b => assignBuffer name b
  | drop name => do
    let _ ← giveUp (·.buffers.find? name) (fun r => { r with buffers := r.buffers.remove name })
      fun b => [.storage b.storage]
  | keep name v => assignNative name v
  | discard name => do
    let _ ← giveUp (·.natives.find? name) (fun r => { r with natives := r.natives.remove name })
      NativeValue.refs
  | makeMatrix name m => do assignNative name (← matrixValue m)
  | read name id index => do
    if let some v ← readMember id index then assignNative name v
  | write id index v => do let _ ← writeMember id index v
  | toForeign name cx v _ => do Session.assign name (← convertToForeign run cx v)
  | fromForeign name cx v type => do assignNative name (← convertFromForeign cx v type)
  | assign name v => Session.assign name v
  | put id key v => putOwn id key (.plain v)
  | forget name => do
    let _ ← giveUp (·.values.find? name) (fun r => { r with values := r.values.remove name })
      ForeignValue.refs

/-- The bytes and the label of a buffer that is made. -/
def made : Sharing → List (Array UInt8 × Option String)
  | make _ bytes label => [(bytes, label)]
  | _ => []

/-- The buffers that are handed over to a new holder. -/
def lent : Sharing → List Buffer
  | clone _ b => [b]
  | keep _ v | write _ _ v | toForeign _ _ v _ => v.buffers
  | makeMatrix _ m => [m.data]
  | _ => []

end Sharing

/-! ## Any order -/

/-- **Any order of these**, each with a frame of its own.  Only a buffer that something holds can be handed
over.  Anything else may happen meanwhile that hands buffers over or gives them up, such as events that are
queued and delivered, and deferreds that are completed. -/
inductive Interleaving (run : Runner) (w₀ : World) : List Sharing → World → Prop where
  | start : Interleaving run w₀ [] w₀
  | step {as : List Sharing} {w : World} (h : Interleaving run w₀ as w) (a : Sharing)
      (ha : a.lent ⊆ w.buffers) : Interleaving run w₀ (as ++ [a]) ((Engine.framed (a.act run)).after w)
  | meanwhile {as : List Sharing} {w w' : World} {lent : List Buffer} (h : Interleaving run w₀ as w)
      (hl : lent ⊆ w.buffers) (ht : Takes lent w w') (given : List Ref) :
      Interleaving run w₀ as (w'.letGo given).sweep

/-! ## The ledger -/

namespace World

/-- The buffer has the bytes that its storage was made with, and the storage is there. -/
def Knows (made : List (Array UInt8 × Option String)) (w : World) (b : Buffer) : Prop :=
  (made[b.storage]?).map (·.1) = some b.bytes ∧ w.storages.contains b.storage

/-- **The ledger**: the bytes and the labels of all storages, in the order in which they were made.  The
labels in `before` were reported before that. -/
structure Ledger (before : List String) (made : List (Array UInt8 × Option String)) (w : World) :
    Prop where
  /-- What is held for an action is no storage. -/
  held : storagesOf w.held.flatten = []
  next : w.storages.next = made.length
  known : ∀ b ∈ w.buffers, w.Knows made b
  label : ∀ s l, w.storages.get? s = some l → (made[s]?).map (·.2) = some l
  labels : (w.released ++ w.labels).Perm (before ++ made.filterMap (·.2))

namespace Ledger

variable {before : List String} {made : List (Array UInt8 × Option String)} {w w' : World}
  {lent : List Buffer}

/-- A buffer that is handed over is one that the ledger knows. -/
theorem takes (h : Ledger before made w) (ht : Takes lent w w') (hl : ∀ b ∈ lent, w.Knows made b) :
    Ledger before made w' := by
  refine ⟨ht.held.trans h.held, ?_, fun b hb => ?_, ?_, ?_⟩
  · rw [ht.storages, h.next]
  · rw [Knows, ht.storages]
    exact (List.mem_append.1 (ht.buffers hb)).elim (h.known b) (hl b)
  · rw [ht.storages]
    exact h.label
  · rw [ht.released, World.labels, ht.storages]
    exact h.labels

theorem letGo (h : Ledger before made w) (refs : List Ref) : Ledger before made (w.letGo refs) := by
  have hloses := w.loses_release (refs.map .letGo)
  refine ⟨?_, hloses.next.trans h.next, fun b hb => ?_,
    fun s l hs => h.label s l (hloses.storages s l hs), (w.labels_letGo refs).trans h.labels⟩
  · rw [World.letGo, (Thins.release w _).held, h.held]
  · have hknown := h.known b (hloses.buffers hb)
    exact ⟨hknown.1, hloses.spares b hb hknown.2⟩

/-- What was made before stands where it stood. -/
theorem getElem?_of_map {α : Type} {f : Array UInt8 × Option String → α} {s : Nat} {a : α}
    (h : (made[s]?).map f = some a) (more : List (Array UInt8 × Option String)) :
    ((made ++ more)[s]?).map f = some a := by
  obtain ⟨m, hm, -⟩ := Option.map_eq_some_iff.1 h
  rwa [List.getElem?_append_left (List.getElem?_eq_some_iff.1 hm).1]

/-- A new storage is the next place in the ledger, which knows its handle. -/
theorem insert (h : Ledger before made w) (bytes : Array UInt8) (label : Option String) :
    Ledger before (made ++ [(bytes, label)]) { w with storages := w.storages.insert label } ∧
      Knows (made ++ [(bytes, label)]) { w with storages := w.storages.insert label }
        ⟨w.storages.next, bytes⟩ := by
  have hcontains (s : Nat) (hs : s = w.storages.next ∨ w.storages.contains s) :
      (w.storages.insert label).contains s := by
    rw [Store.contains_eq_isSome, Store.get?_insert]
    split
    · rfl
    · rw [← Store.contains_eq_isSome]
      exact hs.resolve_left ‹_›
  have hlabels : (w.storages.insert label).values.filterMap id = w.labels ++ label.toList := by
    rw [Store.values_insert, List.filterMap_append]
    cases label <;> rfl
  have hmade : (made ++ [(bytes, label)]).filterMap (·.2) = made.filterMap (·.2) ++ label.toList := by
    rw [List.filterMap_append]
    cases label <;> rfl
  refine ⟨⟨h.held, ?_, fun b hb => ?_, fun s l hs => ?_, ?_⟩, ?_, hcontains _ (.inl rfl)⟩
  · rw [List.length_append, ← h.next]
    rfl
  · have hknown := h.known b hb
    exact ⟨getElem?_of_map hknown.1 _, hcontains _ (.inr hknown.2)⟩
  · rw [Store.get?_insert] at hs
    split at hs
    · next hnext =>
      cases hs
      rw [hnext, h.next, List.getElem?_concat_length]
      rfl
    · exact getElem?_of_map (h.label s l hs) _
  · rw [World.labels, hlabels, hmade, ← List.append_assoc, ← List.append_assoc]
    exact h.labels.append_right _
  · rw [h.next, List.getElem?_concat_length]
    rfl

end Ledger

end World

/-! ## One step -/

theorem Session.run_named {w : World} {α : Type} {find : Roots → Option α} {a : α}
    (h : find w.roots = some a) : (Session.named find).run w = .ok a w := by
  rw [Session.named, Engine.run_get_bind, h]
  rfl

namespace World.Ledger

open Engine

variable {before : List String} {made : List (Array UInt8 × Option String)} {w w' : World}
  {lent : List Buffer}

/-- A name comes to stand for something else, and what it stood for is let go of. -/
theorem rename (h : Ledger before made w) {r : Roots} (lent : List Buffer)
    (hr : r.sharedBuffers ⊆ w.roots.sharedBuffers ++ lent) (hl : ∀ b ∈ lent, w.Knows made b)
    (refs : List Ref) : Ledger before made ({ w with roots := r }.letGo refs) :=
  (h.takes (.names hr) hl).letGo refs

theorem assignBuffer (h : Ledger before made w) {b : Buffer} (hb : w.Knows made b) (name : String) :
    Ledger before made ((Session.assignBuffer name b).after w) := by
  refine h.rename [b] (fun b' hb' => ?_) (List.forall_mem_singleton.2 hb) _
  obtain hnative | hbuffer := List.mem_append.1 hb'
  · exact List.mem_append_left _ (List.mem_append_left _ hnative)
  · obtain ⟨e, he, rfl⟩ := List.mem_map.1 hbuffer
    obtain he | rfl := Names.mem_put he
    · exact List.mem_append_left _ (List.mem_append_right _ (List.mem_map_of_mem he))
    · exact List.mem_append_right _ (List.mem_singleton.2 rfl)

theorem assignNative (h : Ledger before made w) {v : NativeValue} (hv : ∀ b ∈ v.buffers, w.Knows made b)
    (name : String) : Ledger before made ((Session.assignNative name v).after w) := by
  refine h.rename v.buffers (fun b hb => ?_) hv _
  obtain hnative | hbuffer := List.mem_append.1 hb
  · obtain ⟨e, he, hb⟩ := List.mem_flatMap.1 hnative
    obtain he | he := Names.mem_put he
    · exact List.mem_append_left _ (List.mem_append_left _ (List.mem_flatMap.2 ⟨e, he, hb⟩))
    · exact List.mem_append_right _ (he ▸ hb)
  · exact List.mem_append_left _ (List.mem_append_right _ hbuffer)

/-- A variable is no holder by itself. -/
theorem assign (h : Ledger before made w) (name : String) (v : ForeignValue) :
    Ledger before made ((Session.assign name v).after w) := by
  refine h.rename [] ?_ (List.forall_mem_nil _) _
  exact List.subset_append_left ..

theorem giveUp (h : Ledger before made w) {α : Type} {find : Roots → Option α} {remove : Roots → Roots}
    (hr : ∀ r, (remove r).sharedBuffers ⊆ r.sharedBuffers) {refs : α → List Ref} :
    Ledger before made ((do let _ ← Session.giveUp find remove refs : Engine Unit).after w) := by
  rw [after_bind_pure, Session.giveUp]
  cases hf : find w.roots with
  | none =>
    have hnamed : (Session.named find).run w = .error (.failed "bad_input" "unknown name") w := by
      rw [Session.named, run_get_bind, hf]
      rfl
    rw [after, run_bind_of_error hnamed]
    exact h
  | some a =>
    rw [after, run_bind_of_ok (Session.run_named hf)]
    refine h.rename [] (List.Subset.trans (hr _) ?_) (List.forall_mem_nil _) _
    exact List.subset_append_left ..

/-- An action that hands buffers over, and then another one. -/
theorem andThen (h : Ledger before made w) {α β : Type} {m : Engine α} {f : α → Engine β}
    (hm : Takes lent w (m.after w)) (hl : ∀ b ∈ lent, w.Knows made b)
    (hf : ∀ a w', m.run w = .ok a w' → Ledger before made w' → Ledger before made ((f a).after w')) :
    Ledger before made ((m >>= f).after w) := by
  have hled := h.takes hm hl
  rw [after_bind]
  cases hr : m.run w with
  | ok a w' => exact hf a w' hr (after_of_ok hr ▸ hled)
  | error e w' => exact after_of_error hr ▸ hled

/-- A property of an instance is written. -/
theorem write (h : Ledger before made w) (id : InstanceId) (index : Nat) {v : NativeValue}
    (hv : ∀ b ∈ v.buffers, w.Knows made b) :
    Ledger before made ((Engine.writeMember id index v).after w) := by
  have hset {i i' : Instance} (hi : w.instance? id = some i) (hi' : i'.buffers ⊆ i.buffers ++ v.buffers) :
      Ledger before made ({ w with
        instances := w.instances.modify id.index fun _ => i' }.letGo i.refs) :=
    (h.takes (.setInstance hi hi') hv).letGo _
  rw [after, Engine.writeMember, run_get_bind, ← after]
  split
  · next c hi =>
    split
    · next c' hc =>
      refine hset hi ?_
      rw [Instance.buffers, Calculator.last_write hc]
      exact List.subset_append_left ..
    · exact h
  · next i slots source hi =>
    split
    · refine hset hi fun b hb => ?_
      obtain ⟨slot, hslot, hb⟩ := List.mem_flatMap.1 hb
      obtain hslot | rfl := List.mem_or_eq_of_mem_set hslot
      · exact List.mem_append_left _ (List.mem_flatMap.2 ⟨slot, hslot, hb⟩)
      · exact List.mem_append_right _ (by simpa using hb)
    · exact h
  · exact h

/-- A foreign value is kept in a property. -/
theorem put (h : Ledger before made w) (id : ObjectId) (key : String) (p : Property) :
    Ledger before made ((putOwn id key p).after w) := by
  cases ho : w.object? id with
  | none =>
    rw [after, putOwn, run_bind_of_error (run_object_gone ho)]
    exact h
  | some o =>
    have hput : Takes [] w (w.putting id key p) := .putting id key p
    rw [after, putOwn, run_bind_of_ok (run_object ho)]
    exact (h.takes hput (List.forall_mem_nil _)).letGo _

/-- **What is done with buffers keeps the ledger right**, with a place more for a buffer that is made. -/
theorem act (h : Ledger before made w) (run : Runner) (a : Sharing) (ha : a.lent ⊆ w.buffers) :
    Ledger before (made ++ a.made) ((a.act run).after w) := by
  have hl : ∀ b ∈ a.lent, w.Knows made b := fun b hb => h.known b (ha hb)
  have hsame (ha : a.made = []) : made ++ a.made = made := by rw [ha, List.append_nil]
  cases a with
  | make name bytes label =>
    obtain ⟨hled, hnew⟩ := h.insert bytes label
    exact hled.assignBuffer hnew name
  | clone name b =>
    rw [hsame rfl]
    exact h.assignBuffer (hl b (List.mem_singleton.2 rfl)) name
  | drop name =>
    rw [hsame rfl]
    refine h.giveUp fun r => ?_
    have hremove : r.buffers.remove name ⊆ r.buffers := List.filter_subset_self _
    exact List.append_subset.2 ⟨List.subset_append_left ..,
      List.Subset.trans (List.map_subset _ hremove) (List.subset_append_right ..)⟩
  | keep name v =>
    rw [hsame rfl]
    exact h.assignNative hl name
  | discard name =>
    rw [hsame rfl]
    refine h.giveUp fun r b hb => ?_
    obtain hnative | hbuffer := List.mem_append.1 hb
    · obtain ⟨e, he, hb⟩ := List.mem_flatMap.1 hnative
      exact List.mem_append_left _ (List.mem_flatMap.2 ⟨e, (List.mem_filter.1 he).1, hb⟩)
    · exact List.mem_append_right _ hbuffer
  | makeMatrix name m =>
    rw [hsame rfl]
    have hmake : Takes [m.data] w ((matrixValue m).after w) := .addInstance (List.Subset.refl _)
    refine h.andThen hmake hl fun v w' hr hled => ?_
    cases hr
    exact hled.assignNative (List.forall_mem_nil _) name
  | read name id index =>
    rw [hsame rfl]
    obtain ⟨found, hfound⟩ := run_readMember w id index
    have hv := (Finds.readMember found w hfound).2
    rw [Sharing.act, after, run_bind_of_ok hfound]
    cases found with
    | none => exact h
    | some v => exact h.assignNative (fun b hb => h.known b (hv v rfl hb)) name
  | write id index v =>
    rw [hsame rfl, Sharing.act, after_bind_pure]
    exact h.write id index hl
  | toForeign name cx v hv =>
    rw [hsame rfl]
    refine h.andThen (Conserves.takes_convertToForeign hv (List.Subset.refl _) w) hl
      fun f w' _ hled => hled.assign name f
  | fromForeign name cx v type =>
    rw [hsame rfl]
    have hsame : Conserves (Takes []) (Session.convertFromForeign cx v type) :=
      Conserves.convertFromForeign
    refine h.andThen (hsame w) (List.forall_mem_nil _) fun n w' hr hled => ?_
    obtain ⟨rfl, hn⟩ := Finds.convertFromForeign n w' hr
    exact hled.assignNative (fun b hb => hled.known b (hn hb)) name
  | assign name v =>
    rw [hsame rfl]
    exact h.assign name v
  | put id key v =>
    rw [hsame rfl]
    exact h.put id key _
  | forget name =>
    rw [hsame rfl]
    refine h.giveUp fun r => ?_
    exact List.Subset.refl _

/-- What has no owner goes, and then a storage is there as long as something holds its buffer. -/
theorem sweep (h : Ledger before made w) :
    Ledger before made w.sweep ∧ ∀ s, w.sweep.storages.contains s ↔ w.sweep.isHeld s :=
  ⟨h.letGo _, contains_storage_sweep h.held fun b hb => (h.known b hb).2⟩

/-- A frame holds no storage that was not held inside of it. -/
theorem framed {α : Type} {m : Engine α}
    (h : Ledger before made (m.after { w with held := [] :: w.held })) :
    Ledger before made ((Engine.framed m).after w) ∧ ∀ s,
      ((Engine.framed m).after w).storages.contains s ↔ ((Engine.framed m).after w).isHeld s := by
  obtain ⟨held, hafter, -, hheld⟩ := after_framed m w
  have hstorages : storagesOf held.flatten = [] := by
    refine List.eq_nil_iff_forall_not_mem.2 fun s hs => ?_
    obtain hs | ⟨v, hs⟩ := hheld _ (mem_storagesOf.1 hs)
    · have hmem := mem_storagesOf.2 hs
      rw [h.held] at hmem
      cases hmem
    · have hmem := mem_storagesOf.2 hs
      rw [ForeignValue.storagesOf_refs] at hmem
      cases hmem
  have hclosed : Ledger before made { m.after { w with held := [] :: w.held } with held } :=
    ⟨hstorages, h.next, h.known, h.label, h.labels⟩
  rw [hafter]
  exact hclosed.sweep

end World.Ledger

/-! ## Any number of steps -/

/-- There is no buffer yet. -/
structure World.Bufferless (w : World) : Prop where
  held : storagesOf w.held.flatten = []
  storages : w.storages = .empty
  buffers : w.buffers = []

theorem World.Bufferless.ledger {w : World} (h : w.Bufferless) : Ledger w.released [] w where
  held := h.held
  next := by rw [h.storages]; rfl
  known b hb := by
    rw [h.buffers] at hb
    cases hb
  label s l hs := by
    rw [h.storages] at hs
    cases hs
  labels := by
    rw [World.labels, h.storages]
    exact .refl _

/-- **The ledger is right after every step**, and a storage is there as long as something holds its buffer. -/
theorem Interleaving.ledger {run : Runner} {w₀ w : World} {as : List Sharing}
    (h : Interleaving run w₀ as w) (h₀ : w₀.Bufferless) :
    Ledger w₀.released (as.flatMap Sharing.made) w ∧
      ∀ s, w.storages.contains s ↔ w.isHeld s := by
  induction h with
  | start =>
    refine ⟨h₀.ledger, fun s => ?_⟩
    rw [h₀.storages, isHeld, h₀.buffers]
    exact iff_of_false Bool.false_ne_true Bool.false_ne_true
  | @step as w _ a ha ih =>
    have hopen : Ledger w₀.released (as.flatMap Sharing.made) { w with held := [] :: w.held } :=
      ⟨ih.1.held, ih.1.next, ih.1.known, ih.1.label, ih.1.labels⟩
    rw [List.flatMap_append, List.flatMap_singleton]
    exact (hopen.act run a ha).framed
  | meanwhile _ hl ht given ih =>
    have htakes := ih.1.takes ht fun b hb => ih.1.known b (hl hb)
    exact (htakes.letGo given).sweep

/-- The label that a storage was made with. -/
def labelOf (made : List (Array UInt8 × Option String)) (s : Nat) : Option String :=
  (made[s]?).bind (·.2)

theorem filterMap_range_getElem? {α : Type} (as : List α) :
    (List.range as.length).filterMap (as[·]?) = as := by
  induction as using List.reverseRecOn with
  | nil => rfl
  | append_singleton as a ih =>
    have hfront : (List.range as.length).filterMap ((as ++ [a])[·]?) =
        (List.range as.length).filterMap (as[·]?) :=
      List.filterMap_congr fun s hs => List.getElem?_append_left (List.mem_range.1 hs)
    rw [List.length_append, List.length_singleton, List.range_succ, List.filterMap_append, hfront, ih]
    simp

theorem filterMap_labelOf (made : List (Array UInt8 × Option String)) :
    (List.range made.length).filterMap (labelOf made) = made.filterMap (·.2) := by
  have h := List.filterMap_filterMap (l := List.range made.length) (f := (made[·]?)) (g := (·.2))
  rw [filterMap_range_getElem?] at h
  exact h.symm

namespace World

/-- The labels of the buffers that nobody holds any more. -/
def gone (w : World) (made : List (Array UInt8 × Option String)) : List String :=
  ((List.range made.length).filter (!w.isHeld ·)).filterMap (labelOf made)

/-- The labels that are still to be reported are those of the buffers that something holds. -/
theorem Ledger.labels_perm {before : List String} {made : List (Array UInt8 × Option String)} {w : World}
    (h : Ledger before made w) (hpresent : ∀ s, w.storages.contains s ↔ w.isHeld s) :
    w.labels.Perm (((List.range made.length).filter w.isHeld).filterMap (labelOf made)) := by
  have hvalues := w.storages.values_perm_range.filterMap id
  rw [List.filterMap_filterMap, h.next] at hvalues
  refine hvalues.trans (.of_eq ?_)
  rw [List.filterMap_filter]
  refine List.filterMap_congr fun s _ => ?_
  have hcontains := hpresent s
  rw [Store.contains_eq_isSome] at hcontains
  cases hs : w.storages.get? s with
  | none =>
    rw [hs] at hcontains
    rw [if_neg fun hheld => by cases hcontains.2 hheld]
    rfl
  | some l =>
    rw [hs] at hcontains
    obtain ⟨m, hm, hl⟩ := Option.map_eq_some_iff.1 (h.label s l hs)
    rw [if_pos (hcontains.1 rfl), labelOf, hm]
    exact hl.symm

/-- **The labels that were reported** are those of the buffers that nobody holds any more. -/
theorem Ledger.released {before : List String} {made : List (Array UInt8 × Option String)} {w : World}
    (h : Ledger before made w) (hpresent : ∀ s, w.storages.contains s ↔ w.isHeld s) :
    w.released.Perm (before ++ w.gone made) := by
  have hparts := (List.filter_append_perm w.isHeld (List.range made.length)).filterMap (labelOf made)
  rw [List.filterMap_append, filterMap_labelOf] at hparts
  refine (List.perm_append_right_iff w.labels).1 (h.labels.trans ?_)
  rw [List.append_assoc]
  refine List.Perm.append_left before (hparts.symm.trans ?_)
  refine List.perm_append_comm.trans ((h.labels_perm hpresent).symm.append_left _)

end World

/-! ## What holds of shared buffers -/

namespace Session

open Engine

variable {run : Runner} {w : World} {cx : ContextId} {id : InstallationId} {i : Installation} {b : Buffer}

/-- The number of handles that is reported is the number of holders. -/
theorem run_bufferInfo (hheld : storagesOf w.held.flatten = []) {name : String}
    (hb : w.roots.buffers.find? name = some b) : (bufferInfo name).run w = .ok (.record
      [("len", .nat b.bytes.size), ("empty", .bool b.bytes.isEmpty),
        ("bytes", .text (Text.hexBytes b.bytes)),
        ("handles", .nat (w.buffers.filter (·.storage = b.storage)).length),
        ("debug", .text b.debug)]) w := by
  have hnamed : (named (·.buffers.find? name)).run w = .ok b w := run_named hb
  rw [bufferInfo, run_bind_of_ok hnamed, ← World.count_storage hheld]
  rfl

/-- The array buffer that shows a buffer. -/
def arrayBuffer (cx : ContextId) (b : Buffer) : Object :=
  { context := cx, kind := .arrayBuffer b }

/-- **A buffer becomes an array buffer** that holds it. -/
theorem convertToForeign_buffer (run : Runner) (hb : w.bridge? cx = some (id, i))
    (he : i.registry.encoder? .buffer = some .buffer) (hn : b.bytes.size ≠ 0)
    (hlimit : b.bytes.size < i.registry.maxBufferLength) :
    ∃ o w', (convertToForeign run cx (.buffer b)).run w = .ok (.object o) w' ∧
      w'.bufferOf (.object o) = some b := by
  have hencode : encode run cx i.registry.maxBufferLength .buffer (.buffer b) =
      (do return .object (← allocate (arrayBuffer cx b))) := by
    change (if b.bytes.size ≠ 0 ∧ b.bytes.size < i.registry.maxBufferLength then _ else _) = _
    exact if_pos ⟨hn, hlimit⟩
  have hconvert : toForeign run cx i.registry (.buffer b) =
      (do return .ok (.object (← allocate (arrayBuffer cx b)))) := by
    rw [toForeign_eq run (by simp) (by simp) he, hencode]
    simp
  refine ⟨⟨w.objects.next⟩, w.adding (arrayBuffer cx b), ?_, ?_⟩
  · rw [convertToForeign, run_bind_of_ok (run_registry hb), hconvert]
    rfl
  · rw [World.bufferOf]
    change ((w.adding (arrayBuffer cx b)).object? ⟨w.objects.next⟩).bind (·.buffer?) = _
    rw [World.object?_adding]
    rfl

/-- **An array buffer becomes the buffer** that it holds. -/
theorem convertFromForeign_buffer (hb : w.bridge? cx = some (id, i))
    (hd : i.registry.decoder? .buffer = some .buffer) {v : ForeignValue} (hv : w.bufferOf v = some b) :
    (convertFromForeign cx v .buffer).run w = .ok (.buffer b) w := by
  have hconvert : w.fromForeign cx i.registry v .buffer = .ok (.ok (.buffer b)) := by
    rw [World.fromForeign, if_neg (by decide), if_neg (by decide), hd]
    simp only [World.probe, World.decode, hv]
    rfl
  rw [convertFromForeign, run_bind_of_ok (run_registry hb), run_bind_of_ok (run_fromForeign hconvert)]
  rfl

end Session

open Session Engine in
/-- **What holds of shared buffers** after those in `made` were made, if the labels in `before` had been
reported before that. -/
structure World.Shares (before : List String) (made : List (Array UInt8 × Option String)) (w : World) :
    Prop where
  /-- Whoever holds a buffer sees the bytes that it was made with. -/
  bytes : ∀ b ∈ w.buffers, (made[b.storage]?).map (·.1) = some b.bytes
  /-- There were no other storages than those of the buffers that were made. -/
  next : w.storages.next = made.length
  /-- Converting a value of any kind to a foreign value, however it ends, makes no storage. -/
  uncopied : ∀ n cx v, w.Uncopied ((convertToForeign (runner n) cx v).after w)
  /-- Foreign code that reads or writes a property makes none either, whatever getter or setter runs. -/
  accessed : ∀ n cx id name, w.Uncopied ((getProperty (runner n) cx id name).after w) ∧
    ∀ v, w.Uncopied ((setProperty (runner n) cx id name v).after w)
  /-- A value that consists of buffers and plain data shares its buffers, and all storages stay. -/
  sent : ∀ run cx (v : NativeValue), v.IsData →
    ((convertToForeign run cx v).after w).storages = w.storages ∧
      ((convertToForeign run cx v).after w).buffers ⊆ w.buffers ++ v.buffers
  /-- By the built-in conversion an array buffer holds the buffer that it was made of. -/
  shown : ∀ run cx id i (b : Buffer), w.bridge? cx = some (id, i) →
    i.registry.encoder? .buffer = some .buffer → b.bytes.size ≠ 0 →
    b.bytes.size < i.registry.maxBufferLength →
    ∃ o w', (convertToForeign run cx (.buffer b)).run w = .ok (.object o) w' ∧
      w'.bufferOf (.object o) = some b
  /-- Converting to a native value changes nothing, and gives buffers that something holds. -/
  received : ∀ cx v t, (convertFromForeign cx v t).after w = w ∧
    ∀ n w', (convertFromForeign cx v t).run w = .ok n w' → n.buffers ⊆ w.buffers
  /-- By the built-in conversion an array buffer becomes the buffer that it holds. -/
  taken : ∀ cx id i v b, w.bridge? cx = some (id, i) → i.registry.decoder? .buffer = some .buffer →
    w.bufferOf v = some b → (convertFromForeign cx v .buffer).run w = .ok (.buffer b) w
  /-- The number of handles that is reported is the number of holders. -/
  handles : ∀ name b, w.roots.buffers.find? name = some b → (bufferInfo name).run w = .ok (.record
    [("len", .nat b.bytes.size), ("empty", .bool b.bytes.isEmpty),
      ("bytes", .text (Text.hexBytes b.bytes)),
      ("handles", .nat (w.buffers.filter (·.storage = b.storage)).length),
      ("debug", .text b.debug)]) w
  /-- A storage is there as long as something holds its buffer. -/
  present : ∀ s, w.storages.contains s ↔ w.isHeld s
  /-- The labels that were reported since are those of the buffers that nothing holds, each once. -/
  released : w.released.Perm (before ++ w.gone made)

/-- **Shared buffers**: whatever is done with them in whatever order, all holders see the bytes that a
buffer was made with, converting copies nothing, holders are counted right, and a label is reported once, as
soon as nothing holds its buffer any more. -/
theorem Interleaving.shares {run : Runner} {w₀ w : World} {as : List Sharing}
    (h : Interleaving run w₀ as w) (h₀ : w₀.Bufferless) :
    w.Shares w₀.released (as.flatMap Sharing.made) := by
  obtain ⟨hledger, hpresent⟩ := h.ledger h₀
  exact {
    bytes := fun b hb => (hledger.known b hb).1
    next := hledger.next
    uncopied := fun n cx v => Uncopied.convertToForeign n w
    accessed := fun n cx id name => ⟨Conserves.getProperty (Uncopied.answers n) w,
      fun v => Conserves.setProperty (Uncopied.answers n) w⟩
    sent := fun run cx v hv =>
      have h := Conserves.takes_convertToForeign hv (List.Subset.refl _) w
      ⟨h.storages, h.buffers⟩
    shown := fun run _ _ _ _ hb he hn hlimit => Session.convertToForeign_buffer run hb he hn hlimit
    received := fun cx v t => by
      have hsame : Conserves Eq (Session.convertFromForeign cx v t) := Conserves.convertFromForeign
      exact ⟨(hsame w).symm, fun n w' hr => (Engine.Finds.convertFromForeign n w' hr).2⟩
    taken := fun _ _ _ _ _ hb hd hv => Session.convertFromForeign_buffer hb hd hv
    handles := fun _ _ hb => Session.run_bufferInfo hledger.held hb
    present := hpresent
    released := hledger.released hpresent }

namespace Sharing

/-- The world in which a session starts. -/
def started : World :=
  match Session.start {} Session.defaultSetup with
  | .ok w => w
  | .error _ => {}

/-- Two bytes in the first storage. -/
def pair : Buffer :=
  ⟨0, #[1, 2]⟩

theorem isData_pair : (NativeValue.buffer pair).IsData :=
  fun _ hr => ⟨0, List.mem_singleton.1 hr⟩

/-- A buffer is made, foreign code gets it, and its name is given up. -/
def handed : List Sharing :=
  [make "native" #[1, 2] (some "gone"), toForeign "foreign" ⟨0⟩ (.buffer pair) isData_pair, drop "native"]

/-- The world after some steps. -/
def run (w : World) (as : List Sharing) : World :=
  as.foldl (fun w a => (Engine.framed (a.act (Session.runner Session.depthLimit))).after w) w

theorem interleaving_run {w : World} {as : List Sharing}
    (h : Interleaving (Session.runner Session.depthLimit) w as (run w as)) (a : Sharing)
    (ha : a.lent ⊆ (run w as).buffers) :
    Interleaving (Session.runner Session.depthLimit) w (as ++ [a]) (run w (as ++ [a])) := by
  have hrun : run w (as ++ [a]) =
      (Engine.framed (a.act (Session.runner Session.depthLimit))).after (run w as) := by
    rw [run, List.foldl_append]
    rfl
  rw [hrun]
  exact h.step a ha

end Sharing

open Sharing in
set_option maxRecDepth 100000 in
/-- The label of a buffer that foreign code has is not reported, though its name was given up. -/
theorem Interleaving.shares_handed : started.Bufferless ∧
    (Sharing.run started handed).Shares [] [(#[1, 2], some "gone")] ∧
    (Sharing.run started handed).released = [] := by
  have hstart : started.Bufferless := ⟨by cbv, by cbv, by cbv⟩
  have hmade : (Sharing.run started (handed.take 1)).buffers = [pair] := by cbv
  have hbefore : started.released = [] := by cbv
  have hnew : Interleaving (Session.runner Session.depthLimit) started (handed.take 1)
      (Sharing.run started (handed.take 1)) := interleaving_run .start _ (List.nil_subset _)
  have hforeign : Interleaving (Session.runner Session.depthLimit) started (handed.take 2)
      (Sharing.run started (handed.take 2)) := by
    refine interleaving_run hnew _ ?_
    rw [hmade]
    exact List.Subset.refl _
  have hhanded : Interleaving (Session.runner Session.depthLimit) started handed
      (Sharing.run started handed) := interleaving_run hforeign (drop "native") (List.nil_subset _)
  exact ⟨hstart, hbefore ▸ hhanded.shares hstart, by cbv⟩

end Isthmus
