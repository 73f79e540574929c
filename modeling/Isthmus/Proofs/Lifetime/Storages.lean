import Isthmus.Proofs.Lifetime.Edits

/-!
# Proofs/Lifetime/Storages — who holds a buffer, and when its storage goes

`World.buffers` lists the buffers that something holds, one entry for each holder: a name, an array buffer,
a matrix or another instance, a deferred, a wake that is queued or is to be, a job.  Their storages are the
storages that the world refers to, unless a running action holds one by itself (`storages_references`), so the
owners of a storage are the holders of its buffer (`count_storage`).

A release takes holders away and adds none, and a storage stays as long as it has one (`loses_release`).
Every label that a storage was made with is either still to come or was reported, and a release only moves
labels from the one to the other (`labels_release`).
-/

namespace Isthmus

/-! ## Holders -/

mutual

/-- The buffers in a native value, one entry for each occurrence. -/
def NativeValue.buffers : NativeValue → List Buffer
  | .buffer b => [b]
  | .list items => NativeValue.buffersIn items
  | .variant content => content.buffers
  | _ => []

/-- The buffers in the items of a list. -/
def NativeValue.buffersIn : List NativeValue → List Buffer
  | [] => []
  | v :: rest => v.buffers ++ NativeValue.buffersIn rest

end

/-- The buffer that an object shows to foreign code. -/
def Object.buffers (o : Object) : List Buffer :=
  o.buffer?.toList

/-- The buffers that an instance holds. -/
def Instance.buffers : Instance → List Buffer
  | .calculator c => c.last.toList.flatMap NativeValue.buffers
  | .matrix m => [m.data]
  | .puppet _ slots _ => slots.flatMap fun slot => slot.toList.flatMap NativeValue.buffers
  | _ => []

/-- The buffers in a queued wake. -/
def Wake.buffers : Wake → List Buffer
  | .settle _ _ v => v.buffers
  | .event _ args => NativeValue.buffersIn args
  | .script .. => []

/-- The buffers in a wake that is to be queued. -/
def Errand.buffers : Errand → List Buffer
  | .aimed _ _ args => NativeValue.buffersIn args
  | .armed _ wake => wake.buffers

/-- The buffers that a job works with. -/
def Job.buffers : Job → List Buffer
  | .image _ (.resize source ..) => [source.data]
  | .image _ (.load _) => []
  | .count .. => []
  | .complete _ outcome => outcome.toList.flatMap fun o => o.2.buffers
  | .emit _ _ args => NativeValue.buffersIn args

/-- The buffers that names stand for, in native values and by themselves. -/
def Roots.sharedBuffers (r : Roots) : List Buffer :=
  r.natives.flatMap (·.2.buffers) ++ r.buffers.map (·.2)

/-- The buffers that something holds, one entry for each holder. -/
def World.buffers (w : World) : List Buffer :=
  w.roots.sharedBuffers ++ w.objects.values.flatMap Object.buffers ++
    w.instances.values.flatMap Instance.buffers ++
    w.deferreds.values.flatMap (fun d => d.value.buffers) ++
    w.loops.values.flatMap (fun l => l.queue.flatMap Wake.buffers) ++
    w.delivering.flatMap (fun d => d.2.buffers) ++ w.jobs.flatMap Job.buffers ++
    w.errands.flatMap Errand.buffers

/-- Something holds a buffer of the storage. -/
def World.isHeld (w : World) (s : Nat) : Bool :=
  w.buffers.any (·.storage = s)

/-- A storage is held when a buffer shows it. -/
theorem World.isHeld_iff {w : World} {s : Nat} : w.isHeld s ↔ ∃ b ∈ w.buffers, b.storage = s := by
  simp [isHeld]

/-! ## Storages among references -/

/-- The storage that a reference is to. -/
def Ref.storage? : Ref → Option Nat
  | .storage s => some s
  | _ => none

/-- The storages that references are to. -/
def storagesOf (refs : List Ref) : List Nat :=
  refs.filterMap Ref.storage?

@[simp] theorem storagesOf_nil : storagesOf [] = [] := rfl

@[simp] theorem storagesOf_append (refs more : List Ref) :
    storagesOf (refs ++ more) = storagesOf refs ++ storagesOf more :=
  List.filterMap_append

@[simp] theorem storagesOf_cons (r : Ref) (refs : List Ref) :
    storagesOf (r :: refs) = r.storage?.toList ++ storagesOf refs := by
  rw [storagesOf, List.filterMap_cons]
  cases r.storage? <;> rfl

/-- The storages among many references are those among each. -/
theorem storagesOf_flatMap {α : Type} (f : α → List Ref) (as : List α) :
    storagesOf (as.flatMap f) = as.flatMap fun a => storagesOf (f a) := by
  induction as with
  | nil => rfl
  | cons a as ih => rw [List.flatMap_cons, storagesOf_append, ih, List.flatMap_cons]

@[simp] theorem mem_storagesOf {refs : List Ref} {s : Nat} : s ∈ storagesOf refs ↔ .storage s ∈ refs := by
  rw [storagesOf, List.mem_filterMap]
  constructor
  · rintro ⟨r, hr, hs⟩
    cases r <;> cases hs
    exact hr
  · exact fun h => ⟨_, h, rfl⟩

/-- A storage is counted once for each reference. -/
theorem count_storagesOf (refs : List Ref) (s : Nat) :
    (storagesOf refs).count s = refs.count (.storage s) := by
  induction refs with
  | nil => rfl
  | cons r refs ih =>
    rw [storagesOf_cons, List.count_append, ih, List.count_cons, Nat.add_comm]
    congr 1
    cases r with
    | storage s' => simp [Ref.storage?, List.count_cons]
    | _ => rfl

/-- What refers to no storage. -/
theorem storagesOf_eq_nil {refs : List Ref} (h : ∀ r ∈ refs, r.storage? = none) :
    storagesOf refs = [] :=
  List.filterMap_eq_nil_iff.2 h

/-- What refers to no storage refers to none. -/
theorem storagesOf_map_none {α : Type} {f : α → Ref} (hf : ∀ a, (f a).storage? = none)
    (as : List α) : storagesOf (as.map f) = [] := by
  refine storagesOf_eq_nil fun r hr => ?_
  obtain ⟨a, -, rfl⟩ := List.mem_map.1 hr
  exact hf a

/-- Parts that refer to the storages of their buffers make a whole that does. -/
theorem storagesOf_flatMap_eq {α : Type} {f : α → List Ref} {g : α → List Buffer}
    (h : ∀ a, storagesOf (f a) = (g a).map (·.storage)) (as : List α) :
    storagesOf (as.flatMap f) = (as.flatMap g).map (·.storage) := by
  rw [storagesOf_flatMap, List.map_flatMap]
  simp only [h]

/-- Parts that refer to no storage make a whole that does not. -/
theorem storagesOf_flatMap_nil {α : Type} {f : α → List Ref} (h : ∀ a, storagesOf (f a) = [])
    (as : List α) : storagesOf (as.flatMap f) = [] := by
  rw [storagesOf_flatMap, List.flatMap_eq_nil_iff]
  exact fun a _ => h a

mutual

/-- A native value refers to the storages of its buffers. -/
theorem NativeValue.storagesOf_refs : (v : NativeValue) → storagesOf v.refs = v.buffers.map (·.storage)
  | .buffer _ => rfl
  | .list items => storagesOf_refsIn items
  | .variant content => content.storagesOf_refs
  | .void | .bool _ | .int _ | .double _ | .string _ | .object .. | .deferred _ => rfl

/-- A list shows the storages of its items. -/
theorem NativeValue.storagesOf_refsIn : (vs : List NativeValue) →
    storagesOf (NativeValue.refsIn vs) = (NativeValue.buffersIn vs).map (·.storage)
  | [] => rfl
  | v :: vs => by
    rw [NativeValue.refsIn, NativeValue.buffersIn, storagesOf_append, List.map_append, v.storagesOf_refs,
      storagesOf_refsIn vs]

end

@[simp] theorem ForeignValue.storagesOf_refs (v : ForeignValue) : storagesOf v.refs = [] := by
  cases v <;> rfl

theorem Property.storagesOf_refs (p : Property) : storagesOf p.refs = [] := by
  cases p with
  | data v _ _ => exact v.storagesOf_refs
  | accessor _ _ _ _ => rfl

/-- An object shows the storages of its buffers. -/
theorem Object.storagesOf_refs (o : Object) : storagesOf o.refs = o.buffers.map (·.storage) := by
  have hattachment : storagesOf (refsOf Attachment.refs o.attachment) = [] := by
    obtain _ | h | d := o.attachment <;> rfl
  have hprototype : storagesOf (refsOf (fun p => [Ref.object p]) o.prototype) = [] := by
    cases o.prototype <;> rfl
  have hproperties : storagesOf (o.properties.flatMap (·.2.refs)) = [] :=
    storagesOf_flatMap_nil (fun e => e.2.storagesOf_refs) _
  have hkind : storagesOf o.kind.refs = o.buffers.map (·.storage) := by
    rw [Object.buffers, Object.buffer?]
    cases o.kind with
    | arrayBuffer b => rfl
    | array items => exact storagesOf_flatMap_nil ForeignValue.storagesOf_refs items
    | promise state =>
      cases state with
      | pending reactions => rfl
      | fulfilled v => exact v.storagesOf_refs
      | rejected v => exact v.storagesOf_refs
    | _ => rfl
  rw [Object.refs, Object.contents, storagesOf_append, storagesOf_append, storagesOf_append, hattachment,
    hprototype, hproperties, hkind, List.nil_append, List.append_nil, List.append_nil]

theorem NativeValue.storagesOf_refsOf (v : Option NativeValue) :
    storagesOf (refsOf NativeValue.refs v) =
      (v.toList.flatMap NativeValue.buffers).map (·.storage) := by
  cases v with
  | none => rfl
  | some v => simp [refsOf, v.storagesOf_refs]

/-- So does an instance. -/
theorem Instance.storagesOf_refs (i : Instance) : storagesOf i.refs = i.buffers.map (·.storage) := by
  cases i with
  | calculator c => exact NativeValue.storagesOf_refsOf c.last
  | puppet _ slots source =>
    rw [Instance.refs, Instance.buffers, storagesOf_append,
      storagesOf_flatMap_eq NativeValue.storagesOf_refsOf]
    exact List.append_nil _
  | _ => rfl

/-- So does a wake. -/
theorem Wake.storagesOf_refs (wake : Wake) : storagesOf wake.refs = wake.buffers.map (·.storage) := by
  cases wake with
  | settle _ _ v => exact v.storagesOf_refs
  | event _ args => exact NativeValue.storagesOf_refsIn args
  | script _ _ => rfl

/-- So does an errand. -/
theorem Errand.storagesOf_refs (e : Errand) : storagesOf e.refs = e.buffers.map (·.storage) := by
  cases e with
  | aimed _ _ args => exact NativeValue.storagesOf_refsIn args
  | armed _ wake => exact wake.storagesOf_refs

/-- So does a job. -/
theorem Job.storagesOf_refs (job : Job) : storagesOf job.refs = job.buffers.map (·.storage) := by
  cases job with
  | image _ work => cases work <;> rfl
  | count _ _ => rfl
  | complete _ outcome =>
    cases outcome with
    | none => rfl
    | some o => simp [Job.refs, Job.buffers, refsOf, Ref.storage?, o.2.storagesOf_refs]
  | emit _ _ args => exact NativeValue.storagesOf_refsIn args

/-- So does what the host has given names. -/
theorem Roots.storagesOf_refs (r : Roots) : storagesOf r.refs = r.sharedBuffers.map (·.storage) := by
  have hvalues : storagesOf (r.values.flatMap (·.2.refs)) = [] :=
    storagesOf_flatMap_nil (fun e => e.2.storagesOf_refs) _
  have hnatives : storagesOf (r.natives.flatMap (·.2.refs)) =
      (r.natives.flatMap (·.2.buffers)).map (·.storage) :=
    storagesOf_flatMap_eq (fun e => e.2.storagesOf_refs) _
  have hbuffers : storagesOf (r.buffers.map fun e => .storage e.2.storage) =
      (r.buffers.map (·.2)).map (·.storage) := by
    rw [storagesOf, List.filterMap_map, List.map_map, ← List.filterMap_eq_map]
    rfl
  rw [Roots.refs, Roots.sharedBuffers]
  simp only [storagesOf_append, hvalues, hnatives, hbuffers, List.map_append]
  rw [storagesOf_map_none fun _ => rfl, storagesOf_map_none fun _ => rfl,
    storagesOf_map_none fun _ => rfl, storagesOf_map_none fun _ => rfl, storagesOf_map_none fun _ => rfl]
  simp only [List.nil_append, List.append_nil]

namespace World

variable {w : World}

/-- **The storages that the world refers to** are those of the buffers that something holds, unless a running
action holds one by itself. -/
theorem storages_references (h : storagesOf w.held.flatten = []) :
    storagesOf w.references = w.buffers.map (·.storage) := by
  have hhandles : storagesOf (w.handles.values.flatMap Handle.refs) = [] := by
    refine storagesOf_flatMap_nil (fun h => ?_) _
    obtain ⟨cls, inst, ownership, state, _ | c⟩ := h <;> rfl
  have hchannels : storagesOf (w.channels.values.flatMap Channels.refs) = [] :=
    storagesOf_flatMap_nil (fun _ => rfl) _
  have hinstallations : storagesOf (w.installations.values.flatMap Installation.refs) = [] := by
    refine storagesOf_flatMap_nil (fun i => ?_) _
    rw [Installation.refs, storagesOf_append, storagesOf_append, storagesOf_map_none (fun _ => rfl),
      storagesOf_map_none (fun _ => rfl), storagesOf_flatMap_nil fun e => e.2.storagesOf_refs]
    rfl
  have hcontexts : storagesOf (w.contexts.values.flatMap Context.refs) = [] := by
    refine storagesOf_flatMap_nil (fun c => ?_) _
    obtain ⟨global, _ | _ | _, depth, diagnostics, _ | o⟩ := c <;> rfl
  simp only [references, buffers, storagesOf_append, List.map_append, Roots.storagesOf_refs, h, hhandles,
    hchannels, hinstallations, hcontexts, List.append_nil,
    storagesOf_flatMap_eq Object.storagesOf_refs, storagesOf_flatMap_eq Instance.storagesOf_refs,
    storagesOf_flatMap_eq fun d : Deferred Settlement => d.value.storagesOf_refs,
    storagesOf_flatMap_eq fun l : Loop => storagesOf_flatMap_eq Wake.storagesOf_refs l.queue,
    storagesOf_flatMap_eq fun d : ContextId × Wake => d.2.storagesOf_refs,
    storagesOf_flatMap_eq Job.storagesOf_refs, storagesOf_flatMap_eq Errand.storagesOf_refs]

/-- **The owners of a storage** are the holders of its buffer. -/
theorem count_storage (h : storagesOf w.held.flatten = []) (s : Nat) :
    w.count (.storage s) = (w.buffers.filter (·.storage = s)).length := by
  rw [count, ← count_storagesOf, storages_references h, List.count, List.countP_map,
    ← List.countP_eq_length_filter]
  refine List.countP_congr fun b _ => ?_
  simp

/-- **A storage is owned when a buffer somewhere shows it**, and nothing is held. -/
theorem storage_mem_references (h : storagesOf w.held.flatten = []) {s : Nat} :
    .storage s ∈ w.references ↔ ∃ b ∈ w.buffers, b.storage = s := by
  rw [← mem_storagesOf, storages_references h, List.mem_map]

/-- What holds a buffer refers to its storage. -/
theorem storage_mem_of_buffers {b : Buffer} (h : b ∈ w.buffers) : .storage b.storage ∈ w.references := by
  have hmem := (storage_mem_references (w := { w with held := [] }) rfl).2 ⟨b, h, rfl⟩
  simp only [references, List.flatten_nil, List.append_nil] at hmem
  simp only [references, List.mem_append] at hmem ⊢
  grind

end World

/-! ## What a release takes away -/

namespace Store

variable {α β : Type} {s : Store α} {key : Nat} {a : α}

/-- An entry that goes adds nothing. -/
theorem flatMap_erase_subset (f : α → List β) (s : Store α) (key : Nat) :
    (s.erase key).values.flatMap f ⊆ s.values.flatMap f := by
  intro b hb
  obtain ⟨a, ha, hb⟩ := List.mem_flatMap.1 hb
  obtain ⟨k, hk⟩ := mem_values.1 ha
  rw [get?_erase] at hk
  split at hk
  · cases hk
  · exact List.mem_flatMap.2 ⟨a, mem_values.2 ⟨k, hk⟩, hb⟩

/-- What the things in a store hold, if one of them comes to hold something else. -/
theorem flatMap_modify_subset {f : α → List β} {g : α → α} {more : List β} (s : Store α) (key : Nat)
    (hg : ∀ a, s.get? key = some a → f (g a) ⊆ f a ++ more) :
    (s.modify key g).values.flatMap f ⊆ s.values.flatMap f ++ more := by
  intro b hb
  obtain ⟨a, ha, hb⟩ := List.mem_flatMap.1 hb
  obtain ⟨k, hk⟩ := mem_values.1 ha
  rw [get?_modify] at hk
  split at hk
  · next hkey =>
    obtain ⟨a', ha', rfl⟩ := Option.map_eq_some_iff.1 hk
    obtain h | h := List.mem_append.1 (hg a' (hkey ▸ ha') hb)
    · exact List.mem_append_left _ (List.mem_flatMap.2 ⟨a', mem_values.2 ⟨k, ha'⟩, h⟩)
    · exact List.mem_append_right _ h
  · exact List.mem_append_left _ (List.mem_flatMap.2 ⟨a, mem_values.2 ⟨k, hk⟩, hb⟩)

@[simp] theorem values_insert (s : Store α) (a : α) : (s.insert a).values = s.values ++ [a] := by
  simp [values, insert]

/-- No entry is there twice. -/
theorem nodup_entries (s : Store α) : s.entries.Nodup := by
  refine s.ascending.imp fun h he => ?_
  rw [he] at h
  exact Nat.lt_irrefl _ h

/-- A thing that is taken out is the one thing that is missing afterwards. -/
theorem values_perm_erase (h : s.get? key = some a) : s.values.Perm (a :: (s.erase key).values) := by
  have hkey : (key, a) ∉ (s.erase key).entries := by simp [erase]
  have hentries : s.entries.Perm ((key, a) :: (s.erase key).entries) := by
    rw [List.perm_ext_iff_of_nodup s.nodup_entries
      (List.nodup_cons.2 ⟨hkey, (s.erase key).nodup_entries⟩)]
    rintro ⟨k, b⟩
    by_cases hk : k = key
    · subst hk
      rw [List.mem_cons, ← get?_eq_some_iff, ← get?_eq_some_iff, get?_erase, h]
      simp [eq_comm]
    · simp [erase, hk]
  exact hentries.map _

/-- The things in a store, by their keys. -/
theorem values_perm_range (s : Store α) : s.values.Perm ((List.range s.next).filterMap s.get?) := by
  have hentries : s.entries.Perm
      ((List.range s.next).filterMap fun k => (s.get? k).map fun a => (k, a)) := by
    rw [List.perm_ext_iff_of_nodup s.nodup_entries (List.nodup_range.filterMap ?_)]
    · rintro ⟨k, b⟩
      rw [← get?_eq_some_iff]
      simp only [List.mem_filterMap, List.mem_range, Option.map_eq_some_iff, Prod.mk.injEq]
      constructor
      · exact fun h => ⟨k, lt_next_of_get? h, b, h, rfl, rfl⟩
      · rintro ⟨k, -, b, h, rfl, rfl⟩
        exact h
    · rintro k k' e he he'
      obtain ⟨b, -, rfl⟩ := Option.map_eq_some_iff.1 he
      obtain ⟨b', -, h⟩ := Option.map_eq_some_iff.1 he'
      exact (Prod.mk.inj h).1.symm
  have hvalues := hentries.map Prod.snd
  rw [List.map_filterMap] at hvalues
  refine hvalues.trans (List.Perm.of_eq (List.filterMap_congr fun k _ => ?_))
  cases s.get? k <;> rfl

end Store

namespace World

variable {w : World}

/-- A loop that takes a wake in holds what is in the wake. -/
theorem buffers_post_subset (w : World) (cx : ContextId) (wake : Wake) :
    (w.post cx wake).1.buffers ⊆ w.buffers ++ wake.buffers := by
  have hloops {g : Loop → Loop} (hg : ∀ l, (g l).queue.flatMap Wake.buffers ⊆
      l.queue.flatMap Wake.buffers ++ wake.buffers) :=
    Store.flatMap_modify_subset (f := fun l => l.queue.flatMap Wake.buffers) w.loops cx.index
      fun l _ => hg l
  rw [post]
  split
  · have hqueue := @hloops (fun l => { l with queue := l.queue ++ [wake] }) fun l => by simp
    intro b hb
    simp only [buffers, List.mem_append] at hb ⊢
    have hqueue := fun h => List.mem_append.1 (@hqueue b h)
    tauto
  · have hqueue := @hloops (fun l => { l with live := l.live - 1 }) fun l => List.subset_append_left ..
    intro b hb
    simp only [buffers, unregister, List.mem_append] at hb ⊢
    have hqueue := fun h => List.mem_append.1 (@hqueue b h)
    tauto

/-- Forgetting callbacks loses no buffer. -/
theorem buffers_prune (w : World) (id : InstallationId) : (w.prune id).1.buffers = w.buffers := by
  rw [prune]
  split <;> rfl

/-- **Nothing comes to hold a buffer** when a thing is destroyed. -/
theorem buffers_destroy_subset (w : World) (r : Ref) : (w.destroy r).1.buffers ⊆ w.buffers := by
  have hdeferreds (id : DeferredId) :
      { w with deferreds := w.deferreds.erase id.index }.buffers ⊆ w.buffers := by
    intro b hb
    have herase := Store.flatMap_erase_subset (fun d => d.value.buffers) w.deferreds id.index
    simp only [buffers, List.mem_append] at hb ⊢
    tauto
  generalize hw' : (w.destroy r).1 = w'
  have h := hw' ▸ w.destroys r
  cases h with
  | object =>
    intro b hb
    have herase := Store.flatMap_erase_subset Object.buffers w.objects
    simp only [buffers, List.mem_append] at hb ⊢
    tauto
  | inst =>
    intro b hb
    have herase := Store.flatMap_erase_subset Instance.buffers w.instances
    simp only [buffers, List.mem_append] at hb ⊢
    tauto
  | channels hc =>
    rw [buffers_prune]
    exact List.Subset.refl _
  | deferred hd ha => exact hdeferreds _
  | @abandoned id d k hd ha =>
    have hpost := (w.expire id).buffers_post_subset k.context
      (.settle k.slot .rejected Deferred.droppedReason)
    have hdropped : (Wake.settle k.slot .rejected Deferred.droppedReason).buffers = [] := rfl
    rw [hdropped, List.append_nil] at hpost
    exact List.Subset.trans hpost (hdeferreds id)
  | gone | handle | source | storage | installation => exact List.Subset.refl _

/-- Holders go, and so do storages, but none that has a holder left. -/
structure Loses (w w' : World) : Prop where
  buffers : w'.buffers ⊆ w.buffers
  storages : ∀ s label, w'.storages.get? s = some label → w.storages.get? s = some label
  next : w'.storages.next = w.storages.next
  spares : ∀ b ∈ w'.buffers, w.storages.contains b.storage → w'.storages.contains b.storage

instance : IsPreorder World Loses where
  refl _ := ⟨List.Subset.refl _, fun _ _ h => h, rfl, fun _ _ h => h⟩
  trans _ _ _ h h' :=
    ⟨List.Subset.trans h'.buffers h.buffers, fun s label hs => h.storages s label (h'.storages s label hs),
      h'.next.trans h.next, fun b hb hs => h'.spares b hb (h.spares b (h'.buffers hb) hs)⟩

/-- Destroying a thing reports nothing by itself. -/
theorem log_destroy (w : World) (r : Ref) : (w.destroy r).1.log = w.log := by
  have hpost (w : World) (cx : ContextId) (wake : Wake) : (w.post cx wake).1.log = w.log := by
    rw [post]
    split <;> rfl
  generalize hw' : (w.destroy r).1 = w'
  have h := hw' ▸ w.destroys r
  cases h with
  | channels hc =>
    rw [prune]
    split <;> rfl
  | abandoned => exact hpost _ _ _
  | _ => rfl

/-- What becomes of storages when a thing is destroyed. -/
theorem storages_destroy (w : World) (r : Ref) : (w.destroy r).1.storages = w.storages ∨
    ∃ s, r = .storage s ∧ (w.destroy r).1.storages = w.storages.erase s := by
  have hpost (w : World) (cx : ContextId) (wake : Wake) : (w.post cx wake).1.storages = w.storages := by
    rw [post]
    split <;> rfl
  generalize hw' : (w.destroy r).1 = w'
  have h := hw' ▸ w.destroys r
  cases h with
  | @storage s => exact .inr ⟨s, rfl, rfl⟩
  | channels hc =>
    refine .inl ?_
    rw [prune]
    split <;> rfl
  | abandoned => exact .inl (hpost _ _ _)
  | _ => exact .inl rfl

/-- **What is destroyed loses its buffers**, and nothing else does. -/
theorem loses_destroy {r : Ref} (h : r ∉ w.references) : Loses w (w.destroy r).1 where
  buffers := w.buffers_destroy_subset r
  storages s label hs := by
    obtain he | ⟨s', -, he⟩ := w.storages_destroy r
    · rwa [he] at hs
    · rw [he, Store.get?_erase] at hs
      split at hs
      · cases hs
      · exact hs
  next := by
    obtain he | ⟨s', -, he⟩ := w.storages_destroy r
    · rw [he]
    · rw [he]
      rfl
  spares b hb hs := by
    have hne : Ref.storage b.storage ≠ r := fun he =>
      h (he ▸ storage_mem_of_buffers (w.buffers_destroy_subset r hb))
    have hc := w.contains_destroy r (.storage b.storage)
    rw [decide_eq_true hne, Bool.and_true] at hc
    exact hc.trans hs

/-- **A release takes holders away**, and storages that have none left. -/
theorem loses_release (w : World) (fs : List Farewell) : Loses w (w.release fs) :=
  release_induction (fun _ _ => ⟨List.Subset.refl _, fun _ _ h => h, rfl, fun _ _ h => h⟩)
    (fun _ _ h => loses_destroy h) w fs

/-- **After a sweep a storage is there as long as something holds its buffer.** -/
theorem contains_storage_sweep (h : storagesOf w.held.flatten = [])
    (hlive : ∀ b ∈ w.buffers, w.storages.contains b.storage) (s : Nat) :
    w.sweep.storages.contains s ↔ w.sweep.isHeld s := by
  have hloses : Loses w w.sweep := loses_release w _
  have hheld : storagesOf w.sweep.held.flatten = [] := by
    rw [sweep, letGo, (Thins.release w _).held, h]
  rw [isHeld_iff]
  constructor
  · intro hs
    refine (storage_mem_references hheld).1 (Decidable.byContradiction fun hr => ?_)
    have hunowned : Ref.storage s ∈ w.sweep.unowned := mem_unowned_iff.2 ⟨hs, hr⟩
    rw [unowned_sweep] at hunowned
    cases hunowned
  · rintro ⟨b, hb, rfl⟩
    exact hloses.spares b hb (hlive b (hloses.buffers hb))

end World

/-! ## Labels -/

/-- The label that an entry of the log reports for a storage that went. -/
def Document.released? : Document → Option String
  | .record [("released", .text label)] => some label
  | _ => none

/-- The label that is reported while things are let go of. -/
def Farewell.released? : Farewell → Option String
  | .report entry => entry.released?
  | .letGo _ => none

namespace World

variable {w : World}

/-- The labels of storages that went, as the log reports them, newest first. -/
def released (w : World) : List String :=
  w.log.filterMap Document.released?

/-- The labels of the storages that are there. -/
def labels (w : World) : List String :=
  w.storages.values.filterMap id

/-- Letting go reports nothing by itself. -/
theorem released_letGo (refs : List Ref) :
    (refs.map Farewell.letGo).filterMap Farewell.released? = [] := by
  rw [List.filterMap_map]
  exact List.filterMap_eq_nil_iff.2 fun _ _ => rfl

/-- What goes without being a storage leaves no label to report. -/
theorem released_destroy (w : World) {r : Ref} (h : r.storage? = none) :
    (w.destroy r).2.filterMap Farewell.released? = [] := by
  have hposted (w : World) (cx : ContextId) (wake : Wake) :
      (w.post cx wake).2.filterMap Farewell.released? = [] := by
    rw [post]
    split
    · rfl
    · exact released_letGo _
  have hpruned (w : World) (id : InstallationId) :
      (w.prune id).2.filterMap Farewell.released? = [] := by
    rw [prune]
    split
    · rfl
    · exact released_letGo _
  have hfinalized (labels : List String) : (labels.map fun label =>
      Farewell.report (.record [("finalized", .text label)])).filterMap Farewell.released? = [] := by
    rw [List.filterMap_map]
    exact List.filterMap_eq_nil_iff.2 fun label _ => by simp [Farewell.released?, Document.released?]
  cases r with
  | storage s => cases h
  | object id =>
    rw [destroy]
    split
    · rfl
    · rw [List.filterMap_append, List.filterMap_append, released_letGo, hfinalized, released_letGo]
      rfl
  | handle id | inst id | installation id =>
    rw [destroy]
    split
    · rfl
    · exact released_letGo _
  | deferred id =>
    rw [destroy]
    split
    · rfl
    · split
      · rw [List.filterMap_append, hposted, released_letGo]
        rfl
      · exact released_letGo _
  | source id =>
    rw [destroy]
    split <;> rfl
  | channels id =>
    rw [destroy]
    split
    · rfl
    · rw [List.filterMap_append, hpruned, released_letGo]
      rfl

/-- The label of a storage that goes is still to be reported. -/
theorem labels_destroy (w : World) (r : Ref) :
    ((w.destroy r).2.filterMap Farewell.released? ++ (w.destroy r).1.labels).Perm w.labels := by
  cases r with
  | storage s =>
    rw [destroy]
    split
    · exact .refl _
    · next label h =>
      have hreports : (label.toList.map fun label => Farewell.report
          (.record [("released", .text label)])).filterMap Farewell.released? = label.toList := by
        cases label <;> simp [Farewell.released?, Document.released?]
      have hlabels := (Store.values_perm_erase h).filterMap id
      rw [hreports, labels, labels]
      cases label with
      | none => exact hlabels.symm
      | some label => exact hlabels.symm
  | _ =>
    rw [released_destroy w rfl, labels, labels]
    obtain h | ⟨s, hs, -⟩ := w.storages_destroy _
    · rw [h]
      exact .refl _
    · cases hs

/-- What one thing of a release reports or leaves to report. -/
theorem labels_farewell (w : World) (rest : List Farewell) (f : Farewell) :
    ((w.farewell rest f).2.filterMap Farewell.released? ++
      ((w.farewell rest f).1.released ++ (w.farewell rest f).1.labels)).Perm
      (f.released?.toList ++ (w.released ++ w.labels)) := by
  cases f with
  | letGo r =>
    obtain ⟨-, h⟩ | ⟨-, -, h⟩ := w.farewell_letGo rest r
    · rw [h]
      exact .refl _
    · have hlog : (w.destroy r).1.released = w.released := by
        rw [released, w.log_destroy r, released]
      rw [h, hlog, ← List.append_assoc]
      refine (List.perm_append_comm.append_right _).trans ?_
      rw [List.append_assoc]
      exact (w.labels_destroy r).append_left _
  | report entry =>
    have hlog : (w.farewell rest (.report entry)).1.released = entry.released?.toList ++ w.released := by
      rw [farewell, released, List.filterMap_cons]
      cases entry.released? <;> rfl
    rw [hlog]
    exact .of_eq (List.append_assoc ..)

/-- **A release reports the labels of the storages that it takes away**, each once, and no others but those
that it was to report. -/
theorem labels_release (w : World) (fs : List Farewell) :
    ((w.release fs).released ++ (w.release fs).labels).Perm
      (fs.filterMap Farewell.released? ++ (w.released ++ w.labels)) := by
  induction w, fs using release.induct with
  | case1 w =>
    rw [release]
    exact .refl _
  | case2 w f rest ih =>
    have hcons : (f :: rest).filterMap Farewell.released? =
        f.released?.toList ++ rest.filterMap Farewell.released? := by
      rw [List.filterMap_cons]
      cases f.released? <;> rfl
    rw [release, hcons]
    rw [List.filterMap_append] at ih
    have hfarewell := (w.labels_farewell rest f).append_left (rest.filterMap Farewell.released?)
    refine ih.trans ?_
    rw [List.append_assoc]
    refine (List.perm_append_comm_assoc ..).trans (hfarewell.trans ?_)
    rw [List.append_assoc]
    exact List.perm_append_comm_assoc ..

/-- Letting go reports the labels of the storages that it takes away. -/
theorem labels_letGo (w : World) (refs : List Ref) :
    ((w.letGo refs).released ++ (w.letGo refs).labels).Perm (w.released ++ w.labels) := by
  have h := w.labels_release (refs.map .letGo)
  rwa [released_letGo] at h

end World

end Isthmus
