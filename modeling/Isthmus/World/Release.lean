import Isthmus.World.References

/-!
# World/Release — letting go of things

When an owner goes, the things it referred to are let go of, one after the other and depth first; a
thing that then has no owner left is destroyed, and lets go of its own references in turn.
`World.release` does this.  It ends because every destruction makes the world smaller
(`size_step_lt_or_done`).
-/

namespace Isthmus

/-- One thing to do while letting go. -/
inductive Farewell where
  /-- An owner of a thing is gone. -/
  | letGo (r : Ref)
  /-- An entry of the log. -/
  | report (entry : Document)

namespace World

/-- Ends a registration with a loop. -/
def unregister (w : World) (c : ContextId) : World :=
  { w with loops := w.loops.modify c.index fun l => { l with live := l.live - 1 } }

/-- Registers with a loop. -/
def register (w : World) (c : ContextId) : World :=
  { w with loops := w.loops.modify c.index fun l => { l with live := l.live + 1 } }

/-- Queues a wake, whose registration goes over to the queue; a closed loop drops both. -/
def post (w : World) (c : ContextId) (wake : Wake) : World × List Farewell :=
  if (w.loopOf c).isOpen then
    ({ w with
        loops := w.loops.modify c.index fun l => { l with queue := l.queue ++ [wake] }
        history := .sent c wake :: w.history }, [])
  else (w.unregister c, wake.refs.map .letGo)

/-- An installation without the callbacks that no subscription wants any more. -/
def forget (w : World) (id : InstallationId) : World :=
  { w with
    installations := w.installations.modify id.index fun i =>
      { i with subscriptions := i.subscriptions.filter fun e => w.isSubscribed ⟨id, e.1⟩ }
    history := .pruned id :: w.history }

/-- Forgets the callbacks of an installation that no subscription wants any more. -/
def prune (w : World) (id : InstallationId) : World × List Farewell :=
  match w.installation? id with
  | none => (w, [])
  | some i =>
    (w.forget id,
      ((i.subscriptions.filter fun e => !w.isSubscribed ⟨id, e.1⟩).flatMap (·.2.refs)).map .letGo)

/-- Takes a deferred out of the world that something waits for, and rejects it. -/
def expire (w : World) (id : DeferredId) : World :=
  { w with
    deferreds := w.deferreds.erase id.index
    history := .completed id .rejected Deferred.droppedReason :: w.history }

/-- Takes a set of channels out of the world and off its source. -/
def disconnect (w : World) (id : ChannelsId) (c : Channels) : World :=
  { w with
    channels := w.channels.erase id.index
    sources := w.sources.modify c.source.index (·.disconnect c.connection) }

/-- Takes a thing out of the world, and says what is left to do for it. -/
def destroy (w : World) : Ref → World × List Farewell
  | .object id =>
    match w.object? id with
    | none => (w, [])
    | some o =>
      ({ w with objects := w.objects.erase id.index },
        (refsOf Attachment.refs o.attachment).map .letGo ++
          o.finalizers.map (fun label => .report (.record [("finalized", .text label)])) ++
          o.contents.map .letGo)
  | .handle id =>
    match w.handle? id with
    | none => (w, [])
    | some h => ({ w with handles := w.handles.erase id.index }, h.refs.map .letGo)
  | .inst id =>
    match w.instance? id with
    | none => (w, [])
    | some i => ({ w with instances := w.instances.erase id.index }, i.refs.map .letGo)
  | .deferred id =>
    match w.deferred? id with
    | none => (w, [])
    | some d =>
      match d.abandoned with
      | some k =>
        let posted := (w.expire id).post k.context (.settle k.slot .rejected Deferred.droppedReason)
        (posted.1, posted.2 ++ d.value.refs.map .letGo)
      | none => ({ w with deferreds := w.deferreds.erase id.index }, d.value.refs.map .letGo)
  | .source id =>
    if w.sources.contains id.index then
      ({ w with sources := w.sources.erase id.index }, [])
    else (w, [])
  | .channels id =>
    match w.channels? id with
    | none => (w, [])
    | some c =>
      let pruned := (w.disconnect id c).prune c.installation
      (pruned.1, pruned.2 ++ c.refs.map .letGo)
  | .installation id =>
    match w.installation? id with
    | none => (w, [])
    | some i => ({ w with installations := w.installations.erase id.index }, i.refs.map .letGo)
  | .storage id =>
    match w.storages.get? id with
    | none => (w, [])
    | some label =>
      ({ w with storages := w.storages.erase id },
        (label.toList.map fun label => .report (.record [("released", .text label)])))

/-- Does the first thing of a list; `rest` are the things after it, which still count as owners. -/
def farewell (w : World) (rest : List Farewell) : Farewell → World × List Farewell
  | .letGo r =>
    let waiting := rest.any fun
      | .letGo r' => r' = r
      | _ => false
    if waiting || w.references.contains r then (w, []) else w.destroy r
  | .report entry => ({ w with log := entry :: w.log }, [])

/-! ## Why it ends -/

/-- How many subscriptions the installations remember. -/
def remembered (s : Store Installation) : Nat :=
  (s.values.flatMap (·.subscriptions)).length

/-- How much can still be destroyed or forgotten. -/
def size (w : World) : Nat :=
  w.objects.size + w.handles.size + w.instances.size + w.deferreds.size + w.sources.size +
    w.channels.size + w.installations.size + w.storages.size + remembered w.installations

theorem remembered_erase_le (s : Store Installation) (key : Nat) :
    remembered (s.erase key) ≤ remembered s := by
  obtain ⟨entries, next, asc, below⟩ := s
  simp only [remembered, Store.values, Store.erase]
  clear asc below
  induction entries with
  | nil => simp
  | cons e entries ih =>
    simp only [List.filter_cons, List.map_cons, List.flatMap_cons, List.length_append]
    split
    · simpa using ih
    · exact Nat.le_trans ih (Nat.le_add_left _ _)

theorem remembered_modify_le (s : Store Installation) (key : Nat) {f : Installation → Installation}
    (h : ∀ i, (f i).subscriptions.length ≤ i.subscriptions.length) :
    remembered (s.modify key f) ≤ remembered s := by
  obtain ⟨entries, next, asc, below⟩ := s
  simp only [remembered, Store.values, Store.modify]
  clear asc below
  induction entries with
  | nil => simp
  | cons e es ih =>
    simp only [List.map_cons, List.flatMap_cons, List.length_append]
    have : (if e.1 = key then (e.1, f e.2) else e).2.subscriptions.length ≤
        e.2.subscriptions.length := by
      split
      · exact h _
      · exact Nat.le_refl _
    omega

@[simp] theorem size_unregister (w : World) (c : ContextId) : (w.unregister c).size = w.size := rfl

@[simp] theorem size_post (w : World) (c : ContextId) (wake : Wake) :
    (w.post c wake).1.size = w.size := by
  unfold post
  split <;> rfl

theorem size_prune_le (w : World) (id : InstallationId) : (w.prune id).1.size ≤ w.size := by
  unfold prune
  split
  · exact Nat.le_refl _
  · have := remembered_modify_le w.installations id.index
      (f := fun i => { i with
        subscriptions := i.subscriptions.filter fun e => w.isSubscribed ⟨id, e.1⟩ })
      fun _ => List.length_filter_le _ _
    simp only [size, forget, Store.size_modify]
    omega

theorem destroy_lt_or_done (w : World) (r : Ref) :
    (w.destroy r).1.size < w.size ∨ (w.destroy r).1.size = w.size ∧ (w.destroy r).2 = [] := by
  cases r with
  | object id =>
    simp only [destroy]
    split
    · exact .inr ⟨rfl, rfl⟩
    · next h =>
      have := Store.size_erase_lt (Store.contains_of_get? h)
      exact .inl (by simp only [size]; omega)
  | handle id =>
    simp only [destroy]
    split
    · exact .inr ⟨rfl, rfl⟩
    · next h =>
      have := Store.size_erase_lt (Store.contains_of_get? h)
      exact .inl (by simp only [size]; omega)
  | inst id =>
    simp only [destroy]
    split
    · exact .inr ⟨rfl, rfl⟩
    · next h =>
      have := Store.size_erase_lt (Store.contains_of_get? h)
      exact .inl (by simp only [size]; omega)
  | deferred id =>
    simp only [destroy]
    split
    · exact .inr ⟨rfl, rfl⟩
    · next h =>
      have := Store.size_erase_lt (Store.contains_of_get? h)
      refine .inl ?_
      split
      · rw [size_post]
        simp only [size, expire]
        omega
      · simp only [size]
        omega
  | source id =>
    simp only [destroy]
    split
    · next h =>
      have := Store.size_erase_lt h
      exact .inl (by simp only [size]; omega)
    · exact .inr ⟨rfl, rfl⟩
  | channels id =>
    simp only [destroy]
    split
    · exact .inr ⟨rfl, rfl⟩
    · next h =>
      have := Store.size_erase_lt (Store.contains_of_get? h)
      refine .inl (Nat.lt_of_le_of_lt (size_prune_le _ _) ?_)
      simp only [size, disconnect, Store.size_modify]
      omega
  | installation id =>
    simp only [destroy]
    split
    · exact .inr ⟨rfl, rfl⟩
    · next h =>
      have := Store.size_erase_lt (Store.contains_of_get? h)
      have := remembered_erase_le w.installations id.index
      exact .inl (by simp only [size]; omega)
  | storage id =>
    simp only [destroy]
    split
    · exact .inr ⟨rfl, rfl⟩
    · next h =>
      have := Store.size_erase_lt (Store.contains_of_get? h)
      exact .inl (by simp only [size]; omega)

theorem farewell_lt_or_done (w : World) (rest : List Farewell) (f : Farewell) :
    (w.farewell rest f).1.size < w.size ∨
      (w.farewell rest f).1.size = w.size ∧ (w.farewell rest f).2 = [] := by
  cases f with
  | letGo r =>
    simp only [farewell]
    split
    · exact .inr ⟨rfl, rfl⟩
    · exact destroy_lt_or_done w r
  | report entry => exact .inr ⟨rfl, rfl⟩

/-- Does all things of a list, each with everything that follows from it before the next. -/
def release (w : World) : List Farewell → World
  | [] => w
  | f :: rest => (w.farewell rest f).1.release ((w.farewell rest f).2 ++ rest)
termination_by fs => (w.size, fs.length)
decreasing_by
  rcases farewell_lt_or_done w rest f with h | ⟨hs, hf⟩
  · exact Prod.Lex.left _ _ h
  · rw [hs, hf]
    exact Prod.Lex.right _ (by simp)

/-- Lets go of some references. -/
def letGo (w : World) (refs : List Ref) : World :=
  w.release (refs.map .letGo)

/-- Destroys everything without an owner. -/
def sweep (w : World) : World :=
  w.letGo w.unowned

end World

end Isthmus
