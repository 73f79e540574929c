import Isthmus.Event.Basic
import Isthmus.Proofs.Run.Names

/-!
# Proofs/Event/Connections — who is connected to a source, by what happened

What happens at event sources is a list of incidents, oldest first.  A connection stands (`standing`) if
it was made and nothing ended it since: it was not taken from its source, and the source was not created
anew.  That says nothing of how a source keeps its connections.

* `standing_append` — what happens later ends some connections and makes others, and the rest stays in
  its order.
* `Roster.request` — a source lists the connections that stand, whatever it is asked for, and responds by
  them: an emission calls for one firing of each connection that stands.
* `Roster.step` — the same for every task of a script.
-/

namespace Isthmus.Events

/-! ## Incidents -/

/-- A connection of a sink to a source. -/
structure Connection where
  id : ConnectionId
  /-- The key of the sink. -/
  sink : Nat
  label : String

/-- What a source does about a request: it fires sinks, and answers. -/
inductive Response where
  | fired (sink event : Nat) (args : List NativeValue)
  | answered (result : Option Document)

/-- Something that happens at event sources. -/
inductive Incident where
  /-- A thread is given an action to do. -/
  | given
  | created (source : String)
  | connected (source : String) (c : Connection)
  /-- A connection is to be taken from a source; `none` is the identity of no connection. -/
  | disconnected (source : String) (id : Option ConnectionId)
  | emitted (source : String) (event : Nat) (args : List NativeValue)
  | counted (source : String)
  /-- A source is asked that does not exist, or arguments cannot be built. -/
  | refused
  /-- A response to the incident with the number. -/
  | responded (n : Nat) (r : Response)

/-- The incident ends a connection to a source, if there is one. -/
def Incident.ends (source : String) (id : ConnectionId) : Incident → Bool
  | .created name => name = source
  | .disconnected name id' => name = source ∧ id' = some id
  | _ => false

/-- The connections to a source that were made and not ended since, oldest first. -/
def standing (source : String) : List Incident → List Connection
  | [] => []
  | .connected name c :: later =>
    if name = source ∧ ¬ later.any (·.ends source c.id) then c :: standing source later
    else standing source later
  | _ :: later => standing source later

/-- The connection that an incident makes. -/
def Incident.made? : Incident → Option Connection
  | .connected _ c => some c
  | _ => none

/-- All connections that were made, oldest first. -/
def made (h : List Incident) : List Connection :=
  h.filterMap Incident.made?

/-- The response that a task is; an action is none. -/
def Task.response? : Task → Option Response
  | .act _ _ => none
  | .fire sink event args => some (.fired sink event args)
  | .answer result _ => some (.answered result)

/-- What comes of a request. -/
def incident (s : Events) : EventRequest → Incident
  | .create name => .created name
  | .connect name sink =>
    if (s.sources.find? name).isSome then .connected name ⟨⟨s.nextConnection⟩, s.sinks.next, sink.label⟩
    else .refused
  | .disconnect name id => if (s.sources.find? name).isSome then .disconnected name id else .refused
  | .emit name event args =>
    if (s.sources.find? name).isSome then .emitted name event args else .refused
  | .count name => if (s.sources.find? name).isSome then .counted name else .refused

/-- **The responses that are due to an incident**, by what happened before: an emission fires each
connection that stands, and every request is answered. -/
def due (before : List Incident) : Incident → List Response
  | .given | .responded _ _ => []
  | .created _ => [.answered (some .null)]
  | .connected _ _ => [.answered (some (.bool true))]
  | .disconnected source id =>
    [.answered (some (.bool ((standing source before).any (id = some ·.id))))]
  | .emitted source event args =>
    (standing source before).map (fun c => .fired c.sink event args) ++ [.answered (some .null)]
  | .counted source => [.answered (some (.nat (standing source before).length))]
  | .refused => [.answered none]

variable {s s' : Events} {h : List Incident} {o : Incident} {source : String}

/-! ## Connections that stand -/

/-- **What happens later** ends some of the connections that stand, and makes others. -/
theorem standing_append (source : String) (before later : List Incident) :
    standing source (before ++ later) =
      (standing source before).filter (fun c => !later.any (·.ends source c.id)) ++
        standing source later := by
  induction before with
  | nil => rfl
  | cons o before ih =>
    cases o with
    | connected name c =>
      simp only [List.cons_append, standing, List.any_append, ih]
      by_cases hname : name = source
      · by_cases hb : before.any (·.ends source c.id) <;>
          cases hl : later.any (·.ends source c.id) <;> simp [hname, hb, hl]
      · simp [hname]
    | _ => exact ih

theorem standing_concat (source : String) (h : List Incident) (o : Incident) :
    standing source (h ++ [o]) =
      (standing source h).filter (fun c => !o.ends source c.id) ++ standing source [o] := by
  simp only [standing_append, List.any_cons, List.any_nil, Bool.or_false]

/-- Connections stand in the order in which they were made. -/
theorem standing_sublist (source : String) (h : List Incident) :
    (standing source h).Sublist (made h) := by
  induction h with
  | nil => exact .slnil
  | cons o h ih =>
    cases o with
    | connected name c =>
      rw [standing]
      split
      · exact ih.cons_cons c
      · exact ih.cons c
    | _ => exact ih

theorem made_concat (h : List Incident) (o : Incident) : made (h ++ [o]) = made h ++ o.made?.toList := by
  rw [made, List.filterMap_append]
  cases o <;> rfl

/-- The incident neither makes nor ends connections. -/
structure Incident.Quiet (o : Incident) : Prop where
  makes : o.made? = none
  ends : ∀ source id, o.ends source id = false

theorem Incident.Quiet.made (ho : o.Quiet) (h : List Incident) : made (h ++ [o]) = made h := by
  rw [made_concat, ho.makes, Option.toList_none, List.append_nil]

theorem Incident.Quiet.standing (ho : o.Quiet) (source : String) (h : List Incident) :
    standing source (h ++ [o]) = standing source h := by
  have hmade : Events.made [o] = [] := ho.made []
  have hnew : Events.standing source [o] = [] :=
    List.sublist_nil.1 (hmade ▸ standing_sublist source [o])
  rw [standing_concat, hnew, List.append_nil]
  exact List.filter_eq_self.2 fun c _ => by rw [ho.ends]; rfl

theorem standing_created (source name : String) (h : List Incident) :
    standing source (h ++ [.created name]) = if source = name then [] else standing source h := by
  rw [standing_concat]
  by_cases hs : source = name
  · simp [standing, Incident.ends, hs]
  · simp [standing, Incident.ends, hs, Ne.symm hs]

theorem standing_connected (source name : String) (c : Connection) (h : List Incident) :
    standing source (h ++ [.connected name c]) =
      standing source h ++ if source = name then [c] else [] := by
  rw [standing_concat]
  by_cases hs : source = name
  · simp [standing, Incident.ends, hs]
  · simp [standing, Incident.ends, hs, Ne.symm hs]

theorem standing_disconnected (source name : String) (id : Option ConnectionId) (h : List Incident) :
    standing source (h ++ [.disconnected name id]) =
      if source = name then (standing source h).filter (id ≠ some ·.id) else standing source h := by
  rw [standing_concat]
  by_cases hs : source = name
  · simp [standing, Incident.ends, hs]
  · simp [standing, Incident.ends, hs, Ne.symm hs]

/-! ## What the sources know -/

/-- **The sources, sinks and labels are what happened to them.** -/
structure Roster (s : Events) (h : List Incident) : Prop where
  /-- A source lists the connections to it that stand. -/
  listed : ∀ {name source}, s.sources.find? name = some source →
    source.connections = (standing name h).map fun c => (c.id, c.sink)
  /-- Identities and keys ascend, so none is used twice. -/
  ascending : (made h).Pairwise fun c c' => c.id.index < c'.id.index ∧ c.sink < c'.sink
  known : ∀ c ∈ made h, c.id.index < s.nextConnection ∧
    ∃ sink, s.sinks.get? c.sink = some sink ∧ sink.label = c.label
  /-- A label stands for the connection that was last made under it. -/
  labelled : ∀ label, s.connections.find? label =
    ((made h).reverse.find? (·.label = label)).map (·.id)

namespace Roster

theorem empty : Roster {} [] where
  listed hs := nomatch hs
  ascending := .nil
  known := nofun
  labelled _ := rfl

/-- The source under a name is replaced. -/
theorem listed_put (hr : Roster s h) {name : String} {src : EventSource Nat}
    (hs : s'.sources = s.sources.put name src)
    (hown : src.connections = (standing name (h ++ [o])).map fun c => (c.id, c.sink))
    (hother : ∀ name', name' ≠ name → standing name' (h ++ [o]) = standing name' h)
    {name' : String} {src' : EventSource Nat} (hf : s'.sources.find? name' = some src') :
    src'.connections = (standing name' (h ++ [o])).map fun c => (c.id, c.sink) := by
  rw [hs, Names.find?_put] at hf
  split at hf
  · next heq =>
    cases hf
    rw [heq, hown]
  · next hne => rw [hr.listed hf, hother name' hne]

/-- What neither makes nor ends connections changes nothing here. -/
theorem quiet (hr : Roster s h) (ho : o.Quiet) (hsources : s'.sources = s.sources)
    (hconnections : s'.connections = s.connections) (hnext : s'.nextConnection = s.nextConnection)
    (hsinks : ∀ {key sink}, s.sinks.get? key = some sink →
      ∃ sink', s'.sinks.get? key = some sink' ∧ sink'.label = sink.label) :
    Roster s' (h ++ [o]) where
  listed hf := by
    rw [ho.standing]
    exact hr.listed (hsources ▸ hf)
  ascending := ho.made h ▸ hr.ascending
  known c hc := by
    rw [ho.made] at hc
    obtain ⟨hid, sink, hsink, hlabel⟩ := hr.known c hc
    obtain ⟨sink', hsink', hlabel'⟩ := hsinks hsink
    exact ⟨hnext ▸ hid, sink', hsink', hlabel'.trans hlabel⟩
  labelled label := by
    rw [ho.made, hconnections]
    exact hr.labelled label

theorem create (hr : Roster s h) (name : String) :
    Roster { s with sources := s.sources.put name {} } (h ++ [.created name]) where
  listed := hr.listed_put rfl (by rw [standing_created, if_pos rfl]; rfl)
    fun name' hne => by rw [standing_created, if_neg hne]
  ascending := by
    rw [made_concat]
    simpa [Incident.made?] using hr.ascending
  known := by
    rw [made_concat]
    simpa [Incident.made?] using hr.known
  labelled := by
    rw [made_concat]
    simpa [Incident.made?] using hr.labelled

theorem connect (hr : Roster s h) {name : String} {src : EventSource Nat}
    (hf : s.sources.find? name = some src) (sink : Sink) : Roster (s.connect name src sink)
      (h ++ [.connected name ⟨⟨s.nextConnection⟩, s.sinks.next, sink.label⟩]) where
  listed := by
    refine hr.listed_put rfl ?_ fun name' hne => ?_
    · rw [standing_connected, if_pos rfl, List.map_append, ← hr.listed hf]
      rfl
    · rw [standing_connected, if_neg hne, List.append_nil]
  ascending := by
    rw [made_concat]
    refine List.pairwise_append.2 ⟨hr.ascending, List.pairwise_singleton .., fun c hc c' hc' => ?_⟩
    obtain rfl := List.mem_singleton.1 hc'
    obtain ⟨hid, _, hsink, -⟩ := hr.known c hc
    exact ⟨hid, Store.lt_next_of_get? hsink⟩
  known c hc := by
    rw [made_concat] at hc
    simp only [Events.connect, Store.get?_insert]
    rcases List.mem_append.1 hc with hc | hc
    · obtain ⟨hid, sink', hsink, hlabel⟩ := hr.known c hc
      refine ⟨Nat.lt_succ_of_lt hid, sink', ?_, hlabel⟩
      rw [if_neg (Nat.ne_of_lt (Store.lt_next_of_get? hsink)), hsink]
    · obtain rfl := List.mem_singleton.1 hc
      exact ⟨Nat.lt_succ_self _, sink, if_pos rfl, rfl⟩
  labelled label := by
    rw [made_concat, Events.connect, Names.find?_put]
    simp only [Incident.made?, Option.toList_some, List.reverse_append, List.reverse_singleton,
      List.singleton_append, List.find?_cons]
    by_cases hl : label = sink.label
    · simp [hl]
    · simp [hl, Ne.symm hl, hr.labelled]

theorem disconnect (hr : Roster s h) {name : String} {src : EventSource Nat}
    (hf : s.sources.find? name = some src) (id : Option ConnectionId) :
    Roster (s.disconnect name src id).2 (h ++ [.disconnected name id]) := by
  have hmade : made (h ++ [.disconnected name id]) = made h := by
    simp [made_concat, Incident.made?]
  cases id with
  | none =>
    refine ⟨fun {name'} _ hf' => ?_, hmade ▸ hr.ascending, hmade ▸ hr.known, hmade ▸ hr.labelled⟩
    have hall : (standing name' h).filter (fun c => decide (none ≠ some c.id)) = standing name' h :=
      List.filter_eq_self.2 fun c _ => rfl
    rw [standing_disconnected, hall, ite_self]
    exact hr.listed hf'
  | some id =>
    refine ⟨?_, hmade ▸ hr.ascending, hmade ▸ hr.known, hmade ▸ hr.labelled⟩
    refine hr.listed_put rfl ?_ fun name' hne => ?_
    · rw [standing_disconnected, if_pos rfl, EventSource.disconnect, hr.listed hf, List.filter_map]
      simp only [Function.comp_def, ne_eq, Option.some.injEq, eq_comm]
    · rw [standing_disconnected, if_neg hne]

/-- What a source answers that is asked to take a connection away. -/
theorem disconnect_fst (hr : Roster s h) {name : String} {src : EventSource Nat}
    (hf : s.sources.find? name = some src) (id : Option ConnectionId) :
    (s.disconnect name src id).1 = (standing name h).any (id = some ·.id) := by
  cases id with
  | none => simp [Events.disconnect]
  | some id =>
    rw [Events.disconnect, EventSource.isConnected, hr.listed hf, List.any_map]
    simp only [Function.comp_def, Option.some.injEq, eq_comm]

/-- A sink is fired: it keeps its key and its label. -/
theorem fire (hr : Roster s h) (ho : o.Quiet) (sink event : Nat) (args : List NativeValue) :
    Roster (s.fire sink event args).1 (h ++ [o]) := by
  rw [Events.fire]
  split
  · exact hr.quiet ho rfl rfl rfl fun hsink => ⟨_, hsink, rfl⟩
  · refine hr.quiet ho rfl rfl rfl fun {key sink'} hsink => ?_
    dsimp only [note]
    rw [Store.get?_modify]
    split
    · exact ⟨{ sink' with heard := true }, by rw [hsink, Option.map_some], rfl⟩
    · exact ⟨_, hsink, rfl⟩

/-- **What a source is asked for comes about**, and calls for the responses that are due to it. -/
theorem request (hr : Roster s h) (inner : Bool) (r : EventRequest) :
    Roster (s.request inner r).1 (h ++ [s.incident r]) ∧
      (s.request inner r).2.filterMap Task.response? = due h (s.incident r) := by
  have hquiet {o : Incident} (ho : o.Quiet) : Roster s (h ++ [o]) :=
    hr.quiet ho rfl rfl rfl fun hsink => ⟨_, hsink, rfl⟩
  cases r with
  | create name => exact ⟨hr.create name, rfl⟩
  | connect name sink =>
    rw [Events.request, incident]
    cases hf : s.sources.find? name with
    | none => exact ⟨hquiet ⟨rfl, fun _ _ => rfl⟩, rfl⟩
    | some source => exact ⟨hr.connect hf sink, rfl⟩
  | disconnect name id =>
    rw [Events.request, incident]
    cases hf : s.sources.find? name with
    | none => exact ⟨hquiet ⟨rfl, fun _ _ => rfl⟩, rfl⟩
    | some source =>
      exact ⟨hr.disconnect hf id,
        congrArg (fun was => [Response.answered (some (.bool was))]) (hr.disconnect_fst hf id)⟩
  | emit name event args =>
    rw [Events.request, incident]
    cases hf : s.sources.find? name with
    | none => exact ⟨hquiet ⟨rfl, fun _ _ => rfl⟩, rfl⟩
    | some source =>
      refine ⟨hquiet ⟨rfl, fun _ _ => rfl⟩, ?_⟩
      dsimp only
      rw [EventSource.targets, hr.listed hf, List.map_map, List.map_map, List.filterMap_append,
        List.filterMap_map]
      exact congrArg (· ++ _) (congrFun List.filterMap_eq_map (standing name h))
  | count name =>
    rw [Events.request, incident]
    cases hf : s.sources.find? name with
    | none => exact ⟨hquiet ⟨rfl, fun _ _ => rfl⟩, rfl⟩
    | some source =>
      refine ⟨hquiet ⟨rfl, fun _ _ => rfl⟩, ?_⟩
      have hcount : source.connections.length = (standing name h).length := by
        rw [hr.listed hf, List.length_map]
      exact congrArg (fun n => [Response.answered (some (.nat n))]) hcount

/-- The sources, sinks and labels are the same beside other values, another answer and another log. -/
theorem aside (hr : Roster s h) (world : World) (answer : Option Document) (log : List Document) :
    Roster { s with world, answer, log } h :=
  ⟨hr.listed, hr.ascending, hr.known, hr.labelled⟩

end Roster

/-- Resolving an action changes at most what values refer to. -/
theorem resolve_eq (s : Events) (a : EventAction) : ∃ world, (s.resolve a).2 = { s with world } := by
  cases a with
  | emit name event rs =>
    have hbuild : ∃ world, (s.build rs).2 = { s with world } := by
      rw [build]
      split <;> exact ⟨_, rfl⟩
    rw [resolve]
    split
    · exact hbuild
    · exact ⟨_, rfl⟩
  | _ => exact ⟨_, rfl⟩

/-- What a task comes to that the incident with the number called for. -/
def Task.incident (s : Events) (n : Nat) : Task → Incident
  | .act a _ =>
    match s.resolve a with
    | (none, _) => .refused
    | (some r, s) => s.incident r
  | .fire sink event args => .responded n (.fired sink event args)
  | .answer result _ => .responded n (.answered result)

/-- **Whatever a task does, the sources, sinks and labels are what happened to them**, and it calls for what
is due to it. -/
theorem Roster.step (hr : Roster s h) (rest : List Task) (n : Nat) (task : Task) :
    Roster (s.step rest task).1 (h ++ [task.incident s n]) ∧
      ((s.step rest task).2.filterMap Task.response? = due h (task.incident s n)) := by
  have hquiet (r : Response) : (Incident.responded n r).Quiet := ⟨rfl, fun _ _ => rfl⟩
  cases task with
  | act a inner =>
    obtain ⟨world, hworld⟩ := resolve_eq s a
    rw [Events.step, Events.act, Task.incident]
    generalize s.resolve a = result at hworld
    obtain ⟨r, s'⟩ := result
    obtain rfl : s' = { s with world } := hworld
    have hr' := hr.aside world s.answer s.log
    cases r with
    | none =>
      exact ⟨hr'.quiet ⟨rfl, fun _ _ => rfl⟩ rfl rfl rfl fun hsink => ⟨_, hsink, rfl⟩, rfl⟩
    | some r => exact hr'.request inner r
  | fire sink event args =>
    refine ⟨hr.fire (hquiet _) sink event args, List.filterMap_eq_nil_iff.2 fun task htask => ?_⟩
    rw [Events.step, Events.fire] at htask
    split at htask
    · cases htask
    · dsimp only at htask
      split at htask
      · cases htask
      · obtain ⟨a, -, rfl⟩ := List.mem_map.1 htask
        rfl
  | answer result inner =>
    have haside (answer : Option Document) (log : List Document) :
        Roster { s with answer, log } (h ++ [.responded n (.answered result)]) :=
      (hr.aside s.world answer log).quiet (hquiet _) rfl rfl rfl fun hsink => ⟨_, hsink, rfl⟩
    cases inner with
    | false => exact ⟨haside result s.log, rfl⟩
    | true =>
      cases result with
      | none => exact ⟨haside s.answer s.log, rfl⟩
      | some result => exact ⟨haside s.answer _, rfl⟩

end Isthmus.Events
