import Isthmus.Proofs.Event.Connections
import Mathlib.Data.List.Nodup
import Mathlib.Logic.Function.Basic
import Mathlib.Logic.Relation

/-!
# Proofs/Event/Firings — which sinks an emission fires

Several threads work on the same event sources.  A request is one step, and so is every firing.  Before each
step of a thread, it or the sink that it has just fired may ask for anything (`Threads.ask`), so sinks may
connect, disconnect and emit as they like while they are fired; a script that one thread works off is a
special case (`reachable_alone`).  What happens is numbered, and a task carries the number of the incident
that called for it.

Everything rests on one account, `Sound.settled`: of the responses that are due to an incident some were
given, and the others wait, in this order, in the agenda of its thread.

* `Threads.FansOut` — which sinks are fired, and what disconnecting answers and does.
* `Threads.fansOut` — so it is after every run, and what a script leads to is what a run leads to.
-/

namespace Isthmus.Events

/-- Threads that work on the same event sources. -/
structure Threads where
  shared : Events := {}
  /-- What each thread still has to do, with the number of the incident that called for it. -/
  agendas : Nat → List (Nat × Task) := fun _ => []
  /-- What happened on which thread, oldest first. -/
  history : List (Nat × Incident) := []

/-- The response to an incident. -/
def Incident.responseTo (n : Nat) : Incident → Option Response
  | .responded n' r => if n' = n then some r else none
  | _ => none

/-- The sink, the event and the arguments of a firing. -/
def Response.firing? : Response → Option (Nat × Nat × List NativeValue)
  | .fired sink event args => some (sink, event, args)
  | .answered _ => none

/-- The responses to an incident that wait in an agenda. -/
def waiting (n : Nat) (agenda : List (Nat × Task)) : List Response :=
  agenda.filterMap fun e => if e.1 = n then e.2.response? else none

namespace Threads

/-- What happened, on whichever thread. -/
def incidents (t : Threads) : List Incident :=
  t.history.map (·.2)

/-- What happened before the incident with the number. -/
def before (t : Threads) (n : Nat) : List Incident :=
  t.incidents.take n

/-- The responses that were given to an incident. -/
def responses (t : Threads) (n : Nat) : List Response :=
  t.incidents.filterMap (·.responseTo n)

/-- What an incident fired: sinks, each with the event and its arguments. -/
def firings (t : Threads) (n : Nat) : List (Nat × Nat × List NativeValue) :=
  (t.responses n).filterMap Response.firing?

/-- What an incident of a thread has still to fire. -/
def awaited (t : Threads) (k n : Nat) : List (Nat × Nat × List NativeValue) :=
  (waiting n (t.agendas k)).filterMap Response.firing?

/-- One more incident on a thread, which leaves it with another agenda. -/
def record (t : Threads) (k : Nat) (o : Incident) (shared : Events) (agenda : List (Nat × Task)) :
    Threads where
  shared
  agendas := Function.update t.agendas k agenda
  history := t.history ++ [(k, o)]

/-- A thread is given an action to do after all others. -/
def give (t : Threads) (k : Nat) (a : EventAction) : Threads :=
  t.record k .given { t.shared with answer := none, log := [] }
    (t.agendas k ++ [(t.history.length, .act a false)])

/-- A thread, or a sink that it has just fired, asks for something before it goes on. -/
def ask (t : Threads) (k : Nat) (r : EventRequest) : Threads :=
  let (shared, more) := t.shared.request true r
  t.record k (t.shared.incident r) shared (more.map (t.history.length, ·) ++ t.agendas k)

/-- A thread does its next task. -/
def advance (t : Threads) (k : Nat) : Threads :=
  match t.agendas k with
  | [] => t
  | (n, task) :: rest =>
    let (shared, more) := t.shared.step (rest.map (·.2)) task
    t.record k (task.incident t.shared n) shared (more.map (t.history.length, ·) ++ rest)

inductive Move : Threads → Threads → Prop where
  | give (t : Threads) (k : Nat) (a : EventAction) : Move t (t.give k a)
  | ask (t : Threads) (k : Nat) (r : EventRequest) : Move t (t.ask k r)
  | advance (t : Threads) (k : Nat) : Move t (t.advance k)

/-- Any number of moves. -/
abbrev Moves : Threads → Threads → Prop := Relation.ReflTransGen Move

/-- What some run leads to. -/
def Reachable (t : Threads) : Prop :=
  Moves {} t

/-! ## What every run keeps -/

/-- What holds between moves. -/
structure Sound (t : Threads) : Prop where
  roster : Roster t.shared t.incidents
  /-- Of the responses that are due to an incident some were given, and the others wait. -/
  settled : ∀ {n k : Nat} {o : Incident}, t.history[n]? = some (k, o) →
    t.responses n ++ waiting n (t.agendas k) = due (t.before n) o
  /-- A thread responds to incidents of its own. -/
  owned : ∀ {k : Nat} {e : Nat × Task}, e ∈ t.agendas k → ∃ o, t.history[e.1]? = some (k, o)
  told : ∀ {m k n : Nat} {r : Response}, t.history[m]? = some (k, .responded n r) →
    n < m ∧ ∃ o, t.history[n]? = some (k, o)

/-- Nothing has happened yet. -/
theorem sound_nil : Sound {} where
  roster := .empty
  settled h := nomatch h
  owned := nofun
  told h := nomatch h

variable {t t' : Threads} {n k : Nat} {o : Incident}

/-- What waits on an agenda waits on its parts. -/
theorem waiting_append (n : Nat) (agenda later : List (Nat × Task)) :
    waiting n (agenda ++ later) = waiting n agenda ++ waiting n later :=
  List.filterMap_append

/-- A task waits for the incident that called for it. -/
theorem waiting_cons (n : Nat) (e : Nat × Task) (agenda : List (Nat × Task)) :
    waiting n (e :: agenda) = (if e.1 = n then e.2.response? else none).toList ++ waiting n agenda := by
  rw [waiting, List.filterMap_cons, waiting]
  split
  · next h => rw [h]; rfl
  · next r h => rw [h]; rfl

/-- Tasks that were called for by one incident respond to no other. -/
theorem waiting_tagged (n m : Nat) (tasks : List Task) :
    waiting n (tasks.map (m, ·)) = if m = n then tasks.filterMap Task.response? else [] := by
  rw [waiting, List.filterMap_map]
  split
  · next h => simp only [Function.comp_def, h, if_true]
  · next h => simp only [Function.comp_def, h, if_false, List.filterMap_none]

/-- There is an incident for each entry of the history. -/
theorem length_incidents : t.incidents.length = t.history.length :=
  List.length_map _

section

variable {shared : Events} {agenda : List (Nat × Task)}

theorem lt_length {e : Nat × Incident} (h : t.history[n]? = some e) : n < t.history.length :=
  (List.getElem?_eq_some_iff.1 h).1

/-- A thread does the first task on its agenda, and what this calls for comes next. -/
theorem advance_of_cons {task : Task} {rest : List (Nat × Task)} (h : t.agendas k = (n, task) :: rest) :
    t.advance k = t.record k (task.incident t.shared n) (t.shared.step (rest.map (·.2)) task).1
      ((t.shared.step (rest.map (·.2)) task).2.map (t.history.length, ·) ++ rest) := by
  rw [advance, h]

theorem record_incidents : (t.record k o shared agenda).incidents = t.incidents ++ [o] :=
  List.map_append

theorem record_agendas_self : (t.record k o shared agenda).agendas k = agenda :=
  Function.update_self ..

theorem record_agendas_of_ne {j : Nat} (hj : j ≠ k) :
    (t.record k o shared agenda).agendas j = t.agendas j :=
  Function.update_of_ne hj ..

/-- An incident may answer an earlier one. -/
theorem record_responses : (t.record k o shared agenda).responses n =
    t.responses n ++ (o.responseTo n).toList := by
  rw [responses, record_incidents, List.filterMap_append, responses]
  cases h : o.responseTo n <;> simp [h]

/-- What came before an incident stays as it is. -/
theorem record_before (hn : n ≤ t.history.length) :
    (t.record k o shared agenda).before n = t.before n := by
  rw [before, record_incidents, List.take_append_of_le_length (length_incidents ▸ hn), before]

theorem before_length : t.before t.history.length = t.incidents := by
  rw [before, ← length_incidents, List.take_length]

/-- The history stays as it is. -/
theorem record_history {e : Nat × Incident} (he : t.history[n]? = some e) :
    (t.record k o shared agenda).history[n]? = some e := by
  rw [record, List.getElem?_append_left (lt_length he), he]

theorem record_history_length :
    (t.record k o shared agenda).history[t.history.length]? = some (k, o) := by
  rw [record, List.getElem?_append_right (Nat.le_refl _), Nat.sub_self, List.getElem?_cons_zero]

/-- What is in the history was there, or is the new incident. -/
theorem record_history_cases {e : Nat × Incident}
    (he : (t.record k o shared agenda).history[n]? = some e) :
    t.history[n]? = some e ∨ n = t.history.length ∧ e = (k, o) := by
  rcases Nat.lt_or_ge n t.history.length with hn | hn
  · rw [record, List.getElem?_append_left hn] at he
    exact .inl he
  · have hlast : n = t.history.length := by
      have hlt := lt_length he
      rw [record, List.length_append, List.length_singleton] at hlt
      omega
    subst hlast
    rw [record_history_length] at he
    exact .inr ⟨rfl, (Option.some.inj he).symm⟩

end

namespace Sound

/-- To what has not happened yet there is no response. -/
theorem responses_length (hs : Sound t) : t.responses t.history.length = [] := by
  refine List.filterMap_eq_nil_iff.2 fun o ho => ?_
  obtain ⟨⟨k, o⟩, he, rfl⟩ := List.mem_map.1 ho
  obtain ⟨m, hm⟩ := List.mem_iff_getElem?.1 he
  cases o with
  | responded n r => exact if_neg (Nat.ne_of_lt (Nat.lt_trans (hs.told hm).1 (lt_length hm)))
  | _ => rfl

/-- …and nothing waits for it. -/
theorem waiting_length (hs : Sound t) {agenda : List (Nat × Task)}
    (ha : ∀ e ∈ agenda, e ∈ t.agendas k) : waiting t.history.length agenda = [] := by
  refine List.filterMap_eq_nil_iff.2 fun e he => if_neg fun hn => ?_
  obtain ⟨o, ho⟩ := hs.owned (ha e he)
  exact Nat.ne_of_lt (lt_length ho) hn

/-- **One more incident** keeps what holds, if it is a response that waited in the agenda of its thread or
no response, and the thread calls for what is due to it. -/
theorem record (hs : Sound t) {shared : Events} {agenda : List (Nat × Task)}
    (hroster : Roster shared (t.incidents ++ [o]))
    (hentries : ∀ e ∈ agenda, e ∈ t.agendas k ∨ e.1 = t.history.length)
    (hold : ∀ n < t.history.length,
      (o.responseTo n).toList ++ waiting n agenda = waiting n (t.agendas k))
    (hnew : waiting t.history.length agenda = due t.incidents o)
    (hresponse : ∀ n r, o = .responded n r → ∃ o', t.history[n]? = some (k, o')) :
    Sound (t.record k o shared agenda) := by
  have howner {n : Nat} (hn : ¬ ∃ o', t.history[n]? = some (k, o')) : o.responseTo n = none := by
    cases o with
    | responded n' r => exact if_neg fun heq : n' = n => hn (heq ▸ hresponse n' r rfl)
    | _ => rfl
  refine ⟨record_incidents ▸ hroster, fun {n j p} he => ?_, fun {j e} he => ?_, fun {m j n r} he => ?_⟩
  · rw [record_responses]
    rcases record_history_cases he with hearlier | ⟨rfl, heq⟩
    · rw [record_before (Nat.le_of_lt (lt_length hearlier))]
      by_cases hj : j = k
      · subst hj
        rw [record_agendas_self, List.append_assoc, hold n (lt_length hearlier)]
        exact hs.settled hearlier
      · have hother : ¬ ∃ o', t.history[n]? = some (k, o') := fun ⟨o', ho'⟩ =>
          hj (congrArg Prod.fst (Option.some.inj (hearlier.symm.trans ho')))
        rw [record_agendas_of_ne hj, howner hother, Option.toList_none, List.append_nil]
        exact hs.settled hearlier
    · cases heq
      have hlater : ¬ ∃ o', t.history[t.history.length]? = some (k, o') :=
        fun ⟨_, ho'⟩ => Nat.lt_irrefl _ (lt_length ho')
      rw [record_before (Nat.le_refl _), before_length, record_agendas_self, howner hlater, hnew,
        hs.responses_length]
      rfl
  · by_cases hj : j = k
    · subst hj
      rw [record_agendas_self] at he
      rcases hentries e he with he | he
      · obtain ⟨o', ho'⟩ := hs.owned he
        exact ⟨o', record_history ho'⟩
      · exact ⟨o, he ▸ record_history_length⟩
    · rw [record_agendas_of_ne hj] at he
      obtain ⟨o', ho'⟩ := hs.owned he
      exact ⟨o', record_history ho'⟩
  · rcases record_history_cases he with he | ⟨rfl, heq⟩
    · obtain ⟨hlt, o', ho'⟩ := hs.told he
      exact ⟨hlt, o', record_history ho'⟩
    · cases heq
      obtain ⟨o', ho'⟩ := hresponse n r rfl
      exact ⟨lt_length ho', o', record_history ho'⟩

/-- A thread may be given a call. -/
theorem give (hs : Sound t) (k : Nat) (a : EventAction) : Sound (t.give k a) := by
  have hlast (n : Nat) : waiting n [(t.history.length, Task.act a false)] = [] := by
    rw [waiting_cons]
    simp [Task.response?, waiting]
  refine hs.record ?_ (fun e he => ?_) (fun n _ => ?_) ?_ nofun
  · exact hs.roster.quiet ⟨rfl, fun _ _ => rfl⟩ rfl rfl rfl fun hsink => ⟨_, hsink, rfl⟩
  · rcases List.mem_append.1 he with he | he
    · exact .inl he
    · exact .inr (List.mem_singleton.1 he ▸ rfl)
  · rw [waiting_append, hlast, List.append_nil]
    rfl
  · rw [waiting_append, hlast, hs.waiting_length fun _ he => he]
    rfl

/-- A thread calls for what is due to an incident of it, before the rest of its agenda. -/
theorem record_calls (hs : Sound t) {shared : Events} {more : List Task} {rest : List (Nat × Task)}
    (hroster : Roster shared (t.incidents ++ [o]))
    (hmore : more.filterMap Task.response? = due t.incidents o)
    (hrest : ∀ e ∈ rest, e ∈ t.agendas k)
    (hold : ∀ n < t.history.length,
      (o.responseTo n).toList ++ waiting n rest = waiting n (t.agendas k))
    (hresponse : ∀ n r, o = .responded n r → ∃ o', t.history[n]? = some (k, o')) :
    Sound (t.record k o shared (more.map (t.history.length, ·) ++ rest)) := by
  refine hs.record hroster (fun e he => ?_) (fun n hn => ?_) ?_ hresponse
  · rcases List.mem_append.1 he with he | he
    · obtain ⟨task, -, rfl⟩ := List.mem_map.1 he
      exact .inr rfl
    · exact .inl (hrest e he)
  · rw [waiting_append, waiting_tagged, if_neg (Nat.ne_of_gt hn), List.nil_append, hold n hn]
  · rw [waiting_append, hs.waiting_length hrest, List.append_nil, waiting_tagged, if_pos rfl, hmore]

/-- A request answers nothing. -/
theorem responseTo_request (s : Events) (r : EventRequest) (n : Nat) :
    (s.incident r).responseTo n = none := by
  cases r with
  | create => rfl
  | _ =>
    rw [incident]
    split <;> rfl

/-- A task answers the incident that called for it. -/
theorem responseTo_incident (s : Events) (n m : Nat) (task : Task) :
    (task.incident s n).responseTo m = if n = m then task.response? else none := by
  cases task with
  | act a inner =>
    rw [Task.incident, Task.response?, ite_self]
    split
    · rfl
    · exact responseTo_request ..
  | fire | answer => rfl

/-- A request keeps it all. -/
theorem ask (hs : Sound t) (k : Nat) (r : EventRequest) : Sound (t.ask k r) := by
  obtain ⟨hroster, hdue⟩ := hs.roster.request true r
  refine hs.record_calls hroster hdue (fun _ he => he) (fun n _ => ?_) fun n r' heq => ?_
  · rw [responseTo_request]
    rfl
  · have hnone := responseTo_request t.shared r n
    rw [heq, Incident.responseTo, if_pos rfl] at hnone
    cases hnone

/-- **One task keeps it all**. -/
theorem advance (hs : Sound t) (k : Nat) : Sound (t.advance k) := by
  cases hagenda : t.agendas k with
  | nil =>
    rw [Threads.advance, hagenda]
    exact hs
  | cons e rest =>
    obtain ⟨n, task⟩ := e
    obtain ⟨hroster, hdue⟩ := hs.roster.step (rest.map (·.2)) n task
    rw [advance_of_cons hagenda]
    refine hs.record_calls hroster hdue (fun e he => hagenda ▸ List.mem_cons_of_mem _ he)
      (fun m _ => ?_) fun m r heq => ?_
    · rw [responseTo_incident, hagenda, waiting_cons]
    · have hr := responseTo_incident t.shared n m task
      rw [heq, Incident.responseTo, if_pos rfl] at hr
      obtain ⟨rfl, -⟩ := Option.ite_none_right_eq_some.1 hr.symm
      exact hs.owned (hagenda ▸ List.mem_cons_self)

end Sound

/-- **Every interleaving keeps it**. -/
theorem Reachable.sound (h : t.Reachable) : Sound t := by
  induction h with
  | refl => exact sound_nil
  | tail _ hm ih =>
    cases hm with
    | give k a => exact ih.give k a
    | ask k r => exact ih.ask k r
    | advance k => exact ih.advance k

/-! ## One thread -/

/-- A thread works its agenda off, as a script does. -/
theorem moves_run {steps : Nat} {s' : Events} {tasks : List Task}
    (ht : (t.agendas k).map (·.2) = tasks) (hr : Agenda.run step steps t.shared tasks = some s') :
    ∃ t', Moves t t' ∧ t'.shared = s' ∧ t'.agendas k = [] := by
  induction steps generalizing t tasks with
  | zero =>
    cases tasks with
    | nil =>
      cases hr
      exact ⟨t, .refl, rfl, List.map_eq_nil_iff.1 ht⟩
    | cons task tasks => cases hr
  | succ steps ih =>
    cases tasks with
    | nil =>
      cases hr
      exact ⟨t, .refl, rfl, List.map_eq_nil_iff.1 ht⟩
    | cons task tasks =>
      obtain ⟨⟨n, task⟩, rest, hagenda, rfl, rfl⟩ := List.map_eq_cons_iff.1 ht
      have hmove := Move.advance t k
      rw [advance_of_cons hagenda] at hmove
      have hrest : (((t.shared.step (rest.map (·.2)) task).2.map (t.history.length, ·) ++ rest).map
          (·.2)) = (t.shared.step (rest.map (·.2)) task).2 ++ rest.map (·.2) := by
        rw [List.map_append, List.map_map]
        exact congrArg (· ++ _) (List.map_id _)
      obtain ⟨t', hmoves, hshared, hdone⟩ := ih ((congrArg _ record_agendas_self).trans hrest) hr
      exact ⟨t', .head hmove hmoves, hshared, hdone⟩

/-- What the actions of a script lead to, done one after the other; one that does not end is left out. -/
def alone (script : List EventAction) : Events :=
  script.foldl (fun s a => ((s.perform a).map (·.2.2)).getD s) {}

/-- **A script is a run of one thread.** -/
theorem reachable_alone (script : List EventAction) :
    ∃ t : Threads, t.Reachable ∧ t.shared = alone script ∧ t.agendas 0 = [] := by
  suffices hall : ∀ t : Threads, t.Reachable → t.agendas 0 = [] → ∃ t' : Threads, t'.Reachable ∧
      t'.shared = script.foldl (fun s a => ((s.perform a).map (·.2.2)).getD s) t.shared ∧
        t'.agendas 0 = [] from hall {} .refl rfl
  induction script with
  | nil => exact fun t ht hidle => ⟨t, ht, rfl, hidle⟩
  | cons a script ih =>
    intro t ht hidle
    rw [List.foldl_cons]
    cases hp : t.shared.perform a with
    | none => exact ih t ht hidle
    | some result =>
      obtain ⟨answer, log, s'⟩ := result
      obtain ⟨s, hrun, heq⟩ := Option.bind_eq_some_iff.1 hp
      cases heq
      have hgiven : ((t.give 0 a).agendas 0).map (·.2) = [.act a false] := by
        rw [give, record_agendas_self, hidle]
        rfl
      obtain ⟨t', hmoves, rfl, hdone⟩ := moves_run hgiven hrun
      exact ih t' ((ht.tail (.give t 0 a)).trans hmoves) hdone

/-! ## The law -/

/-- **How events reach sinks**, in whatever order threads and sinks do what they do. -/
structure FansOut (t : Threads) : Prop where
  /-- What an emission fired, and after that what it has still to fire, are the sinks that were connected
  when it started, in the order of their connection, with its event and its arguments. -/
  fired : ∀ {n k : Nat} {source : String} {event : Nat} {args : List NativeValue},
    t.history[n]? = some (k, .emitted source event args) → t.firings n ++ t.awaited k n =
      (standing source (t.before n)).map fun c => (c.sink, event, args)
  /-- An emission is answered when it has fired them all. -/
  finished : ∀ {n k : Nat} {source : String} {event : Nat} {args : List NativeValue}
    {result : Option Document}, t.history[n]? = some (k, .emitted source event args) →
      .answered result ∈ t.responses n → t.awaited k n = []
  /-- No sink and no identity is among the connections of a source twice. -/
  once : ∀ source n, ((standing source (t.before n)).map (·.sink)).Nodup ∧
    ((standing source (t.before n)).map (·.id)).Nodup
  /-- A sink is fired by an emission, on the thread that emits. -/
  only : ∀ {m k n sink event : Nat} {args : List NativeValue},
    t.history[m]? = some (k, .responded n (.fired sink event args)) →
      n < m ∧ ∃ source, t.history[n]? = some (k, .emitted source event args)
  /-- A connection is fired by no emission that started before it was made. -/
  late : ∀ {m j : Nat} {source : String} {c : Connection},
    t.history[m]? = some (j, .connected source c) →
      ∀ n ≤ m, ∀ event args, (c.sink, event, args) ∉ t.firings n
  /-- …and by every emission after that, as long as nothing ended it. -/
  next : ∀ {m j n k : Nat} {source : String} {c : Connection} {event : Nat} {args : List NativeValue}
    {result : Option Document}, t.history[m]? = some (j, .connected source c) → m < n →
      (∀ l e, m < l → l < n → t.history[l]? = some e → e.2.ends source c.id = false) →
      t.history[n]? = some (k, .emitted source event args) → .answered result ∈ t.responses n →
        (c.sink, event, args) ∈ t.firings n
  /-- Disconnecting answers whether the identity is that of a connection to the source; of all connections
  to all sources, only this one ends. -/
  disconnected : ∀ {n k : Nat} {source : String} {id : Option ConnectionId},
    t.history[n]? = some (k, .disconnected source id) →
      (∀ result, .answered result ∈ t.responses n → ∃ was, result = some (.bool was) ∧
        (was = true ↔ ∃ c ∈ standing source (t.before n), id = some c.id)) ∧
      ∀ other, standing other (t.before (n + 1)) =
        if other = source then (standing other (t.before n)).filter (id ≠ some ·.id)
        else standing other (t.before n)
  /-- A source lists its connections, and whatever identity it is asked for, it knows whether it has that
  connection, and takes only that one from its list. -/
  sources : ∀ {source : String} {src : EventSource Nat}, t.shared.sources.find? source = some src →
    src.connections = (standing source t.incidents).map (fun c => (c.id, c.sink)) ∧
    ∀ id, (src.isConnected id = true ↔ ∃ c ∈ standing source t.incidents, c.id = id) ∧
      (src.disconnect id).connections =
        ((standing source t.incidents).filter (·.id ≠ id)).map fun c => (c.id, c.sink)
  /-- A label stands for the connection that was last made under it. -/
  labelled : ∀ label, t.shared.connections.find? label =
    ((made t.incidents).reverse.find? (·.label = label)).map (·.id)
  /-- A sink that is to be fired next is there, and logs the event and the arguments under its label. -/
  heard : ∀ {k n sink event : Nat} {args : List NativeValue} {rest : List (Nat × Task)},
    t.agendas k = (n, .fire sink event args) :: rest →
      ∃ source, t.history[n]? = some (k, .emitted source event args) ∧
        ∃ c ∈ standing source (t.before n), c.sink = sink ∧
          (t.shared.fire sink event args).1.log = .record [("sink", .text c.label),
            ("index", .nat event), ("args", .list (args.map t.shared.world.showNative))] ::
              t.shared.log

/-- What came before the next incident. -/
theorem before_succ {e : Nat × Incident} (h : t.history[n]? = some e) :
    t.before (n + 1) = t.before n ++ [e.2] := by
  rw [before, before, List.take_add_one, incidents, List.getElem?_map, h]
  rfl

/-- More comes before later incidents. -/
theorem before_mono {m : Nat} (h : m ≤ n) : t.before m <+: t.before n :=
  List.take_prefix_take_left h

theorem before_incidents : t.before n <+: t.incidents :=
  List.take_prefix ..

/-- Connections that were made stay made. -/
theorem made_subset {h h' : List Incident} (hp : h <+: h') : made h ⊆ made h' := by
  obtain ⟨later, rfl⟩ := hp
  rw [made, made, List.filterMap_append]
  exact List.subset_append_left ..

/-- The responses to an incident are those that happened. -/
theorem mem_responses_iff {r : Response} :
    r ∈ t.responses n ↔ ∃ m k : Nat, t.history[m]? = some (k, .responded n r) := by
  constructor
  · intro h
    obtain ⟨o, ho, hr⟩ := List.mem_filterMap.1 h
    obtain ⟨⟨k, o⟩, he, rfl⟩ := List.mem_map.1 ho
    obtain ⟨m, hm⟩ := List.mem_iff_getElem?.1 he
    cases o with
    | responded n' r' =>
      obtain ⟨rfl, heq⟩ := Option.ite_none_right_eq_some.1 hr
      cases heq
      exact ⟨m, k, hm⟩
    | _ => cases hr
  · rintro ⟨m, k, hm⟩
    exact List.mem_filterMap.2
      ⟨.responded n r, List.mem_map.2 ⟨_, List.mem_of_getElem? hm, rfl⟩, if_pos rfl⟩

/-- An event is due for the connections that stand. -/
theorem fired_mem_due {before : List Incident} {sink event : Nat} {args : List NativeValue}
    (h : .fired sink event args ∈ due before o) :
    ∃ source, o = .emitted source event args ∧ ∃ c ∈ standing source before, c.sink = sink := by
  cases o with
  | emitted source event' args' =>
    rcases List.mem_append.1 h with h | h
    · obtain ⟨c, hc, heq⟩ := List.mem_map.1 h
      cases heq
      exact ⟨source, rfl, c, hc, rfl⟩
    · cases List.mem_singleton.1 h
  | given | responded => cases h
  | _ => cases List.mem_singleton.1 h

namespace Sound

variable (hs : Sound t)
include hs

/-- Connections are made in the order of their numbers. -/
theorem ascending (n : Nat) :
    (made (t.before n)).Pairwise fun c c' => c.id.index < c'.id.index ∧ c.sink < c'.sink :=
  hs.roster.ascending.sublist (before_incidents.sublist.filterMap Incident.made?)

/-- A response that was given, or waits, is due. -/
theorem mem_due {r : Response} (ho : t.history[n]? = some (k, o))
    (hr : r ∈ t.responses n ∨ r ∈ waiting n (t.agendas k)) : r ∈ due (t.before n) o :=
  hs.settled ho ▸ List.mem_append.2 hr

/-- What is fired is due to an emission. -/
theorem emitted_of_fired {sink event : Nat} {args : List NativeValue}
    (ho : t.history[n]? = some (k, o)) (hr : .fired sink event args ∈ t.responses n ∨
      .fired sink event args ∈ waiting n (t.agendas k)) :
    ∃ source, t.history[n]? = some (k, .emitted source event args) ∧
      ∃ c ∈ standing source (t.before n), c.sink = sink := by
  obtain ⟨source, rfl, hc⟩ := fired_mem_due (hs.mem_due ho hr)
  exact ⟨source, ho, hc⟩

/-- An event is fired for the connections that stood when it was emitted, or still awaits its turn. -/
theorem fired {source : String} {event : Nat} {args : List NativeValue}
    (ho : t.history[n]? = some (k, .emitted source event args)) : t.firings n ++ t.awaited k n =
      (standing source (t.before n)).map fun c => (c.sink, event, args) := by
  rw [firings, awaited, ← List.filterMap_append, hs.settled ho, due, List.filterMap_append,
    List.filterMap_map]
  exact (List.append_nil _).trans (congrFun List.filterMap_eq_map (standing source (t.before n)))

/-- Once it is answered, nothing of it is awaited. -/
theorem finished {source : String} {event : Nat} {args : List NativeValue} {result : Option Document}
    (ho : t.history[n]? = some (k, .emitted source event args))
    (hr : .answered result ∈ t.responses n) : t.awaited k n = [] := by
  have hsettled := hs.settled ho
  rcases List.eq_nil_or_concat (waiting n (t.agendas k)) with hw | ⟨others, last, hw⟩
  · rw [awaited, hw]
    rfl
  -- The answer is the last response that is due, so nothing waits once it is given.
  · rw [hw, due, List.concat_eq_append, ← List.append_assoc] at hsettled
    have hfired := (List.append_inj' hsettled rfl).1
    have hmem := List.mem_append_left others hr
    rw [hfired] at hmem
    obtain ⟨c, -, heq⟩ := List.mem_map.1 hmem
    cases heq

/-- A connection that is made later does not hear it. -/
theorem late {m j : Nat} {source : String} {c : Connection}
    (hc : t.history[m]? = some (j, .connected source c)) (hn : n ≤ m) (event : Nat)
    (args : List NativeValue) : (c.sink, event, args) ∉ t.firings n := by
  intro h
  obtain ⟨r, hr, heq⟩ := List.mem_filterMap.1 h
  cases r with
  | answered result => cases heq
  | fired sink event' args' =>
    cases heq
    obtain ⟨m', k, hm'⟩ := mem_responses_iff.1 hr
    obtain ⟨-, o, ho⟩ := hs.told hm'
    obtain ⟨source', -, c', hc', hsink⟩ := hs.emitted_of_fired ho (.inl hr)
    have hmem : c' ∈ made (t.before m) :=
      made_subset (before_mono hn) ((standing_sublist ..).mem hc')
    have hmade : made (t.before (m + 1)) = made (t.before m) ++ [c] := by
      rw [before_succ hc, made_concat]
      rfl
    have hascending := hs.ascending (m + 1)
    rw [hmade, List.pairwise_append] at hascending
    exact Nat.ne_of_lt (hascending.2.2 c' hmem c (List.mem_singleton_self c)).2 hsink

/-- One that was made before, and lasts, does. -/
theorem next {m j : Nat} {source : String} {c : Connection} {event : Nat}
    {args : List NativeValue} {result : Option Document}
    (hc : t.history[m]? = some (j, .connected source c)) (hmn : m < n)
    (hlasts : ∀ l e, m < l → l < n → t.history[l]? = some e → e.2.ends source c.id = false)
    (ho : t.history[n]? = some (k, .emitted source event args))
    (hr : .answered result ∈ t.responses n) : (c.sink, event, args) ∈ t.firings n := by
  have hfired := hs.fired ho
  rw [hs.finished ho hr, List.append_nil] at hfired
  rw [hfired]
  refine List.mem_map.2 ⟨c, ?_, rfl⟩
  obtain ⟨later, hlater⟩ := before_mono (t := t) hmn
  rw [← hlater, standing_append, before_succ hc, standing_connected, if_pos rfl]
  refine List.mem_append_left _ (List.mem_filter.2
    ⟨List.mem_append_right _ (List.mem_singleton_self c), ?_⟩)
  rw [Bool.not_eq_true', List.any_eq_false]
  intro o hmem
  obtain ⟨i, hi⟩ := List.mem_iff_getElem?.1 hmem
  have hlength : (t.before (m + 1)).length = m + 1 := by
    rw [before, List.length_take, length_incidents]
    exact Nat.min_eq_left (lt_length hc)
  have hat : (t.before n)[m + 1 + i]? = some o := by
    rw [← hlater, ← hlength, List.getElem?_append_right (Nat.le_add_right ..), Nat.add_sub_cancel_left, hi]
  rw [before, List.getElem?_take] at hat
  split at hat
  · next hl =>
    rw [incidents, List.getElem?_map, Option.map_eq_some_iff] at hat
    obtain ⟨e, he, rfl⟩ := hat
    exact Bool.not_eq_true _ ▸ hlasts _ e (by omega) hl he
  · cases hat

/-- To disconnect is answered by whether the connection was there. -/
theorem disconnected {source : String} {id : Option ConnectionId}
    (ho : t.history[n]? = some (k, .disconnected source id)) {result : Option Document}
    (hr : .answered result ∈ t.responses n) : ∃ was, result = some (.bool was) ∧
      (was = true ↔ ∃ c ∈ standing source (t.before n), id = some c.id) := by
  have hdue := List.mem_singleton.1 (hs.mem_due ho (.inl hr))
  cases hdue
  exact ⟨_, rfl, by simp only [List.any_eq_true, decide_eq_true_eq]⟩

/-- A sink that hears an event is one of these, and logs its arguments. -/
theorem heard {sink event : Nat} {args : List NativeValue} {rest : List (Nat × Task)}
    (h : t.agendas k = (n, .fire sink event args) :: rest) :
    ∃ source, t.history[n]? = some (k, .emitted source event args) ∧
      ∃ c ∈ standing source (t.before n), c.sink = sink ∧
        (t.shared.fire sink event args).1.log = .record [("sink", .text c.label),
          ("index", .nat event), ("args", .list (args.map t.shared.world.showNative))] ::
            t.shared.log := by
  obtain ⟨o, ho⟩ := hs.owned (h ▸ List.mem_cons_self)
  have hwaits : .fired sink event args ∈ waiting n (t.agendas k) := by
    rw [h, waiting_cons, if_pos rfl]
    exact List.mem_cons_self
  obtain ⟨source, hemitted, c, hc, rfl⟩ := hs.emitted_of_fired ho (.inr hwaits)
  refine ⟨source, hemitted, c, hc, rfl, ?_⟩
  obtain ⟨-, sink, hsink, hlabel⟩ :=
    hs.roster.known c (made_subset before_incidents ((standing_sublist ..).mem hc))
  rw [fire, hsink, ← hlabel]
  rfl

end Sound

/-- **Events reach the sinks that were connected when they were emitted, each once and in order**, after
every run: whatever threads ask of event sources, and whatever the sinks ask of them that are fired.  What a
script leads to is what such a run leads to. -/
theorem fansOut : (∀ t : Threads, t.Reachable → t.FansOut) ∧
    ∀ script, ∃ t : Threads, t.Reachable ∧ t.shared = alone script ∧ t.agendas 0 = [] := by
  refine ⟨fun t h => ?_, reachable_alone⟩
  have hs := h.sound
  exact {
    fired := hs.fired
    finished := hs.finished
    once := fun source n => by
      have hascending := (hs.ascending n).sublist (standing_sublist source (t.before n))
      refine ⟨List.pairwise_map.2 (hascending.imp fun hlt => Nat.ne_of_lt hlt.2),
        List.pairwise_map.2 (hascending.imp fun hlt heq => ?_)⟩
      exact Nat.ne_of_lt hlt.1 (congrArg ConnectionId.index heq)
    only := fun hm => by
      obtain ⟨hlt, o, ho⟩ := hs.told hm
      obtain ⟨source, hemitted, -⟩ := hs.emitted_of_fired ho (.inl (mem_responses_iff.2 ⟨_, _, hm⟩))
      exact ⟨hlt, source, hemitted⟩
    late := fun hc _ hn event args => hs.late hc hn event args
    next := hs.next
    disconnected := fun ho => ⟨fun _ => hs.disconnected ho, fun other => by
      rw [before_succ ho, standing_disconnected]⟩
    sources := fun hf => by
      have hlisted := hs.roster.listed hf
      refine ⟨hlisted, fun id => ⟨?_, ?_⟩⟩
      · rw [EventSource.isConnected, hlisted, List.any_map, List.any_eq_true]
        simp only [Function.comp_def, decide_eq_true_eq]
      · rw [EventSource.disconnect, hlisted, List.filter_map]
        rfl
    labelled := hs.roster.labelled
    heard := hs.heard }

/-- Some moves: what threads ask for, or their next tasks. -/
def run (t : Threads) (moves : List (Nat × Option EventRequest)) : Threads :=
  moves.foldl (fun t move => move.2.elim (t.advance move.1) (t.ask move.1)) t

/-- Any sequence of requests and steps is a run. -/
theorem Reachable.run (h : t.Reachable) (moves : List (Nat × Option EventRequest)) :
    Reachable (t.run moves) := by
  induction moves generalizing t with
  | nil => exact h
  | cons move moves ih =>
    obtain ⟨k, r⟩ := move
    cases r with
    | none => exact ih (h.tail (.advance t k))
    | some r => exact ih (h.tail (.ask t k r))

/-- The first of two sinks that are fired takes both from the source and connects a third, which another
thread emits to before the second sink is fired. -/
def overlapping : Threads :=
  run {} [(0, some (.create "s")), (0, none), (0, some (.connect "s" { label := "a", body := [] })),
    (0, none), (0, some (.connect "s" { label := "b", body := [] })), (0, none),
    (0, some (.emit "s" 4 [.int 7])), (0, none), (0, some (.disconnect "s" (some ⟨1⟩))), (0, none),
    (0, some (.disconnect "s" (some ⟨0⟩))), (0, none),
    (0, some (.connect "s" { label := "c", body := [] })), (0, none), (1, some (.emit "s" 5 [])),
    (1, none), (1, none), (0, none), (0, none)]

/-- Of two emissions that overlap, each is fired for the connections that stood when it came. -/
theorem fansOut_of_overlapping : overlapping.Reachable ∧
    overlapping.firings 6 = [(0, 4, [.int 7]), (1, 4, [.int 7])] ∧
    overlapping.firings 14 = [(2, 5, [])] ∧
    .answered (some (.bool true)) ∈ overlapping.responses 8 := by
  have hreach : overlapping.Reachable := Reachable.run .refl _
  have hlaw := Threads.fansOut.1 overlapping hreach
  have hemitted : overlapping.history[6]? = some (0, .emitted "s" 4 [.int 7]) := rfl
  have hemitted' : overlapping.history[14]? = some (1, .emitted "s" 5 []) := rfl
  have hanswered : .answered (some .null) ∈ overlapping.responses 6 := .tail _ (.tail _ (.head _))
  have hanswered' : .answered (some .null) ∈ overlapping.responses 14 := .tail _ (.head _)
  have hfired := hlaw.fired hemitted
  have hfired' := hlaw.fired hemitted'
  rw [hlaw.finished hemitted hanswered, List.append_nil] at hfired
  rw [hlaw.finished hemitted' hanswered', List.append_nil] at hfired'
  exact ⟨hreach, hfired, hfired', .head _⟩

end Threads

end Isthmus.Events
