import Isthmus.World.Operation

/-!
# Proofs/Run/History — what can be read off the history of a world

The history lists what happened, newest first, so a question about a run is a recursion on it.

* `underway` — the deliveries that are under way; `undecided` and `preparing` — the events among them that
  are being prepared for their subscribers.
* `aimed`, `sent`, `taken` and `heard` — the stations of an event.
* `latest` and `lost` — the promise that waits for a deferred, and those that it made wait in vain.
* `inFlight` and `leftBehind` — the firings on their way to a subscriber, and the subscribers whose
  callbacks outlived their channel for the sake of one.
-/

namespace Isthmus

/-- The event that a wake delivers. -/
def Wake.event? : Wake → Option (Token × List NativeValue)
  | .event token args => some (token, args)
  | _ => none

/-- The events among some wakes. -/
def Wake.events (wakes : List Wake) : List (Token × List NativeValue) :=
  wakes.filterMap Wake.event?

theorem Wake.mem_events {wakes : List Wake} {token args} :
    (token, args) ∈ Wake.events wakes ↔ .event token args ∈ wakes := by
  rw [Wake.events, List.mem_filterMap]
  constructor
  · rintro ⟨wake, hw, he⟩
    cases wake with
    | event token' args' =>
      cases he
      exact hw
    | settle slot status v => cases he
    | script label body => cases he
  · exact fun hw => ⟨_, hw, rfl⟩

theorem Wake.events_append (wakes more : List Wake) :
    Wake.events (wakes ++ more) = Wake.events wakes ++ Wake.events more :=
  List.filterMap_append

namespace History

/-! ## Deliveries -/

/-- The deliveries that are under way, innermost first: of each the event, while it is not decided what
becomes of it. -/
def underway : List Occurrence → List (Option (ContextId × Token × List NativeValue))
  | .taken cx wake :: older => (wake.event?.map fun event => (cx, event)) :: underway older
  | .heard .. :: older => none :: (underway older).tail
  | .ended .. :: older => (underway older).tail
  | _ :: older => underway older
  | [] => []

/-- The event of the innermost delivery, while it is not decided what becomes of it. -/
def undecided (h : List Occurrence) : Option (ContextId × Token × List NativeValue) :=
  (underway h).head?.join

/-- The event of a delivery, if it is for the context and not decided yet. -/
def eventFor (cx : ContextId) :
    Option (ContextId × Token × List NativeValue) → Option (Token × List NativeValue)
  | some (c, event) => if c = cx then some event else none
  | none => none

/-- The events of a context that are being prepared for their subscribers, in the order in which they were
taken. -/
def preparing (cx : ContextId) (h : List Occurrence) : List (Token × List NativeValue) :=
  (underway h).reverse.filterMap (eventFor cx)

theorem undecided_eq_some {h : List Occurrence} {e : ContextId × Token × List NativeValue} :
    undecided h = some e ↔ ∃ rest, underway h = some e :: rest := by
  rw [undecided]
  cases underway h with
  | nil => simp
  | cons o rest => simp

theorem preparing_of_underway {cx : ContextId} {h : List Occurrence}
    {o : Option (ContextId × Token × List NativeValue)} {rest} (hu : underway h = o :: rest) :
    preparing cx h = rest.reverse.filterMap (eventFor cx) ++ (eventFor cx o).toList := by
  rw [preparing, hu, List.reverse_cons, List.filterMap_append]
  cases he : eventFor cx o with
  | none => simp [he]
  | some e => simp [he]

/-- No event of the context was taken while another one was being prepared for its subscriber. -/
def OneByOne (cx : ContextId) : List Occurrence → Prop
  | .taken c (.event ..) :: older => (c = cx → preparing cx older = []) ∧ OneByOne cx older
  | _ :: older => OneByOne cx older
  | [] => True

/-- The subscribers that the firings for a context took, with the arguments, oldest first. -/
def aimed (cx : ContextId) : List Occurrence → List (Token × List NativeValue)
  | .aimed c token args :: older =>
    if c = cx then aimed cx older ++ [(token, args)] else aimed cx older
  | _ :: older => aimed cx older
  | [] => []

/-- The wakes that were queued for a context, oldest first. -/
def sent (cx : ContextId) : List Occurrence → List Wake
  | .sent c wake :: older => if c = cx then sent cx older ++ [wake] else sent cx older
  | _ :: older => sent cx older
  | [] => []

/-- The wakes of a context whose delivery began, oldest first. -/
def taken (cx : ContextId) : List Occurrence → List Wake
  | .taken c wake :: older => if c = cx then taken cx older ++ [wake] else taken cx older
  | _ :: older => taken cx older
  | [] => []

theorem aimed_aimed (c cx : ContextId) (token : Token) (args : List NativeValue)
    (h : List Occurrence) : aimed c (.aimed cx token args :: h) =
      if cx = c then aimed c h ++ [(token, args)] else aimed c h := rfl

theorem sent_sent (c cx : ContextId) (wake : Wake) (h : List Occurrence) :
    sent c (.sent cx wake :: h) = if cx = c then sent c h ++ [wake] else sent c h := rfl

theorem taken_taken (c cx : ContextId) (wake : Wake) (h : List Occurrence) :
    taken c (.taken cx wake :: h) = if cx = c then taken c h ++ [wake] else taken c h := rfl

/-- What is in a list that is added to under a condition. -/
theorem mem_ite_append {α : Type} {p : Prop} [Decidable p] {as : List α} {a b : α} :
    a ∈ (if p then as ++ [b] else as) ↔ p ∧ a = b ∨ a ∈ as := by
  by_cases hp : p
  · simp only [hp, if_true, true_and, List.mem_append, List.mem_singleton, or_comm]
  · simp only [hp, if_false, false_and, false_or]

theorem mem_aimed {cx : ContextId} {e : Token × List NativeValue} {h : List Occurrence} :
    e ∈ aimed cx h ↔ .aimed cx e.1 e.2 ∈ h := by
  induction h with
  | nil => exact iff_of_false List.not_mem_nil List.not_mem_nil
  | cons o h ih =>
    cases o with
    | aimed c token args =>
      obtain ⟨t, as⟩ := e
      rw [aimed_aimed, mem_ite_append, List.mem_cons, Occurrence.aimed.injEq, ih, eq_comm (a := c),
        Prod.mk.injEq]
    | _ => simpa only [aimed, List.mem_cons, reduceCtorEq, false_or] using ih

theorem mem_sent {cx : ContextId} {wake : Wake} {h : List Occurrence} :
    wake ∈ sent cx h ↔ .sent cx wake ∈ h := by
  induction h with
  | nil => exact iff_of_false List.not_mem_nil List.not_mem_nil
  | cons o h ih =>
    cases o with
    | sent c wake' =>
      rw [sent_sent, mem_ite_append, List.mem_cons, Occurrence.sent.injEq, ih, eq_comm (a := c)]
    | _ => simpa only [sent, List.mem_cons, reduceCtorEq, false_or] using ih

theorem mem_taken {cx : ContextId} {wake : Wake} {h : List Occurrence} :
    wake ∈ taken cx h ↔ .taken cx wake ∈ h := by
  induction h with
  | nil => exact iff_of_false List.not_mem_nil List.not_mem_nil
  | cons o h ih =>
    cases o with
    | taken c wake' =>
      rw [taken_taken, mem_ite_append, List.mem_cons, Occurrence.taken.injEq, ih, eq_comm (a := c)]
    | _ => simpa only [taken, List.mem_cons, reduceCtorEq, false_or] using ih

/-- The events of a context that were decided, oldest first. -/
def heard (cx : ContextId) :
    List Occurrence → List (Token × List NativeValue × Verdict)
  | .heard c token args verdict :: older =>
    if c = cx then heard cx older ++ [(token, args, verdict)] else heard cx older
  | _ :: older => heard cx older
  | [] => []

theorem heard_heard (c cx : ContextId) (token : Token) (args : List NativeValue)
    (verdict : Verdict) (h : List Occurrence) :
    heard c (.heard cx token args verdict :: h) =
      if cx = c then heard c h ++ [(token, args, verdict)] else heard c h := rfl

theorem mem_heard {cx : ContextId} {e : Token × List NativeValue × Verdict} {h : List Occurrence} :
    e ∈ heard cx h ↔ .heard cx e.1 e.2.1 e.2.2 ∈ h := by
  induction h with
  | nil => exact iff_of_false List.not_mem_nil List.not_mem_nil
  | cons o h ih =>
    cases o with
    | heard c token args verdict =>
      obtain ⟨t, as, v⟩ := e
      rw [heard_heard, mem_ite_append, List.mem_cons, Occurrence.heard.injEq, ih, eq_comm (a := c),
        Prod.mk.injEq, Prod.mk.injEq]
    | _ => simpa only [heard, List.mem_cons, reduceCtorEq, false_or] using ih

/-! ## Bridges -/

/-- How often a context was given something to carry. -/
def bindings (cx : ContextId) : List Occurrence → Nat
  | .installed c .. :: older => bindings cx older + if c = cx then 1 else 0
  | .unbound c :: older => bindings cx older + if c = cx then 1 else 0
  | _ :: older => bindings cx older
  | [] => 0

/-! ## Handle scopes -/

/-- How many handle scopes of a context the host has open. -/
def scopes (cx : ContextId) : List Occurrence → Nat
  | .opened c :: older => scopes cx older + if c = cx then 1 else 0
  | .closed c :: older => scopes cx older - if c = cx then 1 else 0
  | _ :: older => scopes cx older
  | [] => 0

/-! ## Deferreds -/

/-- The outcome of a deferred. -/
def outcome? (d : DeferredId) : List Occurrence → Option (DeferredStatus × NativeValue)
  | .completed d' status v :: older => if d' = d then some (status, v) else outcome? d older
  | _ :: older => outcome? d older
  | [] => none

/-- The settlement that was promised last for a deferred. -/
def latest (d : DeferredId) : List Occurrence → Option Settlement
  | .promised k _ d' :: older => if d' = d then some k else latest d older
  | _ :: older => latest d older
  | [] => none

/-- A settlement was promised for a deferred that was then converted again before it was complete. -/
def lost (k : Settlement) : List Occurrence → Bool
  | .promised _ _ d :: older =>
    lost k older || (latest d older = some k && (outcome? d older).isNone)
  | _ :: older => lost k older
  | [] => false

/-! ## Subscriptions -/

/-- How many firings are on their way to a subscriber. -/
def inFlight (t : Token) : List Occurrence → Int
  | .aimed _ t' _ :: older => inFlight t older + if t' = t then 1 else 0
  | .ended _ (.event t' _) _ :: older => inFlight t older - if t' = t then 1 else 0
  | .dropped _ (.event t' _) :: older => inFlight t older - if t' = t then 1 else 0
  | _ :: older => inFlight t older
  | [] => 0

/-- When callbacks were last forgotten, a firing was on its way to the subscriber. -/
def leftBehind (t : Token) : List Occurrence → Bool
  | .pruned id :: older => if id = t.installation then 0 < inFlight t older else leftBehind t older
  | _ :: older => leftBehind t older
  | [] => false

/-! ## Closing contexts -/

/-- What does not look at dropped wakes does not see them. -/
theorem skip_dropped {β : Type} {f : List Occurrence → β} {cx : ContextId}
    (hf : ∀ wake older, f (.dropped cx wake :: older) = f older) (wakes : List Wake)
    (older : List Occurrence) : f (wakes.map (.dropped cx) ++ older) = f older := by
  induction wakes with
  | nil => rfl
  | cons wake wakes ih => exact (hf wake _).trans ih

end History

namespace World

/-- The event of the innermost delivery, while it is being prepared for its subscriber. -/
def undecided (w : World) : Option (ContextId × Token × List NativeValue) :=
  History.undecided w.history

/-- The events that were queued for a context, oldest first. -/
def eventsFor (w : World) (cx : ContextId) : List (Token × List NativeValue) :=
  Wake.events (History.sent cx w.history)

/-- What firings for an open loop took is what was queued for it, in the same order. -/
def Prompt (w : World) : Prop :=
  ∀ cx, (w.loopOf cx).isOpen → History.aimed cx w.history = w.eventsFor cx

/-- The promise was made for a deferred. -/
def IsFuture (w : World) (p : ObjectId) : Prop :=
  ∃ k d, .promised k p d ∈ w.history

/-- The promise waits to be settled. -/
def IsPending (w : World) (p : ObjectId) : Prop :=
  ∃ o reactions, w.object? p = some o ∧ o.kind = .promise (.pending reactions)

end World

end Isthmus
