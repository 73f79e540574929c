import Isthmus.Descriptor.Basic
import Isthmus.Native.Member

/-!
# Library/Ticker — counting aloud

A ticker counts up and announces each value on `changed`; a background count announces `finished`
after its last value.  Reaching a value and announcing it are two separate steps, so counts of one
ticker may interleave between them.  Whatever a call does is one such step after the other
(`Count.run`).
-/

namespace Isthmus.Ticker

def descriptor : TypeDescriptor :=
  ({ name := "Ticker" } : TypeDescriptor)
    |>.method "bump" [] .void
    |>.method "start" [.int] .void
    |>.event "changed" [.int]
    |>.event "finished" []
    |>.readonly "value" .int

/-- The index of the event that announces a value. -/
def changed : Nat := 2
/-- The index of the event that announces the end of a background count. -/
def finished : Nat := 3

/-- What a ticker announces: the index of an event and its arguments. -/
structure Announcement where
  event : Nat
  args : List NativeValue

/-- The announcement of a value. -/
def announce (value : Int32) : Announcement :=
  ⟨changed, [.int value]⟩

/-- What a step does for others to see. -/
inductive Deed where
  | reached (value : Int32)
  | announced (a : Announcement)

/-- What comes of a step, which leaves the given value. -/
def Deed.ofStep (value : Int32) : Option Announcement → Deed
  | none => reached value
  | some a => announced a

/-- A count on its way: the steps left, and a value reached but not yet announced. -/
structure Count where
  remaining : Nat
  reached : Option Int32 := none
  deriving DecidableEq, Repr

namespace Count

/-- One step of a count, on the ticker's value: the new value, the rest of the count, and what is
announced. -/
def advance (value : Int32) (c : Count) : Int32 × Option Count × Option Announcement :=
  match c.reached, c.remaining with
  | some v, n => (value, some ⟨n, none⟩, some (announce v))
  | none, n + 1 => (value + 1, some ⟨n, some (value + 1)⟩, none)
  | none, 0 => (value, none, some ⟨finished, []⟩)

/-- How many steps are left. -/
def steps (c : Count) : Nat :=
  2 * c.remaining + (if c.reached.isSome then 1 else 0)

theorem steps_advance {value value' : Int32} {c c' : Count} {a : Option Announcement}
    (h : c.advance value = (value', some c', a)) : c'.steps < c.steps := by
  obtain ⟨n, r⟩ := c
  cases r with
  | some v =>
    simp only [advance, Prod.mk.injEq, Option.some.injEq] at h
    obtain ⟨-, rfl, -⟩ := h
    simp [steps]
  | none =>
    cases n with
    | zero => simp [advance] at h
    | succ n =>
      simp only [advance, Prod.mk.injEq, Option.some.injEq] at h
      obtain ⟨-, rfl, -⟩ := h
      simp [steps]
      omega

/-- A count without interruption: all that it does, in order. -/
def run (value : Int32) (c : Count) : List Deed :=
  match h : c.advance value with
  | (value', some c', a) =>
    have := steps_advance h
    .ofStep value' a :: run value' c'
  | (value', none, a) => [.ofStep value' a]
termination_by c.steps

end Count

/-- What calling a method asks for. -/
inductive Request where
  | bump
  | start (count : Count)

/-- The request of a method by its index. -/
def request (nameOf : TypeId → String) (index : Nat) (args : List NativeValue) :
    Except Fault Request :=
  match index with
  | 0 => .ok .bump
  | 1 => do
    let steps ← argumentAs (·.toInt nameOf) args 0
    if steps.toInt < 0 then
      throw (.error (.argument ("negative step count " ++ toString steps.toInt)))
    return .start { remaining := steps.toInt.toNat }
  | _ => .error (.error (.unknownMember index))

end Isthmus.Ticker
