/-!
# Text/Utf8 — text from bytes that may not be text

`decode` reads UTF-8.  Where the bytes stop being UTF-8, the longest part that could still have
begun a character becomes one replacement character, and reading goes on after it.
-/

namespace Isthmus.Text

/-- Stands for bytes that are no character. -/
def replacement : Char :=
  Char.ofNat 0xFFFD

/-- For a leading byte: how many bytes follow it, and the range of the first of those. -/
def sequenceOf (lead : Nat) : Option (Nat × Nat × Nat) :=
  if 0xC2 ≤ lead ∧ lead ≤ 0xDF then some (1, 0x80, 0xBF)
  else if lead = 0xE0 then some (2, 0xA0, 0xBF)
  else if lead = 0xED then some (2, 0x80, 0x9F)
  else if 0xE1 ≤ lead ∧ lead ≤ 0xEF then some (2, 0x80, 0xBF)
  else if lead = 0xF0 then some (3, 0x90, 0xBF)
  else if 0xF1 ≤ lead ∧ lead ≤ 0xF3 then some (3, 0x80, 0xBF)
  else if lead = 0xF4 then some (3, 0x80, 0x8F)
  else none

/-- Reads `count` continuation bytes, the first within `lo … hi`: the code point, or `none` when one
is missing, and what is left. -/
def continuation : Nat → Nat → Nat → Nat → List UInt8 → Option Nat × List UInt8
  | 0, _, _, code, rest => (some code, rest)
  | _ + 1, _, _, _, [] => (none, [])
  | count + 1, lo, hi, code, b :: rest =>
    if lo ≤ b.toNat ∧ b.toNat ≤ hi then continuation count 0x80 0xBF (code * 64 + b.toNat % 64) rest
    else (none, b :: rest)

theorem continuation_length_le (count lo hi code : Nat) (bytes : List UInt8) :
    (continuation count lo hi code bytes).2.length ≤ bytes.length := by
  induction count, lo, hi, code, bytes using continuation.induct with
  | case1 => simp [continuation]
  | case2 => simp [continuation]
  | case3 count lo hi code b rest h ih =>
    rw [continuation, if_pos h]
    exact Nat.le_succ_of_le ih
  | case4 count lo hi code b rest h => simp [continuation, h]

/-- The characters of a byte string. -/
def decodeList : List UInt8 → List Char
  | [] => []
  | b :: rest =>
    if b.toNat < 0x80 then Char.ofNat b.toNat :: decodeList rest
    else
      match sequenceOf b.toNat with
      | none => replacement :: decodeList rest
      | some (count, lo, hi) =>
        let keep := if count = 1 then 32 else if count = 2 then 16 else 8
        let r := continuation count lo hi (b.toNat % keep) rest
        have : r.2.length < (b :: rest).length :=
          Nat.lt_succ_of_le (continuation_length_le count lo hi _ rest)
        match r.1 with
        | some code => Char.ofNat code :: decodeList r.2
        | none => replacement :: decodeList r.2
termination_by bytes => bytes.length
decreasing_by
  · exact Nat.lt_succ_self _
  · exact Nat.lt_succ_self _
  · exact this
  · exact this

/-- The text of a byte string. -/
def decode (bytes : List UInt8) : String :=
  String.ofList (decodeList bytes)

end Isthmus.Text
