import Isthmus.Text.Numeral
import Isthmus.Text.Utf8
import Mathlib.Data.List.Basic
import Mathlib.Data.Nat.Digits.Defs
import Mathlib.Tactic.Ring

/-!
# Proofs/Text/Numeral — numerals as bytes

`numeral?` reads the characters that bytes decode to; `numeral?_decode` says which bytes these are.
Every character that a numeral may have takes one byte, and no other bytes decode to such a character:
a sequence of several bytes stands for a code point from `0x80` on, and broken bytes for `replacement`.
-/

namespace Isthmus.Text

/-! ## Characters of one byte -/

/-- The character that a byte stands for by itself. -/
def charOf (b : UInt8) : Char :=
  Char.ofNat b.toNat

theorem toNat_charOf (b : UInt8) : (charOf b).toNat = b.toNat := by
  have hb := b.toNat_lt
  have hv : b.toNat.isValidChar := .inl (by omega)
  rw [charOf, Char.ofNat, dif_pos hv]
  rfl

theorem decodeList_of_ascii {bytes : List UInt8} (h : ∀ b ∈ bytes, b.toNat < 0x80) :
    decodeList bytes = bytes.map charOf := by
  induction bytes with
  | nil => rw [decodeList, List.map_nil]
  | cons b rest ih =>
    obtain ⟨hb, hrest⟩ := List.forall_mem_cons.1 h
    rw [decodeList, if_pos hb, ih hrest, List.map_cons, charOf]

/-- Continuation bytes only add to what the leading byte gave, moved up by six bits each. -/
theorem le_of_continuation {count lo hi code c : Nat} {bytes : List UInt8}
    (h : (continuation count lo hi code bytes).1 = some c) : code * 64 ^ count ≤ c := by
  induction count, lo, hi, code, bytes using continuation.induct with
  | case1 lo hi code rest =>
    cases h
    rw [Nat.pow_zero, Nat.mul_one]
  | case2 => cases h
  | case3 count lo hi code b rest hb ih =>
    rw [continuation, if_pos hb] at h
    refine Nat.le_trans ?_ (ih h)
    rw [Nat.pow_succ', ← Nat.mul_assoc]
    exact Nat.mul_le_mul_right _ (Nat.le_add_right _ _)
  | case4 count lo hi code b rest hb =>
    rw [continuation, if_neg hb] at h
    cases h

/-- The first continuation byte is within its bounds. -/
theorem le_of_continuation_succ {count lo hi code c : Nat} {bytes : List UInt8}
    (hlo : 0x80 ≤ lo) (hhi : hi ≤ 0xBF)
    (h : (continuation (count + 1) lo hi code bytes).1 = some c) :
    (code * 64 + (lo - 0x80)) * 64 ^ count ≤ c := by
  cases bytes with
  | nil => cases h
  | cons b rest =>
    rw [continuation] at h
    split at h
    · next hb =>
      refine Nat.le_trans (Nat.mul_le_mul_right _ ?_) (le_of_continuation h)
      omega
    · cases h

/-- A sequence of several bytes stands for no character of one byte. -/
theorem le_of_sequence {lead count lo hi c : Nat} {bytes : List UInt8}
    (hs : sequenceOf lead = some (count, lo, hi))
    (h : (continuation count lo hi
      (lead % if count = 1 then 32 else if count = 2 then 16 else 8) bytes).1 = some c) :
    0x80 ≤ c := by
  -- One case for each row of the table of leading bytes.
  unfold sequenceOf at hs
  repeat' split at hs
  all_goals cases hs
  all_goals
    have := le_of_continuation_succ (by decide) (by decide) h
    simp only [reduceIte, Nat.reduceEqDiff, Nat.reducePow] at this
    omega

theorem not_plain_of_le {c : Nat} (h : 0x80 ≤ c) :
    (Char.ofNat c).toNat = 0 ∨ 0x80 ≤ (Char.ofNat c).toNat := by
  by_cases hv : c.isValidChar
  · rw [Char.ofNat, dif_pos hv]
    exact .inr h
  · rw [Char.ofNat, dif_neg hv]
    exact .inl rfl

/-- **Characters of one byte come from that byte.** -/
theorem ascii_of_decodeList {bytes : List UInt8}
    (h : ∀ c ∈ decodeList bytes, 0 < c.toNat ∧ c.toNat < 0x80) : ∀ b ∈ bytes, b.toNat < 0x80 := by
  cases bytes with
  | nil => exact fun _ hb => absurd hb List.not_mem_nil
  | cons b rest =>
    rw [decodeList] at h
    split at h
    · next hb =>
      exact List.forall_mem_cons.2 ⟨hb, ascii_of_decodeList (List.forall_mem_cons.1 h).2⟩
    · split at h
      · exact absurd (h _ List.mem_cons_self).2 (by decide)
      · next hs =>
        dsimp only at h
        split at h
        · next c hc =>
          have hc := not_plain_of_le (le_of_sequence hs hc)
          have hp := h _ List.mem_cons_self
          omega
        · exact absurd (h _ List.mem_cons_self).2 (by decide)

theorem charOf_injective : Function.Injective charOf := fun a b h =>
  UInt8.toNat_inj.1 (by rw [← toNat_charOf, ← toNat_charOf, h])

/-- Only its own bytes decode to a text of characters of one byte. -/
theorem decode_eq_ofList_iff {bytes text : List UInt8}
    (h : ∀ b ∈ text, 0 < b.toNat ∧ b.toNat < 0x80) :
    decode bytes = String.ofList (text.map charOf) ↔ bytes = text := by
  rw [decode, String.ofList_inj]
  constructor
  · intro heq
    have hplain : ∀ c ∈ decodeList bytes, 0 < c.toNat ∧ c.toNat < 0x80 := by
      rw [heq]
      exact List.forall_mem_map.2 fun b hb => (toNat_charOf b).symm ▸ h b hb
    rw [decodeList_of_ascii (ascii_of_decodeList hplain)] at heq
    exact charOf_injective.list_map heq
  · rintro rfl
    exact decodeList_of_ascii fun b hb => (h b hb).2

/-! ## Numerals -/

/-- The byte writes a decimal digit. -/
def IsDigit (b : UInt8) : Prop :=
  0x30 ≤ b.toNat ∧ b.toNat ≤ 0x39

/-- The number that decimal digits write, the first digit counting most. -/
def written (digits : List UInt8) : Nat :=
  Nat.ofDigits 10 (digits.reverse.map fun b => b.toNat - 0x30)

/-- **Bytes that write a number**: at least one decimal digit, perhaps after a plus sign. -/
inductive Numeral : List UInt8 → Nat → Prop where
  | plain {digits} (hne : digits ≠ []) (hd : ∀ b ∈ digits, IsDigit b) :
      Numeral digits (written digits)
  | signed {digits} (hne : digits ≠ []) (hd : ∀ b ∈ digits, IsDigit b) :
      Numeral (0x2B :: digits) (written digits)

theorem written_cons (b : UInt8) (rest : List UInt8) :
    written (b :: rest) = (b.toNat - 0x30) * 10 ^ rest.length + written rest := by
  rw [written, List.reverse_cons, List.map_append, Nat.ofDigits_append, List.length_map,
    List.length_reverse, List.map_singleton, Nat.ofDigits_singleton, Nat.add_comm, Nat.mul_comm,
    written]

theorem digit?_charOf (b : UInt8) (d : Nat) :
    digit? (charOf b) = some d ↔ IsDigit b ∧ d = b.toNat - 0x30 := by
  have hle : ('0' ≤ charOf b ∧ charOf b ≤ '9') ↔ IsDigit b := by
    rw [IsDigit, ← toNat_charOf]
    rfl
  rw [digit?]
  split
  · next h => simp only [hle.1 h, true_and, Option.some.injEq, toNat_charOf, eq_comm,
      show '0'.toNat = 0x30 from rfl]
  · next h => simp only [mt hle.2 h, false_and, reduceCtorEq]

theorem digitsFrom_map_charOf (bytes : List UInt8) (n m : Nat) :
    digitsFrom n (bytes.map charOf) = some m ↔
      (∀ b ∈ bytes, IsDigit b) ∧ m = n * 10 ^ bytes.length + written bytes := by
  induction bytes generalizing n with
  | nil => simp [digitsFrom, written, eq_comm]
  | cons b rest ih =>
    rw [List.map_cons, digitsFrom, Option.bind_eq_some_iff, List.forall_mem_cons, written_cons,
      List.length_cons, Nat.pow_succ']
    have hstep : (10 * n + (b.toNat - 0x30)) * 10 ^ rest.length + written rest =
        n * (10 * 10 ^ rest.length) + ((b.toNat - 0x30) * 10 ^ rest.length + written rest) := by
      ring
    constructor
    · rintro ⟨d, hd, h⟩
      obtain ⟨hb, rfl⟩ := (digit?_charOf b d).1 hd
      obtain ⟨hrest, rfl⟩ := (ih _).1 h
      exact ⟨⟨hb, hrest⟩, hstep⟩
    · rintro ⟨⟨hb, hrest⟩, rfl⟩
      exact ⟨_, (digit?_charOf b _).2 ⟨hb, rfl⟩, (ih _).2 ⟨hrest, hstep.symm⟩⟩

/-- What follows the plus sign of a numeral, if it has one. -/
def unsigned (cs : List Char) : List Char :=
  match cs with
  | '+' :: rest => rest
  | _ => cs

theorem unsigned_eq_iff {cs digits : List Char} :
    unsigned cs = digits ↔ cs = digits ∧ digits.head? ≠ some '+' ∨ cs = '+' :: digits := by
  unfold unsigned
  split
  · next rest =>
    refine ⟨fun h => .inr (congrArg _ h), fun h => ?_⟩
    obtain ⟨rfl, hh⟩ | h := h
    · exact absurd rfl hh
    · exact List.tail_eq_of_cons_eq h
  · next hcs =>
    refine ⟨fun h => .inl ⟨h, fun hh => ?_⟩, fun h => ?_⟩
    · obtain ⟨rest, rfl⟩ := List.head?_eq_some_iff.1 hh
      exact hcs rest h
    · obtain ⟨h, -⟩ | h := h
      · exact h
      · exact absurd h (hcs digits)

theorem numeral?_eq_some_iff {cs : List Char} {n : Nat} :
    numeral? cs = some n ↔ ∃ digits, unsigned cs = digits ∧ digits ≠ [] ∧
      digitsFrom 0 digits = some n ∧ n < 2 ^ 64 := by
  have hread : numeral? cs = if (unsigned cs).isEmpty then none
      else (digitsFrom 0 (unsigned cs)).filter (· < UInt64.size) := rfl
  rw [hread, exists_eq_left']
  cases unsigned cs with
  | nil => simp
  | cons c rest =>
    rw [if_neg (by simp), Option.filter_eq_some_iff, decide_eq_true_eq]
    exact ⟨fun h => ⟨List.cons_ne_nil _ _, h⟩, fun h => h.2⟩

theorem Numeral.ascii {bytes : List UInt8} {n : Nat} (h : Numeral bytes n) :
    ∀ b ∈ bytes, b.toNat < 0x80 := by
  have hdigit (b : UInt8) (hb : IsDigit b) : b.toNat < 0x80 := Nat.lt_of_le_of_lt hb.2 (by decide)
  cases h with
  | plain hne hd => exact fun b hb => hdigit b (hd b hb)
  | signed hne hd => exact List.forall_mem_cons.2 ⟨by decide, fun b hb => hdigit b (hd b hb)⟩

/-- A numeral has no character but digits and a plus sign. -/
theorem plain_of_digitsFrom {n m : Nat} {cs : List Char} (h : digitsFrom n cs = some m) :
    ∀ c ∈ cs, 0 < c.toNat ∧ c.toNat < 0x80 := by
  induction cs generalizing n with
  | nil => exact fun _ hc => absurd hc List.not_mem_nil
  | cons c rest ih =>
    obtain ⟨d, hd, h⟩ := Option.bind_eq_some_iff.1 h
    refine List.forall_mem_cons.2 ⟨?_, ih h⟩
    rw [digit?] at hd
    split at hd
    · next hc =>
      have h0 : '0'.toNat ≤ c.toNat := hc.1
      have h9 : c.toNat ≤ '9'.toNat := hc.2
      exact ⟨Nat.lt_of_lt_of_le (by decide) h0, Nat.lt_of_le_of_lt h9 (by decide)⟩
    · cases hd

theorem numeral?_map_charOf {bytes : List UInt8} {n : Nat} :
    numeral? (bytes.map charOf) = some n ↔ Numeral bytes n ∧ n < 2 ^ 64 := by
  rw [numeral?_eq_some_iff]
  constructor
  · rintro ⟨digits, hdigits, hne, hn, hlt⟩
    refine ⟨?_, hlt⟩
    obtain ⟨rfl, -⟩ | hsign := unsigned_eq_iff.1 hdigits
    · obtain ⟨hd, rfl⟩ := (digitsFrom_map_charOf bytes 0 n).1 hn
      rw [Nat.zero_mul, Nat.zero_add]
      exact .plain (fun h => hne (h ▸ rfl)) hd
    · obtain ⟨b, rest, rfl, hb, rfl⟩ := List.map_eq_cons_iff.1 hsign
      obtain rfl : b = 0x2B := charOf_injective (hb.trans (by decide))
      obtain ⟨hd, rfl⟩ := (digitsFrom_map_charOf rest 0 n).1 hn
      rw [Nat.zero_mul, Nat.zero_add]
      exact .signed (fun h => hne (h ▸ rfl)) hd
  · rintro ⟨h, hlt⟩
    cases h with
    | plain hne hd =>
      refine ⟨bytes.map charOf, unsigned_eq_iff.2 (.inl ⟨rfl, fun hh => ?_⟩), by simpa using hne,
        (digitsFrom_map_charOf ..).2 ⟨hd, by rw [Nat.zero_mul, Nat.zero_add]⟩, hlt⟩
      rw [List.head?_map, Option.map_eq_some_iff] at hh
      obtain ⟨b, hb, hc⟩ := hh
      obtain rfl : b = 0x2B := charOf_injective (hc.trans (by decide))
      exact absurd (hd _ (List.mem_of_head? hb)).1 (by decide)
    | signed hne hd =>
      rename_i digits
      exact ⟨digits.map charOf, unsigned_eq_iff.2 (.inr rfl), by simpa using hne,
        (digitsFrom_map_charOf ..).2 ⟨hd, by rw [Nat.zero_mul, Nat.zero_add]⟩, hlt⟩

/-- **Reading a numeral** succeeds on exactly the bytes that write a number below `2 ^ 64`. -/
theorem numeral?_decode {bytes : List UInt8} {n : Nat} :
    numeral? (decode bytes).toList = some n ↔ Numeral bytes n ∧ n < 2 ^ 64 := by
  rw [decode, String.toList_ofList]
  constructor
  · intro h
    have hplain : ∀ c ∈ decodeList bytes, 0 < c.toNat ∧ c.toNat < 0x80 := by
      obtain ⟨digits, hdigits, -, hn, -⟩ := numeral?_eq_some_iff.1 h
      obtain ⟨heq, -⟩ | heq := unsigned_eq_iff.1 hdigits
      · exact heq ▸ plain_of_digitsFrom hn
      · rw [heq]
        exact List.forall_mem_cons.2 ⟨by decide, plain_of_digitsFrom hn⟩
    rw [decodeList_of_ascii (ascii_of_decodeList hplain)] at h
    exact numeral?_map_charOf.1 h
  · intro h
    rw [decodeList_of_ascii h.1.ascii]
    exact numeral?_map_charOf.2 h

end Isthmus.Text
