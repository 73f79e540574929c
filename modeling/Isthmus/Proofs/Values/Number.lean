import Isthmus.Number.Exact
import Mathlib

/-!
# Proofs/Values/Number — whole numbers as doubles

A whole number below `2 ^ 53` survives as a double: `integer?_ofInt`, and `int32?_ofInt32` for those of
the native side.  A byte survives rounding as well: `toSample_ofInt`.
-/

namespace Isthmus.Number
open Float.Model

/-- The bits that a double was made of, unless they are those of no number. -/
theorem toBits_ofBits {b : UInt64} (h : b.toNat / twoPow 52 % twoPow 11 ≠ 2047) :
    (Float.ofBits b).toBits = b := by
  have hvalid : Format.binary64.Valid b.toBitVec := by
    refine ⟨fun he => absurd ?_ h⟩
    have he := congrArg BitVec.toNat he
    rw [UnpackedFloat.unpackExponent_def, BitVec.extractLsb'_toNat, Nat.shiftRight_eq_div_pow] at he
    exact he
  rw [Float.toBits, Float.ofBits, Float.Model.ofBits, pack]
  exact UInt64.toBitVec_inj.1 (UnpackedFloat.pack_unpack_of_valid hvalid)

/-- The mantissa of a whole number fills its bits. -/
theorem mantissa_bounds {n : Nat} (h0 : n ≠ 0) (h : n < 2 ^ 53) :
    2 ^ 52 ≤ n * 2 ^ (52 - n.log2) ∧ n * 2 ^ (52 - n.log2) < 2 ^ 53 := by
  have hlog : n.log2 < 53 := (Nat.log2_lt h0).2 h
  have hle : 2 ^ n.log2 ≤ n := Nat.log2_self_le h0
  have hlt : n < 2 ^ (n.log2 + 1) := Nat.lt_log2_self
  have hsplit : 52 = n.log2 + (52 - n.log2) := by omega
  constructor
  · calc 2 ^ 52 = 2 ^ n.log2 * 2 ^ (52 - n.log2) := by rw [← pow_add, ← hsplit]
      _ ≤ n * 2 ^ (52 - n.log2) := Nat.mul_le_mul_right _ hle
  · calc n * 2 ^ (52 - n.log2) < 2 ^ (n.log2 + 1) * 2 ^ (52 - n.log2) :=
          Nat.mul_lt_mul_of_pos_right hlt (Nat.two_pow_pos _)
      _ = 2 ^ 53 := by rw [← pow_add]; congr 1; omega

/-- A double in three parts, put together. -/
theorem decode?_ofBits {s biased fraction : Nat} (hs : s < 2) (hb : biased < 2047) (h0 : biased ≠ 0)
    (hf : fraction < 2 ^ 52) :
    decode? (Float.ofBits (UInt64.ofNat (s * 2 ^ 63 + biased * 2 ^ 52 + fraction))) =
      some ⟨s == 1, 2 ^ 52 + fraction, (biased : Int) - 1075⟩ := by
  have hlt : s * 2 ^ 63 + biased * 2 ^ 52 + fraction < 2 ^ 64 := by omega
  have hnat : (UInt64.ofNat (s * 2 ^ 63 + biased * 2 ^ 52 + fraction)).toNat =
      s * 2 ^ 63 + biased * 2 ^ 52 + fraction := UInt64.toNat_ofNat_of_lt' hlt
  have hbiased : (s * 2 ^ 63 + biased * 2 ^ 52 + fraction) / twoPow 52 % twoPow 11 = biased := by
    change _ / 2 ^ 52 % 2 ^ 11 = _
    omega
  have hsign : (s * 2 ^ 63 + biased * 2 ^ 52 + fraction) / twoPow 63 = s := by
    change _ / 2 ^ 63 = _
    omega
  have hfraction : (s * 2 ^ 63 + biased * 2 ^ 52 + fraction) % twoPow 52 = fraction := by
    change _ % 2 ^ 52 = _
    omega
  rw [decode?, toBits_ofBits (by rw [hnat, hbiased]; omega), hnat]
  simp only [hbiased, hsign, hfraction]
  rw [if_neg (by omega), if_neg h0]
  rfl

/-! ## Whole numbers -/

theorem decode?_zero : decode? (ofInt 0) = some ⟨false, 0, -1074⟩ := by
  have hbits : (ofInt 0).toBits = 0 := toBits_ofBits (by decide)
  rw [decode?, hbits]
  rfl

theorem bitsOfNat_of_ne_zero (negative : Bool) {n : Nat} (h : n ≠ 0) :
    bitsOfNat negative n = negative.toNat * 2 ^ 63 + (1023 + n.log2) * 2 ^ 52 +
      (n * 2 ^ (52 - n.log2) - 2 ^ 52) := by
  rw [bitsOfNat, if_neg h]
  cases negative with
  | true => rw [if_pos rfl, Bool.toNat_true, Nat.one_mul]; rfl
  | false => rw [if_neg Bool.false_ne_true, Bool.toNat_false, Nat.zero_mul]; rfl

/-- The number that the parts of a double stand for, where they come from a whole number. -/
theorem whole_of_parts {n k : Nat} (negative : Bool) (hk : k ≤ 52) :
    Exact.isWhole ⟨negative, n * 2 ^ (52 - k), (k : Int) - 52⟩ = true ∧
      Exact.floorAbs ⟨negative, n * 2 ^ (52 - k), (k : Int) - 52⟩ = n := by
  by_cases h : k = 52
  · subst h
    exact ⟨rfl, by simp [Exact.floorAbs, twoPow]⟩
  · have hneg : ¬ 0 ≤ (k : Int) - 52 := by omega
    have hexp : (-((k : Int) - 52)).toNat = 52 - k := by omega
    have hpow : twoPow (52 - k) = 2 ^ (52 - k) := rfl
    refine ⟨?_, ?_⟩
    · rw [Exact.isWhole, if_neg hneg, hexp, hpow, Nat.mul_mod_left]
      rfl
    · rw [Exact.floorAbs, if_neg hneg, hexp, hpow, Nat.mul_div_cancel _ (Nat.two_pow_pos _)]

/-- Rounding the parts of a whole number gives the number. -/
theorem round_of_parts {n k : Nat} (negative : Bool) (hk : k ≤ 52) :
    Exact.roundAbs ⟨negative, n * 2 ^ (52 - k), (k : Int) - 52⟩ = n := by
  by_cases h : k = 52
  · subst h
    simp [Exact.roundAbs, twoPow]
  · have hneg : ¬ 0 ≤ (k : Int) - 52 := by omega
    have hexp : (-((k : Int) - 52)).toNat = 52 - k := by omega
    have hpow : twoPow (52 - k) = 2 ^ (52 - k) := rfl
    -- the half that rounding adds is less than the next whole number needs
    have hhalf : 2 * (n * 2 ^ (52 - k)) + 2 ^ (52 - k) = (2 * n + 1) * 2 ^ (52 - k) := by ring
    rw [Exact.roundAbs, if_neg hneg, hexp, hpow, hhalf,
      Nat.mul_div_mul_right _ _ (Nat.two_pow_pos _)]
    omega

theorem roundAbs_zero (negative : Bool) {exponent : Int} (h : exponent < 0) :
    Exact.roundAbs ⟨negative, 0, exponent⟩ = 0 := by
  have hpos : 0 < twoPow (-exponent).toNat := Nat.two_pow_pos _
  rw [Exact.roundAbs, if_neg (Int.not_le.2 h), Nat.mul_zero, Nat.zero_add]
  exact Nat.div_eq_of_lt (by dsimp only; omega)

/-- The parts of the double of a whole number. -/
theorem decode?_ofInt {i : Int} (h0 : i ≠ 0) (h : i.natAbs < 2 ^ 53) :
    decode? (ofInt i) = some ⟨decide (i < 0), i.natAbs * 2 ^ (52 - i.natAbs.log2),
      (i.natAbs.log2 : Int) - 52⟩ := by
  have hn : i.natAbs ≠ 0 := Int.natAbs_ne_zero.2 h0
  obtain ⟨hle, hlt⟩ := mantissa_bounds hn h
  have hlog : i.natAbs.log2 < 53 := (Nat.log2_lt hn).2 h
  rw [ofInt, bitsOfNat_of_ne_zero _ hn,
    decode?_ofBits (Bool.toNat_lt _) (by omega) (by omega) (by omega)]
  rw [Option.some_inj, Exact.mk.injEq]
  refine ⟨?_, by omega, by omega⟩
  cases decide (i < 0) <;> rfl

theorem log2_le {i : Int} (h0 : i ≠ 0) (h : i.natAbs < 2 ^ 53) : i.natAbs.log2 ≤ 52 :=
  Nat.le_of_lt_succ ((Nat.log2_lt (Int.natAbs_ne_zero.2 h0)).2 h)

theorem integer?_of_whole {x : Float} {e : Exact} {n : Nat} (hd : decode? x = some e)
    (hw : e.isWhole = true) (hf : e.floorAbs = n) : integer? x = some (e.signed n) := by
  rw [integer?, hd]
  simp only [hw, if_true, hf]

/-- **Small whole numbers are exact**: a double made from one is that number. -/
theorem integer?_ofInt {i : Int} (h : i.natAbs < 2 ^ 53) : integer? (ofInt i) = some i := by
  by_cases h0 : i = 0
  · subst h0
    have hwhole : Exact.isWhole ⟨false, 0, -1074⟩ = true := by
      rw [Exact.isWhole, if_neg (by decide), Nat.zero_mod]
      rfl
    have hfloor : Exact.floorAbs ⟨false, 0, -1074⟩ = 0 := by
      rw [Exact.floorAbs, if_neg (by decide), Nat.zero_div]
    exact integer?_of_whole decode?_zero hwhole hfloor
  obtain ⟨hwhole, hfloor⟩ := whole_of_parts (n := i.natAbs) (decide (i < 0)) (log2_le h0 h)
  rw [integer?_of_whole (decode?_ofInt h0 h) hwhole hfloor, Exact.signed]
  by_cases hneg : i < 0
  · rw [decide_eq_true hneg, if_pos rfl]
    congr 1
    omega
  · rw [decide_eq_false hneg, if_neg Bool.false_ne_true]
    congr 1
    omega

/-- **A byte survives** as a double that is rounded. -/
theorem toSample_ofInt (b : UInt8) : toSample (ofInt b.toNat) = b := by
  have hlt := b.toNat_lt
  -- a number that rounds to the byte is neither negative nor cut off
  have hround {e : Exact} (hd : decode? (ofInt b.toNat) = some e) (hs : e.negative = false)
      (hr : e.roundAbs = b.toNat) : toSample (ofInt b.toNat) = b := by
    rw [toSample, hd]
    simp only [hs, hr]
    rw [if_neg Bool.false_ne_true, Nat.min_eq_left (by omega), UInt8.ofNat_toNat]
  by_cases h0 : (b.toNat : Int) = 0
  · refine hround (h0 ▸ decode?_zero) rfl ?_
    rw [roundAbs_zero _ (by decide), Int.ofNat_eq_zero.1 h0]
  · have hnonneg : ¬ (b.toNat : Int) < 0 := by omega
    exact hround (decode?_ofInt h0 (by omega)) (decide_eq_false hnonneg)
      (round_of_parts _ (log2_le h0 (by omega)))

/-- **A 32-bit integer survives** as a double. -/
theorem int32?_ofInt32 (i : Int32) : int32? (ofInt32 i) = some i := by
  have hle := i.le_toInt
  have hlt := i.toInt_lt
  rw [int32?, ofInt32, integer?_ofInt (by omega)]
  simp only
  rw [if_pos ⟨by omega, by omega⟩, Int32.ofInt_toInt]

end Isthmus.Number
