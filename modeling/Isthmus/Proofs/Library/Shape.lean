import Isthmus.Library.Resize
import Mathlib.Algebra.Group.Nat.Defs
import Mathlib.Data.List.Basic

/-!
# Proofs/Library/Shape — how the samples of a matrix are laid out

The product of the three sizes is checked once (`sampleCount_eq_ok_iff`).  In a matrix that has as many
samples as its sizes say (`Shaped`), a coordinate inside the sizes has a place among the samples, found
without leaving 64 bits (`Shaped.offset?_eq`), and the place tells the coordinate (`placeOf_offset`).
-/

namespace Isthmus

theorem bind_eq_ok_iff {ε α β : Type} {x : Except ε α} {f : α → Except ε β} {b : β} :
    (x >>= f) = .ok b ↔ ∃ a, x = .ok a ∧ f a = .ok b := by
  cases x with
  | error e => simp [bind, Except.bind]
  | ok a => simp [bind, Except.bind]

namespace Matrix

/-! ## Counting samples -/

theorem product?_eq_some_iff {n m k : Nat} :
    product? n m = some k ↔ n * m < UInt64.size ∧ k = n * m := by
  rw [product?, Option.ite_none_right_eq_some, Option.some_inj, eq_comm (a := k)]

/-- **Which shapes have a number of samples**: the product of all sizes is at most `2 ^ 28`, and that of
rows and columns is below `2 ^ 64`, which is no condition unless there is no channel. -/
theorem sampleCount_eq_ok_iff {rows cols channels n : Nat} :
    sampleCount rows cols channels = .ok n ↔
      rows * cols < UInt64.size ∧ n = rows * cols * channels ∧ n ≤ 2 ^ 28 := by
  have hmax : maxSamples = 2 ^ 28 := rfl
  have hsize : UInt64.size = 2 ^ 64 := rfl
  have hcount : ((product? rows cols).bind (product? · channels)).filter (· ≤ maxSamples) = some n ↔
      rows * cols < UInt64.size ∧ n = rows * cols * channels ∧ n ≤ 2 ^ 28 := by
    simp only [Option.filter_eq_some_iff, Option.bind_eq_some_iff, product?_eq_some_iff,
      decide_eq_true_eq, hmax]
    constructor
    · rintro ⟨⟨_, ⟨hk, rfl⟩, -, hn⟩, hle⟩
      exact ⟨hk, hn, hle⟩
    · rintro ⟨hk, rfl, hle⟩
      exact ⟨⟨_, ⟨hk, rfl⟩, by omega, rfl⟩, hle⟩
  rw [← hcount, sampleCount]
  constructor
  · intro h
    split at h
    · next hm =>
      cases h
      exact hm
    · cases h
  · intro h
    rw [h]

/-- A matrix over given samples, if there are as many as the shape has. -/
theorem ofSamples_eq_ok_iff {storage rows cols channels : Nat} {samples : Array UInt8} {m : Matrix} :
    ofSamples storage rows cols channels samples = .ok m ↔
      sampleCount rows cols channels = .ok samples.size ∧
      m = ⟨rows, cols, channels, ⟨storage, samples⟩⟩ := by
  rw [ofSamples]
  cases hn : sampleCount rows cols channels with
  | error e => exact iff_of_false nofun fun h => nomatch h.1
  | ok n =>
    simp only [bind, Except.bind]
    split
    · next h =>
      subst h
      simp only [pure, Except.pure, Except.ok.injEq, true_and, eq_comm]
    · next h => exact iff_of_false nofun fun hn' => h (Except.ok.inj hn'.1).symm

theorem checkShape_eq_ok_iff {rows cols format : Int} {shape : Nat × Nat × Nat} :
    checkShape rows cols format = .ok shape ↔ (0 ≤ rows ∧ 0 ≤ cols) ∧
      (format = gray ∨ format = rgb ∨ format = rgba) ∧
      shape = (rows.toNat, cols.toNat, format.toNat) := by
  rw [checkShape]
  split
  · exact iff_of_false nofun fun h => by omega
  split
  · next hsize hformat =>
    rw [Except.ok.injEq, eq_comm, and_iff_right (by omega), and_iff_right hformat]
  · next hformat => exact iff_of_false nofun fun h => hformat h.2.1

/-- A matrix with every sample set to one value. -/
theorem filled_eq_ok_iff {storage : Nat} {rows cols format : Int} {fill : UInt8} {m : Matrix} :
    filled storage rows cols format fill = .ok m ↔ (0 ≤ rows ∧ 0 ≤ cols) ∧
      (format = gray ∨ format = rgb ∨ format = rgba) ∧
      ∃ n, sampleCount rows.toNat cols.toNat format.toNat = .ok n ∧
        m = ⟨rows.toNat, cols.toNat, format.toNat, ⟨storage, Array.replicate n fill⟩⟩ := by
  simp only [filled, bind_eq_ok_iff, checkShape_eq_ok_iff]
  constructor
  · rintro ⟨_, ⟨hsize, hformat, rfl⟩, n, hn, h⟩
    exact ⟨hsize, hformat, n, hn, (Except.ok.inj h).symm⟩
  · rintro ⟨hsize, hformat, n, hn, rfl⟩
    exact ⟨_, ⟨hsize, hformat, rfl⟩, n, hn, rfl⟩

/-! ## Coordinates -/

/-- A coordinate inside the sizes of a matrix. -/
def Inside (m : Matrix) (row col channel : Nat) : Prop :=
  row < m.rows ∧ col < m.cols ∧ channel < m.channels

instance (m : Matrix) (row col channel : Nat) : Decidable (m.Inside row col channel) :=
  inferInstanceAs (Decidable (_ ∧ _))

/-- The last place of a block of `n` times `k` things comes before its end. -/
theorem place_lt {i j n k : Nat} (hi : i < n) (hj : j < k) : i * k + j < n * k :=
  calc i * k + j < i * k + k := Nat.add_lt_add_left hj _
    _ = (i + 1) * k := (Nat.succ_mul i k).symm
    _ ≤ n * k := Nat.mul_le_mul_right k hi

/-- A place among blocks of `k` things tells its block and the place inside the block. -/
theorem div_mod_place {i j k : Nat} (hj : j < k) : (i * k + j) / k = i ∧ (i * k + j) % k = j := by
  rw [Nat.mul_comm, Nat.mul_add_div (Nat.zero_lt_of_lt hj), Nat.mul_add_mod, Nat.div_eq_of_lt hj,
    Nat.mod_eq_of_lt hj]
  exact ⟨rfl, rfl⟩

variable {m : Matrix} {row col channel : Nat}

namespace Inside

theorem pixel_lt (h : m.Inside row col channel) : row * m.cols + col < m.rows * m.cols :=
  place_lt h.1 h.2.1

theorem offset_lt (h : m.Inside row col channel) :
    m.offset row col channel < m.rows * m.cols * m.channels :=
  place_lt h.pixel_lt h.2.2

end Inside

/-- The coordinate that lies at a place among the samples. -/
theorem placeOf_offset (row : Nat) (hcol : col < m.cols) (hchannel : channel < m.channels) :
    placeOf m.cols m.channels (m.offset row col channel) = ⟨row, col, channel⟩ := by
  obtain ⟨hpixel, hlast⟩ := div_mod_place (i := row * m.cols + col) hchannel
  obtain ⟨hrow, hcol⟩ := div_mod_place (i := row) hcol
  rw [placeOf, offset, hpixel, hlast, hrow, hcol]

/-- Places among the samples of a shape are coordinates inside it. -/
theorem placeOf_lt {rows cols channels k : Nat} (h : k < rows * cols * channels) :
    (placeOf cols channels k).row < rows ∧ (placeOf cols channels k).col < cols ∧
      (placeOf cols channels k).channel < channels := by
  have hpixel : k / channels < rows * cols := Nat.div_lt_of_lt_mul (by rwa [Nat.mul_comm channels])
  have hchannels : 0 < channels := Nat.pos_of_mul_pos_left (Nat.zero_lt_of_lt h)
  have hcols : 0 < cols := Nat.pos_of_mul_pos_left (Nat.zero_lt_of_lt hpixel)
  exact ⟨Nat.div_lt_of_lt_mul (by rwa [Nat.mul_comm cols]), Nat.mod_lt _ hcols, Nat.mod_lt _ hchannels⟩

/-! ## Addressing -/

/-- `n + m` as long as it fits into 64 bits. -/
def sum? (n m : Nat) : Option Nat :=
  if n + m < UInt64.size then some (n + m) else none

/-- Where the sample of a coordinate lies, as long as every step on the way fits into 64 bits. -/
def offset? (m : Matrix) (row col channel : Nat) : Option Nat := do
  let start ← product? row m.cols
  let pixel ← sum? start col
  let first ← product? pixel m.channels
  sum? first channel

/-- A matrix that has as many samples as its sizes say, and not too many. -/
structure Shaped (m : Matrix) : Prop where
  size_eq : m.data.bytes.size = m.rows * m.cols * m.channels
  size_le : m.data.bytes.size ≤ 2 ^ 28

namespace Shaped

theorem of_sampleCount {rows cols channels storage : Nat} {samples : Array UInt8}
    (h : sampleCount rows cols channels = .ok samples.size) :
    Shaped ⟨rows, cols, channels, ⟨storage, samples⟩⟩ :=
  have ⟨_, heq, hle⟩ := sampleCount_eq_ok_iff.1 h
  ⟨heq, hle⟩

theorem of_ofSamples {storage rows cols channels : Nat} {samples : Array UInt8}
    (h : ofSamples storage rows cols channels samples = .ok m) : m.Shaped := by
  obtain ⟨hcount, rfl⟩ := ofSamples_eq_ok_iff.1 h
  exact .of_sampleCount hcount

variable (hm : m.Shaped)
include hm

theorem offset_lt_size (h : m.Inside row col channel) :
    m.offset row col channel < m.data.bytes.size :=
  hm.size_eq ▸ h.offset_lt

/-- Inside the sizes every step on the way to a sample fits into 64 bits. -/
theorem offset?_eq (h : m.Inside row col channel) :
    m.offset? row col channel = some (m.offset row col channel) := by
  have hsize : UInt64.size = 2 ^ 64 := rfl
  have hle := hm.size_le
  have hlt := hm.offset_lt_size h
  -- one channel at least: the number of pixels is at most that of samples
  have hpixels : row * m.cols + col ≤ (row * m.cols + col) * m.channels :=
    Nat.le_mul_of_pos_right _ (Nat.zero_lt_of_lt h.2.2)
  rw [offset] at hlt
  have hstart : product? row m.cols = some (row * m.cols) := if_pos (by omega)
  have hpixel : sum? (row * m.cols) col = some (row * m.cols + col) := if_pos (by omega)
  have hfirst : product? (row * m.cols + col) m.channels =
      some ((row * m.cols + col) * m.channels) := if_pos (by omega)
  simp only [offset?, Option.bind_eq_bind, hstart, hpixel, hfirst, Option.bind_some]
  exact if_pos (by omega)

theorem at?_eq (h : m.Inside row col channel) :
    ∃ hlt : m.offset row col channel < m.data.bytes.size,
      m.at? row col channel = some m.data.bytes[m.offset row col channel] :=
  ⟨hm.offset_lt_size h, (if_pos h).trans (Array.getElem?_eq_getElem (hm.offset_lt_size h))⟩

theorem isSome_at?_iff : (m.at? row col channel).isSome ↔ m.Inside row col channel := by
  constructor
  · intro h
    by_contra hout
    have hnone : m.at? row col channel = none := if_neg hout
    rw [hnone] at h
    cases h
  · intro h
    obtain ⟨hlt, hat⟩ := hm.at?_eq h
    exact hat ▸ rfl

end Shaped

/-! ## Samples by their places -/

/-- The matrix whose samples are given by their places. -/
def ofPlaces (storage rows cols channels : Nat) (f : Place → UInt8) : Matrix :=
  ⟨rows, cols, channels, ⟨storage,
    Array.ofFn fun k : Fin (rows * cols * channels) => f (placeOf cols channels k)⟩⟩

variable {storage rows cols channels : Nat} {f : Place → UInt8}

/-- There are as many places as the shape has samples. -/
theorem ofSamples_ofPlaces (storage : Nat) {n : Nat} (hn : sampleCount rows cols channels = .ok n) :
    ofSamples storage rows cols channels
      (Array.ofFn fun k : Fin (rows * cols * channels) => f (placeOf cols channels k)) =
        .ok (ofPlaces storage rows cols channels f) := by
  obtain ⟨-, rfl, -⟩ := sampleCount_eq_ok_iff.1 hn
  exact ofSamples_eq_ok_iff.2 ⟨by rwa [Array.size_ofFn], rfl⟩

/-- Each sample is the one given for its coordinate. -/
theorem at?_ofPlaces {s : UInt8}
    (h : (ofPlaces storage rows cols channels f).at? row col channel = some s) :
    channel < channels ∧ s = f ⟨row, col, channel⟩ := by
  rw [at?, Option.ite_none_right_eq_some] at h
  obtain ⟨⟨-, hcol, hchannel⟩, h⟩ := h
  obtain ⟨hlt, h⟩ := Array.getElem?_eq_some_iff.1 h
  have hplace := placeOf_offset (m := ofPlaces storage rows cols channels f) row hcol hchannel
  refine ⟨hchannel, h.symm.trans ?_⟩
  simp only [ofPlaces, Array.getElem_ofFn]
  exact congrArg f hplace

end Matrix

end Isthmus
