import Isthmus.Proofs.Library.Netpbm

/-!
# Proofs/Library/Matrix — what every matrix there is has in common

Matrices come from five functions (`Made`).  Each checks the number of samples before it makes any, so
every matrix is `Shaped`, and `Made.addresses` says what that gives: a sample at exactly the coordinates
inside the sizes, found without leaving 64 bits, and no sample for two coordinates.
-/

namespace Isthmus.Matrix

/-- **The matrices there are**: the empty one, and what filling, wrapping samples, decoding an image and
resizing give, whatever they are given. -/
inductive Made : Matrix → Prop where
  | empty (storage : Nat) : Made (empty storage)
  | filled {storage rows cols format fill m}
      (h : Matrix.filled storage rows cols format fill = .ok m) : Made m
  | ofSamples {storage rows cols channels samples m}
      (h : Matrix.ofSamples storage rows cols channels samples = .ok m) : Made m
  | decoded {storage bytes m} (h : Netpbm.decode storage bytes = .ok m) : Made m
  | resized {source : Matrix} {storage width height interpolation m}
      (h : source.resize storage width height interpolation = .ok m) : Made m

/-- **When resizing succeeds**: there are pixels, and the new shape has a number of samples.  Each sample
is computed from its place alone. -/
theorem resize_eq_ok_iff {m r : Matrix} {storage width height : Nat} {interpolation : Interpolation} :
    m.resize storage width height interpolation = .ok r ↔ (0 < m.rows ∧ 0 < m.cols) ∧
      (∃ n, sampleCount height width m.channels = .ok n) ∧
      r = ofPlaces storage height width m.channels (m.sampleFor width height interpolation) := by
  rw [resize]
  split
  · exact iff_of_false nofun fun h => by omega
  rw [and_iff_right (by omega)]
  cases hcount : sampleCount height width m.channels with
  | error e => exact iff_of_false nofun fun h => nomatch h.1
  | ok n =>
    obtain ⟨-, rfl, -⟩ := sampleCount_eq_ok_iff.1 hcount
    dsimp only
    rw [ofSamples_ofPlaces storage hcount, and_iff_right ⟨_, rfl⟩, Except.ok.injEq, eq_comm]

namespace Shaped

variable {m : Matrix}

theorem of_filled {storage : Nat} {rows cols format : Int} {fill : UInt8}
    (h : Matrix.filled storage rows cols format fill = .ok m) : m.Shaped := by
  obtain ⟨-, -, n, hn, rfl⟩ := filled_eq_ok_iff.1 h
  exact .of_sampleCount (by rwa [Array.size_replicate])

theorem of_decode {storage : Nat} {bytes : List UInt8} (h : Netpbm.decode storage bytes = .ok m) :
    m.Shaped := by
  obtain ⟨width, height, channels, maximum, rest, data, -, -, hdata, hle, rfl⟩ :=
    Netpbm.decode_eq_ok_iff_header.1 h
  obtain ⟨-, -, -, hlength⟩ := Netpbm.samples_eq_ok_iff.1 hdata
  exact ⟨hlength, hlength.trans_le hle⟩

theorem of_resize {source : Matrix} {storage width height : Nat} {interpolation : Interpolation}
    (h : source.resize storage width height interpolation = .ok m) : m.Shaped := by
  obtain ⟨-, ⟨n, hn⟩, rfl⟩ := resize_eq_ok_iff.1 h
  exact .of_ofSamples (ofSamples_ofPlaces storage hn)

end Shaped

theorem Made.shaped {m : Matrix} (h : m.Made) : m.Shaped := by
  cases h with
  | empty => exact ⟨rfl, Nat.zero_le _⟩
  | filled h => exact .of_filled h
  | ofSamples h => exact .of_ofSamples h
  | decoded h => exact .of_decode h
  | resized h => exact .of_resize h

/-- **Coordinates address samples.**  A matrix has as many samples as the product of its sizes, at most
`2 ^ 28`.  There is a sample at a coordinate exactly if that is inside the sizes; then every step on the
way to its place fits into 64 bits, the place is one among the samples, and no other coordinate inside the
sizes has it. -/
theorem Made.addresses {m : Matrix} (h : m.Made) :
    (m.data.bytes.size = m.rows * m.cols * m.channels ∧ m.data.bytes.size ≤ 2 ^ 28) ∧
    (∀ row col channel, (m.at? row col channel).isSome ↔ m.Inside row col channel) ∧
    (∀ row col channel, m.Inside row col channel →
      m.offset? row col channel = some (m.offset row col channel) ∧
      ∃ hlt : m.offset row col channel < m.data.bytes.size,
        m.at? row col channel = some m.data.bytes[m.offset row col channel]) ∧
    ∀ row col channel row' col' channel', m.Inside row col channel → m.Inside row' col' channel' →
      m.offset row col channel = m.offset row' col' channel' →
      row = row' ∧ col = col' ∧ channel = channel' := by
  have hm := h.shaped
  refine ⟨⟨hm.size_eq, hm.size_le⟩, fun _ _ _ => hm.isSome_at?_iff, fun row col channel hin => ?_, ?_⟩
  · exact ⟨hm.offset?_eq hin, hm.at?_eq hin⟩
  · intro row col channel row' col' channel' hin hin' heq
    -- the place tells the coordinate
    have hplace := placeOf_offset row hin.2.1 hin.2.2
    rw [heq, placeOf_offset row' hin'.2.1 hin'.2.2] at hplace
    cases hplace
    exact ⟨rfl, rfl, rfl⟩

/-- Two pixels of one channel in a row: each has a sample, and not the same one. -/
theorem addresses_of_pair : ∃ m, ofSamples 0 1 2 1 #[10, 20] = .ok m ∧
    m.Inside 0 0 0 ∧ m.Inside 0 1 0 ∧ (m.at? 0 0 0).isSome ∧ (m.at? 0 1 0).isSome ∧
    m.offset 0 0 0 ≠ m.offset 0 1 0 := by
  have hpair : ofSamples 0 1 2 1 #[10, 20] = .ok ⟨1, 2, 1, ⟨0, #[10, 20]⟩⟩ := rfl
  obtain ⟨-, hsome, -, hinjective⟩ := (Made.ofSamples hpair).addresses
  have hfirst : Matrix.Inside ⟨1, 2, 1, ⟨0, #[10, 20]⟩⟩ 0 0 0 := by decide
  have hsecond : Matrix.Inside ⟨1, 2, 1, ⟨0, #[10, 20]⟩⟩ 0 1 0 := by decide
  refine ⟨_, hpair, hfirst, hsecond, (hsome _ _ _).2 hfirst, (hsome _ _ _).2 hsecond, fun heq => ?_⟩
  cases (hinjective _ _ _ _ _ _ hfirst hsecond heq).2.1

end Isthmus.Matrix
