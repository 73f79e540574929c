import Isthmus.Proofs.Library.Matrix
import Isthmus.Proofs.Values.Number

/-!
# Proofs/Library/Resize — resizing never looks outside its source

`resizeIn?` resizes as `resize` does, but gives up at a read outside the source, where `resize` would
read zero, and leaves the scaling open.  `Made.resizes` says that it never gives up, whatever the scaling
is, so what `resize` gives is made of samples of the source alone.

Nothing is used of the scaled places but that they are clamped: `clampTo_lt` carries every bound.
-/

namespace Isthmus.Matrix

variable {m : Matrix} {scaleX scaleY : Float} {p : Place}

/-! ## Reading strictly -/

/-- The sample at a coordinate as a double; there is none outside the sizes. -/
def levelIn? (m : Matrix) (row col channel : Nat) : Option Float :=
  (m.at? row col channel).map fun s => Number.ofInt s.toNat

/-- The sample under a place, read strictly. -/
def nearestIn? (m : Matrix) (scaleX scaleY : Float) (p : Place) : Option Float :=
  m.levelIn? (clampTo m.rows (Float.ofNat p.row * scaleY))
    (clampTo m.cols (Float.ofNat p.col * scaleX)) p.channel

/-- The weighted mean of the four samples around a place, read strictly. -/
def linearIn? (m : Matrix) (scaleX scaleY : Float) (p : Place) : Option Float := do
  let y := centre p.row scaleY
  let x := centre p.col scaleX
  let row := clampTo m.rows y
  let col := clampTo m.cols x
  let row' := min (row + 1) (m.rows - 1)
  let col' := min (col + 1) (m.cols - 1)
  let fy := y - Float.ofNat row
  let fx := x - Float.ofNat col
  let topLeft ← m.levelIn? row col p.channel
  let topRight ← m.levelIn? row col' p.channel
  let bottomLeft ← m.levelIn? row' col p.channel
  let bottomRight ← m.levelIn? row' col' p.channel
  let top := topLeft * (1.0 - fx) + topRight * fx
  let bottom := bottomLeft * (1.0 - fx) + bottomRight * fx
  return top * (1.0 - fy) + bottom * fy

/-- The sample of the result at a place, for any scaling. -/
def sampleBy (m : Matrix) (interpolation : Interpolation) (scaleX scaleY : Float) (p : Place) : UInt8 :=
  match interpolation with
  | .nearest => Number.toSample (m.nearestAt scaleX scaleY p)
  | .linear => Number.toSample (m.linearAt scaleX scaleY p)

/-- The sample of the result at a place, for any scaling, read strictly. -/
def sampleIn? (m : Matrix) (interpolation : Interpolation) (scaleX scaleY : Float) (p : Place) :
    Option UInt8 :=
  match interpolation with
  | .nearest => (m.nearestIn? scaleX scaleY p).map Number.toSample
  | .linear => (m.linearIn? scaleX scaleY p).map Number.toSample

/-- The source resampled by what may have no sample for a place; nothing if that is met. -/
def resample? (m : Matrix) (storage width height : Nat) (sample : Place → Option UInt8) :
    Option (Except String Matrix) :=
  if m.rows = 0 ∨ m.cols = 0 then some (.error "cannot resize an empty matrix")
  else
    match sampleCount height width m.channels with
    | .error e => some (.error e.message)
    | .ok count => do
      let samples ← (List.range count).mapM fun k => sample (placeOf width m.channels k)
      match ofSamples storage height width m.channels samples.toArray with
      | .ok result => some (.ok result)
      | .error e => some (.error e.message)

/-- The source resized with the given scaling, read strictly. -/
def resizeIn? (m : Matrix) (scaleX scaleY : Float) (storage width height : Nat)
    (interpolation : Interpolation) : Option (Except String Matrix) :=
  m.resample? storage width height (m.sampleIn? interpolation scaleX scaleY)

/-! ## Reads are inside -/

/-- What is cut off at the last index is an index. -/
theorem min_last_lt {length : Nat} (h : 0 < length) (i : Nat) : min i (length - 1) < length :=
  Nat.lt_of_le_of_lt (Nat.min_le_right _ _) (Nat.sub_lt h Nat.one_pos)

theorem clampTo_lt {length : Nat} (h : 0 < length) (x : Float) : clampTo length x < length :=
  min_last_lt h _

/-- What a strict read inside the source gives is what is read there. -/
theorem Shaped.levelIn?_eq (hm : m.Shaped) {row col channel : Nat} (h : m.Inside row col channel) :
    m.levelIn? row col channel = some (m.level row col channel) := by
  obtain ⟨hlt, hat⟩ := hm.at?_eq h
  rw [levelIn?, level, hat]
  rfl

section

variable (hm : m.Shaped) (hr : 0 < m.rows) (hc : 0 < m.cols) (hp : p.channel < m.channels)
include hm hr hc hp

theorem nearestIn?_eq (scaleX scaleY : Float) :
    m.nearestIn? scaleX scaleY p = some (m.nearestAt scaleX scaleY p) :=
  hm.levelIn?_eq ⟨clampTo_lt hr _, clampTo_lt hc _, hp⟩

theorem linearIn?_eq (scaleX scaleY : Float) :
    m.linearIn? scaleX scaleY p = some (m.linearAt scaleX scaleY p) := by
  have hrow := clampTo_lt hr (centre p.row scaleY)
  have hcol := clampTo_lt hc (centre p.col scaleX)
  simp only [linearIn?, hm.levelIn?_eq ⟨hrow, hcol, hp⟩, hm.levelIn?_eq ⟨hrow, min_last_lt hc _, hp⟩,
    hm.levelIn?_eq ⟨min_last_lt hr _, hcol, hp⟩, hm.levelIn?_eq ⟨min_last_lt hr _, min_last_lt hc _, hp⟩]
  rfl

/-- **Every read is inside the source**, whatever the scaling. -/
theorem sampleIn?_eq (interpolation : Interpolation) (scaleX scaleY : Float) :
    m.sampleIn? interpolation scaleX scaleY p = some (m.sampleBy interpolation scaleX scaleY p) := by
  cases interpolation with
  | nearest => rw [sampleIn?, nearestIn?_eq hm hr hc hp]; rfl
  | linear => rw [sampleIn?, linearIn?_eq hm hr hc hp]; rfl

/-- The nearest sample is one of the source, of the same channel. -/
theorem exists_nearest (scaleX scaleY : Float) : ∃ row col,
    m.at? row col p.channel = some (m.sampleBy .nearest scaleX scaleY p) := by
  have hin : m.Inside (clampTo m.rows (Float.ofNat p.row * scaleY))
    (clampTo m.cols (Float.ofNat p.col * scaleX)) p.channel := ⟨clampTo_lt hr _, clampTo_lt hc _, hp⟩
  obtain ⟨hlt, hat⟩ := hm.at?_eq hin
  refine ⟨_, _, hat.trans ?_⟩
  rw [sampleBy, nearestAt, level, hat, Option.getD_some, Number.toSample_ofInt]

end

/-! ## Resampling -/

theorem mapM_eq_some {α β : Type} {f : α → Option β} {g : α → β} {l : List α}
    (h : ∀ a ∈ l, f a = some (g a)) : l.mapM f = some (l.map g) := by
  induction l with
  | nil => rfl
  | cons a l ih =>
    obtain ⟨ha, hl⟩ := List.forall_mem_cons.1 h
    rw [List.mapM_cons, ha, ih hl]
    rfl

theorem toArray_range (n : Nat) {α : Type} (f : Nat → α) :
    ((List.range n).map f).toArray = Array.ofFn fun k : Fin n => f k := by
  apply Array.ext <;> simp

/-- Resampling a source that has pixels to a size within the limit, where every place has a sample. -/
theorem resample?_eq {storage width height count : Nat} {sample : Place → Option UInt8}
    {f : Place → UInt8} (hr : 0 < m.rows) (hc : 0 < m.cols)
    (hcount : sampleCount height width m.channels = .ok count)
    (hs : ∀ p, p.channel < m.channels → sample p = some (f p)) :
    m.resample? storage width height sample =
      some (.ok (ofPlaces storage height width m.channels f)) := by
  obtain ⟨-, rfl, -⟩ := sampleCount_eq_ok_iff.1 hcount
  have hsamples : (List.range (height * width * m.channels)).mapM
      (fun k => sample (placeOf width m.channels k)) =
        some ((List.range (height * width * m.channels)).map fun k => f (placeOf width m.channels k)) :=
    mapM_eq_some fun k hk => hs _ (placeOf_lt (List.mem_range.1 hk)).2.2
  have hmatrix := ofSamples_ofPlaces (f := f) storage hcount
  rw [resample?, if_neg (by omega), hcount]
  simp only [hsamples, Option.bind_eq_bind, Option.bind_some, toArray_range]
  rw [hmatrix]

/-- What an empty source gives, or a size beyond the limit: a refusal, whatever samples there are. -/
structure Refuses (m : Matrix) (storage width height : Nat) (text : String) : Prop where
  resize_eq : ∀ interpolation, m.resize storage width height interpolation = .error text
  resample?_eq : ∀ sample, m.resample? storage width height sample = some (.error text)

theorem refuses_empty (h : m.rows = 0 ∨ m.cols = 0) (storage width height : Nat) :
    m.Refuses storage width height "cannot resize an empty matrix" :=
  ⟨fun _ => if_pos h, fun _ => if_pos h⟩

theorem refuses_oversized (h : ¬ (m.rows = 0 ∨ m.cols = 0)) {storage width height : Nat}
    {e : NativeError} (he : sampleCount height width m.channels = .error e) :
    m.Refuses storage width height e.message where
  resize_eq _ := by rw [resize, if_neg h, he]
  resample?_eq _ := by rw [resample?, if_neg h, he]

/-! ## The law -/

/-- What a matrix resized from another has of it. -/
structure ResizedFrom (m : Matrix) (width height : Nat) (interpolation : Interpolation) (r : Matrix) :
    Prop where
  rows_eq : r.rows = height
  cols_eq : r.cols = width
  channels_eq : r.channels = m.channels
  /-- A sample of the result is one of the source, unless samples are mixed. -/
  nearest : interpolation = .nearest → ∀ row col channel s, r.at? row col channel = some s →
    ∃ row' col', m.at? row' col' channel = some s

theorem resizedFrom_ofPlaces (hm : m.Shaped) (hr : 0 < m.rows) (hc : 0 < m.cols)
    (storage width height : Nat) (interpolation : Interpolation) (scaleX scaleY : Float) :
    m.ResizedFrom width height interpolation (ofPlaces storage height width m.channels
      (m.sampleBy interpolation scaleX scaleY)) where
  rows_eq := rfl
  cols_eq := rfl
  channels_eq := rfl
  nearest := by
    rintro rfl row col channel s hs
    obtain ⟨hchannel, rfl⟩ := at?_ofPlaces hs
    exact exists_nearest (p := ⟨row, col, channel⟩) hm hr hc hchannel scaleX scaleY

/-- **Resizing is total and stays inside its source.**  A source that has pixels is resized to every size
within the limit and with every interpolation: the result has that size and the channels of the source,
no read is outside the source, whatever the scaling is, and without mixing each sample is one of the source
and of its channel.  A source without pixels is refused, and so is a size beyond the limit, whatever the
samples are: none is computed. -/
theorem Made.resizes {m : Matrix} (h : m.Made) (storage width height : Nat) (code : Int) :
    (0 < m.rows → 0 < m.cols → ∀ count, sampleCount height width m.channels = .ok count →
      (∃ r, m.resize storage width height (.ofCode code) = .ok r ∧
        m.resizeIn? (Float.ofNat m.cols / Float.ofNat width) (Float.ofNat m.rows / Float.ofNat height)
          storage width height (.ofCode code) = some (.ok r) ∧
        m.ResizedFrom width height (.ofCode code) r) ∧
      ∀ scaleX scaleY, ∃ r,
        m.resizeIn? scaleX scaleY storage width height (.ofCode code) = some (.ok r) ∧
        m.ResizedFrom width height (.ofCode code) r) ∧
    (m.rows = 0 ∨ m.cols = 0 → m.Refuses storage width height "cannot resize an empty matrix") ∧
    (0 < m.rows → 0 < m.cols → ∀ e, sampleCount height width m.channels = .error e →
      m.Refuses storage width height e.message) := by
  have hm := h.shaped
  refine ⟨fun hr hc count hcount => ?_, (refuses_empty · _ _ _), fun hr hc e he => ?_⟩
  · have hstrict (scaleX scaleY : Float) :
        m.resizeIn? scaleX scaleY storage width height (.ofCode code) =
          some (.ok (ofPlaces storage height width m.channels
            (m.sampleBy (.ofCode code) scaleX scaleY))) :=
      resample?_eq hr hc hcount fun p hp => sampleIn?_eq hm hr hc hp _ _ _
    have hresized := resizedFrom_ofPlaces hm hr hc storage width height (.ofCode code)
    refine ⟨⟨_, ?_, hstrict _ _, hresized _ _⟩, fun _ _ => ⟨_, hstrict _ _, hresized _ _⟩⟩
    exact resize_eq_ok_iff.2 ⟨⟨hr, hc⟩, ⟨count, hcount⟩, rfl⟩
  · exact refuses_oversized (by omega) he

/-- Two pixels widened to four: each sample is one of the two.  They are not widened beyond the limit. -/
theorem resizes_pair : ∃ m, ofSamples 0 1 2 1 #[10, 20] = .ok m ∧ 0 < m.rows ∧ 0 < m.cols ∧
    (sampleCount 1 4 m.channels = .ok 4 ∧
      ∃ r, m.resize 0 4 1 (.ofCode 0) = .ok r ∧ m.ResizedFrom 4 1 .nearest r) ∧
    ∃ e, sampleCount 1 268435457 m.channels = .error e ∧
      m.resize 0 268435457 1 (.ofCode 1) = .error e.message := by
  have hpair : ofSamples 0 1 2 1 #[10, 20] = .ok ⟨1, 2, 1, ⟨0, #[10, 20]⟩⟩ := rfl
  have hmade := Made.ofSamples hpair
  obtain ⟨⟨r, hr, -, hresized⟩, -⟩ := (hmade.resizes 0 4 1 0).1 (by decide) (by decide) 4 rfl
  have hrefused := (hmade.resizes 0 268435457 1 1).2.2 (by decide) (by decide) _ rfl
  exact ⟨_, hpair, by decide, by decide, ⟨rfl, r, hr, hresized⟩, _, rfl, hrefused.resize_eq _⟩

end Isthmus.Matrix
