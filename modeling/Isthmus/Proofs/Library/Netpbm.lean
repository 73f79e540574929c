import Isthmus.Library.Imaging
import Isthmus.Proofs.Library.Shape
import Isthmus.Proofs.Text.Numeral
import Mathlib.Data.List.Basic
import Mathlib.Data.List.TakeWhile

/-!
# Proofs/Library/Netpbm — which bytes are an image

The format is a grammar (`IsImage`): four fields with filler before each, a single blank, the samples.
`decode_grammar` says that decoding accepts exactly this grammar and gives the image it describes.

A field is as long as possible, so what follows it begins with a blank or is nothing (`Stops`), and
filler ends where a field begins; both make the way in which bytes split unique.
-/

namespace Isthmus.Netpbm

/-! ## The grammar -/

/-- What may stand between fields: blanks, and comments, which end with their line. -/
inductive Filler : List UInt8 → Prop where
  | nil : Filler []
  | blank {b rest} (hb : isBlank b) (h : Filler rest) : Filler (b :: rest)
  | comment {text rest} (ht : 0x0A ∉ text) (h : Filler rest) : Filler (0x23 :: (text ++ 0x0A :: rest))

/-- What parts two fields: filler that begins with a blank. -/
inductive Gap : List UInt8 → Prop where
  | mk {b rest} (hb : isBlank b) (h : Filler rest) : Gap (b :: rest)

/-- The first field, `P5` or `P6`, and the channels of the images that it stands for. -/
inductive Magic : List UInt8 → Nat → Prop where
  | gray : Magic [0x50, 0x35] 1
  | rgb : Magic [0x50, 0x36] 3

/-- **The grammar of images**: bytes that describe an image of the given width, height, channels and
samples. -/
inductive IsImage : List UInt8 → Nat → Nat → Nat → List UInt8 → Prop where
  | mk {g₀ magic g₁ w g₂ h g₃ x s samples rest width height channels maximum}
      (h₀ : Filler g₀) (hm : Magic magic channels)
      (h₁ : Gap g₁) (hw : Text.Numeral w width) (hw' : width < 2 ^ 64)
      (h₂ : Gap g₂) (hh : Text.Numeral h height) (hh' : height < 2 ^ 64)
      (h₃ : Gap g₃) (hx : Text.Numeral x maximum) (hx' : 1 ≤ maximum ∧ maximum ≤ 255)
      (hs : isBlank s) (hn : samples.length = width * height * channels)
      (hn' : width * height * channels ≤ 2 ^ 28) :
      IsImage (g₀ ++ (magic ++ (g₁ ++ (w ++ (g₂ ++ (h ++ (g₃ ++ (x ++ s :: (samples ++ rest)))))))))
        width height channels samples

/-! ## Filler -/

/-- No filler continues with these bytes. -/
def Begins (bytes : List UInt8) : Prop :=
  ∀ b ∈ bytes.head?, ¬ isBlank b ∧ b ≠ 0x23

theorem skipBlanks_comment {text rest : List UInt8} (ht : 0x0A ∉ text) :
    skipBlanks true (text ++ 0x0A :: rest) = skipBlanks false rest := by
  induction text with
  | nil => rfl
  | cons b text ih =>
    obtain ⟨hb, ht⟩ := not_or.1 (mt List.mem_cons.2 ht)
    rw [List.cons_append, skipBlanks, if_pos rfl, decide_eq_true (Ne.symm hb)]
    exact ih ht

theorem skipBlanks_filler {g rest : List UInt8} (hg : Filler g) (hr : Begins rest) :
    skipBlanks false (g ++ rest) = rest := by
  induction hg with
  | nil =>
    cases rest with
    | nil => rfl
    | cons b rest =>
      obtain ⟨hb, hc⟩ := hr b rfl
      rw [List.nil_append, skipBlanks, if_neg Bool.false_ne_true, if_neg hc, if_neg hb]
  | @blank b rest' hb h ih =>
    have hc : b ≠ 0x23 := fun hc => absurd hb (hc ▸ by decide)
    rw [List.cons_append, skipBlanks, if_neg Bool.false_ne_true, if_neg hc, if_pos hb, ih]
  | @comment text rest' ht h ih =>
    rw [List.cons_append, List.append_assoc, skipBlanks, if_neg Bool.false_ne_true, if_pos rfl,
      List.cons_append, skipBlanks_comment ht, ih]

/-- Filler as skipping meets it: an open comment first comes to the end of its line. -/
def FillerIn (inComment : Bool) (g : List UInt8) : Prop :=
  if inComment then ∃ text more, 0x0A ∉ text ∧ Filler more ∧ g = text ++ 0x0A :: more else Filler g

/-- **Skipping takes exactly filler away**, unless nothing follows it. -/
theorem filler_of_skipBlanks {inComment : Bool} {bytes rest : List UInt8}
    (h : skipBlanks inComment bytes = rest) (hne : rest ≠ []) :
    Begins rest ∧ ∃ g, FillerIn inComment g ∧ bytes = g ++ rest := by
  induction bytes generalizing inComment with
  | nil => exact absurd h.symm hne
  | cons b bytes ih =>
    rw [skipBlanks] at h
    split at h
    · next hin =>
      subst hin
      obtain ⟨hr, g, hg, rfl⟩ := ih h
      refine ⟨hr, b :: g, ?_, rfl⟩
      by_cases hb : b = 0x0A
      · subst hb
        exact ⟨[], g, List.not_mem_nil, hg, rfl⟩
      · rw [decide_eq_true hb] at hg
        obtain ⟨text, more, ht, hm, rfl⟩ := hg
        exact ⟨b :: text, more, mt List.mem_cons.1 (not_or.2 ⟨Ne.symm hb, ht⟩), hm, rfl⟩
    · next hin =>
      rw [Bool.not_eq_true] at hin
      subst hin
      split at h
      · next hb =>
        subst hb
        obtain ⟨hr, g, ⟨text, more, ht, hm, rfl⟩, rfl⟩ := ih h
        exact ⟨hr, _, .comment ht hm, rfl⟩
      · next hc =>
        split at h
        · next hb =>
          obtain ⟨hr, g, hg, rfl⟩ := ih h
          exact ⟨hr, b :: g, .blank hb hg, rfl⟩
        · next hb =>
          subst h
          refine ⟨fun b' hb' => ?_, [], .nil, rfl⟩
          cases hb'
          exact ⟨hb, hc⟩

/-! ## Fields -/

/-- A field: it has no blanks, and does not begin like a comment. -/
structure IsField (f : List UInt8) : Prop where
  ne_nil : f ≠ []
  solid : ∀ b ∈ f, ¬ isBlank b
  begins : f.head? ≠ some 0x23

/-- What follows a field begins with a blank, or is nothing. -/
def Stops (rest : List UInt8) : Prop :=
  ∀ b ∈ rest.head?, isBlank b

theorem IsField.begins_append {f : List UInt8} (hf : IsField f) (rest : List UInt8) :
    Begins (f ++ rest) := by
  intro b hb
  rw [Option.mem_def, List.head?_append_of_ne_nil f hf.ne_nil] at hb
  exact ⟨hf.solid b (List.mem_of_head? hb), fun hc => hf.begins (hc ▸ hb)⟩

theorem field_eq_ok_iff {bytes f rest : List UInt8} :
    field bytes = .ok (f, rest) ↔
      ∃ g, Filler g ∧ IsField f ∧ Stops rest ∧ bytes = g ++ (f ++ rest) := by
  constructor
  · intro h
    rw [field] at h
    split at h
    · cases h
    · next hne =>
      cases h
      have hne : skipBlanks false bytes ≠ [] := hne
      obtain ⟨hb, g, hg, heq⟩ := filler_of_skipBlanks rfl hne
      refine ⟨g, hg, ⟨fun hn => ?_, fun b hb => ?_, fun hh => ?_⟩, fun b hb => ?_, ?_⟩
      · obtain ⟨b, more, hm⟩ := List.exists_cons_of_ne_nil hne
        rw [hm, List.takeWhile_cons] at hn
        simp only [(hb b (hm ▸ rfl)).1, Bool.not_false, reduceIte, reduceCtorEq] at hn
      · simpa using List.mem_takeWhile_imp hb
      · obtain ⟨more, hm⟩ := List.head?_eq_some_iff.1 hh
        refine (hb 0x23 ?_).2 rfl
        rw [← List.takeWhile_append_dropWhile (p := (!isBlank ·)) (l := skipBlanks false bytes), hm]
        rfl
      · have := List.head?_dropWhile_not (!isBlank ·) (skipBlanks false bytes)
        rw [hb] at this
        simpa using this
      · rw [List.takeWhile_append_dropWhile]
        exact heq
  · rintro ⟨g, hg, hf, hr, rfl⟩
    have htake : (f ++ rest).takeWhile (!isBlank ·) = f := by
      rw [List.takeWhile_append_of_pos fun b hb => by simpa using hf.solid b hb]
      cases rest with
      | nil => simp
      | cons b rest => simp [hr b rfl]
    have hdrop : (f ++ rest).dropWhile (!isBlank ·) = rest := by
      rw [List.dropWhile_append_of_pos fun b hb => by simpa using hf.solid b hb]
      cases rest with
      | nil => rfl
      | cons b rest => simp [hr b rfl]
    rw [field, skipBlanks_filler hg (hf.begins_append rest)]
    split
    · next h => exact absurd (List.append_eq_nil_iff.1 h).1 hf.ne_nil
    · rw [htake, hdrop]

theorem IsField.of_numeral {f : List UInt8} {n : Nat} (h : Text.Numeral f n) : IsField f := by
  have hdigit {b : UInt8} (hb : Text.IsDigit b) : ¬ isBlank b ∧ b ≠ 0x23 := by
    refine ⟨fun hblank => ?_, fun hc => absurd (hc ▸ hb).1 (by decide)⟩
    simp only [isBlank, Bool.or_eq_true, decide_eq_true_eq] at hblank
    obtain ⟨h0, -⟩ := hb
    obtain (((rfl | rfl) | rfl) | rfl) | rfl := hblank <;> exact absurd h0 (by decide)
  cases h with
  | plain hne hd =>
    exact ⟨hne, fun b hb => (hdigit (hd b hb)).1,
      fun hh => (hdigit (hd _ (List.mem_of_head? hh))).2 rfl⟩
  | signed hne hd =>
    exact ⟨List.cons_ne_nil _ _, List.forall_mem_cons.2 ⟨by decide, fun b hb => (hdigit (hd b hb)).1⟩,
      by simp⟩

theorem numberField_eq_ok_iff {bytes rest : List UInt8} {n : Nat} :
    numberField bytes = .ok (n, rest) ↔ ∃ g f, Filler g ∧ Text.Numeral f n ∧ n < 2 ^ 64 ∧
      Stops rest ∧ bytes = g ++ (f ++ rest) := by
  rw [numberField, bind_eq_ok_iff]
  constructor
  · rintro ⟨⟨f, more⟩, hfield, h⟩
    obtain ⟨g, hg, -, hr, rfl⟩ := field_eq_ok_iff.1 hfield
    dsimp only at h
    split at h
    · next m hm =>
      cases h
      obtain ⟨hn, hlt⟩ := Text.numeral?_decode.1 hm
      exact ⟨g, f, hg, hn, hlt, hr, rfl⟩
    · cases h
  · rintro ⟨g, f, hg, hn, hlt, hr, rfl⟩
    refine ⟨(f, rest), field_eq_ok_iff.2 ⟨g, hg, .of_numeral hn, hr, rfl⟩, ?_⟩
    dsimp only
    rw [Text.numeral?_decode.2 ⟨hn, hlt⟩]
    rfl

/-- Filler between a field and the next begins with a blank. -/
theorem Gap.of_stops {g f rest : List UInt8} (hs : Stops (g ++ (f ++ rest))) (hg : Filler g)
    (hf : IsField f) : Gap g := by
  cases hg with
  | nil =>
    have hhead := hf.begins_append rest
    obtain ⟨b, more, rfl⟩ := List.exists_cons_of_ne_nil hf.ne_nil
    exact absurd (hs b rfl) (hhead b rfl).1
  | blank hb h => exact ⟨hb, h⟩
  | comment ht h => exact absurd (hs 0x23 rfl) (by decide)

theorem Gap.filler {g : List UInt8} (hg : Gap g) : Filler g := by
  obtain ⟨hb, h⟩ := hg
  exact .blank hb h

theorem Gap.stops {g : List UInt8} (hg : Gap g) (rest : List UInt8) : Stops (g ++ rest) := by
  obtain ⟨hb, -⟩ := hg
  intro b hb'
  cases hb'
  exact hb

/-! ## Magic -/

theorem channelsOf_decode {f : List UInt8} {channels : Nat} :
    channelsOf (Text.decode f) = .ok channels ↔ Magic f channels := by
  have hgray : Text.decode f = "P5" ↔ f = [0x50, 0x35] := by
    rw [← Text.decode_eq_ofList_iff (by simp)]
    rfl
  have hrgb : Text.decode f = "P6" ↔ f = [0x50, 0x36] := by
    rw [← Text.decode_eq_ofList_iff (by simp)]
    rfl
  simp only [channelsOf, hgray, hrgb]
  constructor
  · intro h
    split at h
    · next hf =>
      subst hf
      cases h
      exact .gray
    · split at h
      · next hf =>
        subst hf
        cases h
        exact .rgb
      · cases h
  · intro h
    cases h <;> rfl

theorem IsField.of_magic {f : List UInt8} {channels : Nat} (h : Magic f channels) : IsField f := by
  cases h <;> exact ⟨List.cons_ne_nil _ _, by simp [isBlank], by simp⟩

theorem Magic.pos {f : List UInt8} {channels : Nat} (h : Magic f channels) : 0 < channels := by
  cases h <;> decide

/-! ## Samples -/

theorem samples_eq_ok_iff {count : Nat} {bytes data : List UInt8} :
    samples count bytes = .ok data ↔
      ∃ s rest, bytes = s :: (data ++ rest) ∧ data.length = count := by
  constructor
  · intro h
    cases bytes with
    | nil => cases h
    | cons s more =>
      rw [samples] at h
      split at h
      · next hle =>
        cases h
        exact ⟨s, more.drop count, by rw [List.take_append_drop], List.length_take_of_le hle⟩
      · cases h
  · rintro ⟨s, rest, rfl, rfl⟩
    rw [samples, if_pos (by simp), List.take_left]

/-- One channel at least: the product of all sizes bounds that of rows and columns. -/
theorem sampleCount_eq_ok_iff {rows cols channels n : Nat} (hc : 0 < channels) :
    Matrix.sampleCount rows cols channels = .ok n ↔ n = rows * cols * channels ∧ n ≤ 2 ^ 28 := by
  have hle : rows * cols ≤ rows * cols * channels := Nat.le_mul_of_pos_right _ hc
  have hsize : UInt64.size = 2 ^ 64 := rfl
  rw [Matrix.sampleCount_eq_ok_iff, and_iff_right_of_imp fun h => by omega]

theorem ofSamples_eq_ok_iff {storage rows cols channels n : Nat} {data : List UInt8} {m : Matrix}
    (hn : Matrix.sampleCount rows cols channels = .ok n) (hd : data.length = n) :
    Matrix.ofSamples storage rows cols channels data.toArray = .ok m ↔
      m = ⟨rows, cols, channels, ⟨storage, data.toArray⟩⟩ := by
  rw [Matrix.ofSamples_eq_ok_iff, and_iff_right (by rw [List.size_toArray, hd, hn])]

theorem shaped_eq_ok_iff {α : Type} {x : Except NativeError α} {a : α} :
    shaped x = .ok a ↔ x = .ok a := by
  cases x <;> simp [shaped]

/-! ## Images -/

/-- The header of an image: the fields before the samples, and what follows them. -/
inductive Header : List UInt8 → Nat → Nat → Nat → Nat → List UInt8 → Prop where
  | mk {g₀ magic g₁ w g₂ h g₃ x rest width height channels maximum}
      (h₀ : Filler g₀) (hm : Magic magic channels)
      (h₁ : Gap g₁) (hw : Text.Numeral w width) (hw' : width < 2 ^ 64)
      (h₂ : Gap g₂) (hh : Text.Numeral h height) (hh' : height < 2 ^ 64)
      (h₃ : Gap g₃) (hx : Text.Numeral x maximum) (hx' : maximum < 2 ^ 64) (hr : Stops rest) :
      Header (g₀ ++ (magic ++ (g₁ ++ (w ++ (g₂ ++ (h ++ (g₃ ++ (x ++ rest))))))))
        width height channels maximum rest

/-- The four fields are read exactly from a header. -/
theorem header_iff {bytes rest : List UInt8} {width height channels maximum : Nat} :
    (∃ magic b₁ b₂ b₃, field bytes = .ok (magic, b₁) ∧
      channelsOf (Text.decode magic) = .ok channels ∧ numberField b₁ = .ok (width, b₂) ∧
      numberField b₂ = .ok (height, b₃) ∧ numberField b₃ = .ok (maximum, rest)) ↔
    Header bytes width height channels maximum rest := by
  constructor
  · rintro ⟨magic, b₁, b₂, b₃, hmagic, hchannels, hwidth, hheight, hmaximum⟩
    obtain ⟨g₀, h₀, -, hs₁, rfl⟩ := field_eq_ok_iff.1 hmagic
    obtain ⟨g₁, w, h₁, hw, hw', hs₂, rfl⟩ := numberField_eq_ok_iff.1 hwidth
    obtain ⟨g₂, h, h₂, hh, hh', hs₃, rfl⟩ := numberField_eq_ok_iff.1 hheight
    obtain ⟨g₃, x, h₃, hx, hx', hr, rfl⟩ := numberField_eq_ok_iff.1 hmaximum
    exact ⟨h₀, channelsOf_decode.1 hchannels, .of_stops hs₁ h₁ (.of_numeral hw), hw, hw',
      .of_stops hs₂ h₂ (.of_numeral hh), hh, hh', .of_stops hs₃ h₃ (.of_numeral hx), hx, hx', hr⟩
  · rintro ⟨h₀, hm, h₁, hw, hw', h₂, hh, hh', h₃, hx, hx', hr⟩
    exact ⟨_, _, _, _, field_eq_ok_iff.2 ⟨_, h₀, .of_magic hm, h₁.stops _, rfl⟩,
      channelsOf_decode.2 hm,
      numberField_eq_ok_iff.2 ⟨_, _, h₁.filler, hw, hw', h₂.stops _, rfl⟩,
      numberField_eq_ok_iff.2 ⟨_, _, h₂.filler, hh, hh', h₃.stops _, rfl⟩,
      numberField_eq_ok_iff.2 ⟨_, _, h₃.filler, hx, hx', hr, rfl⟩⟩

/-- An image is a header, a byte and the samples. -/
theorem isImage_iff {bytes samples : List UInt8} {width height channels : Nat} :
    IsImage bytes width height channels samples ↔ ∃ maximum s rest,
      Header bytes width height channels maximum (s :: (samples ++ rest)) ∧
      (1 ≤ maximum ∧ maximum ≤ 255) ∧ samples.length = width * height * channels ∧
      width * height * channels ≤ 2 ^ 28 := by
  constructor
  · rintro ⟨h₀, hm, h₁, hw, hw', h₂, hh, hh', h₃, hx, hx', hs, hn, hn'⟩
    refine ⟨_, _, _, ⟨h₀, hm, h₁, hw, hw', h₂, hh, hh', h₃, hx, by omega, fun b hb => ?_⟩, hx', hn, hn'⟩
    cases hb
    exact hs
  · rintro ⟨maximum, s, rest, hheader, hx', hn, hn'⟩
    generalize htail : s :: (samples ++ rest) = tail at hheader
    obtain ⟨h₀, hm, h₁, hw, hw', h₂, hh, hh', h₃, hx, -, hr⟩ := hheader
    subst htail
    exact ⟨h₀, hm, h₁, hw, hw', h₂, hh, hh', h₃, hx, hx', hr s rfl, hn, hn'⟩

/-- Decoding, after the header. -/
theorem decode_eq_ok_iff_header {storage : Nat} {bytes : List UInt8} {m : Matrix} :
    decode storage bytes = .ok m ↔ ∃ width height channels maximum rest data,
      Header bytes width height channels maximum rest ∧ (1 ≤ maximum ∧ maximum ≤ 255) ∧
      samples (height * width * channels) rest = .ok data ∧ height * width * channels ≤ 2 ^ 28 ∧
      m = ⟨height, width, channels, ⟨storage, data.toArray⟩⟩ := by
  simp only [← header_iff]
  constructor
  · intro h
    obtain ⟨⟨magic, b₁⟩, hmagic, h⟩ := bind_eq_ok_iff.1 h
    obtain ⟨channels, hchannels, h⟩ := bind_eq_ok_iff.1 h
    obtain ⟨⟨width, b₂⟩, hwidth, h⟩ := bind_eq_ok_iff.1 h
    obtain ⟨⟨height, b₃⟩, hheight, h⟩ := bind_eq_ok_iff.1 h
    obtain ⟨⟨maximum, rest⟩, hmaximum, h⟩ := bind_eq_ok_iff.1 h
    have hpos := (channelsOf_decode.1 hchannels).pos
    dsimp only at h
    split at h
    · cases h
    · next hx =>
      obtain ⟨count, hcount, h⟩ := bind_eq_ok_iff.1 h
      obtain ⟨data, hdata, h⟩ := bind_eq_ok_iff.1 h
      have hcount := shaped_eq_ok_iff.1 hcount
      obtain ⟨-, -, -, hlength⟩ := samples_eq_ok_iff.1 hdata
      have hm := (ofSamples_eq_ok_iff hcount hlength).1 (shaped_eq_ok_iff.1 h)
      obtain ⟨rfl, hle⟩ := (sampleCount_eq_ok_iff hpos).1 hcount
      exact ⟨width, height, channels, maximum, rest, data,
        ⟨magic, b₁, b₂, b₃, hmagic, hchannels, hwidth, hheight, hmaximum⟩, by omega, hdata, hle, hm⟩
  · rintro ⟨width, height, channels, maximum, rest, data,
      ⟨magic, b₁, b₂, b₃, hmagic, hchannels, hwidth, hheight, hmaximum⟩, hx, hdata, hle, hm⟩
    have hpos := (channelsOf_decode.1 hchannels).pos
    have hcount := (sampleCount_eq_ok_iff hpos).2 ⟨rfl, hle⟩
    obtain ⟨-, -, -, hlength⟩ := samples_eq_ok_iff.1 hdata
    have hm := (ofSamples_eq_ok_iff hcount hlength).2 hm
    refine bind_eq_ok_iff.2 ⟨_, hmagic, bind_eq_ok_iff.2 ⟨_, hchannels, bind_eq_ok_iff.2
      ⟨_, hwidth, bind_eq_ok_iff.2 ⟨_, hheight, bind_eq_ok_iff.2 ⟨_, hmaximum, ?_⟩⟩⟩⟩⟩
    dsimp only
    rw [if_neg (by omega)]
    exact bind_eq_ok_iff.2 ⟨_, shaped_eq_ok_iff.2 hcount, bind_eq_ok_iff.2
      ⟨data, hdata, shaped_eq_ok_iff.2 hm⟩⟩

/-- **Decoding accepts exactly the grammar**, and gives the matrix of the sizes and samples that the
grammar reads off the bytes; any other bytes are a format error. -/
theorem decode_grammar (storage : Nat) (bytes : List UInt8) :
    (∀ m, decode storage bytes = .ok m ↔ ∃ data,
      IsImage bytes m.cols m.rows m.channels data ∧ m.data = ⟨storage, data.toArray⟩) ∧
    ((∃ width height channels data, IsImage bytes width height channels data) ∨
      ∃ e, decode storage bytes = .error e ∧
        Imaging.load storage (.ok bytes.toArray) = .error (.format e)) := by
  have hiff (m : Matrix) : decode storage bytes = .ok m ↔ ∃ data,
      IsImage bytes m.cols m.rows m.channels data ∧ m.data = ⟨storage, data.toArray⟩ := by
    simp only [decode_eq_ok_iff_header, isImage_iff]
    constructor
    · rintro ⟨width, height, channels, maximum, rest, data, hheader, hx, hdata, hle, rfl⟩
      obtain ⟨s, more, rfl, hlength⟩ := samples_eq_ok_iff.1 hdata
      dsimp only
      rw [Nat.mul_comm width height]
      exact ⟨data, ⟨maximum, s, more, hheader, hx, hlength, hle⟩, rfl⟩
    · rintro ⟨data, ⟨maximum, s, more, hheader, hx, hlength, hle⟩, hm⟩
      rw [Nat.mul_comm m.cols m.rows] at hlength hle
      exact ⟨m.cols, m.rows, m.channels, maximum, _, data, hheader, hx,
        samples_eq_ok_iff.2 ⟨s, more, rfl, hlength⟩, hle, by rw [← hm]⟩
  refine ⟨hiff, ?_⟩
  cases hd : decode storage bytes with
  | ok m =>
    obtain ⟨data, himage, -⟩ := (hiff m).1 hd
    exact .inl ⟨_, _, _, data, himage⟩
  | error e =>
    refine .inr ⟨e, rfl, ?_⟩
    rw [Imaging.load, List.toList_toArray, hd]

end Isthmus.Netpbm
