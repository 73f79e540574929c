import Isthmus.Proofs.Library.Matrix
import Isthmus.Proofs.Members.Calls
import Isthmus.Proofs.Values.Endings

/-!
# Proofs/Members/Sizes — what the foreign side is told of the size of a matrix

The sizes of a matrix are 64-bit numbers, and its methods give them as 32-bit integers of which only the low
bits are kept.

* `Matrix.Obtainable` — the matrices that the foreign side can get hold of.
* `Matrix.Obtainable.rows_cols` — rows and columns fit into 32 bits, but for images without pixels.
* `Matrix.Obtainable.sizes` — so the channels are told right always, and rows and columns exactly if they
  fit.

What an image without pixels says of itself is bounded by 64 bits only (`loaded_rows_lost`): the number of
samples is checked as a product, and one factor is zero.
-/

namespace Isthmus

/-! ## Integers that are cut off -/

/-- A size is told right exactly if it fits into 32 bits. -/
theorem toInt_ofNat_eq_iff (n : Nat) : (Int32.ofNat n).toInt = n ↔ n < 2 ^ 31 := by
  have hsize : Int32.size = 2 ^ 32 := rfl
  rw [Int32.toInt_ofNat', hsize]
  constructor
  · intro h
    have hlt : Int.bmod n (2 ^ 32) < (((2 ^ 32 : Nat) : Int) + 1) / 2 := Int.bmod_lt (by decide)
    omega
  · intro h
    exact Int.bmod_eq_of_le (by omega) (by omega)

theorem toNat_toInt_lt (n : Int32) : n.toInt.toNat < 2 ^ 31 := by
  have h := n.toInt_lt
  omega

/-! ## What imaging asks for -/

namespace Imaging

theorem failing_eq_ok_iff {α : Type} {x : Except NativeError α} {a : α} :
    failing x = .ok a ↔ x = .ok a := by
  cases x <;> simp [failing]

/-- **What a request comes to**: a matrix that is filled, work on another, or the reading of a file.  All
sizes are given in 32 bits. -/
theorem request_cases {nameOf : TypeId → String} {matrixOf : InstanceId → Option Matrix}
    {storage index : Nat} {args : List NativeValue} {r : Request}
    (h : request nameOf matrixOf storage index args = .ok r) :
    (∃ rows cols format : Int32, ∃ fill m,
      Matrix.filled storage rows.toInt cols.toInt format.toInt fill = .ok m ∧ r = .create m) ∨
    (∃ source interpolation, ∃ width height : Int32,
      r = .schedule (.resize source width.toInt.toNat height.toInt.toNat interpolation)) ∨
    ∃ path, r = .schedule (.load path) := by
  have hcreate {fill : UInt8} (h : create nameOf storage fill args = .ok r) :
      ∃ rows cols format : Int32, ∃ fill m,
        Matrix.filled storage rows.toInt cols.toInt format.toInt fill = .ok m ∧ r = .create m := by
    obtain ⟨rows, -, h⟩ := bind_eq_ok_iff.1 h
    obtain ⟨cols, -, h⟩ := bind_eq_ok_iff.1 h
    obtain ⟨format, -, h⟩ := bind_eq_ok_iff.1 h
    obtain ⟨m, hm, h⟩ := bind_eq_ok_iff.1 h
    exact ⟨rows, cols, format, fill, m, failing_eq_ok_iff.1 hm, (Except.ok.inj h).symm⟩
  match index with
  | 0 | 1 => exact .inl (hcreate h)
  | 2 =>
    obtain ⟨v, -, h⟩ := bind_eq_ok_iff.1 h
    split at h
    · next source _ =>
      obtain ⟨width, -, h⟩ := bind_eq_ok_iff.1 h
      obtain ⟨height, -, h⟩ := bind_eq_ok_iff.1 h
      obtain ⟨code, -, h⟩ := bind_eq_ok_iff.1 h
      obtain ⟨-, -, h⟩ := bind_eq_ok_iff.1 h
      obtain ⟨-, -, h⟩ := bind_eq_ok_iff.1 h
      obtain ⟨-, -, h⟩ := bind_eq_ok_iff.1 h
      exact .inr (.inl ⟨source, _, width, height, (Except.ok.inj h).symm⟩)
    · cases h
  | 3 =>
    obtain ⟨path, -, h⟩ := bind_eq_ok_iff.1 h
    exact .inr (.inr ⟨path, (Except.ok.inj h).symm⟩)
  | n + 4 => cases h

end Imaging

/-! ## Obtainable matrices -/

namespace Matrix

/-- **The matrices that the foreign side can get hold of**: the one of a new object, what imaging makes at
once, and what its background work comes to.  Each gets a storage of its own. -/
inductive Obtainable : Matrix → Prop where
  | empty (storage : Nat) : Obtainable (empty storage)
  | created {nameOf matrixOf storage index args m}
      (h : Imaging.request nameOf matrixOf storage index args = .ok (.create m)) : Obtainable m
  | resized {nameOf matrixOf storage index args source width height interpolation files m}
      (hs : Obtainable source)
      (h : Imaging.request nameOf matrixOf storage index args =
        .ok (.schedule (.resize source width height interpolation)))
      (hm : Engine.imageResult files (.resize source width height interpolation) = .ok m) : Obtainable m
  | loaded {path files m} (h : Engine.imageResult files (.load path) = .ok m) : Obtainable m
  | stored {m} (storage : Nat) (h : Obtainable m) : Obtainable { m with data.storage := storage }

/-- It is the image in some bytes, with a storage of its own. -/
inductive IsImage : Matrix → Prop where
  | mk {bytes storage x} (h : Netpbm.decode 0 bytes = .ok x) : IsImage { x with data.storage := storage }

theorem IsImage.stored {m : Matrix} (h : m.IsImage) (storage : Nat) :
    IsImage { m with data.storage := storage } := by
  cases h with
  | @mk bytes _ x h => exact @IsImage.mk bytes storage x h

theorem isImage_of_load {files : Files} {path : String} {m : Matrix}
    (h : Engine.imageResult files (.load path) = .ok m) : m.IsImage := by
  rw [Engine.imageResult] at h
  cases hload : Imaging.load 0 (files.read path) with
  | error e =>
    rw [hload] at h
    cases h
  | ok x =>
    rw [hload] at h
    cases h
    unfold Imaging.load at hload
    split at hload
    · cases hload
    split at hload
    · next hdecode =>
      cases hload
      exact .mk hdecode
    · cases hload

namespace Shaped

variable {m : Matrix}

theorem stored (h : m.Shaped) (storage : Nat) : Shaped { m with data.storage := storage } :=
  ⟨h.size_eq, h.size_le⟩

/-- In a matrix with pixels no size is greater than the number of samples. -/
theorem rows_cols_le (h : m.Shaped) (hc : 0 < m.channels) (hp : m.rows * m.cols ≠ 0) :
    m.rows ≤ 2 ^ 28 ∧ m.cols ≤ 2 ^ 28 := by
  have hle : m.rows * m.cols ≤ 2 ^ 28 :=
    calc m.rows * m.cols ≤ m.rows * m.cols * m.channels := Nat.le_mul_of_pos_right _ hc
      _ = m.data.bytes.size := h.size_eq.symm
      _ ≤ 2 ^ 28 := h.size_le
  obtain ⟨hrows, hcols⟩ := Nat.mul_ne_zero_iff.1 hp
  exact ⟨(Nat.le_mul_of_pos_right _ (Nat.pos_of_ne_zero hcols)).trans hle,
    (Nat.le_mul_of_pos_left _ (Nat.pos_of_ne_zero hrows)).trans hle⟩

end Shaped

namespace Obtainable

variable {m : Matrix}

theorem shaped (h : m.Obtainable) : m.Shaped := by
  induction h with
  | empty storage => exact (Made.empty storage).shaped
  | created h =>
    obtain ⟨rows, cols, format, fill, m, hm, hr⟩ | ⟨_, _, _, _, hr⟩ | ⟨_, hr⟩ := Imaging.request_cases h
    · cases hr
      exact .of_filled hm
    · cases hr
    · cases hr
  | resized _ _ hm => exact .of_resize hm
  | loaded h =>
    obtain ⟨hm⟩ := isImage_of_load h
    exact (Shaped.of_decode hm).stored _
  | stored storage _ ih => exact ih.stored storage

/-- There are one, three or four channels. -/
theorem channels_cases (h : m.Obtainable) : m.channels = 1 ∨ m.channels = 3 ∨ m.channels = 4 := by
  induction h with
  | empty => exact .inl rfl
  | created h =>
    obtain ⟨rows, cols, format, fill, m, hm, hr⟩ | ⟨_, _, _, _, hr⟩ | ⟨_, hr⟩ := Imaging.request_cases h
    · cases hr
      obtain ⟨-, hformat, n, -, rfl⟩ := filled_eq_ok_iff.1 hm
      obtain hf | hf | hf := hformat
      · exact .inl (by rw [hf]; rfl)
      · exact .inr (.inl (by rw [hf]; rfl))
      · exact .inr (.inr (by rw [hf]; rfl))
    · cases hr
    · cases hr
  | resized _ _ hm ih =>
    obtain ⟨-, -, rfl⟩ := resize_eq_ok_iff.1 hm
    exact ih
  | loaded h =>
    obtain ⟨hm⟩ := isImage_of_load h
    obtain ⟨_, _, _, _, _, _, hheader, -, -, -, rfl⟩ := Netpbm.decode_eq_ok_iff_header.1 hm
    obtain ⟨-, hmagic⟩ := hheader
    cases hmagic with
    | gray => exact .inl rfl
    | rgb => exact .inr (.inl rfl)
  | stored _ _ ih => exact ih

/-- **Rows and columns fit into 32 bits**, but for images without pixels. -/
theorem rows_cols (h : m.Obtainable) :
    m.rows < 2 ^ 31 ∧ m.cols < 2 ^ 31 ∨ m.rows * m.cols = 0 ∧ m.IsImage := by
  induction h with
  | empty => exact .inl ⟨Nat.two_pow_pos 31, Nat.two_pow_pos 31⟩
  | created h =>
    obtain ⟨rows, cols, format, fill, m, hm, hr⟩ | ⟨_, _, _, _, hr⟩ | ⟨_, hr⟩ := Imaging.request_cases h
    · cases hr
      obtain ⟨-, -, n, -, rfl⟩ := filled_eq_ok_iff.1 hm
      exact .inl ⟨toNat_toInt_lt rows, toNat_toInt_lt cols⟩
    · cases hr
    · cases hr
  | resized _ h hm _ =>
    obtain ⟨_, _, _, _, _, -, hr⟩ | ⟨source, interpolation, width, height, hr⟩ | ⟨_, hr⟩ :=
      Imaging.request_cases h
    · cases hr
    · cases hr
      obtain ⟨-, -, rfl⟩ := resize_eq_ok_iff.1 hm
      exact .inl ⟨toNat_toInt_lt height, toNat_toInt_lt width⟩
    · cases hr
  | @loaded path files m hload =>
    by_cases hp : m.rows * m.cols = 0
    · exact .inr ⟨hp, isImage_of_load hload⟩
    · have hchannels := (Obtainable.loaded hload).channels_cases
      have hle := (Obtainable.loaded hload).shaped.rows_cols_le (by omega) hp
      exact .inl (by omega)
  | stored storage _ ih =>
    exact ih.imp_right fun ⟨hp, himage⟩ => ⟨hp, himage.stored storage⟩

end Obtainable

end Matrix

/-! ## Telling the sizes -/

namespace Engine

open World

variable {w : World} {cx : ContextId} {id : InstallationId} {i : Installation}

theorem run_arguments_nil (hb : w.bridge? cx = some (id, i)) {m : MethodDescriptor}
    (hm : m.parameters = []) : (arguments cx m []).run w = .ok [] w := by
  rw [arguments, if_neg (by rw [MethodDescriptor.arity, hm]; exact not_not.2 rfl)]
  change (registry cx >>= _).run w = _
  rw [run_bind_of_ok (run_registry hb)]
  rfl

/-- An integer is given as the number that it is. -/
theorem run_finish_int (hb : w.bridge? cx = some (id, i)) (he : i.registry.encoder? .int = some .int)
    (run : Runner) {m : MethodDescriptor} (hm : m.returns = .int) (n : Int32) :
    (finish run cx m (.ok (.int n))).run w = .ok (.number (Number.ofInt32 n)) w := by
  have hconvert : (NativeValue.int n).convert .int = some (.int n) := rfl
  have hforeign : toForeign run cx i.registry (.int n) =
      (do return .ok (← encode run cx i.registry.maxBufferLength .int (.int n))) :=
    toForeign_eq run nofun nofun he
  rw [finish, resultToForeign, hm, if_neg (by decide), hconvert]
  dsimp only
  rw [run_bind_of_ok (run_registry hb), hforeign]
  rfl

end Engine

namespace Matrix

/-- The foreign side calls a method of a matrix without arguments. -/
def ask (v : ForeignValue) (index : Nat) : CallInfo where
  receiver := v
  data := index

section

variable {w : World} {cx : ContextId} {id : InstallationId} {i : Installation} {v : ForeignValue}
  {handle : Handle} {m : Matrix} (hb : w.bridge? cx = some (id, i))
  (he : i.registry.encoder? .int = some .int) (hh : w.handleFor cx .matrix v = .ok handle)
  (hi : w.instance? handle.inst = some (.matrix m)) (run : Runner)
include hb he hh hi

/-- The answer is what native code gives. -/
theorem run_ask {index : Nat} {method : MethodDescriptor} {n : Int32}
    (hm : descriptor.methods[index]? = some method) (hp : method.parameters = [])
    (hr : method.returns = .int) (hn : m.invoke ClassKey.typeName index [] = .ok (.int n)) :
    (Engine.runMember run cx .matrix .invoke (ask v index)).run w =
      .ok (.number (Number.ofInt32 n)) w := by
  have hinvoke : (Engine.invoke handle.inst index []).run w = .ok (.ok (.int n)) w := by
    rw [Engine.invoke, Engine.run_get_bind, hi]
    dsimp only
    rw [hn]
    rfl
  have hcall := @Engine.run_member w cx .matrix (ask v index) method _ _ hm (.method hh) run
  rw [hcall, ask, Engine.run_bind_of_ok (Engine.run_arguments_nil hb hp)]
  dsimp only
  rw [Engine.run_bind_of_ok hinvoke]
  exact Engine.run_finish_int hb he run hr n

/-- **What the foreign side is told of the sizes of a matrix**: of each size the low 32 bits.  The channels
are right.  Rows and columns are right exactly if they are below `2 ^ 31`, which they are unless the matrix
is an image without pixels. -/
theorem Obtainable.sizes (h : m.Obtainable) :
    ∃ rows cols channels : Int32,
      (Engine.runMember run cx .matrix .invoke (ask v 0)).run w = .ok (.number (Number.ofInt32 rows)) w ∧
      (Engine.runMember run cx .matrix .invoke (ask v 1)).run w = .ok (.number (Number.ofInt32 cols)) w ∧
      (Engine.runMember run cx .matrix .invoke (ask v 2)).run w =
        .ok (.number (Number.ofInt32 channels)) w ∧
      channels.toInt = m.channels ∧
      (rows.toInt = m.rows ↔ m.rows < 2 ^ 31) ∧ (cols.toInt = m.cols ↔ m.cols < 2 ^ 31) ∧
      (m.rows < 2 ^ 31 ∧ m.cols < 2 ^ 31 ∨ m.rows * m.cols = 0 ∧ m.IsImage) := by
  have hchannels := h.channels_cases
  exact ⟨.ofNat m.rows, .ofNat m.cols, .ofNat m.channels, run_ask hb he hh hi run rfl rfl rfl rfl,
    run_ask hb he hh hi run rfl rfl rfl rfl, run_ask hb he hh hi run rfl rfl rfl rfl,
    (toInt_ofNat_eq_iff _).2 (by omega), toInt_ofNat_eq_iff _, toInt_ofNat_eq_iff _, h.rows_cols⟩

end

namespace Gallery

/-- A context whose bridge knows matrices, and an object that holds a matrix. -/
def world (m : Matrix) : World :=
  let w := (({} : World).openContext ⟨1⟩).install ⟨0⟩ (Registry.withClass {} .base .matrix)
  { w with
    objects := w.objects.insert { context := ⟨0⟩, attachment := some (.handle ⟨0⟩) }
    handles := w.handles.insert { cls := .matrix, inst := ⟨0⟩, ownership := .shared, state := .bound }
    instances := w.instances.insert (.matrix m) }

/-- What the object answers to a method without arguments. -/
def reply (m : Matrix) (index : Nat) : EStateM.Result Stop World ForeignValue :=
  (Engine.runMember (Session.runner 1) ⟨0⟩ .matrix .invoke (ask (.object ⟨0⟩) index)).run (world m)

/-- A matrix of two rows and a column, as imaging makes it. -/
def zeros : Matrix :=
  ⟨2, 1, 1, ⟨0, #[0, 0]⟩⟩

theorem obtainable_zeros : zeros.Obtainable :=
  @Obtainable.created (fun _ => "") (fun _ => none) 0 0 [.int 2, .int 1, .int 1] zeros rfl

/-- A file with an image of `2 ^ 32` rows and no column. -/
def file : Array UInt8 :=
  #[0x50, 0x35, 0x20, 0x30, 0x20, 0x34, 0x32, 0x39, 0x34, 0x39, 0x36, 0x37, 0x32, 0x39, 0x36, 0x20,
    0x32, 0x35, 0x35, 0x0A]

/-- The image in the file. -/
def tall : Matrix :=
  ⟨4294967296, 0, 1, ⟨0, #[]⟩⟩

theorem imageResult_tall : Engine.imageResult ⟨[("tall.pgm", file)]⟩ (.load "tall.pgm") = .ok tall := by
  decide +kernel

end Gallery

open Gallery

/-- The sizes of a small matrix are told right. -/
theorem sizes_of_zeros : ∃ rows cols channels : Int32,
    reply zeros 0 = .ok (.number (Number.ofInt32 rows)) (world zeros) ∧
    reply zeros 1 = .ok (.number (Number.ofInt32 cols)) (world zeros) ∧
    reply zeros 2 = .ok (.number (Number.ofInt32 channels)) (world zeros) ∧
    rows.toInt = 2 ∧ cols.toInt = 1 ∧ channels.toInt = 1 := by
  obtain ⟨rows, cols, channels, h₀, h₁, h₂, hchannels, hrows, hcols, -⟩ :=
    @Obtainable.sizes (world zeros) ⟨0⟩ _ _ (.object ⟨0⟩) _ zeros rfl rfl rfl rfl (Session.runner 1)
      obtainable_zeros
  exact ⟨rows, cols, channels, h₀, h₁, h₂, hrows.2 (by decide), hcols.2 (by decide), hchannels⟩

/-- **The rows of a loaded image are lost**: there are `2 ^ 32`, and the foreign side is told that there are
none. -/
theorem loaded_rows_lost : tall.Obtainable ∧
    reply tall 0 = .ok (.number (Number.ofInt32 0)) (world tall) ∧ (0 : Int32).toInt ≠ tall.rows :=
  ⟨.loaded imageResult_tall,
    run_ask (w := world tall) rfl rfl rfl rfl (Session.runner 1) rfl rfl rfl rfl, by decide⟩

end Matrix

end Isthmus
