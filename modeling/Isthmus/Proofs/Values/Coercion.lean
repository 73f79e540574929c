import Isthmus.Engine.Extract

/-!
# Proofs/Values/Coercion — one native type read as another

* `NativeValue.Built.coercion` — the laws of `convert` for values that the constructors make: the probe
  says what the conversion does, the result has the type that was asked for and stays as it is when it is
  converted again, variants convert as their contents do, and variants never nest.
* `Content.read_iff` — reading a value as a number, a truth value, a text, a buffer or a list is converting
  it to the type of those, and what cannot be read is reported with both types.
* `Content.extract_eq` — so what the engine reads and gives back is what the value converts to.

Values that code puts together by hand may nest variants, or tag an instance with a built-in type.  Such a
tag says nothing about what the value holds, so the readers are related to `convert` for built values only.
-/

namespace Isthmus

namespace NativeValue

/-! ## Built values -/

/-- The values that the constructors make: variants only by `toVariant`, and objects of types that are
not built in. -/
inductive Built : NativeValue → Prop where
  | void : Built .void
  | bool (b : Bool) : Built (.bool b)
  | int (i : Int32) : Built (.int i)
  | double (d : Float) : Built (.double d)
  | string (s : String) : Built (.string s)
  | buffer (b : Buffer) : Built (.buffer b)
  | list {items : List NativeValue} (h : ∀ v ∈ items, Built v) : Built (.list items)
  | variant {v : NativeValue} (h : Built v) : Built v.toVariant
  | object {type : TypeId} (h : type.isBuiltin = false) (inst : InstanceId) :
      Built (.object type inst)
  | deferred (d : DeferredId) : Built (.deferred d)

/-- `p` is the value itself, or stands somewhere in its content or its items. -/
inductive Occurs (p : NativeValue) : NativeValue → Prop where
  | self : Occurs p p
  | content {c : NativeValue} (h : Occurs p c) : Occurs p (.variant c)
  | item {items : List NativeValue} {v : NativeValue} (hv : v ∈ items) (h : Occurs p v) :
      Occurs p (.list items)

/-- No variant in the value directly contains a variant. -/
def Flat (v : NativeValue) : Prop :=
  ∀ content, Occurs (.variant content) v → content.typeId ≠ .variant

variable {v u c p : NativeValue} {t : TypeId}

/-- `toVariant` leaves values tagged as variants alone, so what it makes holds none. -/
theorem Built.of_variant (h : Built (.variant c)) : Built c ∧ c.typeId ≠ .variant := by
  generalize hx : NativeValue.variant c = x at h
  induction h with
  | @variant v hv ih =>
    rw [toVariant] at hx
    split at hx
    case isTrue => exact ih hx
    case isFalse hn =>
      cases hx
      exact ⟨hv, hn⟩
  | _ => cases hx

theorem Built.of_list {items : List NativeValue} (h : Built (.list items)) :
    ∀ v ∈ items, Built v := by
  generalize hx : NativeValue.list items = x at h
  induction h with
  | list hi =>
    cases hx
    exact hi
  | @variant v _ ih =>
    rw [toVariant] at hx
    split at hx
    case isTrue => exact ih hx
    case isFalse => cases hx
  | _ => cases hx

theorem Built.of_object {type : TypeId} {inst : InstanceId} (h : Built (.object type inst)) :
    type.isBuiltin = false := by
  generalize hx : NativeValue.object type inst = x at h
  induction h with
  | object ht =>
    cases hx
    exact ht
  | @variant v _ ih =>
    rw [toVariant] at hx
    split at hx
    case isTrue => exact ih hx
    case isFalse => cases hx
  | _ => cases hx

theorem Built.occurs (ho : Occurs p v) (h : Built v) : Built p := by
  induction ho with
  | self => exact h
  | content _ ih => exact ih h.of_variant.1
  | item hv _ ih => exact ih (h.of_list _ hv)

/-- **Variants do not nest** in built values, at any depth. -/
theorem Built.flat (h : Built v) : v.Flat :=
  fun _ ho => (h.occurs ho).of_variant.2

/-- Only lists are tagged as lists, and so on: the tag of an object is no built-in one. -/
theorem Built.typeId_ne {type : TypeId} {inst : InstanceId} (h : Built (.object type inst))
    (ht : t.isBuiltin) : type ≠ t := by
  rintro rfl
  rw [h.of_object] at ht
  cases ht

/-- A variant is unwrapped in one step. -/
theorem Built.unwrap (h : Built v) : Built v.unwrap ∧ v.unwrap.typeId ≠ .variant := by
  cases v with
  | variant c => exact h.of_variant
  | object type inst => exact ⟨h, h.typeId_ne (by decide)⟩
  | _ => exact ⟨h, by simp [NativeValue.unwrap, typeId]⟩

/-! ## The laws of conversion -/

theorem convert_self (h : v.typeId = t) : v.convert t = some v := by
  rw [convert.eq_def, if_pos h]

theorem convert_variant_of_ne (ht : t ≠ .variant) : (NativeValue.variant c).convert t = c.convert t := by
  have hn : (NativeValue.variant c).typeId ≠ t := ht.symm
  rw [convert, if_neg hn, if_neg ht]

theorem canConvert_variant_of_ne (ht : t ≠ .variant) :
    (NativeValue.variant c).canConvert t = c.canConvert t := by
  rw [canConvert, if_neg (by simp [typeId, ht, ht.symm])]

theorem convert_toVariant (v : NativeValue) : v.convert .variant = some v.toVariant := by
  by_cases h : v.typeId = .variant
  · rw [convert_self h, toVariant, if_pos h]
  · rw [convert.eq_def, if_neg h, if_pos rfl]

/-- **The probe and the conversion agree**, although they are two tables. -/
theorem isSome_convert (v : NativeValue) (t : TypeId) : (v.convert t).isSome = v.canConvert t := by
  fun_induction canConvert v t with
  | case1 v h =>
    obtain h | rfl : v.typeId = t ∨ t = .variant := by simpa using h
    · rw [convert_self h]
      rfl
    · rw [convert_toVariant]
      rfl
  | case2 c h ih =>
    have ht : t ≠ .variant := fun ht => h (by simp [ht])
    rw [convert_variant_of_ne ht, ih]
  | _ => grind [convert]

theorem typeId_of_convert (h : v.convert t = some u) : u.typeId = t := by
  fun_induction convert v t <;> grind [typeId, toVariant]

/-- Converting makes nothing that the constructors do not make. -/
theorem Built.convert (hv : Built v) (h : v.convert t = some u) : Built u := by
  fun_induction NativeValue.convert v t <;> grind [Built, Built.of_variant]

theorem unwrap_toVariant (v : NativeValue) : v.toVariant.unwrap = v.unwrap := by
  cases v <;> grind [toVariant, NativeValue.unwrap, typeId]

/-- **The laws of coercion.**  For a value that the constructors make and any type: the probe tells whether
the conversion succeeds; the result has exactly that type, converts to it as itself, and nests no variants;
a variant converts to any other type as its content does; and the variant that any value converts to holds
the content of that value. -/
theorem Built.coercion (hv : Built v) (t : TypeId) :
    (v.canConvert t = true ↔ ∃ u, v.convert t = some u) ∧
    (∀ u, v.convert t = some u → u.typeId = t ∧ u.convert t = some u ∧ u.Built ∧ u.Flat) ∧
    (∀ c, v = .variant c → t ≠ .variant →
      v.canConvert t = c.canConvert t ∧ v.convert t = c.convert t) ∧
    (∃ u, v.convert .variant = some u ∧ u.unwrap = v.unwrap) ∧
    v.Flat := by
  refine ⟨?_, fun u hu => ?_, ?_, ⟨_, convert_toVariant v, unwrap_toVariant v⟩, hv.flat⟩
  · rw [← isSome_convert, Option.isSome_iff_exists]
  · have ht := typeId_of_convert hu
    have hb := hv.convert hu
    exact ⟨ht, convert_self ht, hb, hb.flat⟩
  · rintro c rfl ht
    exact ⟨canConvert_variant_of_ne ht, convert_variant_of_ne ht⟩

/-- A variant with a number in it converts to truth values as the number does. -/
theorem coercion_variant_int : (NativeValue.variant (.int 5)).Built ∧
    ∃ u, (NativeValue.variant (.int 5)).convert .bool = some u ∧ u.typeId = .bool ∧
      u.convert .bool = some u := by
  have hb : (NativeValue.variant (.int 5)).Built := .variant (.int 5)
  obtain ⟨hprobe, hresult, -⟩ := hb.coercion .bool
  obtain ⟨u, hu⟩ := hprobe.1 (by simp [canConvert, typeId])
  obtain ⟨ht, hagain, -⟩ := hresult u hu
  exact ⟨hb, u, hu, ht, hagain⟩

end NativeValue

/-! ## Reading contents -/

/-- The types of contents that native code reads values as. -/
inductive Content where
  | int
  | double
  | bool
  | text
  | buffer
  | items

namespace Content

/-- What is read. -/
def Carrier : Content → Type
  | int => Int32
  | double => Float
  | bool => Bool
  | text => String
  | buffer => Buffer
  | items => List NativeValue

/-- The type of the values that hold such contents. -/
def typeId : Content → TypeId
  | int => .int
  | double => .double
  | bool => .bool
  | text => .string
  | buffer => .buffer
  | items => .list

/-- The reader. -/
def read (nameOf : TypeId → String) : (k : Content) → NativeValue → Except NativeError k.Carrier
  | int, v => v.toInt nameOf
  | double, v => v.toDouble nameOf
  | bool, v => v.toBool nameOf
  | text, v => v.toText nameOf
  | buffer, v => v.toBuffer nameOf
  | items, v => v.toItems nameOf

/-- What was read as a value again. -/
def give : (k : Content) → k.Carrier → NativeValue
  | int, i => .int i
  | double, d => .double d
  | bool, b => .bool b
  | text, s => .string s
  | buffer, b => .buffer b
  | items, vs => .list vs

/-- The reading of the engine that uses the reader. -/
def reading : Content → Reading
  | int => .int
  | double => .double
  | bool => .bool
  | text => .text
  | buffer => .buffer
  | items => .items

/-- The content of a value that is tagged with the type. -/
def take? : (k : Content) → NativeValue → Option k.Carrier
  | int, v => v.asInt?
  | double, v => v.asDouble?
  | bool, v => v.asBool?
  | text, v => v.asString?
  | buffer, v => v.asBuffer?
  | items, v => v.asList?

variable {k : Content} {v u : NativeValue} (nameOf : TypeId → String)

theorem typeId_give (a : k.Carrier) : (k.give a).typeId = k.typeId := by
  cases k <;> rfl

theorem isBuiltin_typeId (k : Content) : k.typeId.isBuiltin := by
  cases k <;> rfl

theorem take?_give (a : k.Carrier) : k.take? (k.give a) = some a := by
  cases k <;> rfl

theorem give_of_take? {a : k.Carrier} (h : k.take? v = some a) : v = k.give a := by
  cases k <;> cases v <;> cases h <;> rfl

/-- A built value with the tag of the contents has such contents. -/
theorem exists_give (hb : v.Built) (ht : v.typeId = k.typeId) : ∃ a, v = k.give a := by
  cases v with
  | object type inst => exact absurd ht (hb.typeId_ne k.isBuiltin_typeId)
  | _ => cases k <;> first | exact ⟨_, rfl⟩ | cases ht

/-- What is no variant is coerced to a number or a truth value at most. -/
theorem take?_eq (hv : v.typeId ≠ .variant)
    (hk : k.typeId = .string ∨ k.typeId = .buffer ∨ k.typeId = .list) :
    k.take? v = (v.convert k.typeId).bind k.take? := by
  by_cases ht : v.typeId = k.typeId
  · rw [NativeValue.convert_self ht]
    rfl
  · have hconvert : v.convert k.typeId = none := by
      cases v <;> grind [NativeValue.convert, NativeValue.typeId]
    rw [hconvert, Option.bind_none]
    refine Option.eq_none_iff_forall_ne_some.2 fun a ha => ht ?_
    rw [give_of_take? ha, typeId_give]

theorem convert_unwrap {t : TypeId} (ht : t ≠ .variant) : v.unwrap.convert t = v.convert t := by
  cases v with
  | variant c => exact (NativeValue.convert_variant_of_ne ht).symm
  | _ => rfl

/-- Texts, buffers and lists are looked for under the variant, and that is where `convert` finds them. -/
theorem take?_unwrap (hb : v.Built)
    (hk : k.typeId = .string ∨ k.typeId = .buffer ∨ k.typeId = .list) :
    k.take? v.unwrap = (v.convert k.typeId).bind k.take? := by
  have ht : k.typeId ≠ .variant := by
    obtain h | h | h := hk <;> rw [h] <;> decide
  rw [take?_eq hb.unwrap.2 hk, convert_unwrap ht]

/-- **Reading is converting** and taking the content, whether or not the reader uses `convert`. -/
theorem read_eq (hb : v.Built) :
    k.read nameOf v = v.expect nameOf k.typeId ((v.convert k.typeId).bind k.take?) := by
  cases k with
  | int => rfl
  | double => rfl
  | bool => rfl
  | text => exact congrArg (v.expect nameOf .string) (take?_unwrap (k := text) hb (.inl rfl))
  | buffer => exact congrArg (v.expect nameOf .buffer) (take?_unwrap (k := buffer) hb (.inr (.inl rfl)))
  | items => exact congrArg (v.expect nameOf .list) (take?_unwrap (k := items) hb (.inr (.inr rfl)))

theorem read_of_convert (hb : v.Built) (h : v.convert k.typeId = some u) :
    ∃ a, u = k.give a ∧ k.read nameOf v = .ok a := by
  obtain ⟨a, rfl⟩ := exists_give (hb.convert h) (NativeValue.typeId_of_convert h)
  refine ⟨a, rfl, ?_⟩
  rw [read_eq nameOf hb, h, Option.bind_some, take?_give]
  rfl

theorem read_of_convert_eq_none (hb : v.Built) (h : v.convert k.typeId = none) :
    k.read nameOf v = .error (.typeMismatch (nameOf k.typeId) (nameOf v.typeId)) := by
  rw [read_eq nameOf hb, h]
  rfl

/-- What a constructor was given is read back, of any contents. -/
theorem read_give (a : k.Carrier) : k.read nameOf (k.give a) = .ok a := by
  cases k <;> rfl

/-- **Reading agrees with coercion.**  A value that the constructors make is read just in case the probe
says that it converts to the type of the contents; giving back what was read is the conversion; and any other
value is reported with that type and its own.  What was given is always read back. -/
theorem read_iff (k : Content) (hb : v.Built) :
    ((∃ a, k.read nameOf v = .ok a) ↔ v.canConvert k.typeId = true) ∧
    (∀ a, k.read nameOf v = .ok a → v.convert k.typeId = some (k.give a)) ∧
    (v.canConvert k.typeId = false →
      k.read nameOf v = .error (.typeMismatch (nameOf k.typeId) (nameOf v.typeId))) ∧
    ∀ a, k.read nameOf (k.give a) = .ok a := by
  rw [← NativeValue.isSome_convert]
  cases h : v.convert k.typeId with
  | none =>
    have hr := read_of_convert_eq_none nameOf hb h
    refine ⟨⟨fun ⟨a, ha⟩ => ?_, nofun⟩, fun a ha => ?_, fun _ => hr, read_give nameOf⟩
    · rw [hr] at ha
      cases ha
    · rw [hr] at ha
      cases ha
  | some u =>
    obtain ⟨a, rfl, hr⟩ := read_of_convert nameOf hb h
    refine ⟨⟨fun _ => rfl, fun _ => ⟨a, hr⟩⟩, fun b hread => ?_, nofun, read_give nameOf⟩
    rw [hr] at hread
    cases hread
    rfl

/-- A variant holds a number that is read with a fraction, and no text. -/
theorem read_variant_int : (NativeValue.variant (.int 5)).Built ∧
    (∃ a, double.read ClassKey.typeName (.variant (.int 5)) = .ok a) ∧
    text.read ClassKey.typeName (.variant (.int 5)) = .error (.typeMismatch "string" "variant") := by
  have hb : (NativeValue.variant (.int 5)).Built := .variant (.int 5)
  refine ⟨hb, (read_iff ClassKey.typeName double hb).1.2 ?_, ?_⟩
  · simp [NativeValue.canConvert, NativeValue.typeId, typeId]
  · refine ((read_iff ClassKey.typeName text hb).2.2.1 ?_).trans ?_
    · simp [NativeValue.canConvert, NativeValue.typeId, typeId]
    · rfl

/-- What the engine reads and gives back is what the value converts to. -/
theorem extract_eq (k : Content) (hb : v.Built) :
    Engine.extract v k.reading =
      pure (v.expect ClassKey.typeName k.typeId (v.convert k.typeId)) := by
  have hextract : Engine.extract v k.reading = pure ((k.read ClassKey.typeName v).map k.give) := by
    cases k <;> rfl
  rw [hextract]
  cases h : v.convert k.typeId with
  | none =>
    rw [read_of_convert_eq_none _ hb h]
    rfl
  | some u =>
    obtain ⟨a, rfl, hr⟩ := read_of_convert ClassKey.typeName hb h
    rw [hr]
    rfl

end Content

end Isthmus
