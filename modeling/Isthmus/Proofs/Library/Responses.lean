import Isthmus.Library.Class
import Isthmus.Proofs.Values.Coercion
import Mathlib.Data.List.Forall2

/-!
# Proofs/Library/Responses — the classes of the library do what their descriptors declare

A descriptor declares the parameters and the result of each method, and the native code behind the method
is found by its index alone.  `Responds` says that the two agree: given arguments that fit the declared
parameters (`NativeValue.Fits`), native code asks for no argument that is missing and takes none for one of
another type, and what it gives can be read as the declared result.

`Responds.bind` puts this together along a method, and `reads` says it of one argument.  There is one
statement for each class: `Calculator.responds`, `Matrix.responds`, `Imaging.responds`, `Ticker.responds`.
-/

namespace Isthmus

/-! ## Fitting arguments -/

/-- A value that a declared parameter lets through: it holds contents of the declared type, or is a matrix
where one is declared. -/
structure NativeValue.Fits (isMatrix : InstanceId → Prop) (t : TypeId) (v : NativeValue) : Prop where
  content : ∀ k : Content, t = k.typeId → ∃ a, v = k.give a
  matrix : t = ClassKey.matrix.typeId → ∃ inst, v = .object t inst ∧ isMatrix inst

/-- A result that can be read as one of the declared type; of one that is declared void nothing is
read. -/
def NativeValue.Suits (t : TypeId) (v : NativeValue) : Prop :=
  t = .void ∨ (v.convert t).isSome

/-! ## Responds -/

/-- **What native code may complain about** if its arguments fit: about what they are, but not about their
types, unless it is that of an item of a list. -/
inductive Complaint (nameOf : TypeId → String) (args : List NativeValue) : NativeError → Prop where
  | argument {text : String} (h : text ≠ "expected a Matrix") : Complaint nameOf args (.argument text)
  | invocation (text : String) : Complaint nameOf args (.invocation text)
  | item {items : List NativeValue} {v : NativeValue} (hl : .list items ∈ args) (hv : v ∈ items)
      (hd : v.toDouble nameOf = .error (v.mismatch nameOf .double)) :
      Complaint nameOf args (v.mismatch nameOf .double)

/-- **How native code ends** if its arguments fit: with a result of a kind, or with a complaint. -/
inductive Responds {α : Type} (nameOf : TypeId → String) (args : List NativeValue) (P : α → Prop) :
    Except Fault α → Prop where
  | ok {a : α} (h : P a) : Responds nameOf args P (.ok a)
  | error {e : NativeError} (h : Complaint nameOf args e) : Responds nameOf args P (.error (.error e))

section

variable {α β : Type} {nameOf : TypeId → String} {args : List NativeValue} {P : α → Prop} {Q : β → Prop}

namespace Responds

theorem bind {x : Except Fault α} {f : α → Except Fault β} (hx : Responds nameOf args P x)
    (hf : ∀ a, P a → Responds nameOf args Q (f a)) : Responds nameOf args Q (x >>= f) := by
  cases hx with
  | ok h => exact hf _ h
  | error h => exact .error h

theorem refusal {text : String} (h : text ≠ "expected a Matrix") :
    Responds nameOf args P (.error (.error (.argument text))) :=
  .error (.argument h)

end Responds

/-- A text that begins with another letter is another text. -/
theorem append_ne_of_head {s t u : String} {c : Char} (hs : s.toList.head? = some c)
    (hu : u.toList.head? ≠ some c) : s ++ t ≠ u := by
  rintro rfl
  rw [String.toList_append, List.head?_append, hs] at hu
  exact hu rfl

/-- A text that ends with another letter is another text. -/
theorem append_ne_of_last {s t u : String} {c : Char} (ht : t.toList.getLast? = some c)
    (hu : u.toList.getLast? ≠ some c) : s ++ t ≠ u := by
  rintro rfl
  rw [String.toList_append, List.getLast?_append, ht] at hu
  exact hu rfl

/-! ## Reading arguments -/

variable {isMatrix : InstanceId → Prop} {types : List TypeId}

theorem fits_at (h : List.Forall₂ (NativeValue.Fits isMatrix) types args) {k : Nat} {t : TypeId}
    (ht : types[k]? = some t) : ∃ v, args[k]? = some v ∧ v.Fits isMatrix t := by
  induction h generalizing k with
  | nil => cases ht
  | cons hv _ ih =>
    cases k with
    | zero =>
      cases ht
      exact ⟨_, rfl, hv⟩
    | succ k => exact ih ht

theorem argument_eq {k : Nat} {v : NativeValue} (h : args[k]? = some v) : argument args k = .ok v := by
  rw [argument, h]

/-- An argument is there wherever a parameter is declared. -/
theorem takes (h : List.Forall₂ (NativeValue.Fits isMatrix) types args) {k : Nat} {t : TypeId}
    (ht : types[k]? = some t) :
    Responds nameOf args (fun v => args[k]? = some v ∧ v.Fits isMatrix t) (argument args k) := by
  obtain ⟨v, hv, hfits⟩ := fits_at h ht
  rw [argument_eq hv]
  exact .ok ⟨hv, hfits⟩

/-- An argument is read as its reader answers. -/
theorem responds_argumentAs {read : NativeValue → Except NativeError α} {k : Nat} {v : NativeValue}
    (hv : args[k]? = some v)
    (hread : (∃ a, read v = .ok a ∧ P a) ∨ ∃ e, read v = .error e ∧ Complaint nameOf args e) :
    Responds nameOf args P (argumentAs read args k) := by
  simp only [argumentAs, argument_eq hv, Except.bind, Bind.bind]
  obtain ⟨a, ha, hP⟩ | ⟨e, he, hc⟩ := hread
  · rw [ha]
    exact .ok hP
  · rw [he]
    exact .error hc

/-- **Reading an argument as what is declared succeeds.** -/
theorem reads (c : Content) (h : List.Forall₂ (NativeValue.Fits isMatrix) types args) {k : Nat}
    (ht : types[k]? = some c.typeId) :
    Responds nameOf args (fun _ => True) (argumentAs (c.read nameOf) args k) := by
  obtain ⟨v, hv, hfits⟩ := fits_at h ht
  obtain ⟨a, rfl⟩ := hfits.content c rfl
  exact responds_argumentAs hv (.inl ⟨a, Content.read_give nameOf a, trivial⟩)

end

/-! ## The calculator -/

namespace Calculator

variable {nameOf : TypeId → String} {args : List NativeValue} {isMatrix : InstanceId → Prop}
  {index : Nat} {m : MethodDescriptor}

theorem responds_checked (i : Int) :
    Responds nameOf args (NativeValue.Suits .int) (checked i) := by
  rw [checked]
  split
  · exact .ok (.inr rfl)
  · exact .error (.invocation _)

theorem mismatch_of_toDouble {v : NativeValue} {e : NativeError} (h : v.toDouble nameOf = .error e) :
    e = v.mismatch nameOf .double := by
  rw [NativeValue.toDouble] at h
  cases hd : (v.convert .double).bind NativeValue.asDouble? with
  | some d =>
    rw [hd] at h
    cases h
  | none =>
    rw [hd] at h
    exact (Except.error.inj h).symm

/-- Adding items up stops only at an item that is no number. -/
theorem sumFrom_cases (nameOf : TypeId → String) (items : List NativeValue) (total : Float) :
    (∃ d, sumFrom nameOf total items = .ok d) ∨ ∃ v ∈ items,
      v.toDouble nameOf = .error (v.mismatch nameOf .double) ∧
      sumFrom nameOf total items = .error (v.mismatch nameOf .double) := by
  induction items generalizing total with
  | nil => exact .inl ⟨total, rfl⟩
  | cons v rest ih =>
    rw [sumFrom]
    cases hv : v.toDouble nameOf with
    | error e =>
      obtain rfl := mismatch_of_toDouble hv
      exact .inr ⟨v, List.mem_cons_self, hv, rfl⟩
    | ok d => exact (ih (total + d)).imp_right fun ⟨u, hu, h⟩ => ⟨u, List.mem_cons_of_mem _ hu, h⟩

theorem responds_sum (h : List.Forall₂ (NativeValue.Fits isMatrix) [.list] args) :
    Responds nameOf args (fun _ => True)
      (argumentAs (fun v => do sumFrom nameOf 0.0 (← v.toItems nameOf)) args 0) := by
  obtain ⟨v, hv, hfits⟩ := fits_at h (k := 0) rfl
  obtain ⟨items, rfl⟩ := hfits.content .items rfl
  refine responds_argumentAs hv ?_
  obtain ⟨d, hd⟩ | ⟨u, hu, hitem, he⟩ := sumFrom_cases nameOf items 0.0
  · exact .inl ⟨d, hd, trivial⟩
  · exact .inr ⟨_, he, .item (List.mem_of_getElem? hv) hu hitem⟩

theorem responds_evaluate (hm : descriptor.methods[index]? = some m) (hs : m.isStatic = false)
    (h : List.Forall₂ (NativeValue.Fits isMatrix) m.parameters args) :
    Responds nameOf args (fun r => r.1.Suits m.returns) (evaluate nameOf index args) := by
  match index, hm with
  | 0, hm =>
    obtain rfl := Option.some.inj hm
    exact (reads .int h rfl).bind fun a _ => (reads .int h rfl).bind fun b _ =>
      (responds_checked _).bind fun v hv => .ok hv
  | 1, hm =>
    obtain rfl := Option.some.inj hm
    exact (reads .int h rfl).bind fun a _ => (reads .int h rfl).bind fun b _ =>
      (responds_checked _).bind fun v hv => .ok hv
  | 2, hm =>
    obtain rfl := Option.some.inj hm
    refine (reads .double h rfl).bind fun a _ => (reads .double h rfl).bind fun b _ => ?_
    dsimp only
    split
    · exact .error (.invocation _)
    · exact .ok (.inr rfl)
  | 3, hm =>
    obtain rfl := Option.some.inj hm
    exact (reads .text h rfl).bind fun a _ => (reads .text h rfl).bind fun b _ => .ok (.inr rfl)
  | 4, hm =>
    obtain rfl := Option.some.inj hm
    exact (responds_sum h).bind fun d _ => .ok (.inr rfl)
  | 5, hm =>
    obtain rfl := Option.some.inj hm
    exact (takes h rfl).bind fun v _ => .ok (.inl rfl)
  | 6, hm =>
    obtain rfl := Option.some.inj hm
    cases hs
  | n + 7, hm => cases hm

/-- **A calculator does what it declares.** -/
theorem responds (c : Calculator) (hm : descriptor.methods[index]? = some m) (hs : m.isStatic = false)
    (h : List.Forall₂ (NativeValue.Fits isMatrix) m.parameters args) :
    Responds nameOf args (NativeValue.Suits m.returns) (c.invoke nameOf index args).1 := by
  have he : Responds nameOf args (fun r => r.1.Suits m.returns) (evaluate nameOf index args) :=
    responds_evaluate hm hs h
  rw [invoke]
  cases hr : evaluate nameOf index args with
  | ok r =>
    obtain ⟨v, kept⟩ := r
    rw [hr] at he
    cases he with
    | ok hv => cases kept <;> exact .ok hv
  | error f =>
    rw [hr] at he
    cases he with
    | error hc => exact .error hc

theorem responds_static (hm : descriptor.methods[index]? = some m) (hs : m.isStatic = true)
    (h : List.Forall₂ (NativeValue.Fits isMatrix) m.parameters args) :
    Responds nameOf args (NativeValue.Suits m.returns) (invokeStatic nameOf index args) := by
  match index, hm with
  | 6, hm =>
    obtain rfl := Option.some.inj hm
    exact (reads .int h rfl).bind fun n _ => responds_checked _
  | 0, hm | 1, hm | 2, hm | 3, hm | 4, hm | 5, hm =>
    obtain rfl := Option.some.inj hm
    cases hs
  | n + 7, hm => cases hm

/-- Every property of a calculator has a value of its declared type. -/
theorem suits_read (c : Calculator) {p : PropertyDescriptor}
    (hp : descriptor.properties[index]? = some p) :
    ∃ v, c.read index = some v ∧ (v.convert p.type).isSome := by
  match index, hp with
  | 0, hp | 1, hp =>
    obtain rfl := Option.some.inj hp
    exact ⟨_, rfl, rfl⟩
  | 2, hp =>
    obtain rfl := Option.some.inj hp
    exact ⟨_, rfl, by rw [NativeValue.convert_toVariant]; rfl⟩
  | n + 3, hp => cases hp

/-- A call counts, however it ends. -/
theorem calls_invoke (c : Calculator) (index : Nat) (args : List NativeValue) :
    (c.invoke nameOf index args).2.calls = c.calls + 1 := by
  rw [invoke]
  dsimp only
  split <;> rfl

end Calculator

/-! ## Matrices -/

namespace Matrix

variable {nameOf : TypeId → String} {args : List NativeValue} {isMatrix : InstanceId → Prop}
  {index : Nat} {m : MethodDescriptor}

/-- A sample is a number; a coordinate without one is refused. -/
theorem sampleAt_cases (x : Matrix) (row col channel : Int32) :
    (∃ i, x.sampleAt row col channel = .ok (.int i)) ∨
      ∃ text, text ≠ "expected a Matrix" ∧ x.sampleAt row col channel = .error (.argument text) := by
  unfold sampleAt
  dsimp only
  split
  · exact .inl ⟨_, rfl⟩
  · exact .inr ⟨_, append_ne_of_last (c := 's') (by decide) (by decide), rfl⟩

/-- **A matrix does what it declares.** -/
theorem responds (x : Matrix) (hm : descriptor.methods[index]? = some m)
    (h : List.Forall₂ (NativeValue.Fits isMatrix) m.parameters args) :
    Responds nameOf args (NativeValue.Suits m.returns) (x.invoke nameOf index args) := by
  match index, hm with
  | 0, hm | 1, hm | 2, hm =>
    obtain rfl := Option.some.inj hm
    exact .ok (.inr rfl)
  | 3, hm =>
    obtain rfl := Option.some.inj hm
    refine (reads .int h rfl).bind fun row _ => (reads .int h rfl).bind fun col _ =>
      (reads .int h rfl).bind fun channel _ => ?_
    obtain ⟨i, hi⟩ | ⟨text, htext, he⟩ := x.sampleAt_cases row col channel
    · rw [hi]
      exact .ok (.inr rfl)
    · rw [he]
      exact .refusal htext
  | n + 4, hm => cases hm

theorem suits_read (x : Matrix) {p : PropertyDescriptor}
    (hp : descriptor.properties[index]? = some p) :
    ∃ v, x.read index = some v ∧ (v.convert p.type).isSome := by
  match index, hp with
  | 0, hp =>
    obtain rfl := Option.some.inj hp
    exact ⟨_, rfl, rfl⟩
  | n + 1, hp => cases hp

end Matrix

/-! ## Imaging -/

namespace Imaging

variable {nameOf : TypeId → String} {args : List NativeValue} {matrixOf : InstanceId → Option Matrix}
  {storage index : Nat} {m : MethodDescriptor}

/-- What a request gives is of the declared type. -/
inductive Request.Suits : TypeId → Request → Prop where
  | create (x : Matrix) : Suits ClassKey.matrix.typeId (.create x)
  | schedule (work : Work) : Suits .deferred (.schedule work)

theorem responds_sampleCount (rows cols channels : Nat) :
    Responds nameOf args (fun _ => True) (failing (Matrix.sampleCount rows cols channels)) := by
  rw [Matrix.sampleCount]
  split
  · exact .ok trivial
  · exact .refusal (append_ne_of_last (c := 's') (by decide) (by decide))

theorem responds_require (condition : Bool) {text : String} (h : text ≠ "expected a Matrix") :
    Responds nameOf args (fun _ => True) (require condition text) := by
  cases condition with
  | true => exact .ok trivial
  | false => exact .refusal h

theorem failing_bind {α β : Type} (x : Except NativeError α) (f : α → Except NativeError β) :
    failing (x >>= f) = failing x >>= fun a => failing (f a) := by
  cases x <;> rfl

theorem responds_checkShape (rows cols format : Int) :
    Responds nameOf args (fun _ => True) (failing (Matrix.checkShape rows cols format)) := by
  rw [Matrix.checkShape]
  split
  · refine .refusal ?_
    rw [String.append_assoc, String.append_assoc]
    exact append_ne_of_head (c := 'n') (by decide) (by decide)
  split
  · exact .ok trivial
  · exact .refusal (append_ne_of_head (c := 'u') (by decide) (by decide))

theorem responds_filled (rows cols format : Int) (fill : UInt8) :
    Responds nameOf args (fun _ => True) (failing (Matrix.filled storage rows cols format fill)) := by
  rw [Matrix.filled, failing_bind]
  refine (responds_checkShape rows cols format).bind fun shape _ => ?_
  dsimp only
  rw [failing_bind]
  exact (responds_sampleCount _ _ _).bind fun _ _ => .ok trivial

theorem responds_create (fill : UInt8)
    (h : List.Forall₂ (NativeValue.Fits fun inst => (matrixOf inst).isSome) [.int, .int, .int] args) :
    Responds nameOf args (Request.Suits ClassKey.matrix.typeId) (create nameOf storage fill args) :=
  (reads .int h rfl).bind fun _ _ => (reads .int h rfl).bind fun _ _ =>
    (reads .int h rfl).bind fun _ _ => (responds_filled _ _ _ _).bind fun x _ => .ok (.create x)

/-- **Imaging does what it declares.** -/
theorem responds (hm : (descriptor ClassKey.matrix.typeId).methods[index]? = some m)
    (h : List.Forall₂ (NativeValue.Fits fun inst => (matrixOf inst).isSome) m.parameters args) :
    Responds nameOf args (Request.Suits m.returns) (request nameOf matrixOf storage index args) := by
  match index, hm with
  | 0, hm | 1, hm =>
    obtain rfl := Option.some.inj hm
    exact responds_create _ h
  | 2, hm =>
    obtain rfl := Option.some.inj hm
    refine (takes h rfl).bind fun v ⟨_, hv⟩ => ?_
    obtain ⟨inst, rfl, hmatrix⟩ := hv.matrix rfl
    obtain ⟨source, hsource⟩ := Option.isSome_iff_exists.1 hmatrix
    simp only [NativeValue.unwrap, NativeValue.asObject?, Option.bind_some, hsource]
    refine (reads .int h rfl).bind fun width _ => (reads .int h rfl).bind fun height _ =>
      (reads .int h rfl).bind fun code _ => ?_
    refine (responds_require _ ?_).bind fun _ _ => (responds_require _ ?_).bind fun _ _ =>
      (responds_sampleCount _ _ _).bind fun _ _ => .ok (.schedule _)
    · rw [String.append_assoc, String.append_assoc]
      exact append_ne_of_head (c := 'i') (by decide) (by decide)
    · exact append_ne_of_head (c := 'u') (by decide) (by decide)
  | 3, hm =>
    obtain rfl := Option.some.inj hm
    exact (reads .text h rfl).bind fun path _ => .ok (.schedule _)
  | n + 4, hm => cases hm

end Imaging

/-! ## Tickers -/

namespace Ticker

variable {nameOf : TypeId → String} {args : List NativeValue} {isMatrix : InstanceId → Prop}
  {index : Nat} {m : MethodDescriptor}

/-- **A ticker does what it declares.** -/
theorem responds (hm : descriptor.methods[index]? = some m) (hk : m.isEvent = false)
    (h : List.Forall₂ (NativeValue.Fits isMatrix) m.parameters args) :
    m.returns = .void ∧ Responds nameOf args (fun _ => True) (request nameOf index args) := by
  match index, hm with
  | 0, hm =>
    obtain rfl := Option.some.inj hm
    exact ⟨rfl, .ok trivial⟩
  | 1, hm =>
    obtain rfl := Option.some.inj hm
    refine ⟨rfl, (reads .int h rfl).bind fun steps _ => ?_⟩
    dsimp only
    split
    · exact .refusal (append_ne_of_head (c := 'n') (by decide) (by decide))
    · exact .ok trivial
  | 2, hm | 3, hm =>
    obtain rfl := Option.some.inj hm
    cases hk
  | n + 4, hm => cases hm

end Ticker

end Isthmus
