import Isthmus.Proofs.Run.Conserve
import Isthmus.Proofs.Values.Infer

/-!
# Proofs/Values/Probe — asking for a conversion and converting agree

`Reachable.converts_iff`: with the built-in conversions and those of any classes, a value of one context
converts to a type just in case the probe says so, the result is a tidy value of that very type, and
neither the probe nor the conversion changes anything.

`Registry.withClasses_of_ofSettings` and `Registry.withClasses_of_ofSpec` say which registries those are: the
one of the library under any configuration, and those of scripts that add no conversions of their own.
-/

namespace Isthmus

/-! ## Registries -/

/-- The type whose values a conversion gives, among the built-in conversions and those of classes. -/
def Decoder.target? : Decoder → Option TypeId
  | .bool => some .bool
  | .int => some .int
  | .double => some .double
  | .string => some .string
  | .buffer => some .buffer
  | .instance cls => some cls.typeId
  | .nil => none

namespace Registry

/-- Each conversion to the native side gives values of the type that it is registered for, whenever its
probe says so. -/
def Exact (r : Registry) : Prop :=
  ∀ t d, r.decoder? t = some d → d.target? = some t

/-- The built-in conversions and those of some classes, with any settings. -/
def withClasses (plans : Plans) (keys : List ClassKey) (limit : Nat) (dynamic : List TypeId) :
    Registry :=
  keys.foldl (withClass plans) { base with maxBufferLength := limit, dynamicTypes := dynamic }

variable {plans : Plans} {keys : List ClassKey} {limit : Nat} {dynamic : List TypeId}

/-- What all registries of a fold have in common. -/
theorem foldl_withClass {P : Registry → Prop} (step : ∀ r key, P r → P (withClass plans r key))
    {r : Registry} (hr : P r) (keys : List ClassKey) : P (keys.foldl (withClass plans) r) := by
  induction keys generalizing r with
  | nil => exact hr
  | cons key keys ih => exact ih (step r key hr)

/-- Each conversion gives values of the type that it is registered for. -/
theorem target_of_decoder {t : TypeId} {d : Decoder}
    (h : (withClasses plans keys limit dynamic).decoder? t = some d) : d.target? = some t := by
  have hbase : ∀ e ∈ base.decoders, e.2.target? = some e.1 := by decide
  have hall : ∀ e ∈ (withClasses plans keys limit dynamic).decoders, e.2.target? = some e.1 := by
    refine foldl_withClass (P := fun r => ∀ e ∈ r.decoders, e.2.target? = some e.1)
      (r := { base with maxBufferLength := limit, dynamicTypes := dynamic })
      (fun r key hr e he => ?_) hbase keys
    obtain rfl | he := List.mem_cons.1 he
    · rfl
    · exact hr e (List.mem_filter.1 he).1
  rw [decoder?, Option.map_eq_some_iff] at h
  obtain ⟨e, he, rfl⟩ := h
  rw [hall e (List.mem_of_find?_eq_some he)]
  simpa using List.find?_some he

theorem exact_withClasses : (withClasses plans keys limit dynamic).Exact :=
  fun _ _ => target_of_decoder

/-- Settings add no conversions. -/
theorem base_of_withSettings {lookup : String → Option TypeId} {s : Config.ConversionSettings}
    {r : Registry} (h : base.withSettings lookup s = .ok r) :
    ∃ dynamic, r = { base with maxBufferLength := s.maxBufferLength, dynamicTypes := dynamic } := by
  obtain ⟨dynamic, -, rfl⟩ := ok_of_map h
  exact ⟨dynamic, rfl⟩

/-- **The registry of the library** has the built-in conversions and those of its classes. -/
theorem withClasses_of_ofSettings {lookup : String → Option TypeId} {s : Config.ConversionSettings}
    {r : Registry} (h : ofSettings lookup plans s = .ok r) :
    ∃ dynamic, r = withClasses plans ClassKey.library s.maxBufferLength dynamic := by
  obtain ⟨r₀, hr₀, rfl⟩ := ok_of_map h
  obtain ⟨dynamic, rfl⟩ := base_of_withSettings hr₀
  exact ⟨dynamic, rfl⟩

/-- A configuration changes settings of the built-in conversions only. -/
theorem ofConfig_cases {config : Option String} {r : Registry} (h : ofConfig config = .ok r) :
    r = base ∨ ∃ lookup s, base.withSettings lookup s = .ok r := by
  cases config with
  | none =>
    cases h
    exact .inl rfl
  | some text =>
    rw [ofConfig] at h
    cases hp : Config.Settings.parse text with
    | error e =>
      rw [hp] at h
      cases h
    | ok s =>
      rw [hp] at h
      exact .inr ⟨_, s.conversion, h⟩

/-- **A script that asks for no conversions of its own** gets the built-in ones and those of the classes that it
names. -/
theorem withClasses_of_ofSpec {spec : Script.RegistrySpec} {r : Registry} (h : ofSpec plans spec = .ok r)
    (hvoid : spec.voidAsNil = false) (hbuffer : spec.bufferAsLength = false)
    (hstring : spec.stringThrows = false) :
    ∃ limit dynamic, r = withClasses plans spec.classes limit dynamic := by
  obtain ⟨r₀, hr₀, rfl⟩ := ok_of_map h
  have hbase : ∃ limit dynamic, r₀ = { base with maxBufferLength := limit, dynamicTypes := dynamic } := by
    obtain rfl | ⟨_, s, hs⟩ := ofConfig_cases hr₀
    · exact ⟨_, _, rfl⟩
    · obtain ⟨dynamic, hr⟩ := base_of_withSettings hs
      exact ⟨_, dynamic, hr⟩
  obtain ⟨limit, dynamic, rfl⟩ := hbase
  simp only [withSpec, hvoid, hbuffer, hstring, Bool.false_eq_true, if_false]
  cases spec.maxBufferLength <;> cases spec.dynamic <;> exact ⟨_, _, rfl⟩

end Registry

/-! ## Probes -/

namespace World

variable {w : World} {cx : ContextId}

theorem clean_handleFor {cls : ClassKey} {v : ForeignValue} (hv : w.Within cx v) :
    Clean (w.handleFor cx cls v) := by
  cases v with
  | object id =>
    refine .bind (clean_boundHandle fun o ho => hv.context ho) fun h => ?_
    split
    · exact .ok h
    · exact .refused
  | _ => exact .refused

theorem Within.itemsOf {v : ForeignValue} (hv : w.Within cx v) {items}
    (hi : w.itemsOf v = some items) : ∀ u ∈ items, w.Within cx u := by
  cases v with
  | object id =>
    obtain ⟨o, ho, hitems⟩ := Option.bind_eq_some_iff.1 hi
    cases hk : o.kind with
    | array items' =>
      rw [Object.items?, hk] at hitems
      cases hitems
      exact hv.items ho hk
    | _ =>
      rw [Object.items?, hk] at hitems
      cases hitems
  | _ => cases hi

theorem cls_of_handleFor {cls : ClassKey} {v : ForeignValue} {h : Handle}
    (hh : w.handleFor cx cls v = .ok h) : h.cls = cls := by
  cases v with
  | object id =>
    rw [handleFor] at hh
    cases hb : w.boundHandle cx id with
    | error e =>
      rw [hb] at hh
      cases hh
    | ok handle =>
      rw [hb] at hh
      by_cases hc : handle.cls = cls
      · have hh : (if handle.cls = cls then .ok handle else .error .notConvertible) =
          (.ok h : Except Refusal Handle) := hh
        rw [if_pos hc] at hh
        cases hh
        exact hc
      · have hh : (if handle.cls = cls then .ok handle else .error .notConvertible) =
          (.ok h : Except Refusal Handle) := hh
        rw [if_neg hc] at hh
        cases hh
  | _ => cases hh

/-- What a conversion gives for a type. -/
structure Fits (t : TypeId) (n : NativeValue) : Prop where
  typeId_eq : n.typeId = t
  tidy : n.Tidy

theorem Fits.plain {t : TypeId} {n : NativeValue} (ht : n.typeId = t) (hl : ∀ items, n ≠ .list items)
    (hv : ∀ content, n ≠ .variant content) : Fits t n :=
  ⟨ht, .plain hl hv⟩

/-- The probe lets through what converts, and what it converts to is of the type. -/
structure Agrees (t : TypeId) (probe : Except Refusal Bool) (x : Except Refusal NativeValue) :
    Prop where
  clean : Clean x
  probed : ∃ b, probe = .ok b ∧ (b = true ↔ ∃ n, x = .ok n)
  fits : ∀ n, x = .ok n → Fits t n

theorem Agrees.given {α : Type} {t : TypeId} {f : α → NativeValue} (o : Option α)
    (hf : ∀ a, Fits t (f a)) : Agrees t (.ok o.isSome) (World.given (o.map f)) := by
  cases o with
  | none =>
    refine ⟨.refused, ⟨false, rfl, by simp [World.given]⟩, fun n h => ?_⟩
    cases h
  | some a =>
    refine ⟨.ok (f a), ⟨true, rfl, by simp [World.given]⟩, fun n h => ?_⟩
    cases h
    exact hf a

theorem agrees_decoder {d : Decoder} {t : TypeId} (hd : d.target? = some t) {v : ForeignValue}
    (hv : w.Within cx v) : Agrees t (w.probe cx d v) (w.decode cx d v) := by
  cases d with
  | bool =>
    cases hd
    exact .given v.asBool? fun _ => .plain rfl (by simp) (by simp)
  | int =>
    cases hd
    exact .given (v.asNumber?.bind Number.int32?) fun _ => .plain rfl (by simp) (by simp)
  | double =>
    cases hd
    exact .given v.asNumber? fun _ => .plain rfl (by simp) (by simp)
  | string =>
    cases hd
    exact .given v.asString? fun _ => .plain rfl (by simp) (by simp)
  | buffer =>
    cases hd
    exact .given (w.bufferOf v) fun _ => .plain rfl (by simp) (by simp)
  | nil => cases hd
  | «instance» cls =>
    cases hd
    have hclean : Clean (w.handleFor cx cls v) := clean_handleFor hv
    obtain ⟨h, hh⟩ | hh := hclean.cases
    · rw [probe, decode, hh]
      refine ⟨.ok _, ⟨true, rfl, by simp⟩, fun n hn => ?_⟩
      cases hn
      rw [← cls_of_handleFor hh]
      exact ⟨rfl, (Inferred.nativeValue h).tidy⟩
    · rw [probe, decode, hh]
      refine ⟨.refused, ⟨false, rfl, by simp⟩, fun n hn => ?_⟩
      cases hn

theorem exists_ok_map {ε α β : Type} {f : α → β} {x : Except ε α} :
    (∃ b, (x >>= fun a => pure (f a)) = .ok b) ↔ ∃ a, x = .ok a := by
  constructor
  · rintro ⟨b, h⟩
    obtain ⟨a, ha, -⟩ := ok_of_map h
    exact ⟨a, ha⟩
  · rintro ⟨a, rfl⟩
    exact ⟨f a, rfl⟩

theorem mapM_ok_iff {ε α β : Type} {f : α → Except ε β} {l : List α} :
    (∃ bs, l.mapM f = .ok bs) ↔ ∀ a ∈ l, ∃ b, f a = .ok b := by
  induction l with
  | nil => exact iff_of_true ⟨[], rfl⟩ (by simp)
  | cons a l ih =>
    rw [List.forall_mem_cons, ← ih, List.mapM_cons]
    constructor
    · rintro ⟨bs, h⟩
      cases ha : f a with
      | error e =>
        rw [ha] at h
        cases h
      | ok b =>
        rw [ha] at h
        cases hl : l.mapM f with
        | error e =>
          rw [hl] at h
          cases h
        | ok rest => exact ⟨⟨b, rfl⟩, rest, rfl⟩
    · rintro ⟨⟨b, hb⟩, rest, hl⟩
      exact ⟨b :: rest, by rw [hb, hl]; rfl⟩

theorem agrees_variant (hn : w.Nested) {v : ForeignValue} (hv : w.Within cx v) :
    Agrees .variant (answer (w.infer cx v)) (do return (← w.infer cx v).toVariant) := by
  obtain ⟨n, h⟩ | h := (clean_infer hn hv).cases
  · rw [h]
    refine ⟨.ok _, ⟨true, rfl, by simp⟩, fun m hm => ?_⟩
    cases hm
    obtain ⟨htidy, content, hc⟩ := (inferred h).toVariant
    exact ⟨by rw [hc]; rfl, htidy⟩
  · rw [h]
    refine ⟨.refused, ⟨false, rfl, by simp⟩, fun m hm => ?_⟩
    cases hm

/-- The probe of a list asks each item. -/
theorem inferAll_clean {items : List ForeignValue} (h : ∀ v ∈ items, Clean (w.infer cx v)) :
    ∃ b, w.inferAll cx items = .ok b ∧ (b = true ↔ ∀ v ∈ items, ∃ n, w.infer cx v = .ok n) := by
  induction items with
  | nil => exact ⟨true, rfl, by simp⟩
  | cons v items ih =>
    obtain ⟨b, hb, hall⟩ := ih fun v hv => h v (List.mem_cons_of_mem _ hv)
    obtain ⟨n, hn⟩ | hn := (h v (List.mem_cons_self ..)).cases
    · refine ⟨b, ?_, by simp [hn, hall]⟩
      rw [inferAll, hn]
      exact hb
    · refine ⟨false, ?_, by simp [hn]⟩
      rw [inferAll, hn]
      rfl

theorem agrees_list (hn : w.Nested) {items : List ForeignValue} (hv : ∀ v ∈ items, w.Within cx v) :
    Agrees .list (w.inferAll cx items) (do
      return .list (← items.mapM fun item => do return (← w.infer cx item).toVariant)) := by
  have hclean (v) (h : v ∈ items) : Clean (w.infer cx v) := clean_infer hn (hv v h)
  have hitem (v) (h : v ∈ items) : Clean (do return (← w.infer cx v).toVariant) :=
    (hclean v h).bind fun _ => .ok _
  refine ⟨(Clean.mapM hitem).bind fun _ => .ok _, ?_, fun n h => ?_⟩
  · obtain ⟨b, hb, hall⟩ := inferAll_clean hclean
    refine ⟨b, hb, ?_⟩
    rw [hall, exists_ok_map, mapM_ok_iff]
    exact forall₂_congr fun v _ => exists_ok_map.symm
  · obtain ⟨values, hm, rfl⟩ := ok_of_map h
    have hlist : Inferred (.list values) := .list fun v hv => by
      obtain ⟨item, -, hf⟩ := mapM_ok hm v hv
      obtain ⟨x, hi, rfl⟩ := ok_of_map hf
      exact ⟨x, inferred hi, rfl⟩
    exact ⟨rfl, hlist.tidy⟩

/-- A probe and a conversion that agree answer both. -/
theorem Agrees.answers {t : TypeId} {probe : Except Refusal Bool} {x : Except Refusal NativeValue}
    (h : Agrees t probe x) : ∃ b result, probe = .ok b ∧ converted t x = .ok result ∧
      (b = true ↔ ∃ n, result = .ok n) ∧ ∀ n, result = .ok n → Fits t n := by
  obtain ⟨hclean, ⟨b, hb, hiff⟩, hfits⟩ := h
  obtain ⟨n, rfl⟩ | rfl := hclean.cases
  · refine ⟨b, .ok n, hb, rfl, by simpa using hiff, fun m hm => ?_⟩
    cases hm
    exact hfits n rfl
  · exact ⟨b, .error (.notConvertible (ClassKey.typeName t)), hb, rfl, by simpa using hiff, by simp⟩

theorem answers_of_exact {registry : Registry} (hr : registry.Exact) (hn : w.Nested) {v : ForeignValue}
    (hv : w.Within cx v) (t : TypeId) :
    ∃ b result, w.canFromForeign cx registry v t = .ok b ∧
      w.fromForeign cx registry v t = .ok result ∧
      (b = true ↔ ∃ n, result = .ok n) ∧ ∀ n, result = .ok n → Fits t n := by
  rw [canFromForeign, fromForeign]
  by_cases hvariant : t = .variant
  · subst hvariant
    rw [if_pos rfl, if_pos rfl]
    exact (agrees_variant hn hv).answers
  by_cases hlist : t = .list
  · subst hlist
    rw [if_neg (by decide), if_pos rfl, if_neg (by decide), if_pos rfl]
    cases hi : w.itemsOf v with
    | none => exact ⟨false, .error (.notConvertible (ClassKey.typeName .list)), rfl, rfl, by simp, by simp⟩
    | some items =>
      exact (agrees_list hn (hv.itemsOf hi)).answers
  rw [if_neg hvariant, if_neg hlist, if_neg hvariant, if_neg hlist]
  cases hd : registry.decoder? t with
  | none => exact ⟨false, .error (.noConverter (ClassKey.typeName t) false), rfl, rfl, by simp, by simp⟩
  | some d =>
    have hagrees := agrees_decoder (hr t d hd) hv
    obtain ⟨b, hb, hiff⟩ := hagrees.probed
    have hx : (do if ← w.probe cx d v then w.decode cx d v else .error .notConvertible) =
        w.decode cx d v := by
      rw [hb]
      obtain ⟨n, hn⟩ | hn := hagrees.clean.cases
      · rw [hiff.2 ⟨n, hn⟩]
        rfl
      · cases b with
        | true => rfl
        | false => exact hn.symm
    simp only [hx]
    exact hagrees.answers

theorem answers (hn : w.Nested) {v : ForeignValue} (hv : w.Within cx v) (plans : Plans)
    (keys : List ClassKey) (limit : Nat) (dynamic : List TypeId) (t : TypeId) :
    let registry := Registry.withClasses plans keys limit dynamic
    ∃ b result, w.canFromForeign cx registry v t = .ok b ∧
      w.fromForeign cx registry v t = .ok result ∧
      (b = true ↔ ∃ n, result = .ok n) ∧ ∀ n, result = .ok n → Fits t n :=
  answers_of_exact Registry.exact_withClasses hn hv t

end World

/-- **Asking and converting agree**: with the built-in conversions and those of any classes, whatever
the type.  Both answer and leave the world as it is; the probe says yes just in case the conversion
succeeds, and then the result is tidy and of the type.  How deep to look into arrays does not matter. -/
theorem Reachable.converts_iff {w : World} (h : Reachable w) {cx : ContextId} {v : ForeignValue}
    (hv : w.Within cx v) (plans : Plans) (keys : List ClassKey) (limit : Nat) (dynamic : List TypeId)
    (t : TypeId) :
    let registry := Registry.withClasses plans keys limit dynamic
    (∃ answer result, (Engine.canFromForeign cx registry v t).run w = .ok answer w ∧
      (Engine.fromForeign cx registry v t).run w = .ok result w ∧
      (answer = true ↔ ∃ n, result = .ok n) ∧ ∀ n, result = .ok n → World.Fits t n) ∧
    ∀ depth, w.objects.size < depth → w.inferWithin cx depth v = w.infer cx v := by
  intro registry
  obtain ⟨answer, result, hprobe, hresult, hiff, hfits⟩ :=
    World.answers h.nested hv plans keys limit dynamic t
  refine ⟨⟨answer, result, ?_, ?_, hiff, hfits⟩, fun depth hd => World.inferWithin_eq_infer h.nested hd v⟩
  · rw [Engine.canFromForeign, Engine.run_get_bind, hprobe]
    rfl
  · rw [Engine.fromForeign, Engine.run_get_bind, hresult]
    rfl

namespace Probing

/-- A world with one object more. -/
def add (w : World) (kind : ObjectKind) : World :=
  { w with objects := w.objects.insert { context := ⟨0⟩, kind } }

theorem reachable_add {w : World} (h : Reachable w) {kind : ObjectKind}
    (hk : ∀ items, kind = .array items → ∀ p, .object p ∈ items → p.index < w.objects.next) :
    Reachable (add w kind) :=
  h.moves (.single (.quiet (.of_frame (.insert _ _ hk) rfl)))

/-- An array in an array, and an array with an object that is nothing on the native side. -/
def arrays : World :=
  add (add (add (add World.hosted .ordinary) (.array [.null, .string "inner"]))
    (.array [.bool true, .object ⟨1⟩])) (.array [.bool true, .object ⟨0⟩])

theorem reachable_arrays : Reachable arrays := by
  refine reachable_add (reachable_add (reachable_add (reachable_add reachable_hosted ?_) ?_) ?_) ?_
  · simp
  · rintro _ ⟨⟩ p hp
    simp at hp
  · rintro _ ⟨⟩ p hp
    obtain rfl : p = ⟨1⟩ := by simpa using hp
    decide
  · rintro _ ⟨⟩ p hp
    obtain rfl : p = ⟨0⟩ := by simpa using hp
    decide

theorem within_arrays (v : ForeignValue) : arrays.Within ⟨0⟩ v := by
  refine reachable_arrays.nested.within (fun id o ho => ?_) v
  have hall : ∀ e ∈ arrays.objects.entries, e.2.context = ⟨0⟩ := by decide
  exact hall _ (Store.get?_eq_some_iff.1 ho)

end Probing

/-- The array in an array converts to a list; the array with the object does not. -/
theorem converts_of_arrays :
    ((Engine.canFromForeign ⟨0⟩ (.withClasses {} [.calculator] 10 []) (.object ⟨2⟩) .list).run
        Probing.arrays = .ok true Probing.arrays ∧
      ∃ n, (Engine.fromForeign ⟨0⟩ (.withClasses {} [.calculator] 10 []) (.object ⟨2⟩) .list).run
        Probing.arrays = .ok (.ok n) Probing.arrays ∧ World.Fits .list n) ∧
    (Engine.canFromForeign ⟨0⟩ (.withClasses {} [.calculator] 10 []) (.object ⟨3⟩) .list).run
        Probing.arrays = .ok false Probing.arrays := by
  obtain ⟨⟨answer, result, hprobe, hresult, hiff, hfits⟩, -⟩ :=
    Probing.reachable_arrays.converts_iff (Probing.within_arrays (.object ⟨2⟩)) {} [.calculator] 10 []
      .list
  obtain rfl : true = answer := by
    have h : (Engine.canFromForeign ⟨0⟩ (.withClasses {} [.calculator] 10 []) (.object ⟨2⟩) .list).run
        Probing.arrays = .ok true Probing.arrays := rfl
    cases h.symm.trans hprobe
    rfl
  obtain ⟨n, rfl⟩ := hiff.1 rfl
  exact ⟨⟨hprobe, n, hresult, hfits n rfl⟩, rfl⟩

end Isthmus
