import Frust.Proofs.Kernel.Literals
import Frust.Proofs.Kernel.Wire

/-!
# `Frust.Proofs.Kernel.Decoding`: what a decoded JSON value means

`parse_value` reads plain JSON as the value that it looks like, and an envelope as the value of the
kind that it names. `Means` says which values JSON stands for: itself, or the payload of an envelope
that has a kind, a payload of that kind and nothing else. JSON with an envelope of an unknown kind
stands for nothing, wherever the envelope is.

The decoder never fails on what it takes for an envelope of a known kind: a payload of another type
is replaced by a default, and what else the object has is lost. Below the top it does not refuse an
unknown kind either. `decodesExactly_iff` says on which JSON none of this happens.
-/

set_option autoImplicit false

namespace Frust.Kernel

/-- The kinds of envelopes. -/
def valueKinds : List String :=
  ["null", "bool", "int", "float", "decimal", "text", "datetime", "duration", "record"]

/-- The value that an envelope stands for, with a payload of its kind. A float is its printed
text. -/
inductive Payload : String → Json → Value → Prop
  | null : Payload "null" .null .null
  | bool (b : Bool) : Payload "bool" (.bool b) (.bool b)
  | int (i : Int) : Payload "int" (.int i) (.int i)
  | float (text : String) : Payload "float" (.float text) (.float text)
  | floatInt (i : Int) : Payload "float" (.int i) (.float (toString i))
  | decimal (s : String) : Payload "decimal" (.string s) (.decimal s)
  | decimalInt (i : Int) : Payload "decimal" (.int i) (.decimal (toString i))
  | decimalFloat (text : String) : Payload "decimal" (.float text) (.decimal text)
  | text (s : String) : Payload "text" (.string s) (.text s)
  | datetime (s : String) : Payload "datetime" (.string s) (.datetime s)
  | duration (s : String) : Payload "duration" (.string s) (.duration s)
  | record (s : String) : Payload "record" (.string s) (.recordId s)

mutual

/-- The values that JSON stands for. -/
def Means : Json → Value → Prop
  | .null, x => x = .null
  | .bool b, x => x = .bool b
  | .int i, x => x = .int i ∨ x = .float (toString i)
  | .float text, x => x = .float text
  | .string s, x => x = .text s
  | .array items, x => ∃ xs, x = .list xs ∧ MeansItems items xs
  | .object es, x =>
      (∀ kind v, envelopeParts (.object es) = some (kind, v) → kind ∈ valueKinds) ∧
      ((∃ ys, x = .object ys ∧ MeansEntries es ys) ∨
        ∃ kind v, envelopeParts (.object es) = some (kind, v) ∧ es.length = 2 ∧ Payload kind v x)

/-- Item by item. -/
def MeansItems : List Json → List Value → Prop
  | [], xs => xs = []
  | j :: rest, xs => ∃ y ys, xs = y :: ys ∧ Means j y ∧ MeansItems rest ys

/-- Entry by entry, under the same keys. -/
def MeansEntries : List (String × Json) → List (String × Value) → Prop
  | [], xs => xs = []
  | (k, j) :: rest, xs => ∃ y ys, xs = (k, y) :: ys ∧ Means j y ∧ MeansEntries rest ys

end

/-- What is accepted is decoded as something that the JSON stands for. -/
def DecodesExactly (j : Json) : Prop := ∀ x, parseValue j = .ok x → Means j x

/-! ### JSON that is decoded as what it is -/

/-- A payload of the kind: an integer in the 64 signed bits, or for a float one that is a double. -/
def fitsKind (kind : String) : Json → Bool
  | .null => kind = "null"
  | .bool _ => kind = "bool"
  | .int i =>
      (kind = "int" ∧ (Json.int i).asI64.isSome) ∨ kind = "decimal" ∨
        (kind = "float" ∧ Json.double i = i)
  | .float _ => kind = "float" ∨ kind = "decimal"
  | .string _ => kind ∈ ["decimal", "text", "datetime", "duration", "record"]
  | .array _ | .object _ => false

mutual

/-- At every depth the integers keep to the 64 signed bits or are doubles, and what looks like an
envelope is one: its kind and a payload of that kind, and no more. -/
def Clean : Json → Prop
  | .int i => (Json.int i).asI64.isSome ∨ Json.double i = i
  | .array items => CleanItems items
  | .object es =>
      match envelopeParts (.object es) with
      | some (kind, v) => es.length = 2 ∧ fitsKind kind v
      | none => CleanEntries es
  | .null | .bool _ | .float _ | .string _ => True

/-- Item by item. -/
def CleanItems : List Json → Prop
  | [] => True
  | j :: rest => Clean j ∧ CleanItems rest

/-- Entry by entry. -/
def CleanEntries : List (String × Json) → Prop
  | [] => True
  | (_, j) :: rest => Clean j ∧ CleanEntries rest

end

/-! ### Envelopes -/

theorem typedValue_unknown {kind : String} (h : kind ∉ valueKinds) (v : Json) :
    typedValue kind v = badValue ("unknown value kind: " ++ kind) := by
  simp only [valueKinds, List.mem_cons, List.not_mem_nil, or_false, not_or] at h
  obtain ⟨h1, h2, h3, h4, h5, h6, h7, h8, h9⟩ := h
  unfold typedValue
  simp only [if_neg h1, if_neg h2, if_neg h3, if_neg h4, if_neg h5, if_neg h6, if_neg h7,
    if_neg h8, if_neg h9]

theorem typedValue_known {kind : String} (h : kind ∈ valueKinds) (v : Json) :
    ∃ x, typedValue kind v = .ok x := by
  simp only [valueKinds, List.mem_cons, List.not_mem_nil, or_false] at h
  rcases h with rfl | rfl | rfl | rfl | rfl | rfl | rfl | rfl | rfl <;> exact ⟨_, rfl⟩

theorem asI64_eq {i : Int} (h : (Json.int i).asI64.isSome) : (Json.int i).asI64 = some i := by
  have heq : (Json.int i).asI64 = if -2 ^ 63 ≤ i ∧ i < 2 ^ 63 then some i else none := rfl
  rw [heq] at h ⊢
  split at h
  · rename_i hrange
    rw [if_pos hrange]
  · cases h

/-- An envelope of a known kind is decoded as its payload if and only if the payload is of the
kind. -/
theorem payload_iff {kind : String} {v : Json} {x : Value} (h : typedValue kind v = .ok x) :
    Payload kind v x ↔ fitsKind kind v = true := by
  constructor
  · intro hp
    cases hp with
    | int i =>
        have hi : (Json.int i).asI64.getD 0 = i := Value.int.inj (Except.ok.inj h)
        by_cases hsome : (Json.int i).asI64.isSome
        · simp [fitsKind, hsome]
        · -- the default is zero, which is in the range
          rw [Option.not_isSome_iff_eq_none.mp hsome] at hi
          obtain rfl : 0 = i := hi
          exact absurd rfl hsome
    | floatInt i =>
        have hi : toString (Json.double i) = toString i := Value.float.inj (Except.ok.inj h)
        simp [fitsKind, Decimal.toString_int_inj hi]
    | _ => simp [fitsKind]
  · intro hfits
    cases v with
    | null =>
        obtain rfl : kind = "null" := by simpa [fitsKind] using hfits
        cases h
        exact .null
    | bool b =>
        obtain rfl : kind = "bool" := by simpa [fitsKind] using hfits
        cases h
        exact .bool b
    | int i =>
        have hkind : (kind = "int" ∧ (Json.int i).asI64.isSome) ∨ kind = "decimal" ∨
            (kind = "float" ∧ Json.double i = i) := by simpa [fitsKind] using hfits
        rcases hkind with ⟨rfl, hsome⟩ | rfl | ⟨rfl, hdouble⟩
        · have hx : Value.int ((Json.int i).asI64.getD 0) = x := Except.ok.inj h
          rw [asI64_eq hsome] at hx
          exact hx ▸ .int i
        · cases h
          exact .decimalInt i
        · have hx : Value.float (toString (Json.double i)) = x := Except.ok.inj h
          rw [hdouble] at hx
          exact hx ▸ .floatInt i
    | float text =>
        have hkind : kind = "float" ∨ kind = "decimal" := by simpa [fitsKind] using hfits
        rcases hkind with rfl | rfl
        · cases h
          exact .float text
        · cases h
          exact .decimalFloat text
    | string s =>
        have hkind : kind = "decimal" ∨ kind = "text" ∨ kind = "datetime" ∨ kind = "duration" ∨
            kind = "record" := by simpa [fitsKind] using hfits
        rcases hkind with rfl | rfl | rfl | rfl | rfl
        · cases h
          exact .decimal s
        · cases h
          exact .text s
        · cases h
          exact .datetime s
        · cases h
          exact .duration s
        · cases h
          exact .record s
    | array items => cases hfits
    | object es => cases hfits

theorem kind_of_fits {kind : String} {v : Json} (h : fitsKind kind v = true) :
    kind ∈ valueKinds := by
  cases v <;> simp [fitsKind] at h <;> simp [valueKinds] <;> tauto

/-! ### Every depth -/

theorem inferValue_int (i : Int) : inferValue (.int i) =
    match (Json.int i).asI64 with
    | some i => .int i
    | none => .float (toString (Json.double i)) := by
  unfold inferValue
  rfl

/-- What is no envelope is inferred, and an envelope of a known kind is decoded. -/
theorem nestedValue_of_parts {j : Json} :
    (envelopeParts j = none → nestedValue j = inferValue j) ∧
    ∀ kind v, envelopeParts j = some (kind, v) →
      (∀ x, typedValue kind v = .ok x → nestedValue j = x) := by
  unfold nestedValue
  rw [envelopeValue_eq]
  constructor
  · intro hnone
    rw [hnone]
    rfl
  · intro kind v hsome x hx
    simp only [hsome, Option.map_some, hx]

/-- Nothing but an object is an envelope. -/
theorem envelopeParts_of_get {j : Json} (h : j.get "kind" = none) : envelopeParts j = none := by
  unfold envelopeParts
  rw [h]
  rfl

theorem means_int_iff (i : Int) :
    Means (.int i) (inferValue (.int i)) ↔ (Json.int i).asI64.isSome ∨ Json.double i = i := by
  rw [inferValue_int]
  by_cases hsome : (Json.int i).asI64.isSome
  · rw [asI64_eq hsome]
    simp [Means]
  · rw [Option.not_isSome_iff_eq_none.mp hsome]
    simp only [Means, reduceCtorEq, Value.float.injEq, false_or, Option.isSome_none,
      Bool.false_eq_true]
    exact ⟨Decimal.toString_int_inj, fun h => by rw [h]⟩

mutual

/-- JSON below the top is decoded as something that it stands for if and only if it is clean. -/
theorem means_nestedValue_iff : (j : Json) → (Means j (nestedValue j) ↔ Clean j)
  | .null => by
      rw [nestedValue_of_parts.1 (envelopeParts_of_get rfl)]
      simp [inferValue, Means, Clean]
  | .bool b => by
      rw [nestedValue_of_parts.1 (envelopeParts_of_get rfl)]
      simp [inferValue, Means, Clean]
  | .int i => by
      rw [nestedValue_of_parts.1 (envelopeParts_of_get rfl), means_int_iff, Clean]
  | .float text => by
      rw [nestedValue_of_parts.1 (envelopeParts_of_get rfl)]
      simp [inferValue, Means, Clean]
  | .string s => by
      rw [nestedValue_of_parts.1 (envelopeParts_of_get rfl)]
      simp [inferValue, Means, Clean]
  | .array items => by
      rw [nestedValue_of_parts.1 (envelopeParts_of_get rfl), inferValue, Means, Clean,
        ← meansItems_iff items]
      simp
  | .object es => by
      cases hparts : envelopeParts (.object es) with
      | none =>
          rw [nestedValue_of_parts.1 hparts, inferValue, Means, Clean, hparts,
            ← meansEntries_iff es]
          simp
      | some parts =>
          obtain ⟨kind, v⟩ := parts
          rw [Means, Clean, hparts]
          show _ ↔ es.length = 2 ∧ fitsKind kind v = true
          by_cases hkind : kind ∈ valueKinds
          · obtain ⟨x, hx⟩ := typedValue_known hkind v
            rw [nestedValue_of_parts.2 kind v hparts x hx, ← payload_iff hx]
            have hscalar := typedValue_ne_object hx
            constructor
            · rintro ⟨_, ⟨ys, hys, _⟩ | ⟨kind', v', heq, hlength, hpayload⟩⟩
              · exact absurd hys (hscalar ys)
              · cases heq
                exact ⟨hlength, hpayload⟩
            · rintro ⟨hlength, hpayload⟩
              refine ⟨?_, .inr ⟨kind, v, rfl, hlength, hpayload⟩⟩
              intro kind' v' heq
              cases heq
              exact hkind
          · -- an unknown kind stands for nothing, and fits no payload
            refine iff_of_false (fun h => hkind (h.1 kind v rfl)) ?_
            rintro ⟨_, hfits⟩
            exact hkind (kind_of_fits hfits)

theorem meansItems_iff :
    (items : List Json) → (MeansItems items (inferItems items) ↔ CleanItems items)
  | [] => by simp [inferItems, MeansItems, CleanItems]
  | j :: rest => by
      rw [inferItems_cons, MeansItems, CleanItems, ← means_nestedValue_iff j, ← meansItems_iff rest]
      simp

theorem meansEntries_iff :
    (es : List (String × Json)) → (MeansEntries es (inferEntries es) ↔ CleanEntries es)
  | [] => by simp [inferEntries, MeansEntries, CleanEntries]
  | (k, j) :: rest => by
      rw [inferEntries_cons, MeansEntries, CleanEntries, ← means_nestedValue_iff j,
        ← meansEntries_iff rest]
      simp

end

/-! ### At the top -/

/-- The decoder of a value at the top and the one below it agree where the first accepts. -/
theorem nestedValue_of_parseValue {v : Json} {x : Value} (h : parseValue v = .ok x) :
    nestedValue v = x := by
  unfold parseValue at h
  rw [envelopeValue_eq] at h
  cases hparts : envelopeParts v with
  | none =>
      rw [hparts] at h
      rw [nestedValue_of_parts.1 hparts]
      exact Except.ok.inj h
  | some parts =>
      rw [hparts] at h
      exact nestedValue_of_parts.2 _ _ hparts x h

theorem parseValue_ok_iff (v : Json) : (∃ x, parseValue v = .ok x) ↔
    ∀ kind w, envelopeParts v = some (kind, w) → kind ∈ valueKinds := by
  unfold parseValue
  rw [envelopeValue_eq]
  cases hparts : envelopeParts v with
  | none => exact ⟨fun _ _ _ h => (nomatch h), fun _ => ⟨_, rfl⟩⟩
  | some parts =>
      obtain ⟨kind, w⟩ := parts
      show (∃ x, typedValue kind w = .ok x) ↔ _
      constructor
      · rintro ⟨x, hx⟩ kind' w' heq
        obtain ⟨rfl, rfl⟩ := Prod.mk.inj (Option.some.inj heq)
        by_contra hkind
        rw [typedValue_unknown hkind] at hx
        cases hx
      · exact fun h => typedValue_known (h kind w rfl) w

/-- JSON is decoded as something that it stands for, where it is accepted, if and only if it is
clean at every depth; or it is refused, as an envelope of an unknown kind. -/
theorem decodesExactly_iff (j : Json) :
    DecodesExactly j ↔ Clean j ∨ ∃ kind v, envelopeParts j = some (kind, v) ∧ kind ∉ valueKinds := by
  constructor
  · intro h
    by_cases hok : ∃ x, parseValue j = .ok x
    · obtain ⟨x, hx⟩ := hok
      refine .inl ((means_nestedValue_iff j).mp ?_)
      rw [nestedValue_of_parseValue hx]
      exact h x hx
    · rw [parseValue_ok_iff] at hok
      push Not at hok
      exact .inr hok
  · rintro (hclean | ⟨kind, v, hparts, hkind⟩) x hx
    · rw [← nestedValue_of_parseValue hx]
      exact (means_nestedValue_iff j).mpr hclean
    · exact absurd ((parseValue_ok_iff j).mp ⟨x, hx⟩ kind v hparts) hkind

/-- A payload of the wrong type, an integer past the 64 signed bits, an envelope with another
member, and an unknown kind below the top. -/
theorem not_decodesExactly :
    ¬ DecodesExactly (.object [("kind", .string "int"), ("v", .string "12")]) ∧
    ¬ DecodesExactly (.int (2 ^ 64 - 1)) ∧
    ¬ DecodesExactly (.object [("kind", .string "int"), ("note", .string "net"), ("v", .int 12)]) ∧
    ¬ DecodesExactly (.array [.object [("kind", .string "money"), ("v", .int 12)]]) := by
  refine ⟨fun h => ?_, fun h => ?_, fun h => ?_, fun h => ?_⟩
  · obtain ⟨_, ⟨ys, hys, _⟩ | ⟨kind, v, hparts, _, hpayload⟩⟩ := h (.int 0) rfl
    · cases hys
    · cases hparts
      exact absurd ((payload_iff rfl).mp hpayload) (by decide)
  · rcases h (.float (toString (Json.double (2 ^ 64 - 1)))) rfl with hint | hfloat
    · cases hint
    · have heq := Decimal.toString_int_inj (Value.float.inj hfloat)
      exact absurd heq (by decide)
  · obtain ⟨_, ⟨ys, hys, _⟩ | ⟨kind, v, _, hlength, _⟩⟩ := h (.int 12) rfl
    · cases hys
    · cases hlength
  · obtain ⟨xs, hxs, y, ys, _, hy, _⟩ := h (.list [.object [("kind", .text "money"), ("v", .int 12)]])
      rfl
    exact absurd (hy.1 "money" (.int 12) rfl) (by decide)

end Frust.Kernel
