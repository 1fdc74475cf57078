import Frust.Kernel.Wire

/-!
# `Frust.Proofs.Kernel.Wire`: values that JSON keeps

JSON is read as the value that its envelope names, if it is one, and is inferred otherwise. What an
envelope names is never an object. The database shows a decimal, a date, a duration and a record id
as strings, which are read as texts: `parseValue_shown_iff` says which values come back.
-/

set_option autoImplicit false

namespace Frust.Kernel

open Frust.Rust

/-- The kind and the value of an envelope. -/
def envelopeParts (v : Json) : Option (String × Json) := do
  let kind ← (← v.get "kind").asStr
  let val ← v.get "v"
  return (kind, val)

theorem envelopeValue_eq (v : Json) :
    envelopeValue v = (envelopeParts v).map fun (kind, val) => typedValue kind val := by
  unfold envelopeValue envelopeParts
  cases v.get "kind" with
  | none => rfl
  | some kind =>
      cases hkind : kind.asStr with
      | none => simp
      | some s =>
          cases v.get "v" with
          | none => simp
          | some val => simp [hkind]

/-- JSON that is read as the value that its envelope names. -/
def Enveloped (j : Json) : Prop := ∃ x, envelopeValue j = some (.ok x)

/-- What an envelope names is no object. -/
theorem typedValue_ne_object {kind : String} {j : Json} {x : Value} (h : typedValue kind j = .ok x)
    (es : List (String × Value)) : x ≠ .object es := by
  rintro rfl
  unfold typedValue at h
  simp only at h
  -- one branch for each kind, and the last one refuses
  iterate 9
    split at h
    · cases h
  cases h

theorem envelopeValue_ne_object {j : Json} {x : Value} (h : envelopeValue j = some (.ok x))
    (es : List (String × Value)) : x ≠ .object es := by
  unfold envelopeValue at h
  obtain ⟨k, _, h⟩ := Option.bind_eq_some_iff.mp h
  obtain ⟨kind, _, h⟩ := Option.bind_eq_some_iff.mp h
  obtain ⟨val, _, h⟩ := Option.bind_eq_some_iff.mp h
  exact typedValue_ne_object (Option.some.inj h) es

/-- What JSON below the top is read as. -/
def nestedValue (j : Json) : Value :=
  match envelopeValue j with
  | some (.ok x) => x
  | _ => inferValue j

theorem inferItems_cons (j : Json) (rest : List Json) :
    inferItems (j :: rest) = nestedValue j :: inferItems rest := by
  rw [inferItems]
  rfl

theorem inferEntries_cons (k : String) (j : Json) (rest : List (String × Json)) :
    inferEntries ((k, j) :: rest) = (k, nestedValue j) :: inferEntries rest := by
  rw [inferEntries]
  rfl

theorem nestedValue_of_enveloped {j : Json} {x : Value} (h : envelopeValue j = some (.ok x)) :
    nestedValue j = x := by
  unfold nestedValue
  rw [h]

theorem nestedValue_of_not {j : Json} (h : ¬ Enveloped j) : nestedValue j = inferValue j := by
  unfold nestedValue
  cases henvelope : envelopeValue j with
  | none => rfl
  | some r =>
      cases r with
      | error e => rfl
      | ok x => exact absurd ⟨x, henvelope⟩ h

/-! ### What comes back -/

section

-- how a decimal, a date, a duration and a record id are shown
variable (asText : Value → String)

mutual

/-- A value as the database shows it in JSON. -/
def shown : Value → Json
  | .null => .null
  | .bool b => .bool b
  | .int i => .int i
  | .float text => .float text
  | .text s => .string s
  | .list items => .array (shownItems items)
  | .object entries => .object (shownEntries entries)
  | v => .string (asText v)

/-- `shown` on each item. -/
def shownItems : List Value → List Json
  | [] => []
  | v :: rest => shown v :: shownItems rest

/-- `shown` on each entry. -/
def shownEntries : List (String × Value) → List (String × Json)
  | [] => []
  | (k, v) :: rest => (k, shown v) :: shownEntries rest

end

mutual

/-- A value whose type is inferred as what it is. -/
def Inferred : Value → Prop
  | .null | .bool _ | .float _ | .text _ => True
  | .int i => -2 ^ 63 ≤ i ∧ i < 2 ^ 63
  | .list items => InferredItems items
  | .object entries => InferredEntries entries
  | .decimal _ | .datetime _ | .duration _ | .recordId _ => False

/-- Each item is inferred, and none is taken for an envelope. -/
def InferredItems : List Value → Prop
  | [] => True
  | v :: rest => ¬ Enveloped (shown asText v) ∧ Inferred v ∧ InferredItems rest

/-- The same of each entry. -/
def InferredEntries : List (String × Value) → Prop
  | [] => True
  | (_, v) :: rest => ¬ Enveloped (shown asText v) ∧ Inferred v ∧ InferredEntries rest

end

end

variable {asText : Value → String}

/-- Only an object is an envelope. -/
theorem object_of_envelope {v : Value} {r : Except BrokerError Value}
    (h : envelopeValue (shown asText v) = some r) : ∃ es, v = .object es := by
  cases v with
  | object es => exact ⟨es, rfl⟩
  | _ => simp [envelopeValue, shown, Json.get] at h

/-- A value below the top comes back if it is inferred and no envelope. -/
theorem nestedValue_shown_iff (v : Value) : nestedValue (shown asText v) = v ↔
    ¬ Enveloped (shown asText v) ∧ inferValue (shown asText v) = v := by
  by_cases henv : Enveloped (shown asText v)
  · obtain ⟨x, hx⟩ := henv
    rw [nestedValue_of_enveloped hx]
    constructor
    · intro hv
      obtain ⟨es, rfl⟩ := object_of_envelope hx
      exact absurd hv (envelopeValue_ne_object hx es)
    · exact fun hv => absurd ⟨x, hx⟩ hv.1
  · rw [nestedValue_of_not henv]
    exact ⟨fun hv => ⟨henv, hv⟩, fun hv => hv.2⟩

mutual

/-- A shown value is inferred as what it was. -/
theorem inferValue_shown : (v : Value) → (inferValue (shown asText v) = v ↔ Inferred asText v)
  | .null | .bool _ | .float _ | .text _ => by simp [shown, inferValue, Inferred]
  | .decimal _ | .datetime _ | .duration _ | .recordId _ => by
      simp [shown, inferValue, Inferred]
  | .int i => by
      rw [shown, inferValue, Inferred, Json.asI64]
      -- An integer past the range is shown as one, and inferred as a float.
      by_cases hi : -2 ^ 63 ≤ i ∧ i < 2 ^ 63
      · rw [if_pos hi]
        exact ⟨fun _ => hi, fun _ => rfl⟩
      · rw [if_neg hi]
        exact ⟨fun hv => (by cases hv), fun hv => absurd hv hi⟩
  | .list vs => by
      simp only [shown, inferValue, Inferred, Value.list.injEq]
      -- The items and the entries follow, by the same recursion.
      exact inferItems_shown vs
  | .object es => by
      simp only [shown, inferValue, Inferred, Value.object.injEq]
      exact inferEntries_shown es

theorem inferItems_shown :
    (vs : List Value) → (inferItems (shownItems asText vs) = vs ↔ InferredItems asText vs)
  | [] => by simp [shownItems, inferItems, InferredItems]
  | v :: vs => by
      rw [shownItems, inferItems_cons, InferredItems, List.cons.injEq, nestedValue_shown_iff v,
        inferValue_shown v, inferItems_shown vs, and_assoc]

theorem inferEntries_shown : (es : List (String × Value)) →
    (inferEntries (shownEntries asText es) = es ↔ InferredEntries asText es)
  | [] => by simp [shownEntries, inferEntries, InferredEntries]
  | (k, v) :: es => by
      rw [shownEntries, inferEntries_cons, InferredEntries, List.cons.injEq, Prod.mk.injEq,
        nestedValue_shown_iff v, inferValue_shown v, inferEntries_shown es]
      simp only [true_and, and_assoc]

end

/-- A value that is shown is parsed as what it was if and only if it is inferred, and not taken for
an envelope of any kind. -/
theorem parseValue_shown_iff (v : Value) : parseValue (shown asText v) = .ok v ↔
    envelopeValue (shown asText v) = none ∧ Inferred asText v := by
  unfold parseValue
  cases henvelope : envelopeValue (shown asText v) with
  | none => simp [inferValue_shown v]
  | some r =>
      obtain ⟨es, rfl⟩ := object_of_envelope henvelope
      constructor
      · intro hr
        replace hr : r = .ok (.object es) := hr
        rw [hr] at henvelope
        exact absurd rfl (envelopeValue_ne_object henvelope es)
      · exact fun hv => by cases hv.1

end Frust.Kernel
