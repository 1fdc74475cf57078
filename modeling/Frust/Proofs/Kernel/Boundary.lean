import Frust.Kernel.Script

/-!
# `Frust.Proofs.Kernel.Boundary`: what crosses unchanged

A scalar crosses unchanged. A list or an object does if it is nothing but what JSON tells apart: no
decimal, date, duration or record id at any depth, objects sorted by key, floats that are read as
they are printed, and no more levels than are read (`docFromWit_docToWit_iff`).
-/

set_option autoImplicit false

namespace Frust.Kernel

open Frust.Lib

namespace Value

mutual

/-- How deep lists and objects are nested. -/
def depth : Value → Nat
  | list items => depthItems items + 1
  | object entries => depthEntries entries + 1
  | null | bool _ | int _ | float _ | decimal _ | text _ | datetime _ | duration _ | recordId _ => 0

/-- The depth of the deepest item. -/
def depthItems : List Value → Nat
  | [] => 0
  | v :: rest => max (depth v) (depthItems rest)

/-- The depth of the deepest entry. -/
def depthEntries : List (String × Value) → Nat
  | [] => 0
  | (_, v) :: rest => max (depth v) (depthEntries rest)

end

end Value

section

variable (readFloat : String → String)

mutual

/-- A value that JSON text keeps at every depth. An integer is one of 64 bits. -/
def Travels : Value → Prop
  | .null | .bool _ | .text _ => True
  | .int i => (Json.int i).asI64 = some i
  | .float text => text ∉ nonFinite ∧ readFloat text = text
  | .decimal _ | .datetime _ | .duration _ | .recordId _ => False
  | .list items => TravelItems items
  | .object entries => SortedKeys entries ∧ TravelEntries entries

/-- Item by item. -/
def TravelItems : List Value → Prop
  | [] => True
  | v :: rest => Travels v ∧ TravelItems rest

/-- Entry by entry. -/
def TravelEntries : List (String × Value) → Prop
  | [] => True
  | (_, v) :: rest => Travels v ∧ TravelEntries rest

end

/-- A value that crosses: a scalar, or a compound that JSON text keeps and that is read. -/
def CarriedOver (v : Value) : Prop :=
  match v with
  | .list items => Travels readFloat (.list items) ∧ (Value.list items).depth ≤ 127
  | .object entries => Travels readFloat (.object entries) ∧ (Value.object entries).depth ≤ 127
  | _ => True

/-- A value that was written and read. -/
def back (v : Value) : Value := jsonToContract ((contractToJson v).mapFloats readFloat)

end

variable {readFloat : String → String} {reread : Json → Option Json}

/-! ### Entry by entry -/

theorem contractToEntries_eq (es : List (String × Value)) :
    contractToEntries es = es.map fun e => (e.1, contractToJson e.2) := by
  induction es with
  | nil => rfl
  | cons e es ih => rw [contractToEntries, ih]; rfl

theorem mapEntries_eq (f : String → String) (es : List (String × Json)) :
    Json.mapEntries f es = es.map fun e => (e.1, e.2.mapFloats f) := by
  induction es with
  | nil => rfl
  | cons e es ih => rw [Json.mapEntries, ih]; rfl

theorem contractEntries_eq (es : List (String × Json)) :
    contractEntries es = es.map fun e => (e.1, jsonToContract e.2) := by
  induction es with
  | nil => rfl
  | cons e es ih => rw [contractEntries, ih]; rfl

/-- An object comes back sorted by key. -/
theorem back_object (es : List (String × Value)) :
    back readFloat (.object es) = .object (collect (es.map fun e => (e.1, back readFloat e.2))) := by
  unfold back
  rw [contractToJson, Json.mapFloats, jsonToContract, contractEntries_eq, mapEntries_eq,
    map_collect, map_collect, contractToEntries_eq, List.map_map, List.map_map]
  rfl

theorem backItems_cons (v : Value) (vs : List Value) :
    contractItems (Json.mapItems readFloat (contractToItems (v :: vs)))
      = back readFloat v :: contractItems (Json.mapItems readFloat (contractToItems vs)) := by
  rw [contractToItems, Json.mapItems, contractItems]
  rfl

/-! ### What comes back -/

mutual

/-- What JSON text keeps comes back as it was, and nothing else does. -/
theorem back_eq_iff : (v : Value) → (back readFloat v = v ↔ Travels readFloat v)
  | .null => by simp [back, contractToJson, Json.mapFloats, jsonToContract, Travels]
  | .bool b => by simp [back, contractToJson, Json.mapFloats, jsonToContract, Travels]
  | .int i => by
      unfold back
      rw [contractToJson, Json.mapFloats, jsonToContract, Travels]
      cases hi : (Json.int i).asI64 with
      | none => simp
      | some i' => simp
  | .float text => by
      unfold back
      rw [contractToJson, Travels]
      split
      · rename_i hmem
        simp [Json.mapFloats, jsonToContract, hmem]
      · rename_i hmem
        simp [Json.mapFloats, jsonToContract, hmem]
  | .decimal s => by simp [back, contractToJson, Json.mapFloats, jsonToContract, Travels]
  | .text s => by simp [back, contractToJson, Json.mapFloats, jsonToContract, Travels]
  | .datetime s => by simp [back, contractToJson, Json.mapFloats, jsonToContract, Travels]
  | .duration s => by simp [back, contractToJson, Json.mapFloats, jsonToContract, Travels]
  | .recordId s => by simp [back, contractToJson, Json.mapFloats, jsonToContract, Travels]
  | .list items => by
      rw [Travels, ← backItems_eq_iff items]
      unfold back
      rw [contractToJson, Json.mapFloats, jsonToContract, Value.list.injEq]
  | .object es => by
      rw [back_object, Travels, Value.object.injEq, collect_map_eq_iff, backEntries_eq_iff es]

theorem backItems_eq_iff : (vs : List Value) →
    (contractItems (Json.mapItems readFloat (contractToItems vs)) = vs ↔ TravelItems readFloat vs)
  | [] => by simp [contractToItems, Json.mapItems, contractItems, TravelItems]
  | v :: vs => by
      rw [backItems_cons, List.cons.injEq, back_eq_iff v, backItems_eq_iff vs, TravelItems]

theorem backEntries_eq_iff : (es : List (String × Value)) →
    ((∀ e ∈ es, back readFloat e.2 = e.2) ↔ TravelEntries readFloat es)
  | [] => by simp [TravelEntries]
  | (k, v) :: es => by
      rw [List.forall_mem_cons, back_eq_iff v, backEntries_eq_iff es, TravelEntries]

end

mutual

/-- The JSON of a value that it keeps is as deep as the value. -/
theorem depth_contractToJson : (v : Value) → Travels readFloat v → (contractToJson v).depth = v.depth
  | .null, _ => by rw [contractToJson, Json.depth, Value.depth]
  | .bool b, _ => by rw [contractToJson, Json.depth, Value.depth]
  | .int i, _ => by rw [contractToJson, Json.depth, Value.depth]
  | .float text, _ => by
      rw [contractToJson, Value.depth]
      split <;> rw [Json.depth]
  | .decimal s, _ => by rw [contractToJson, Json.depth, Value.depth]
  | .text s, _ => by rw [contractToJson, Json.depth, Value.depth]
  | .datetime s, _ => by rw [contractToJson, Json.depth, Value.depth]
  | .duration s, _ => by rw [contractToJson, Json.depth, Value.depth]
  | .recordId s, _ => by rw [contractToJson, Json.depth, Value.depth]
  | .list items, h => by
      rw [Travels] at h
      rw [contractToJson, Json.depth, Value.depth, depthItems_contractToItems items h]
  | .object es, h => by
      rw [Travels] at h
      have hsorted : SortedKeys (contractToEntries es) := by
        have hkeys := h.1
        unfold SortedKeys at hkeys ⊢
        rwa [contractToEntries_eq, List.map_map]
      rw [contractToJson, collect_of_sortedKeys hsorted, Json.depth, Value.depth,
        depthEntries_contractToEntries es h.2]

theorem depthItems_contractToItems : (vs : List Value) → TravelItems readFloat vs →
    Json.depthItems (contractToItems vs) = Value.depthItems vs
  | [], _ => by rw [contractToItems, Json.depthItems, Value.depthItems]
  | v :: vs, h => by
      rw [TravelItems] at h
      rw [contractToItems, Json.depthItems, Value.depthItems, depth_contractToJson v h.1,
        depthItems_contractToItems vs h.2]

theorem depthEntries_contractToEntries : (es : List (String × Value)) → TravelEntries readFloat es →
    Json.depthEntries (contractToEntries es) = Value.depthEntries es
  | [], _ => by rw [contractToEntries, Json.depthEntries, Value.depthEntries]
  | (k, v) :: es, h => by
      rw [TravelEntries] at h
      rw [contractToEntries, Json.depthEntries, Value.depthEntries, depth_contractToJson v h.1,
        depthEntries_contractToEntries es h.2]

end

/-- A compound comes back if JSON text keeps it and it is read. -/
theorem toValue_compound_iff (h : Json.ReadsText readFloat reread) {v : Value} (hne : v ≠ .null) :
    (compound reread v).toValue = v ↔ Travels readFloat v ∧ v.depth ≤ 127 := by
  unfold compound
  rw [Wit.toValue]
  by_cases hdepth : (contractToJson v).depth ≤ 127
  · rw [h.shallow _ hdepth, Option.getD_some]
    show back readFloat v = v ↔ _
    rw [back_eq_iff]
    exact ⟨fun ht => ⟨ht, depth_contractToJson v ht ▸ hdepth⟩, fun ht => ht.1⟩
  · -- what is not read comes back as null
    rw [h.deep _ (not_le.mp hdepth), Option.getD_none, jsonToContract]
    refine iff_of_false (fun heq => hne heq.symm) ?_
    rintro ⟨ht, hle⟩
    exact hdepth (depth_contractToJson v ht ▸ hle)

theorem toValue_toWit_iff (h : Json.ReadsText readFloat reread) (v : Value) :
    (toWit reread v).toValue = v ↔ CarriedOver readFloat v := by
  cases v with
  | list items => exact toValue_compound_iff h (by simp)
  | object es => exact toValue_compound_iff h (by simp)
  | _ => exact iff_of_true rfl trivial

/-- A document crosses to a hook and back unchanged if and only if each of its values does. -/
theorem docFromWit_docToWit_iff (h : Json.ReadsText readFloat reread) (doc : Doc) :
    docFromWit (docToWit reread doc) = doc ↔ ∀ e ∈ doc, CarriedOver readFloat e.2 := by
  unfold docFromWit docToWit
  rw [List.map_map]
  -- Entry by entry, as the document is converted.
  induction doc with
  | nil => simp
  | cons e doc ih =>
      rw [List.map_cons, List.cons.injEq, List.forall_mem_cons, ih, ← toValue_toWit_iff h]
      simp [Prod.ext_iff]

/-- A reader of JSON text that reads floats as they are printed. -/
def exactReader (j : Json) : Option Json := if j.depth ≤ 127 then some (j.mapFloats id) else none

theorem readsText_exactReader : Json.ReadsText id exactReader :=
  ⟨fun _ h => if_pos h, fun _ h => if_neg (not_le.mpr h)⟩

/-- An order with a price of its own, and lines without prices. -/
theorem docFromWit_docToWit_order :
    docFromWit (docToWit exactReader [("total", .decimal "19.99"),
        ("lines", .list [.object [("item", .text "nail"), ("qty", .int 3)]])])
      = [("total", .decimal "19.99"),
        ("lines", .list [.object [("item", .text "nail"), ("qty", .int 3)]])] := by
  refine (docFromWit_docToWit_iff readsText_exactReader _).mpr ?_
  intro e he
  rcases List.mem_cons.mp he with rfl | he
  · trivial
  · rw [List.mem_singleton.mp he]
    refine ⟨?_, by decide⟩
    simp only [Travels, TravelItems, TravelEntries, and_true, true_and]
    decide

/-- The price of a line comes back as a text. -/
theorem not_docFromWit_docToWit : ∃ readFloat reread, Json.ReadsText readFloat reread ∧
    ∃ doc : Doc, docFromWit (docToWit reread doc) ≠ doc := by
  refine ⟨id, exactReader, readsText_exactReader,
    [("lines", .list [.object [("amount", .decimal "19.99")]])], fun h => ?_⟩
  have hline : docFromWit (docToWit exactReader
      [("lines", .list [.object [("amount", .decimal "19.99")]])])
      = [("lines", .list [.object [("amount", .text "19.99")]])] := by rfl
  rw [hline] at h
  simp at h

end Frust.Kernel
