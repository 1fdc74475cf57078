import Frust.Mcp.Schema
import Frust.Proofs.Kernel.Decoding

/-!
# `Frust.Proofs.Mcp.Documents`: what the kernel reads of an encoded document

A call of `objectSchema` is within another one only for a DocType that was not seen, so calls are not
deeper within each other than there are DocTypes (`objectSchema_terminates`).

`entryMeanings` is what a document says: a decimal for each currency and a record id for each link,
down through the rows of known child DocTypes, and for all else the value that the kernel infers.

The kernel takes every object with a text `kind` and a `v` for an envelope, and the rows of a table are
objects. So a row with two such fields is read as what its `kind` names, and the rest of it is lost.
`documents_iff` says which documents reach the kernel as what they say.
-/

set_option autoImplicit false

namespace Frust.Mcp

open Frust.Kernel Frust.Lib Frust.Rust

/-! ### DocTypes that contain each other -/

/-- The DocTypes that are not seen yet. -/
def unseen (types : DocTypeSet) (seen : List String) : List DocTypeDef :=
  types.list.filter fun dt => !seen.contains dt.name

theorem byName_some {types : DocTypeSet} {name : String} {dt : DocTypeDef}
    (h : types.byName name = some dt) : dt ∈ types.list ∧ dt.name = name :=
  ⟨List.mem_reverse.mp (List.mem_of_find?_eq_some h), by simpa using List.find?_some h⟩

/-- A child that is entered is one less that is not seen. -/
theorem unseen_lt {types : DocTypeSet} {seen : List String} {childName : String} {child : DocTypeDef}
    (h : types.byName childName = some child) (hseen : childName ∉ seen) :
    (unseen types (seen ++ [childName])).length < (unseen types seen).length := by
  obtain ⟨hmem, hname⟩ := byName_some h
  have hsub : unseen types (seen ++ [childName])
      = (unseen types seen).filter fun dt => dt.name ≠ childName := by
    unfold unseen
    rw [List.filter_filter]
    refine List.filter_congr fun dt _ => ?_
    simp [Bool.and_comm]
  rw [hsub]
  refine List.length_filter_lt_length_iff_exists.mpr ⟨child, ?_, by simp [hname]⟩
  exact List.mem_filter.mpr ⟨hmem, by simpa [hname] using hseen⟩

section

variable {types : DocTypeSet} {seen : List String}
  {nested nested' : DocTypeDef → List String → Option Json}

/-- Both are the schemas of the children that were not seen. -/
def AgreeUnseen (types : DocTypeSet) (seen : List String)
    (nested nested' : DocTypeDef → List String → Option Json) : Prop :=
  ∀ childName child, types.byName childName = some child → childName ∉ seen →
    ∃ items, nested child (seen ++ [childName]) = some items ∧
      nested' child (seen ++ [childName]) = some items

theorem tableSchema_agree (h : AgreeUnseen types seen nested nested') (field : FieldDef)
    (description : String) : ∃ schema, tableSchema types seen nested field description = some schema ∧
      tableSchema types seen nested' field description = some schema := by
  unfold tableSchema
  cases (optionList field).head? with
  | none => exact ⟨_, rfl, rfl⟩
  | some childName =>
      cases hchild : types.byName childName with
      | none => simp [hchild]
      | some child =>
          by_cases hseen : childName ∈ seen
          · simp [hchild, hseen]
          · obtain ⟨items, hitems, hitems'⟩ := h childName child hchild hseen
            simp [hchild, hseen, hitems, hitems']

/-- A field's schema needs the schemas of children that were not seen, and no others. -/
theorem schemaForField_agree (h : AgreeUnseen types seen nested nested') (field : FieldDef) :
    ∃ schema, schemaForField types seen nested field = some schema ∧
      schemaForField types seen nested' field = some schema := by
  unfold schemaForField
  dsimp only
  split_ifs
  · exact ⟨_, rfl, rfl⟩
  · exact ⟨_, rfl, rfl⟩
  · exact ⟨_, rfl, rfl⟩
  · exact ⟨_, rfl, rfl⟩
  · cases optionList field <;> exact ⟨_, rfl, rfl⟩
  · exact ⟨_, rfl, rfl⟩
  · exact tableSchema_agree h field _
  · exact ⟨_, rfl, rfl⟩

/-- The schemas of fields, one after the other. -/
theorem schemas_agree (h : AgreeUnseen types seen nested nested') (fields : List FieldDef) :
    ∃ es, (fields.mapM fun field => do
        let schema ← schemaForField types seen nested field
        return (field.fieldname, schema)) = some es ∧
      (fields.mapM fun field => do
        let schema ← schemaForField types seen nested' field
        return (field.fieldname, schema)) = some es := by
  induction fields with
  | nil => exact ⟨[], rfl, rfl⟩
  | cons field fields ih =>
      obtain ⟨schema, hschema, hschema'⟩ := schemaForField_agree h field
      obtain ⟨es, hes, hes'⟩ := ih
      refine ⟨(field.fieldname, schema) :: es, ?_, ?_⟩
      · rw [List.mapM_cons, hes, hschema]
        rfl
      · rw [List.mapM_cons, hes', hschema']
        rfl

end

/-- With a call more than there are DocTypes not seen, a schema comes about, and always the same. -/
theorem objectSchema_agree (types : DocTypeSet) {fuel fuel' : Nat} (doctype : DocTypeDef)
    {seen : List String} (includeRequired : Bool) (h : (unseen types seen).length < fuel)
    (h' : (unseen types seen).length < fuel') :
    ∃ schema, objectSchema types fuel doctype seen includeRequired = some schema ∧
      objectSchema types fuel' doctype seen includeRequired = some schema := by
  induction fuel generalizing fuel' doctype seen includeRequired with
  | zero => omega
  | succ fuel ih =>
      obtain ⟨fuel', rfl⟩ := Nat.exists_eq_add_one_of_ne_zero (Nat.ne_zero_of_lt h')
      have hagree : AgreeUnseen types seen
          (fun child seen => objectSchema types fuel child seen false)
          (fun child seen => objectSchema types fuel' child seen false) := by
        intro childName child hchild hseen
        have hlt := unseen_lt hchild hseen
        exact ih child false (by omega) (by omega)
      obtain ⟨es, hes, hes'⟩ := schemas_agree hagree doctype.fields
      exact ⟨_, by rw [objectSchema, hes]; rfl, by rw [objectSchema, hes']; rfl⟩

/-- The schema of a DocType, whatever DocTypes contain each other. -/
theorem objectSchema_terminates (types : DocTypeSet) (doctype : DocTypeDef) :
    ∃ schema, ∀ fuel, types.list.length < fuel →
      objectSchema types fuel doctype [doctype.name] true = some schema := by
  have hlength : (unseen types [doctype.name]).length ≤ types.list.length :=
    List.length_filter_le _ _
  obtain ⟨schema, hschema, _⟩ := objectSchema_agree types doctype true
    (Nat.lt_succ_of_le hlength) (Nat.lt_succ_of_le hlength)
  refine ⟨schema, fun fuel hfuel => ?_⟩
  obtain ⟨schema', hfirst, hother⟩ := objectSchema_agree types doctype true
    (Nat.lt_succ_of_le hlength) (lt_of_le_of_lt hlength hfuel)
  rw [hother, ← hfirst, hschema]

/-! ### What a document says -/

/-- The DocType of a table's rows, where it is known. -/
def rowsOf (types : DocTypeSet) (field : Option FieldDef) : Option DocTypeDef :=
  (field.filter (·.fieldtype = "Table")).bind fun f => (childOf types f).map (·.2)

/-- What a value says that is not null and has no rows of a known DocType. -/
def plainMeaning (field : Option FieldDef) (v : Json) : Value :=
  match field with
  | some f =>
      if f.fieldtype = "Currency" then .decimal (v.asStr.getD "")
      else if f.fieldtype = "Link" then .recordId (v.asStr.getD "")
      else inferValue v
  | none => inferValue v

mutual

/-- What the value of a field says. -/
def meaning (types : DocTypeSet) (field : Option FieldDef) : Json → Value
  | .null => .null
  | .array rows =>
      match rowsOf types field with
      | some child => .list (rowMeanings types child rows)
      | none => plainMeaning field (.array rows)
  | v => plainMeaning field v

/-- What rows say. -/
def rowMeanings (types : DocTypeSet) (child : DocTypeDef) : List Json → List Value
  | [] => []
  | row :: rest => rowMeaning types child row :: rowMeanings types child rest

/-- What a row says. -/
def rowMeaning (types : DocTypeSet) (child : DocTypeDef) : Json → Value
  | .object es => .object (entryMeanings types child es)
  | row => inferValue row

/-- What a document says, entry by entry. -/
def entryMeanings (types : DocTypeSet) (doctype : DocTypeDef) : List (String × Json) → Doc
  | [] => []
  | (name, v) :: rest =>
      (name, meaning types (fieldOf doctype name) v) :: entryMeanings types doctype rest

end

/-! ### What is kept -/

/-- The values of the field go in envelopes. -/
def isTyped (field : Option FieldDef) : Bool :=
  field.any fun f => f.fieldtype = "Currency" || f.fieldtype = "Link"

/-- JSON that is taken for an envelope below the top. -/
def Taken (v : Json) : Prop := ∃ kind w, envelopeParts v = some (kind, w) ∧ kind ∈ valueKinds

/-- A row that is taken for an envelope: a text that names a kind is sent under `kind` as it is, and
there is a `v`. -/
def RowTaken (child : DocTypeDef) (es : List (String × Json)) : Prop :=
  ∃ kind ∈ valueKinds, es.lookup "kind" = some (.string kind) ∧
    isTyped (fieldOf child "kind") = false ∧ (es.lookup "v").isSome

mutual

/-- The value of a field is kept, where a plain one is kept on a condition. -/
def Kept (types : DocTypeSet) (plain : Json → Prop) (field : Option FieldDef) : Json → Prop
  | .null => True
  | .array rows =>
      match rowsOf types field with
      | some child => KeptRows types child rows
      | none => True
  | v => isTyped field = true ∨ plain v

/-- The rows are kept. -/
def KeptRows (types : DocTypeSet) (child : DocTypeDef) : List Json → Prop
  | [] => True
  | row :: rest => KeptRow types child row ∧ KeptRows types child rest

/-- A row is kept: it is not taken for an envelope, and neither is a plain value in it. -/
def KeptRow (types : DocTypeSet) (child : DocTypeDef) : Json → Prop
  | .object es => ¬ RowTaken child es ∧ KeptEntries types child es
  | _ => True

/-- The entries of a row are kept. -/
def KeptEntries (types : DocTypeSet) (doctype : DocTypeDef) : List (String × Json) → Prop
  | [] => True
  | (name, v) :: rest =>
      name ≠ "__proto__" ∧ Kept types (fun v => ¬ Taken v) (fieldOf doctype name) v ∧
        KeptEntries types doctype rest

end

/-! ### Readers -/

/-- How the kernel reads a value: plain JSON as it is inferred, on a condition. -/
structure Reader (read : Json → Value → Prop) (plain : Json → Prop) : Prop where
  null : read .null .null
  decimal (s : String) : read (envelope "decimal" s) (.decimal s)
  record (s : String) : read (envelope "record" s) (.recordId s)
  array (items : List Json) (x : Value) : read (.array items) x ↔ x = .list (inferItems items)
  other {v : Json} (hnull : v ≠ .null) (harray : ∀ items, v ≠ .array items) :
    read v (inferValue v) ↔ plain v

theorem taken_iff {v : Json} : Taken v ↔ Enveloped v := by
  unfold Taken Enveloped
  rw [envelopeValue_eq]
  cases envelopeParts v with
  | none => simp
  | some parts =>
      obtain ⟨kind, w⟩ := parts
      show _ ↔ ∃ x, some (typedValue kind w) = some (.ok x)
      by_cases hkind : kind ∈ valueKinds
      · obtain ⟨x, hx⟩ := typedValue_known hkind w
        exact iff_of_true ⟨kind, w, rfl, hkind⟩ ⟨x, by rw [hx]⟩
      · refine iff_of_false ?_ ?_
        · rintro ⟨kind', w', heq, hkind'⟩
          cases heq
          exact hkind hkind'
        · rintro ⟨x, hx⟩
          rw [typedValue_unknown hkind] at hx
          cases hx

/-- Only an object has the parts of an envelope, and an object is inferred as one. -/
theorem object_of_parts {v : Json} {parts : String × Json} (h : envelopeParts v = some parts) :
    ∃ es, inferValue v = .object es := by
  cases v with
  | object entries => exact ⟨_, by rw [inferValue]⟩
  | _ =>
      rw [envelopeParts_of_get rfl] at h
      cases h

theorem nestedReader : Reader (fun v x => nestedValue v = x) fun v => ¬ Taken v where
  null := by
    rw [nestedValue_of_parts.1 (envelopeParts_of_get rfl)]
    rfl
  decimal s := nestedValue_of_parts.2 "decimal" (.string s) rfl _ rfl
  record s := nestedValue_of_parts.2 "record" (.string s) rfl _ rfl
  array items x := by
    rw [nestedValue_of_parts.1 (envelopeParts_of_get rfl), inferValue]
    exact eq_comm
  other {v} _ _ := by
    rw [taken_iff]
    refine ⟨fun heq henveloped => ?_, fun h => nestedValue_of_not h⟩
    obtain ⟨kind, w, hparts, _⟩ := taken_iff.mpr henveloped
    obtain ⟨x, hx⟩ := henveloped
    obtain ⟨es, hes⟩ := object_of_parts hparts
    rw [nestedValue_of_enveloped hx, hes] at heq
    exact envelopeValue_ne_object hx es heq

/-- A value at the top that money is made from. -/
def MoneyLike : Json → Prop
  | .string _ | .float _ => True
  | .int i => (Json.int i).asI64 = none ∧ (Json.int i).asU64 = none
  | _ => False

theorem parseValue_infer_iff (v : Json) :
    parseValue v = .ok (inferValue v) ↔ envelopeParts v = none := by
  unfold parseValue
  rw [envelopeValue_eq]
  cases hparts : envelopeParts v with
  | none => simp
  | some parts =>
      obtain ⟨es, hes⟩ := object_of_parts hparts
      rw [hes]
      refine iff_of_false (fun h => ?_) (by simp)
      exact typedValue_ne_object (show typedValue parts.1 parts.2 = _ from h) es rfl

theorem topReader (currency : Bool) (name : String) :
    Reader (fun v x => parseWriteField currency name v = .ok x)
      fun v => envelopeParts v = none ∧ (currency = true → ¬ MoneyLike v) where
  null := by cases currency <;> rfl
  decimal s := by cases currency <;> rfl
  record s := by cases currency <;> rfl
  array items x := by
    have hparse : parseWriteField currency name (.array items) = .ok (.list (inferItems items)) := by
      cases currency <;> rfl
    rw [hparse, Except.ok.injEq]
    exact eq_comm
  other {v} hnull harray := by
    have hplain (hparse : parseWriteField currency name v = parseValue v)
        (hmoney : currency = true → ¬ MoneyLike v) :
        parseWriteField currency name v = .ok (inferValue v) ↔
          envelopeParts v = none ∧ (currency = true → ¬ MoneyLike v) := by
      rw [hparse, parseValue_infer_iff]
      exact ⟨fun h => ⟨h, hmoney⟩, fun h => h.1⟩
    cases currency with
    | false => exact hplain rfl (by simp)
    | true =>
        cases v with
        | null => exact absurd rfl hnull
        | array items => exact absurd rfl (harray items)
        | bool b => exact hplain rfl fun _ h => h
        | object es => exact hplain rfl fun _ h => h
        | string s => exact iff_of_false (by simp [parseWriteField, inferValue]) fun h => h.2 rfl trivial
        | float t =>
            exact iff_of_false (by simp [parseWriteField, badValue]) fun h => h.2 rfl trivial
        | int i =>
            by_cases hrange : (Json.int i).asI64 = none ∧ (Json.int i).asU64 = none
            · refine iff_of_false ?_ fun h => h.2 rfl hrange
              simp [parseWriteField, hrange, badValue]
            · refine hplain (if_neg ?_) fun _ => hrange
              simpa [Option.isNone_iff_eq_none] using hrange

/-! ### The encoder -/

variable {types : DocTypeSet}

/-- The value of an entry, with its field. -/
def encodeField (types : DocTypeSet) (field : Option FieldDef) (path : String) (v : Json) :
    Except String Json :=
  match field with
  | some f => encodeValue types f path v
  | none => .ok v

theorem encodeEntries_cons {doctype : DocTypeDef} {path name : String} {v : Json}
    {rest out : List (String × Json)}
    (h : encodeEntries types doctype path ((name, v) :: rest) = .ok out) :
    ∃ v' more, encodeField types (fieldOf doctype name) (path ++ "." ++ name) v = .ok v' ∧
      encodeEntries types doctype path rest = .ok more ∧
      out = if name = "__proto__" then more else (name, v') :: more := by
  rw [encodeEntries] at h
  cases hfield : fieldOf doctype name with
  | none =>
      rw [hfield] at h
      obtain ⟨v', hv', h⟩ := bind_eq_ok h
      obtain ⟨more, hmore, h⟩ := bind_eq_ok h
      exact ⟨v', more, hv', hmore, (Except.ok.inj h).symm⟩
  | some field =>
      rw [hfield] at h
      obtain ⟨v', hv', h⟩ := bind_eq_ok h
      obtain ⟨more, hmore, h⟩ := bind_eq_ok h
      exact ⟨v', more, hv', hmore, (Except.ok.inj h).symm⟩

/-- What a plain value is encoded as. -/
theorem encodePlain_inv {field : FieldDef} {path : String} {v v' : Json}
    (h : encodePlain field path v = .ok v') :
    (∃ s, v = .string s ∧ v' = envelope "decimal" s ∧ field.fieldtype = "Currency") ∨
      (∃ s, v = .string s ∧ v' = envelope "record" s ∧ field.fieldtype = "Link") ∨
      isTyped (some field) = false ∧ v' = v := by
  unfold encodePlain at h
  split at h
  · rename_i hcurrency
    split at h
    · rename_i s
      split at h
      · exact .inl ⟨s, rfl, (Except.ok.inj h).symm, hcurrency⟩
      · cases h
    · cases h
  · rename_i hcurrency
    split at h
    · rename_i hlink
      split at h
      · rename_i s
        exact .inr (.inl ⟨s, rfl, (Except.ok.inj h).symm, hlink⟩)
      · cases h
    · rename_i hlink
      exact .inr (.inr ⟨by simp [isTyped, hcurrency, hlink], (Except.ok.inj h).symm⟩)

/-- A plain value, of a field or of none. -/
theorem encodeField_plain {field : Option FieldDef} {path : String} {v v' : Json}
    (hnull : v ≠ .null) (harray : ∀ items, v ≠ .array items)
    (h : encodeField types field path v = .ok v') :
    (∃ s, v = .string s ∧ v' = envelope "decimal" s ∧ isTyped field = true ∧
        plainMeaning field v = .decimal s) ∨
      (∃ s, v = .string s ∧ v' = envelope "record" s ∧ isTyped field = true ∧
        plainMeaning field v = .recordId s) ∨
      isTyped field = false ∧ v' = v ∧ plainMeaning field v = inferValue v := by
  cases field with
  | none => exact .inr (.inr ⟨rfl, (Except.ok.inj h).symm, rfl⟩)
  | some f =>
      have hplain : encodePlain f path v = .ok v' := by
        have hvalue : encodeValue types f path v = .ok v' := h
        cases v with
        | null => exact absurd rfl hnull
        | array items => exact absurd rfl (harray items)
        | _ =>
            simp only [encodeValue] at hvalue
            split at hvalue
            · cases hvalue
            · exact hvalue
      rcases encodePlain_inv hplain with ⟨s, rfl, rfl, hc⟩ | ⟨s, rfl, rfl, hl⟩ | ⟨htyped, rfl⟩
      · exact .inl ⟨s, rfl, rfl, by simp [isTyped, hc], if_pos hc⟩
      · refine .inr (.inl ⟨s, rfl, rfl, by simp [isTyped, hl], ?_⟩)
        show (if _ then _ else if _ then _ else _) = _
        rw [if_neg (by rw [hl]; decide), if_pos hl]
        rfl
      · refine .inr (.inr ⟨htyped, rfl, ?_⟩)
        simp only [isTyped, Option.any_some, Bool.or_eq_false_iff, decide_eq_false_iff_not] at htyped
        show (if _ then _ else if _ then _ else _) = _
        rw [if_neg htyped.1, if_neg htyped.2]

/-- A list, of rows of a known DocType or of anything. -/
theorem encodeField_array {field : Option FieldDef} {path : String} {rows : List Json} {v' : Json}
    (h : encodeField types field path (.array rows) = .ok v') :
    (∃ childName child rows', types.byName childName = some child ∧
        rowsOf types field = some child ∧ encodeRows types childName path 0 rows = .ok rows' ∧
        v' = .array rows') ∨
      rowsOf types field = none ∧ v' = .array rows ∧
        plainMeaning field (.array rows) = .list (inferItems rows) := by
  have hinfer : inferValue (.array rows) = .list (inferItems rows) := by rw [inferValue]
  cases field with
  | none => exact .inr ⟨rfl, (Except.ok.inj h).symm, hinfer⟩
  | some f =>
      have hvalue : encodeValue types f path (.array rows) = .ok v' := h
      rw [encodeValue] at hvalue
      split at hvalue
      · rename_i htable
        have hrows : rowsOf types (some f) = (childOf types f).map (·.2) := by
          unfold rowsOf
          rw [Option.filter_some, if_pos (by simpa using htable)]
          rfl
        split at hvalue
        · rename_i hchild
          refine .inr ⟨by rw [hrows, hchild]; rfl, (Except.ok.inj hvalue).symm, ?_⟩
          show (if _ then _ else if _ then _ else _) = _
          rw [if_neg (by rw [htable]; decide), if_neg (by rw [htable]; decide), hinfer]
        · rename_i childName child hchild
          have hname : types.byName childName = some child := by
            unfold childOf at hchild
            obtain ⟨name, _, hchild⟩ := Option.bind_eq_some_iff.mp hchild
            obtain ⟨found, hfound, hchild⟩ := Option.bind_eq_some_iff.mp hchild
            cases hchild
            exact hfound
          cases hrun : encodeRows types childName path 0 rows with
          | error e =>
              rw [hrun] at hvalue
              cases hvalue
          | ok rows' =>
              rw [hrun] at hvalue
              exact .inl ⟨childName, child, rows', hname, by rw [hrows, hchild]; rfl, hrun,
                (Except.ok.inj hvalue).symm⟩
      · rename_i htable
        have hrows : rowsOf types (some f) = none := by
          unfold rowsOf
          rw [Option.filter_some, if_neg (by simpa using htable)]
          rfl
        rcases encodePlain_inv hvalue with ⟨s, hs, _⟩ | ⟨s, hs, _⟩ | ⟨htyped, rfl⟩
        · cases hs
        · cases hs
        · refine .inr ⟨hrows, rfl, ?_⟩
          simp only [isTyped, Option.any_some, Bool.or_eq_false_iff, decide_eq_false_iff_not]
            at htyped
          show (if _ then _ else if _ then _ else _) = _
          rw [if_neg htyped.1, if_neg htyped.2, hinfer]

theorem encodeField_null {field : Option FieldDef} {path : String} {v' : Json}
    (h : encodeField types field path .null = .ok v') : v' = .null := by
  cases field with
  | none => exact (Except.ok.inj h).symm
  | some f =>
      have hvalue : encodeValue types f path .null = .ok v' := h
      rw [encodeValue] at hvalue
      exact (Except.ok.inj hvalue).symm

/-! ### Rows -/

/-- An entry other than `__proto__` stands in the encoded document under its name. -/
theorem lookup_encodeEntries {doctype : DocTypeDef} {path : String} {es out : List (String × Json)}
    (h : encodeEntries types doctype path es = .ok out) {name : String} (hname : name ≠ "__proto__") :
    (es.lookup name = none ∧ out.lookup name = none) ∨
      ∃ v v' path, es.lookup name = some v ∧ out.lookup name = some v' ∧
        encodeField types (fieldOf doctype name) path v = .ok v' := by
  induction es generalizing out with
  | nil =>
      rw [encodeEntries] at h
      cases h
      exact .inl ⟨rfl, rfl⟩
  | cons e rest ih =>
      obtain ⟨key, v⟩ := e
      obtain ⟨v', more, hv', hmore, rfl⟩ := encodeEntries_cons h
      by_cases heq : name = key
      · subst heq
        rw [if_neg hname, List.lookup_cons_self, List.lookup_cons_self]
        exact .inr ⟨v, v', _, rfl, rfl, hv'⟩
      · have hskip (l : List (String × Json)) (w : Json) : ((key, w) :: l).lookup name = l.lookup name := by
          rw [List.lookup_cons, beq_false_of_ne heq]
        rw [hskip]
        split
        · exact ih hmore
        · rw [hskip]
          exact ih hmore

/-- A text is sent as it is where the field is not one whose values go in envelopes. -/
theorem encodeField_string_iff {field : Option FieldDef} {path s : String} {v v' : Json}
    (h : encodeField types field path v = .ok v') :
    v' = .string s ↔ v = .string s ∧ isTyped field = false := by
  by_cases hnull : v = .null
  · subst hnull
    rw [encodeField_null h]
    simp
  by_cases harray : ∃ rows, v = .array rows
  · obtain ⟨rows, rfl⟩ := harray
    rcases encodeField_array h with ⟨_, _, rows', _, _, _, rfl⟩ | ⟨_, rfl, _⟩ <;> simp
  · rcases encodeField_plain hnull (not_exists.mp harray) h with
      ⟨t, rfl, rfl, htyped, _⟩ | ⟨t, rfl, rfl, htyped, _⟩ | ⟨htyped, rfl, _⟩
    · simp [htyped, envelope]
    · simp [htyped, envelope]
    · simp [htyped]

theorem envelopeParts_object {es : List (String × Json)} {kind : String} {w : Json} :
    envelopeParts (.object es) = some (kind, w) ↔
      es.lookup "kind" = some (.string kind) ∧ es.lookup "v" = some w := by
  unfold envelopeParts
  show (es.lookup "kind" >>= fun j => j.asStr >>= fun kind => es.lookup "v" >>= fun val =>
    some (kind, val)) = _ ↔ _
  cases es.lookup "kind" with
  | none => simp
  | some k => cases k <;> cases es.lookup "v" <;> simp [Json.asStr]

/-- An encoded row is taken for an envelope where the row says so. -/
theorem taken_encodeEntries {child : DocTypeDef} {path : String} {es out : List (String × Json)}
    (h : encodeEntries types child path es = .ok out) : Taken (.object out) ↔ RowTaken child es := by
  have hkind (kind : String) : out.lookup "kind" = some (.string kind) ↔
      es.lookup "kind" = some (.string kind) ∧ isTyped (fieldOf child "kind") = false := by
    have hne : "kind" ≠ "__proto__" := by decide
    rcases lookup_encodeEntries h hne with ⟨h₁, h₂⟩ | ⟨v, v', path, h₁, h₂, henc⟩
    · simp [h₁, h₂]
    · rw [h₁, h₂, Option.some.injEq, Option.some.injEq]
      exact encodeField_string_iff henc
  have hv : (out.lookup "v").isSome = (es.lookup "v").isSome := by
    have hne : "v" ≠ "__proto__" := by decide
    rcases lookup_encodeEntries h hne with ⟨h₁, h₂⟩ | ⟨v, v', path, h₁, h₂, henc⟩
    · rw [h₁, h₂]
    · rw [h₁, h₂]
      rfl
  unfold Taken RowTaken
  simp only [envelopeParts_object, hkind, ← hv, Option.isSome_iff_exists]
  grind

/-- A known child DocType's row is encoded entry by entry. -/
theorem encodeDoc_inv {name path : String} {doctype : DocTypeDef} {row out : Json}
    (hname : types.byName name = some doctype) (h : encodeDoc types name path row = .ok out) :
    ∃ es out', row = .object es ∧ encodeEntries types doctype path es = .ok out' ∧
      out = .object out' := by
  cases row with
  | object es =>
      rw [encodeDoc, hname] at h
      replace h : (encodeEntries types doctype path es).map .object = .ok out := h
      cases hrun : encodeEntries types doctype path es with
      | error e =>
          rw [hrun] at h
          cases h
      | ok out' =>
          rw [hrun] at h
          exact ⟨es, out', rfl, hrun, (Except.ok.inj h).symm⟩
  | _ =>
      rw [encodeDoc] at h
      · cases h
      · intro es heq
        cases heq

theorem encodeRows_cons {childName path : String} {index : Nat} {row : Json} {rest out : List Json}
    (h : encodeRows types childName path index (row :: rest) = .ok out) :
    ∃ first more, encodeDoc types childName (path ++ "[" ++ toString index ++ "]") row = .ok first ∧
      encodeRows types childName path (index + 1) rest = .ok more ∧ out = first :: more := by
  rw [encodeRows] at h
  obtain ⟨first, hfirst, h⟩ := bind_eq_ok h
  obtain ⟨more, hmore, h⟩ := bind_eq_ok h
  exact ⟨first, more, hfirst, hmore, (Except.ok.inj h).symm⟩

theorem encodeEntries_length {doctype : DocTypeDef} {path : String} {es out : List (String × Json)}
    (h : encodeEntries types doctype path es = .ok out) : out.length ≤ es.length := by
  induction es generalizing out with
  | nil =>
      rw [encodeEntries] at h
      cases h
      exact Nat.le_refl _
  | cons e rest ih =>
      obtain ⟨v', more, _, hmore, rfl⟩ := encodeEntries_cons h
      have hlength := ih hmore
      split
      · exact Nat.le_succ_of_le hlength
      · exact Nat.succ_le_succ hlength

theorem length_entryMeanings (doctype : DocTypeDef) (es : List (String × Json)) :
    (entryMeanings types doctype es).length = es.length := by
  induction es with
  | nil => rw [entryMeanings]; rfl
  | cons e rest ih => rw [entryMeanings, List.length_cons, List.length_cons, ih]

theorem length_inferEntries (es : List (String × Json)) : (inferEntries es).length = es.length := by
  induction es with
  | nil => rw [inferEntries]; rfl
  | cons e rest ih => rw [inferEntries, List.length_cons, List.length_cons, ih]

/-! ### Every depth -/

/-- A plain value or null is read as what it says if and only if it is kept. -/
theorem read_plain_iff {read : Json → Value → Prop} {plain : Json → Prop} (hr : Reader read plain)
    {field : Option FieldDef} {path : String} {v v' : Json} (hnull : v ≠ .null)
    (harray : ∀ items, v ≠ .array items) (h : encodeField types field path v = .ok v') :
    read v' (plainMeaning field v) ↔ isTyped field = true ∨ plain v := by
  rcases encodeField_plain hnull harray h with
    ⟨s, rfl, rfl, htyped, hmeaning⟩ | ⟨s, rfl, rfl, htyped, hmeaning⟩ | ⟨htyped, rfl, hmeaning⟩
  · rw [hmeaning]
    exact iff_of_true (hr.decimal s) (.inl htyped)
  · rw [hmeaning]
    exact iff_of_true (hr.record s) (.inl htyped)
  · rw [hmeaning, hr.other hnull harray, htyped]
    simp

mutual

/-- The value of a field is read as what it says if and only if it is kept. -/
theorem read_encodeField_iff {read : Json → Value → Prop} {plain : Json → Prop}
    (hr : Reader read plain) {field : Option FieldDef} {path : String} {v' : Json} :
    (v : Json) → encodeField types field path v = .ok v' →
      (read v' (meaning types field v) ↔ Kept types plain field v)
  | .null, h => by
      rw [encodeField_null h, meaning, Kept]
      exact iff_of_true hr.null trivial
  | .array rows, h => by
      rw [meaning, Kept]
      rcases encodeField_array h with
        ⟨childName, child, rows', hname, hrows, hrun, rfl⟩ | ⟨hrows, rfl, hmeaning⟩
      · rw [hrows, hr.array, Value.list.injEq, eq_comm]
        exact inferItems_encodeRows_iff hname rows hrun
      · rw [hrows, hmeaning]
        exact iff_of_true ((hr.array rows _).mpr rfl) trivial
  | .bool b, h => by
      rw [meaning, Kept]
      · exact read_plain_iff hr (by simp) (by simp) h
      all_goals simp
  | .int i, h => by
      rw [meaning, Kept]
      · exact read_plain_iff hr (by simp) (by simp) h
      all_goals simp
  | .float text, h => by
      rw [meaning, Kept]
      · exact read_plain_iff hr (by simp) (by simp) h
      all_goals simp
  | .string s, h => by
      rw [meaning, Kept]
      · exact read_plain_iff hr (by simp) (by simp) h
      all_goals simp
  | .object es, h => by
      rw [meaning, Kept]
      · exact read_plain_iff hr (by simp) (by simp) h
      all_goals simp
termination_by structural v => v

theorem inferItems_encodeRows_iff {childName : String} {child : DocTypeDef}
    (hname : types.byName childName = some child) {path : String} {index : Nat}
    {rows' : List Json} :
    (rows : List Json) → encodeRows types childName path index rows = .ok rows' →
      (inferItems rows' = rowMeanings types child rows ↔ KeptRows types child rows)
  | [], h => by
      rw [encodeRows] at h
      cases h
      rw [inferItems, rowMeanings, KeptRows]
      exact iff_of_true rfl trivial
  | row :: rest, h => by
      obtain ⟨first, more, hfirst, hmore, rfl⟩ := encodeRows_cons h
      rw [inferItems_cons, rowMeanings, KeptRows, List.cons.injEq,
        nestedValue_encodeDoc_iff hname row hfirst, inferItems_encodeRows_iff hname rest hmore]
termination_by structural rows => rows

theorem nestedValue_encodeDoc_iff {childName : String} {child : DocTypeDef}
    (hname : types.byName childName = some child) {path : String} {out : Json} :
    (row : Json) → encodeDoc types childName path row = .ok out →
      (nestedValue out = rowMeaning types child row ↔ KeptRow types child row)
  | .object es, h => by
      obtain ⟨es', out', heq, hrun, rfl⟩ := encodeDoc_inv hname h
      cases heq
      rw [rowMeaning, KeptRow, ← taken_encodeEntries hrun, ← inferEntries_encodeEntries_iff es hrun]
      by_cases htaken : Taken (.object out')
      · -- what is taken for an envelope is no object any more
        refine iff_of_false (fun heq => ?_) fun hkept => hkept.1 htaken
        obtain ⟨x, hx⟩ := taken_iff.mp htaken
        rw [nestedValue_of_enveloped hx] at heq
        exact envelopeValue_ne_object hx _ heq
      · rw [nestedValue_of_not (fun h => htaken (taken_iff.mpr h)), inferValue]
        simp [htaken]
  | .null, h => by
      obtain ⟨es, out', heq, _⟩ := encodeDoc_inv hname h
      cases heq
  | .bool b, h => by
      obtain ⟨es, out', heq, _⟩ := encodeDoc_inv hname h
      cases heq
  | .int i, h => by
      obtain ⟨es, out', heq, _⟩ := encodeDoc_inv hname h
      cases heq
  | .float text, h => by
      obtain ⟨es, out', heq, _⟩ := encodeDoc_inv hname h
      cases heq
  | .string s, h => by
      obtain ⟨es, out', heq, _⟩ := encodeDoc_inv hname h
      cases heq
  | .array items, h => by
      obtain ⟨es, out', heq, _⟩ := encodeDoc_inv hname h
      cases heq
termination_by structural row => row

theorem inferEntries_encodeEntries_iff {doctype : DocTypeDef} {path : String}
    {out : List (String × Json)} :
    (es : List (String × Json)) → encodeEntries types doctype path es = .ok out →
      (inferEntries out = entryMeanings types doctype es ↔ KeptEntries types doctype es)
  | [], h => by
      rw [encodeEntries] at h
      cases h
      rw [inferEntries, entryMeanings, KeptEntries]
      exact iff_of_true rfl trivial
  | (name, v) :: rest, h => by
      obtain ⟨v', more, hv', hmore, rfl⟩ := encodeEntries_cons h
      rw [KeptEntries]
      by_cases hproto : name = "__proto__"
      · -- the entry is gone, so one is missing
        rw [if_pos hproto]
        refine iff_of_false (fun heq => ?_) fun hkept => hkept.1 hproto
        have hlength := congrArg List.length heq
        rw [length_inferEntries, length_entryMeanings, List.length_cons] at hlength
        have := encodeEntries_length hmore
        omega
      · rw [if_neg hproto, inferEntries_cons, entryMeanings, List.cons.injEq, Prod.mk.injEq,
          read_encodeField_iff nestedReader v hv', inferEntries_encodeEntries_iff rest hmore]
        simp [hproto]
termination_by structural es => es

end

/-! ### The whole document -/

/-- The value of an entry at the top is kept. The kernel makes money of texts under a name that any
definition of the DocType makes a currency, and the encoder goes by the last. -/
def KeptAtTop (types : DocTypeSet) (doctype : DocTypeDef) (e : String × Json) : Prop :=
  e.1 ≠ "__proto__" ∧ Kept types
    (fun v => envelopeParts v = none ∧ (doctype.isCurrency e.1 = true → ¬ MoneyLike v))
    (fieldOf doctype e.1) e.2

/-- A document whose entries are kept. -/
def KeptDoc (types : DocTypeSet) (name : String) (doc : Json) : Prop :=
  ∃ doctype es, types.byName name = some doctype ∧ doc = .object es ∧
    ∀ e ∈ es, KeptAtTop types doctype e

/-- The kernel reads what the document says. -/
def ReadAs (types : DocTypeSet) (name : String) (doc out : Json) : Prop :=
  ∃ doctype es, types.byName name = some doctype ∧ doc = .object es ∧
    parseWriteDoc (.ok types.list) name (some out) = .ok (entryMeanings types doctype es)

/-- `parse_write_doc`, for an entry. -/
def parseEntry (doctype : DocTypeDef) (e : String × Json) : Except BrokerError (String × Value) := do
  let value ← parseWriteField (doctype.isCurrency e.1) e.1 e.2
  return (e.1, value)

theorem parseEntry_ok_iff {doctype : DocTypeDef} {name : String} {v : Json} {x : Value} :
    parseEntry doctype (name, v) = .ok (name, x) ↔
      parseWriteField (doctype.isCurrency name) name v = .ok x := by
  constructor
  · intro h
    obtain ⟨x', hx', h⟩ := bind_eq_ok h
    cases h
    exact hx'
  · exact fun h => bind_of_ok h rfl

theorem parseEntries_iff {doctype : DocTypeDef} {path : String} {es out : List (String × Json)}
    (h : encodeEntries types doctype path es = .ok out) :
    out.mapM (parseEntry doctype) = .ok (entryMeanings types doctype es) ↔
      ∀ e ∈ es, KeptAtTop types doctype e := by
  induction es generalizing out with
  | nil =>
      rw [encodeEntries] at h
      cases h
      rw [entryMeanings]
      exact iff_of_true rfl fun e he => nomatch he
  | cons e rest ih =>
      obtain ⟨name, v⟩ := e
      obtain ⟨v', more, hv', hmore, rfl⟩ := encodeEntries_cons h
      rw [List.forall_mem_cons, ← ih hmore]
      by_cases hproto : name = "__proto__"
      · rw [if_pos hproto]
        refine iff_of_false (fun heq => ?_) fun hkept => hkept.1.1 hproto
        have hlength := (forall₂_of_mapM_ok heq).length_eq
        rw [length_entryMeanings, List.length_cons] at hlength
        have := encodeEntries_length hmore
        omega
      · have hread := read_encodeField_iff (topReader (doctype.isCurrency name) name) v hv'
        rw [if_neg hproto, entryMeanings, mapM_cons_ok_iff, parseEntry_ok_iff, hread]
        simp [KeptAtTop, hproto]

/-- A name is one DocType's, so the first with the name is also the last. -/
theorem byName_eq (types : DocTypeSet) (name : String) :
    types.byName name = types.list.find? (·.name = name) := by
  cases hfind : types.list.find? (·.name = name) with
  | none =>
      refine List.find?_eq_none.mpr fun dt hdt => ?_
      exact List.find?_eq_none.mp hfind dt (List.mem_reverse.mp hdt)
  | some dt =>
      have hdt := List.mem_of_find?_eq_some hfind
      have hname : dt.name = name := by simpa using List.find?_some hfind
      cases hlast : types.byName name with
      | none =>
          have hnot := List.find?_eq_none.mp hlast dt (List.mem_reverse.mpr hdt)
          exact absurd (by simpa using hname) hnot
      | some last =>
          obtain ⟨hlastMem, hlastName⟩ := byName_some hlast
          have hsame := List.inj_on_of_nodup_map types.distinct hdt hlastMem
            (hname.trans hlastName.symm)
          rw [hsame]

/-- An encoded document is read as what it says if and only if it is kept. -/
theorem readAs_iff {name path : String} {doc out : Json}
    (h : encodeDoc types name path doc = .ok out) :
    ReadAs types name doc out ↔ KeptDoc types name doc := by
  have hparse {doctype : DocTypeDef} {es : List (String × Json)}
      (hname : types.byName name = some doctype) (hdoc : doc = .object es) :
      parseWriteDoc (.ok types.list) name (some out) = .ok (entryMeanings types doctype es) ↔
        ∀ e ∈ es, KeptAtTop types doctype e := by
    obtain ⟨es', out', hdoc', hrun, rfl⟩ := encodeDoc_inv hname h
    obtain rfl : es' = es := by
      rw [hdoc] at hdoc'
      exact (Json.object.inj hdoc').symm
    rw [← parseEntries_iff hrun]
    have hfind : types.list.find? (·.name = name) = some doctype := byName_eq types name ▸ hname
    have hread : parseWriteDoc (.ok types.list) name (some (.object out'))
        = out'.mapM (parseEntry doctype) := by
      simp only [parseWriteDoc, bind, Except.bind, hfind]
      rfl
    rw [hread]
  constructor
  · rintro ⟨doctype, es, hname, hdoc, hread⟩
    exact ⟨doctype, es, hname, hdoc, (hparse hname hdoc).mp hread⟩
  · rintro ⟨doctype, es, hname, hdoc, hkept⟩
    exact ⟨doctype, es, hname, hdoc, (hparse hname hdoc).mpr hkept⟩

/-! ### Money in numbers -/

/-- The JSON is a number. -/
def IsNumber : Json → Prop
  | .int _ | .float _ => True
  | _ => False

/-- There is a number for a currency, in the document or in rows of a known DocType. -/
inductive MoneyNumber (types : DocTypeSet) : DocTypeDef → List (String × Json) → Prop
  | here {doctype : DocTypeDef} {es : List (String × Json)} {name : String} {v : Json}
      {field : FieldDef} (hmem : (name, v) ∈ es) (hfield : fieldOf doctype name = some field)
      (htype : field.fieldtype = "Currency") (hnumber : IsNumber v) : MoneyNumber types doctype es
  | inRow {doctype child : DocTypeDef} {es row : List (String × Json)} {name childName : String}
      {rows : List Json} {field : FieldDef} (hmem : (name, .array rows) ∈ es)
      (hfield : fieldOf doctype name = some field) (htype : field.fieldtype = "Table")
      (hchild : childOf types field = some (childName, child)) (hrow : .object row ∈ rows)
      (hmoney : MoneyNumber types child row) : MoneyNumber types doctype es

/-- Every entry of an encoded document was encoded. -/
theorem encodeField_of_mem {doctype : DocTypeDef} {path name : String} {v : Json}
    {es out : List (String × Json)} (h : encodeEntries types doctype path es = .ok out)
    (hmem : (name, v) ∈ es) :
    ∃ path v', encodeField types (fieldOf doctype name) path v = .ok v' := by
  induction es generalizing out with
  | nil => cases hmem
  | cons e rest ih =>
      obtain ⟨key, w⟩ := e
      obtain ⟨w', more, hw', hmore, -⟩ := encodeEntries_cons h
      rcases List.mem_cons.mp hmem with heq | hmem
      · cases heq
        exact ⟨_, _, hw'⟩
      · exact ih hmore hmem

theorem encodeDoc_of_mem {childName path : String} {index : Nat} {row : Json} {rows out : List Json}
    (h : encodeRows types childName path index rows = .ok out) (hmem : row ∈ rows) :
    ∃ path out, encodeDoc types childName path row = .ok out := by
  induction rows generalizing index out with
  | nil => cases hmem
  | cons first rest ih =>
      obtain ⟨first', more, hfirst, hmore, -⟩ := encodeRows_cons h
      rcases List.mem_cons.mp hmem with heq | hmem
      · subst heq
        exact ⟨_, _, hfirst⟩
      · exact ih hmore hmem

/-- A number for a currency is refused, at any depth. -/
theorem encodeEntries_moneyNumber {doctype : DocTypeDef} {path : String}
    {es out : List (String × Json)} (hmoney : MoneyNumber types doctype es) :
    encodeEntries types doctype path es ≠ .ok out := by
  induction hmoney generalizing path out with
  | @here doctype es name v field hmem hfield htype hnumber =>
      intro h
      obtain ⟨path, v', hv'⟩ := encodeField_of_mem h hmem
      rw [hfield] at hv'
      replace hv' : encodeValue types field path v = .ok v' := hv'
      cases v with
      | int i => simp [encodeValue, encodePlain, htype] at hv'
      | float t => simp [encodeValue, encodePlain, htype] at hv'
      | _ => exact hnumber
  | @inRow doctype child es row name childName rows field hmem hfield htype hchild hrow _ ih =>
      intro h
      obtain ⟨path, v', hv'⟩ := encodeField_of_mem h hmem
      rw [hfield] at hv'
      rcases encodeField_array hv' with ⟨childName', child', rows', hname, hrows, hrun, -⟩ | ⟨hrows, -⟩
      · have hsame : child' = child := by
          simpa [rowsOf, Option.filter, htype, hchild, eq_comm] using hrows
        subst hsame
        obtain ⟨path, out, hdoc⟩ := encodeDoc_of_mem hrun hrow
        obtain ⟨es', out', heq, hentries, -⟩ := encodeDoc_inv hname hdoc
        cases heq
        exact ih hentries
      · simp [rowsOf, Option.filter, htype, hchild] at hrows

/-- A number for a currency of the document or of its rows. -/
def HasMoneyNumber (types : DocTypeSet) (name : String) (doc : Json) : Prop :=
  ∃ doctype es, types.byName name = some doctype ∧ doc = .object es ∧ MoneyNumber types doctype es

/-- Every DocType has its schema, an encoded document is read as what it says if and only if it is
kept, and a number for a currency is refused. -/
theorem documents_iff (types : DocTypeSet) (name path : String) (doc : Json) :
    (∀ doctype, ∃ schema, ∀ fuel, types.list.length < fuel →
      objectSchema types fuel doctype [doctype.name] true = some schema) ∧
    (∀ out, encodeDoc types name path doc = .ok out →
      (ReadAs types name doc out ↔ KeptDoc types name doc)) ∧
    (HasMoneyNumber types name doc → ∃ e, encodeDoc types name path doc = .error e) := by
  refine ⟨objectSchema_terminates types, fun out h => readAs_iff h, ?_⟩
  rintro ⟨doctype, es, hname, rfl, hmoney⟩
  cases hrun : encodeDoc types name path (.object es) with
  | error e => exact ⟨e, rfl⟩
  | ok out =>
      obtain ⟨es', out', heq, hentries, -⟩ := encodeDoc_inv hname hrun
      cases heq
      exact absurd hentries (encodeEntries_moneyNumber hmoney)

/-- A line has a kind. -/
def line : DocTypeDef where
  name := "line"
  fields := [
    { fieldname := "kind", fieldtype := "Select", options := ["text", "item"] },
    { fieldname := "v", fieldtype := "Data" },
    { fieldname := "amount", fieldtype := "Currency" }]

/-- Invoices of lines. -/
def invoices : DocTypeSet where
  list := [
    { name := "invoice", fields := [{ fieldname := "lines", fieldtype := "Table", options := ["line"] }] },
    line]
  distinct := by decide

/-- An invoice of one line. -/
def oneLine (kind : String) : Json :=
  .object [("lines", .array [.object [("kind", .string kind), ("v", .string "net"),
    ("amount", .string "0.10")]])]

/-- A line of a kind that no envelope has. -/
theorem documents_iff_item : ∃ out, encodeDoc invoices "invoice" "invoice" (oneLine "item") = .ok out ∧
    ReadAs invoices "invoice" (oneLine "item") out := by
  refine ⟨_, by rfl, ?_⟩
  refine ((documents_iff invoices "invoice" "invoice" (oneLine "item")).2.1 _ rfl).mpr ?_
  refine ⟨_, _, rfl, rfl, fun e he => ?_⟩
  obtain rfl := List.mem_singleton.mp he
  have hline : ¬ RowTaken line [("kind", .string "item"), ("v", .string "net"), ("amount", .string "0.10")] := by
    rintro ⟨kind, hkind, hlookup, -⟩
    cases hlookup
    exact absurd hkind (by decide)
  have hplain (s : String) : ¬ Taken (.string s) := by
    rintro ⟨kind, w, hparts, -⟩
    cases hparts
  exact ⟨by decide, ⟨hline, ⟨by decide, .inr (hplain _), by decide, .inr (hplain _), by decide,
    .inl rfl, trivial⟩⟩, trivial⟩

/-- A line of the kind `text` is read as the text of its `v`, and its amount is lost. -/
theorem not_documents : ¬ ∀ types name doc out, encodeDoc types name name doc = .ok out →
    ReadAs types name doc out := by
  intro h
  obtain ⟨doctype, es, hname, hdoc, hread⟩ := h invoices "invoice" (oneLine "text") _ (by rfl)
  cases hname
  cases hdoc
  have hlines : (Except.ok [("lines", .list [.text "net"])] : Except BrokerError Doc)
      = .ok [("lines", .list [.object [("kind", .text "text"), ("v", .text "net"),
          ("amount", .decimal "0.10")]])] := hread
  cases hlines

end Frust.Mcp
