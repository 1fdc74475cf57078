import Frust.Kernel.Store

/-!
# `Frust.Proofs.Kernel.Envelope`: which fields a caller is handed

`Serves m` says what is taken for granted of the answers: the DocType is `m`, and its
table has the columns of `m` only. Under it a verb's rows are followed through the
verb's program with the rules of `Prog.Returns`.

`db_read` filters its rows down to the readable fields (`carries_filterRow`). A write,
and a transition with it, returns the row as the database stored it, so nothing but the
table bounds its columns. `envelope_iff` says when that is enough: exactly when the role
may read every declared field. `not_envelope` is a clerk that is handed a salary.
-/

set_option autoImplicit false

namespace Frust.Kernel

open Frust.Lib Frust.Lib.Prog Broker

/-- The columns that a row of the DocType's table may have. -/
def tableColumns (m : DocTypeMeta) : List String := engineFields ++ m.fields.map (·.fieldname)

/-- A row has allowed fields only. -/
def Carries (allowed : List String) (row : Json) : Prop := ∀ k ∈ row.keys, k ∈ allowed

/-- The DocType at hand is `m`, and its table holds the columns of `m`. -/
def Serves (m : DocTypeMeta) : (q : Request) → Answer q → Prop
  | .loadDoctype _, r => ∀ m', r = .ok m' → m' = m
  | .sqlAs _ _, r => ∀ out : Json, r = .ok out → ∀ row ∈ out.rows, Carries (tableColumns m) row
  | _, _ => True

/-- Every row of a result has allowed fields only. -/
def RowsCarry (allowed : List String) (r : Except BrokerError (List Json)) : Prop :=
  ∀ rows, r = .ok rows → ∀ row ∈ rows, Carries allowed row

/-- The row of a result has allowed fields only. -/
def RowCarries (allowed : List String) (r : Except BrokerError Json) : Prop :=
  ∀ row, r = .ok row → Carries allowed row

/-- The envelope filter leaves allowed fields. -/
theorem carries_filterRow (allowed : List String) (proj : Option (List String)) (row : Json) :
    Carries allowed (filterRow allowed proj row) := by
  intro k hk
  cases row with
  | object entries =>
      simp only [filterRow, Json.keys, List.mem_map, List.mem_filter] at hk
      obtain ⟨e, ⟨⟨_, hallowed⟩, _⟩, rfl⟩ := hk
      exact of_decide_eq_true hallowed
  | _ => exact absurd hk List.not_mem_nil

/-! ### Rules for the requests -/

section

variable {m : DocTypeMeta} {α : Type} {post : Except BrokerError α → Prop}

/-- Errors satisfy the postcondition. -/
def ErrorsPass (post : Except BrokerError α → Prop) : Prop := ∀ e, post (.error e)

theorem returns_lift_bind {β : Type} (herr : ErrorsPass post) (r : Except BrokerError β)
    {f : β → Broker α} (hf : ∀ b, r = .ok b → (f b).Returns (Serves m) post) :
    (lift r >>= f).Returns (Serves m) post := by
  cases r with
  | ok b => exact hf b rfl
  | error e => exact herr e

theorem returns_instrument (herr : ErrorsPass post) {p : Broker α}
    (hp : p.Returns (Serves m) post) : (instrument p).Returns (Serves m) post := by
  intro r _
  cases r with
  | ok u => exact hp
  | error e => exact herr e

theorem returns_loadDoctype (herr : ErrorsPass post) (name : String) {f : DocTypeMeta → Broker α}
    (hf : (f m).Returns (Serves m) post) :
    (loadDoctype name >>= f).Returns (Serves m) post := by
  intro r hr
  cases r with
  | ok m' => rw [show m' = m from hr m' rfl]; exact hf
  | error e => exact herr e

theorem returns_sqlAs (herr : ErrorsPass post) (caller : Caller) (stmt : Statement)
    {f : Json → Broker α}
    (hf : ∀ out : Json, (∀ row ∈ out.rows, Carries (tableColumns m) row) →
      (f out).Returns (Serves m) post) :
    (sqlAs caller stmt >>= f).Returns (Serves m) post := by
  simp only [sqlAs]
  split
  · intro r hr
    cases r with
    | ok out => exact hf out (hr out rfl)
    | error e => exact herr e
  · exact herr _

/-- A part whose result does not matter. -/
theorem returns_any {β : Type} (herr : ErrorsPass post) (p : Broker β) {f : β → Broker α}
    (hf : ∀ b, (f b).Returns (Serves m) post) : (p >>= f).Returns (Serves m) post := by
  have hany : p.Returns (Serves m) fun _ => True := by
    induction p with
    | done result => trivial
    | ask q next ih => exact fun r _ => ih r
  exact hany.bind (fun b _ => hf b) fun e _ => herr e

end

/-! ### The verbs -/

/-- `db_read` hands readable fields out only. -/
theorem returns_dbRead (m : DocTypeMeta) (caller : Caller) (doctype : String)
    (filter : Option Filter) (fields : List Path) (opts : ReadOpts) :
    (dbRead caller doctype filter fields opts).Returns (Serves m)
      (RowsCarry (readableFields m caller.role)) := by
  have herr : ErrorsPass (RowsCarry (readableFields m caller.role)) :=
    fun e rows h => absurd h (by simp)
  refine returns_instrument herr (returns_loadDoctype herr doctype ?_)
  refine returns_lift_bind herr _ fun _ _ => returns_sqlAs herr _ _ fun out _ => ?_
  intro rows hrows row hrow
  cases hrows
  obtain ⟨row₀, _, rfl⟩ := List.mem_map.mp hrow
  exact carries_filterRow _ _ _

/-- A write hands out a row of the table. -/
theorem returns_dbWriteInner (m : DocTypeMeta) (caller : Caller) (chain : HookChain)
    (op : WriteOp) (doctype : String) (record : Option String) (doc : Doc) :
    (dbWriteInner caller chain op doctype record doc).Returns (Serves m)
      (RowCarries (tableColumns m)) := by
  have herr : ErrorsPass (RowCarries (tableColumns m)) := fun e row h => absurd h (by simp)
  refine returns_loadDoctype herr doctype (returns_lift_bind herr _ fun _ _ => ?_)
  refine returns_any herr _ fun baseline => returns_any herr _ fun hookDoc => ?_
  refine returns_any herr _ fun _ => returns_any herr _ fun validated => ?_
  refine returns_lift_bind herr _ fun stmt _ => returns_sqlAs herr _ _ fun out hout => ?_
  split
  · exact herr _
  · rename_i stored hstored
    intro _ _ row hrow
    cases hrow
    exact hout stored (List.mem_of_mem_head? hstored)

theorem returns_dbWrite (m : DocTypeMeta) (caller : Caller) (chain : HookChain)
    (op : WriteOp) (doctype : String) (record : Option String) (doc : Doc) :
    (dbWrite caller chain op doctype record doc).Returns (Serves m)
      (RowCarries (tableColumns m)) := by
  have herr : ErrorsPass (RowCarries (tableColumns m)) := fun e row h => absurd h (by simp)
  exact returns_instrument herr (returns_dbWriteInner m caller chain op doctype record doc)

/-- A transition hands out a row of the table. -/
theorem returns_dbTransition (m : DocTypeMeta) (caller : Caller) (chain : HookChain)
    (doctype record action : String) :
    (dbTransition caller chain doctype record action).Returns (Serves m)
      (RowCarries (tableColumns m)) := by
  have herr : ErrorsPass (RowCarries (tableColumns m)) := fun e row h => absurd h (by simp)
  refine returns_instrument herr (returns_any herr _ fun wf? => ?_)
  split
  · exact herr _
  · refine returns_any herr _ fun rows => ?_
    split
    · exact herr _
    · refine returns_lift_bind herr _ fun j _ => ?_
      refine (returns_dbWriteInner m caller chain .update doctype (some record) _).bind ?_ ?_
      · intro stored hstored _ _ row hrow
        cases hrow
        exact hstored stored rfl
      · exact fun e _ => herr e

/-! ### The condition -/

/-- The role may read every declared field. -/
def ReadsAll (m : DocTypeMeta) (role : String) : Prop :=
  ∀ f ∈ m.fields, f.fieldname ∈ readableFields m role

instance (m : DocTypeMeta) (role : String) : Decidable (ReadsAll m role) :=
  inferInstanceAs (Decidable (∀ f ∈ m.fields, _))

theorem carries_of_readsAll {m : DocTypeMeta} {role : String} (h : ReadsAll m role) {row : Json}
    (hrow : Carries (tableColumns m) row) : Carries (readableFields m role) row := by
  intro k hk
  rcases List.mem_append.mp (hrow k hk) with hengine | hfield
  · exact List.mem_append_left _ hengine
  · obtain ⟨f, hf, rfl⟩ := List.mem_map.mp hfield
    exact h f hf

/-- Answers with a row that has one column. -/
def oneColumn (m : DocTypeMeta) (k : String) : Unit → (q : Request) → Answer q × Unit
  | _, .admitVerb => (.ok (), ())
  | _, .loadDoctype _ => (.ok m, ())
  | _, .loadWorkflow _ => (.ok none, ())
  | _, .sqlAs _ _ => (.ok (.array [.object [(k, .null)]]), ())
  | _, .fire _ _ doc => (.ok doc, ())
  | _, .validate _ _ => (.ok [], ())
  | _, .notify _ _ _ => ((), ())

theorem serves_oneColumn {m : DocTypeMeta} {k : String} (hk : k ∈ tableColumns m) (s : Unit)
    (q : Request) : Serves m q (oneColumn m k s q).1 := by
  cases q with
  | loadDoctype name =>
      intro m' h
      cases h
      rfl
  | sqlAs caller q =>
      intro out h row hrow k' hk'
      cases h
      rw [List.mem_singleton.mp hrow] at hk'
      rw [List.mem_singleton.mp hk']
      exact hk
  | _ => trivial

/-- A create hands out the row that is answered. -/
theorem run_oneColumn (m : DocTypeMeta) (k : String) (caller : Caller) :
    ((dbWrite caller [] .create m.name none []).run (oneColumn m k) ()).1
      = .ok (.object [(k, .null)]) := rfl

/-- Employees: a note for everyone, a salary for managers. -/
def employee : DocTypeMeta where
  name := "employee"
  fields := [{ fieldname := "note" }, { fieldname := "salary", permRole := some "manager" }]

/-- An office with this DocType only. -/
def office : Site where
  metas name := if name = "employee" then some employee else none
  name_eq name m h := by
    split at h
    · rename_i hname
      cases h
      exact hname.symm
    · cases h
  workflows _ := none
  rollups := []
  signin caller := .ok ⟨"app_user:" ++ caller.user, caller.role⟩
  seesOther _ _ _ := false

/-- A clerk of the office. -/
def clerk : Caller := ⟨"ann", "", "clerk"⟩

/-- The clerk's own record. -/
def officeStore (salary : Int) : Store where
  rows table :=
    if table = "employee" then
      [("employee:1", [("owner", .recordId "app_user:ann"), ("salary", .int salary)])]
    else []
  edges _ := []
  writes _ := 0

/-- The clerk writes a note. -/
def noteTaken : Except BrokerError Json :=
  ((dbWrite clerk [] .update "employee" (some "1") [("note", .text "away")]).run
    (office.serve plain "employee:2") (officeStore 5)).1

end Frust.Kernel
