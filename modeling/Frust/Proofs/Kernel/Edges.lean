import Frust.Proofs.Kernel.Managers
import Frust.Proofs.Kernel.Solo

/-!
# `Frust.Proofs.Kernel.Edges`: the hooks of the docstatus edges

`fireEdges` compares the baseline with the document that the hooks are shown first, and it
looks at integers only. What the table stores comes later: `validate` may rewrite docstatus,
and the column takes a decimal or a float in as an integer. `storedStatus` is the docstatus
that is stored, read off the content that is written.

`edge_hooks_iff` says when the hooks that ran are those of the move that was committed: when
the edges of the document shown are the edges of the content (`Foreseen`). A `validate` that
submits the document is not foreseen (`not_edge_hooks`).
-/

set_option autoImplicit false

namespace Frust.Kernel

open Frust.Lib

/-- The row that a write goes over. -/
def priorRow : WriteOp → Option Doc → Option Doc
  | .create, _ => none
  | .update, row => row

/-- The docstatus of a row. -/
def rowStatus (row : Option Doc) : Value := (row.map (col · "docstatus")).getD .null

/-- Docstatus moves to the value. -/
def Crosses (before after : Value) (target : Int) : Prop :=
  before ≠ .int target ∧ after = .int target

/-- The hook of an edge ran before the commit, and accepted, if docstatus moved along the
edge. If docstatus did not, the hook did not run. -/
def EdgeHooks (before after : Value) (s : SoloState) : Prop :=
  ∀ e ∈ edges, (Crosses before after e.1 → (e.2, true) ∈ s.committed) ∧
    (¬Crosses before after e.1 → ∀ accepted, (e.2, accepted) ∉ s.ran)

/-- The docstatus that an `int` column stores for the content. -/
def storedStatus (E : Engine) (op : WriteOp) (row : Option Doc) (content : Doc) : Value :=
  let merged := mergeRow ((priorRow op row).getD []) content
  (E.coerce .int (docstatusGiven (op = .create) (col merged "docstatus"))).getD .null

/-- The docstatus that the edges start from. -/
def Solo.edgeBefore (solo : Solo) (E : Engine) (row : Option Doc) (op : WriteOp)
    (record : Option String) : Int :=
  (docstatusOf (solo.baseline E row op record)).getD 0

/-- The document that the hooks are shown first crosses the edges that the content crosses,
from the row, once `validate` has returned. -/
def Foreseen (solo : Solo) (E : Engine) (row : Option Doc) (op : WriteOp)
    (record : Option String) (doc : Doc) : Prop :=
  let before := solo.edgeBefore E row op record
  ∀ shown validated, solo.shown E row op record doc = .ok shown →
    solo.validate shown = .ok validated → ∀ e ∈ edges,
      (Crosses (.int before) (.int ((docstatusOf shown).getD before)) e.1 ↔
        Crosses (rowStatus (priorRow op row))
          (storedStatus E op row (solo.content op doc shown validated)) e.1)

/-- The hooks that ran, where none had before. -/
theorem mem_ran_iff {op : WriteOp} {before after : Int} {e : Int × HookClass} (he : e ∈ edges)
    (accepted : Bool) :
    (e.2, accepted) ∈ Solo.inserts op ++ (crossed before after).map (fun e => (e.2, true)) ↔
      accepted = true ∧ Crosses (.int before) (.int after) e.1 := by
  have hinserts : (e.2, accepted) ∉ Solo.inserts op := by
    rcases List.mem_pair.mp he with rfl | rfl <;> cases op <;> simp [Solo.inserts]
  have hinj : ∀ e' ∈ edges, e'.2 = e.2 → e' = e := by
    intro e' he'
    rcases List.mem_pair.mp he with rfl | rfl <;> rcases List.mem_pair.mp he' with rfl | rfl <;>
      simp
  rw [List.mem_append, List.mem_map]
  constructor
  · rintro (hin | ⟨e', he', heq⟩)
    · exact absurd hin hinserts
    · obtain ⟨hedge, hcross⟩ := List.mem_filter.mp he'
      obtain ⟨hhook, htrue⟩ := Prod.mk.inj heq
      have hself := hinj e' hedge hhook
      subst hself
      exact ⟨htrue.symm, by simpa [Crosses] using hcross⟩
  · rintro ⟨rfl, hcross⟩
    exact Or.inr ⟨e, List.mem_filter.mpr ⟨he, by simpa [Crosses] using hcross⟩, rfl⟩

/-- A write stores the docstatus of its content. -/
theorem SoloWrite.storedStatus {solo : Solo} {E : Engine} {op : WriteOp} {record : Option String}
    {doc : Doc} {s s' : SoloState} (w : SoloWrite solo E op record doc s s') {names : List String}
    {ds : List Ddl} (hgates : solo.gates = gatesOf names ds)
    (hint : docstatusField ∈ columnsOf ds) :
    rowStatus s'.row
      = Kernel.storedStatus E op s.row (solo.content op doc w.shown w.validated) := by
  have hnodup : (solo.gates.columns.map (·.name)).Nodup := by
    rw [hgates]
    exact nodup_columnsOf ds
  have hmem : docstatusField ∈ solo.gates.columns := by
    rw [hgates]
    exact hint
  -- What is stored is the statement's content, in the shape of the columns.
  obtain ⟨_, stmt, _, hstmt, hstores⟩ := w.sent
  obtain ⟨_, _, hstmt⟩ := bind_eq_ok hstmt
  unfold rowStatus Kernel.storedStatus
  rw [w.row]
  cases op with
  | create =>
      cases hstmt
      obtain ⟨i, hi, hcol⟩ := shape_docstatus hnodup hmem (create_inv hstores).1
      show col w.after "docstatus" = (E.coerce .int (docstatusGiven true _)).getD .null
      rw [hcol]
      exact congrArg (Option.getD · .null) hi.symm
  | update =>
      cases record with
      | none => cases hstmt
      | some key =>
          cases hstmt
          obtain ⟨before, hbefore, hupdate⟩ := Option.bind_eq_some_iff.mp hstores
          obtain ⟨i, hi, hcol⟩ := shape_docstatus hnodup hmem (update_inv hupdate).1
          show col w.after "docstatus" = (E.coerce .int (docstatusGiven false _)).getD .null
          rw [hcol, hbefore]
          exact congrArg (Option.getD · .null) hi.symm

/-- A write on a table whose docstatus column is the engine's: the hooks of the edges that
ran are those of the move that was committed exactly when the move was foreseen. -/
theorem edge_hooks_iff {solo : Solo} {E : Engine} {names : List String} {ds : List Ddl}
    (hgates : solo.gates = gatesOf names ds) (hint : docstatusField ∈ columnsOf ds)
    {caller : Caller} {chain : HookChain} {op : WriteOp} {doctype : String}
    {record : Option String} {doc : Doc} {row : Option Doc} {s : SoloState} {stored : Json}
    (h : (dbWrite caller chain op doctype record doc).run (solo.serve E) { row := row }
      = (.ok stored, s)) :
    EdgeHooks (rowStatus (priorRow op row)) (rowStatus s.row) s ↔
      Foreseen solo E row op record doc := by
  obtain ⟨w⟩ := solo_write h
  -- The hooks that ran are those of the edge from what was shown.
  have hran : s.ran = Solo.inserts op ++ (crossed (solo.edgeBefore E row op record)
      ((docstatusOf w.shown).getD (solo.edgeBefore E row op record))).map fun e => (e.2, true) :=
    w.ran
  unfold EdgeHooks
  rw [w.committed, w.storedStatus hgates hint, hran]
  constructor
  · intro hhooks shown validated hshown hvalidated e he
    -- what the hooks return is the write's own
    cases w.shows.symm.trans hshown
    cases w.validates.symm.trans hvalidated
    obtain ⟨hmoved, hstayed⟩ := hhooks e he
    constructor
    · intro hcross
      by_contra hnot
      exact hstayed hnot true ((mem_ran_iff he true).mpr ⟨rfl, hcross⟩)
    · intro hcross
      exact ((mem_ran_iff he true).mp (hmoved hcross)).2
  · intro hforeseen e he
    have hiff := hforeseen w.shown w.validated w.shows w.validates e he
    constructor
    · intro hcross
      exact (mem_ran_iff he true).mpr ⟨rfl, hiff.mpr hcross⟩
    · intro hnot accepted hin
      exact hnot (hiff.mp ((mem_ran_iff he accepted).mp hin).2)

/-! ### A manager among invoices -/

/-- The manager. -/
def manager : Caller := ⟨"m", "", "manager"⟩

/-- A table of invoices that the manager works on, with a `validate` hook. -/
def managersInvoice (validate : Doc → Except BrokerError Doc) : Solo where
  doctype := ⟨"invoice", [{ fieldname := "note", fieldtype := "Text" }]⟩
  gates := gatesOf ["docstatus_lattice"] invoiceDdls
  session := ⟨"app_user:m", "manager"⟩
  fire _ doc := .ok doc
  validate := validate
  fresh := "invoice:new"

/-- The manager writes over a draft. -/
def managersWrite (validate : Doc → Except BrokerError Doc) (doc : Doc) :
    Except BrokerError Json × SoloState :=
  (dbWrite manager [] .update "invoice" (some "d") doc).run
    ((managersInvoice validate).serve plain) { row := some (clerksInvoice 0) }

/-- The manager submits a draft, and the hooks let it through. -/
theorem edge_hooks_submit :
    let s := (managersWrite .ok [("docstatus", .int 1)]).2
    rowStatus s.row = .int 1 ∧ EdgeHooks (.int 0) (rowStatus s.row) s := by
  obtain ⟨stored, hstored⟩ :
      ∃ stored, (managersWrite .ok [("docstatus", .int 1)]).1 = .ok stored := ⟨_, rfl⟩
  have hgates : (managersInvoice .ok).gates = gatesOf ["docstatus_lattice"] invoiceDdls := rfl
  have hiff := edge_hooks_iff (E := plain) hgates (List.mem_of_elem_eq_true rfl) (Prod.ext hstored rfl : managersWrite .ok _ = (.ok stored, _))
  refine ⟨rfl, hiff.mpr ?_⟩
  intro shown validated hshown hvalidated e he
  cases hshown
  cases hvalidated
  -- both go from 0 to 1
  show Crosses (.int 0) (.int 1) e.1 ↔ Crosses (.int 0) (.int 1) e.1
  rfl

/-- The manager changes the note of a draft, and `validate` submits it: the invoice goes
from 0 to 1, and no `on_submit` hook has run. -/
theorem not_edge_hooks :
    let s := (managersWrite (.ok <| setField "docstatus" (.int 1) ·) [("note", .text "paid")]).2
    rowStatus s.row = .int 1 ∧ s.ran = [] ∧ ¬EdgeHooks (.int 0) (rowStatus s.row) s := by
  refine ⟨rfl, rfl, fun h => ?_⟩
  have hcross : Crosses (.int 0) (.int 1) 1 := ⟨by simp, rfl⟩
  have hran := (h (1, .onSubmit) (by decide)).1 hcross
  exact absurd hran List.not_mem_nil

end Frust.Kernel
