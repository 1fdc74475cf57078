import Frust.Proofs.Kernel.Compile
import Frust.Proofs.Kernel.Docstatus
import Mathlib

/-!
# `Frust.Proofs.Kernel.Managers`: who takes a document out of draft

`submittable_gates` reads the gates off the statements of a submittable DocType: its
table is closed to record users, or it has the engine's docstatus column, the lattice
event, the update permission with its draft clause, and deletes for managers only.

`managers_only_iff` is about whole runs under these gates. The update permission sees
the row after the update only, and the create permission sees no docstatus at all. So a
non-manager creates a document out of draft (`not_managers_only`), and brings one back
from a value off the lattice.
-/

set_option autoImplicit false

namespace Frust.Kernel

open Frust.Lib

/-! ### The gates of a compiled table -/

section

variable {dt : DocTypeDef} {rollups : List String} {ds : List Ddl}

/-- A statement that defines neither the docstatus column nor the lattice event. -/
def Unrelated (d : Ddl) : Prop :=
  (∀ c, d = .field c → docstatusField.name ≠ c.name) ∧ eventsOf ["docstatus_lattice"] [d] = []

/-- What follows the submittable branch is unrelated to it. -/
theorem unrelated_of_mem {fs aggs : List Ddl} (hfs : fieldDdls dt dt.fields = .ok fs)
    (haggs : aggregateDdls dt dt.aggregates = .ok aggs)
    (hown : ∀ f ∈ dt.fields, f.fieldname ≠ "docstatus") :
    ∀ d ∈ singleDdls dt ++ fs ++ aggs, Unrelated d := by
  intro d hd
  rcases List.mem_append.mp hd with hd | hd
  · rcases List.mem_append.mp hd with hd | hd
    · obtain ⟨name, cond, body, rfl, hname⟩ := mem_singleDdls hd
      refine ⟨by simp, ?_⟩
      cases body <;> simp [eventsOf, hname]
    · rcases mem_fieldDdls hfs d hd with ⟨c, rfl, hc⟩ | ⟨name, rfl⟩
      · obtain ⟨f, hf, hfname⟩ := List.mem_map.mp hc
        refine ⟨fun c' hc' => ?_, by simp [eventsOf]⟩
        cases hc'
        rw [← hfname]
        exact fun h => hown f hf h.symm
      · exact ⟨by simp, by simp [eventsOf]⟩
  · obtain ⟨_, _, _, _, rfl⟩ := mem_aggregateDdls haggs d hd
    exact ⟨by simp, by simp [eventsOf]⟩

/-- The gates of an ordinary submittable table. -/
structure SubmittableGates (g : Gates) : Prop where
  column : docstatusField ∈ g.columns
  nodup : (g.columns.map (·.name)).Nodup
  events : g.events = eventsOf ["docstatus_lattice"] [latticeEvent]
  perms : ∃ p, g.perms = some p ∧ p.update = some (updateClause true) ∧ p.delete = some isManager

theorem eventsOf_append (names : List String) (ds₁ ds₂ : List Ddl) :
    eventsOf names (ds₁ ++ ds₂) = eventsOf names ds₁ ++ eventsOf names ds₂ :=
  List.filterMap_append

theorem eventsOf_unrelated {ds : List Ddl} (h : ∀ d ∈ ds, Unrelated d) :
    eventsOf ["docstatus_lattice"] ds = [] := by
  induction ds with
  | nil => rfl
  | cons d rest ih =>
      show eventsOf ["docstatus_lattice"] ([d] ++ rest) = []
      rw [eventsOf_append, (h d List.mem_cons_self).2,
        ih fun d' hd' => h d' (List.mem_cons_of_mem _ hd')]
      rfl

/-- A compiled table is closed to record users, or has the gates of a submittable one. -/
theorem submittable_gates (h : doctypeDdlIn dt rollups = .ok ds) (hsub : dt.submittable = true)
    (hown : ∀ f ∈ dt.fields, f.fieldname ≠ "docstatus") :
    (gatesOf ["docstatus_lattice"] ds).perms = some ⟨some isManager, none, none, none⟩ ∨
      SubmittableGates (gatesOf ["docstatus_lattice"] ds) := by
  obtain ⟨_, ⟨_, rfl⟩ | ⟨_, fs, aggs, hfs, haggs, rfl⟩⟩ := doctypeDdlIn_cases h
  · exact Or.inl rfl
  · right
    have hrest := unrelated_of_mem hfs haggs hown
    unfold frameDdls
    rw [hsub, if_pos rfl, List.append_assoc, List.append_assoc,
      ← List.append_assoc (singleDdls dt)]
    generalize singleDdls dt ++ fs ++ aggs = rest at hrest
    refine ⟨?_, nodup_columnsOf _, ?_, ⟨_, rfl, ?_, rfl⟩⟩
    · rw [List.append_assoc]
      refine mem_columnsOf _ (latticeEvent :: rest) fun c hc => ?_
      rcases List.mem_cons.mp hc with hev | hc
      · exact absurd hev (by simp [latticeEvent])
      · exact (hrest _ hc).1 c rfl
    · show eventsOf ["docstatus_lattice"] _ = _
      rw [eventsOf_append, eventsOf_unrelated hrest]
      rfl
    · simp [tablePermissions, hsub]

end

/-! ### All gates, for record users -/

/-- A record user's statement. -/
abbrev UserAct := Auth × Mutation

/-- One statement of a record user that the gates of a table let through. -/
def UserStep (ds : List Ddl) (E : Engine) (docs : Docs) (act : UserAct) (docs' : Docs) : Prop :=
  mutate (gatesOf ["docstatus_lattice"] ds) E (some act.1) docs act.2 = some docs'

/-- Only a manager takes a document out of draft, its creation included, and only a
manager changes or deletes one that is out of it. -/
def ManagersOnly (docs : Docs) (act : UserAct) (docs' : Docs) : Prop :=
  act.1.role = "manager" ∨
    match act.2 with
    | .create key _ => statusOf docs' key = .int 0
    | .update key _ => statusOf docs key = .int 0 ∧ statusOf docs' key = .int 0
    | .delete key => statusOf docs key = .int 0

/-- A non-manager creates in draft, and updates a document whose docstatus is on the
lattice. -/
def InDraft (E : Engine) (docs : Docs) (act : UserAct) (_ : Docs) : Prop :=
  act.1.role = "manager" ∨
    match act.2 with
    | .create _ content =>
        written content = .null ∨ E.coerce .int (written content) = some (.int 0)
    | .update key _ => OnLattice (statusOf docs key)
    | .delete _ => True

/-- Every record has an integer docstatus. -/
def AllInt (docs : Docs) : Prop :=
  ∀ key row, docs key = some row → ∃ i, col row "docstatus" = .int i

theorem allInt_noDocs : AllInt noDocs := by
  intro key row h
  exact absurd h (by simp [noDocs])

theorem allInt_update {docs : Docs} {key : String} {o : Option Doc} (h : AllInt docs)
    (ho : ∀ row, o = some row → ∃ i, col row "docstatus" = .int i) :
    AllInt (Function.update docs key o) := by
  intro k r hr
  by_cases hk : k = key
  · subst hk
    rw [Function.update_self] at hr
    exact ho r hr
  · rw [Function.update_of_ne hk] at hr
    exact h k r hr

section

variable {g : Gates} {E : Engine} {a : Auth}

/-- A non-manager's create is in draft exactly when it writes no docstatus or zero. -/
theorem create_draft_iff (hg : SubmittableGates g) {content row : Doc}
    (h : g.create E (some a) content = some row) :
    col row "docstatus" = .int 0 ↔
      written content = .null ∨ E.coerce .int (written content) = some (.int 0) := by
  obtain ⟨i, hi, hcol⟩ := create_docstatus hg.nodup hg.column h
  rw [hcol]
  cases hw : written content with
  | null =>
      rw [hw] at hi
      simp only [docstatusGiven, E.coerce_int_int, Option.some.injEq, Value.int.injEq] at hi
      simp [← hi]
  | _ =>
      rw [hw] at hi
      simp only [docstatusGiven] at hi
      simp [hi]

/-- A non-manager's update of a draft leaves a draft, and an update of a document on the
lattice is one of a draft. -/
theorem update_draft_iff (hg : SubmittableGates g) (hrole : a.role ≠ "manager")
    {before content row : Doc} (hb : ∃ b, col before "docstatus" = .int b)
    (h : g.update E (some a) before content = some row) :
    col before "docstatus" = .int 0 ∧ col row "docstatus" = .int 0 ↔
      OnLattice (col before "docstatus") := by
  obtain ⟨b, hbi⟩ := hb
  obtain ⟨i, hcol, _⟩ := update_docstatus hg.nodup hg.column hbi h
  obtain ⟨_, hpermits, hquiet⟩ := update_inv h
  -- the permission sees the row after the update, the event both
  have hzero : i = 0 := by
    obtain ⟨p, hp, hupdate, _⟩ := hg.perms
    simp only [Gates.permits, hp, Option.all_some, hupdate, Option.any_some] at hpermits
    exact permits_update rfl hrole hcol hpermits
  subst hzero
  have hmove := (quiet_update hg.events rfl hbi hcol).mp hquiet
  simp only [hbi, hcol, OnLattice, Value.int.injEq, and_true]
  omega

/-- Only managers delete. -/
theorem delete_manager (hg : SubmittableGates g) {before : Doc}
    (h : g.delete E (some a) before = true) : a.role = "manager" := by
  obtain ⟨p, hp, _, hdelete⟩ := hg.perms
  have hpermits := (Bool.and_eq_true_iff.mp h).1
  simp only [Gates.permits, hp, Option.all_some, hdelete, Option.any_some] at hpermits
  rw [holds_isManager (a := a) rfl] at hpermits
  exact of_decide_eq_true hpermits

end

/-- A table that is closed to record users takes no statement of theirs. -/
theorem not_userStep_of_closed {ds : List Ddl} {E : Engine} {docs docs' : Docs} {act : UserAct}
    (hperms : (gatesOf ["docstatus_lattice"] ds).perms = some ⟨some isManager, none, none, none⟩) :
    ¬UserStep ds E docs act docs' := by
  intro h
  obtain ⟨a, m⟩ := act
  rcases mutate_inv h with ⟨key, content, row, _, _, hcreate, _⟩ |
    ⟨key, content, before, row, _, _, hupdate, _⟩ | ⟨key, before, _, _, hdelete, _⟩
  · have hpermits := (create_inv hcreate).2.1
    simp [Gates.permits, hperms] at hpermits
  · have hpermits := (update_inv hupdate).2.1
    simp [Gates.permits, hperms] at hpermits
  · have hpermits := (Bool.and_eq_true_iff.mp hdelete).1
    simp [Gates.permits, hperms] at hpermits

section

variable {ds : List Ddl} {E : Engine} {docs docs' : Docs} {act : UserAct}

/-- Every record that a statement stores has an integer docstatus. -/
theorem allInt_step (hg : SubmittableGates (gatesOf ["docstatus_lattice"] ds))
    (hint : AllInt docs) (hstep : UserStep ds E docs act docs') : AllInt docs' := by
  rcases mutate_inv hstep with ⟨key, content, row, _, _, hcreate, rfl⟩ |
    ⟨key, content, before, row, _, hbefore, hupdate, rfl⟩ | ⟨key, before, _, _, _, rfl⟩
  · obtain ⟨i, _, hcol⟩ := create_docstatus hg.nodup hg.column hcreate
    exact allInt_update hint fun r hr => by cases hr; exact ⟨i, hcol⟩
  · obtain ⟨b, hb⟩ := hint key before hbefore
    obtain ⟨i, hcol, _⟩ := update_docstatus hg.nodup hg.column hb hupdate
    exact allInt_update hint fun r hr => by cases hr; exact ⟨i, hcol⟩
  · exact allInt_update hint fun r hr => absurd hr (by simp)

/-- A statement is for managers only exactly when it is in draft. -/
theorem managersOnly_step_iff (hg : SubmittableGates (gatesOf ["docstatus_lattice"] ds))
    (hint : AllInt docs) (hstep : UserStep ds E docs act docs') :
    ManagersOnly docs act docs' ↔ InDraft E docs act docs' := by
  obtain ⟨a, m⟩ := act
  by_cases hrole : a.role = "manager"
  · exact ⟨fun _ => Or.inl hrole, fun _ => Or.inl hrole⟩
  · rcases mutate_inv hstep with ⟨key, content, row, rfl, _, hcreate, rfl⟩ |
      ⟨key, content, before, row, rfl, hbefore, hupdate, rfl⟩ | ⟨key, before, rfl, _, hdelete, _⟩
    · have hiff := create_draft_iff hg hcreate
      simp only [ManagersOnly, InDraft, hrole, false_or, statusOf_update_self]
      exact hiff
    · have hiff := update_draft_iff hg hrole (hint key before hbefore) hupdate
      simp only [ManagersOnly, InDraft, hrole, false_or, statusOf_update_self,
        statusOf_of_some hbefore]
      exact hiff
    · exact absurd (delete_manager hg hdelete) hrole

end

/-- For a submittable DocType without a declared field `docstatus`: in a run of record
users' statements that the table's gates let through, only managers create documents out
of draft, take them out of draft, and change or delete those that are out of it, exactly
when every non-manager's create writes no docstatus or zero, and every non-manager's
update is of a document whose docstatus is 0, 1 or 2. -/
theorem managers_only_iff (E : Engine) {dt : DocTypeDef} {rollups : List String} {ds : List Ddl}
    (h : doctypeDdlIn dt rollups = .ok ds) (hsub : dt.submittable = true)
    (hown : ∀ f ∈ dt.fields, f.fieldname ≠ "docstatus") (acts : List UserAct) (docs : Docs) :
    Run.Steps (UserStep ds E) noDocs ManagersOnly acts docs ↔
      Run.Steps (UserStep ds E) noDocs (InDraft E) acts docs := by
  rcases submittable_gates h hsub hown with hclosed | hg
  · constructor
    · intro hrun
      refine (hrun.of_invariant (I := fun _ => True) trivial fun a e b _ hstep _ => ?_).1
      -- A closed table: no step of a user goes through.
      exact absurd hstep (not_userStep_of_closed hclosed)
    · intro hrun
      refine (hrun.of_invariant (I := fun _ => True) trivial fun a e b _ hstep _ => ?_).1
      exact absurd hstep (not_userStep_of_closed hclosed)
  · constructor
    · intro hrun
      -- With the gates the statuses stay numbers, and each step is judged by itself.
      refine (hrun.of_invariant allInt_noDocs fun a e b hint hstep hm => ?_).1
      exact ⟨(managersOnly_step_iff hg hint hstep).mp hm, allInt_step hg hint hstep⟩
    · intro hrun
      refine (hrun.of_invariant allInt_noDocs fun a e b hint hstep hd => ?_).1
      exact ⟨(managersOnly_step_iff hg hint hstep).mpr hd, allInt_step hg hint hstep⟩

/-- A submittable DocType. -/
def invoice : DocTypeDef where
  name := "invoice"
  submittable := true
  fields := [{ fieldname := "note", fieldtype := "Text" }]

/-- Its statements. -/
def invoiceDdls : List Ddl := ((doctypeDdlIn invoice []).toOption).getD []

/-- A record of the clerk's. -/
def clerksInvoice (docstatus : Int) : Doc :=
  [("note", .text "n"), ("docstatus", .int docstatus), ("owner", .recordId "app_user:c"),
    ("status", .text "Draft")]

/-- A clerk creates a draft, and a manager submits it. -/
theorem managers_only_submit :
    Run.Steps (UserStep invoiceDdls plain) noDocs ManagersOnly
      [(⟨"app_user:c", "clerk"⟩, .create "d" [("note", .text "n"), ("docstatus", .int 0)]),
        (⟨"app_user:m", "manager"⟩, .update "d" [("docstatus", .int 1)])]
      (oneDoc (clerksInvoice 1)) := by
  refine (@managers_only_iff plain invoice [] invoiceDdls rfl rfl (by simp [invoice]) _ _).mpr ?_
  have hcreate : UserStep invoiceDdls plain noDocs
      (⟨"app_user:c", "clerk"⟩, .create "d" [("note", .text "n"), ("docstatus", .int 0)])
      (oneDoc (clerksInvoice 0)) := rfl
  have hsubmit : UserStep invoiceDdls plain (oneDoc (clerksInvoice 0))
      (⟨"app_user:m", "manager"⟩, .update "d" [("docstatus", .int 1)])
      (oneDoc (clerksInvoice 1)) := by
    have hrow : (gatesOf ["docstatus_lattice"] invoiceDdls).update plain
        (some ⟨"app_user:m", "manager"⟩) (clerksInvoice 0) [("docstatus", .int 1)]
        = some (clerksInvoice 1) := rfl
    simp [UserStep, mutate, oneDoc, hrow]
  exact (Run.single ⟨hcreate, Or.inr (Or.inr rfl)⟩).snoc ⟨hsubmit, Or.inl rfl⟩

/-- A clerk creates a document that is submitted already. -/
theorem not_managers_only : ¬ ∀ (acts : List UserAct) (docs : Docs),
    Run (UserStep invoiceDdls plain) noDocs acts docs →
      Run.Steps (UserStep invoiceDdls plain) noDocs ManagersOnly acts docs := by
  intro h
  have hcreate : UserStep invoiceDdls plain noDocs
      (⟨"app_user:c", "clerk"⟩, .create "d" [("note", .text "n"), ("docstatus", .int 1)])
      (oneDoc (clerksInvoice 1)) := rfl
  have hrun := h [_] _ (Run.single hcreate)
  rw [← List.nil_append [_]] at hrun
  obtain ⟨docs, _, _, hstep⟩ := Run.snoc_inv hrun
  rcases hstep with hrole | hdraft
  · exact absurd hrole (by decide)
  · simp [oneDoc, clerksInvoice, col, List.lookup] at hdraft

end Frust.Kernel
