import Frust.Proofs.Kernel.Gates
import Frust.Lib.Run

/-!
# `Frust.Proofs.Kernel.Docstatus`: docstatus over whole document lives

A table starts empty, and statements on its records follow one another.
`create_docstatus` and `update_docstatus` say what docstatus a statement stores.

`docstatus_lattice_iff` takes the lattice event as the only gate: the columns are the
two statements of the submittable branch, and everyone may write. A run stays on the
lattice exactly when every value it writes is in it. The event lists the moves that it
refuses, and a value that it does not name passes (`not_docstatus_lattice`).
-/

set_option autoImplicit false

namespace Frust.Kernel

open Frust.Lib

/-- The docstatus of a record. -/
def statusOf (docs : Docs) (key : String) : Value :=
  match docs key with
  | none => .null
  | some row => col row "docstatus"

/-- The docstatus that a statement writes. -/
def written (content : Doc) : Value := col (objectOf content) "docstatus"

/-- No records. -/
def noDocs : Docs := fun _ => none

/-- A lattice value. -/
def OnLattice (v : Value) : Prop := v = .int 0 ∨ v = .int 1 ∨ v = .int 2

/-! ### What a statement stores -/

section

variable {g : Gates} {E : Engine} {session : Option Auth} {docs docs' : Docs}

theorem create_docstatus {content row : Doc} (hnodup : (g.columns.map (·.name)).Nodup)
    (hmem : docstatusField ∈ g.columns) (h : g.create E session content = some row) :
    ∃ i, E.coerce .int (docstatusGiven true (written content)) = some (.int i) ∧
      col row "docstatus" = .int i := by
  have hshape := shape_docstatus hnodup hmem (create_inv h).1
  rwa [col_newRow] at hshape

/-- A row that was updated, from an integer docstatus. -/
theorem update_docstatus {before content row : Doc} {b : Int}
    (hnodup : (g.columns.map (·.name)).Nodup) (hmem : docstatusField ∈ g.columns)
    (hb : col before "docstatus" = .int b) (h : g.update E session before content = some row) :
    ∃ i, col row "docstatus" = .int i ∧
      (written content = .null ∧ i = b ∨ E.coerce .int (written content) = some (.int i)) := by
  obtain ⟨i, hi, hcol⟩ := shape_docstatus hnodup hmem (update_inv h).1
  refine ⟨i, hcol, ?_⟩
  have hmerge : ∀ v, mergeValue (.int b) v = v := mergeValue_of_not_object (by simp)
  rw [col_mergeRow, hb] at hi
  rw [written, col]
  cases hw : (objectOf content).lookup "docstatus" with
  | none =>
      rw [hw] at hi
      simp only [docstatusGiven, E.coerce_int_int, Option.some.injEq, Value.int.injEq] at hi
      exact Or.inl ⟨rfl, hi.symm⟩
  | some v =>
      rw [hw] at hi
      simp only [hmerge] at hi
      have hgiven : docstatusGiven false v = v := by cases v <;> rfl
      rw [hgiven] at hi
      exact Or.inr hi

end

/-! ### The lattice event alone -/

/-- The gates of the two statements of the submittable branch. -/
def latticeGates : Gates := gatesOf ["docstatus_lattice"] submittableDdls

/-- A statement with its session; `none` is the root session. -/
abbrev Act := Option Auth × Mutation

/-- One statement that the lattice event lets through. -/
def LatticeStep (E : Engine) (docs : Docs) (act : Act) (docs' : Docs) : Prop :=
  mutate latticeGates E act.1 docs act.2 = some docs'

/-- A move along `0 -> 1 -> 2`, or none. -/
inductive Move : Value → Value → Prop where
  | draft : Move (.int 0) (.int 0)
  | submit : Move (.int 0) (.int 1)
  | submitted : Move (.int 1) (.int 1)
  | cancel : Move (.int 1) (.int 2)

/-- What the lattice promises of a statement. An update from 2 is no `Move`. -/
def OnLatticeStep (docs : Docs) (act : Act) (docs' : Docs) : Prop :=
  match act.2 with
  | .create key _ => OnLattice (statusOf docs' key)
  | .update key _ => Move (statusOf docs key) (statusOf docs' key)
  | .delete key => statusOf docs key = .int 0

/-- A statement writes no docstatus, or one in the lattice. -/
def WritesLattice (E : Engine) (_ : Docs) (act : Act) (_ : Docs) : Prop :=
  match act.2 with
  | .create _ content | .update _ content =>
      written content = .null ∨ ∃ v, E.coerce .int (written content) = some v ∧ OnLattice v
  | .delete _ => True

/-- Every record is on the lattice. -/
def AllOnLattice (docs : Docs) : Prop :=
  ∀ key row, docs key = some row → OnLattice (col row "docstatus")

theorem allOnLattice_update {docs : Docs} {key : String} {row : Doc} (h : AllOnLattice docs)
    (hrow : OnLattice (col row "docstatus")) :
    AllOnLattice (Function.update docs key (some row)) := by
  intro k r hr
  by_cases hk : k = key
  · subst hk
    rw [Function.update_self] at hr
    cases hr
    exact hrow
  · rw [Function.update_of_ne hk] at hr
    exact h k r hr

theorem allOnLattice_erase {docs : Docs} {key : String} (h : AllOnLattice docs) :
    AllOnLattice (Function.update docs key none) := by
  intro k r hr
  by_cases hk : k = key
  · subst hk
    rw [Function.update_self] at hr
    exact absurd hr (by simp)
  · rw [Function.update_of_ne hk] at hr
    exact h k r hr

@[simp] theorem statusOf_update_self (docs : Docs) (key : String) (row : Doc) :
    statusOf (Function.update docs key (some row)) key = col row "docstatus" := by
  rw [statusOf, Function.update_self]

theorem statusOf_of_some {docs : Docs} {key : String} {row : Doc} (h : docs key = some row) :
    statusOf docs key = col row "docstatus" := by
  rw [statusOf, h]

/-- What the event lets an update do, from a value of the lattice to another. -/
theorem move_of_quiet {b a : Int} (hb : OnLattice (.int b)) (ha : OnLattice (.int a))
    (h : b ≠ 2 ∧ ¬(b = 1 ∧ a = 0) ∧ ¬(b = 0 ∧ a = 2)) : Move (.int b) (.int a) := by
  simp only [OnLattice, Value.int.injEq] at hb ha
  obtain ⟨h2, h10, h02⟩ := h
  rcases hb with rfl | rfl | rfl
  · rcases ha with rfl | rfl | rfl
    · exact .draft
    · exact .submit
    · exact absurd ⟨rfl, rfl⟩ h02
  · rcases ha with rfl | rfl | rfl
    · exact absurd ⟨rfl, rfl⟩ h10
    · exact .submitted
    · exact .cancel
  · exact absurd rfl h2

theorem docstatusField_mem_latticeGates : docstatusField ∈ latticeGates.columns :=
  List.mem_singleton.mpr rfl

theorem nodup_latticeGates : (latticeGates.columns.map (·.name)).Nodup := nodup_columnsOf _

/-- A create stays on the lattice exactly when it writes a lattice value. -/
theorem create_onLattice_iff {E : Engine} {session : Option Auth} {content row : Doc}
    (h : latticeGates.create E session content = some row) :
    OnLattice (col row "docstatus") ↔
      written content = .null ∨ ∃ v, E.coerce .int (written content) = some v ∧ OnLattice v := by
  obtain ⟨i, hi, hcol⟩ :=
    create_docstatus nodup_latticeGates docstatusField_mem_latticeGates h
  rw [hcol]
  cases hw : written content with
  | null =>
      rw [hw] at hi
      simp only [docstatusGiven, E.coerce_int_int, Option.some.injEq] at hi
      simp [← hi, OnLattice]
  | _ =>
      rw [hw] at hi
      simp only [docstatusGiven] at hi
      simp [hi]

/-- An update moves along the lattice exactly when it writes a lattice value. -/
theorem update_onLattice_iff {E : Engine} {session : Option Auth} {before content row : Doc}
    (hb : OnLattice (col before "docstatus"))
    (h : latticeGates.update E session before content = some row) :
    (Move (col before "docstatus") (col row "docstatus") ↔
      written content = .null ∨ ∃ v, E.coerce .int (written content) = some v ∧ OnLattice v) ∧
    (Move (col before "docstatus") (col row "docstatus") → OnLattice (col row "docstatus")) := by
  obtain ⟨b, hbi⟩ : ∃ b, col before "docstatus" = .int b := by
    rcases hb with h | h | h <;> exact ⟨_, h⟩
  obtain ⟨a, hai, hwrite⟩ :=
    update_docstatus nodup_latticeGates docstatusField_mem_latticeGates hbi h
  have hquiet := (quiet_update rfl rfl hbi hai).mp (update_inv h).2.2
  rw [hbi, hai]
  rw [hbi] at hb
  have hmove : Move (.int b) (.int a) ↔ OnLattice (.int a) := by
    refine ⟨fun hm => ?_, fun ha => move_of_quiet hb ha hquiet⟩
    cases hm <;> simp [OnLattice]
  refine ⟨hmove.trans ?_, hmove.mp⟩
  rcases hwrite with ⟨hnull, rfl⟩ | hcoerce
  · simp [hnull, hb]
  · have hnull : written content ≠ .null := by
      intro h
      rw [h, E.coerce_int_null] at hcoerce
      exact absurd hcoerce (by simp)
    simp [hcoerce, hnull]

/-- On the lattice, a statement keeps to it exactly when it writes lattice values. -/
theorem onLatticeStep_iff {E : Engine} {docs docs' : Docs} {act : Act} (h : AllOnLattice docs)
    (hstep : LatticeStep E docs act docs') :
    (OnLatticeStep docs act docs' ↔ WritesLattice E docs act docs') ∧
      (OnLatticeStep docs act docs' → AllOnLattice docs') := by
  obtain ⟨session, m⟩ := act
  rcases mutate_inv hstep with ⟨key, content, row, rfl, hfree, hcreate, rfl⟩ |
    ⟨key, content, before, row, rfl, hbefore, hupdate, rfl⟩ | ⟨key, before, rfl, hbefore, hdel, rfl⟩
  · have hiff := create_onLattice_iff hcreate
    simp only [OnLatticeStep, WritesLattice, statusOf_update_self]
    exact ⟨hiff, allOnLattice_update h⟩
  · obtain ⟨hiff, hon⟩ := update_onLattice_iff (h key before hbefore) hupdate
    simp only [OnLatticeStep, WritesLattice, statusOf_update_self, statusOf_of_some hbefore]
    exact ⟨hiff, fun hm => allOnLattice_update h (hon hm)⟩
  · -- the event refuses a delete of anything but a draft
    obtain ⟨b, hbi⟩ : ∃ b, col before "docstatus" = .int b := by
      rcases h key before hbefore with h | h | h <;> exact ⟨_, h⟩
    have hquiet := (quiet_delete rfl rfl hbi).mp (Bool.and_eq_true_iff.mp hdel).2
    simp only [OnLatticeStep, WritesLattice, statusOf_of_some hbefore, hbi, hquiet]
    exact ⟨by simp, fun _ => allOnLattice_erase h⟩

theorem allOnLattice_noDocs : AllOnLattice noDocs := by
  intro key row h
  exact absurd h (by simp [noDocs])

/-- Taking the lattice event as the only gate: a run stays on the lattice at every
statement exactly when each of its creates and updates writes no docstatus or one of 0,
1 and 2; and then every record that it reaches is on the lattice. -/
theorem docstatus_lattice_iff (E : Engine) (acts : List Act) (docs : Docs) :
    (Run.Steps (LatticeStep E) noDocs OnLatticeStep acts docs ↔
      Run.Steps (LatticeStep E) noDocs (WritesLattice E) acts docs) ∧
    (Run.Steps (LatticeStep E) noDocs (WritesLattice E) acts docs → AllOnLattice docs) := by
  -- Along the run all documents are on the lattice, and there a step is judged by what it writes.
  have hof : Run.Steps (LatticeStep E) noDocs (WritesLattice E) acts docs →
      Run.Steps (LatticeStep E) noDocs OnLatticeStep acts docs ∧ AllOnLattice docs := by
    intro h
    refine h.of_invariant allOnLattice_noDocs fun a e b ha hstep hw => ?_
    obtain ⟨hiff, hkeep⟩ := onLatticeStep_iff ha hstep
    exact ⟨hiff.mpr hw, hkeep (hiff.mpr hw)⟩
  refine ⟨⟨fun h => ?_, fun h => (hof h).1⟩, fun h => (hof h).2⟩
  refine (h.of_invariant (I := AllOnLattice) allOnLattice_noDocs fun a e b ha hstep ho => ?_).1
  obtain ⟨hiff, hkeep⟩ := onLatticeStep_iff ha hstep
  exact ⟨hiff.mp ho, hkeep ho⟩

/-- The table with one record. -/
def oneDoc (row : Doc) : Docs := Function.update noDocs "d" (some row)

theorem lattice_update {before row content : Doc}
    (h : latticeGates.update plain none before content = some row) :
    LatticeStep plain (oneDoc before) (none, .update "d" content) (oneDoc row) := by
  simp [LatticeStep, mutate, oneDoc, h]

/-- A submitted document leaves the lattice: the event does not name the value 3. -/
theorem not_docstatus_lattice : ¬ ∀ (acts : List Act) (docs : Docs),
    Run (LatticeStep plain) noDocs acts docs →
      Run.Steps (LatticeStep plain) noDocs OnLatticeStep acts docs := by
  intro h
  have hcreate : LatticeStep plain noDocs (none, .create "d" [])
      (oneDoc [("docstatus", .int 0)]) := rfl
  have hsubmit := @lattice_update [("docstatus", .int 0)] [("docstatus", .int 1)]
    [("docstatus", .int 1)] rfl
  have hleave := @lattice_update [("docstatus", .int 1)] [("docstatus", .int 3)]
    [("docstatus", .int 3)] rfl
  have hrun := h _ _ (((Run.single hcreate).snoc hsubmit).snoc hleave)
  obtain ⟨docs, _, _, hmove⟩ := Run.snoc_inv hrun
  replace hmove : Move (statusOf docs "d") (.int 3) := hmove
  generalize statusOf docs "d" = b at hmove
  cases hmove

end Frust.Kernel
