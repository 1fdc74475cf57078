import Frust.Kernel.Gates
import Frust.Proofs.Kernel.Row

/-!
# `Frust.Proofs.Kernel.Gates`: the gates of a submittable table

`columnsOf` keeps one definition for each name (`nodup_columnsOf`), so the engine's
`docstatus` column stands where no declared field has its name
(`mem_columnsOf`). A row that is shaped by it has an integer docstatus,
read off what was written (`shape_docstatus`).

`quiet_update` and `quiet_delete` say what the lattice event lets through, and
`permits_update` what the update permission lets a non-manager do.
-/

set_option autoImplicit false

namespace Frust.Kernel

/-! ### Columns -/

theorem names_defineField (f : FieldDdl) (cols : List FieldDdl) :
    (defineField f cols).map (·.name) =
      if f.name ∈ cols.map (·.name) then cols.map (·.name) else cols.map (·.name) ++ [f.name] := by
  induction cols with
  | nil => simp [defineField]
  | cons g rest ih =>
      simp only [defineField]
      by_cases h : g.name = f.name
      · simp [h]
      · have h' : ¬f.name = g.name := fun e => h e.symm
        simp only [h, if_false, List.map_cons, ih, List.mem_cons, h', false_or]
        split <;> simp

theorem nodup_defineField (f : FieldDdl) {cols : List FieldDdl}
    (h : (cols.map (·.name)).Nodup) : ((defineField f cols).map (·.name)).Nodup := by
  rw [names_defineField]
  split
  · exact h
  · rename_i hf
    refine List.nodup_append.mpr ⟨h, by simp, ?_⟩
    intro a ha b hb hab
    rw [List.mem_singleton.mp hb] at hab
    exact hf (hab ▸ ha)

theorem mem_defineField_self (f : FieldDdl) (cols : List FieldDdl) : f ∈ defineField f cols := by
  induction cols with
  | nil => exact List.mem_singleton.mpr rfl
  | cons g rest ih =>
      simp only [defineField]
      split
      · exact List.mem_cons_self
      · exact List.mem_cons_of_mem _ ih

/-- A definition keeps the columns of other names. -/
theorem mem_defineField {f g : FieldDdl} {cols : List FieldDdl} (hg : g ∈ cols)
    (hne : g.name ≠ f.name) : g ∈ defineField f cols := by
  induction cols with
  | nil => exact absurd hg List.not_mem_nil
  | cons g₀ rest ih =>
      simp only [defineField]
      rcases List.mem_cons.mp hg with rfl | hg
      · rw [if_neg hne]
        exact List.mem_cons_self
      · split
        · exact List.mem_cons_of_mem _ hg
        · exact List.mem_cons_of_mem _ (ih hg)

/-- `columnsOf`, from the columns defined so far. -/
def columnsFrom (cols : List FieldDdl) (ds : List Ddl) : List FieldDdl :=
  ds.foldl (fun acc d => match d with | .field f => defineField f acc | _ => acc) cols

theorem nodup_columnsFrom (ds : List Ddl) : ∀ cols : List FieldDdl,
    (cols.map (·.name)).Nodup → ((columnsFrom cols ds).map (·.name)).Nodup := by
  induction ds with
  | nil => exact fun cols h => h
  | cons d rest ih =>
      intro cols h
      refine ih _ ?_
      cases d with
      | field f => exact nodup_defineField f h
      | _ => exact h

/-- One definition stands for each name. -/
theorem nodup_columnsOf (ds : List Ddl) : ((columnsOf ds).map (·.name)).Nodup :=
  nodup_columnsFrom ds [] (by simp)

theorem mem_columnsFrom {g : FieldDdl} (ds : List Ddl)
    (hds : ∀ f, Ddl.field f ∈ ds → g.name ≠ f.name) : ∀ cols : List FieldDdl, g ∈ cols →
    g ∈ columnsFrom cols ds := by
  induction ds with
  | nil => exact fun cols h => h
  | cons d rest ih =>
      intro cols hg
      refine ih (fun f hf => hds f (List.mem_cons_of_mem _ hf)) _ ?_
      cases d with
      | field f => exact mem_defineField hg (hds f List.mem_cons_self)
      | _ => exact hg

/-- A definition stands if no later one has its name. -/
theorem mem_columnsOf {g : FieldDdl} (before after : List Ddl)
    (hafter : ∀ f, Ddl.field f ∈ after → g.name ≠ f.name) :
    g ∈ columnsOf (before ++ .field g :: after) := by
  show g ∈ columnsFrom [] (before ++ .field g :: after)
  rw [columnsFrom, List.foldl_append, List.foldl_cons]
  exact mem_columnsFrom after hafter _ (mem_defineField_self _ _)

/-! ### Shaping -/

/-- A column that has no definition in the list stays as it is. -/
theorem shapeColumns_col_of_not_mem {E : Engine} {session : Option Auth} {creating : Bool}
    {before : Doc} {k : String} (cols : List FieldDdl) (hk : k ∉ cols.map (·.name)) :
    ∀ {row row' : Doc}, Gates.shapeColumns E session creating before cols row = some row' →
      col row' k = col row k := by
  induction cols with
  | nil =>
      intro row row' h
      cases h
      rfl
  | cons f rest ih =>
      intro row row' h
      rw [List.map_cons, List.mem_cons, not_or] at hk
      simp only [Gates.shapeColumns] at h
      split at h
      · exact absurd h (by simp)
      · rename_i row₁ hrow₁
        rw [ih hk.2 h]
        simp only [Gates.shapeColumn] at hrow₁
        split at hrow₁
        · exact absurd hrow₁ (by simp)
        · split at hrow₁
          · exact absurd hrow₁ (by simp)
          · split at hrow₁
            · cases hrow₁
              rw [col_putField, if_neg hk.1]
            · exact absurd hrow₁ (by simp)

/-- A column that is taken in holds its given value, through its type. -/
theorem shapeColumn_col {E : Engine} {session : Option Auth} {creating : Bool} {before : Doc}
    {f : FieldDdl} {row row' : Doc}
    (h : Gates.shapeColumn E session creating before f row = some row') :
    E.coerce f.type (Gates.given E session creating f row) = some (col row' f.name) := by
  simp only [Gates.shapeColumn] at h
  split at h
  · exact absurd h (by simp)
  · split at h
    · exact absurd h (by simp)
    · rename_i w hw
      split at h
      · cases h
        rw [hw, col_putField, if_pos rfl]
      · exact absurd h (by simp)

/-- What the `docstatus` column is given: zero on a `CREATE` that leaves it out. -/
def docstatusGiven (creating : Bool) (v : Value) : Value :=
  match v, creating with
  | .null, true => .int 0
  | v, _ => v

theorem given_docstatusField (E : Engine) (session : Option Auth) (creating : Bool) (row : Doc) :
    Gates.given E session creating docstatusField row
      = docstatusGiven creating (col row "docstatus") := by
  simp only [Gates.given, docstatusGiven, docstatusField]
  cases col row "docstatus" <;> cases creating <;> rfl

/-- A shaped row has an integer docstatus, read off the row that was given. -/
theorem shapeColumns_docstatus {E : Engine} {session : Option Auth} {creating : Bool}
    {before : Doc} (cols : List FieldDdl) (hnodup : (cols.map (·.name)).Nodup)
    (hmem : docstatusField ∈ cols) :
    ∀ {row row' : Doc}, Gates.shapeColumns E session creating before cols row = some row' →
      ∃ i, E.coerce .int (docstatusGiven creating (col row "docstatus")) = some (.int i) ∧
        col row' "docstatus" = .int i := by
  induction cols with
  | nil => exact absurd hmem List.not_mem_nil
  | cons f rest ih =>
      intro row row' h
      rw [List.map_cons, List.nodup_cons] at hnodup
      simp only [Gates.shapeColumns] at h
      split at h
      · exact absurd h (by simp)
      · rename_i row₁ hrow₁
        rcases List.mem_cons.mp hmem with rfl | hrest
        · -- the columns after it do not touch it
          have hw := shapeColumn_col hrow₁
          rw [given_docstatusField] at hw
          obtain ⟨i, hi⟩ := E.coerce_int _ _ hw
          have hcol := shapeColumns_col_of_not_mem rest hnodup.1 h
          exact ⟨i, hi ▸ hw, hcol.trans hi⟩
        · have hne : "docstatus" ∉ [f].map (·.name) := by
            intro hf
            have hname : "docstatus" = f.name := by simpa using hf
            have hmine : "docstatus" ∈ rest.map (·.name) := List.mem_map_of_mem (f := (·.name)) hrest
            exact hnodup.1 (hname ▸ hmine)
          have hkeep : col row₁ "docstatus" = col row "docstatus" :=
            @shapeColumns_col_of_not_mem E session creating before _ [f] hne row row₁
              (by simp [Gates.shapeColumns, hrow₁])
          rw [← hkeep]
          exact ih hnodup.2 hrest h

/-- `shapeColumns_docstatus`, at a table's gates. -/
theorem shape_docstatus {g : Gates} {E : Engine} {session : Option Auth} {creating : Bool}
    {before row row' : Doc} (hnodup : (g.columns.map (·.name)).Nodup)
    (hmem : docstatusField ∈ g.columns)
    (h : g.shape E session creating before row = some row') :
    ∃ i, E.coerce .int (docstatusGiven creating (col row "docstatus")) = some (.int i) ∧
      col row' "docstatus" = .int i := by
  simp only [Gates.shape] at h
  split at h
  · exact absurd h (by simp)
  · exact shapeColumns_docstatus g.columns hnodup hmem h

/-! ### Statements -/

section

variable {g : Gates} {E : Engine} {session : Option Auth}

/-- A row that is created went through the columns, the permission and the events. -/
theorem create_inv {content row : Doc} (h : g.create E session content = some row) :
    g.shape E session true [] (newRow content) = some row ∧
    g.permits E session row (·.create) = true ∧
    g.quiet E { session := session, row := row, after := row, event := "CREATE" } = true := by
  simp only [Gates.create] at h
  split at h
  · exact absurd h (by simp)
  · rename_i row₁ hshape
    split at h
    · rename_i hpass
      cases h
      exact ⟨hshape, Bool.and_eq_true_iff.mp hpass⟩
    · exact absurd h (by simp)

/-- A row that is updated went through the columns, the permission and the events. -/
theorem update_inv {before content row : Doc} (h : g.update E session before content = some row) :
    g.shape E session false before (mergeRow before content) = some row ∧
    g.permits E session row (·.update) = true ∧
    g.quiet E { session := session, row := row, before := before, after := row,
                event := "UPDATE" } = true := by
  simp only [Gates.update] at h
  split at h
  · exact absurd h (by simp)
  · rename_i row₁ hshape
    split at h
    · rename_i hpass
      cases h
      exact ⟨hshape, Bool.and_eq_true_iff.mp hpass⟩
    · exact absurd h (by simp)

theorem mutate_inv {docs docs' : Docs} {m : Mutation}
    (h : mutate g E session docs m = some docs') :
    (∃ key content row, m = .create key content ∧ docs key = none ∧
      g.create E session content = some row ∧ docs' = Function.update docs key (some row)) ∨
    (∃ key content before row, m = .update key content ∧ docs key = some before ∧
      g.update E session before content = some row ∧
      docs' = Function.update docs key (some row)) ∨
    (∃ key before, m = .delete key ∧ docs key = some before ∧
      g.delete E session before = true ∧ docs' = Function.update docs key none) := by
  -- Each statement first looks at the key, then at the gate; where one of the two fails, nothing is
  -- done.
  cases m with
  | create key content =>
      simp only [mutate] at h
      split at h
      · exact absurd h (by simp)
      · rename_i hfree
        obtain ⟨row, hrow, rfl⟩ := Option.map_eq_some_iff.mp h
        exact Or.inl ⟨key, content, row, rfl, hfree, hrow, rfl⟩
  | update key content =>
      simp only [mutate] at h
      split at h
      · exact absurd h (by simp)
      · rename_i before hbefore
        obtain ⟨row, hrow, rfl⟩ := Option.map_eq_some_iff.mp h
        exact Or.inr (Or.inl ⟨key, content, before, row, rfl, hbefore, hrow, rfl⟩)
  | delete key =>
      simp only [mutate] at h
      split at h
      · exact absurd h (by simp)
      · rename_i before hbefore
        split at h
        · rename_i hpass
          cases h
          exact Or.inr (Or.inr ⟨key, before, rfl, hbefore, hpass, rfl⟩)
        · exact absurd h (by simp)

end

/-! ### The lattice event -/

section

variable {g : Gates} {E : Engine} {sc : Expr.Scope}

/-- What the event refuses of an update. -/
theorem quiet_update {b a : Int} (hg : g.events = eventsOf ["docstatus_lattice"] [latticeEvent])
    (hevent : sc.event = "UPDATE") (hb : col sc.before "docstatus" = .int b)
    (ha : col sc.after "docstatus" = .int a) :
    g.quiet E sc = true ↔ b ≠ 2 ∧ ¬(b = 1 ∧ a = 0) ∧ ¬(b = 0 ∧ a = 2) := by
  have hquiet : g.quiet E sc = (!decide (b = 2) && (!(decide (b = 1) && decide (a = 0)) &&
      !(decide (b = 0) && decide (a = 2)))) := by
    simp [Gates.quiet, hg, eventsOf, latticeEvent, isEvent, Expr.eval, hevent, hb, ha, E.eq_text,
      E.eq_int]
  rw [hquiet]
  simp only [Bool.and_eq_true, Bool.not_eq_true', decide_eq_false_iff_not, Bool.and_eq_false_iff,
    not_and_or]

/-- What the event refuses of a delete. -/
theorem quiet_delete {b : Int} (hg : g.events = eventsOf ["docstatus_lattice"] [latticeEvent])
    (hevent : sc.event = "DELETE") (hb : col sc.before "docstatus" = .int b) :
    g.quiet E sc = true ↔ b = 0 := by
  simp [Gates.quiet, hg, eventsOf, latticeEvent, isEvent, Expr.eval, hevent, hb, E.eq_text,
    E.eq_int, E.ne_eq]

/-! ### Permissions -/

theorem holds_isManager {a : Auth} (h : sc.session = some a) :
    isManager.holds E sc = decide (a.role = "manager") := by
  simp [isManager, Expr.eval, h, E.eq_text]

/-- A non-manager's update leaves the document in draft. -/
theorem permits_update {a : Auth} {i : Int} (hsession : sc.session = some a)
    (hrole : a.role ≠ "manager") (hcol : col sc.row "docstatus" = .int i)
    (h : (updateClause true).holds E sc = true) : i = 0 := by
  simp only [updateClause, if_true, Expr.holds_or, Expr.holds_paren, Expr.holds_and,
    Expr.holds_cmp, holds_isManager hsession, hrole, decide_false, Bool.or_false,
    Bool.and_eq_true, Expr.eval, hcol, E.eq_int, decide_eq_true_eq] at h
  exact h.2

end

end Frust.Kernel
