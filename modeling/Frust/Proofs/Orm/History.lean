import Frust.Orm.Migrator
import Mathlib.Data.List.Induction

/-!
# `Frust.Proofs.Orm.History`: what the loaders read

The rows of one resource, in insertion order, are its history (`rowsOf`). When
they are numbered `1, …, n` (`Versioned`), sorting by version turns them around,
so `loadHistory` reads the last row of each resource (`loadHistory_getD`) and
`loadFullHistory` all of them, last first (`loadFullHistory_getD`).

`head` is the pair the migrator works with: the latest version and snapshot, and
`(0, default)` for a resource that has no row.
-/

set_option autoImplicit false

namespace Frust.Orm

namespace ScopeDb

/-- The rows of one resource, first recorded first. -/
def rowsOf (db : ScopeDb) (name : String) : List HistoryRow :=
  db.history.filter (·.name = name)

/-- The rows of each resource are numbered from one. -/
def Versioned (db : ScopeDb) : Prop :=
  ∀ name, (db.rowsOf name).map (·.version)
    = (List.range (db.rowsOf name).length).map fun i : Nat => (i : Int) + 1

/-- The latest version and snapshot of a resource. -/
def head (db : ScopeDb) (name : String) : Int × SchemaSnapshot :=
  ((db.rowsOf name).getLast?.map fun row => (row.version, row.snapshot)).getD (0, .default)

@[simp] theorem rowsOf_empty (name : String) : ScopeDb.empty.rowsOf name = [] := rfl

theorem versioned_empty : ScopeDb.empty.Versioned := fun _ => rfl

theorem name_of_mem_rowsOf {db : ScopeDb} {name : String} {row : HistoryRow}
    (h : row ∈ db.rowsOf name) : row.name = name := by
  simpa using (List.mem_filter.mp h).2

theorem mem_history_of_mem_rowsOf {db : ScopeDb} {name : String} {row : HistoryRow}
    (h : row ∈ db.rowsOf name) : row ∈ db.history :=
  (List.mem_filter.mp h).1

/-- The head depends on the rows of its resource only. -/
theorem head_congr {db db' : ScopeDb} {name : String} (h : db'.rowsOf name = db.rowsOf name) :
    db'.head name = db.head name := by
  rw [head, head, h]

/-- Without a row, the head is the empty schema. -/
theorem head_of_rowsOf_nil {db : ScopeDb} {name : String} (h : db.rowsOf name = []) :
    db.head name = (0, .default) := by
  simp [head, h]

theorem head_of_getLast? {db : ScopeDb} {name : String} {row : HistoryRow}
    (h : (db.rowsOf name).getLast? = some row) : db.head name = (row.version, row.snapshot) := by
  simp [head, h]

/-- The versions of a resource ascend. -/
theorem Versioned.pairwise {db : ScopeDb} (h : db.Versioned) (name : String) :
    (db.rowsOf name).Pairwise (·.version < ·.version) := by
  have hv : ((db.rowsOf name).map (·.version)).Pairwise (· < ·) := by
    rw [h name, List.pairwise_map]
    exact List.pairwise_lt_range.imp fun hlt => by omega
  exact List.pairwise_map.mp hv

/-- The latest version is the number of rows. -/
theorem Versioned.head_version {db : ScopeDb} (h : db.Versioned) (name : String) :
    (db.head name).1 = (db.rowsOf name).length := by
  cases hrows : (db.rowsOf name).getLast? with
  | none =>
      rw [List.getLast?_eq_none_iff] at hrows
      simp [head_of_rowsOf_nil hrows, hrows]
  | some row =>
      rw [head_of_getLast? hrows]
      have hlast : ((db.rowsOf name).map (·.version)).getLast? = some row.version := by
        rw [List.getLast?_map, hrows]
        rfl
      rw [h name, List.getLast?_map] at hlast
      have hne : (db.rowsOf name).length ≠ 0 := by
        intro h0
        rw [List.length_eq_zero_iff] at h0
        rw [h0] at hrows
        exact absurd hrows (by simp)
      rw [List.getLast?_range, if_neg hne] at hlast
      simp only [Option.map_some, Option.some.injEq] at hlast
      omega

theorem perm_historyRows (db : ScopeDb) : (historyRows db).Perm db.history :=
  List.perm_insertionSort _ _

theorem pairwise_historyRows (db : ScopeDb) :
    (historyRows db).Pairwise fun a b => b.version ≤ a.version := by
  have : Std.Total fun a b : HistoryRow => b.version ≤ a.version := ⟨fun a b => by omega⟩
  have : IsTrans HistoryRow fun a b => b.version ≤ a.version := ⟨fun a b c => by omega⟩
  exact List.pairwise_insertionSort _ _

/-- The sort turns the rows of a resource around. -/
theorem Versioned.filter_historyRows {db : ScopeDb} (h : db.Versioned) (name : String) :
    (historyRows db).filter (·.name = name) = (db.rowsOf name).reverse := by
  have hperm : ((historyRows db).filter (·.name = name)).Perm (db.rowsOf name).reverse :=
    ((perm_historyRows db).filter _).trans (List.reverse_perm _).symm
  have hdesc : (db.rowsOf name).reverse.Pairwise fun a b => b.version < a.version :=
    List.pairwise_reverse.mpr (h.pairwise name)
  refine List.Perm.eq_of_pairwise ?_ ((pairwise_historyRows db).filter _)
    (hdesc.imp fun hlt => by omega) hperm
  -- two rows of one resource with one version are the same row
  intro a b ha hb hab hba
  by_contra hne
  rcases List.pairwise_iff_getElem.mp hdesc with hlt
  obtain ⟨i, hi, rfl⟩ := List.mem_iff_getElem.mp (hperm.mem_iff.mp ha)
  obtain ⟨j, hj, rfl⟩ := List.mem_iff_getElem.mp hb
  rcases Nat.lt_trichotomy i j with hij | hij | hij
  · have := hlt i j hi hj hij
    omega
  · subst hij
    exact hne rfl
  · have := hlt j i hj hi hij
    omega

end ScopeDb

/-! ### The loaders -/

/-- `keepFirst` keeps the first row of each name. -/
theorem getElem?_foldl_keepFirst (rows : List HistoryRow)
    (m : Std.ExtTreeMap String (Int × SchemaSnapshot)) (name : String) :
    (rows.foldl keepFirst m)[name]?
      = match m[name]? with
        | some v => some v
        | none => (rows.find? (·.name = name)).map fun row => (row.version, row.snapshot) := by
  -- On the rows: one whose name is in the map already is left out.
  induction rows generalizing m with
  | nil => cases h : m[name]? <;> simp [h]
  | cons row rest ih =>
      rw [List.foldl_cons, ih]
      by_cases hin : row.name ∈ m
      · have hstep : keepFirst m row = m := by simp [keepFirst, hin]
        rw [hstep]
        cases hm : m[name]? with
        | some v => rfl
        | none =>
            have hne : row.name ≠ name := by
              rintro rfl
              rw [Std.ExtTreeMap.getElem?_eq_some_getElem hin] at hm
              exact absurd hm (by simp)
            simp [hne]
      · have hstep : keepFirst m row = m.insert row.name (row.version, row.snapshot) := by
          simp [keepFirst, hin]
        rw [hstep, Std.ExtTreeMap.getElem?_insert]
        by_cases hne : row.name = name
        · subst hne
          simp [Std.ExtTreeMap.getElem?_eq_none hin]
        · have : compare row.name name ≠ .eq := by simpa using hne
          rw [if_neg this]
          cases m[name]? <;> simp [hne]

/-- `loadHistory` reads the latest row of each resource. -/
theorem loadHistory_getD {db : ScopeDb} (h : db.Versioned) (name : String) :
    (loadHistory db).getD name (0, .default) = db.head name := by
  rw [Std.ExtTreeMap.getD_eq_getD_getElem?, loadHistory, getElem?_foldl_keepFirst]
  simp only [Std.ExtTreeMap.getElem?_empty, ScopeDb.head]
  rw [← List.head?_filter, h.filter_historyRows, List.head?_reverse]

/-- `keepAll` files every row under its name. -/
theorem getD_foldl_keepAll (rows : List HistoryRow)
    (m : Std.ExtTreeMap String (List (Int × SchemaSnapshot))) (name : String) :
    (rows.foldl keepAll m).getD name []
      = m.getD name [] ++
        (rows.filter (·.name = name)).map fun row => (row.version, row.snapshot) := by
  induction rows generalizing m with
  | nil => simp
  | cons row rest ih =>
      rw [List.foldl_cons, ih]
      by_cases hne : row.name = name
      · subst hne
        simp [keepAll]
      · simp [keepAll, Std.ExtTreeMap.getD_insert, hne]

/-- `loadFullHistory` reads the rows of each resource, latest first. -/
theorem loadFullHistory_getD {db : ScopeDb} (h : db.Versioned) (name : String) :
    (loadFullHistory db).getD name []
      = (db.rowsOf name).reverse.map fun row => (row.version, row.snapshot) := by
  have hrows := getD_foldl_keepAll (historyRows db) ∅ name
  rw [Std.ExtTreeMap.getD_empty, List.nil_append, h.filter_historyRows] at hrows
  have hdesc : ((db.rowsOf name).reverse.map fun row => (row.version, row.snapshot)).Pairwise
      fun a b => b.1 ≤ a.1 := by
    rw [List.pairwise_map, List.pairwise_reverse]
    exact (h.pairwise name).imp fun hlt => by simp only; omega
  rw [loadFullHistory, Std.ExtTreeMap.getD_map, ← hrows]
  cases hget : ((historyRows db).foldl keepAll ∅)[name]? with
  | none => simp [Std.ExtTreeMap.getD_eq_getD_getElem?, hget]
  | some versions =>
      rw [Std.ExtTreeMap.getD_eq_getD_getElem?, hget] at hrows
      simp only [Option.getD_some] at hrows
      simp only [Option.map_some, Option.getD_some, Std.ExtTreeMap.getD_eq_getD_getElem?, hget]
      rw [hrows]
      exact hdesc.insertionSort_eq

end Frust.Orm
