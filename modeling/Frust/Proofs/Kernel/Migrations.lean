import Frust.Kernel.Metadata
import Frust.Kernel.Migrations
import Frust.Proofs.Kernel.Store

/-!
# `Frust.Proofs.Kernel.Migrations`: migrating twice is migrating once

`migrated_idempotent` follows the three statements through every table in which the items of a script
list are objects. `DocTypeMigrated` and `JobMigrated` are what becomes of one record. A `Settled`
record is left as it is by the statements (`apply_of_settled`), and every migrated record is one.
-/

set_option autoImplicit false

namespace Frust.Kernel

open Frust.Lib

/-! ### Statements on a table -/

namespace RecordUpdate

variable {ρ : Type} {u : RecordUpdate ρ}

theorem apply_of_cond {id : String} {row row' : ρ} (h : u.set row = some row')
    (hcond : u.cond row = true) : u.apply (id, row) = some (id, row') := by
  unfold apply
  simp only [h, hcond]
  rfl

theorem apply_of_not_cond {id : String} {row row' : ρ} (h : u.set row = some row')
    (hcond : u.cond row = false) : u.apply (id, row) = some (id, row) := by
  unfold apply
  simp only [h, hcond]
  rfl

theorem run_cons (r : String × ρ) (rest : List (String × ρ)) :
    u.run (r :: rest) = (do
      let r' ← u.apply r
      let rest' ← u.run rest
      return r' :: rest') := List.mapM_cons

/-- A statement that succeeds for each record succeeds. -/
theorem run_exists {σ : Type} {f : σ → String × ρ} {P : σ → String × ρ → Prop} {table : List σ}
    (h : ∀ r ∈ table, ∃ r', u.apply (f r) = some r' ∧ P r r') :
    ∃ table', u.run (table.map f) = some table' ∧ List.Forall₂ P table table' := by
  induction table with
  | nil => exact ⟨[], rfl, .nil⟩
  | cons r rest ih =>
      obtain ⟨r', hr, hP⟩ := h r List.mem_cons_self
      obtain ⟨rest', hrest, hall⟩ := ih fun x hx => h x (List.mem_cons_of_mem _ hx)
      exact ⟨r' :: rest', by rw [List.map_cons, run_cons, hr, hrest]; rfl, .cons hP hall⟩

/-- A statement that changes no record changes nothing. -/
theorem run_of_fixed {table : List (String × ρ)} (h : ∀ r ∈ table, u.apply r = some r) :
    u.run table = some table := by
  induction table with
  | nil => rfl
  | cons r rest ih =>
      rw [run_cons, h r List.mem_cons_self, ih fun x hx => h x (List.mem_cons_of_mem _ hx)]
      rfl

end RecordUpdate

/-! ### One record -/

/-- An item of a script list after the migration: it has a hook, and all else is as it was. -/
structure ItemMigrated (before after : Doc) : Prop where
  others : ∀ k, k ≠ "hook" → col after k = col before k
  hook : col after "hook" = match col before "hook" with
    | .null => .text "validate"
    | v => v

/-- A record of `doctype` after the migration. -/
structure DocTypeMigrated (before after : Doc) : Prop where
  others : ∀ k, k ≠ "server_script" → col after k = col before k
  /-- A text is the one item of the owner. -/
  ofText : ∀ s, col before "server_script" = .text s → ∃ item,
    col after "server_script" = .list [.object item] ∧ col item "app" = col before "app" ∧
    col item "script" = .text s ∧ col item "hook" = .text "validate"
  ofList : ∀ items, col before "server_script" = .list (items.map .object) → ∃ items',
    col after "server_script" = .list (items'.map .object) ∧ List.Forall₂ ItemMigrated items items'
  ofRest : (∀ s, col before "server_script" ≠ .text s) →
    (∀ items, col before "server_script" ≠ .list items) →
    col after "server_script" = col before "server_script"

/-- The statements have nothing to do for a record of `doctype`. -/
structure Settled (row : Doc) : Prop where
  notText : ∀ s, col row "server_script" ≠ .text s
  hooked : ∀ items, col row "server_script" = .list items →
    ∀ v ∈ items, ∃ item, v = .object item ∧ col item "hook" ≠ .null
  stored : row.lookup "server_script" ≠ some .null

/-! ### The statements -/

theorem backfillHook_object (item : Doc) :
    ∃ item', backfillHook (.object item) = some (.object item') ∧ ItemMigrated item item' := by
  -- `item.hook ?? "validate"`: only an item without a hook is changed.
  by_cases hnull : col item "hook" = .null
  · refine ⟨setField "hook" (.text "validate") item, ?_, fun k hk => ?_, ?_⟩
    · simp only [backfillHook, hnull]
    · simp [col, hk]
    · rw [hnull]
      simp [col]
  · refine ⟨item, ?_, fun _ _ => rfl, ?_⟩
    · unfold backfillHook
      split <;> simp_all
    · split <;> simp_all

theorem backfillHook_of_hooked {item : Doc} (h : col item "hook" ≠ .null) :
    backfillHook (.object item) = some (.object item) := by
  unfold backfillHook
  split <;> simp_all

theorem mapM_backfillHook (items : List Doc) :
    ∃ items', (items.map Value.object).mapM backfillHook = some (items'.map .object) ∧
      List.Forall₂ ItemMigrated items items' := by
  induction items with
  | nil => exact ⟨[], rfl, .nil⟩
  | cons item rest ih =>
      obtain ⟨item', hitem, hmigrated⟩ := backfillHook_object item
      obtain ⟨rest', hrest, hall⟩ := ih
      refine ⟨item' :: rest', ?_, .cons hmigrated hall⟩
      rw [List.map_cons, List.mapM_cons, hitem, hrest]
      rfl

theorem mapM_of_hooked {items : List Value}
    (h : ∀ v ∈ items, ∃ item, v = .object item ∧ col item "hook" ≠ .null) :
    items.mapM backfillHook = some items := by
  induction items with
  | nil => rfl
  | cons v rest ih =>
      obtain ⟨item, rfl, hhook⟩ := h v List.mem_cons_self
      rw [List.mapM_cons, backfillHook_of_hooked hhook,
        ih fun x hx => h x (List.mem_cons_of_mem _ hx)]
      rfl

theorem ItemMigrated.hooked {before after : Doc} (h : ItemMigrated before after) :
    col after "hook" ≠ .null := by
  rw [h.hook]
  split
  · simp
  · assumption

theorem hookBackfill_set (row : Doc) :
    hookBackfill.set row = match col row "server_script" with
      | .list items => do
          let items ← items.mapM backfillHook
          return setField "server_script" (.list items) row
      | v => some (putField "server_script" v row) := rfl

theorem hookBackfill_apply_list {id : String} {row : Doc} {items items' : List Value}
    (hlist : col row "server_script" = .list items)
    (hitems : items.mapM backfillHook = some items') :
    hookBackfill.apply (id, row) = some (id, setField "server_script" (.list items') row) := by
  refine RecordUpdate.apply_of_cond ?_ rfl
  rw [hookBackfill_set, hlist]
  simp only [hitems]
  rfl

theorem hookBackfill_apply_rest {id : String} {row : Doc}
    (h : ∀ items, col row "server_script" ≠ .list items) :
    hookBackfill.apply (id, row)
      = some (id, putField "server_script" (col row "server_script") row) := by
  refine RecordUpdate.apply_of_cond ?_ rfl
  rw [hookBackfill_set]
  split
  · exact absurd ‹_› (h _)
  · rfl

theorem scalarToList_cond (row : Doc) :
    scalarToList.cond row = match col row "server_script" with
      | .text _ => true
      | _ => false := rfl

theorem scalarToList_cond_of_ne {row : Doc} (h : ∀ s, col row "server_script" ≠ .text s) :
    scalarToList.cond row = false := by
  rw [scalarToList_cond]
  split
  · exact absurd ‹_› (h _)
  · rfl

/-- Of a settled record the statements make itself. -/
theorem apply_of_settled {r : Rec} (h : Settled r.2) :
    scalarToList.apply r = some r ∧ hookBackfill.apply r = some r := by
  obtain ⟨id, row⟩ := r
  constructor
  · -- The first statement is for texts only.
    exact RecordUpdate.apply_of_not_cond rfl (scalarToList_cond_of_ne h.notText)
  · -- The second one writes each list of items back, and any other value as it is.
    by_cases hlist : ∃ items, col row "server_script" = .list items
    · obtain ⟨items, hlist⟩ := hlist
      rw [hookBackfill_apply_list hlist (mapM_of_hooked (h.hooked items hlist)),
        setField_of_lookup (lookup_of_col hlist (by simp))]
    · rw [hookBackfill_apply_rest fun items hitems => hlist ⟨items, hitems⟩, putField_col h.stored]

/-- The record after the first statement. -/
def listed (row : Doc) : Doc :=
  if scalarToList.cond row then setField "server_script" (.list [.object (ownerItem row)]) row
  else row

theorem scalarToList_run (table : List Rec) :
    scalarToList.run table = some (table.map fun r => (r.1, listed r.2)) := by
  induction table with
  | nil => rfl
  | cons r rest ih =>
      rw [RecordUpdate.run_cons, ih]
      rfl

/-- The items of the script list of a record are objects. -/
def HasItems (row : Doc) : Prop :=
  ∀ values, col row "server_script" = .list values → ∃ items : List Doc, values = items.map .object

/-- What the two statements make of a record. -/
theorem hookBackfill_apply_listed {r : Rec} (h : HasItems r.2) :
    ∃ row', hookBackfill.apply (r.1, listed r.2) = some (r.1, row') ∧
      DocTypeMigrated r.2 row' ∧ Settled row' := by
  obtain ⟨id, row⟩ := r
  by_cases htext : ∃ s, col row "server_script" = .text s
  · -- the text becomes the item of the owner, and the item is given a hook
    obtain ⟨s, hs⟩ := htext
    have hlisted : listed row = setField "server_script" (.list [.object (ownerItem row)]) row := by
      unfold listed
      rw [scalarToList_cond, hs]
      rfl
    have happ : col (ownerItem row) "app" = col row "app" := by simp [ownerItem]
    have hscript : col (ownerItem row) "script" = .text s := by simp [ownerItem, hs]
    have hnone : col (ownerItem row) "hook" = .null := by
      simp only [ownerItem, col_putField]
      rfl
    obtain ⟨item, hitem, hmigrated⟩ := backfillHook_object (ownerItem row)
    have hitems : [Value.object (ownerItem row)].mapM backfillHook = some [.object item] := by
      rw [List.mapM_cons, hitem]
      rfl
    have hhook : col item "hook" = .text "validate" := by rw [hmigrated.hook, hnone]
    refine ⟨_, hookBackfill_apply_list (by rw [hlisted]; simp [col]) hitems, ?_, ?_⟩
    · rw [hlisted]
      constructor
      · exact fun k hk => by simp [col, hk]
      · intro s' hs'
        -- The item has the app and the script of the record.
        obtain rfl : s = s' := by rwa [hs, Value.text.injEq] at hs'
        refine ⟨item, by simp [col], ?_, ?_, hhook⟩
        · rw [hmigrated.others _ (by decide), happ]
        · rw [hmigrated.others _ (by decide), hscript]
      · exact fun items hitems => absurd (hs.symm.trans hitems) (by simp)
      · exact fun hnot => absurd hs (hnot s)
    · constructor
      · exact fun s => by simp [col]
      · intro items hlist v hv
        obtain rfl : [Value.object item] = items := by simpa [col] using hlist
        exact ⟨item, List.mem_singleton.mp hv, by simp [hhook]⟩
      · simp
  · have htext' : ∀ s, col row "server_script" ≠ .text s := fun s hs => htext ⟨s, hs⟩
    have hlisted : listed row = row := by
      unfold listed
      rw [scalarToList_cond_of_ne htext']
      rfl
    show ∃ row', hookBackfill.apply (id, listed row) = _ ∧ _
    rw [hlisted]
    by_cases hlist : ∃ values, col row "server_script" = .list values
    · -- A list keeps its items, and those without a hook are given one.
      obtain ⟨values, hvalues⟩ := hlist
      obtain ⟨items, rfl⟩ := h values hvalues
      obtain ⟨items', hitems, hmigrated⟩ := mapM_backfillHook items
      refine ⟨_, hookBackfill_apply_list hvalues hitems, ?_, ?_⟩
      · constructor
        · exact fun k hk => by simp [col, hk]
        · exact fun s hs => absurd hs (htext' s)
        · intro items₀ hitems₀
          have heq : items.map Value.object = items₀.map .object :=
            Value.list.inj (hvalues.symm.trans hitems₀)
          obtain rfl := List.map_injective_iff.mpr (fun _ _ => Value.object.inj) heq
          exact ⟨items', by simp [col], hmigrated⟩
        · exact fun _ hnot => absurd hvalues (hnot _)
      · constructor
        · exact fun s => by simp [col]
        · intro values hlist v hv
          obtain rfl : items'.map .object = values := by simpa [col] using hlist
          obtain ⟨item, hitem, rfl⟩ := List.mem_map.mp hv
          exact ⟨item, rfl, forall_of_forall₂ hmigrated (fun _ _ h => h.hooked) item hitem⟩
        · simp
    · -- What is neither is written back as it is, or nothing where there was nothing.
      have hlist' : ∀ values, col row "server_script" ≠ .list values := fun v hv => hlist ⟨v, hv⟩
      refine ⟨_, hookBackfill_apply_rest hlist', ?_, ?_⟩
      · constructor
        · exact fun k hk => by simp [hk]
        · exact fun s hs => absurd hs (htext' s)
        · exact fun items hitems => absurd hitems (hlist' _)
        · exact fun _ _ => by simp
      · constructor
        · exact fun s hs => htext' s (by simpa using hs)
        · exact fun values hv => absurd (by simpa using hv) (hlist' values)
        · exact lookup_putField_ne_null _ _ _

/-! ### The hooks that are read -/

/-- An attribute, as a text of the answer. -/
theorem asStr_get (row : Doc) (k : String) :
    ((Json.object (fieldsToJson row)).get k).bind Json.asStr = (col row k).toJson.asStr := by
  show ((fieldsToJson row).lookup k).bind Json.asStr = _
  rw [lookup_fieldsToJson, col]
  cases row.lookup k <;> rfl

/-- An entry, from the texts of an item. -/
def entryOf (owner app script hook : Option String) : Option ScriptEntry := do
  let script ← script
  if Frust.Rust.Str.trim script = "" then none
  else
    let hook ← match hook with
      | none => some HookClass.validate
      | some h => HookClass.fromWire h
    return ⟨app, script, hook, app = owner⟩

theorem scriptItem_object (owner : Option String) (item : Doc) :
    scriptItem owner (Value.object item).toJson
      = entryOf owner (col item "app").toJson.asStr (col item "script").toJson.asStr
          (col item "hook").toJson.asStr := by
  rw [← asStr_get, ← asStr_get, ← asStr_get]
  show scriptItem owner (.object (fieldsToJson item)) = _
  unfold scriptItem entryOf
  cases (Json.object (fieldsToJson item)).get "script" <;> rfl

theorem scriptEntries_object (row : Doc) :
    scriptEntries (.object (fieldsToJson row))
      = match (col row "server_script").toJson with
        | .array items => items.filterMap (scriptItem (col row "app").toJson.asStr)
        | .string s =>
            if Frust.Rust.Str.trim s = "" then []
            else [⟨(col row "app").toJson.asStr, s, .validate, true⟩]
        | _ => [] := by
  have hget : (Json.object (fieldsToJson row)).get "server_script"
      = (row.lookup "server_script").map Value.toJson := lookup_fieldsToJson row _
  have hcol : col row "server_script" = (row.lookup "server_script").getD .null := rfl
  unfold scriptEntries
  rw [asStr_get, hget, hcol]
  cases row.lookup "server_script" with
  | none => rfl
  | some v =>
      simp only [Option.map_some, Option.getD_some]
      cases v.toJson <;> rfl

/-- The names of the columns of a record. -/
theorem declared_object (row : Doc) :
    (loadServerScripts (some (.object (fieldsToJson row)))).declared
      = match (col row "fields").toJson with
        | .array fields => fields.filterMap fun f => (f.get "fieldname").bind Json.asStr
        | _ => [] := by
  have hget : (Json.object (fieldsToJson row)).get "fields"
      = (row.lookup "fields").map Value.toJson := lookup_fieldsToJson row _
  have hcol : col row "fields" = (row.lookup "fields").getD .null := rfl
  unfold loadServerScripts
  simp only [hget, hcol]
  cases row.lookup "fields" with
  | none => rfl
  | some v =>
      simp only [Option.map_some, Option.getD_some]
      cases v.toJson <;> rfl

theorem scriptItem_migrated (owner : Option String) {before after : Doc}
    (h : ItemMigrated before after) :
    scriptItem owner (Value.object after).toJson
      = scriptItem owner (Value.object before).toJson := by
  rw [scriptItem_object, scriptItem_object, h.others _ (by decide), h.others _ (by decide), h.hook]
  have hvalidate : HookClass.fromWire "validate" = some .validate := by decide
  -- An item without a hook is read as one of `validate`, which it now says.
  split
  · rename_i hnull
    rw [hnull]
    unfold entryOf
    simp only [Value.toJson, Json.asStr, hvalidate]
  · rfl

theorem filterMap_migrated (owner : Option String) {items items' : List Doc}
    (h : List.Forall₂ ItemMigrated items items') :
    (itemsToJson (items'.map .object)).filterMap (scriptItem owner)
      = (itemsToJson (items.map .object)).filterMap (scriptItem owner) := by
  induction h with
  | nil => rfl
  | cons hitem _ ih =>
      simp only [List.map_cons, itemsToJson, List.filterMap_cons, scriptItem_migrated owner hitem,
        ih]

/-- The scripts of a record are read as before. -/
theorem scriptEntries_migrated {before after : Doc} (hitems : HasItems before)
    (h : DocTypeMigrated before after) :
    scriptEntries (.object (fieldsToJson after))
      = scriptEntries (.object (fieldsToJson before)) := by
  rw [scriptEntries_object, scriptEntries_object, h.others "app" (by decide)]
  by_cases htext : ∃ s, col before "server_script" = .text s
  · -- A text is read as one entry of the owner, and so is the item that it became.
    obtain ⟨s, hs⟩ := htext
    obtain ⟨item, hafter, happ, hscript, hhook⟩ := h.ofText s hs
    have hvalidate : HookClass.fromWire "validate" = some .validate := by decide
    rw [hs, hafter]
    simp only [Value.toJson, itemsToJson]
    have hitem := scriptItem_object (col before "app").toJson.asStr item
    rw [happ, hscript, hhook] at hitem
    simp only [Value.toJson] at hitem
    rw [List.filterMap_cons, hitem]
    unfold entryOf
    by_cases hblank : Frust.Rust.Str.trim s = "" <;> simp [hblank, Json.asStr, hvalidate]
  · by_cases hlist : ∃ values, col before "server_script" = .list values
    · obtain ⟨values, hvalues⟩ := hlist
      obtain ⟨items, rfl⟩ := hitems values hvalues
      obtain ⟨items', hafter, hmigrated⟩ := h.ofList items hvalues
      rw [hvalues, hafter]
      exact filterMap_migrated _ hmigrated
    · rw [h.ofRest (fun s hs => htext ⟨s, hs⟩) fun values hv => hlist ⟨values, hv⟩]

theorem loadServerScripts_migrated {before after : Doc} (hitems : HasItems before)
    (h : DocTypeMigrated before after) :
    loadServerScripts (some (.object (fieldsToJson after)))
      = loadServerScripts (some (.object (fieldsToJson before))) := by
  have hplan : ∀ {p q : HookPlan}, p.entries = q.entries → p.declared = q.declared → p = q := by
    rintro ⟨_, _⟩ ⟨_, _⟩ rfl rfl
    rfl
  refine hplan ?_ ?_
  · unfold loadServerScripts
    simp only [scriptEntries_migrated hitems h]
  · rw [declared_object, declared_object, h.others "fields" (by decide)]

/-! ### Every record -/

/-- A record of `job` after the migration: only a running job without a lease is changed. -/
def JobMigrated (before after : JobRow) : Prop :=
  if before.status = .running ∧ before.leaseExpiresAt = none then
    after = { before with
      status := .queued, claimedBy := none, claimedAt := none, claimToken := none,
      leaseExpiresAt := none, attempts := some (before.attempts.getD 0),
      lastError := some "legacy running claim recovered during v9 migration" }
  else after = before

theorem legacyRequeue_apply (j : JobRecord) :
    ∃ row', legacyRequeue.apply j = some (j.1, row') ∧ JobMigrated j.2 row' ∧
      legacyRequeue.apply (j.1, row') = some (j.1, row') := by
  obtain ⟨id, row⟩ := j
  have hcond : ∀ row : JobRow, legacyRequeue.cond row
      = decide (row.status = .running ∧ row.leaseExpiresAt = none) := by
    intro row
    show (decide (row.status = .running) && row.leaseExpiresAt.isNone) = _
    cases row.leaseExpiresAt <;> simp
  by_cases hlegacy : row.status = .running ∧ row.leaseExpiresAt = none
  · -- The job is queued again, so the statement does not find it a second time.
    refine ⟨_, RecordUpdate.apply_of_cond rfl ?_, ?_, RecordUpdate.apply_of_not_cond rfl ?_⟩
    · rw [hcond, decide_eq_true hlegacy]
    · unfold JobMigrated
      rw [if_pos hlegacy]
    · rw [hcond]
      simp
  · have hnot : legacyRequeue.cond row = false := by rw [hcond, decide_eq_false hlegacy]
    refine ⟨row, RecordUpdate.apply_of_not_cond rfl hnot, ?_,
      RecordUpdate.apply_of_not_cond rfl hnot⟩
    unfold JobMigrated
    rw [if_neg hlegacy]

/-- Take any tables in which the items of each script list are objects. Migrating them succeeds, and
migrating them again changes nothing. Every record stays. A script that is a text is then the one
item of the list, with its app and a hook; the items of a list are all there in their order with
their apps and scripts, each with a hook. So the hooks of every record are read as before. Of the
jobs only a running one without a lease is changed. -/
theorem migrated_idempotent (db : MetaRecords) (h : ∀ r ∈ db.doctypes, HasItems r.2) :
    ∃ after, db.migrated = some after ∧ after.migrated = some after ∧
      List.Forall₂ (fun r r' => r'.1 = r.1 ∧ DocTypeMigrated r.2 r'.2 ∧
        loadServerScripts (some (.object (fieldsToJson r'.2)))
          = loadServerScripts (some (.object (fieldsToJson r.2)))) db.doctypes after.doctypes ∧
      List.Forall₂ (fun j j' => j'.1 = j.1 ∧ JobMigrated j.2 j'.2) db.jobs after.jobs := by
  obtain ⟨docs, hdocs, hmigrated⟩ := RecordUpdate.run_exists (u := hookBackfill)
    (f := fun r : Rec => (r.1, listed r.2))
    (P := fun r r' => (r'.1 = r.1 ∧ DocTypeMigrated r.2 r'.2 ∧
        loadServerScripts (some (.object (fieldsToJson r'.2)))
          = loadServerScripts (some (.object (fieldsToJson r.2)))) ∧ Settled r'.2)
    fun r hr => by
      obtain ⟨row', hrow, hdoc, hsettled⟩ := hookBackfill_apply_listed (h r hr)
      exact ⟨_, hrow, ⟨rfl, hdoc, loadServerScripts_migrated (h r hr) hdoc⟩, hsettled⟩
  have hrow : ∀ j ∈ db.jobs, ∃ j', legacyRequeue.apply (id j) = some j' ∧
      j'.1 = j.1 ∧ JobMigrated j.2 j'.2 ∧ legacyRequeue.apply j' = some j' := by
    intro j _
    obtain ⟨row', hrow, hjob, hfixed⟩ := legacyRequeue_apply j
    exact ⟨_, hrow, rfl, hjob, hfixed⟩
  obtain ⟨jobs, hjobs, hrequeued⟩ := RecordUpdate.run_exists hrow
  rw [List.map_id] at hjobs
  -- Each record is settled after the first run, whatever it was before.
  have hsettled : ∀ r ∈ docs, scalarToList.apply r = some r ∧ hookBackfill.apply r = some r :=
    forall_of_forall₂ hmigrated fun _ _ hr => apply_of_settled hr.2
  refine ⟨⟨docs, jobs⟩, ?_, ?_, ?_, ?_⟩
  · unfold MetaRecords.migrated
    rw [scalarToList_run]
    show (hookBackfill.run _ >>= _) = _
    rw [hdocs]
    show (legacyRequeue.run _ >>= _) = _
    rw [hjobs]
    rfl
  · -- no record is changed again
    unfold MetaRecords.migrated
    rw [RecordUpdate.run_of_fixed fun r hr => (hsettled r hr).1]
    show (hookBackfill.run docs >>= _) = _
    rw [RecordUpdate.run_of_fixed fun r hr => (hsettled r hr).2]
    show (legacyRequeue.run jobs >>= _) = _
    rw [RecordUpdate.run_of_fixed (forall_of_forall₂ hrequeued fun _ _ hj => hj.2.2)]
    rfl
  · exact hmigrated.imp fun _ _ hr => hr.1
  · exact hrequeued.imp fun _ _ hj => ⟨hj.1, hj.2.1⟩

/-- A script from before the list, in a database with a running job that holds a lease. -/
theorem migrated_idempotent_one : ∃ after,
    MetaRecords.migrated
      ⟨[("doctype:note", [("app", .text "crm"), ("server_script", .text "doc;")])],
        [("job:1", { status := .running, leaseExpiresAt := some 60 })]⟩ = some after ∧
      after.migrated = some after := by
  obtain ⟨after, hmigrated, hagain, _⟩ := migrated_idempotent
    ⟨[("doctype:note", [("app", .text "crm"), ("server_script", .text "doc;")])],
      [("job:1", { status := .running, leaseExpiresAt := some 60 })]⟩ fun r hr values hvalues => by
        rw [List.mem_singleton.mp hr] at hvalues
        cases hvalues
  exact ⟨after, hmigrated, hagain⟩

end Frust.Kernel
