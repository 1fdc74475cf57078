import Frust.Kernel.Job
import Frust.Kernel.Store

/-!
# `Frust.Kernel.Migrations`: records that travel with the meta version

`meta_data_migrations` is three `UPDATE`s of whole tables. The first makes the list of a
`server_script` that is a text, the second gives each entry of a list a hook, and the third takes
back a running job that has no lease.

A `RecordUpdate` keeps the text of its statement. An `UPDATE` evaluates its `SET` for every record,
also for one that the `WHERE` does not take, and an expression that fails ends the statement.
-/

set_option autoImplicit false

namespace Frust.Kernel

/-- An `UPDATE` of every record of a table. -/
structure RecordUpdate (ρ : Type) where
  text : String
  /-- The record after the `SET`. There is none where an expression fails. -/
  set : ρ → Option ρ
  /-- The `WHERE`. -/
  cond : ρ → Bool

/-- The record `r` after the statement. -/
def RecordUpdate.apply {ρ : Type} (u : RecordUpdate ρ) (r : String × ρ) : Option (String × ρ) := do
  let row ← u.set r.2
  return (r.1, if u.cond r.2 then row else r.2)

/-- The table after the statement. -/
def RecordUpdate.run {ρ : Type} (u : RecordUpdate ρ) (table : List (String × ρ)) :
    Option (List (String × ρ)) :=
  table.mapM u.apply

/-! ### The statements -/

/-- `{ app: app, script: server_script }`. An attribute that is `NONE` has no key. -/
def ownerItem (row : Doc) : Doc :=
  putField "script" (col row "server_script") (putField "app" (col row "app") [])

/-- v7: the list of the owner's script. -/
def scalarToList : RecordUpdate Doc where
  text := "UPDATE doctype SET server_script = [\x7b app: app, script: server_script "
    ++ "\x7d]          WHERE type::is_string(server_script)"
  set row := some (setField "server_script" (.list [.object (ownerItem row)]) row)
  cond row :=
    match col row "server_script" with
    | .text _ => true
    | _ => false

/-- The closure of `map` on an item: the pair `hook` is put over the entries of an object that has
none. On anything else `object::entries` fails. -/
def backfillHook : Value → Option Value
  | .object item =>
      match col item "hook" with
      | .null => some (.object (setField "hook" (.text "validate") item))
      | _ => some (.object item)
  | _ => none

/-- v8: a hook for each entry. The guard is in the expression. -/
def hookBackfill : RecordUpdate Doc where
  text := "UPDATE doctype SET server_script = IF type::is_array(server_script) "
    ++ "\x7b            server_script.map(|$s|              IF $s.hook = NONE \x7b "
    ++ "object::from_entries(object::entries($s).append(['hook', 'validate'])) "
    ++ "\x7d              ELSE \x7b $s \x7d)          \x7d ELSE \x7b server_script \x7d"
  set row :=
    match col row "server_script" with
    | .list items => do
        let items ← items.mapM backfillHook
        return setField "server_script" (.list items) row
    | v => some (putField "server_script" v row)
  cond _ := true

/-- v9: a running job without a lease goes back to the queue. -/
def legacyRequeue : RecordUpdate JobRow where
  text := "UPDATE job SET status = 'queued', claimed_by = NONE, claimed_at = NONE, "
    ++ "claim_token = NONE, lease_expires_at = NONE, attempts = IF attempts = NONE \x7b 0 "
    ++ "\x7d ELSE \x7b attempts \x7d, last_error = 'legacy running claim recovered during "
    ++ "v9 migration' WHERE status = 'running' AND lease_expires_at = NONE"
  set row := some
    { row with
      status := .queued, claimedBy := none, claimedAt := none, claimToken := none,
      leaseExpiresAt := none, attempts := some (row.attempts.getD 0),
      lastError := some "legacy running claim recovered during v9 migration" }
  cond row := row.status = .running && row.leaseExpiresAt.isNone

/-- `meta_data_migrations`. -/
def metaDataMigrations : String :=
  "; ".intercalate [scalarToList.text, hookBackfill.text, legacyRequeue.text]

/-- The tables that the statements are about. -/
structure MetaRecords where
  doctypes : List Rec
  jobs : JobTable

/-- The statements one after the other. They are in one transaction: where one fails there is
nothing. -/
def MetaRecords.migrated (db : MetaRecords) : Option MetaRecords := do
  let doctypes ← scalarToList.run db.doctypes
  let doctypes ← hookBackfill.run doctypes
  let jobs ← legacyRequeue.run db.jobs
  return { doctypes, jobs }

end Frust.Kernel
