import Frust.Kernel.Feed
import Frust.Kernel.Session
import Frust.Kernel.Wire

/-!
# `Frust.Kernel.Audit`: the audit trail of a record

The route `audit` reads a page of the changefeed of a table, and answers the entries whose text
contains the record id. The changefeed itself is a `History`: its versionstamps rise. What an entry
is about is the id of the documents in it, `FeedEntry.changed`.
-/

set_option autoImplicit false

namespace Frust.Kernel

open Frust.Rust Feed

namespace Feed

/-- The changefeed of a table. -/
structure History where
  entries : List FeedEntry
  rising : entries.Pairwise fun a b => a.versionstamp < b.versionstamp

/-- `SHOW CHANGES ... SINCE since LIMIT limit`. -/
def History.page (h : History) (since limit : Nat) : List FeedEntry :=
  (h.entries.filter fun e => since ≤ e.versionstamp).take limit

/-- The id of the document of a change. -/
def FeedChange.record : FeedChange → Option String
  | .defineTable _ => none
  | .create fields => (fields.lookup "id").bind Json.asStr
  | .update current _ _ _ => (current.get "id").bind Json.asStr
  | .delete id _ => id.asStr

/-- The entry changed the record. -/
def FeedEntry.changed (record : String) (e : FeedEntry) : Bool :=
  e.changes.any fun c => c.record = some record

end Feed

/-- `["audit", doctype, key]`, with what the database answers to its statement. -/
def auditRoute (caller : Caller) (doctype key : String)
    (showChanges : (since limit : Nat) → Except BrokerError Json) : Except BrokerError Json := do
  Session.requireManager caller
  checkIdent doctype
  let record := doctype ++ ":" ++ key
  let feed ← showChanges 1 1000
  let all := feed.rows
  let mine := all.filter fun e => Str.contains record e.text
  return .object [("record", .string record), ("total", .int all.length), ("entries", .array mine)]

end Frust.Kernel
