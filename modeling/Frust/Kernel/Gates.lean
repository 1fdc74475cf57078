import Frust.Kernel.Sync

/-!
# `Frust.Kernel.Gates`: what a table lets through

`gatesOf` reads the gates of a table off its statements: the permissions, the columns,
and the events with the given names. `create`, `update` and `delete` are one statement
on one record each, under a session; a statement that a gate refuses has no effect.

The columns shape the row first: defaults fill in what a `CREATE` leaves out, and every
column takes its value in through its type. The permission of an update is evaluated on
the row after it, as the source says, and the events run last.
-/

set_option autoImplicit false

namespace Frust.Kernel

/-! ### Reading the statements -/

/-- Defines a column: over the one of the same name, or as a new one. -/
def defineField (f : FieldDdl) : List FieldDdl → List FieldDdl
  | [] => [f]
  | g :: rest => if g.name = f.name then f :: rest else g :: defineField f rest

/-- The columns that the statements define. -/
def columnsOf (ds : List Ddl) : List FieldDdl :=
  ds.foldl (fun acc d => match d with | .field f => defineField f acc | _ => acc) []

/-- The permissions that the statements define. -/
def permissionsOf (ds : List Ddl) : Option Permissions :=
  ds.findSome? fun | .table _ perms _ => some perms | _ => none

/-- Undefined columns are refused. -/
def isSchemafull (ds : List Ddl) : Bool :=
  ds.any fun | .table schemafull _ _ => schemafull | _ => false

/-- A guarding event. -/
structure Event where
  cond : Expr
  guards : List Guard
  deriving DecidableEq

/-- The guarding events of the given names. -/
def eventsOf (names : List String) (ds : List Ddl) : List Event :=
  ds.filterMap fun
    | .event name cond (.guards gs) => if name ∈ names then some ⟨cond, gs⟩ else none
    | _ => none

/-- The gates of a table. Without permissions everyone passes. -/
structure Gates where
  schemafull : Bool
  perms : Option Permissions
  columns : List FieldDdl
  events : List Event
  deriving DecidableEq

/-- The gates that the statements define, with the events of the given names. -/
def gatesOf (names : List String) (ds : List Ddl) : Gates :=
  ⟨isSchemafull ds, permissionsOf ds, columnsOf ds, eventsOf names ds⟩

namespace Gates

variable (g : Gates) (E : Engine)

/-! ### Shaping a row -/

/-- The value that a column is given: its default on a `CREATE` that leaves it out. -/
def given (session : Option Auth) (creating : Bool) (f : FieldDdl) (row : Doc) : Value :=
  match col row f.name, creating, f.default with
  | .null, true, some e => e.eval E { session := session, row := row }
  | v, _, _ => v

/-- Takes one column in. -/
def shapeColumn (session : Option Auth) (creating : Bool) (before : Doc) (f : FieldDdl)
    (row : Doc) : Option Doc :=
  let v := given E session creating f row
  if f.readonly && !creating && !E.holds .eq (col before f.name) v then none
  else
    match E.coerce f.type v with
    | none => none
    | some w =>
        if f.assert.all (·.holds E { session := session, row := row, value := w }) then
          some (putField f.name w row)
        else none

/-- Takes columns in, one after the other. -/
def shapeColumns (session : Option Auth) (creating : Bool) (before : Doc) :
    List FieldDdl → Doc → Option Doc
  | [], row => some row
  | f :: rest, row =>
      match shapeColumn E session creating before f row with
      | none => none
      | some row' => shapeColumns session creating before rest row'

/-- The row as the table stores it, if its columns take it in. -/
def shape (session : Option Auth) (creating : Bool) (before row : Doc) : Option Doc :=
  if g.schemafull && !row.all (fun e => g.columns.any (·.name = e.1)) then none
  else shapeColumns E session creating before g.columns row

/-! ### Permissions and events -/

/-- A permission on a row. -/
def permits (session : Option Auth) (row : Doc) (kind : Permissions → Option Expr) : Bool :=
  g.perms.all fun p => (kind p).any (·.holds E { session := session, row := row })

/-- No event throws. -/
def quiet (sc : Expr.Scope) : Bool :=
  g.events.all fun e => !e.cond.holds E sc || e.guards.all fun x => !x.cond.holds E sc

/-! ### Statements -/

/-- `CREATE ... CONTENT content`: the row stored. -/
def create (session : Option Auth) (content : Doc) : Option Doc :=
  match g.shape E session true [] (newRow content) with
  | none => none
  | some row =>
      if g.permits E session row (·.create)
          && g.quiet E { session := session, row := row, after := row, event := "CREATE" } then
        some row
      else none

/-- `UPDATE ... MERGE content` on a row: the row stored. -/
def update (session : Option Auth) (before content : Doc) : Option Doc :=
  match g.shape E session false before (mergeRow before content) with
  | none => none
  | some row =>
      if g.permits E session row (·.update)
          && g.quiet E { session := session, row := row, before := before, after := row,
                         event := "UPDATE" } then
        some row
      else none

/-- `DELETE` of a row. -/
def delete (session : Option Auth) (before : Doc) : Bool :=
  g.permits E session before (·.delete)
    && g.quiet E { session := session, row := before, before := before, event := "DELETE" }

end Gates

/-! ### Tables -/

/-- The documents of a table, by record key. -/
abbrev Docs := String → Option Doc

/-- A statement on one record. -/
inductive Mutation where
  | create (key : String) (content : Doc)
  | update (key : String) (content : Doc)
  | delete (key : String)

/-- The record that a statement is about. -/
def Mutation.key : Mutation → String
  | create key _ | update key _ | delete key => key

/-- The table after a statement that the gates let through. -/
def mutate (g : Gates) (E : Engine) (session : Option Auth) (docs : Docs) :
    Mutation → Option Docs
  | .create key content =>
      match docs key with
      | some _ => none
      | none => (g.create E session content).map fun row => Function.update docs key (some row)
  | .update key content =>
      match docs key with
      | none => none
      | some before =>
          (g.update E session before content).map fun row => Function.update docs key (some row)
  | .delete key =>
      match docs key with
      | none => none
      | some before =>
          if g.delete E session before then some (Function.update docs key none) else none

end Frust.Kernel
