import Frust.Rust.Str
import Mathlib.Data.List.Sort
import Std.Data.ExtTreeMap

/-!
# `Frust.Orm.Schema`: snapshots and diffs

A resource's schema is a block of `DEFINE TABLE / FIELD / INDEX / EVENT`
statements. `fromSql` turns the block into a `SchemaSnapshot`: a map from the
object key (`"field:title"`) to the object. `diff old new` lists what has to be
created, altered and dropped, and `SchemaDiff.statements` orders the statements
that do it.

A snapshot carries `keyed`: every object stands under its own key. `fromSql`
inserts under the key, so it holds by construction, and a key determines the
kind and the name (`SchemaObject.key_inj`).

`Stmt` is the statement before it is printed; `Stmt.sql` is the text that the
source builds with `format!`.
-/

set_option autoImplicit false

namespace Frust.Orm

open Frust.Rust

/-- The kinds of schema object. -/
inductive ObjectKind where
  | table | field | index | event
  deriving DecidableEq

namespace ObjectKind

/-- The key prefix of a kind. -/
def keyword : ObjectKind → String
  | table => "table"
  | field => "field"
  | index => "index"
  | event => "event"

/-- The keyword of a kind in a statement. -/
def sqlKeyword : ObjectKind → String
  | table => "TABLE"
  | field => "FIELD"
  | index => "INDEX"
  | event => "EVENT"

/-- Apply order: tables, fields, indexes, events. -/
def rank : ObjectKind → Nat
  | table => 0
  | field => 1
  | index => 2
  | event => 3

end ObjectKind

/-- One DDL object: kind, name and the `DEFINE` statement, without its `;`. -/
structure SchemaObject where
  kind : ObjectKind
  name : String
  defineSql : String
  deriving DecidableEq

/-- `kind:name`, the key of an object in a snapshot. -/
def SchemaObject.key (o : SchemaObject) : String := o.kind.keyword ++ ":" ++ o.name

/-- The schema of one resource, as a map from key to object. -/
structure SchemaSnapshot where
  table : String
  objects : Std.ExtTreeMap String SchemaObject
  /-- Every object stands under its own key. -/
  keyed : ∀ (k : String) (o : SchemaObject), objects[k]? = some o → o.key = k

namespace SchemaSnapshot

instance : DecidableEq SchemaSnapshot := fun a b =>
  decidable_of_iff (a.table = b.table ∧ a.objects = b.objects) <| by
    cases a
    cases b
    simp

/-- The empty snapshot, `SchemaSnapshot::default()`. -/
def default : SchemaSnapshot where
  table := ""
  objects := ∅
  keyed k o h := by simp at h

instance : Inhabited SchemaSnapshot := ⟨default⟩

/-- Adds an object under its key; a later statement replaces an earlier one. -/
def insert (s : SchemaSnapshot) (o : SchemaObject) : SchemaSnapshot where
  table := s.table
  objects := s.objects.insert o.key o
  keyed k o' h := by
    rw [Std.ExtTreeMap.getElem?_insert] at h
    split at h
    · rename_i hk
      cases h
      exact Std.LawfulEqCmp.compare_eq_iff_eq.mp hk
    · exact s.keyed k o' h

/-- The snapshot has no object. -/
def isEmpty (s : SchemaSnapshot) : Bool := s.objects.isEmpty

end SchemaSnapshot

/-! ### Reading a block of statements -/

/-- The scanner of `split_statements`. `depth` counts open braces, `inStr` says
whether a single-quoted string is open, and `cur` is the statement being read,
last character first. -/
def splitStatementsAux : List Char → (depth : Nat) → (inStr : Bool) → (cur : List Char) →
    List String
  | [], _, _, cur => if cur.isEmpty then [] else [String.ofList cur.reverse]
  | ['\\'], _, true, cur => [String.ofList ('\\' :: cur).reverse]
  -- inside a string a backslash takes the next character with it
  | '\\' :: c :: rest, depth, true, cur => splitStatementsAux rest depth true (c :: '\\' :: cur)
  | c :: rest, depth, inStr, cur =>
      if c = '\'' then splitStatementsAux rest depth (!inStr) (c :: cur)
      else if c = '{' && !inStr then splitStatementsAux rest (depth + 1) inStr (c :: cur)
      else if c = '}' && !inStr then splitStatementsAux rest (depth - 1) inStr (c :: cur)
      else if c = ';' && !inStr && depth == 0 then
        String.ofList cur.reverse :: splitStatementsAux rest depth inStr []
      else splitStatementsAux rest depth inStr (c :: cur)

/-- Splits a DDL block at its terminating semicolons. -/
def splitStatements (sql : String) : List String := splitStatementsAux sql.toList 0 false []

/-- The kind named by the second word of a `DEFINE` statement. -/
def parseKind (word : String) : Option ObjectKind :=
  match Str.toAsciiUppercase word with
  | "TABLE" => some .table
  | "FIELD" => some .field
  | "INDEX" => some .index
  | "EVENT" => some .event
  | _ => none

/-- The words of a `DEFINE` statement after its kind: the name, past an optional
`OVERWRITE` or `IF NOT EXISTS`, and the words that follow it. -/
def parseName : List String → Option (String × List String)
  | [] => none
  | w :: rest =>
      if Str.eqIgnoreAsciiCase w "OVERWRITE" then
        match rest with
        | name :: tail => some (name, tail)
        | [] => none
      else if Str.eqIgnoreAsciiCase w "IF" then
        match rest with
        | _ :: _ :: name :: tail => some (name, tail)
        | _ => none
      else some (w, rest)

/-- Parses one `DEFINE TABLE|FIELD|INDEX|EVENT` statement; `none` for anything
else. -/
def parseDefine (stmt : String) : Option SchemaObject :=
  match Str.splitWhitespace stmt with
  | define :: kindWord :: rest =>
      if Str.eqIgnoreAsciiCase define "DEFINE" then
        match parseKind kindWord, parseName rest with
        | some kind, some (name, _) => some { kind, name, defineSql := stmt }
        | _, _ => none
      else none
  | _ => none

namespace SchemaSnapshot

/-- One statement of the block joins the snapshot, when it defines an object. -/
def addStatement (s : SchemaSnapshot) (raw : String) : SchemaSnapshot :=
  let stmt := Str.trim raw
  if stmt.isEmpty then s
  else match parseDefine stmt with
    | some o => s.insert o
    | none => s

/-- Parses a resource's block of statements into its snapshot. -/
def fromSql (table sql : String) : SchemaSnapshot :=
  (splitStatements sql).foldl addStatement { default with table }

end SchemaSnapshot

/-! ### The diff -/

/-- An object that the old snapshot has and the new one lacks. -/
structure DroppedObject where
  kind : ObjectKind
  name : String
  deriving DecidableEq

/-- A statement of a migration, before it is printed. -/
inductive Stmt where
  /-- The object's own `DEFINE` statement. -/
  | define (o : SchemaObject)
  /-- `REMOVE kind IF EXISTS name ON TABLE table`. -/
  | remove (kind : ObjectKind) (name table : String)
  deriving DecidableEq

/-- The text of a statement, without its `;`. -/
def Stmt.sql : Stmt → String
  | define o => o.defineSql
  | remove kind name table =>
      "REMOVE " ++ kind.sqlKeyword ++ " IF EXISTS " ++ name ++ " ON TABLE " ++ table

/-- The difference between two snapshots. -/
structure SchemaDiff where
  /-- There was no prior object. -/
  newTable : Bool
  /-- Objects of `new` that `old` lacks. -/
  creates : List SchemaObject
  /-- Objects whose definition changed. -/
  alters : List SchemaObject
  /-- Objects of `old` that `new` lacks. -/
  drops : List DroppedObject
  deriving DecidableEq

namespace SchemaDiff

/-- Nothing to create, alter or drop. -/
def isEmpty (d : SchemaDiff) : Bool := d.creates.isEmpty && d.alters.isEmpty && d.drops.isEmpty

/-- Dropped fields: the operations that `allow_destructive` gates. -/
def destructive (d : SchemaDiff) : List String :=
  (d.drops.filter (·.kind = .field)).map fun o => "REMOVE FIELD " ++ o.name

/-- Applied, but worth surfacing: altered fields and events, dropped indexes and
events. -/
def warnings (d : SchemaDiff) : List String :=
  ((d.alters.filter (·.kind = .field)).map fun o => "ALTER FIELD " ++ o.name) ++
  ((d.drops.filter (·.kind = .index)).map fun o => "REMOVE INDEX " ++ o.name) ++
  ((d.alters.filter (·.kind = .event)).map fun o => "ALTER EVENT " ++ o.name) ++
  ((d.drops.filter (·.kind = .event)).map fun o => "REMOVE EVENT " ++ o.name)

/-- The `REMOVE` statement of a dropped object. A table is never dropped. -/
def dropStatement (table : String) (o : DroppedObject) : Option Stmt :=
  match o.kind with
  | .field => some (.remove .field o.name table)
  | .index => some (.remove .index o.name table)
  | .event => some (.remove .event o.name table)
  | .table => none

/-- The ordered statements: creates and alters by kind, then drops. -/
def statements (d : SchemaDiff) (table : String) : List Stmt :=
  ((d.creates ++ d.alters).insertionSort (fun a b => a.kind.rank ≤ b.kind.rank)).map Stmt.define ++
    d.drops.filterMap (dropStatement table)

end SchemaDiff

/-- The diff that migrates `old` to `new`. -/
def diff (old new : SchemaSnapshot) : SchemaDiff where
  newTable := old.objects.isEmpty
  creates := new.objects.toList.filterMap fun (key, obj) =>
    match old.objects[key]? with
    | none => some obj
    | some _ => none
  alters := new.objects.toList.filterMap fun (key, obj) =>
    match old.objects[key]? with
    | none => none
    | some prev => if prev.defineSql = obj.defineSql then none else some obj
  drops := old.objects.toList.filterMap fun (key, obj) =>
    if key ∈ new.objects then none else some { kind := obj.kind, name := obj.name }

end Frust.Orm
