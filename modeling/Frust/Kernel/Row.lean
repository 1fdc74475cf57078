import Frust.Kernel.Contract

/-!
# `Frust.Kernel.Row`: columns of a row

A stored row is a document without its record id. A column that is absent is `NONE`,
and storing `NONE` removes a column. `mergeFields` is `MERGE`: objects are merged field
by field, and everything else is replaced.
-/

set_option autoImplicit false

namespace Frust.Kernel

/-- The value of a column. -/
def col (row : Doc) (k : String) : Value := (row.lookup k).getD .null

/-- Writes one field over a document: in its place, or at the end. -/
def setField (k : String) (v : Value) : Doc → Doc
  | [] => [(k, v)]
  | (k', v') :: rest => if k' = k then (k, v) :: rest else (k', v') :: setField k v rest

/-- Writes fields over a document, one after the other. -/
def overlay (base doc : Doc) : Doc := doc.foldl (fun acc e => setField e.1 e.2 acc) base

/-- An object literal: of equal keys the last one counts. -/
def objectOf (entries : Doc) : Doc := overlay [] entries

/-- Stores a column. -/
def putField (k : String) (v : Value) (row : Doc) : Doc :=
  match v with
  | .null => row.filter (·.1 ≠ k)
  | v => setField k v row

mutual

/-- `MERGE` of one value over another. -/
def mergeValue (old : Value) : Value → Value
  | .object fields =>
      match old with
      | .object row => .object (mergeFields row fields)
      | _ => .object fields
  | v => v

/-- `MERGE` of fields into a row. -/
def mergeFields (row : Doc) : Doc → Doc
  | [] => row
  | (k, v) :: rest => mergeFields (putField k (mergeValue (col row k) v) row) rest

end

/-- A row after `MERGE content`. -/
def mergeRow (row content : Doc) : Doc := mergeFields row (objectOf content)

/-- A row of `CONTENT content`. -/
def newRow (content : Doc) : Doc := mergeRow [] content

end Frust.Kernel
