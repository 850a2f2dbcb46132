import TableQuery.Json.Printer
import TableQuery.Table.Basic

/-! # Tables and JSON records

A record is a JSON object with a field for every column of a row.  Integers,
floats, texts and nothing have the same form in cells and in JSON values.  JSON
values of other kinds become texts, and floats that are no finite numbers
become nothing in JSON.
-/

namespace TableQuery

namespace Cell

/-- The cell of a JSON value.  An integer beyond 64 bits with sign becomes a float; truth values,
arrays and objects become their JSON texts. -/
def ofJson : Json → Cell
  | .null => .null
  | .integer i =>
    if IsInt i then .ofInt i else .float i.toNat.toUInt64.toFloat
  | .float f => .float f
  | .text s => .text s
  | .bool b => .text (Json.bool b).write
  | .array items => .text (Json.array items).write
  | .object fields => .text (Json.object fields).write

def toJson : Cell → Json
  | .int i => .integer i.toInt
  | .float f => if f.isFinite then .float f else .null
  | .text s => .text s
  | .null => .null

end Cell

namespace Table

/-- The row of a record: the cells of its fields, empty where a field is missing. -/
def rowOfRecord (names : List String) (i : Nat) : Json → Except Refusal Row
  | .object fields => pure (names.map fun name => ((fields.lookup name).map Cell.ofJson).getD .null)
  | _ => throw (.invalidTable (.notAnObject i))

/-- The table of a list of records, with the columns in the order of their names. -/
def ofRecords (names : List String) (records : List Json) (aliases : Aliases) :
    Except Refusal Table := do
  let rows ← records.zipIdx.mapM fun (record, i) => rowOfRecord names i record
  let header ← Header.ofNames names aliases
  ofRows header rows

def records (t : Table) : List Json :=
  let columns := t.header.names.filterMap fun name => t.header.columns.find? name
  t.rows.map fun row =>
    .object (Json.sortFields
      (columns.map fun (name, position) => (name, (row.cell position).toJson)))

end Table

end TableQuery
