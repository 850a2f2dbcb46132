import TableQuery.Json.Printer
import TableQuery.Json.Reader
import TableQuery.Refusal

/-! # Settings of a query

Settings are stored as a JSON object, or as an array of the two settings in
order.  What is missing keeps its default.  Fields with other names are passed
over, whatever their values; the two known ones may stand there once, with a
value of the right form.
-/

namespace TableQuery

/-- The choices left to whoever runs a query. -/
structure Settings where
  /-- Whether letter case is ignored in the names of functions. -/
  foldFunctionNames : Bool := true
  /-- The characters that may quote a literal. -/
  literalQuotes : List Char := ['\'', '"']
deriving DecidableEq

namespace Settings

open Json (Term)

def caseSensitive : Settings := { foldFunctionNames := false }

def foldField : String := "case_insensitive_functions"

def quotesField : String := "literal_quotes"

def flag? : Term → Option Bool
  | .bool b => some b
  | _ => none

def quote? : Term → Option Char
  | .text pieces =>
    match Json.characters? pieces with
    | some [c] => some c
    | _ => none
  | _ => none

def quotes? : Term → Option (List Char)
  | .array items => items.mapM quote?
  | _ => none

/-- What the fields read so far say; `none` stands for a field that has not come yet. -/
structure Found where
  fold : Option Bool := none
  quotes : Option (List Char) := none

def Found.field? (found : Found) (field : List Json.Piece × Term) : Option Found := do
  let name ← Json.text? field.1
  if name = foldField then
    if found.fold.isSome then none else return { found with fold := some (← flag? field.2) }
  else if name = quotesField then
    if found.quotes.isSome then none else return { found with quotes := some (← quotes? field.2) }
  else return found

/-- The settings found, with defaults for what is missing. -/
def Found.settings (found : Found) : Settings :=
  let default : Settings := {}
  ⟨found.fold.getD default.foldFunctionNames, found.quotes.getD default.literalQuotes⟩

def ofTerm? : Term → Option Settings
  | .object fields => (fields.foldlM Found.field? {}).map Found.settings
  | .array [] => some {}
  | .array [fold] => do return Found.settings { fold := some (← flag? fold) }
  | .array [fold, quotes] => do return ⟨← flag? fold, ← quotes? quotes⟩
  | _ => none

/-- Reads the settings in a file, given by its bytes; a missing file has none. -/
def load (file : Option ByteArray) : Except Refusal Settings :=
  match (file.bind String.fromUTF8?).bind fun text => (Term.read? text.toList).bind ofTerm? with
  | some settings => pure settings
  | none => throw .settings

def save (s : Settings) : String :=
  (Json.object [(foldField, .bool s.foldFunctionNames),
    (quotesField, .array (s.literalQuotes.map fun c => .text (String.ofList [c])))]).write

end Settings

end TableQuery
