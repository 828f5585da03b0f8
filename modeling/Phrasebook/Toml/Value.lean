import Phrasebook.Text.Utf8
/-!
# Values of a TOML document

## Main definitions

* `Toml.Value`: the values, tables included.
* `Toml.Origin`: how a table or an array of tables came to be.
* `Toml.Entries`: the keys of a table with their values, in the order of the document.
* `Toml.Entries.put`: add a value under a dotted key.
* `Toml.Entries.atPath`: act on the value under the path of a header.

## Implementation notes

A table may be spread over a document, and what may still be added to it depends on how it came to
be. Each table therefore remembers its origin. No configuration asks for a float, a date or a time:
these are checked, and then only their kind is kept.
-/

namespace Phrasebook

namespace Toml

/-- How a table, or an array, came to be. -/
inductive Origin where
  /-- Written between braces or brackets; complete where it ends. -/
  | inline
  /-- Opened by a header of its own. -/
  | header
  /-- Named on the way in the path of a header, and not opened so far. -/
  | implied
  /-- Named on the way in a dotted key. -/
  | dotted
  deriving DecidableEq, Repr

/-- A value of a document. -/
inductive Value where
  | string (text : Text)
  | integer (number : Int)
  | float
  | boolean (truth : Bool)
  | moment
  | array (origin : Origin) (elements : List Value)
  | table (origin : Origin) (entries : List (Text × Value))

/-- The keys of a table, with their values. -/
abbrev Entries := List (Text × Value)

namespace Entries

/-- The value under a key. -/
def get? (entries : Entries) (key : Text) : Option Value :=
  (entries.find? fun (k, _) => k = key).map Prod.snd

/-- Let `change` replace the value under a key, or add one if there is none; it may refuse. -/
def update (key : Text) (change : Option Value → Option Value) : Entries → Option Entries
  | [] => (change none).map fun value => [(key, value)]
  | (k, value) :: rest =>
    if k = key then (change (some value)).map fun value => (k, value) :: rest
    else (update key change rest).map ((k, value) :: ·)

/-- Change the entries of the last table of an array of tables. -/
def updateLast (change : Entries → Option Entries) : List Value → Option (List Value)
  | [] => none
  | [.table origin inner] => (change inner).map fun inner => [.table origin inner]
  | value :: rest => (updateLast change rest).map (value :: ·)

/-- Add a value under the dotted key with the given steps before its last one. The steps lead
through tables that dotted keys have made, and through one that is implied as long as it is not the
last step; tables with a header or braces of their own are closed to dotted keys. -/
def put (key : Text) (value : Value) : List Text → Entries → Option Entries
  | [], entries =>
    entries.update key fun
      | none => some value
      | some _ => none
  | step :: steps, entries =>
    entries.update step fun
      | none => (put key value steps []).map (.table .dotted)
      | some (.table origin inner) =>
        if origin = .dotted ∨ (origin = .implied ∧ steps ≠ []) then
          (put key value steps inner).map (.table origin)
        else none
      | some (.array .header elements) =>
        if steps = [] then none
        else (updateLast (put key value steps) elements).map (.array .header)
      | some _ => none

/-- Let `change` act on the value under the path of a header. Tables on the way are made where they
are missing, and of an array of tables the last one is meant; inline values are closed. -/
def atPath (key : Text) (change : Option Value → Option Value) :
    List Text → Entries → Option Entries
  | [], entries => entries.update key change
  | step :: steps, entries =>
    entries.update step fun
      | none => (atPath key change steps []).map (.table .implied)
      | some (.table origin inner) =>
        if origin = .inline then none else (atPath key change steps inner).map (.table origin)
      | some (.array .header elements) =>
        (updateLast (atPath key change steps) elements).map (.array .header)
      | some _ => none

end Entries

end Toml

end Phrasebook
