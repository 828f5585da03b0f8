import Phrasebook.Phrase.Shipped
import Phrasebook.Toml.Document
/-!
# Configurations

A configuration chooses the phrase table of a run and the files that the run is about. It is written
in TOML; what it leaves out has a default, and keys that it need not have are ignored.

## Main definitions

* `Config`: a configuration, with its defaults.
* `Config.phraseTable`: the phrase table that a configuration describes.
* `Config.parse`: the configuration that a text describes.

## Implementation notes

Two spellings are accepted beside the plain ones. The table may be named by the one key of a table
with nothing in it, and a phrase may be an array whose first two elements are its source and its
target.
-/

namespace Phrasebook

/-- The extensions of documents, for want of others. -/
def defaultExtensions : List Text :=
  ["md".toList]

/-- What a configuration file can say. -/
structure Config where
  /-- The shipped table to start from. -/
  table : ShippedTable := .headings
  /-- The user's phrases are put over the shipped table, and do not make up a table alone. -/
  usesShipped : Bool := true
  /-- The extensions of the names of documents. -/
  extensions : List Text := defaultExtensions
  /-- The user's phrases. -/
  phrases : List (Phrase Char) := []
  deriving DecidableEq, Repr, Inhabited

namespace Config

/-- The phrase table of a configuration: the user's phrases put over the shipped table, or the
user's phrases alone. -/
def phraseTable (config : Config) : Except TableError PhraseTable :=
  if config.usesShipped then (PhraseTable.shipped config.table).override config.phrases
  else PhraseTable.ofList config.phrases

/-- The text of a string value. -/
def text? : Toml.Value → Option Text
  | .string text => some text
  | _ => none

/-- A table or an array with nothing in it. -/
def isHollow : Toml.Value → Bool
  | .table _ entries => entries.isEmpty
  | .array _ elements => elements.isEmpty
  | _ => false

/-- The shipped table that a value names. -/
def shipped? : Toml.Value → Option ShippedTable
  | .string name => ShippedTable.ofExactName? name
  | .table _ [(name, value)] => do
    guard (isHollow value)
    ShippedTable.ofExactName? name
  | _ => none

/-- The phrase that a value describes. -/
def phrase? : Toml.Value → Option (Phrase Char)
  | .table _ entries => do
    let source ← Toml.Entries.get? entries "source".toList
    let target ← Toml.Entries.get? entries "target".toList
    return ⟨← text? source, ← text? target⟩
  | .array _ (source :: target :: _) => do
    return ⟨← text? source, ← text? target⟩
  | _ => none

/-- The truth value that a value is. -/
def truth? : Toml.Value → Option Bool
  | .boolean truth => some truth
  | _ => none

/-- The list that an array describes, element by element. -/
def list? {α : Type} (element? : Toml.Value → Option α) : Toml.Value → Option (List α)
  | .array _ elements => elements.mapM element?
  | _ => none

/-- What `read?` makes of the value under a key, or the default if there is none. -/
def field {α : Type} (entries : Toml.Entries) (key : String) (read? : Toml.Value → Option α)
    (default : α) : Option α :=
  match entries.get? key.toList with
  | none => some default
  | some value => read? value

/-- The configuration that the entries of a document describe. -/
def ofEntries (entries : Toml.Entries) : Option Config := do
  let defaults : Config := {}
  let table ← field entries "table" shipped? defaults.table
  let usesShipped ← field entries "use_builtin_table" truth? defaults.usesShipped
  let extensions ← field entries "extensions" (list? text?) defaults.extensions
  let phrases ← field entries "phrases" (list? phrase?) defaults.phrases
  return { table, usesShipped, extensions, phrases }

/-- The configuration that a text describes, if it describes one. -/
def parse (text : Text) : Option Config :=
  (Toml.parse text).bind ofEntries

end Config

end Phrasebook
