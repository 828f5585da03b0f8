import Phrasebook.Toml.Grammar
/-!
# TOML documents

A document is a list of sections: the entries before the first header, and those that follow each
header. Every section adds to the table that its header names. A table is opened at most once, and
what one section has completed no other one may reopen.

## Main definitions

* `Toml.Section`: the lines under a header.
* `Toml.parse`: the entries of a document, if it is well formed.
-/

namespace Phrasebook

namespace Toml

/-- A key with its value. -/
abbrev Assignment := Key × Value

/-- The entries under a header. -/
structure Section where
  /-- The key between the brackets. -/
  key : Key
  /-- The brackets are doubled. -/
  repeats : Bool
  /-- The entries that follow. -/
  assignments : List Assignment

/-- The entries before the first header, and the sections. -/
def sections : List Line → List Assignment × List Section
  | [] => ([], [])
  | line :: rest =>
    let (first, others) := sections rest
    match line with
    | .blank => (first, others)
    | .entry key value => ((key, value) :: first, others)
    | .table key => ([], ⟨key, false, first⟩ :: others)
    | .tables key => ([], ⟨key, true, first⟩ :: others)

namespace Entries

/-- Add entries to a table, one after the other. -/
def putAll (entries : Entries) (assignments : List Assignment) : Option Entries :=
  assignments.foldlM (fun entries (key, value) => entries.put key.last value key.steps) entries

/-- What a section makes of the value under its header. -/
def opened (part : Section) : Option Value → Option Value
  | none => do
    let table := .table .header (← putAll [] part.assignments)
    return if part.repeats then .array .header [table] else table
  | some (.table .implied entries) => do
    guard (!part.repeats)
    return .table .header (← putAll entries part.assignments)
  | some (.array .header elements) => do
    guard part.repeats
    return .array .header (elements ++ [.table .header (← putAll [] part.assignments)])
  | some _ => none

/-- Add a section to a document. -/
def addSection (entries : Entries) (part : Section) : Option Entries :=
  entries.atPath part.key.last (opened part) part.key.steps

end Entries

/-- The entries of a document; nothing if the text is not one. -/
def parse (text : Text) : Option Entries := do
  let (lines, rest) ← Reader.lines text
  guard rest.isEmpty
  let (first, others) := sections lines
  others.foldlM Entries.addSection (← Entries.putAll [] first)

end Toml

end Phrasebook
