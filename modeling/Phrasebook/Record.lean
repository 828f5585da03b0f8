import Phrasebook.Text.Utf8
/-!
# Records of a run

Beside its results a run makes records of what it does, each with a level. The environment chooses
the level down to which records are shown.

## Main definitions

* `Level`, `Record`: a record and its level.
* `Level.threshold`: the least urgent level that is shown.
-/

namespace Phrasebook

/-- How urgent a record is. -/
inductive Level where
  | error
  | warn
  | info
  | debug
  deriving DecidableEq, Repr

/-- A record of what a run does. -/
structure Record where
  /-- How urgent it is. -/
  level : Level
  /-- What it says. -/
  text : Text
  deriving DecidableEq, Repr

namespace Level

/-- The rank of a level; the most urgent one has rank 1. -/
def rank : Level → Nat
  | error => 1
  | warn => 2
  | info => 3
  | debug => 4

/-- The name under which records of the level are shown. -/
def name : Level → Text
  | error => "ERROR".toList
  | warn => "WARN".toList
  | info => "INFO".toList
  | debug => "DEBUG".toList

/-- The rank down to which records are shown: down to warnings unless a level is named, and none at
all if the name is not that of a level. The name `TRACE` goes below all levels of records. -/
def threshold : Option Text → Nat
  | none => rank warn
  | some [] => rank error
  | some text =>
    let wanted := text.map Char.toUpper
    if wanted = "TRACE".toList then rank debug
    else (([error, warn, info, debug].find? fun level => level.name = wanted).map rank).getD 0

end Level

/-- The records that are shown. -/
def Record.shown (setting : Option Text) (records : List Record) : List Record :=
  records.filter fun record => record.level.rank ≤ Level.threshold setting

end Phrasebook
