import Phrasebook.Phrase.Shipped
/-!
# The arguments of the command line

```text
[--config PATH] apply ROOT [--dry-run] [--table TABLE]
[--config PATH] text [--table TABLE]
[--config PATH] list [--table TABLE]
[--config PATH] check
```

`--config` may also follow the command; then it counts rather than one before the command.

## Main definitions

* `Command`, `Invocation`: what the arguments ask for.
* `Invocation.parse`: the invocation that a list of arguments describes.

## Implementation notes

The value of an option is the argument after it or what follows an equals sign in the same argument.
No value is empty. An argument that begins with a hyphen is no value of the option before it, and no
root, unless it is a hyphen alone or follows the argument `--`, after which there are no options.

Requests for help are left out. The arguments `--help`, `-h` and `help`, which would print a help
text and end the run with the code 0, describe no command here, as arguments that make no sense.
-/

namespace Phrasebook

/-- What a run is asked to do. -/
inductive Command where
  /-- Translate the documents under a root in place, or only report on them. -/
  | apply (root : Text) (dryRun : Bool) (table : Option ShippedTable)
  /-- Translate the standard input. -/
  | text (table : Option ShippedTable)
  /-- Print the phrase table in match order. -/
  | list (table : Option ShippedTable)
  /-- Validate the configuration. -/
  | check
  deriving DecidableEq, Repr

/-- A command, and the configuration file that the arguments name. -/
structure Invocation where
  /-- The path of the configuration file. -/
  config : Option Text
  /-- What to do. -/
  command : Command
  deriving DecidableEq, Repr

namespace Invocation

/-- The arguments after a command, sorted by what they are. -/
structure Given where
  /-- The value of `--config`. -/
  config : Option Text := none
  /-- The value of `--table`. -/
  table : Option ShippedTable := none
  /-- Whether `--dry-run` is there. -/
  dryRun : Bool := false
  /-- The arguments that are no options. -/
  operands : List Text := []

/-- The option that takes the path of a configuration. -/
def configOption : Text := "--config".toList

/-- The option that takes the name of a shipped table. -/
def tableOption : Text := "--table".toList

/-- The option that asks for a dry run. -/
def dryRunOption : Text := "--dry-run".toList

/-- The argument after which there are no options. -/
def endOfOptions : Text := "--".toList

/-- The argument has the form of an option. -/
def isOption (argument : Text) : Bool :=
  argument.head? = some '-' && argument ≠ ['-']

/-- The argument can be the value of the option before it. -/
def isValue (argument : Text) : Bool :=
  argument ≠ [] && !isOption argument

/-- The value that the argument gives to the option in one piece. -/
def attached? (option argument : Text) : Option Text :=
  if (option ++ ['=']).isPrefixOf argument then some (argument.drop (option.length + 1)) else none

namespace Given

/-- Take note of a configuration file; there is at most one. -/
def withConfig (given : Given) (value : Text) : Option Given := do
  guard (given.config.isNone ∧ value ≠ [])
  return { given with config := some value }

/-- Take note of a table; there is at most one, and it has an exact name. -/
def withTable (given : Given) (value : Text) : Option Given := do
  guard given.table.isNone
  return { given with table := some (← ShippedTable.ofExactName? value) }

/-- Sort the arguments after a command. -/
def read (given : Given) : List Text → Option Given
  | [] => some given
  | argument :: rest =>
    if argument = endOfOptions then
      some { given with operands := given.operands ++ rest }
    else if !isOption argument then
      read { given with operands := given.operands ++ [argument] } rest
    else if argument = dryRunOption then
      if given.dryRun then none else read { given with dryRun := true } rest
    else if argument = configOption ∨ argument = tableOption then
      match rest with
      | [] => none
      | value :: rest =>
        if !isValue value then none
        else
          (if argument = configOption then given.withConfig value
            else given.withTable value).bind fun given => read given rest
    else
      match attached? configOption argument, attached? tableOption argument with
      | some value, _ => (given.withConfig value).bind fun given => read given rest
      | none, some value => (given.withTable value).bind fun given => read given rest
      | none, none => none

/-- The command with the given name, if the arguments are the ones that it takes. -/
def command (given : Given) (name : Text) : Option Command :=
  if name = "apply".toList then
    match given.operands with
    | [root] => if root = [] then none else some (.apply root given.dryRun given.table)
    | _ => none
  else if given.operands ≠ [] ∨ given.dryRun then none
  else if name = "text".toList then some (.text given.table)
  else if name = "list".toList then some (.list given.table)
  else if name = "check".toList ∧ given.table.isNone then some .check
  else none

end Given

/-- Read the arguments up to the command, where only the configuration file can be named, and then
the rest. -/
def parseFrom (config : Option Text) : List Text → Option Invocation
  | [] => none
  | argument :: rest =>
    if argument = configOption then
      match rest with
      | value :: rest =>
        if isValue value ∧ config.isNone then parseFrom (some value) rest else none
      | [] => none
    else
      match attached? configOption argument with
      | some value =>
        if value ≠ [] ∧ config.isNone then parseFrom (some value) rest else none
      | none => do
        let given ← Given.read {} rest
        return ⟨given.config <|> config, ← given.command argument⟩

/-- The invocation that the arguments describe; nothing if they describe none. -/
def parse (arguments : List Text) : Option Invocation :=
  parseFrom none arguments

end Invocation

end Phrasebook
