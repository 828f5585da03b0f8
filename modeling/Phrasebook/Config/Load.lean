import Phrasebook.Config.Basic
import Phrasebook.FileSystem.Access
import Phrasebook.Record
/-!
# Loading the configuration of a run

The configuration is read from a file, whose place follows from the environment unless the user
names one. A file that does not exist is no error: then everything has its default.

## Main definitions

* `Environment`: the variables that a run looks at.
* `Environment.configPath`: where the configuration is by default.
* `LoadError`: why a configuration could not be loaded, with `LoadError.message`.
* `Config.load`: the configuration of a run.

## Implementation notes

Why a text is no configuration is not told: `LoadError.message` ends with the path. The complaint
that is printed goes on with a colon and the diagnosis of a reader of the format, which is left out.
-/

namespace Phrasebook

/-- What a run is told by its environment. A variable that is not set is `none`. -/
structure Environment where
  /-- The shipped table to use whatever the file says. -/
  table : Option Text := none
  /-- The directory of configuration files. -/
  configHome : Option Text := none
  /-- The home directory. -/
  home : Option Text := none
  /-- The home directory that the user's account has, for want of a variable. -/
  accountHome : Option Text := none
  /-- The level up to which records are shown. -/
  logLevel : Option Text := none
  deriving DecidableEq, Repr, Inhabited

namespace Environment

/-- The name of the variable that chooses a table. -/
def tableVariable : Text :=
  "PHRASEMAP_TABLE".toList

/-- The directory of configuration files: the one that is set, if its path is absolute, or else
`.config` in the home directory. -/
def configDirectory (environment : Environment) : Text :=
  match environment.configHome.filter Path.isAbsolute with
  | some directory => directory
  | none =>
    match environment.home.filter (· ≠ []) <|> environment.accountHome with
    | some home => Path.join home ".config".toList
    | none => "~/.config".toList

/-- Where the configuration is by default. -/
def configPath (environment : Environment) : Text :=
  Path.join environment.configDirectory "phrasemap.toml".toList

end Environment

/-- Why a configuration could not be loaded. -/
inductive LoadError where
  /-- The file is there but cannot be read. -/
  | read (path : Text) (cause : IoError)
  /-- The text of the file is no configuration. -/
  | parse (path : Text)
  deriving DecidableEq, Repr

/-- The sentence that reports the cause. -/
def LoadError.message : LoadError → Text
  | .read path cause => "failed to read ".toList ++ quoted path ++ ": ".toList ++ cause.message
  | .parse path => "failed to parse ".toList ++ quoted path

namespace Config

/-- The configuration in the file at a path, or the defaults if there is no such file, with the
records that are made of it. -/
def ofFile (files : FileSystem) (path : Text) : Except LoadError (Config × List Record) :=
  match files.readText path with
  | .error .notFound =>
    .ok ({}, [⟨.debug, "no config at ".toList ++ quoted path ++ ", using defaults".toList⟩])
  | .error cause => .error (.read path cause)
  | .ok text =>
    match parse text with
    | some config => .ok (config, [])
    | none => .error (.parse path)

/-- Let a name choose the shipped table; one that names no table is reported and ignored. -/
def choose (config : Config) (name : Text) : Config × List Record :=
  match ShippedTable.ofName? name with
  | some table => ({ config with table }, [])
  | none =>
    (config, [⟨.warn,
      "ignoring unknown ".toList ++ Environment.tableVariable ++ ['='] ++ quoted name⟩])

/-- One line about a configuration. -/
def summary (config : Config) : Record :=
  ⟨.debug, "table=".toList ++ config.table.title ++
    s!" builtin={config.usesShipped} phrases={config.phrases.length}".toList⟩

/-- The configuration of a run: the one of the file at `path?`, or at the default place, with the
table that the environment asks for. -/
def load (environment : Environment) (files : FileSystem) (path? : Option Text) :
    Except LoadError (Config × List Record) := do
  let (config, read) ← ofFile files (path?.getD environment.configPath)
  let (config, chosen) :=
    match environment.table with
    | some name => config.choose name
    | none => (config, [])
  return (config, read ++ chosen ++ [config.summary])

end Config

end Phrasebook
