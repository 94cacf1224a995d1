import PathStore.Data.Tree
import PathStore.Files
import PathStore.Log

/-!
# Settings

The settings of the service are a mapping read from a document, by a reader of the notation that it
is in.  Where there is no document they are empty, and so they are for a document that holds nothing.
Two entries mean something: the log level and the values that the shared storage starts with.
-/

namespace PathStore

/-- Why a document cannot be read, as its reader puts it. -/
structure DocumentFault where
  kind : String
  message : Option Text
  deriving DecidableEq, Repr

/-- What reads the contents of a document. -/
abbrev DocumentReader := ByteArray → Except DocumentFault Data

/-- Why settings cannot be loaded. -/
inductive SettingsFault where
  /-- The path leads to a directory. -/
  | directory (path : Text)
  | pathTooLong (path : Text)
  | malformed (reason : DocumentFault)
  /-- The document holds something other than a mapping. -/
  | notMapping (path : Text) (kind : String)
  /-- The initial values are something other than a mapping. -/
  | initialNotMapping (path : Text)
  /-- An integer has more digits than are written. -/
  | unwritable
  deriving DecidableEq, Repr

namespace SettingsFault

def message : SettingsFault → Text
  | directory path => "[Errno 21] Is a directory: " ++ Text.quote path
  | pathTooLong path => "[Errno 36] File name too long: " ++ Text.quote path
  | malformed reason => reason.message.getD []
  | notMapping path kind => "Server config " ++ path ++ " must be a mapping, got " ++ kind
  | initialNotMapping path => "'initial_values' in " ++ path ++ " must be a mapping"
  | unwritable => Text.digitLimitMessage []

end SettingsFault

structure Settings where
  entries : Entries Data

namespace Settings

/-- Where settings are looked for when no path is given. -/
def defaultPath : Text := "data/config/valuestore_config.yml"

def empty : Settings := ⟨[]⟩

/-- All entries, if the integers in them can be written. -/
def contents (s : Settings) : Except SettingsFault Data :=
  let d : Data := .mapping .plain s.entries
  let isWritable : Atom → Bool
    | .int i => Text.isWritable i
    | _ => true
  if d.allAtoms isWritable then .ok d else .error .unwritable

/-- The entry under a name; nothing where there is none. -/
def get (s : Settings) (name : Text) : Data :=
  (s.entries.find? (.text name)).getD (.leaf .none)

/-- The settings that a document at `path` holds. -/
def ofData (path : Text) (d : Data) : Except SettingsFault Settings :=
  match if d.isFalsy then Data.empty else d with
  | .mapping _ es =>
    let settings : Settings := ⟨es⟩
    match settings.get "initial_values" with
    | .mapping _ _ => .ok settings
    | .leaf .none => .ok settings
    | _ => .error (.initialNotMapping path)
  | other => .error (.notMapping path other.kindName)

/-- The settings that a file at `path` holds. -/
def ofOctets (read : DocumentReader) (path : Text) (octets : ByteArray) :
    Except SettingsFault Settings :=
  match read octets with
  | .error reason => .error (.malformed reason)
  | .ok d => ofData path d

/-- Loads the settings at a path, with what is logged about it. -/
def load (read : DocumentReader) (files : FileTree) (path : Option Text) :
    List LogEntry × Except SettingsFault Settings :=
  let p := FilePath.ofText (path.getD defaultPath)
  match files.find p with
  | .absent => ([⟨.debug, "No server config at " ++ p.text ++ "; using defaults"⟩], .ok empty)
  | .directory => ([], .error (.directory p.text))
  | .tooLong => ([], .error (.pathTooLong p.text))
  | .file octets =>
    match ofOctets read p.text octets with
    | .error fault => ([], .error fault)
    | .ok settings => ([⟨.debug, "Loaded server config from " ++ p.text⟩], .ok settings)

/-! ## Entries with a meaning -/

/-- A character in capitals, where that is an ASCII letter. -/
def capital (c : Char) : Char :=
  if c = '\u0131' then 'I' else if c = '\u017f' then 'S' else c.toUpper

/-- The log level, `warning` unless the entry names another. -/
def logLevel (s : Settings) : Level :=
  match s.get "log_level" with
  | .leaf (.text name) =>
    ((name.string?.bind fun s => Level.ofName? (s.map capital))).getD .warning
  | _ => .warning

/-- The values to start with; an empty mapping where there are none. -/
def initialValues (s : Settings) : Data :=
  let d := s.get "initial_values"
  if d.isFalsy then .empty else d

end Settings

end PathStore
