import PathStore.Settings

/-!
# Starting to log

Before the settings are known everything is logged; then the threshold that they name is put in
force, and announced at a level that always passes.
-/

namespace PathStore

/-- How logging is set up. -/
structure LogSetup where
  /-- The level from which on entries are kept. -/
  threshold : Level
  /-- What was logged while it was set up. -/
  log : List LogEntry

namespace LogSetup

def loggerName : String := "valuestore_lib.logging_config"

/-- How entries are laid out. -/
def layout : String := "%(asctime)s %(levelname)s [%(name)s]: %(message)s"

/-- The number of places that entries are written to. -/
def handlers : Nat := 1

/-- The thresholds of loggers that are kept quiet whatever the settings say. -/
def quiet : List (String × Level) :=
  [("uvicorn.access", .warning), ("httpx", .warning)]

/-- Sets up logging from the settings at a path. -/
def configure (read : DocumentReader) (files : FileTree) (path : Option Text) : LogSetup :=
  let (log, settings) := Settings.load read files path
  let threshold := match settings with
    | .ok settings => settings.logLevel
    | .error _ => .warning
  let failure : List LogEntry := match settings with
    | .ok _ => []
    | .error _ => [⟨.error, "Failed to load server configuration for logging setup"⟩]
  let announcement : LogEntry :=
    ⟨.always, "[valuestore]: Log level set to: " ++ threshold.name⟩
  ⟨threshold, log ++ failure ++ announcement ::
    LogEntry.passing threshold [⟨.info, "Starting ValueStore server"⟩]⟩

end LogSetup

end PathStore
