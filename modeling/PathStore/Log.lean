import PathStore.Text.Decimal

/-!
# Log entries

An entry is a message at a level.  Levels are ranked by number; those with a name of their own are
the usual ones.
-/

namespace PathStore

structure Level where
  rank : Nat
  deriving DecidableEq, Repr, Inhabited

namespace Level

def notset : Level := ⟨0⟩
def debug : Level := ⟨10⟩
def info : Level := ⟨20⟩
def warning : Level := ⟨30⟩
def error : Level := ⟨40⟩
def critical : Level := ⟨50⟩
/-- The level of announcements that every threshold lets pass. -/
def always : Level := ⟨100⟩

def name (l : Level) : String :=
  if l = critical then "CRITICAL"
  else if l = error then "ERROR"
  else if l = warning then "WARNING"
  else if l = info then "INFO"
  else if l = debug then "DEBUG"
  else if l = notset then "NOTSET"
  else "Level " ++ String.ofList (Text.signed l.rank)

/-- The level of a name in capitals, two of the levels having a second name. -/
def ofName? (s : String) : Option Level :=
  if s = "CRITICAL" ∨ s = "FATAL" then some critical
  else if s = "ERROR" then some error
  else if s = "WARNING" ∨ s = "WARN" then some warning
  else if s = "INFO" then some info
  else if s = "DEBUG" then some debug
  else if s = "NOTSET" then some notset
  else none

end Level

structure LogEntry where
  level : Level
  message : Text
  deriving DecidableEq, Repr, Inhabited

namespace LogEntry

/-- The entries that a threshold lets pass. -/
def passing (threshold : Level) (log : List LogEntry) : List LogEntry :=
  log.filter fun e => threshold.rank ≤ e.level.rank

end LogEntry

end PathStore
