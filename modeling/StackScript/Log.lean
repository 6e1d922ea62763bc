/-!
# Log records

## Main definitions

* `LogLevel`: the severities of records, and their names.
* `LogRecord`: a message with its severity.
* `visibleAt`: the records that a level lets through.
-/

namespace StackScript

/-- The severity of a log record. -/
inductive LogLevel where
  | debug
  | info
  | warning
  | error
  | critical
deriving DecidableEq

namespace LogLevel

/-- All levels, from the weakest to the most severe. -/
def all : List LogLevel := [.debug, .info, .warning, .error, .critical]

/-- The name of a level. -/
def name : LogLevel → String
  | .debug => "DEBUG"
  | .info => "INFO"
  | .warning => "WARNING"
  | .error => "ERROR"
  | .critical => "CRITICAL"

/-- The level with the given name. -/
def ofName? (name : String) : Option LogLevel := all.find? (·.name == name)

/-- The rank of a level. -/
def rank : LogLevel → Nat
  | .debug => 0
  | .info => 1
  | .warning => 2
  | .error => 3
  | .critical => 4

/-- Whether a level lets records of a severity through. -/
def shows (level severity : LogLevel) : Bool := decide (level.rank ≤ severity.rank)

end LogLevel

/-- A message with its severity. -/
structure LogRecord where
  level : LogLevel
  message : String
deriving DecidableEq

/-- The text of a record. -/
def LogRecord.text (r : LogRecord) : String := r.level.name ++ ": " ++ r.message

/-- The records that are at least as severe as a level. -/
def visibleAt (level : LogLevel) (records : List LogRecord) : List LogRecord :=
  records.filter fun r => level.shows r.level

end StackScript
