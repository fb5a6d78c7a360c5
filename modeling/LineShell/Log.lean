/-
The log: levels, records, and the filter that decides which records are
kept.

A filter is a list of directives, each a level for the targets whose
name starts with a given text; the directive with the longest text
decides. Two directives are always there: the configured level for the
program's own target, and warnings for everything else.
-/

namespace LineShell

/-- Severities, from the gravest on. -/
inductive Level where
  | error
  | warn
  | info
  | debug
  | trace
  deriving DecidableEq, Repr, Inhabited

/-- How much is let through: everything up to a level, or nothing. -/
inductive LevelFilter where
  | off
  | upTo (level : Level)
  deriving DecidableEq, Repr, Inhabited

namespace Level

/-- The name that records carry. -/
def name : Level → String
  | error => "ERROR"
  | warn => "WARN"
  | info => "INFO"
  | debug => "DEBUG"
  | trace => "TRACE"

/-- One for the gravest level, more for lesser ones. -/
def rank : Level → Nat
  | error => 1
  | warn => 2
  | info => 3
  | debug => 4
  | trace => 5

/-- Every level, the gravest first. -/
def all : List Level := [error, warn, info, debug, trace]

end Level

namespace LevelFilter

/-- The name of a filter level. -/
def name : LevelFilter → String
  | off => "OFF"
  | upTo level => level.name

/-- Zero for `off`, else the level's rank. -/
def rank : LevelFilter → Nat
  | off => 0
  | upTo level => level.rank

/-- The laxer of two. -/
def max (a b : LevelFilter) : LevelFilter := if a.rank ≤ b.rank then b else a

/-- Does the filter let a level through? -/
def allows (f : LevelFilter) (level : Level) : Bool := level.rank ≤ f.rank

/-- The level that a setting spells, in either case of the ASCII letters;
anything unknown is `info`. -/
def ofName (setting : String) : LevelFilter :=
  match setting.map Char.toLower with
  | "off" => off
  | "error" => upTo .error
  | "warn" => upTo .warn
  | "debug" => upTo .debug
  | "trace" => upTo .trace
  | _ => upTo .info

end LevelFilter

/-- One message with its severity. -/
structure LogRecord where
  level : Level
  text : String
  deriving DecidableEq, Repr, Inhabited

/-- How a record shows, process and time left out. -/
def LogRecord.line (r : LogRecord) : String := "[" ++ r.level.name ++ "] " ++ r.text

/-- The directives of the log, shortest name last only if given so. -/
structure LogFilter where
  /-- Name and level; the nameless rule for all other targets is separate. -/
  named : String × LevelFilter
  others : LevelFilter := .upTo .warn
  deriving Repr

namespace LogFilter

/-- The filter for a program name and its configured level. -/
def ofSetting (name : String) (level : LevelFilter) : LogFilter := { named := (name, level) }

/-- The level that decides for a target. The empty name covers no more
than the nameless rule does, which then decides. -/
def levelFor (f : LogFilter) (target : String) : LevelFilter :=
  if f.named.1 ≠ "" && f.named.1.isPrefixOf target then f.named.2 else f.others

/-- Is a record of this level for this target kept? -/
def keeps (f : LogFilter) (target : String) (level : Level) : Bool :=
  (f.levelFor target).allows level

/-- One record for each target and level, as far as they are kept. -/
def survey (f : LogFilter) (targets : List String) : List LogRecord :=
  targets.flatMap fun target =>
    (Level.all.filter (f.keeps target)).map fun level => ⟨level, target ++ " " ++ level.name⟩

/-- The laxest level of any directive. -/
def max (f : LogFilter) : LevelFilter := f.named.2.max f.others

end LogFilter

end LineShell
