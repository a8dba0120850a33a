/-
# Log records

The occasions on which this layer writes to the log. Each has a level, a fixed message and
sometimes fields; records never change what an operation answers.

Key definitions: `LogRecord`, `LogRecord.ofFrames`, `LogRecord.level`, `LogRecord.message`,
`LogRecord.fields`.
-/
import SupportLayer.Fault

namespace SupportLayer

/-- How serious a record is. -/
inductive Level where
  | trace | debug | warn
  deriving DecidableEq, Repr

/-- What is logged, by occasion. -/
inductive LogRecord where
  /-- A format ends in a percent sign that starts nothing. -/
  | danglingPercent
  /-- A percent sign stands before a byte that names no directive. -/
  | unknownDirective (byte : UInt8)
  /-- The checked convention could not write its line. -/
  | checkedPrintFailed (fault : Fault)
  /-- The unchecked convention could not write its line. -/
  | printFailed (cause : StreamError)
  /-- A sequence could not be printed. -/
  | sequencePrintFailed (cause : StreamError)
  /-- A scope frame was opened; `depth` counts it. -/
  | scopeEntered (depth : Nat)
  /-- A scope frame was closed and its actions are about to fire. -/
  | scopeLeft (actions : Nat)
  /-- An action was deferred with no frame open, so one was opened for it. -/
  | scopeImplied
  /-- A frame was to be closed with none open. -/
  | scopeLeftUnopened
  /-- Settings were read from a file; `dialect` is the name it selects. -/
  | settingsLoaded (path dialect : String)
  /-- No settings file was found, so the defaults hold. -/
  | settingsAbsent (start : String)
  deriving DecidableEq, Repr

namespace LogRecord

/-- The record is about the stack of scope frames. -/
def ofFrames : LogRecord → Bool
  | scopeEntered _ | scopeLeft _ | scopeImplied | scopeLeftUnopened => true
  | _ => false

/-- A field of a record. -/
inductive Field where
  | number (n : Nat)
  | text (s : String)
  deriving DecidableEq, Repr

/-- The level at which a record is written. -/
def level : LogRecord → Level
  | danglingPercent | unknownDirective _ | scopeImplied | scopeLeftUnopened => .warn
  | checkedPrintFailed _ | printFailed _ | sequencePrintFailed _ => .debug
  | settingsLoaded _ _ | settingsAbsent _ => .debug
  | scopeEntered _ | scopeLeft _ => .trace

/-- The message of a record. -/
def message : LogRecord → String
  | danglingPercent => "dangling '%' at end of format string"
  | unknownDirective _ => "unknown print directive"
  | checkedPrintFailed _ => "checked println failed"
  | printFailed _ => "println failed"
  | sequencePrintFailed _ => "array print failed"
  | scopeEntered _ => "scope enter"
  | scopeLeft _ => "scope exit"
  | scopeImplied => "biggie_defer called with no open scope, opening an implicit one"
  | scopeLeftUnopened => "biggie_scope_exit called with no open scope"
  | settingsLoaded _ _ => "loaded runtime config"
  | settingsAbsent _ => "no runtime config found, using defaults"

/-- The fields of a record. A byte that names no directive is shown as the character of
its number. -/
def fields : LogRecord → List (String × Field)
  | danglingPercent => []
  | unknownDirective byte => [("directive", .text (String.singleton (Char.ofNat byte.toNat)))]
  | checkedPrintFailed fault => [("error", .text fault.message)]
  | printFailed cause => [("error", .text cause.text)]
  | sequencePrintFailed cause => [("error", .text cause.text)]
  | scopeEntered depth => [("depth", .number depth)]
  | scopeLeft actions => [("actions", .number actions)]
  | scopeImplied => []
  | scopeLeftUnopened => []
  | settingsLoaded path dialect => [("path", .text path), ("dialect", .text dialect)]
  | settingsAbsent start => [("start", .text start)]

end LogRecord

end SupportLayer
