/-
  Notes on what is being done, for whoever watches: each has a level, and a watcher names the
  levels to be shown.
-/

namespace Colourway

/-- How much a note matters, the most pressing first. -/
inductive Level where
  | warn
  | info
  | debug
  | trace
  deriving DecidableEq

/-- The level's name. -/
def Level.name : Level → String
  | .warn => "WARN"
  | .info => "INFO"
  | .debug => "DEBUG"
  | .trace => "TRACE"

/-- A remark of some level. -/
structure Note where
  level : Level
  message : String
  deriving DecidableEq

end Colourway
