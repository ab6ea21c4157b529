namespace AccountCache.Log

inductive Level
  | error
  | warn
  | info
  | debug
  | trace
  deriving DecidableEq

def Level.name : Level → String
  | error => "Error"
  | warn => "Warn"
  | info => "Info"
  | debug => "Debug"
  | trace => "Trace"

def Level.isVerbose : Level → Bool
  | debug | trace => true
  | _ => false

structure Record where
  level : Level
  text : String
  deriving DecidableEq

def ownSource : String := "statecache"

def isForwarded (source : Option String) (level : Level) : Bool :=
  !level.isVerbose || source.any (·.startsWith ownSource)

-- A sink is installed once; a later one is ignored.
def install (installed : Option α) (sink : α) : Option α :=
  match installed with
  | some s => some s
  | none => some sink

end AccountCache.Log
