/-!
# Options of an expansion

A value is looked for in two sources; the options say which of them is asked first and how deep
references may nest.
-/

namespace VarSubst

inductive Source where
  | config
  | environment
  deriving DecidableEq, Repr

namespace Source

def other : Source → Source
  | .config => .environment
  | .environment => .config

def name : Source → String
  | .config => "config"
  | .environment => "environment"

end Source

structure Options where
  environmentFirst : Bool := true
  maxDepth : UInt64 := 64
  deriving DecidableEq, Repr, Inhabited

namespace Options

/-- The sources in the order in which they are asked. -/
def precedence (o : Options) : List Source :=
  if o.environmentFirst then [.environment, .config] else [.config, .environment]

end Options

end VarSubst
