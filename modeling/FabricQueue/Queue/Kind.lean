set_option autoImplicit false

namespace FabricQueue

-- Who may reserve and write slots.
inductive QueueKind where
  | single
  | multi
  deriving DecidableEq, Repr

namespace QueueKind

def code : QueueKind → UInt32
  | multi => 0
  | single => 1

def ofCode? (code : UInt32) : Option QueueKind :=
  if code = 0 then some multi
  else if code = 1 then some single
  else none

def text : QueueKind → String
  | single => "single-producer"
  | multi => "multi-producer"

end QueueKind

end FabricQueue
