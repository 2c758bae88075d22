import LinkFabric.Link.Error

/-!
# What a node answers instead
-/

namespace LinkFabric

/-- Why a node does not do what it is asked for: a link cannot be declared, or the part of the
node that would answer has stopped. -/
inductive NodeError where
  | link (cause : LinkError)
  | stopped
  deriving DecidableEq, Repr

/-- The wording of an error. -/
def NodeError.message : NodeError → String
  | link cause => "link error: " ++ cause.message
  | stopped => "node is shutting down"

end LinkFabric
