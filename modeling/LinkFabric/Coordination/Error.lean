import LinkFabric.Address.Text
import LinkFabric.Link.Identity

/-!
# What the leader turns away
-/

namespace LinkFabric

/-- Why the leader does not take in a link or a follower. -/
inductive AdmissionError where
  | registryFull (limit : Nat)
  | contributorsFull (id : LinkId) (address : Address) (limit : Nat)
  | invalidLink (id : LinkId) (address : Address) (cause : LinkError)
  | rosterFull (address : Address) (limit : Nat)
  deriving DecidableEq

/-- The wording of an error. -/
def AdmissionError.message : AdmissionError → String
  | registryFull limit => "link registry full (" ++ toString limit ++ " links)"
  | contributorsFull id address limit =>
    "link " ++ LinkId.text id ++ " already has " ++ toString limit ++ " nodes, dropping " ++
      address.text
  | invalidLink id address cause =>
    "invalid link " ++ LinkId.text id ++ " from " ++ address.text ++ ": " ++ cause.message
  | rosterFull address limit =>
    "membership table full (" ++ toString limit ++ " followers), dropping " ++ address.text

end LinkFabric
