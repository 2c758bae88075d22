import LinkFabric.KeyStore
import LinkFabric.Link.Identity
import LinkFabric.Time

/-!
# The links a node has declared

A node keeps its links in the order of their declaration, each name once. A link is
taken only if the key it touches exists and suits it. For every link the node counts
how often it was advertised and remembers when it was last.
-/

namespace LinkFabric

/-- A declared link under its name, with how often it was advertised, modulo `2 ^ 32`, and when
last. -/
structure Declaration where
  id : LinkId
  link : Link
  advertised : UInt32
  lastAdvertised : Option Instant
  deriving DecidableEq

/-- The declared links of a node, in the order of declaration. -/
structure Declarations where
  items : List Declaration

namespace Declarations

/-- No declarations. -/
def empty : Declarations := ⟨[]⟩

/-- The number of declared links. -/
def size (d : Declarations) : Nat := d.items.length

/-- Whether no link is declared. -/
def isEmpty (d : Declarations) : Bool := d.items.isEmpty

/-- The declared links, earliest first. -/
def links (d : Declarations) : List Link := d.items.map (·.link)

/-- The declaration with a given name. -/
def find? (d : Declarations) (id : LinkId) : Option Declaration :=
  d.items.find? fun item => item.id == id

/-- Declares a link. The name of the link comes back; a link that is there already stays
as it is. -/
def declare (d : Declarations) (store : KeyStore) (link : Link) :
    Except LinkError (Declarations × LinkId) := do
  let endpoint ← store.shapeOf link.localKey
  link.check endpoint
  let id := link.id
  match d.find? id with
  | some _ => return (d, id)
  | none => return (⟨d.items ++ [⟨id, link, 0, none⟩]⟩, id)

/-- Declares a link if it can be, and changes nothing otherwise. -/
def tryDeclare (d : Declarations) (store : KeyStore) (link : Link) : Declarations :=
  match d.declare store link with
  | .ok (d', _) => d'
  | .error _ => d

/-- Withdraws the link with a given name. Says whether there was one. -/
def withdraw (d : Declarations) (id : LinkId) : Declarations × Bool :=
  (⟨d.items.filter fun item => item.id != id⟩, (d.find? id).isSome)

/-- Counts one more advertisement for every link. -/
def markAdvertised (d : Declarations) (now : Instant) : Declarations :=
  ⟨d.items.map fun item =>
    { item with advertised := item.advertised + 1, lastAdvertised := some now }⟩

end Declarations

end LinkFabric
