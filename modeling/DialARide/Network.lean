import DialARide.Distance
import DialARide.Name
import DialARide.Table

/-!
# The road network

A network is a set of links with names of their own. A link is open to the modes that it lists,
and to every mode if it lists none; the network of one mode holds the links open to it.
-/

namespace DialARide

/-- A stretch of road between two points. -/
structure Link where
  id : LinkId
  source : Coord
  target : Coord
  /-- The modes that may use the link; with none listed, all may. -/
  modes : KeySet ModeId := .empty
  deriving Repr

namespace Link

/-- The place of a link is its midpoint. -/
def coord (l : Link) : Coord := .midpoint l.source l.target

/-- The length of a link. -/
def length (l : Link) : Float := l.source.distance l.target

/-- The mode may use the link. -/
def allows (l : Link) (mode : ModeId) : Bool := l.modes.size = 0 || l.modes.contains mode

/-- The link with the modes that may use it replaced. -/
def withModes (l : Link) (modes : List ModeId) : Link :=
  { l with modes := .ofList (modes.map (·, ())) }

end Link

/-- The links by name. -/
structure Network where
  links : Table LinkId Link := .empty
  deriving Repr

namespace Network

/-- The network with a link added, in place of any of its name. -/
def add (n : Network) (l : Link) : Network := ⟨n.links.insert l.id l⟩

/-- The network of the given links; of several with one name the last counts. -/
def ofLinks (links : List Link) : Network := links.foldl add {}

/-- The link of a name. -/
def link? (n : Network) (id : LinkId) : Option Link := n.links.find? id

/-- The place of the link of a name. -/
def coord? (n : Network) (id : LinkId) : Option Coord := (n.link? id).map (·.coord)

/-- The network that is left for one mode. -/
def forMode (n : Network) (mode : ModeId) : Network := ⟨n.links.filter (·.allows mode)⟩

/-- The number of links. -/
def size (n : Network) : Nat := n.links.size

/-- The distance between the places of two links. -/
def distance? (n : Network) (a b : LinkId) : Option Float := do
  return (← n.coord? a).distance (← n.coord? b)

@[simp] theorem link?_add (n : Network) (l : Link) (id : LinkId) :
    (n.add l).link? id = if l.id = id then some l else n.link? id :=
  Table.find?_insert n.links l.id id l

@[simp] theorem link?_forMode (n : Network) (mode : ModeId) (id : LinkId) :
    (n.forMode mode).link? id = (n.link? id).filter (·.allows mode) :=
  Table.find?_filter n.links _ id

end Network

end DialARide
