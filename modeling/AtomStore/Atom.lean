import AtomStore.Particle
import AtomStore.SortedMap

/-!
# Atoms

An atom is a numbered record of junctions, which bind keys to particles. It is edited as a draft
while its slot is reserved, and sealed once, with the universal change number (UCN) of the commit
that publishes it. A sealed atom has a positive UCN.
-/

namespace AtomStore

/-- A key chosen by the caller; it has no meaning to the store. -/
abbrev Key := UInt64

/-- The values bound to the keys of an atom, in key order. -/
abbrev Junctions := SortedMap Key Particle

/-- A sealed atom: its slot, the UCN of its commit and its junctions. -/
structure Atom where
  id : Nat
  ucn : Nat
  junctions : Junctions
  ucn_pos : 0 < ucn
  deriving DecidableEq

/-- An atom under construction, not yet visible. -/
structure Draft where
  id : Nat
  junctions : Junctions := .empty
  deriving DecidableEq

/-- Why a draft cannot be sealed. -/
inductive SealError where
  /-- UCN zero marks atoms that no commit has published. -/
  | withoutUcn (id : Nat)
  deriving DecidableEq

/-- The wording of a refusal to seal. -/
def SealError.message : SealError → String
  | withoutUcn id => s!"atom {id} sealed without a UCN"

namespace Draft

/-- Binds a key of the draft, in place of the value it had. -/
def bind (draft : Draft) (key : Key) (value : Particle) : Draft :=
  { draft with junctions := draft.junctions.insert key value }

/-- Unbinds a key of the draft. -/
def unbind (draft : Draft) (key : Key) : Draft :=
  { draft with junctions := draft.junctions.erase key }

/-- The atom that a commit with this UCN makes of the draft. -/
def toAtom (draft : Draft) (ucn : Nat) (ucn_pos : 0 < ucn) : Atom :=
  { id := draft.id, ucn, junctions := draft.junctions, ucn_pos }

/-- Seals a draft, unless the UCN is the one of unpublished atoms. -/
def sealed (draft : Draft) (ucn : Nat) : Except SealError Atom :=
  if ucn_pos : 0 < ucn then .ok (draft.toAtom ucn ucn_pos) else .error (.withoutUcn draft.id)

end Draft

namespace Atom

/-- The value bound to a key. -/
def get? (atom : Atom) (key : Key) : Option Particle := atom.junctions.get? key

/-- Two atoms hold the same content when their junctions agree, whatever their slots and UCNs. -/
def sameContent (left right : Atom) : Bool := left.junctions == right.junctions

/-- Full identity: slot, UCN and junctions agree. -/
def sameVersion (left right : Atom) : Bool := left == right

/-- The shown form of one junction. -/
def renderJunction (junction : Key × Particle) : String :=
  s!"{junction.1.toNat}={junction.2.render}"

/-- The shown form of an atom: slot, UCN and the junctions in key order. -/
def render (atom : Atom) : String :=
  let body := String.intercalate ", " (atom.junctions.entries.map renderJunction)
  s!"#{atom.id}@{atom.ucn} \x7b{body}\x7d"

end Atom
end AtomStore
