import LeafLedger.LeafSchema

namespace LeafLedger

/-- At most one announced leaf, with the top-level instruction that it was announced under. -/
inductive PendingLeaf
  | empty
  | holding (schema : LeafSchema) (nestedUnder : Option Nat)
  deriving DecidableEq

/-- What a mint gets that asks for its leaf. -/
inductive LeafClaim
  | nothing
  | matched (schema : LeafSchema)
  /-- The leaf was announced in the call tree of another top-level instruction. -/
  | foreign (schema : LeafSchema) (nestedUnder : Nat)
  deriving DecidableEq

namespace PendingLeaf

/-- Keeps a newly met leaf in place of the one held so far. -/
def observe (_ : PendingLeaf) (schema : LeafSchema) (nestedUnder : Option Nat) : PendingLeaf :=
  holding schema nestedUnder

/-- Whether a leaf waits. -/
def isHolding : PendingLeaf → Bool
  | empty => false
  | holding .. => true

/-- The claim of a mint under the top-level instruction at a position. -/
def claim (pending : PendingLeaf) (position : Nat) : LeafClaim :=
  match pending with
  | empty => .nothing
  | holding schema none => .matched schema
  | holding schema (some parent) =>
    if parent = position then .matched schema else .foreign schema parent

/-- Hands the leaf to a mint. Whatever the mint gets, nothing is left. -/
def take (pending : PendingLeaf) (position : Nat) : PendingLeaf × LeafClaim :=
  (empty, pending.claim position)

end PendingLeaf

end LeafLedger
