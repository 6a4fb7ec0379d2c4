import LeafLedger.Notice

namespace LeafLedger

/-- How an instruction came to be executed. -/
inductive Origin
  | top
  | nested (parent : Nat)
  deriving DecidableEq

/-- The top-level instruction that invoked an instruction, if there is one. -/
def Origin.parent? : Origin → Option Nat
  | top => none
  | nested parent => some parent

/-- An instruction in its place in the execution order: under the top-level instruction at
`position`, and the `ordinal`-th of all. -/
structure Instruction where
  program : Address
  accounts : List UInt8
  data : Bytes
  origin : Origin
  position : Nat
  ordinal : Nat
  deriving DecidableEq

/-- The instructions of a transaction in the order in which they ran, and what was reported about
those left out. -/
structure Execution where
  instructions : List Instruction
  notices : List Notice
  deriving DecidableEq

namespace Execution

def empty : Execution :=
  ⟨[], []⟩

/-- A top-level instruction and all that was invoked under it. -/
def callTree (inner : List InnerGroup) (position : Nat) (top : RawInstruction) :
    List (Origin × RawInstruction) :=
  (.top, top) :: (inner.filter (·.index.toNat == position)).flatMap fun group =>
    group.instructions.map fun raw => (.nested position, raw)

/-- Adds instructions of one call tree, the first of them with a given ordinal, in front of what
runs later. An instruction whose program is unknown is left out, but keeps its ordinal. -/
def prepend (table : KeyTable) (signature : String) (position : Nat) (later : Execution) :
    Nat → List (Origin × RawInstruction) → Execution
  | _, [] => later
  | ordinal, (origin, raw) :: rest =>
    let later := prepend table signature position later (ordinal + 1) rest
    match table.resolve raw.programIndex.toNat with
    | .ok program =>
      let instruction :=
        { program, accounts := raw.accounts, data := raw.data, origin, position, ordinal }
      { later with instructions := instruction :: later.instructions }
    | .error error =>
      { later with notices := .unresolvableProgram signature ordinal error :: later.notices }

/-- The execution of top-level instructions from a position and an ordinal on. -/
def ofInstructions (table : KeyTable) (signature : String) (inner : List InnerGroup) :
    Nat → Nat → List RawInstruction → Execution
  | _, _, [] => empty
  | position, ordinal, top :: tops =>
    let tree := callTree inner position top
    prepend table signature position
      (ofInstructions table signature inner (position + 1) (ordinal + tree.length) tops)
      ordinal tree

end Execution

/-- The execution order of a transaction. -/
def Transaction.execution (tx : Transaction) (table : KeyTable) : Execution :=
  Execution.ofInstructions table tx.signature tx.inner 0 0 tx.instructions

end LeafLedger
