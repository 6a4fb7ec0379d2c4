import LeafLedger.Program

namespace LeafLedger

/-- What a program means to a scan. -/
inductive ProgramRole
  /-- Its instructions change assets. -/
  | target
  /-- Its instructions only carry data into the log. -/
  | logWrapper
  deriving DecidableEq

def ProgramRole.name : ProgramRole → String
  | target => "target"
  | logWrapper => "log_wrapper"

/-- The programs that a scan tells apart. -/
structure ScanContext where
  target : Address
  logWrappers : List Address
  deriving DecidableEq

namespace ScanContext

/-- The compressed-asset program with the one log wrapper that it uses. -/
def standard : ScanContext :=
  ⟨Program.compressedAsset, [Program.noop]⟩

/-- What a program means to the scan. The target is never a log wrapper. -/
def role? (context : ScanContext) (program : Address) : Option ProgramRole :=
  if program = context.target then some .target
  else if program ∈ context.logWrappers then some .logWrapper
  else none

/-- All programs that matter, the target first. -/
def programs (context : ScanContext) : List Address :=
  context.target :: context.logWrappers

end ScanContext

end LeafLedger
