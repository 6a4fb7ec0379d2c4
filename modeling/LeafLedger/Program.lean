import LeafLedger.Address
import LeafLedger.Curve.Edwards25519
import LeafLedger.Digest.Sha256

namespace LeafLedger

namespace Program

/-- The program that mints, moves and burns compressed assets,
`BGUMAp9Gq7iTEuizy4pqaxsTyUCBK68MDfK752saRPUY`. -/
def compressedAsset : Address :=
  ⟨[0x98, 0x8b, 0x80, 0xeb, 0x79, 0x35, 0x28, 0x69, 0xb2, 0x24, 0x74, 0x5f, 0x59, 0xdd, 0xbf, 0x8a,
    0x26, 0x58, 0xca, 0x13, 0xdc, 0x68, 0x81, 0x21, 0x26, 0x35, 0x1c, 0xae, 0x07, 0xc1, 0xa5, 0xa5],
    rfl⟩

/-- The program that only writes its instruction data into the transaction log,
`noopb9bkMVfRPU8AsbpTUg8AQkHtKwMYZiFUjNRtMmV`. -/
def noop : Address :=
  ⟨[0x0b, 0xbc, 0x0f, 0xc0, 0xbb, 0x47, 0xca, 0x2f, 0x74, 0xc4, 0x11, 0x2e, 0x94, 0xab, 0x13, 0xcf,
    0xa3, 0xc6, 0x34, 0xe5, 0xdc, 0x17, 0xea, 0xcb, 0x03, 0xcd, 0x1a, 0x23, 0xcd, 0x7e, 0x78, 0x7c],
    rfl⟩

/-- What is hashed after the seeds, the bump byte and the program. -/
def derivationMark : Bytes :=
  "ProgramDerivedAddress".toList.map fun c => UInt8.ofNat c.toNat

/-- The digest that a program gives to seeds and a bump byte. -/
def candidate (program : Address) (seeds : Bytes) (bump : Nat) : Address :=
  Sha256.digest (seeds ++ [UInt8.ofNat bump] ++ program.toBytes ++ derivationMark)

/-- The first candidate that is no point of the curve, bumps counted down from the given one. The
digest for bump zero is taken as it is; about half of all digests are points, so no search gets
that far. -/
def search (program : Address) (seeds : Bytes) : Nat → Address
  | 0 => candidate program seeds 0
  | bump + 1 =>
    let address := candidate program seeds (bump + 1)
    if Edwards25519.isPoint address then search program seeds bump else address

/-- The address that a program derives from seeds. -/
def derivedAddress (program : Address) (seeds : Bytes) : Address :=
  search program seeds 255

end Program

namespace Asset

/-- The first seed of every asset id. -/
def seed : Bytes :=
  "asset".toList.map fun c => UInt8.ofNat c.toNat

/-- The id of the asset at a leaf of a tree, derived by the program that owns the tree. -/
def id (program tree : Address) (leafIndex : UInt64) : Address :=
  Program.derivedAddress program (seed ++ tree.toBytes ++ Bytes.ofNatLE 8 leafIndex.toNat)

end Asset

end LeafLedger
