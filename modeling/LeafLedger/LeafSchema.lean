import LeafLedger.Error

namespace LeafLedger

/-- The announced state of a leaf. -/
structure LeafSchema where
  leafId : Address
  owner : Address
  delegate : Address
  nonce : UInt64
  dataHash : Hash
  creatorHash : Hash
  leafHash : Hash
  deriving DecidableEq

namespace LeafSchema

open Borsh (encode decode)

/-- What an emission begins with: application data (1), version 1 (0), a body of 203 bytes, a leaf
schema event (1), version 1 (0). -/
def tag : Bytes :=
  [0x01, 0x00, 0xcb, 0x00, 0x00, 0x00, 0x01, 0x00]

/-- The body of an emission: a tag of one byte for the version, and the fields. -/
instance : Borsh LeafSchema where
  encode s :=
    0 :: encode s.leafId ++ encode s.owner ++ encode s.delegate ++ encode s.nonce ++
      encode s.dataHash ++ encode s.creatorHash ++ encode s.leafHash
  decode := do
    let version : UInt8 ← decode
    if version ≠ 0 then Borsh.fail (.badTag version)
    return {
      leafId := ← decode
      owner := ← decode
      delegate := ← decode
      nonce := ← decode
      dataHash := ← decode
      creatorHash := ← decode
      leafHash := ← decode }

/-- The instruction data that announces a leaf. -/
def emission (s : LeafSchema) : Bytes :=
  tag ++ encode s

/-- Whether instruction data begins like an emission. -/
def isEmission (data : Bytes) : Bool :=
  data.window? 0 tag.length == some tag

/-- The leaf that instruction data announces, if it begins like an emission. -/
def ofEmission (data : Bytes) : Except Error (Option LeafSchema) :=
  if isEmission data then
    match decode (data.drop tag.length) with
    | .ok (schema, _) => .ok (some schema)
    | .error fault => .error (.malformedLeafSchema fault)
  else .ok none

end LeafSchema

end LeafLedger
