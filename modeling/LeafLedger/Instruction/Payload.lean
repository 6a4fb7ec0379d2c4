import LeafLedger.Error

namespace LeafLedger

/-- Reads arguments of some type. What follows them is passed over. -/
def readArguments {α : Type} [Borsh α] (kind : Kind) (data : Bytes) : Except Error α :=
  if data.length < Kind.discriminatorLength then
    .error (.malformedArguments kind (.short data.length))
  else
    match Borsh.decode (data.drop Kind.discriminatorLength) with
    | .ok (args, _) => .ok args
    | .error fault => .error (.malformedArguments kind (.malformed fault))

/-- The payload of an instruction of a kind. The data of a kind that records no change is not
looked at. -/
def Payload.ofData (kind : Kind) (data : Bytes) : Except Error Payload :=
  match kind with
  | .mintV1 | .mintToCollectionV1 => (readArguments kind data).map .mint
  | .transfer => (readArguments kind data).map .transfer
  | .burn => (readArguments kind data).map .burn
  | kind => .ok (.unsupported kind)

end LeafLedger
