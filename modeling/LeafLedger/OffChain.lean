import LeafLedger.Notice
import LeafLedger.Json.Value
import LeafLedger.Text.Blank

namespace LeafLedger

/-- A text without the NULs at its end, and then without the blanks at both ends. -/
def cleanUri (uri : String) : List Char :=
  Text.trim (Text.dropTail (· == '\x00') uri.toList)

/-- The address of the document that describes the asset of an event. Only a mint has one, unless it
is blank. -/
def Event.metadataUri? (event : Event) : Option String :=
  match event.kind, event.payload with
  | .mint, .mint metadata =>
    match cleanUri metadata.uri with
    | [] => none
    | uri => some (String.ofList uri)
  | _, _ => none

/-- What came of looking for a document. -/
structure MetadataLookup where
  asked : List String
  found : Option Json
  notices : List Notice

/-- Looks for the document that describes the asset of an event. -/
def Event.lookupMetadata (event : Event) (fetch : String → Option Json) : MetadataLookup :=
  match event.metadataUri? with
  | none => ⟨[], none, []⟩
  | some uri =>
    match fetch uri with
    | some document => ⟨[uri], some document, []⟩
    | none => ⟨[uri], none, [.metadataUnavailable uri event.signature]⟩

end LeafLedger
