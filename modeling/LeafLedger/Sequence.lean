namespace LeafLedger

/-- The place of an event: the slot and the transaction that hold it, and the position of its
instruction there. -/
structure Sequence where
  slot : UInt64
  signature : String
  ordinal : Nat
  deriving DecidableEq

/-- What became of an event that was offered. -/
inductive Decision
  | apply
  | ignoreStale
  | ignoreDuplicate
  | ignoreUnidentified
  deriving DecidableEq

def Decision.name : Decision → String
  | apply => "apply"
  | ignoreStale => "ignore_stale"
  | ignoreDuplicate => "ignore_duplicate"
  | ignoreUnidentified => "ignore_unidentified"

namespace Sequence

/-- Places in order: by slot, then by signature, then by ordinal. -/
def before (a b : Sequence) : Bool :=
  a.slot < b.slot || a.slot == b.slot &&
    (a.signature < b.signature || a.signature == b.signature && a.ordinal < b.ordinal)

/-- Places sorted in their order. -/
def sort (places : List Sequence) : List Sequence :=
  places.mergeSort fun a b => !b.before a

/-- Whether a place is in the same transaction as another and ahead of it. -/
def overtakenBy (a b : Sequence) : Bool :=
  a.signature == b.signature && a.ordinal < b.ordinal

end Sequence

/-- What an asset remembers of the events applied to it: the last one, and all those of its slot. -/
structure Watermark where
  last : Option Sequence
  appliedInSlot : List (String × Nat)
  deriving DecidableEq

namespace Watermark

def empty : Watermark :=
  ⟨none, []⟩

/-- What to do with an event. Slots only move forward; within a slot an event counts once, and of
the transaction applied last nothing ahead of its last event counts any more. -/
def decide (mark : Watermark) (incoming : Sequence) : Decision :=
  match mark.last with
  | none => .apply
  | some last =>
    if incoming.slot < last.slot then .ignoreStale
    else if last.slot < incoming.slot then .apply
    else if (incoming.signature, incoming.ordinal) ∈ mark.appliedInSlot then .ignoreDuplicate
    else if incoming.overtakenBy last then .ignoreStale
    else .apply

/-- Remembers an applied event, and forgets those of another slot. -/
def record (mark : Watermark) (applied : Sequence) : Watermark :=
  let kept :=
    match mark.last with
    | some last => if last.slot = applied.slot then mark.appliedInSlot else []
    | none => mark.appliedInSlot
  ⟨some applied, kept.insert (applied.signature, applied.ordinal)⟩

/-- Decides on an event and remembers it if it is to be applied. -/
def offer (mark : Watermark) (incoming : Sequence) : Decision × Watermark :=
  match mark.decide incoming with
  | .apply => (.apply, mark.record incoming)
  | decision => (decision, mark)

end Watermark

end LeafLedger
