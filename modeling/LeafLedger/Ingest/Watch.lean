import LeafLedger.Notice

namespace LeafLedger

/-- A subscription to a tree, and the signatures that wait in its queue, unless nobody takes them
any more. -/
structure Watch where
  tree : Address
  queue : Option (List String)
  deriving DecidableEq

namespace Watch

/-- A new watch on a tree. -/
def start (tree : Address) : Watch × List Notice :=
  (⟨tree, some []⟩, [.watching tree])

/-- Queues a signature. -/
def notify (watch : Watch) (signature : String) : Watch × List Notice :=
  match watch.queue with
  | some waiting => ({ watch with queue := some (waiting ++ [signature]) }, [])
  | none => (watch, [.receiverDropped])

/-- Drops the receiver, and with it what waits in the queue. -/
def drop (watch : Watch) : Watch :=
  { watch with queue := none }

/-- Takes everything out of the queue. -/
def takeAll (watch : Watch) : List String × Watch :=
  match watch.queue with
  | some waiting => (waiting, { watch with queue := some [] })
  | none => ([], watch)

end Watch

end LeafLedger
