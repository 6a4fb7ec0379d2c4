import LeafLedger.Notice
import LeafLedger.Store.Record

namespace LeafLedger

/-- Records of assets, each under its key, in the order in which they were opened. -/
structure Ledger where
  entries : List (Address × AssetRecord)

namespace Ledger

def empty : Ledger :=
  ⟨[]⟩

def size (ledger : Ledger) : Nat :=
  ledger.entries.length

def get? (ledger : Ledger) (key : Address) : Option AssetRecord :=
  (ledger.entries.find? (·.1 == key)).map (·.2)

/-- Puts a record in the place of the one under its key, or behind all others. -/
def put (key : Address) (record : AssetRecord) :
    List (Address × AssetRecord) → List (Address × AssetRecord)
  | [] => [(key, record)]
  | entry :: entries =>
    if entry.1 = key then (key, record) :: entries else entry :: put key record entries

/-- The ledger with a record set under a key. -/
def insert (ledger : Ledger) (key : Address) (record : AssetRecord) : Ledger :=
  ⟨put key record ledger.entries⟩

/-- What becomes of an event, beside the ledger that is left behind whether the event was taken or
not. No record is opened before the event is known to say enough. -/
def apply (ledger : Ledger) (event : Event) : Except Error Decision × Ledger :=
  match event.assetId with
  | none => (.ok .ignoreUnidentified, ledger)
  | some assetId =>
    match Projection.ofEvent event with
    | .error error => (.error error, ledger)
    | .ok projection =>
      let found := (ledger.get? assetId).getD (.blank assetId event.merkleTree)
      let record := found.fillLeafIndex event.leafIndex
      let decision := record.watermark.decide event.sequence
      (.ok decision, ledger.insert assetId (record.settle decision projection event.sequence))

/-- What is reported about an event that was handed to a ledger. Of a failure nothing is. -/
def remarks (event : Event) : Except Error Decision → List Notice
  | .error _ => []
  | .ok decision =>
    match event.assetId with
    | none => [.notStored event.signature event.ordinal]
    | some assetId => [.applied assetId event.kind event.slot decision]

/-- Attaches a fetched document to an asset, and says whether the asset is known. -/
def attach (ledger : Ledger) (assetId : Address) (document : Json) : Bool × Ledger :=
  match ledger.get? assetId with
  | none => (false, ledger)
  | some record => (true, ledger.insert assetId { record with metadataJson := some document })

/-- A record that was set is found under its key, and no other is disturbed. -/
theorem get?_insert (ledger : Ledger) (key : Address) (record : AssetRecord) (assetId : Address) :
    (ledger.insert key record).get? assetId =
      if key = assetId then some record else ledger.get? assetId := by
  obtain ⟨entries⟩ := ledger
  simp only [insert, get?]
  induction entries with
  | nil => by_cases h : key = assetId <;> simp [put, h]
  | cons entry entries ih =>
    by_cases own : entry.1 = key
    · by_cases h : key = assetId <;> simp [put, own, h]
    · by_cases h : entry.1 = assetId
      · have hn : key ≠ assetId := fun e => own (h.trans e.symm)
        rw [put, if_neg own]
        simp [h, hn]
      · simp [put, own, h, ih]

end Ledger

end LeafLedger
