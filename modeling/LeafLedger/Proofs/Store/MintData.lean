import LeafLedger.Proofs.Store.Delivery

namespace LeafLedger

/-- What a record takes from the mint of its asset and from no other event. -/
structure MintData where
  metadata : Option Metadata
  collection : Option Collection
  creators : List Creator
  royaltyBasisPoints : Option UInt16
  nonce : Option UInt64
  treeAuthority : Option Address

namespace MintData

/-- Nothing, as long as no mint was seen. -/
def unknown : MintData :=
  ⟨none, none, [], none, none, none⟩

/-- What a mint tells. -/
def told (metadata : Metadata) (nonce : UInt64) (treeAuthority : Option Address) : MintData where
  metadata := some metadata
  collection := metadata.collection
  creators := metadata.creators
  royaltyBasisPoints := some metadata.sellerFeeBasisPoints
  nonce := some nonce
  treeAuthority

end MintData

namespace Projection

/-- What a record will take from the mint alone. -/
def mintData? : Projection → Option MintData
  | mint _ _ nonce metadata treeAuthority => some (.told metadata nonce treeAuthority)
  | transfer _ | burn => none

/-- The owner and the delegate that are set. -/
def holders? : Projection → Option (Address × Address)
  | mint owner delegate _ _ _ => some (owner, delegate)
  | transfer newOwner => some (newOwner, newOwner)
  | burn => none

theorem kind_of_mintData? {event : Event} {projection : Projection} {data : MintData}
    (h : ofEvent event = .ok projection) (hd : projection.mintData? = some data) :
    event.kind = .mint := by
  rcases ofEvent_cases h with ⟨_, _, hk, _, _, _⟩ | ⟨_, _, _, rfl⟩ | ⟨_, rfl⟩
  · exact hk
  · cases hd
  · cases hd

theorem kind_burn_iff {event : Event} {projection : Projection}
    (h : ofEvent event = .ok projection) : event.kind = .burn ↔ projection = .burn := by
  rcases ofEvent_cases h with ⟨_, _, hk, _, _, rfl⟩ | ⟨_, hk, _, rfl⟩ | ⟨hk, rfl⟩ <;> simp [hk]

end Projection

namespace AssetRecord

/-- What the record took from the mint. -/
def mintData (r : AssetRecord) : MintData :=
  ⟨r.metadata, r.collection, r.creators, r.royaltyBasisPoints, r.nonce, r.treeAuthority⟩

/-- A mint is complete at its first sight, and says nothing new when it comes again. -/
theorem mintData_project {r : AssetRecord} {projection : Projection} {data : MintData}
    (hd : projection.mintData? = some data) (h : r.mintData = .unknown ∨ r.mintData = data) :
    (r.project projection).mintData = data := by
  cases projection with
  | transfer | burn => cases hd
  | mint owner delegate nonce metadata treeAuthority =>
    cases hd
    rcases h with h | h <;>
      simp_all [mintData, MintData.unknown, MintData.told, project, fillMintData, fillMetadata,
        fillTreeAuthority]

theorem mintData_backfill {r : AssetRecord} {projection : Projection} {data : MintData}
    (hd : projection.mintData? = some data) (h : r.mintData = .unknown ∨ r.mintData = data) :
    (r.backfill projection).mintData = data := by
  cases projection with
  | transfer | burn => cases hd
  | mint owner delegate nonce metadata treeAuthority =>
    cases hd
    rcases h with h | h <;>
      simp_all [mintData, MintData.unknown, MintData.told, backfill, fillMintData, fillMetadata,
        fillTreeAuthority]

theorem mintData_of_no_mint {projection : Projection} (hd : projection.mintData? = none)
    (r : AssetRecord) : (r.project projection).mintData = r.mintData ∧
      (r.backfill projection).mintData = r.mintData := by
  cases projection with
  | mint => cases hd
  | transfer | burn => exact ⟨rfl, rfl⟩

theorem holders_project {projection : Projection} {owner delegate : Address}
    (hh : projection.holders? = some (owner, delegate)) (r : AssetRecord) :
    (r.project projection).owner = some owner ∧
      (r.project projection).delegate = some delegate := by
  cases projection with
  | mint =>
    cases hh
    simp [project, fillMintData, fillMetadata_eq, fillTreeAuthority]
  | transfer =>
    cases hh
    exact ⟨rfl, rfl⟩
  | burn => cases hh

theorem burnt_project (r : AssetRecord) (projection : Projection) :
    (r.project projection).burnt = true ↔ r.burnt = true ∨ projection = .burn := by
  cases projection <;> simp [project, fillMintData, fillMetadata_eq, fillTreeAuthority]

/-- A late event changes nothing that hangs on the order. -/
theorem backfill_keeps (r : AssetRecord) (projection : Projection) :
    (r.backfill projection).owner = r.owner ∧ (r.backfill projection).delegate = r.delegate ∧
    (r.backfill projection).burnt = r.burnt ∧
    (r.backfill projection).lastSequence = r.lastSequence := by
  cases projection <;> simp [backfill, fillMintData, fillMetadata_eq, fillTreeAuthority]

end AssetRecord

end LeafLedger
