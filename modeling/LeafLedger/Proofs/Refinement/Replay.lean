import LeafLedger.Proofs.Refinement.Operation
import LeafLedger.Proofs.Sequence.Passed
import LeafLedger.Proofs.Store.Delivery

namespace LeafLedger

/-- What operations make of an asset. -/
structure AssetState where
  owner : Option Address
  delegate : Option Address
  burnt : Bool
  nonce : Option UInt64
  metadata : Option Metadata
  collection : Option Collection
  creators : List Creator
  royaltyBasisPoints : Option UInt16
  deriving DecidableEq

namespace AssetState

/-- An asset before its first operation. -/
def unknown : AssetState :=
  ⟨none, none, false, none, none, none, [], none⟩

/-- The asset after an operation. -/
def perform (state : AssetState) : Operation → AssetState
  | .mint _ owner delegate nonce metadata =>
    { state with
      owner := some owner
      delegate := some delegate
      nonce := some nonce
      metadata := some metadata
      collection := metadata.collection
      creators := metadata.creators
      royaltyBasisPoints := some metadata.sellerFeeBasisPoints }
  | .transfer _ _ newOwner => { state with owner := some newOwner, delegate := some newOwner }
  | .burn .. => { state with burnt := true }

/-- What an operation makes of the asset with an id, if it is about that asset. -/
def performOn (assetId : Address) (found : Option AssetState) (op : Operation) :
    Option AssetState :=
  if op.assetId = assetId then some ((found.getD .unknown).perform op) else found

/-- The asset with an id after operations, if one of them is about it. -/
def replay (assetId : Address) (ops : List Operation) : Option AssetState :=
  ops.foldl (performOn assetId) none

/-- Only a mint of the asset itself changes its metadata. -/
theorem metadata_performOn {assetId : Address} {op : Operation}
    (other : op.isMint = true → op.assetId ≠ assetId) (found : Option AssetState) :
    ((performOn assetId found op).getD .unknown).metadata = (found.getD .unknown).metadata := by
  unfold performOn
  split
  next own =>
    cases op with
    | mint => exact absurd own (other rfl)
    | transfer | burn => rfl
  next => rfl

theorem isSome_foldl_performOn {assetId : Address} {ops : List Operation}
    {found : Option AssetState} :
    (ops.foldl (performOn assetId) found).isSome ↔
      found.isSome ∨ ∃ op ∈ ops, op.assetId = assetId := by
  induction ops generalizing found with
  | nil => simp
  | cons op ops ih =>
    rw [List.foldl_cons, ih]
    by_cases own : op.assetId = assetId <;> simp [performOn, own]

end AssetState

namespace AssetRecord

/-- What a record says about the state of its asset. -/
def state (r : AssetRecord) : AssetState :=
  ⟨r.owner, r.delegate, r.burnt, r.nonce, r.metadata, r.collection, r.creators,
    r.royaltyBasisPoints⟩

/-- A projection performs its operation. Metadata is only taken once, so a mint has to be the
first. -/
theorem state_project {r : AssetRecord} {op : Operation}
    (unminted : op.isMint = true → r.metadata = none) (treeAuthority : Option Address) :
    (r.project (op.projection treeAuthority)).state = r.state.perform op := by
  cases op with
  | mint =>
    have none := unminted rfl
    simp [Operation.projection, project, fillMintData, fillMetadata_eq, fillTreeAuthority, state,
      AssetState.perform, none]
  | transfer | burn => rfl

theorem state_offer {r : AssetRecord} {op : Operation} {event : Event}
    (decided : r.watermark.decide event.sequence = .apply)
    (unminted : op.isMint = true → r.metadata = none) (treeAuthority : Option Address) :
    (r.offer event (op.projection treeAuthority)).state = r.state.perform op := by
  have bare : op.isMint = true → (r.fillLeafIndex event.leafIndex).metadata = none := unminted
  rw [offer_of_apply decided]
  exact state_project bare treeAuthority

end AssetRecord

namespace Ledger

/-- The state that a record tells, which may not be open yet. -/
def stateOf (found : Option AssetRecord) : AssetState :=
  (found.map (·.state)).getD .unknown

theorem state_getD (found : Option AssetRecord) (assetId tree : Address) :
    (found.getD (.blank assetId tree)).state = stateOf found := by
  cases found <;> rfl

/-- An event that tells an operation, in a transaction behind all others, performs the operation on
its asset and touches no other. -/
theorem recordAfter_of_toldBy {op : Operation} {event : Event} {assetId : Address}
    {found : Option AssetRecord} (told : op.ToldBy event)
    (behind : (markOf found).Behind event.sequence)
    (unminted : op.isMint = true → op.assetId = assetId → (stateOf found).metadata = none) :
    (recordAfter assetId found event).map (·.state) =
        AssetState.performOn assetId (found.map (·.state)) op ∧
      markOf (recordAfter assetId found event) =
        if op.assetId = assetId then (markOf found).record event.sequence else markOf found := by
  obtain ⟨treeAuthority, hp⟩ := told.projection
  by_cases own : op.assetId = assetId
  · have here : event.assetId = some assetId ∧ (Projection.ofEvent event).isOk := by
      rw [told.assetId, own, hp]
      exact ⟨rfl, rfl⟩
    have state := state_getD found assetId event.merkleTree
    have mark := watermark_getD found assetId event.merkleTree
    rw [recordAfter, if_pos here, AssetRecord.hear_of_projects hp, AssetState.performOn,
      if_pos own, if_pos own]
    generalize found.getD (.blank assetId event.merkleTree) = r at state mark ⊢
    have decided : r.watermark.decide event.sequence = .apply := by
      rw [mark]
      exact Watermark.decide_of_behind behind
    have bare : op.isMint = true → r.metadata = none := by
      intro mint
      have metadata : r.state.metadata = none := by
        rw [state]
        exact unminted mint own
      exact metadata
    constructor
    · have performed := AssetRecord.state_offer decided bare treeAuthority
      rw [state] at performed
      exact congrArg some performed
    · have moved := (AssetRecord.offer_frame r event (op.projection treeAuthority)).2.2.2
      rw [Watermark.offer, decided, mark] at moved
      exact moved
  · have elsewhere : ¬(event.assetId = some assetId ∧ (Projection.ofEvent event).isOk) := by
      rw [told.assetId]
      exact fun h => own (Option.some.inj h.1)
    rw [recordAfter, if_neg elsewhere, AssetState.performOn, if_neg own, if_neg own]
    exact ⟨rfl, rfl⟩

/-- Events in transactions of their own and in order perform their operations. -/
theorem foldl_recordAfter {ops : List Operation} {events : List Event} {assetId : Address}
    {found : Option AssetRecord} (told : List.Forall₂ Operation.ToldBy ops events)
    (slots : events.Pairwise fun a b => a.slot ≤ b.slot)
    (signatures : events.Pairwise fun a b => a.signature ≠ b.signature)
    (mints : ops.Pairwise fun a b => a.isMint = true → b.isMint = true → a.assetId ≠ b.assetId)
    (behind : ∀ event ∈ events, (markOf found).Behind event.sequence)
    (unminted : ∀ op ∈ ops, op.isMint = true → op.assetId = assetId →
      (stateOf found).metadata = none) :
    (events.foldl (recordAfter assetId) found).map (·.state) =
      ops.foldl (AssetState.performOn assetId) (found.map (·.state)) := by
  -- Carried along: what is remembered lies behind all events to come, and no mint to come finds
  -- metadata.
  induction told generalizing found with
  | nil => rfl
  | @cons op event ops events here _ ih =>
    obtain ⟨laterSlots, slots⟩ := List.pairwise_cons.mp slots
    obtain ⟨laterSignatures, signatures⟩ := List.pairwise_cons.mp signatures
    obtain ⟨laterMints, mints⟩ := List.pairwise_cons.mp mints
    obtain ⟨state, mark⟩ := recordAfter_of_toldBy here (behind event (by simp))
      (unminted op (by simp))
    rw [List.foldl_cons, List.foldl_cons, ← state]
    refine ih slots signatures mints ?_ ?_
    · intro next hn
      have kept := behind next (by simp [hn])
      rw [mark]
      split
      next => exact kept.record (laterSlots next hn) (laterSignatures next hn)
      next => exact kept
    · intro next hn mint own
      have other : op.isMint = true → op.assetId ≠ assetId := by
        intro first same
        exact laterMints next hn first mint (same.trans own.symm)
      rw [stateOf, state, AssetState.metadata_performOn other]
      exact unminted next (by simp [hn]) mint own

/-- Each transaction has the one event of its operation, in its own slot. -/
theorem events_of_renders {ops : List Operation} {txs : List Transaction}
    (renders : List.Forall₂ Operation.Renders ops txs) :
    ∃ events, (txs.flatMap fun tx => (tx.scan .standard).events) = events ∧
      List.Forall₂ Operation.ToldBy ops events ∧
      events.map (fun e => (e.slot, e.signature)) =
        txs.map fun tx => (tx.slot, tx.signature) := by
  induction renders with
  | nil => exact ⟨[], rfl, .nil, rfl⟩
  | @cons op tx ops txs here _ ih =>
    obtain ⟨event, found, told, slot, signature⟩ := Operation.events_of_renders here
    obtain ⟨events, later, rest, places⟩ := ih
    refine ⟨event :: events, ?_, .cons told rest, ?_⟩
    · rw [List.flatMap_cons, found, later]
      rfl
    · rw [List.map_cons, List.map_cons, slot, signature, places]

/-- Transactions that carry out operations, in order and each with a signature of its own, leave
every asset as the replay of the operations on it. No asset has a record unless an operation is
about it. -/
theorem deliver_eq_replay {ops : List Operation} {txs : List Transaction}
    (renders : List.Forall₂ Operation.Renders ops txs)
    (signatures : txs.Pairwise fun a b => a.signature ≠ b.signature)
    (slots : txs.Pairwise fun a b => a.slot ≤ b.slot)
    (mints : ops.Pairwise fun a b => a.isMint = true → b.isMint = true → a.assetId ≠ b.assetId)
    (assetId : Address) :
    let ledger := empty.deliver (txs.flatMap fun tx => (tx.scan .standard).events)
    (ledger.get? assetId).map (·.state) = AssetState.replay assetId ops ∧
      ((ledger.get? assetId).isSome ↔ ∃ op ∈ ops, op.assetId = assetId) := by
  obtain ⟨events, scanned, told, places⟩ := events_of_renders renders
  have eventSlots : events.Pairwise fun a b => a.slot ≤ b.slot := by
    have mapped : (txs.map fun tx => (tx.slot, tx.signature)).Pairwise fun a b => a.1 ≤ b.1 :=
      List.pairwise_map.mpr slots
    rw [← places, List.pairwise_map] at mapped
    exact mapped
  have eventSignatures : events.Pairwise fun a b => a.signature ≠ b.signature := by
    have mapped : (txs.map fun tx => (tx.slot, tx.signature)).Pairwise fun a b => a.2 ≠ b.2 :=
      List.pairwise_map.mpr signatures
    rw [← places, List.pairwise_map] at mapped
    exact mapped
  have same : ((empty.deliver events).get? assetId).map (·.state) =
      AssetState.replay assetId ops := by
    rw [get?_deliver]
    refine foldl_recordAfter told eventSlots eventSignatures mints ?_ ?_
    · intro event _
      exact Watermark.behind_empty event.sequence
    · intro op _ _ _
      rfl
  intro ledger
  have run : ledger = empty.deliver events := by
    rw [← scanned]
  rw [run]
  refine ⟨same, ?_⟩
  rw [← Option.isSome_map, same, AssetState.replay, AssetState.isSome_foldl_performOn]
  simp

/-- What the sample mint says about its asset. -/
def sampleMetadata : Metadata where
  name := "leaf"
  symbol := "L"
  uri := "leaf.json"
  sellerFeeBasisPoints := 500
  primarySaleHappened := false
  isMutable := true
  editionNonce := none
  tokenStandard := some .nonFungible
  collection := some ⟨true, .replicate 9⟩
  uses := none
  tokenProgramVersion := .legacy
  creators := [⟨.replicate 4, true, 100⟩]

/-- An asset is minted, handed on and burnt. -/
def sampleOperations : List Operation :=
  [.mint (.replicate 2) (.replicate 3) (.replicate 4) 7 sampleMetadata,
    .transfer (.replicate 2) 7 (.replicate 5), .burn (.replicate 2) 7]

/-- The transactions of the sample, the first two in one slot. -/
def sampleTransactions : List Transaction :=
  List.zipWith (fun op (place : String × UInt64) => op.render place.1 place.2) sampleOperations
    [("a", 1), ("b", 1), ("c", 2)]

theorem renders_sample : List.Forall₂ Operation.Renders sampleOperations sampleTransactions := by
  have fits : sampleMetadata.Fits := ⟨by decide, by decide, by decide, by decide⟩
  refine .cons ?_ (.cons ?_ (.cons ?_ .nil)) <;> refine Operation.renders_render ?_ _ _
  · rintro _ _ _ _ _ ⟨⟩
    exact fits
  · rintro _ _ _ _ _ ⟨⟩
  · rintro _ _ _ _ _ ⟨⟩

theorem deliver_eq_replay_sample :
    List.Forall₂ Operation.Renders sampleOperations sampleTransactions ∧
    ((empty.deliver (sampleTransactions.flatMap fun tx => (tx.scan .standard).events)).get?
        (Asset.id Program.compressedAsset (.replicate 2) 7)).map (·.state) =
      some {
        owner := some (.replicate 5)
        delegate := some (.replicate 5)
        burnt := true
        nonce := some 7
        metadata := some sampleMetadata
        collection := some ⟨true, .replicate 9⟩
        creators := [⟨.replicate 4, true, 100⟩]
        royaltyBasisPoints := some 500 } := by
  have mints : sampleOperations.Pairwise fun a b =>
      a.isMint = true → b.isMint = true → a.assetId ≠ b.assetId := by
    simp [sampleOperations, Operation.isMint]
  have settled := deliver_eq_replay renders_sample
    (by simp [sampleTransactions, sampleOperations, Operation.render, Operation.transactionOf])
    (by simp [sampleTransactions, sampleOperations, Operation.render, Operation.transactionOf])
    mints (Asset.id Program.compressedAsset (.replicate 2) 7)
  refine ⟨renders_sample, settled.1.trans ?_⟩
  simp [AssetState.replay, sampleOperations, AssetState.performOn, Operation.assetId,
    AssetState.perform, AssetState.unknown, sampleMetadata]

end Ledger

end LeafLedger
