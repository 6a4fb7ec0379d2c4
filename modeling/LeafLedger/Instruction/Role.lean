import LeafLedger.Instruction.Kind

namespace LeafLedger

/-- The parts that an account can play. -/
inductive Role
  | treeConfig
  | leafOwner
  | leafDelegate
  | newLeafOwner
  | merkleTree
  | payer
  | treeCreatorOrDelegate
  | collectionAuthority
  | collectionAuthorityRecord
  | collectionMint
  | collectionMetadata
  | collectionEdition
  | bubblegumSigner
  | logWrapper
  | compressionProgram
  | tokenMetadataProgram
  | systemProgram
  deriving DecidableEq

def Role.name : Role → String
  | treeConfig => "tree_config"
  | leafOwner => "leaf_owner"
  | leafDelegate => "leaf_delegate"
  | newLeafOwner => "new_leaf_owner"
  | merkleTree => "merkle_tree"
  | payer => "payer"
  | treeCreatorOrDelegate => "tree_creator_or_delegate"
  | collectionAuthority => "collection_authority"
  | collectionAuthorityRecord => "collection_authority_record_pda"
  | collectionMint => "collection_mint"
  | collectionMetadata => "collection_metadata"
  | collectionEdition => "collection_edition"
  | bubblegumSigner => "bubblegum_signer"
  | logWrapper => "log_wrapper"
  | compressionProgram => "compression_program"
  | tokenMetadataProgram => "token_metadata_program"
  | systemProgram => "system_program"

/-- A position of a schema. An optional account is left out by passing the program's own address. -/
structure RoleSlot where
  role : Role
  optional : Bool
  deriving DecidableEq

/-- A position that has to be filled. -/
def Role.required (role : Role) : RoleSlot :=
  ⟨role, false⟩

/-- The roles of an instruction's accounts by position. Only instructions that record a change have
any. -/
def Kind.roleSchema : Kind → List RoleSlot
  | .mintV1 => [
    Role.treeConfig.required, Role.leafOwner.required, Role.leafDelegate.required,
    Role.merkleTree.required, Role.payer.required, Role.treeCreatorOrDelegate.required,
    Role.logWrapper.required, Role.compressionProgram.required, Role.systemProgram.required]
  | .mintToCollectionV1 => [
    Role.treeConfig.required, Role.leafOwner.required, Role.leafDelegate.required,
    Role.merkleTree.required, Role.payer.required, Role.treeCreatorOrDelegate.required,
    Role.collectionAuthority.required, ⟨.collectionAuthorityRecord, true⟩,
    Role.collectionMint.required, Role.collectionMetadata.required,
    Role.collectionEdition.required, Role.bubblegumSigner.required, Role.logWrapper.required,
    Role.compressionProgram.required, Role.tokenMetadataProgram.required,
    Role.systemProgram.required]
  | .transfer => [
    Role.treeConfig.required, Role.leafOwner.required, Role.leafDelegate.required,
    Role.newLeafOwner.required, Role.merkleTree.required, Role.logWrapper.required,
    Role.compressionProgram.required, Role.systemProgram.required]
  | .burn => [
    Role.treeConfig.required, Role.leafOwner.required, Role.leafDelegate.required,
    Role.merkleTree.required, Role.logWrapper.required, Role.compressionProgram.required,
    Role.systemProgram.required]
  | _ => []

/-- No schema gives one role to two positions. -/
theorem Kind.nodup_roleSchema (kind : Kind) : (kind.roleSchema.map (·.role)).Nodup := by
  cases kind <;> decide

end LeafLedger
