import Pneumatic.Committer.Chain
import Pneumatic.Core.Utf8

/-!
# Contract tokens and their deltas

`SmartContract` of `tokens.rs`, and the three changes that a committed transaction
makes to contract tokens: `contracts/deploy.rs` creates one, `contracts/upgrade.rs`
replaces its bytecode and owners, and the storage delta of a `WasmResult` sets and
removes keys. A contract sits in its token as bytes. Writing a value of these types
never fails; reading one may, and then the token counts as having no contract.
-/

namespace Pneumatic

structure SmartContract where
  name : String
  bytecode : Bytes
  version : String
  storage : Finmap (fun _ : Bytes => Bytes)
  owners : List Bytes
  threshold : Nat
deriving DecidableEq

structure DeployParams where
  name : String
  engine : String
  bytecode : Bytes
  metadata : Finmap (fun _ : String => String)
  owners : List Bytes
  threshold : Nat

structure CreateTokenDelta where
  tokenId : Bytes
  name : String
  engine : String
  bytecode : Bytes
  metadata : Finmap (fun _ : String => String)
  owners : List Bytes
  threshold : Nat

structure UpgradeParams where
  newBytecode : Bytes
  newOwners : List Bytes
  newThreshold : Nat
  proposalEpoch : Nat
  ownerSignatures : List Bytes

structure ReplaceAssetDelta where
  tokenId : Bytes
  newBytecode : Bytes
  newOwners : List Bytes
  newThreshold : Nat
  proposalEpoch : Nat

/-- `WasmResult`; the delta's entries stand in the order of their keys, a key without
a value is removed. -/
structure WasmResult where
  moduleOutput : Bytes
  storageDelta : List (Bytes × Option Bytes)

inductive ContractError where
  | unknownEngine (name : String)
  | gasExhausted
  | badBytecode (text : String)
  | reverted (text : String)
  | engineNotImplemented (name : String)
  | invalidInput (text : String)
deriving DecidableEq

/-- The MessagePack forms of the contract types. -/
structure ContractCodec where
  rmpSmartContract : SmartContract → Bytes
  rmpDeployId : Bytes → Nat → Bytes → String → Bytes
  rmpCreateTokenDelta : CreateTokenDelta → Bytes
  rmpReplaceAssetDelta : ReplaceAssetDelta → Bytes
  decodeSmartContract : Bytes → Option SmartContract
  decodeDeployParams : Bytes → Option DeployParams
  decodeUpgradeParams : Bytes → Option UpgradeParams
  decodeWasmResult : Bytes → Option WasmResult

variable (C : Codec) (K : ContractCodec)

namespace Token

/-- `Token::get_asset` for a contract. -/
def getAsset (token : Token) : Option SmartContract :=
  match token.assetData with
  | none => none
  | some data => K.decodeSmartContract data

/-- `Token::update_asset` for a contract; `none` leaves the token. -/
def updateAsset (token : Token) (f : SmartContract → SmartContract) : Option Token :=
  match token.assetData with
  | none => none
  | some data =>
    match K.decodeSmartContract data with
    | none => none
    | some contract =>
      some { token with assetData := some (K.rmpSmartContract (f contract)) }

def defaultSecurityLevel : Nat := 5

end Token

def deployDomain : Bytes := asBytes "PNEUMATIC/DEPLOY/v1"

def deriveTokenId (deployer : Bytes) (nonce : Nat) (bytecode : Bytes) (name : String) : Bytes :=
  C.sha256 (deployDomain ++ K.rmpDeployId deployer nonce (C.sha256 bytecode) name)

def deployContract (deployer : Bytes) (nonce : Nat) (params : DeployParams) :
    Except ContractError CreateTokenDelta :=
  if params.name.isEmpty then .error (.invalidInput "contract name is empty")
  else if params.engine.isEmpty then .error (.invalidInput "engine name is empty")
  else .ok
    { tokenId := deriveTokenId C K deployer nonce params.bytecode params.name
      name := params.name
      engine := params.engine
      bytecode := params.bytecode
      metadata := params.metadata
      owners := params.owners
      threshold := params.threshold }

/-- `CreateTokenDelta::to_token`. The three keys of its own come after the
sender's. -/
def CreateTokenDelta.toToken (delta : CreateTokenDelta) : Token where
  id := delta.tokenId
  metadata := ((delta.metadata.insert "token_type" "contract").insert
    "contract_engine" delta.engine).insert "name" delta.name
  chain := []
  securityLevel := Token.defaultSecurityLevel
  blockValidationSpecName := "SelfSigned"
  sequenceNumber := 0
  assetData := some (K.rmpSmartContract
    { name := delta.name
      bytecode := delta.bytecode
      version := "1"
      storage := ∅
      owners := delta.owners
      threshold := delta.threshold })

def timelockEpochs : Nat := 1

def timelockSatisfied (proposalEpoch currentEpoch : Nat) : Bool :=
  min (proposalEpoch + timelockEpochs) (2 ^ 64 - 1) ≤ currentEpoch

def applyReplaceAsset (token : Token) (delta : ReplaceAssetDelta) : Except ContractError Token :=
  match token.updateAsset K fun contract =>
    { contract with
      bytecode := delta.newBytecode
      owners := delta.newOwners
      threshold := delta.newThreshold } with
  | none => .error (.badBytecode "target token has no contract asset")
  | some token => .ok token

/-- The loop over the entries of a storage delta. -/
def applyStorage (storage : Finmap (fun _ : Bytes => Bytes))
    (delta : List (Bytes × Option Bytes)) : Finmap (fun _ : Bytes => Bytes) :=
  delta.foldl (fun storage entry =>
    match entry.2 with
    | some value => storage.insert entry.1 value
    | none => storage.erase entry.1) storage

end Pneumatic
