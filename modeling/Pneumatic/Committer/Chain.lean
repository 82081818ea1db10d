import Pneumatic.Core.Errors
import Pneumatic.Core.Transactions

/-!
# Tokens and their chains

`blocks.rs` and `tokens.rs`, the parts that put a block on a chain. There are
two ways on. `commit_block` recomputes the block's hash, may roll a named tip
back, validates against what is then the tip, trims the oldest block of a full
chain and appends; when validation fails the removed tip is put back.
`append_validated_block` checks the linkage and that the claimed hash is the
recomputed one, and appends. Neither looks at the transaction in the block.
-/

namespace Pneumatic

/-- `Token`, the fields the commit path reads or writes. -/
structure Token where
  id : Bytes
  metadata : Finmap (fun _ : String => String)
  chain : List Block
  securityLevel : Nat
  blockValidationSpecName : String
  sequenceNumber : Nat
  assetData : Option Bytes := none
deriving DecidableEq

abbrev TokenMap := Finmap (fun _ : Bytes => Token)

/-- The registered block validators: what a spec answers for a block and a
token, `none` for a valid block and the reasons otherwise. -/
abbrev BlockValidators :=
  String → Option (Block → Token → Option (List ValidationFailureReason))

/-- `ExecutedBlockValidatorSpec`. -/
def executedBlockSpec (block : Block) (_token : Token) : Option (List ValidationFailureReason) :=
  if block.signedTrans.transaction.resultHash.isEmpty then some [.missingResultHash]
  else if block.signedTrans.executorSigs.entries = 0 then
    some [.missingExecutorSignatures]
  else if block.signedTrans.finalizerSig.signature.isEmpty then
    some [.missingFinalizerSignature]
  else none

inductive AppendOutcome where
  | linkageMismatch
  | invalidHash
  | appended
deriving DecidableEq

def cachedTip (chain : List Block) : Bytes :=
  match chain.getLast? with
  | none => []
  | some block => block.currentHash

/-- The linkage test of both ways: an empty tip is a genesis. -/
def links (tip : Bytes) (block : Block) : Bool :=
  if tip.isEmpty then block.previousHash.isEmpty else tip == block.previousHash

section Codec

variable (C : Codec)

/-- The loop of `get_current_chain_state`, from a block whose hash is right. -/
def chainStateFrom (prev : Block) : List Block → Option Bytes
  | [] => some prev.currentHash
  | next :: rest =>
    if next.previousHash = prev.currentHash ∧ createHash C next = next.currentHash
    then chainStateFrom next rest
    else none

/-- `Blockchain::get_current_chain_state`: the last hash of a valid chain. -/
def currentChainState : List Block → Option Bytes
  | [] => some []
  | first :: rest =>
    if first.currentHash = createHash C first then chainStateFrom C first rest
    else none

def validateNextBlock (chain : List Block) (block : Block) : Bool :=
  match currentChainState C chain with
  | none => false
  | some tip => links tip block && createHash C block == block.currentHash

def appendValidatedBlock (chain : List Block) (block : Block) : List Block × AppendOutcome :=
  if links (cachedTip chain) block = false then (chain, .linkageMismatch)
  else if createHash C block ≠ block.currentHash then (chain, .invalidHash)
  else (chain ++ [block], .appended)

namespace Token

section

variable (validators : BlockValidators) (token : Token) (block : Block)
  (rollbackTipHash : Option Bytes)

def validateBlock : Except BlockValidationError Unit :=
  if validateNextBlock C token.chain block = false then .error .chainLinkage
  else
    let name :=
      if token.blockValidationSpecName.isEmpty then
        (token.metadata.lookup "validator_name").getD ""
      else token.blockValidationSpecName
    match validators name with
    | none => .error .noValidatorRegistered
    | some spec =>
      match spec block token with
      | none => .ok ()
      | some reasons => .error (.invalidBlock reasons)

/-- The tip that `commit_block` rolls back: the current one, when it is the
named loser. -/
def defeatedTip : Option Block :=
  match rollbackTipHash with
  | none => none
  | some loser => if cachedTip token.chain = loser then token.chain.getLast? else none

def rolled : Token :=
  match token.defeatedTip rollbackTipHash with
  | none => token
  | some _ => { token with chain := token.chain.dropLast }

/-- The block as the chain stores it, under its recomputed hash. -/
def hashed : Block :=
  { block with currentHash := createHash C block }

end

/-- What is left of the chain when a block goes on it: an archiver keeps its
oldest block. -/
def keptChain (isArchiver : Bool) (token : Token) : List Block :=
  if isArchiver = false ∧ token.securityLevel = token.chain.length then token.chain.drop 1
  else token.chain

/-- `Token::commit_block`; the value is the block that was rolled back. -/
def commitBlockAs (isArchiver : Bool) (validators : BlockValidators) (token : Token)
    (block : Block) (rollbackTipHash : Option Bytes) :
    Token × Except BlockValidationError (Option Block) :=
  let rolled := token.rolled rollbackTipHash
  match rolled.validateBlock C validators (hashed C block) with
  | .error e =>
    match token.defeatedTip rollbackTipHash with
    | none => (rolled, .error e)
    | some loser => ({ rolled with chain := rolled.chain ++ [loser] }, .error e)
  | .ok () =>
    ({ rolled with
        chain := rolled.keptChain isArchiver ++ [hashed C block]
        sequenceNumber := rolled.sequenceNumber + 1 }, .ok (token.defeatedTip rollbackTipHash))

/-- A Committer is no archiver. -/
def commitBlock (validators : BlockValidators) (token : Token) (block : Block)
    (rollbackTipHash : Option Bytes) : Token × Except BlockValidationError (Option Block) :=
  token.commitBlockAs C false validators block rollbackTipHash

end Token

end Codec

variable {C : Codec}

variable {tip : Bytes}

theorem cachedTip_of_chainStateFrom {prev : Block} {rest : List Block}
    (h : chainStateFrom C prev rest = some tip) : cachedTip (prev :: rest) = tip := by
  induction rest generalizing prev with
  | nil => exact Option.some.inj h
  | cons next rest ih =>
    rw [chainStateFrom] at h
    split at h
    · rw [← ih h]
      rfl
    · cases h

/-- The last hash of a valid chain is the one the cache of the tip holds. -/
theorem cachedTip_of_currentChainState {chain : List Block}
    (h : currentChainState C chain = some tip) : cachedTip chain = tip := by
  cases chain with
  | nil => exact Option.some.inj h
  | cons first rest =>
    rw [currentChainState] at h
    split at h
    · exact cachedTip_of_chainStateFrom h
    · cases h

theorem links_of_eq {block : Block} (h : block.previousHash = tip) : links tip block = true := by
  unfold links
  rw [h]
  split
  · next he => exact he
  · exact beq_self_eq_true tip

/-- Off a genesis, a block that links names the tip. -/
theorem eq_of_links {block : Block} (htip : tip ≠ [])
    (h : links tip block = true) : tip = block.previousHash := by
  unfold links at h
  rw [if_neg (by simpa using htip)] at h
  exact eq_of_beq h

namespace Token

variable {block : Block} {token : Token} {validators : BlockValidators} {rollback : Option Bytes}
  {isArchiver : Bool}

theorem links_of_validateBlock (h : token.validateBlock C validators block = .ok ()) :
    links (cachedTip token.chain) block = true := by
  unfold validateBlock at h
  split at h
  · cases h
  · next hn =>
    unfold validateNextBlock at hn
    split at hn
    · exact absurd rfl hn
    · next tip hs =>
      rw [cachedTip_of_currentChainState hs]
      cases hl : links tip block with
      | true => rfl
      | false => rw [hl] at hn; exact absurd rfl hn

@[simp]
theorem rolled_none (token : Token) : token.rolled none = token := rfl

/-- Naming a hash that is not the tip's rolls nothing back. -/
theorem rolled_of_ne {hash : Bytes}
    (h : cachedTip token.chain ≠ hash) : token.rolled (some hash) = token := by
  simp only [rolled, defeatedTip, if_neg h]

theorem getLast?_of_defeatedTip (h : token.defeatedTip rollback = some block) :
    token.chain.getLast? = some block := by
  unfold defeatedTip at h
  split at h
  · cases h
  · split at h
    · exact h
    · cases h

theorem rollback_of_defeatedTip (h : token.defeatedTip rollback = some block) :
    rollback = some block.currentHash := by
  have hl := getLast?_of_defeatedTip h
  unfold defeatedTip at h
  split at h
  · cases h
  · split at h
    · next htip => rw [← htip, cachedTip, hl]
    · cases h

theorem commitBlockAs_error {e : BlockValidationError}
    (h : (token.commitBlockAs C isArchiver validators block rollback).2 = .error e) :
    (token.commitBlockAs C isArchiver validators block rollback).1 = token := by
  simp only [commitBlockAs] at h ⊢
  cases hv : (token.rolled rollback).validateBlock C validators (hashed C block) with
  | ok _ => simp only [hv] at h; cases h
  | error e =>
    cases hdef : token.defeatedTip rollback with
    | none => simp only [rolled, hdef]
    | some loser =>
      have hb : token.chain.dropLast ++ [loser] = token.chain :=
        List.dropLast_append_getLast? loser (getLast?_of_defeatedTip hdef)
      simp only [rolled, hdef, hb]

theorem commitBlockAs_refused {e : BlockValidationError}
    (h : (token.commitBlockAs C isArchiver validators block rollback).2 = .error e) :
    (token.rolled rollback).validateBlock C validators (hashed C block) ≠ .ok () := by
  intro hv
  simp only [commitBlockAs, hv] at h
  cases h

/-- An accepted block was validated on the token without the tip it replaces,
and that tip is the one removed. -/
theorem commitBlockAs_ok {removed : Option Block}
    (h : (token.commitBlockAs C isArchiver validators block rollback).2 = .ok removed) :
    (token.rolled rollback).validateBlock C validators (hashed C block) = .ok () ∧
      removed = token.defeatedTip rollback := by
  simp only [commitBlockAs] at h
  cases hv : (token.rolled rollback).validateBlock C validators (hashed C block) with
  | ok _ =>
    simp only [hv] at h
    exact ⟨rfl, (Except.ok.inj h).symm⟩
  | error e =>
    simp only [hv] at h
    split at h <;> cases h

theorem commitBlockAs_getLast?
    (h : (token.rolled rollback).validateBlock C validators (hashed C block) = .ok ()) :
    (token.commitBlockAs C isArchiver validators block rollback).1.chain.getLast? =
      some (hashed C block) := by
  simp only [commitBlockAs, h, List.getLast?_append, List.getLast?_singleton, Option.some_or]

end Token

end Pneumatic
