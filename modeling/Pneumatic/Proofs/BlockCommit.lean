import Pneumatic.Committer.Quoruming
import Pneumatic.Proofs.ChainInvariant
import Pneumatic.Proofs.RecordsOutcome

/-!
# One block on a token

`Token::commit_block` rolls back, validates, trims and appends, and a refused block
leaves nothing behind: the tip that was taken off goes back on. So the tip that the fast
path reads off the last block is the one the full walk finds, on every chain the mutators
can build.

`BlockServices::commit_block` calls it on the cached token and saves afterwards. Nothing
takes the block off again when the save fails.
-/

namespace Pneumatic

open Handler HandlerM Run Finmap List

variable {C : Codec}

namespace Token

variable {isArchiver : Bool} {validators : BlockValidators} {token : Token} {block : Block}
  {rollback : Option Bytes}

/-- The chain a matching rollback leaves is below the cap, so it is not trimmed. -/
theorem keptChain_rolled_tip {tip : Block} (hcap : token.chain.length ≤ token.securityLevel)
    (htip : token.chain.getLast? = some tip) (hr : rollback = some tip.currentHash) :
    (token.rolled rollback).keptChain isArchiver = token.chain.dropLast := by
  have hrl : token.rolled rollback = { token with chain := token.chain.dropLast } := by
    simp only [rolled, defeatedTip, hr, cachedTip, htip, if_true]
  have hpos := length_pos_of_ne_nil fun h : token.chain = [] => by simp [h] at htip
  rw [hrl, keptChain, if_neg]
  rintro ⟨-, hf⟩
  simp only [length_dropLast] at hf
  omega

theorem rolled_of_no_tip
    (ho : ∀ tip, token.chain.getLast? = some tip → rollback ≠ some tip.currentHash) :
    token.rolled rollback = token := by
  cases hd : token.defeatedTip rollback with
  | none => simp only [rolled, hd]
  | some tip =>
    exact absurd (rollback_of_defeatedTip hd) (ho tip (getLast?_of_defeatedTip hd))

/-- `Token::commit_block` on a valid chain within its cap: a refused block changes nothing;
an accepted one replaces the tip it names, or goes on the chain, which is trimmed if it
was full; the chain is valid again. -/
theorem commitBlockAs_atomic (hvalid : ValidChain C token.chain)
    (hcap : token.chain.length ≤ token.securityLevel) :
    let after := token.commitBlockAs C isArchiver validators block rollback
    let grown := fun chain => { token with
      chain := chain ++ [hashed C block], sequenceNumber := token.sequenceNumber + 1 }
    (∀ e, after.2 = .error e → after.1 = token) ∧
    (∀ r, after.2 = .ok r → ValidChain C after.1.chain ∧
      (∀ tip, token.chain.getLast? = some tip → rollback = some tip.currentHash →
        after.1 = grown token.chain.dropLast) ∧
      ((∀ tip, token.chain.getLast? = some tip → rollback ≠ some tip.currentHash) →
        after.1 = grown (if token.chain.length = token.securityLevel ∧ isArchiver = false
          then token.chain.tail else token.chain))) := by
  refine ⟨fun e h => commitBlockAs_error h, fun r h => ?_⟩
  obtain ⟨ha, -⟩ := commitBlockAs_ok h
  have heq := @commitBlockAs_of_accepted C block rollback token validators isArchiver ha
  refine ⟨commitBlockAs_valid hvalid ha, fun tip htip hr => ?_, fun ho => ?_⟩
  · rw [heq, keptChain_rolled_tip hcap htip hr]
  · rw [heq, rolled_of_no_tip ho, keptChain, drop_one]
    simp only [and_comm, eq_comm]

def fullToken : Token := { emptyToken with chain := [firstBlock], securityLevel := 1 }

theorem commitBlockAs_full :
    let after := fullToken.commitBlockAs gossipCodec false sampleCommitter.validators nextBlock none
    after.2 = .ok none ∧ after.1 =
      { fullToken with chain := [hashed gossipCodec nextBlock], sequenceNumber := 1 } := by
  have ha : (fullToken.commitBlockAs gossipCodec false sampleCommitter.validators nextBlock
      none).2 = .ok none := by
    decide +kernel
  have hv : ValidChain gossipCodec fullToken.chain := by
    unfold ValidChain
    decide +kernel
  have hcap : fullToken.chain.length ≤ fullToken.securityLevel := Nat.le_refl 1
  exact ⟨ha, ((commitBlockAs_atomic hv hcap).2 none ha).2.2 fun _ _ h => by cases h⟩

inductive ChainCall where
  | appendValidatedBlock (block : Block)
  | removeBlock
  | removeOldest
  | setFinalityStatus (blockHash : Bytes) (status : FinalityStatus)
  | commitBlock (isArchiver : Bool) (validators : BlockValidators) (block : Block)
    (rollbackTipHash : Option Bytes)

def chainStep (C : Codec) (token : Token) : ChainCall → Token
  | .appendValidatedBlock block =>
    { token with chain := (appendValidatedBlock C token.chain block).1 }
  | .removeBlock => { token with chain := token.chain.dropLast }
  | .removeOldest => { token with chain := token.chain.drop 1 }
  | .setFinalityStatus blockHash status =>
    { token with chain := setFinalityStatus blockHash status token.chain }
  | .commitBlock isArchiver validators block rollbackTipHash =>
    (token.commitBlockAs C isArchiver validators block rollbackTipHash).1

end Token

variable {chain : List Block} {block : Block}

section

variable (h : ValidChain C chain)

include h

/-- A block's finality status is no part of its hash. -/
theorem ValidChain.setFinalityStatus (blockHash : Bytes)
    (status : FinalityStatus) : ValidChain C (setFinalityStatus blockHash status chain) := by
  have hmap : (Pneumatic.setFinalityStatus blockHash status chain).map
      ({ · with finalityStatus := status }) = chain.map ({ · with finalityStatus := status }) := by
    induction chain with
    | nil => rfl
    | cons first rest ih =>
      rw [Pneumatic.setFinalityStatus]
      split
      · rfl
      · rw [map_cons, map_cons, ih (h.drop 1)]
  have hs : ∀ chain : List Block,
      ValidChain C (chain.map ({ · with finalityStatus := status })) ↔ ValidChain C chain := by
    intro chain
    rw [validChain_iff, validChain_iff, forall_mem_map, isChain_map]
    rfl
  rw [← hs, hmap, hs]
  exact h

theorem ValidChain.state_eq : currentChainState C chain = some (cachedTip chain) := by
  obtain ⟨tip, htip⟩ := Option.isSome_iff_exists.mp h
  rw [htip, cachedTip_of_currentChainState htip]

theorem ValidChain.validateNextBlock_iff : validateNextBlock C chain block = true ↔
      links (cachedTip chain) block = true ∧ createHash C block = block.currentHash := by
  rw [validateNextBlock, h.state_eq]
  simp only [Bool.and_eq_true, beq_iff_eq]

theorem ValidChain.appendValidatedBlock_eq (block : Block) :
    (appendValidatedBlock C chain block).1 =
      if validateNextBlock C chain block = true then chain ++ [block] else chain := by
  simp only [h.validateNextBlock_iff, appendValidatedBlock]
  cases links (cachedTip chain) block with
  | false => simp
  | true =>
    simp only [true_and, Bool.true_eq_false, if_false]
    split
    · rfl
    · next heq => rw [if_pos (not_not.mp heq)]

end

theorem Token.chainStep_valid (token : Token) (call : ChainCall)
    (h : ValidChain C token.chain) : ValidChain C (token.chainStep C call).chain := by
  cases call with
  | appendValidatedBlock block =>
    rw [chainStep, h.appendValidatedBlock_eq]
    split
    · next hn =>
      obtain ⟨hl, hh⟩ := h.validateNextBlock_iff.mp hn
      exact h.append_kept hl hh (.inl rfl)
    · exact h
  | removeBlock => exact h.dropLast
  | removeOldest => exact h.drop 1
  | setFinalityStatus bh s => exact h.setFinalityStatus bh s
  | commitBlock isArchiver validators block rollback =>
    cases hr : (token.commitBlockAs C isArchiver validators block rollback).2 with
    | error e =>
      rw [chainStep, commitBlockAs_error hr]
      exact h
    | ok r => exact commitBlockAs_valid h (commitBlockAs_ok hr).1

/-- On every chain that the calls build from the empty one, the full walk finds the chain
valid with the tip that the last block carries, and the fast append is the full one. -/
theorem Token.fast_path_agrees (token : Token) (calls : List ChainCall) :
    let chain := (run (chainStep C) { token with chain := [] } calls).chain
    currentChainState C chain = some (cachedTip chain) ∧
      ∀ block, (appendValidatedBlock C chain block).1 =
        if validateNextBlock C chain block = true then chain ++ [block] else chain := by
  have hv := @run_invariant_of_step _ _ (chainStep C) (fun token => ValidChain C token.chain)
    { token with chain := [] } (fun token call => token.chainStep_valid call) calls validChain_nil
  exact ⟨hv.state_eq, hv.appendValidatedBlock_eq⟩

section Save

variable {K : ContractCodec} {cfg : RecordsConfig} {around : Surroundings} {faults : Faults}
  {n : CommitterNode} {commit : TransactionCommit} {rollback : Option Bytes}

/-- A block that is not saved is on the cached chain all the same. -/
theorem Lands.not_warmed {world : CommitterWorld} {tokens : TokenMap}
    {token : Token} (h : Lands C cfg world tokens commit rollback token) :
    ¬ Warmed world tokens (tokens.insert commit.tokenId
      (token.commitBlock C cfg.validators commit.proposedBlock rollback).1) := by
  intro hw
  have hs := Option.some.inj (h.cached.symm.trans (hw.only _ _ (lookup_insert _)))
  have hn := congrArg Token.sequenceNumber hs
  rw [Token.commitBlock_of_accepted h.accepted] at hn
  exact absurd hn (Nat.ne_of_lt (Nat.lt_succ_self _))

/-- A call that fails leaves the cached tokens, and one that returns leaves the cached token
as the provider has it, unless a block lands whose save fails. -/
theorem CommitterNode.commitBlock_stored_iff :
    Ends (commitBlock C K cfg around faults commit rollback) n
      (fun _ n' => ∃ token, n'.base.tokens.lookup commit.tokenId = some token ∧
        n'.records.tokens.lookup (cfg.tokenPartitionId, commit.tokenId) = some token)
      (fun _ n' => Warmed (n.world C K cfg around faults) n.base.tokens n'.base.tokens) ↔
    (faults.saveToken = true → commit.envId = cfg.environmentId →
      ∀ token, ¬ Lands C cfg (n.world C K cfg around faults) n.base.tokens
        commit rollback token) := by
  constructor
  · intro he hf henv token hl
    have hlf : Ends (commitBlock C K cfg around faults commit rollback) n (fun _ _ => False)
        fun _ n' => n'.base.tokens = n.base.tokens.insert commit.tokenId
          (token.commitBlock C cfg.validators commit.proposedBlock rollback).1 := by
      refine ends_commitBlock (fun token' _ hl' => ⟨fun hs => ?_, fun _ _ => ?_⟩)
        (fun _ _ hnot _ => absurd ⟨henv, token, hl⟩ hnot)
      · cases hf.symm.trans hs
      · obtain rfl := Option.mem_unique hl.cached hl'.cached
        rfl
    rw [ends_iff_exec] at he hlf
    cases hv : ((commitBlock C K cfg around faults commit rollback).exec n).1 with
    | ok _ => exact hlf.1 _ hv
    | error e =>
      refine hl.not_warmed ?_
      rw [← hlf.2 e hv]
      exact he.2 e hv
  · intro hn
    refine ends_commitBlock (fun token henv hl => ⟨fun _ => ?_, fun hf => ?_⟩) (fun _ _ _ hw => hw)
    · exact ⟨_, lookup_insert _, lookup_insert _⟩
    · exact absurd hl (hn hf henv token)

/-- A first block on a cached token, with a save that fails. -/
theorem CommitterNode.unsaved_block_stays :
    let n := { bootNode with
      base := { bootState with tokens := bootState.tokens.insert [7] emptyToken } }
    let after := (commitBlock ShieldedPool.sampleCodec sampleContracts sampleRecords
      sampleSurroundings { Faults.none with saveToken := true } (plainCommit "a") none).exec n
    n.base.tokens.lookup [7] = some emptyToken ∧ after.1 = .error (.tokenPersist [7]) ∧
      (after.2.base.tokens.lookup [7]).map (·.chain.length) = some 1 ∧
      (after.2.records.tokens.lookup ("tokens", [7])).map (·.chain.length) = some 0 := by
  decide +kernel

end Save

end Pneumatic
