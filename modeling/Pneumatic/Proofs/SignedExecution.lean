import Mathlib.Tactic.DeriveCountable
import Pneumatic.Executor.Execution
import Pneumatic.Lib.Words
import Pneumatic.Proofs.PoolRepresentation

/-!
# What of a transaction reaches the engine

The sender signs the canonical fields of a transaction, and `execute_contract` means to
run "the transaction the sender signed": it takes the routing decision out before the
transaction is serialized for the engine. Of the fields outside of the signature there
is one more, the execution result, and that one stays in.
-/

namespace Pneumatic

open Words

variable {C : Codec} {K : ContractCodec} {M : EngineCodec}

/-- The engine is given the same for both transactions, and the same comes out, on any
contract and with any answers of the data service. -/
def SameExecution (K : ContractCodec) (M : EngineCodec) (tx₁ tx₂ : Transaction) : Prop :=
  ∀ (registry : ContractEngineRegistry) (reads : DataReads) (contract : SmartContract)
      (token : Token) (user : User),
    (executionInput tx₁ contract token user).canonicalBytes M =
        (executionInput tx₂ contract token user).canonicalBytes M ∧
      (executionInput tx₁ contract token user).storage =
        (executionInput tx₂ contract token user).storage ∧
      executeContract K M registry reads tx₁ token user =
        executeContract K M registry reads tx₂ token user

/-- What the signature and the signed fields leave open. -/
theorem Transaction.eq_of_canonical {tx₁ tx₂ : Transaction} (hc : tx₁.canonical = tx₂.canonical)
    (hs : tx₁.senderSignature = tx₂.senderSignature) :
    tx₁ = { tx₂ with resultData := tx₁.resultData, selection := tx₁.selection } := by
  cases tx₁
  cases tx₂
  simp only [Transaction.canonical, CanonicalTransaction.mk.injEq] at hc
  simp_all

/-- Two transactions that a sender signed alike run alike just when they carry the same
result. -/
theorem sameExecution_iff {tx₁ tx₂ : Transaction}
    (hcanonical : Function.Injective C.rmpCanonicalTransaction)
    (hinput : Function.Injective M.rmpExecutionInput)
    (hsigned : tx₁.canonicalSignatureBytes C = tx₂.canonicalSignatureBytes C)
    (hsignature : tx₁.senderSignature = tx₂.senderSignature) :
    SameExecution K M tx₁ tx₂ ↔ tx₁.resultData = tx₂.resultData := by
  have hf := Transaction.eq_of_canonical (hcanonical hsigned) hsignature
  constructor
  · intro h
    -- any contract, token and user will do
    obtain ⟨hb, -, -⟩ := h ⟨[]⟩ ⟨fun _ => .error "", fun _ => .error ""⟩
      ⟨"", [], "", ∅, [], 0⟩ ⟨[], ∅, [], 0, "", 0, none⟩ ⟨[], 0, 0, 0⟩
    have hd := congrArg (fun canon => canon.tx.resultData) (hinput hb)
    exact hd
  · intro hr r reads c token user
    have hi : ∀ c, executionInput tx₁ c token user =
        executionInput tx₂ c token user := by
      intro c
      rw [hf, hr]
      rfl
    refine ⟨?_, rfl, ?_⟩
    · rw [hi c]
    · unfold executeContract
      simp only [hi]

deriving instance Countable for Bid
deriving instance Countable for SelectionRecord
deriving instance Countable for Transaction
deriving instance Countable for CanonicalTransaction
deriving instance Countable for ExecutionInputCanon

namespace Echo

open ShieldedPool

/-- A call as the sender signed it, with a result that somebody has put in. -/
def call (resultData : Bytes) (selection : Option SelectionRecord) : Transaction :=
  { (default : Transaction) with
    id := "call"
    action := "ContractCall"
    tokenId := [9]
    sender := [5]
    resultData := resultData
    selection := selection }

def contract : SmartContract := ⟨"echo", [], "1", ∅, [], 0⟩

def token : Token :=
  { id := [9]
    metadata := (∅ : Finmap fun _ : String => String).insert "contract_engine" "Wasm"
    chain := []
    securityLevel := 5
    blockValidationSpecName := ""
    sequenceNumber := 0
    assetData := some [] }

def user : User := ⟨[5], 0, 0, 0⟩

/-- The two inputs in which nothing but the result differs. -/
def book : List (ExecutionInputCanon × Bytes) :=
  [((executionInput (call [] none) contract token user).canon, [1]),
    ((executionInput (call [7] none) contract token user).canon, [2])]

def module : WasmModule where
  exports := [("__alloc", .func [.i32] [.i32]), ("memory", .memory),
    ("execute", .func [.i32, .i32, .i32, .i32] [.i32])]
  imports := []
  instantiate := .ok
    { entryCost := 1
      entryCost_pos := by decide
      entryCost_le := by decide
      program := fun bytes => .finish bytes.length bytes 65536 }

noncomputable def engines : EngineCodec where
  rmpExecutionInput := listed book
  rmpTransferDelta _ := []
  rmpWasmResult result := result.moduleOutput
  rmpDigestInput _ _ _ _ _ := []
  decodeTransferDelta _ := none
  decodeProgram _ := .error ""
  compileModule _ := .ok module

theorem engines_injective : Function.Injective engines.rmpExecutionInput := by
  refine listed_injective (by decide) ?_
  intro tail hmem
  simp [book] at hmem

noncomputable def codec : Codec :=
  { sampleCodec with rmpCanonicalTransaction := word }

def contracts : ContractCodec where
  rmpSmartContract _ := []
  rmpDeployId _ _ _ _ := []
  rmpCreateTokenDelta _ := []
  rmpReplaceAssetDelta _ := []
  decodeSmartContract _ := some contract
  decodeDeployParams _ := none
  decodeUpgradeParams _ := none
  decodeWasmResult _ := none

def registry : ContractEngineRegistry := ⟨[.transfer, .spec, .wasm]⟩

def reads : DataReads := ⟨fun _ => .ok token, fun _ => .ok user⟩

/-- The sender signed the same, and the contract computes something else. -/
theorem result_data_changes_result : (call [] none).canonicalSignatureBytes codec =
        (call [7] none).canonicalSignatureBytes codec ∧
      (call [] none).senderSignature = (call [7] none).senderSignature ∧
      executeContract contracts engines registry reads (call [] none) token user = .ok ⟨[1], 1⟩ ∧
      executeContract contracts engines registry reads (call [7] none) token user = .ok ⟨[2], 1⟩ ∧
      ¬ SameExecution contracts engines (call [] none) (call [7] none) := by
  have hf : executeContract contracts engines registry reads (call [] none) token
      user = .ok ⟨[1], 1⟩ := by
    decide +kernel
  have hs : executeContract contracts engines registry reads (call [7] none) token
      user = .ok ⟨[2], 1⟩ := by
    decide +kernel
  refine ⟨rfl, rfl, hf, hs, fun hsm => ?_⟩
  have hr := (hsm registry reads contract token user).2.2
  cases hr

/-- The routing decision does not reach the engine. -/
theorem selection_ignored : SameExecution contracts engines (call [7] none)
      (call [7] (some ⟨[1], 2, [3], [4], [5]⟩)) :=
  (sameExecution_iff (C := codec) word_injective engines_injective rfl rfl).mpr rfl

end Echo

end Pneumatic
