import Pneumatic.Committer.ShieldedPool

/-!
# The roles' view of the pool

On a composite host the Sentinel and the Finalizer read the Committer's pool
through `ShieldedPoolView`: the nullifier set is the live one, the root history
is the one captured when the pool was constructed. Both run the `"Shielded"`
validation spec over that view before they do anything else with a transfer,
and both refuse with `UnsupportedAction` where the environment did not register
the spec.
-/

namespace Pneumatic

structure ShieldedPoolView where
  nullifierSet : Finset Bytes32
  rootHistory : List RootSnapshot

/-- `impl ShieldedPoolView for ShieldedPool`. -/
def ShieldedPool.view (pool : ShieldedPool) : ShieldedPoolView where
  nullifierSet := pool.nullifiers
  rootHistory := pool.viewRoots.roots

variable (P : ShieldedPrimitives)

section

variable (env : EnvironmentMetadata) (view : ShieldedPoolView) (stx : ShieldedTransaction)

/-- The lookup of the spec and its run over a role's view, which the two roles
share. -/
def roleValidation : Except PneumaticError TransactionValidationResult :=
  if env.shieldedSpec then
    validateShielded P env
      { spent := view.nullifierSet
        roots := view.rootHistory
        recencyWindow := env.shieldedRootRecency } stx
  else .error (.validation [.unsupportedAction])

/-- The shielded validation of the Sentinel's `handle_shielded_transfer`. -/
def handleShieldedTransferValidation : Except PneumaticError TransactionValidationResult :=
  roleValidation P env view stx

/-- The Finalizer's `validate_shielded_advisory`. -/
def validateShieldedAdvisory : Except PneumaticError Unit :=
  (roleValidation P env view stx).map (fun _ => ())

end

end Pneumatic
