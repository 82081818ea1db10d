import Pneumatic.Contracts.Engine

/-!
# The walk through a Wasm module

`contracts/scan.rs`: before code is accepted as a contract a Wasm module is walked through,
and what is counted on the way decides which findings there are. The parser of modules is
outside of the repository: a module is the list of the payloads it finds, up to the end.
-/

namespace Pneumatic

/-- The operators the walk tells apart. -/
inductive WasmOperator where
  | float
  | memoryGrow
  | loop
  | endBlock
  | other
deriving DecidableEq

/-- The payloads the walk looks at. The operators of a body are those up to the first
that cannot be read, `none` if there is no reader of them; entries of a section that
cannot be read are not listed. -/
inductive WasmPayload where
  | importSection (imports : List (String × String))
  | exportSection (names : List String)
  | codeSectionEntry (operators : Option (List WasmOperator))
  | dataSection (sizes : List Nat)
  | customSection (size : Nat)
  | other

structure WasmWalkState where
  badImport : Bool
  floatOp : Bool
  extraExport : Bool
  memoryGrow : Nat
  dataBytes : Nat
  customBytes : Nat
  totalFunctions : Nat
  totalOpcodes : Nat
  maxLoopNesting : Nat

namespace WasmWalkState

def start : WasmWalkState := ⟨false, false, false, 0, 0, 0, 0, 0, 0⟩

/-- The loop over the operators of a body, inside so many loops. -/
def walkOperators : List WasmOperator → Nat → WasmWalkState → WasmWalkState
  | [], _, s => s
  | op :: rest, nesting, s =>
    let s := { s with totalOpcodes := s.totalOpcodes + 1 }
    match op with
    | .float => walkOperators rest nesting { s with floatOp := true }
    | .memoryGrow => walkOperators rest nesting { s with memoryGrow := s.memoryGrow + 1 }
    | .loop => walkOperators rest (nesting + 1)
        { s with maxLoopNesting := max (nesting + 1) s.maxLoopNesting }
    | .endBlock => walkOperators rest (nesting - 1) s
    | .other => walkOperators rest nesting s

def walkPayload (s : WasmWalkState) : WasmPayload → WasmWalkState
  | .importSection imports =>
    { s with
      badImport := s.badImport || imports.any fun entry =>
        entry.1 != "env" || !allowedEnvImports.contains entry.2 }
  | .exportSection names =>
    { s with
      extraExport := s.extraExport || names.any fun name =>
        name != "__alloc" && name != "execute" }
  | .codeSectionEntry operators =>
    let s := { s with totalFunctions := s.totalFunctions + 1 }
    match operators with
    | none => s
    | some operators => walkOperators operators 0 s
  | .dataSection sizes => { s with dataBytes := s.dataBytes + sizes.sum }
  | .customSection size => { s with customBytes := s.customBytes + size }
  | .other => s

end WasmWalkState

end Pneumatic
