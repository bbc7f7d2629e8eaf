import Comulator.Module

namespace Comulator.TypeHash

open Types Ir

abbrev HashCode := Nat

inductive HashArg
  | code (h : HashCode)
  | word (n : Nat)
  | flag (b : Bool)
  | text (s : String)

/-- LLVM's hashing. A `llvm::hash_code` can be made from an integer as it is,
`hash_combine` hashes a list of values, and the numbers of types and attribute
kinds are those of LLVM's enumerations. -/
structure HashOps where
  ofNat : Nat → HashCode
  combine : List HashArg → HashCode
  valueFalse : HashCode
  typeId : Ty → Nat
  attrKind : AttrKind → Nat

variable (H : HashOps)

def hashOptional : Option HashCode → HashCode
  | some h => H.combine [.flag true, .code h]
  | none => H.valueFalse

mutual

def isSized : Ty → Bool
  | .void | .label | .metadata | .token | .function _ _ _ | .opaqueStruct _ => false
  | .struct es _ => isSizedList es
  | .array e _ | .fixedVector e _ | .scalableVector e _ => isSized e
  | _ => true

def isSizedList : List Ty → Bool
  | [] => true
  | t :: ts => isSized t && isSizedList ts

end

mutual

def typeHash : Ty → Option HashCode
  | t@.half | t@.bfloat | t@.float | t@.double | t@.fp128 | t@.void | t@.label | t@.metadata | t@.token =>
      some (H.ofNat (H.typeId t))
  | .x86Fp80 | .ppcFp128 | .x86Mmx | .x86Amx | .typedPointer _ _ | .targetExt _ | .opaqueStruct _ => none
  | t@(.integer w) => some (H.combine [.word (H.typeId t), .word w])
  | t@(.pointer a) => some (H.combine [.word (H.typeId t), .word a])
  | t@(.function r ps v) => do
      let h ← typeHash r
      let h ← paramsHash (H.combine [.code (H.ofNat (H.typeId t)), .code h]) ps
      return H.combine [.code h, .flag v]
  | t@(.struct es p) => do
      let h ← elementsHash (H.ofNat (H.typeId t)) es
      return H.combine [.code h, .flag p, .flag (isSizedList es)]
  | t@(.array e n) | t@(.fixedVector e n) | t@(.scalableVector e n) => do
      let h ← typeHash e
      return H.combine [.code (H.ofNat (H.typeId t)), .code h, .word n]

def paramsHash (acc : HashCode) : List Ty → Option HashCode
  | [] => some acc
  | t :: ts => do
      let h ← typeHash t
      paramsHash (H.combine [.code acc, .code h]) ts

/-- The element hashes enter as optionals, unlike the parameter hashes. -/
def elementsHash (acc : HashCode) : List Ty → Option HashCode
  | [] => some acc
  | t :: ts => do
      let h ← typeHash t
      elementsHash (H.combine [.code acc, .code (hashOptional H (some h))]) ts

end

def functionTypeHash (t : FunctionType) : Option HashCode := typeHash H (.function t.ret t.params t.isVarArg)

/-- `getKindAsEnum` of a string attribute reads the length of its key. -/
def attributeHash : Attribute → HashCode
  | .enum k => H.ofNat (H.attrKind k)
  | .int k v => H.combine [.code (H.ofNat (H.attrKind k)), .word v]
  | .string key value => H.combine [.code (H.ofNat key.length), .text value]
  | .type k ty => H.combine [.code (H.ofNat (H.attrKind k)), .code (hashOptional H (ty.bind (typeHash H)))]

def attributeSetHash (s : AttributeSet) : HashCode :=
  s.foldl (fun h a => H.combine [.code h, .code (attributeHash H a)]) (H.ofNat 200000406)

def attributeListHash (a : AttributeList) : HashCode :=
  a.sets.foldl (fun h s => H.combine [.code h, .code (attributeSetHash H s)]) (H.ofNat 200000906)

/-- The common body of `function_hash` and `call_site_hash`. -/
def signatureHash (t : FunctionType) (a : AttributeList) : Option HashCode := do
  let h ← functionTypeHash H t
  return H.combine [.code (H.combine [.code (H.ofNat 20010313), .code h]), .code (attributeListHash H a)]

def functionHash (f : GFunction) : Option HashCode := signatureHash H f.type f.attributes

def callSiteHash (c : GCall) : Option HashCode := signatureHash H c.functionType c.attributes

def signatures (m : Module) : List (FunctionType × AttributeList) :=
  m.functions.flatMap (fun g => match m.function? g with
    | some f => (f.type, f.attributes) :: (Module.calls f).map (fun c => (c.functionType, c.attributes))
    | none => [])

/-- No two signatures of the module that differ in the function type or in a
return or parameter attribute have the same hash. -/
def CollisionFree (m : Module) : Prop :=
  ∀ s ∈ signatures m, ∀ t ∈ signatures m, ∀ h, signatureHash H s.1 s.2 = some h →
    signatureHash H t.1 t.2 = some h → s.1 = t.1 ∧ s.2.getAttributes = t.2.getAttributes

variable {H} {m : Module} {g : Nat} {f : GFunction}

theorem function_mem_signatures (h : m.function? g = some f) : (f.type, f.attributes) ∈ signatures m := by
  refine List.mem_flatMap.mpr ⟨g, Module.mem_functions h, ?_⟩
  rw [h]
  exact List.mem_cons_self

theorem call_mem_signatures (h : m.function? g = some f) {c : GCall} (hc : c ∈ Module.calls f) :
    (c.functionType, c.attributes) ∈ signatures m := by
  refine List.mem_flatMap.mpr ⟨g, Module.mem_functions h, ?_⟩
  rw [h]
  exact List.mem_cons_of_mem _ (List.mem_map_of_mem hc)

end Comulator.TypeHash
