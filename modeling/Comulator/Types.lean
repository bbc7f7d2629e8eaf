import Mathlib.Algebra.Ring.Int.Defs
import Mathlib.Algebra.Ring.Nat
import Mathlib.Data.List.Basic

namespace Comulator.Types

/-- `llvm::Type`. Identified struct types are kept by their body only, and
pointers are opaque, so that no type is recursive. -/
inductive Ty
  | half | bfloat | float | double | x86Fp80 | fp128 | ppcFp128
  | void | label | metadata | x86Mmx | x86Amx | token
  | integer (bitWidth : Nat)
  | function (ret : Ty) (params : List Ty) (isVarArg : Bool)
  | pointer (addressSpace : Nat)
  | struct (elements : List Ty) (isPacked : Bool)
  | opaqueStruct (name : String)
  | array (element : Ty) (numElements : Nat)
  | fixedVector (element : Ty) (numElements : Nat)
  | scalableVector (element : Ty) (minNumElements : Nat)
  | typedPointer (element : Ty) (addressSpace : Nat)
  | targetExt (name : String)

mutual

def Ty.beq : Ty → Ty → Bool
  | .half, .half | .bfloat, .bfloat | .float, .float | .double, .double | .x86Fp80, .x86Fp80
  | .fp128, .fp128 | .ppcFp128, .ppcFp128 | .void, .void | .label, .label | .metadata, .metadata
  | .x86Mmx, .x86Mmx | .x86Amx, .x86Amx | .token, .token => true
  | .integer m, .integer n | .pointer m, .pointer n => m == n
  | .function r ps v, .function r' ps' v' => r.beq r' && Ty.beqList ps ps' && v == v'
  | .struct es p, .struct es' p' => Ty.beqList es es' && p == p'
  | .opaqueStruct s, .opaqueStruct s' | .targetExt s, .targetExt s' => s == s'
  | .array e n, .array e' n' | .fixedVector e n, .fixedVector e' n'
  | .scalableVector e n, .scalableVector e' n' | .typedPointer e n, .typedPointer e' n' =>
      e.beq e' && n == n'
  | _, _ => false

def Ty.beqList : List Ty → List Ty → Bool
  | [], [] => true
  | t :: ts, t' :: ts' => t.beq t' && Ty.beqList ts ts'
  | _, _ => false

end

mutual

theorem Ty.eq_of_beq : ∀ {s t : Ty}, s.beq t = true → s = t := by
  intro s t h
  cases s <;> cases t <;> simp only [Ty.beq, Bool.and_eq_true, beq_iff_eq, Bool.false_eq_true] at h <;>
    first
    | rfl
    | (subst h; rfl)
    | (obtain ⟨h, rfl⟩ := h; rw [Ty.eq_of_beq h])
    | (obtain ⟨h, rfl⟩ := h; rw [Ty.eq_of_beqList h])
    | (obtain ⟨⟨h, hs⟩, rfl⟩ := h; rw [Ty.eq_of_beq h, Ty.eq_of_beqList hs])

theorem Ty.eq_of_beqList : ∀ {ss ts : List Ty}, Ty.beqList ss ts = true → ss = ts := by
  intro ss ts h
  cases ss <;> cases ts <;> simp only [Ty.beqList, Bool.and_eq_true, Bool.false_eq_true] at h
  · rfl
  · rw [Ty.eq_of_beq h.1, Ty.eq_of_beqList h.2]

end

mutual

theorem Ty.beq_refl : ∀ t : Ty, t.beq t = true := by
  intro t
  cases t with
  | function r ps v => simp [Ty.beq, Ty.beq_refl r, Ty.beqList_refl ps]
  | struct es p => simp [Ty.beq, Ty.beqList_refl es]
  | array e n | fixedVector e n | scalableVector e n | typedPointer e n => simp [Ty.beq, Ty.beq_refl e]
  | _ => simp [Ty.beq]

theorem Ty.beqList_refl : ∀ ts : List Ty, Ty.beqList ts ts = true := by
  intro ts
  cases ts with
  | nil => rfl
  | cons t ts => simp [Ty.beqList, Ty.beq_refl t, Ty.beqList_refl ts]

end

instance : DecidableEq Ty := fun s t =>
  if h : s.beq t = true then isTrue (Ty.eq_of_beq h) else isFalse (fun he => h (he ▸ Ty.beq_refl s))

structure FunctionType where
  ret : Ty
  params : List Ty
  isVarArg : Bool
  deriving DecidableEq

/-- The attribute kinds on which the way an argument or a result is passed
depends, and all others under their number. -/
inductive AttrKind
  | byVal | structRet | inAlloca | preallocated | byRef | inReg | zExt | sExt | stackAlignment
  | swiftSelf | swiftAsync | swiftError | nest
  | other (number : Nat)
  deriving DecidableEq

def AttrKind.isAbi : AttrKind → Bool
  | .other _ => false
  | _ => true

inductive Attribute
  | enum (kind : AttrKind)
  | int (kind : AttrKind) (value : Nat)
  | string (key value : String)
  | type (kind : AttrKind) (ty : Option Ty)
  deriving DecidableEq

def Attribute.isAbi : Attribute → Bool
  | .enum k | .int k _ | .type k _ => k.isAbi
  | .string _ _ => false

abbrev AttributeSet := List Attribute

/-- `llvm::AttributeList` as it is stored: the function's set, then that of the
return value, then those of the parameters, as far as sets are stored. -/
structure AttributeList where
  sets : List AttributeSet
  deriving DecidableEq

/-- `getAttributes(i)`: index 0 is the return value and index i + 1 the i-th
parameter; the function's own set is at the index ~0. -/
def AttributeList.getAttributes (a : AttributeList) (i : Nat) : AttributeSet := a.sets.getD (i + 1) []

def AttributeList.getFnAttrs (a : AttributeList) : AttributeSet := a.sets.getD 0 []

def AttributeList.getNumAttrSets (a : AttributeList) : Nat := a.sets.length

/-- `addAttributesAtIndex`: an empty builder changes nothing; otherwise the
stored array is extended up to the index when it is too short. -/
def AttributeList.addAttributesAtIndex (a : AttributeList) (i : Nat) (attrs : AttributeSet) : AttributeList :=
  if attrs.isEmpty then a
  else
    let padded := a.sets ++ List.replicate (i + 2 - a.sets.length) []
    ⟨padded.set (i + 1) (padded.getD (i + 1) [] ++ attrs)⟩

structure Interface where
  type : FunctionType
  callingConv : Nat
  attrs : Nat → AttributeSet

def Interface.abi (s : Interface) : List AttributeSet :=
  (List.range (s.type.params.length + 1)).map (fun i => (s.attrs i).filter Attribute.isAbi)

def Interface.agrees (s t : Interface) : Bool :=
  s.type = t.type && s.callingConv == t.callingConv && s.abi = t.abi

end Comulator.Types
