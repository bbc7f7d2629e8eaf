import Comulator.OrderedMap
import Comulator.TypeHash
import Mathlib.Data.List.GetD

namespace Comulator

open Types

structure FuncBw where
  outline : Option Bool
  analyze : Option Bool
  chopOff : Option Bool
  takeOut : Option Bool

structure BwList where
  funcs : Nat → Option FuncBw
  callees : Nat → Option Bool
  fcpCmChop : Nat → Bool
  fcpCmChopOthers : Bool

def BwList.null : BwList := ⟨fun _ => none, fun _ => none, fun _ => false, false⟩

structure Config where
  debug : Bool
  useGRT : Bool
  useFCP : Bool
  useFCPcm : Bool
  minBasicBlocks : Nat
  minInstructions : Nat

namespace Symtbl

/-- `Symtbl::StubInfo`. The types of the pads are missing where there is nothing
to pass. -/
structure StubInfo where
  uid : Nat
  func : FunctionType
  attrs : AttributeList
  ret : Option Ty
  arg : Option Ty
  deriving DecidableEq

def retType (t : FunctionType) : Option Ty := if t.ret = .void then none else some t.ret

def argType (t : FunctionType) : Option Ty := if t.params.isEmpty then none else some (.struct t.params false)

def StubInfo.ofType (t : FunctionType) : StubInfo := ⟨2 ^ 32 - 1, t, ⟨[]⟩, retType t, argType t⟩

/-- `Symtbl::FuncInfo`. The entry of `mCallingStubs` it points to does not change
any more. -/
structure FuncInfo where
  uid : Nat
  stubType : StubInfo
  extRefArgs : List Nat
  cbStubArgs : List TypeHash.HashCode

structure GrefInfo where
  uid : Nat

def filterAbiAttributes (a : AttributeList) : AttributeList :=
  (List.range (a.getNumAttrSets - 1)).foldl (fun ret i => ret.addAttributesAtIndex i (a.getAttributes i)) ⟨[]⟩

theorem getAttributes_addAttributesAtIndex (a : AttributeList) (i j : Nat) (attrs : AttributeSet) :
    (a.addAttributesAtIndex i attrs).getAttributes j =
      if j = i then a.getAttributes j ++ attrs else a.getAttributes j := by
  cases attrs with
  | nil => simp [AttributeList.addAttributesAtIndex]
  | cons b bs =>
      have hpad : ∀ k, (a.sets ++ List.replicate (i + 2 - a.sets.length) []).getD k [] = a.sets.getD k [] := by
        intro k
        by_cases hk : k < a.sets.length
        · simp [List.getD_eq_getElem?_getD, List.getElem?_append_left hk]
        · rw [List.getD_eq_getElem?_getD, List.getElem?_append_right (Nat.le_of_not_lt hk)]
          rw [List.getD_eq_default _ _ (Nat.le_of_not_lt hk), List.getElem?_replicate]
          split <;> rfl
      have hlen : i + 1 < (a.sets ++ List.replicate (i + 2 - a.sets.length) []).length := by
        rw [List.length_append, List.length_replicate]
        omega
      simp only [AttributeList.addAttributesAtIndex, AttributeList.getAttributes, List.isEmpty_cons,
        Bool.false_eq_true, if_false]
      by_cases hj : j = i
      · subst hj
        rw [if_pos rfl, List.getD_eq_getElem?_getD, List.getElem?_set_self hlen, Option.getD_some, hpad]
      · rw [if_neg hj, List.getD_eq_getElem?_getD, List.getElem?_set_ne (by omega),
          ← List.getD_eq_getElem?_getD, hpad]

theorem getAttributes_filterAbiAttributes (a : AttributeList) (i : Nat) :
    (filterAbiAttributes a).getAttributes i = a.getAttributes i := by
  have hfold : ∀ n, ((List.range n).foldl (fun ret i => ret.addAttributesAtIndex i (a.getAttributes i))
      (⟨[]⟩ : AttributeList)).getAttributes i = if i < n then a.getAttributes i else [] := by
    intro n
    induction n with
    | zero => rfl
    | succ n ih =>
        rw [List.range_succ, List.foldl_append, List.foldl_cons, List.foldl_nil,
          getAttributes_addAttributesAtIndex, ih]
        by_cases hi : i = n
        · subst hi
          simp
        · rw [if_neg hi]
          by_cases hlt : i < n
          · rw [if_pos hlt, if_pos (by omega)]
          · rw [if_neg hlt, if_neg (by omega)]
  rw [filterAbiAttributes, hfold]
  by_cases hi : i < a.getNumAttrSets - 1
  · rw [if_pos hi]
  · rw [if_neg hi, AttributeList.getAttributes, List.getD_eq_default]
    unfold AttributeList.getNumAttrSets at hi
    omega

def Trimmed (a : AttributeList) : Prop := a.sets.getLast? ≠ some []

theorem eq_of_getAttributes {a b : AttributeList} (ha : Trimmed a) (hb : Trimmed b) (hfn : a.getFnAttrs = b.getFnAttrs)
    (h : ∀ i, a.getAttributes i = b.getAttributes i) : a = b := by
  have hsets : ∀ i, a.sets.getD i [] = b.sets.getD i [] := by
    intro i
    cases i with
    | zero => exact hfn
    | succ i => exact h i
  -- the last set of the longer list would be missing in the other
  have hle : ∀ {a b : AttributeList}, Trimmed b → (∀ i, a.sets.getD i [] = b.sets.getD i []) →
      b.sets.length ≤ a.sets.length := by
    intro a b hb hsets
    by_contra hlt
    have hlast := hsets (b.sets.length - 1)
    rw [List.getD_eq_default _ _ (by omega), List.getD_eq_getElem?_getD, ← List.getLast?_eq_getElem?] at hlast
    cases hget : b.sets.getLast? with
    | none =>
        rw [List.getLast?_eq_none_iff] at hget
        rw [hget] at hlt
        exact hlt (Nat.zero_le _)
    | some s =>
        rw [hget, Option.getD_some] at hlast
        rw [← hlast] at hget
        exact hb hget
  have hlen := Nat.le_antisymm (hle ha (fun i => (hsets i).symm)) (hle hb hsets)
  obtain ⟨l⟩ := a
  obtain ⟨l'⟩ := b
  congr 1
  refine List.ext_getElem hlen (fun i hi hi' => ?_)
  have hi := hsets i
  rwa [List.getD_eq_getElem _ _ ‹_›, List.getD_eq_getElem _ _ ‹_›] at hi

structure Filtered (n : Nat) (ret : AttributeList) : Prop where
  trimmed : Trimmed ret
  fnAttrs : ret.getFnAttrs = []
  length : ret.sets.length ≤ n + 1

theorem Filtered.add {n : Nat} {ret : AttributeList} (h : Filtered n ret) (attrs : AttributeSet) :
    Filtered (n + 1) (ret.addAttributesAtIndex n attrs) := by
  unfold AttributeList.addAttributesAtIndex
  split
  next => exact ⟨h.trimmed, h.fnAttrs, Nat.le_succ_of_le h.length⟩
  next hne =>
    have hlen : (ret.sets ++ List.replicate (n + 2 - ret.sets.length) ([] : AttributeSet)).length = n + 2 := by
      have := h.length
      rw [List.length_append, List.length_replicate]
      omega
    dsimp only
    refine ⟨?_, ?_, ?_⟩
    · intro hlast
      have hindex : n + 2 - 1 = n + 1 := rfl
      rw [List.getLast?_eq_getElem?, List.length_set, hlen, hindex, List.getElem?_set_self (by omega),
        Option.some.injEq, List.append_eq_nil_iff] at hlast
      exact hne (List.isEmpty_iff.mpr hlast.2)
    · have hfn := h.fnAttrs
      unfold AttributeList.getFnAttrs at hfn ⊢
      rw [List.getD_eq_getElem?_getD, List.getElem?_set_ne (by omega), ← List.getD_eq_getElem?_getD]
      cases hs : ret.sets with
      | nil => simp
      | cons s l =>
          rw [hs] at hfn
          exact hfn
    · rw [List.length_set, hlen]

theorem filterAbiAttributes_filtered (a : AttributeList) : ∃ n, Filtered n (filterAbiAttributes a) := by
  have hfold : ∀ n, Filtered n ((List.range n).foldl (fun ret i => ret.addAttributesAtIndex i (a.getAttributes i)) ⟨[]⟩) := by
    intro n
    induction n with
    | zero => exact ⟨by simp [Trimmed], rfl, Nat.zero_le _⟩
    | succ n ih =>
        rw [List.range_succ, List.foldl_append]
        exact ih.add _
  exact ⟨_, hfold _⟩

theorem filterAbiAttributes_eq_iff {a b : AttributeList} :
    filterAbiAttributes a = filterAbiAttributes b ↔ ∀ i, a.getAttributes i = b.getAttributes i := by
  constructor
  · intro h i
    rw [← getAttributes_filterAbiAttributes a, h, getAttributes_filterAbiAttributes]
  · intro h
    obtain ⟨_, ha⟩ := filterAbiAttributes_filtered a
    obtain ⟨_, hb⟩ := filterAbiAttributes_filtered b
    refine eq_of_getAttributes ha.trimmed hb.trimmed (ha.fnAttrs.trans hb.fnAttrs.symm) (fun i => ?_)
    rw [getAttributes_filterAbiAttributes, getAttributes_filterAbiAttributes, h]

/-- The attributes of the return value and of each parameter stay, those of the
function go, and that is all there is to the result. -/
theorem filterAbiAttributes_exact (a b : AttributeList) :
    (filterAbiAttributes a).getFnAttrs = [] ∧ (∀ i, (filterAbiAttributes a).getAttributes i = a.getAttributes i) ∧
      filterAbiAttributes (filterAbiAttributes a) = filterAbiAttributes a ∧
      (filterAbiAttributes a = filterAbiAttributes b ↔ ∀ i, a.getAttributes i = b.getAttributes i) := by
  obtain ⟨_, ha⟩ := filterAbiAttributes_filtered a
  refine ⟨ha.fnAttrs, getAttributes_filterAbiAttributes a, ?_, filterAbiAttributes_eq_iff⟩
  exact filterAbiAttributes_eq_iff.mpr (getAttributes_filterAbiAttributes a)

end Symtbl

open Symtbl TypeHash

/-- Functions and global values are known by their position in the module. -/
structure Symtbl where
  uid : Nat
  callingStubs : OrderedMap HashCode StubInfo
  callbackStubs : OrderedMap HashCode StubInfo
  functbl : OrderedMap Nat FuncInfo
  greftbl : OrderedMap Nat GrefInfo

def Symtbl.new (uid : Nat) : Symtbl := ⟨uid, .empty, .empty, .empty, .empty⟩

end Comulator
