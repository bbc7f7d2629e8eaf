import Comulator.SymtblJson

namespace Comulator.JsonText

open SymtblJson

mutual

/-- Values that differ in the order of members only. The names of the members of
an object are distinct and integers have 64 bits. -/
inductive Same : Json → Json → Prop
  | null : Same .null .null
  | boolean (b : Bool) : Same (.boolean b) (.boolean b)
  | integer {n : Int} (h : -2 ^ 63 ≤ n ∧ n < 2 ^ 63) : Same (.integer n) (.integer n)
  | string (s : String) : Same (.string s) (.string s)
  | array {l l' : List Json} (h : SameElements l l') : Same (.array l) (.array l')
  | object {l m l' : List (String × Json)} (hnodup : (l.map Prod.fst).Nodup) (h : SameMembers l m) (hperm : m.Perm l') :
      Same (.object l) (.object l')

inductive SameElements : List Json → List Json → Prop
  | nil : SameElements [] []
  | cons {j j' : Json} {l l' : List Json} (h : Same j j') (hl : SameElements l l') : SameElements (j :: l) (j' :: l')

inductive SameMembers : List (String × Json) → List (String × Json) → Prop
  | nil : SameMembers [] []
  | cons {k : String} {j j' : Json} {l l' : List (String × Json)} (h : Same j j') (hl : SameMembers l l') :
      SameMembers ((k, j) :: l) ((k, j') :: l')

end

def Plain (j : Json) : Prop := Same j j

/-- The JSON libraries of the two languages, with texts left open: `dumps` and `loads` of
Python, which keeps the order of members, and the printer and the parser of LLVM. -/
structure Libraries (Text : Type) where
  dumps : Option Nat → Bool → Json → Text
  loads : Text → Option Json
  print : Json → Text
  parse : Text → Option Json
  loads_dumps : ∀ indent ascii j, Plain j → loads (dumps indent ascii j) = some j
  parse_dumps : ∀ indent ascii j, Plain j → ∃ j', parse (dumps indent ascii j) = some j' ∧ Same j j'
  loads_print : ∀ j, Plain j → ∃ j', loads (print j) = some j' ∧ Same j j'

section Same

variable {l l' m : List (String × Json)} {k : String} {v v' : Json}

theorem SameMembers.keys (h : SameMembers l l') : l'.map Prod.fst = l.map Prod.fst := by
  induction l generalizing l' with
  | nil =>
      cases h
      rfl
  | cons e l ih =>
      cases h with
      | cons h hl => rw [List.map_cons, List.map_cons, ih hl]

theorem SameMembers.of_mem (h : SameMembers l l') (hv : (k, v) ∈ l) : ∃ v', (k, v') ∈ l' ∧ Same v v' := by
  induction l generalizing l' with
  | nil => cases hv
  | cons e l ih =>
      cases h with
      | cons h hl =>
          rcases List.mem_cons.mp hv with heq | hv
          · cases heq
            exact ⟨_, List.mem_cons_self, h⟩
          · obtain ⟨v', hv', hsame⟩ := ih hl hv
            exact ⟨v', List.mem_cons_of_mem _ hv', hsame⟩

theorem SameMembers.mem_of (h : SameMembers l l') (hv : (k, v') ∈ l') : ∃ v, (k, v) ∈ l ∧ Same v v' := by
  induction l generalizing l' with
  | nil =>
      cases h
      cases hv
  | cons e l ih =>
      cases h with
      | cons h hl =>
          rcases List.mem_cons.mp hv with heq | hv
          · cases heq
            exact ⟨_, List.mem_cons_self, h⟩
          · obtain ⟨v, hv, hsame⟩ := ih hl hv
            exact ⟨v, List.mem_cons_of_mem _ hv, hsame⟩

theorem SameMembers.self (h : ∀ e ∈ l, Plain e.2) : SameMembers l l := by
  induction l with
  | nil => exact .nil
  | cons e l ih => exact .cons (h e List.mem_cons_self) (ih (fun d hd => h d (List.mem_cons_of_mem _ hd)))

structure SameObject (l l' : List (String × Json)) : Prop where
  nodup : (l.map Prod.fst).Nodup
  keys : (l'.map Prod.fst).Perm (l.map Prod.fst)
  of_mem : ∀ {k v}, (k, v) ∈ l → ∃ v', (k, v') ∈ l' ∧ Same v v'
  mem_of : ∀ {k v'}, (k, v') ∈ l' → ∃ v, (k, v) ∈ l ∧ Same v v'

theorem Same.exists_object {j : Json} (h : Same (.object l) j) : ∃ l', j = .object l' ∧ SameObject l l' := by
  cases h with
  | @object _ m l' hnodup h hperm =>
      refine ⟨l', rfl, hnodup, ?_, ?_, ?_⟩
      · rw [← h.keys]
        exact (hperm.map Prod.fst).symm
      · intro k v hv
        obtain ⟨v', hv', hsame⟩ := h.of_mem hv
        exact ⟨v', hperm.mem_iff.mp hv', hsame⟩
      · intro k v' hv'
        exact h.mem_of (hperm.mem_iff.mpr hv')

namespace SameObject

variable (h : SameObject l l')
include h

theorem nodup_right : (l'.map Prod.fst).Nodup := h.keys.nodup_iff.mpr h.nodup

theorem lookup_some (hv : l.lookup k = some v) : ∃ v', l'.lookup k = some v' ∧ Same v v' := by
  obtain ⟨v', hv', hsame⟩ := h.of_mem (OrderedMap.mem_of_lookup hv)
  exact ⟨v', OrderedMap.lookup_eq_some_of_mem h.nodup_right hv', hsame⟩

theorem lookup_none (hv : l.lookup k = none) : l'.lookup k = none := by
  cases hv' : l'.lookup k with
  | none => rfl
  | some v' =>
      obtain ⟨v, hmem, _⟩ := h.mem_of (OrderedMap.mem_of_lookup hv')
      rw [OrderedMap.lookup_eq_some_of_mem h.nodup hmem] at hv
      cases hv

end SameObject

theorem SameObject.of_order {D : MemberOrder} (h : SameObject (D.order l) l') : SameObject l l' where
  nodup := ((D.perm l).map Prod.fst).nodup_iff.mp h.nodup
  keys := h.keys.trans ((D.perm l).map Prod.fst)
  of_mem hv := h.of_mem ((D.perm l).mem_iff.mpr hv)
  mem_of hv := by
    obtain ⟨v, hv, hsame⟩ := h.mem_of hv
    exact ⟨v, (D.perm l).mem_iff.mp hv, hsame⟩

theorem Same.exists_ordered {D : MemberOrder} {j : Json} (h : Same (.object (D.order l)) j) :
    ∃ l', j = .object l' ∧ SameObject l l' := by
  obtain ⟨l', rfl, hobject⟩ := h.exists_object
  exact ⟨l', rfl, hobject.of_order⟩

/-- The renamed members of an object, as long as no two names become one. -/
theorem SameObject.renamed {ren : String → String} (h : SameObject l l')
    (hnodup : ((l.map (fun e => (ren e.1, e.2))).map Prod.fst).Nodup) :
    SameObject (l.map (fun e => (ren e.1, e.2))) (l'.map (fun e => (ren e.1, e.2))).reverse where
  nodup := hnodup
  keys := by
    refine ((List.reverse_perm _).map Prod.fst).trans ?_
    have hcomp : ∀ l : List (String × Json), (l.map (fun e => (ren e.1, e.2))).map Prod.fst = (l.map Prod.fst).map ren := by
      intro l
      rw [List.map_map, List.map_map]
      rfl
    rw [hcomp, hcomp]
    exact h.keys.map ren
  of_mem hv := by
    obtain ⟨e, he, heq⟩ := List.mem_map.mp hv
    cases heq
    obtain ⟨v', hv', hsame⟩ := h.of_mem he
    exact ⟨v', List.mem_reverse.mpr (List.mem_map.mpr ⟨_, hv', rfl⟩), hsame⟩
  mem_of hv := by
    obtain ⟨e, he, heq⟩ := List.mem_map.mp (List.mem_reverse.mp hv)
    cases heq
    obtain ⟨v, hv, hsame⟩ := h.mem_of he
    exact ⟨v, List.mem_map.mpr ⟨_, hv, rfl⟩, hsame⟩

theorem SameObject.filter (h : SameObject l l') (hk : k ∉ l.map Prod.fst) : l'.filter (fun e => e.1 ≠ k) = l' := by
  refine List.filter_eq_self.mpr (fun e he => decide_eq_true ?_)
  rintro rfl
  exact hk (h.keys.mem_iff.mp (List.mem_map_of_mem he))

theorem plain_object (hnodup : (l.map Prod.fst).Nodup) (h : ∀ e ∈ l, Plain e.2) : Plain (.object l) :=
  .object hnodup (.self h) (List.Perm.refl l)

theorem plain_order (D : MemberOrder) (hnodup : (l.map Prod.fst).Nodup) (h : ∀ e ∈ l, Plain e.2) :
    Plain (.object (D.order l)) :=
  plain_object (((D.perm l).map Prod.fst).nodup_iff.mpr hnodup) (fun e he => h e ((D.perm l).mem_iff.mp he))

theorem SameElements.strings {names : List String} {l : List Json} (h : SameElements (names.map .string) l) :
    l = names.map .string := by
  induction names generalizing l with
  | nil =>
      cases h
      rfl
  | cons s names ih =>
      cases h with
      | cons hs hl =>
          cases hs
          rw [ih hl, List.map_cons]

theorem plain_strings (l : List String) : Plain (.array (l.map .string)) := by
  refine .array ?_
  induction l with
  | nil => exact .nil
  | cons s l ih => exact .cons (.string s) ih

mutual

theorem Same.right {j j' : Json} (h : Same j j') : Plain j' := by
  cases h with
  | null => exact .null
  | boolean b => exact .boolean b
  | integer h => exact .integer h
  | string s => exact .string s
  | array h => exact .array h.right
  | object hnodup h hperm =>
      refine plain_object ?_ (fun e he => h.right e (hperm.mem_iff.mpr he))
      rw [← (hperm.map Prod.fst).nodup_iff, h.keys]
      exact hnodup

theorem SameElements.right {l l' : List Json} (h : SameElements l l') : SameElements l' l' := by
  cases h with
  | nil => exact .nil
  | cons h hl => exact .cons h.right hl.right

theorem SameMembers.right {l l' : List (String × Json)} (h : SameMembers l l') : ∀ e ∈ l', Plain e.2 := by
  cases h with
  | nil => exact fun _ he => absurd he List.not_mem_nil
  | cons h hl =>
      intro e he
      rcases List.mem_cons.mp he with rfl | he
      · exact h.right
      · exact hl.right e he

end

end Same

end Comulator.JsonText
