import Mathlib.Data.List.Perm.Basic
import Mathlib.Data.List.Nodup
import Mathlib.Data.List.Range

namespace Comulator

structure OrderedMap (K V : Type) where
  entries : List (K × V)
  nodup : (entries.map Prod.fst).Nodup

namespace OrderedMap

variable {K V : Type}

def empty : OrderedMap K V := ⟨[], List.nodup_nil⟩

def size (m : OrderedMap K V) : Nat := m.entries.length

def insertEntry (before : K → K → Bool) (e : K × V) : List (K × V) → List (K × V)
  | [] => [e]
  | d :: l => if before e.1 d.1 then e :: d :: l else d :: insertEntry before e l

theorem insertEntry_perm (before : K → K → Bool) (e : K × V) (l : List (K × V)) :
    (insertEntry before e l).Perm (e :: l) := by
  induction l with
  | nil => exact List.Perm.refl _
  | cons d l ih =>
      unfold insertEntry
      by_cases h : before e.1 d.1 = true
      · rw [if_pos h]
      · rw [if_neg h]
        exact (ih.cons d).trans (List.Perm.swap e d l)

variable [DecidableEq K]

def find? (m : OrderedMap K V) (k : K) : Option V := m.entries.lookup k

theorem lookup_eq_some_of_mem {l : List (K × V)} (hl : (l.map Prod.fst).Nodup) {k : K} {v : V}
    (h : (k, v) ∈ l) : l.lookup k = some v := by
  induction l with
  | nil => cases h
  | cons d l ih =>
      rw [List.map_cons, List.nodup_cons] at hl
      rcases List.mem_cons.mp h with rfl | h
      · rw [List.lookup_cons, beq_self_eq_true]
      · have hne : k ≠ d.1 := by
          rintro rfl
          exact hl.1 (List.mem_map.mpr ⟨_, h, rfl⟩)
        rw [List.lookup_cons, beq_false_of_ne hne]
        exact ih hl.2 h

theorem mem_of_lookup {l : List (K × V)} {k : K} {v : V} (h : l.lookup k = some v) : (k, v) ∈ l := by
  induction l with
  | nil => cases h
  | cons d l ih =>
      rw [List.lookup_cons] at h
      by_cases hk : k = d.1
      · subst hk
        simp only [beq_self_eq_true, Option.some.injEq] at h
        exact List.mem_cons.mpr (.inl (by rw [← h]))
      · rw [beq_false_of_ne hk] at h
        exact List.mem_cons_of_mem _ (ih h)

theorem mem_entries {m : OrderedMap K V} {k : K} {v : V} : (k, v) ∈ m.entries ↔ m.find? k = some v :=
  ⟨lookup_eq_some_of_mem m.nodup, mem_of_lookup⟩

theorem find?_eq_none {m : OrderedMap K V} {k : K} : m.find? k = none ↔ k ∉ m.entries.map Prod.fst := by
  constructor
  · intro h hk
    obtain ⟨⟨k', v⟩, hmem, rfl⟩ := List.mem_map.mp hk
    rw [mem_entries.mp hmem] at h
    cases h
  · intro h
    cases hv : m.find? k with
    | none => rfl
    | some v => exact absurd (List.mem_map.mpr ⟨(k, v), mem_entries.mpr hv, rfl⟩) h

def tryEmplace (before : K → K → Bool) (m : OrderedMap K V) (k : K) (v : V) : OrderedMap K V :=
  if h : m.find? k = none then
    ⟨insertEntry before (k, v) m.entries, by
      rw [((insertEntry_perm before (k, v) m.entries).map Prod.fst).nodup_iff, List.map_cons, List.nodup_cons]
      exact ⟨find?_eq_none.mp h, m.nodup⟩⟩
  else m

theorem nodup_assign (m : OrderedMap K V) (k : K) (v : V) :
    ((m.entries.filter (fun e => e.1 ≠ k) ++ [(k, v)]).map Prod.fst).Nodup := by
  rw [List.map_append, List.map_singleton, List.nodup_append]
  refine ⟨m.nodup.sublist (List.filter_sublist.map Prod.fst), List.nodup_singleton k, ?_⟩
  intro a ha b hb heq
  obtain ⟨e, he, rfl⟩ := List.mem_map.mp ha
  exact of_decide_eq_true (List.mem_filter.mp he).2 (heq.trans (List.mem_singleton.mp hb))

def assign (m : OrderedMap K V) (k : K) (v : V) : OrderedMap K V :=
  ⟨m.entries.filter (fun e => e.1 ≠ k) ++ [(k, v)], m.nodup_assign k v⟩

variable {before : K → K → Bool} {m : OrderedMap K V} {k : K} {v : V}

theorem entries_tryEmplace (h : m.find? k = none) :
    (m.tryEmplace before k v).entries.Perm ((k, v) :: m.entries) := by
  unfold tryEmplace
  rw [dif_pos h]
  exact insertEntry_perm _ _ _

theorem tryEmplace_of_some {u : V} (h : m.find? k = some u) : m.tryEmplace before k v = m := by
  unfold tryEmplace
  rw [dif_neg (by simp [h])]

theorem find?_tryEmplace_self : (m.tryEmplace before k v).find? k = some ((m.find? k).getD v) := by
  cases h : m.find? k with
  | none =>
      refine mem_entries.mp ((entries_tryEmplace h).mem_iff.mpr ?_)
      exact List.mem_cons_self
  | some u => rw [tryEmplace_of_some h, h, Option.getD_some]

theorem find?_tryEmplace_of_ne {k' : K} (hne : k' ≠ k) :
    (m.tryEmplace before k v).find? k' = m.find? k' := by
  cases h : m.find? k with
  | none =>
      refine Option.ext (fun u => ?_)
      rw [← mem_entries, ← mem_entries, (entries_tryEmplace h).mem_iff, List.mem_cons, Prod.mk.injEq]
      simp [hne]
  | some u => rw [tryEmplace_of_some h]

theorem size_tryEmplace (h : m.find? k = none) : (m.tryEmplace before k v).size = m.size + 1 :=
  (entries_tryEmplace h).length_eq

theorem find?_assign (m : OrderedMap K V) (k : K) (v : V) (k' : K) :
    (m.assign k v).find? k' = if k' = k then some v else m.find? k' := by
  refine Option.ext (fun u => ?_)
  rw [← mem_entries, assign, List.mem_append, List.mem_filter, List.mem_singleton, mem_entries, Prod.mk.injEq]
  by_cases hk : k' = k
  · subst hk
    simp [eq_comm]
  · simp [hk]

inductive Built (before : K → K → Bool) : OrderedMap K V → Prop
  | empty : Built before empty
  | tryEmplace {m : OrderedMap K V} (h : Built before m) (k : K) (v : V) : Built before (m.tryEmplace before k v)

structure StrictOrder (before : K → K → Bool) : Prop where
  trans : ∀ {a b c}, before a b = true → before b c = true → before a c = true
  total : ∀ {a b}, a ≠ b → before a b = true ∨ before b a = true
  asymm : ∀ {a b}, before a b = true → before b a = false

omit [DecidableEq K] in
theorem insertEntry_sorted (hbefore : StrictOrder before) {e : K × V} {l : List (K × V)}
    (hl : l.Pairwise (fun d d' => before d.1 d'.1 = true)) (hnew : ∀ d ∈ l, e.1 ≠ d.1) :
    (insertEntry before e l).Pairwise (fun d d' => before d.1 d'.1 = true) := by
  induction l with
  | nil => exact List.pairwise_singleton _ _
  | cons d l ih =>
      obtain ⟨hd, hl⟩ := List.pairwise_cons.mp hl
      unfold insertEntry
      by_cases hed : before e.1 d.1 = true
      · rw [if_pos hed]
        refine List.pairwise_cons.mpr ⟨List.forall_mem_cons.mpr ⟨hed, fun d' hd' => ?_⟩, List.pairwise_cons.mpr ⟨hd, hl⟩⟩
        exact hbefore.trans hed (hd d' hd')
      · rw [if_neg hed]
        refine List.pairwise_cons.mpr ⟨fun d' hd' => ?_, ih hl (fun d' hd' => hnew d' (List.mem_cons_of_mem _ hd'))⟩
        rcases List.mem_cons.mp ((insertEntry_perm before e l).mem_iff.mp hd') with rfl | hd'
        · exact (hbefore.total (hnew d List.mem_cons_self)).resolve_left hed
        · exact hd d' hd'

theorem Built.sorted (hbefore : StrictOrder before) (h : Built before m) :
    m.entries.Pairwise (fun d d' => before d.1 d'.1 = true) := by
  induction h with
  | empty => exact .nil
  | @tryEmplace m _ k v ih =>
      cases hk : m.find? k with
      | some u =>
          rw [tryEmplace_of_some hk]
          exact ih
      | none =>
          unfold OrderedMap.tryEmplace
          rw [dif_pos hk]
          refine insertEntry_sorted hbefore ih (fun d hd heq => ?_)
          exact find?_eq_none.mp hk (List.mem_map.mpr ⟨d, hd, heq.symm⟩)

/-- In one order the entries are all there is to a map. -/
theorem Built.entries_eq {m' : OrderedMap K V} (hbefore : StrictOrder before) (h : Built before m) (h' : Built before m')
    (hfind : ∀ k, m.find? k = m'.find? k) : m.entries = m'.entries := by
  have hperm : m.entries.Perm m'.entries := by
    rw [List.perm_ext_iff_of_nodup (List.Nodup.of_map _ m.nodup) (List.Nodup.of_map _ m'.nodup)]
    rintro ⟨k, v⟩
    rw [mem_entries, mem_entries, hfind]
  refine hperm.eq_of_pairwise (fun a b _ _ hab hba => ?_) (h.sorted hbefore) (h'.sorted hbefore)
  rw [hbefore.asymm hab] at hba
  cases hba

def Numbered (uid : V → Nat) (m : OrderedMap K V) : Prop :=
  (m.entries.map (fun e => uid e.2)).Perm (List.range m.size)

variable {uid : V → Nat}

omit [DecidableEq K] in
theorem numbered_empty : Numbered uid (empty : OrderedMap K V) := List.Perm.refl _

theorem Numbered.tryEmplace (hm : Numbered uid m) (hv : m.find? k = none → uid v = m.size) :
    Numbered uid (m.tryEmplace before k v) := by
  cases h : m.find? k with
  | none =>
      unfold Numbered
      rw [size_tryEmplace h, List.range_succ]
      refine ((entries_tryEmplace h).map _).trans ?_
      rw [List.map_cons, hv h]
      exact (hm.cons _).trans (List.perm_append_singleton _ _).symm
  | some u => rwa [tryEmplace_of_some h]

theorem Numbered.lt (hm : Numbered uid m) (h : m.find? k = some v) : uid v < m.size :=
  List.mem_range.mp (hm.mem_iff.mp (List.mem_map.mpr ⟨_, mem_entries.mpr h, rfl⟩))

theorem Numbered.inj (hm : Numbered uid m) {k' : K} {v' : V} (h : m.find? k = some v)
    (h' : m.find? k' = some v') (huid : uid v = uid v') : k = k' := by
  have hnodup : (m.entries.map (fun e => uid e.2)).Nodup := hm.nodup_iff.mpr List.nodup_range
  have he := List.inj_on_of_nodup_map hnodup (mem_entries.mpr h) (mem_entries.mpr h') huid
  exact congrArg Prod.fst he

end OrderedMap

end Comulator
