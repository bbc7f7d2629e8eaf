import Mathlib.Data.List.Basic
import Mathlib.Order.Lattice

namespace Comulator.SortedSearch

variable {α : Type} [LinearOrder α]

def sweep : Nat → List α → List α
  | n + 1, a :: b :: l => if a > b then b :: sweep n (a :: l) else a :: sweep n (b :: l)
  | _, l => l

def bubbleSort (l : List α) : List α := (List.range l.length).reverse.foldl (fun l n => sweep n l) l

def exchange (l : List α) (j : Nat) : List α :=
  match l[j - 1]?, l[j]? with
  | some a, some b => if a > b then (l.set (j - 1) b).set j a else l
  | _, _ => l

/-- The same sort in place: `for (i = size; i >= 1; --i) for (j = 1; j < i; ++j)`. -/
def exchangeSort (l : List α) : List α :=
  (List.range' 1 l.length).reverse.foldl (fun l i => (List.range' 1 (i - 1)).foldl exchange l) l

def lowerBound (x : α) (l : List α) : Option α := l.find? (fun a => x ≤ a)

/-- A sweep over `a :: u` takes the greatest element to its end. -/
theorem sweep_append (a : α) (u v : List α) : ∃ w x, sweep u.length (a :: (u ++ v)) = w ++ x :: v ∧
    (w ++ [x]).Perm (a :: u) ∧ ∀ y ∈ a :: u, y ≤ x := by
  induction u generalizing a with
  | nil => exact ⟨[], a, rfl, .refl _, by simp⟩
  | cons b u ih =>
      by_cases hab : a > b
      · obtain ⟨w, x, hsweep, hperm, hmax⟩ := ih a
        refine ⟨b :: w, x, ?_, (hperm.cons b).trans (.swap a b u), ?_⟩
        · rw [List.length_cons, List.cons_append, sweep, if_pos hab, hsweep, List.cons_append]
        · obtain ⟨hax, hux⟩ := List.forall_mem_cons.mp hmax
          exact List.forall_mem_cons.mpr ⟨hax, List.forall_mem_cons.mpr ⟨le_trans (le_of_lt hab) hax, hux⟩⟩
      · obtain ⟨w, x, hsweep, hperm, hmax⟩ := ih b
        refine ⟨a :: w, x, ?_, hperm.cons a, ?_⟩
        · rw [List.length_cons, List.cons_append, sweep, if_neg hab, hsweep, List.cons_append]
        · have hbx := hmax b List.mem_cons_self
          exact List.forall_mem_cons.mpr ⟨le_trans (le_of_not_gt hab) hbx, hmax⟩

structure Settled (u v : List α) : Prop where
  sorted : v.Pairwise (· ≤ ·)
  below : ∀ a ∈ u, ∀ b ∈ v, a ≤ b

theorem foldl_sweep (u v : List α) (h : Settled u v) :
    ((List.range u.length).reverse.foldl (fun l n => sweep n l) (u ++ v)).Pairwise (· ≤ ·) ∧
      ((List.range u.length).reverse.foldl (fun l n => sweep n l) (u ++ v)).Perm (u ++ v) := by
  -- by induction on the part that is not settled, whose last element the sweep settles
  induction hn : u.length generalizing u v with
  | zero =>
      cases List.length_eq_zero_iff.mp hn
      exact ⟨h.sorted, .refl _⟩
  | succ n ih =>
      obtain ⟨a, u, rfl⟩ := List.exists_cons_of_length_eq_add_one hn
      have hlen : u.length = n := Nat.succ.inj hn
      obtain ⟨w, x, hsweep, hperm, hmax⟩ := sweep_append a u v
      have hmem : ∀ y ∈ w ++ [x], y ∈ a :: u := fun y hy => hperm.mem_iff.mp hy
      have hsettled : Settled w (x :: v) := by
        constructor
        · refine List.pairwise_cons.mpr ⟨fun b hb => ?_, h.sorted⟩
          exact h.below x (hmem x (by simp)) b hb
        · intro y hy b hb
          rcases List.mem_cons.mp hb with rfl | hb
          · exact hmax y (hmem y (List.mem_append_left _ hy))
          · exact h.below y (hmem y (List.mem_append_left _ hy)) b hb
      have hw : w.length = n := by
        have hlength := hperm.length_eq
        simp only [List.length_append, List.length_cons, List.length_nil] at hlength
        omega
      obtain ⟨hsorted, hrest⟩ := ih w (x :: v) hsettled hw
      rw [List.range_succ, List.reverse_append, List.reverse_singleton, List.singleton_append, List.foldl_cons, ← hlen,
        List.cons_append, hsweep, hlen]
      refine ⟨hsorted, hrest.trans ?_⟩
      have happend : w ++ x :: v = (w ++ [x]) ++ v := by simp
      rw [happend]
      exact hperm.append_right v

theorem bubbleSort_sorted (l : List α) : (bubbleSort l).Pairwise (· ≤ ·) := by
  have h := (foldl_sweep l [] ⟨.nil, by simp⟩).1
  rwa [List.append_nil] at h

theorem bubbleSort_perm (l : List α) : (bubbleSort l).Perm l := by
  have h := (foldl_sweep l [] ⟨.nil, by simp⟩).2
  rwa [List.append_nil] at h

theorem exchange_one (a b : α) (l : List α) :
    exchange (a :: b :: l) 1 = if a > b then b :: a :: l else a :: b :: l := rfl

theorem exchange_cons (a : α) (l : List α) (j : Nat) : exchange (a :: l) (j + 2) = a :: exchange l (j + 1) := by
  unfold exchange
  simp only [Nat.add_sub_cancel, List.getElem?_cons_succ, Nat.reduceSubDiff]
  cases l[j]? with
  | none => rfl
  | some b =>
      cases l[j + 1]? with
      | none => rfl
      | some c =>
          dsimp only
          split <;> rfl

theorem foldl_exchange_cons (a : α) (l : List α) (j n : Nat) :
    (List.range' (j + 2) n).foldl exchange (a :: l) = a :: (List.range' (j + 1) n).foldl exchange l := by
  induction n generalizing l j with
  | zero => rfl
  | succ n ih =>
      rw [List.range'_succ, List.range'_succ, List.foldl_cons, List.foldl_cons, exchange_cons]
      exact ih (exchange l (j + 1)) (j + 1)

/-- The exchanges at 1, ..., `n` are a sweep. -/
theorem foldl_exchange (n : Nat) (l : List α) (hn : n < l.length) : (List.range' 1 n).foldl exchange l = sweep n l := by
  induction n generalizing l with
  | zero =>
      cases l with
      | nil => rfl
      | cons a l => rfl
  | succ n ih =>
      obtain ⟨a, l, rfl⟩ := List.exists_cons_of_length_pos (Nat.zero_lt_of_lt hn)
      obtain ⟨b, l, rfl⟩ := List.exists_cons_of_length_pos (Nat.lt_of_succ_lt_succ (Nat.lt_of_le_of_lt (Nat.le_add_left 1 n) hn))
      have hlen : n < l.length + 1 := by
        simp only [List.length_cons] at hn
        omega
      rw [List.range'_succ, List.foldl_cons, exchange_one, sweep]
      split
      next =>
        rw [foldl_exchange_cons]
        exact congrArg _ (ih (a :: l) hlen)
      next =>
        rw [foldl_exchange_cons]
        exact congrArg _ (ih (b :: l) hlen)

theorem length_sweep (n : Nat) (l : List α) : (sweep n l).length = l.length := by
  fun_induction sweep n l with
  | case1 n a b l hab ih => simp only [List.length_cons, ih]
  | case2 n a b l hab ih => simp only [List.length_cons, ih]
  | case3 => rfl

theorem exchangeSort_eq (l : List α) : exchangeSort l = bubbleSort l := by
  have hindices : (List.range' 1 l.length).reverse = (List.range l.length).reverse.map (· + 1) := by
    rw [List.range'_eq_map_range, ← List.map_reverse]
    simp only [Nat.add_comm]
  have hsort : ∀ (is : List Nat) (l : List α), (∀ i ∈ is, i < l.length) →
      (is.map (· + 1)).foldl (fun l i => (List.range' 1 (i - 1)).foldl exchange l) l = is.foldl (fun l n => sweep n l) l := by
    intro is
    induction is with
    | nil => exact fun l _ => rfl
    | cons i is ih =>
        intro l his
        obtain ⟨hi, his⟩ := List.forall_mem_cons.mp his
        rw [List.map_cons, List.foldl_cons, List.foldl_cons, Nat.add_sub_cancel, foldl_exchange i l hi]
        apply ih
        rwa [length_sweep]
  rw [exchangeSort, hindices, bubbleSort]
  apply hsort
  intro i hi
  rw [List.mem_reverse] at hi
  exact List.mem_range.mp hi

/-- The search ends at the latest where it finds something not less. -/
theorem lowerBound_ne_none {x y : α} {l : List α} (hy : y ∈ l) (hxy : x ≤ y) : lowerBound x l ≠ none := by
  intro hnone
  have hno := List.find?_eq_none.mp hnone y hy
  simp only [decide_eq_true_eq] at hno
  exact hno hxy

theorem lowerBound_eq_self_iff {x : α} {l : List α} (h : l.Pairwise (· ≤ ·)) : lowerBound x l = some x ↔ x ∈ l := by
  induction l with
  | nil => simp [lowerBound]
  | cons a l ih =>
      obtain ⟨ha, hl⟩ := List.pairwise_cons.mp h
      unfold lowerBound at ih ⊢
      by_cases hxa : x ≤ a
      · rw [List.find?_cons_of_pos (by simpa using hxa), List.mem_cons, Option.some.injEq]
        constructor
        · intro hax
          exact .inl hax.symm
        · rintro (rfl | hx)
          · rfl
          · exact le_antisymm (ha x hx) hxa
      · rw [List.find?_cons_of_neg (by simpa using hxa), ih hl, List.mem_cons]
        constructor
        · exact Or.inr
        · rintro (rfl | hx)
          · exact absurd le_rfl hxa
          · exact hx

end Comulator.SortedSearch
