import Mathlib.Algebra.Ring.Int.Defs
import Mathlib.Algebra.Ring.Nat
import Mathlib.Data.List.Basic

namespace Comulator.Fallible

variable {ε α β : Type}

theorem bind_eq_ok {x : Except ε α} {f : α → Except ε β} {b : β} :
    (x >>= f) = .ok b ↔ ∃ a, x = .ok a ∧ f a = .ok b := by
  cases x with
  | error e =>
      constructor
      · intro h
        cases h
      · rintro ⟨a, ha, _⟩
        cases ha
  | ok a =>
      constructor
      · intro h
        exact ⟨a, rfl, h⟩
      · rintro ⟨_, ha, h⟩
        cases ha
        exact h

theorem bind_eq_error {x : Except ε α} {f : α → Except ε β} {e : ε} :
    (x >>= f) = .error e ↔ x = .error e ∨ ∃ a, x = .ok a ∧ f a = .error e := by
  cases x with
  | error e' =>
      constructor
      · intro h
        cases h
        exact .inl rfl
      · rintro (h | ⟨a, ha, _⟩)
        · cases h
          rfl
        · cases ha
  | ok a =>
      constructor
      · intro h
        exact .inr ⟨a, rfl, h⟩
      · rintro (h | ⟨_, ha, h⟩)
        · cases h
        · cases ha
          exact h

theorem map_eq_ok {x : Except ε α} {f : α → β} {b : β} : (f <$> x) = .ok b ↔ ∃ a, x = .ok a ∧ f a = b := by
  cases x with
  | error e =>
      constructor
      · intro h
        cases h
      · rintro ⟨a, ha, _⟩
        cases ha
  | ok a =>
      constructor
      · intro h
        cases h
        exact ⟨a, rfl, rfl⟩
      · rintro ⟨_, ha, rfl⟩
        cases ha
        rfl

theorem mapError_eq_ok {δ : Type} {x : Except ε α} {f : ε → δ} {a : α} : x.mapError f = .ok a ↔ x = .ok a := by
  cases x with
  | error e =>
      constructor
      · intro h
        cases h
      · intro h
        cases h
  | ok b =>
      constructor
      · intro h
        cases h
        rfl
      · intro h
        cases h
        rfl

theorem mapM_eq_ok {f : α → Except ε β} {l : List α} {r : List β} :
    l.mapM f = .ok r ↔ List.Forall₂ (fun a b => f a = .ok b) l r := by
  induction l generalizing r with
  | nil =>
      rw [List.mapM_nil]
      constructor
      · intro h
        cases h
        exact .nil
      · intro h
        cases h
        rfl
  | cons a l ih =>
      rw [List.mapM_cons]
      constructor
      · intro h
        obtain ⟨b, hb, h⟩ := bind_eq_ok.mp h
        obtain ⟨bs, hbs, h⟩ := bind_eq_ok.mp h
        cases h
        exact .cons hb (ih.mp hbs)
      · intro h
        cases h with
        | cons hb hbs => exact bind_eq_ok.mpr ⟨_, hb, bind_eq_ok.mpr ⟨_, ih.mpr hbs, rfl⟩⟩

/-- The inputs are known from the results. -/
theorem map_of_mapM {f : α → Except ε β} {g : β → α} (hg : ∀ a b, f a = .ok b → g b = a) {l : List α} {r : List β}
    (h : l.mapM f = .ok r) : r.map g = l := by
  have hall := mapM_eq_ok.mp h
  clear h
  induction hall with
  | nil => rfl
  | cons hab _ ih => rw [List.map_cons, hg _ _ hab, ih]

theorem mapM_map {γ : Type} {f : α → Except ε β} (g : β → γ) (l : List α) :
    l.mapM (fun a => (f a).map g) = (l.mapM f).map (List.map g) := by
  induction l with
  | nil => rfl
  | cons a l ih =>
      rw [List.mapM_cons, List.mapM_cons, ih]
      cases f a with
      | error e => rfl
      | ok b => cases l.mapM f <;> rfl

theorem mapM_ok_mem {f : α → Except ε β} {l : List α} {r : List β} (h : l.mapM f = .ok r) :
    (∀ a ∈ l, ∃ b ∈ r, f a = .ok b) ∧ ∀ b ∈ r, ∃ a ∈ l, f a = .ok b := by
  have hall := mapM_eq_ok.mp h
  clear h
  induction hall with
  | nil => simp
  | cons hab _ ih =>
      constructor
      · intro a ha
        rcases List.mem_cons.mp ha with rfl | ha
        · exact ⟨_, List.mem_cons_self, hab⟩
        · obtain ⟨b, hb, heq⟩ := ih.1 a ha
          exact ⟨b, List.mem_cons_of_mem _ hb, heq⟩
      · intro b hb
        rcases List.mem_cons.mp hb with rfl | hb
        · exact ⟨_, List.mem_cons_self, hab⟩
        · obtain ⟨a, ha, heq⟩ := ih.2 b hb
          exact ⟨a, List.mem_cons_of_mem _ ha, heq⟩

theorem mapM_some_mem {f : α → Option β} {l : List α} {r : List β} (h : l.mapM f = some r) :
    (∀ a ∈ l, ∃ b ∈ r, f a = some b) ∧ ∀ b ∈ r, ∃ a ∈ l, f a = some b := by
  induction l generalizing r with
  | nil =>
      rw [List.mapM_nil] at h
      cases h
      simp
  | cons a l ih =>
      rw [List.mapM_cons] at h
      obtain ⟨c, hc, h⟩ := Option.bind_eq_some_iff.mp h
      obtain ⟨cs, hcs, h⟩ := Option.bind_eq_some_iff.mp h
      cases h
      constructor
      · intro a' ha'
        rcases List.mem_cons.mp ha' with rfl | ha'
        · exact ⟨c, List.mem_cons_self, hc⟩
        · obtain ⟨b, hb, heq⟩ := (ih hcs).1 a' ha'
          exact ⟨b, List.mem_cons_of_mem _ hb, heq⟩
      · intro b hb
        rcases List.mem_cons.mp hb with rfl | hb
        · exact ⟨a, List.mem_cons_self, hc⟩
        · obtain ⟨a', ha', heq⟩ := (ih hcs).2 b hb
          exact ⟨a', List.mem_cons_of_mem _ ha', heq⟩

theorem mapM_some_of_mem {f : α → Option β} {l : List α} (h : ∀ a ∈ l, ∃ b, f a = some b) :
    ∃ r, l.mapM f = some r := by
  induction l with
  | nil => exact ⟨[], rfl⟩
  | cons a l ih =>
      obtain ⟨b, hb⟩ := h a List.mem_cons_self
      obtain ⟨r, hr⟩ := ih (fun c hc => h c (List.mem_cons_of_mem _ hc))
      rw [List.mapM_cons, hb, hr]
      exact ⟨_, rfl⟩

def FailsOnly (p : ε → Prop) (x : Except ε α) : Prop := ∀ e, x = .error e → p e

variable {p : ε → Prop}

theorem FailsOnly.pure (a : α) : FailsOnly p (Except.ok a : Except ε α) := by
  intro e h
  cases h

theorem FailsOnly.throw {e : ε} (h : p e) : FailsOnly p (Except.error e : Except ε α) := by
  intro e' he
  cases he
  exact h

theorem FailsOnly.bind {x : Except ε α} {f : α → Except ε β} (hx : FailsOnly p x)
    (hf : ∀ a, x = .ok a → FailsOnly p (f a)) : FailsOnly p (x >>= f) := by
  intro e h
  rcases bind_eq_error.mp h with h | ⟨a, ha, h⟩
  · exact hx e h
  · exact hf a ha e h

theorem FailsOnly.mapM {f : α → Except ε β} {l : List α} (hf : ∀ a ∈ l, FailsOnly p (f a)) :
    FailsOnly p (l.mapM f) := by
  induction l with
  | nil => exact FailsOnly.pure _
  | cons a l ih =>
      rw [List.mapM_cons]
      refine (hf a List.mem_cons_self).bind (fun b _ => ?_)
      exact (ih (fun c hc => hf c (List.mem_cons_of_mem _ hc))).bind (fun bs _ => FailsOnly.pure _)

theorem FailsOnly.foldlM {f : β → α → Except ε β} {l : List α} {s : β}
    (hf : ∀ s, ∀ a ∈ l, FailsOnly p (f s a)) : FailsOnly p (l.foldlM f s) := by
  induction l generalizing s with
  | nil => exact FailsOnly.pure _
  | cons a l ih =>
      rw [List.foldlM_cons]
      refine (hf s a List.mem_cons_self).bind (fun t _ => ?_)
      exact ih (fun u c hc => hf u c (List.mem_cons_of_mem _ hc))

end Comulator.Fallible
