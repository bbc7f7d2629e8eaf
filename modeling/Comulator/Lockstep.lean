import Mathlib.Logic.Basic

namespace Comulator.Lockstep

variable {σ ε α β : Type} {R : σ → σ → Prop}

inductive Outcome (R : σ → σ → Prop) : Except ε (α × σ) → Except ε (α × σ) → Prop
  | ok (a : α) {s t : σ} (h : R s t) : Outcome R (.ok (a, s)) (.ok (a, t))
  | error (e : ε) : Outcome R (.error e) (.error e)

def Lockstep (R : σ → σ → Prop) (x y : StateT σ (Except ε) α) : Prop := ∀ s t, R s t → Outcome R (x s) (y t)

variable {x y : StateT σ (Except ε) α} {f g : α → StateT σ (Except ε) β} {s t : σ}

theorem Outcome.bind (h : Outcome R (x s) (y t))
    (hfg : ∀ a s' t', x s = .ok (a, s') → R s' t' → Outcome R (f a s') (g a t')) :
    Outcome R ((x >>= f) s) ((y >>= g) t) := by
  change Outcome R ((x s) >>= fun p => f p.1 p.2) ((y t) >>= fun p => g p.1 p.2)
  revert h hfg
  generalize x s = o, y t = o'
  rintro (⟨a, h⟩ | ⟨e⟩) hfg
  · exact hfg a _ _ rfl h
  · exact .error e

theorem Lockstep.pure (a : α) : Lockstep R (Pure.pure a : StateT σ (Except ε) α) (Pure.pure a) :=
  fun _ _ h => .ok a h

theorem Lockstep.bind (h : Lockstep R x y) (hfg : ∀ a, Lockstep R (f a) (g a)) : Lockstep R (x >>= f) (y >>= g) :=
  fun s t hst => (h s t hst).bind (fun a s' t' _ h' => hfg a s' t' h')

theorem Lockstep.ite {c : Prop} [Decidable c] {x' y' : StateT σ (Except ε) α} (h : Lockstep R x y)
    (h' : Lockstep R x' y') : Lockstep R (if c then x else x') (if c then y else y') := by
  by_cases hc : c
  · rw [if_pos hc, if_pos hc]
    exact h
  · rw [if_neg hc, if_neg hc]
    exact h'

end Comulator.Lockstep
