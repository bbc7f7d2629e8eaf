import Comulator.Simulation

namespace Comulator.Approximation

open Simulation

variable {ε σ α β : Type}

def lastState : EStateM.Result ε σ α → σ
  | .ok _ s | .error _ s => s

def Gone (out : ε → Prop) (lost : σ → Prop) : EStateM.Result ε σ α → Prop
  | .ok _ s => lost s
  | .error e s => out e ∨ lost s

/-- `y` does what `x` does as long as `x` is not gone. What is lost when `x` starts
is lost when it ends. -/
structure Approx (out : ε → Prop) (lost : σ → Prop) (x y : EStateM ε σ α) : Prop where
  stays : ∀ s, lost s → lost (lastState (x s))
  agrees : ∀ s, Gone out lost (x s) ∨ y s = x s

variable {out : ε → Prop} {lost : σ → Prop} {x y z : EStateM ε σ α} {f g : α → EStateM ε σ β}

theorem gone_of_lost {r : EStateM.Result ε σ α} (h : lost (lastState r)) : Gone out lost r := by
  cases r with
  | ok a s => exact h
  | error e s => exact .inr h

theorem Approx.refl (h : ∀ s, lost s → lost (lastState (x s))) : Approx out lost x x := ⟨h, fun _ => .inr rfl⟩

theorem Approx.pure (a : α) : Approx out lost (Pure.pure a : EStateM ε σ α) (Pure.pure a) := .refl (fun _ h => h)

theorem Approx.throw (e : ε) : Approx out lost (MonadExcept.throw e : EStateM ε σ α) (MonadExcept.throw e) :=
  .refl (fun _ h => h)

/-- An error of `out` says nothing. -/
theorem Approx.of_out {e : ε} (he : out e) : Approx out lost (MonadExcept.throw e : EStateM ε σ α) y :=
  ⟨fun _ h => h, fun _ => .inl (.inl he)⟩

/-- Nor does a computation that always ends lost. -/
theorem Approx.of_lost (h : ∀ s, lost (lastState (x s))) : Approx out lost x y :=
  ⟨fun s _ => h s, fun s => .inl (gone_of_lost (h s))⟩

theorem stays_bind (hx : ∀ s, lost s → lost (lastState (x s))) (hf : ∀ a s, lost s → lost (lastState (f a s))) (s : σ)
    (hs : lost s) : lost (lastState ((x >>= f) s)) := by
  have hx := hx s hs
  cases hres : x s with
  | ok a s' =>
      rw [hres] at hx
      rw [bind_ok hres]
      exact hf a s' hx
  | error e s' =>
      rw [hres] at hx
      rw [bind_error hres]
      exact hx

theorem Approx.bind (h : Approx out lost x y) (hfg : ∀ a, Approx out lost (f a) (g a)) :
    Approx out lost (x >>= f) (y >>= g) := by
  refine ⟨stays_bind h.stays (fun a => (hfg a).stays), fun s => ?_⟩
  cases hx : x s with
  | ok a s' =>
      rw [bind_ok hx]
      rcases h.agrees s with hgone | hy
      · rw [hx] at hgone
        exact .inl (gone_of_lost ((hfg a).stays s' hgone))
      · rw [bind_ok (hy.trans hx)]
        exact (hfg a).agrees s'
  | error e s' =>
      rw [bind_error hx]
      rcases h.agrees s with hgone | hy
      · rw [hx] at hgone
        exact .inl hgone
      · exact .inr (bind_error (hy.trans hx))

/-- What is not gone is what the other computation does. -/
theorem Approx.eq_of_not_gone (h : Approx out lost x y) {s : σ} (hs : ¬ Gone out lost (x s)) : y s = x s :=
  (h.agrees s).resolve_left hs

end Comulator.Approximation
