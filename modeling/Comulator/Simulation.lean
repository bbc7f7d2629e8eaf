import Mathlib.Logic.Basic

namespace Comulator.Simulation

variable {ε σ τ π α β α' β' : Type}

section Run

variable {x : EStateM ε σ α} {f : α → EStateM ε σ β} {s s' : σ}

theorem bind_ok {a : α} (h : x s = .ok a s') : (x >>= f) s = f a s' := by
  change EStateM.bind x f s = f a s'
  rw [EStateM.bind, h]

theorem bind_error {e : ε} (h : x s = .error e s') : (x >>= f) s = .error e s' := by
  change EStateM.bind x f s = .error e s'
  rw [EStateM.bind, h]

theorem bind_eq_ok {b : β} (h : (x >>= f) s = .ok b s') : ∃ a s₁, x s = .ok a s₁ ∧ f a s₁ = .ok b s' := by
  cases hx : x s with
  | ok a s₁ =>
      rw [bind_ok hx] at h
      exact ⟨a, s₁, rfl, h⟩
  | error e s₁ =>
      rw [bind_error hx] at h
      cases h

end Run

/-- `y` does what `x` does on states that have a private part besides: they
return together, with results and a last private part related by `Q`, or raise
the same error. -/
def Sim (embed : σ → π → τ) (p : π) (Q : α → β → π → Prop) (x : EStateM ε σ α) (y : EStateM ε τ β) : Prop :=
  ∀ s, match x s with
    | .ok a s' => ∃ b p', y (embed s p) = .ok b (embed s' p') ∧ Q a b p'
    | .error e s' => ∃ p', y (embed s p) = .error e (embed s' p')

def Silent (embed : σ → π → τ) (p : π) (b : β) (p' : π) (y : EStateM ε τ β) : Prop :=
  ∀ s, y (embed s p) = .ok b (embed s p')

def Raises (embed : σ → π → τ) (p : π) (e : ε) (y : EStateM ε τ β) : Prop :=
  ∀ s, ∃ p', y (embed s p) = .error e (embed s p')

variable {embed : σ → π → τ} {p p' p'' : π} {Q R : α → β → π → Prop}
variable {x : EStateM ε σ α} {y : EStateM ε τ β}

theorem Silent.pure (b : β) : Silent embed p b p (Pure.pure b : EStateM ε τ β) := fun _ => rfl

theorem Silent.bind {b : β} {b' : β'} {g : β → EStateM ε τ β'} (hy : Silent embed p b p' y)
    (hg : Silent embed p' b' p'' (g b)) : Silent embed p b' p'' (y >>= g) := by
  intro s
  rw [bind_ok (hy s)]
  exact hg s

theorem Raises.throw (e : ε) : Raises embed p e (MonadExcept.throw e : EStateM ε τ β) := fun _ => ⟨p, rfl⟩

theorem Raises.bind {e : ε} {g : β → EStateM ε τ β'} (hy : Raises embed p e y) : Raises embed p e (y >>= g) := by
  intro s
  obtain ⟨p', hp⟩ := hy s
  exact ⟨p', bind_error hp⟩

theorem Silent.raises {b : β} {e : ε} {g : β → EStateM ε τ β'} (hy : Silent embed p b p' y)
    (hg : Raises embed p' e (g b)) : Raises embed p e (y >>= g) := by
  intro s
  rw [bind_ok (hy s)]
  exact hg s

theorem Sim.pure {a : α} {b : β} (h : Q a b p) :
    Sim embed p Q (Pure.pure a : EStateM ε σ α) (Pure.pure b : EStateM ε τ β) := fun _ => ⟨b, p, rfl, h⟩

theorem Sim.throw (e : ε) (hy : Raises embed p e y) :
    Sim embed p Q (MonadExcept.throw e : EStateM ε σ α) y := fun s => hy s

theorem Sim.mono (h : Sim embed p Q x y) (hQ : ∀ a b p', Q a b p' → R a b p') : Sim embed p R x y := by
  intro s
  have hs := h s
  split
  next a s' hx =>
    rw [hx] at hs
    obtain ⟨b, p', hy, hq⟩ := hs
    exact ⟨b, p', hy, hQ a b p' hq⟩
  next e s' hx =>
    rw [hx] at hs
    exact hs

theorem Sim.bind {f : α → EStateM ε σ α'} {g : β → EStateM ε τ β'} {R : α' → β' → π → Prop}
    (h : Sim embed p Q x y) (hfg : ∀ a b p', Q a b p' → Sim embed p' R (f a) (g b)) :
    Sim embed p R (x >>= f) (y >>= g) := by
  intro s
  have hs := h s
  cases hx : x s with
  | ok a s' =>
      rw [hx] at hs
      obtain ⟨b, p', hy, hq⟩ := hs
      rw [bind_ok hx, bind_ok hy]
      exact hfg a b p' hq s'
  | error e s' =>
      rw [hx] at hs
      obtain ⟨p', hy⟩ := hs
      rw [bind_error hx]
      exact ⟨p', bind_error hy⟩

/-- What is known of every result of `x`. -/
theorem Sim.post {T : α → Prop} (h : Sim embed p Q x y) (hx : ∀ s a s', x s = .ok a s' → T a) :
    Sim embed p (fun a b p' => Q a b p' ∧ T a) x y := by
  intro s
  have hs := h s
  cases hres : x s with
  | ok a s' =>
      rw [hres] at hs
      obtain ⟨b, p', hy, hq⟩ := hs
      exact ⟨b, p', hy, hq, hx s a s' hres⟩
  | error e s' =>
      rw [hres] at hs
      exact hs

/-- A step of `y` alone. -/
theorem Silent.sim {b : β} {g : β → EStateM ε τ β'} {R : α → β' → π → Prop} (hy : Silent embed p b p' y)
    (hg : Sim embed p' R x (g b)) : Sim embed p R x (y >>= g) := by
  intro s
  have hs := hg s
  rw [bind_ok (hy s)]
  exact hs

/-- The last step of `y` alone. -/
theorem Sim.silent {g : β → EStateM ε τ β'} {R : α → β' → π → Prop} (h : Sim embed p Q x y)
    (hg : ∀ a b p', Q a b p' → ∃ b' p'', Silent embed p' b' p'' (g b) ∧ R a b' p'') :
    Sim embed p R x (y >>= g) := by
  intro s
  have hs := h s
  cases hx : x s with
  | ok a s' =>
      rw [hx] at hs
      obtain ⟨b, p', hy, hq⟩ := hs
      obtain ⟨b', p'', hsilent, hr⟩ := hg a b p' hq
      exact ⟨b', p'', (bind_ok hy).trans (hsilent s'), hr⟩
  | error e s' =>
      rw [hx] at hs
      obtain ⟨p', hy⟩ := hs
      exact ⟨p', bind_error hy⟩

/-- A last step of `x` that changes no state. -/
theorem Sim.map_left {f : α → α'} {R : α' → β → π → Prop} (h : Sim embed p Q x y)
    (hf : ∀ a b p', Q a b p' → R (f a) b p') :
    Sim embed p R (x >>= fun a => (Pure.pure (f a) : EStateM ε σ α')) y := by
  intro s
  have hs := h s
  cases hx : x s with
  | ok a s' =>
      rw [hx] at hs
      obtain ⟨b, p', hy, hq⟩ := hs
      rw [bind_ok hx]
      exact ⟨b, p', hy, hf a b p' hq⟩
  | error e s' =>
      rw [hx] at hs
      rw [bind_error hx]
      exact hs

end Comulator.Simulation
