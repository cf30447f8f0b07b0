/-!
# How stateful runs end

A run with state and failure ends in a state whether it fails or not. `Ends` says what holds of
either ending, so that one statement covers a walk that was broken off half way.
-/

namespace FormulaCompiler

variable {ε σ α β : Type}

theorem bind_of_ok {m : EStateM ε σ α} {f : α → EStateM ε σ β} {s t : σ} {a : α}
    (h : m s = .ok a t) : (m >>= f) s = f a t := by
  simp only [Bind.bind, EStateM.bind, h]

theorem bind_of_error {m : EStateM ε σ α} {f : α → EStateM ε σ β} {s t : σ} {e : ε}
    (h : m s = .error e t) : (m >>= f) s = .error e t := by
  simp only [Bind.bind, EStateM.bind, h]

/-- A run in two parts that fails does so in the first part, or in the second one after it. -/
theorem bind_error_cases {m : EStateM ε σ α} {f : α → EStateM ε σ β} {s t : σ} {e : ε}
    (h : (m >>= f) s = .error e t) :
    m s = .error e t ∨ ∃ a u, m s = .ok a u ∧ f a u = .error e t := by
  cases hm : m s with
  | ok a u => exact .inr ⟨a, u, rfl, (bind_of_ok hm).symm.trans h⟩
  | error e' u =>
      rw [bind_of_error hm] at h
      cases h
      exact .inl rfl

/-- Started in `s`, the run ends with a result and a state in `done`, or with a failure and a state
in `failed`. -/
def Ends (m : EStateM ε σ α) (s : σ) (done : α → σ → Prop) (failed : ε → σ → Prop) : Prop :=
  match m s with
  | .ok a t => done a t
  | .error e t => failed e t

/-- What a run failed with, if it did. -/
def failure? : EStateM.Result ε σ α → Option ε
  | .ok _ _ => none
  | .error e _ => some e

namespace Ends

variable {m : EStateM ε σ α} {s t : σ} {done done' : α → σ → Prop} {failed failed' : ε → σ → Prop}

theorem of_ok (h : Ends m s done failed) {a : α} (hm : m s = .ok a t) : done a t := by
  simpa only [Ends, hm] using h

theorem of_error (h : Ends m s done failed) {e : ε} (hm : m s = .error e t) : failed e t := by
  simpa only [Ends, hm] using h

theorem pure {a : α} (h : done a s) : Ends (Pure.pure a) s done failed := h

theorem throw {e : ε} (h : failed e s) : Ends (MonadExcept.throw e) s done failed := h

theorem of_eq {m' : EStateM ε σ α} (hm : m s = m' s) (h : Ends m' s done failed) :
    Ends m s done failed := by
  unfold Ends at h ⊢
  rwa [hm]

theorem of_ne_error (hm : ∀ e t, m s ≠ .error e t) (h : ∀ a t, done a t) :
    Ends m s done failed := by
  unfold Ends
  split
  · exact h _ _
  · rename_i hrun
    exact absurd hrun (hm _ _)

theorem mono (h : Ends m s done failed) (hd : ∀ a t, done a t → done' a t)
    (hf : ∀ e t, failed e t → failed' e t) : Ends m s done' failed' := by
  unfold Ends at h ⊢
  split <;> rename_i hm <;> rw [hm] at h
  · exact hd _ _ h
  · exact hf _ _ h

/-- The second run starts where the first one ended. -/
theorem bind {f : α → EStateM ε σ β} {after : β → σ → Prop} (h : Ends m s done failed)
    (hf : ∀ a t, done a t → Ends (f a) t after failed) : Ends (m >>= f) s after failed := by
  cases hm : m s with
  | ok a t =>
      have hn := hf a t (h.of_ok hm)
      unfold Ends at hn ⊢
      rwa [bind_of_ok hm]
  | error e t =>
      unfold Ends
      rw [bind_of_error hm]
      exact h.of_error hm

theorem both (h : Ends m s done failed) (h' : Ends m s done' failed') :
    Ends m s (fun a t => done a t ∧ done' a t) (fun e t => failed e t ∧ failed' e t) := by
  unfold Ends at h h' ⊢
  split <;> rename_i hm <;> rw [hm] at h h' <;> exact ⟨h, h'⟩

theorem failure?_eq {e? : Option ε}
    (h : Ends m s (fun _ _ => e? = none) (fun e _ => e? = some e)) : failure? (m s) = e? := by
  unfold Ends at h
  cases hm : m s with
  | ok a t =>
      rw [hm] at h
      exact h.symm
  | error e t =>
      rw [hm] at h
      exact h.symm

/-- Two runs that begin alike end alike, if they go on alike from wherever the first part ends. -/
theorem bind_eq {m' : EStateM ε σ α} {f f' : α → EStateM ε σ β} (h : Ends m s done failed)
    (hm : m' s = m s) (hf : ∀ a t, done a t → f' a t = f a t) : (m' >>= f') s = (m >>= f) s := by
  cases hr : m s with
  | ok a t => rw [bind_of_ok hr, bind_of_ok (hm.trans hr), hf a t (h.of_ok hr)]
  | error e t => rw [bind_of_error hr, bind_of_error (hm.trans hr)]

end Ends
end FormulaCompiler
