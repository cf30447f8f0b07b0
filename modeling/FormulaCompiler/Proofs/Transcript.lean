/-!
# Transcripts

Something with a state answers requests, one after the other. A transcript has every request with
its reply, oldest first, and the state that is left. What holds before the first request and
survives each of them holds of the whole transcript.
-/

namespace FormulaCompiler

/-- What was asked and replied, and the state after it. -/
structure Transcript (ρ τ σ : Type) where
  log : List (ρ × τ) := []
  state : σ

namespace Transcript

variable {ρ τ σ : Type} (answer : σ → ρ → τ × σ)

/-- The transcript with one more request. -/
def ask (t : Transcript ρ τ σ) (request : ρ) : Transcript ρ τ σ :=
  { log := t.log ++ [(request, (answer t.state request).1)]
    state := (answer t.state request).2 }

/-- The transcript of requests that begin in a state. -/
def of (start : σ) (requests : List ρ) : Transcript ρ τ σ :=
  requests.foldl (ask answer) { state := start }

theorem foldl_keeps {P : Transcript ρ τ σ → Prop}
    (step : ∀ t request, P t → P (t.ask answer request)) (requests : List ρ)
    {t : Transcript ρ τ σ} (h : P t) : P (requests.foldl (ask answer) t) := by
  induction requests generalizing t with
  | nil => exact h
  | cons request rest ih => exact ih (step t request h)

/-- What every request preserves holds at the end. -/
theorem of_keeps {P : Transcript ρ τ σ → Prop}
    (step : ∀ t request, P t → P (t.ask answer request)) {start : σ} (h : P { state := start })
    (requests : List ρ) : P (of answer start requests) :=
  foldl_keeps answer step requests h

theorem map_fst_foldl (requests : List ρ) (t : Transcript ρ τ σ) :
    (requests.foldl (ask answer) t).log.map (·.1) = t.log.map (·.1) ++ requests := by
  induction requests generalizing t with
  | nil => simp
  | cons request rest ih =>
      rw [List.foldl_cons, ih]
      simp [ask]

/-- The log has the requests that were made, in order. -/
theorem map_fst_log (start : σ) (requests : List ρ) :
    (of answer start requests).log.map (·.1) = requests := by
  rw [of, map_fst_foldl]
  rfl

end Transcript
end FormulaCompiler
