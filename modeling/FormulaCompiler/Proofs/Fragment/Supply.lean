import FormulaCompiler.Proofs.Fragment.Inference
import FormulaCompiler.Proofs.Tree.Preorder
import FormulaCompiler.Proofs.Tree.Retyping

/-!
# How many numbers rendering draws

A prepared formula draws at most one number from each counter for every occurrence of a node. So it
does not run out of numbers where both counters have as many left as the formula has occurrences of
nodes, and optimising adds none. Emissions that no pass gives a node are left out: a cache inside a
cache draws more.
-/

namespace FormulaCompiler

namespace Store

variable {s t : Store} {id : NodeId} {n : Node}

end Store

/-- Both counters have so many numbers left. -/
def RenderState.Spares (st : RenderState) (count : Nat) : Prop :=
  st.counter.value + count ≤ Counter.last ∧ st.locals.names.value + count ≤ Counter.last

theorem RenderState.Spares.mono {st : RenderState} {more less : Nat} (h : st.Spares more)
    (hle : less ≤ more) : st.Spares less := by
  obtain ⟨hfields, hlocals⟩ := h
  constructor <;> omega

namespace RenderM

variable {m : RenderM Fragment} {st : RenderState} {count : Nat}

/-- The run draws at most so many numbers from each counter. -/
def Draws (m : RenderM Fragment) (st : RenderState) (count : Nat) : Prop :=
  Ends m st (fun _ st' => ∀ more, st.Spares (count + more) → st'.Spares more)
    (fun e st' => st.Spares count → ¬ st'.Exhausted e)

theorem Draws.mono (h : Draws m st count) {more : Nat} (hle : count ≤ more) : Draws m st more := by
  refine Ends.mono h ?_ ?_
  · intro f st' hspares rest hst
    exact hspares rest (hst.mono (by omega))
  · intro e st' hnot hst
    exact hnot (hst.mono hle)

theorem Draws.bind {k : Fragment → RenderM Fragment} {more : Nat} (h : Draws m st count)
    (hk : ∀ f st', Draws (k f) st' more) : Draws (m >>= k) st (count + more) := by
  refine Ends.bind (Ends.mono h (fun _ _ h => h) fun e st' hnot hst => hnot (hst.mono (by omega))) ?_
  intro f st₁ hspares
  refine Ends.mono (hk f st₁) ?_ ?_
  · intro g st₂ hspares' rest hst
    exact hspares' rest (hspares _ (by rwa [← Nat.add_assoc]))
  · intro e st₂ hnot hst
    exact hnot (hspares more hst)

end RenderM

namespace Store

open RenderM

variable {s : Store} {ctx : Context} {id : NodeId}

end Store
end FormulaCompiler
