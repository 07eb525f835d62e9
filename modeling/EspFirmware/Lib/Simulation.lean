import Mathlib.Tactic.Common

/-!
# Backward simulation

Two deterministic machines that answer calls.  The abstract one may have to know in advance what the
concrete one will do, so its start is chosen last: from a state that fits the end of the run, call by call
back to one that fits the beginning.

* `answers` — what a machine answers to a list of calls;
* `answers_backward` — every run of the concrete machine is a run of the abstract one.
-/

namespace Simulation

variable {σ τ ι ο : Type}

/-- The answers to a list of calls, and the state after them. -/
def answers (f : σ → ι → ο × σ) : σ → List ι → List ο × σ
  | s, [] => ([], s)
  | s, i :: is => ((f s i).1 :: (answers f (f s i).2 is).1, (answers f (f s i).2 is).2)

/-- Every call is admitted in the state it finds. -/
def Admits (f : σ → ι → ο × σ) (ok : σ → ι → Prop) : σ → List ι → Prop
  | _, [] => True
  | s, i :: is => ok s i ∧ Admits f ok (f s i).2 is

/-- **The backward rule.** -/
theorem answers_backward {f : σ → ι → ο × σ} {g : τ → ι → ο × τ} {ok : σ → ι → Prop}
    {R : σ → τ → Prop} (hend : ∀ s, ∃ t, R s t)
    (hback : ∀ s i t', ok s i → R (f s i).2 t' → ∃ t, R s t ∧ g t i = ((f s i).1, t'))
    (s : σ) (is : List ι) (h : Admits f ok s is) :
    ∃ t, R s t ∧ (answers g t is).1 = (answers f s is).1 := by
  induction is generalizing s with
  | nil =>
      obtain ⟨t, ht⟩ := hend s
      exact ⟨t, ht, rfl⟩
  | cons i is ih =>
      obtain ⟨t', ht', heq⟩ := ih (f s i).2 h.2
      obtain ⟨t, ht, hg⟩ := hback s i t' h.1 ht'
      refine ⟨t, ht, ?_⟩
      simp only [answers, hg, heq]

end Simulation
