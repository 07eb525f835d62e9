import Mathlib.Tactic.Common

/-!
# Runs of a fallible step function

A system whose step may stop with a fault, fed a list of inputs.  A run that has not faulted has passed
through every state on the way, so what each step preserves holds of whatever a run reaches.

* `run_cons_ok`, `run_append_ok` — a successful run taken apart;
* `run_invariant` — the induction over the inputs, once;
* `states_cons`, `steps_cons` — the states and the steps of a run, by its first step;
* `run_holds_iff` — where each step says exactly when a property survives it, so does a whole run.
-/

namespace FallibleRun

variable {σ ι ε : Type} {step : σ → ι → Except ε σ}

/-- Peel one step off a computation that succeeded. -/
theorem bind_ok {α β : Type} {x : Except ε α} {f : α → Except ε β} {b : β}
    (h : (x >>= f) = .ok b) : ∃ a, x = .ok a ∧ f a = .ok b := by
  cases x with
  | error e => cases h
  | ok a => exact ⟨a, rfl, h⟩

/-- Feed the inputs one after another. -/
def run (step : σ → ι → Except ε σ) : σ → List ι → Except ε σ
  | s, [] => .ok s
  | s, i :: is => do
      let s' ← step s i
      run step s' is

theorem run_cons_ok {s t : σ} {i : ι} {is : List ι} (h : run step s (i :: is) = .ok t) :
    ∃ s', step s i = .ok s' ∧ run step s' is = .ok t := bind_ok h

theorem run_append_ok {s t : σ} {is js : List ι} (h : run step s (is ++ js) = .ok t) :
    ∃ s', run step s is = .ok s' ∧ run step s' js = .ok t := by
  induction is generalizing s with
  | nil => exact ⟨s, rfl, h⟩
  | cons i is ih =>
      obtain ⟨s₁, hstep, hrest⟩ := run_cons_ok h
      obtain ⟨s₂, hs₂, ht⟩ := ih hrest
      refine ⟨s₂, ?_, ht⟩
      rw [run, hstep]
      exact hs₂

/-- **The invariant rule.**  What every admitted step preserves holds at the end of every admitted run. -/
theorem run_invariant {P : σ → Prop} {Q : ι → Prop}
    (hstep : ∀ s i s', P s → Q i → step s i = .ok s' → P s') {s t : σ} {is : List ι} (hs : P s)
    (his : ∀ i ∈ is, Q i) (h : run step s is = .ok t) : P t := by
  induction is generalizing s with
  | nil =>
      obtain rfl : s = t := by simpa [run] using h
      exact hs
  | cons i is ih =>
      obtain ⟨s', hs', ht⟩ := run_cons_ok h
      exact ih (hstep s i s' hs (his i List.mem_cons_self) hs')
        (fun j hj => his j (List.mem_cons_of_mem _ hj)) ht

section Passed

variable {P : σ → Prop} {Q : σ → ι → Prop} {s : σ}

/-- The states a run passes through, by its first step. -/
theorem states_cons {i : ι} {is : List ι} :
    (∀ before after u, i :: is = before ++ after → run step s before = .ok u → P u) ↔
      P s ∧ ∀ s', step s i = .ok s' →
        ∀ before after u, is = before ++ after → run step s' before = .ok u → P u := by
  constructor
  · intro h
    refine ⟨h [] (i :: is) s rfl rfl, fun s' hs' before after u heq hrun => ?_⟩
    refine h (i :: before) after u (by rw [heq]; rfl) ?_
    rw [run, hs']
    exact hrun
  · rintro ⟨hs, hrest⟩ before after u heq hrun
    rcases List.cons_eq_append_iff.mp heq with ⟨rfl, -⟩ | ⟨before', rfl, heq'⟩
    · cases hrun
      exact hs
    · obtain ⟨s', hs', hrun'⟩ := run_cons_ok hrun
      exact hrest s' hs' before' after u heq' hrun'

/-- The steps of a run, by the first of them. -/
theorem steps_cons {i : ι} {is : List ι} :
    (∀ before j after u, i :: is = before ++ j :: after → run step s before = .ok u → Q u j) ↔
      Q s i ∧ ∀ s', step s i = .ok s' →
        ∀ before j after u, is = before ++ j :: after → run step s' before = .ok u → Q u j := by
  constructor
  · intro h
    refine ⟨h [] i is s rfl rfl, fun s' hs' before j after u heq hrun => ?_⟩
    refine h (i :: before) j after u (by rw [heq]; rfl) ?_
    rw [run, hs']
    exact hrun
  · rintro ⟨hs, hrest⟩ before j after u heq hrun
    rcases List.cons_eq_append_iff.mp heq with ⟨rfl, hj⟩ | ⟨before', rfl, heq'⟩
    · cases hrun
      obtain ⟨rfl, -⟩ := List.cons.inj hj
      exact hs
    · obtain ⟨s', hs', hrun'⟩ := run_cons_ok hrun
      exact hrest s' hs' before' j after u heq' hrun'

/-- **The exact rule.**  Where an invariant `I` tells of each step whether `P` survives it, `P` holds in
every state a run passes through if and only if every step of the run is one it survives. -/
theorem run_holds_iff {I : σ → Prop} (hinv : ∀ s i s', I s → step s i = .ok s' → I s')
    (hstep : ∀ s i s', I s → P s → step s i = .ok s' → (P s' ↔ Q s i)) {t : σ} {is : List ι}
    (hI : I s) (hs : P s) (h : run step s is = .ok t) :
    (∀ before after u, is = before ++ after → run step s before = .ok u → P u) ↔
      ∀ before i after u, is = before ++ i :: after → run step s before = .ok u → Q u i := by
  induction is generalizing s with
  | nil =>
      refine ⟨fun _ before i after u heq => by simp at heq, fun _ before after u heq hrun => ?_⟩
      obtain ⟨rfl, -⟩ := List.nil_eq_append_iff.mp heq
      cases hrun
      exact hs
  | cons i is ih =>
      obtain ⟨s', hs', ht⟩ := run_cons_ok h
      have hfirst := hstep s i s' hI hs hs'
      have hunique : ∀ s'', step s i = .ok s'' → s' = s'' := fun s'' h =>
        Except.ok.inj (hs'.symm.trans h)
      rw [states_cons, steps_cons]
      constructor
      · rintro ⟨-, hrest⟩
        have hP : P s' := hrest s' hs' [] is s' rfl rfl
        refine ⟨hfirst.mp hP, fun s'' hs'' => ?_⟩
        obtain rfl := hunique s'' hs''
        exact (ih (hinv s i s' hI hs') hP ht).mp (hrest s' hs')
      · rintro ⟨hQ, hrest⟩
        have hP : P s' := hfirst.mpr hQ
        refine ⟨hs, fun s'' hs'' => ?_⟩
        obtain rfl := hunique s'' hs''
        exact (ih (hinv s i s' hI hs') hP ht).mpr (hrest s' hs')

end Passed

end FallibleRun
