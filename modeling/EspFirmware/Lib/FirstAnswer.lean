import EspFirmware.Lib.Run

/-!
# A cell that remembers its first answer

A function of a key is asked through a cell.  The cell computes the answer the first time it is asked
with a key and gives that answer ever after, also when another key was set in between.  The function may
fail, and the cell with it.

* `Cell`, `ask`, `Call`, `step` — the cell and its calls; without a key the answer is a default;
* `keyAfter`, `firstAsked` — the current key, and the key whose answer is remembered;
* `Asked` — a key a run asks with;
* `run_spec` — what a run leaves in the cell;
* `fresh_iff` — every question of a run is answered and no answer is stale exactly if any two keys that
  are asked have the same answer.
-/

namespace FirstAnswer

variable {κ β ε : Type}

structure Cell (κ β : Type) where
  key : Option κ
  memo : Option β

inductive Call (κ : Type) where
  | set (key : Option κ)
  | ask

/-- Ask the cell. -/
def ask (f : κ → Except ε β) (default : β) (c : Cell κ β) : Except ε (β × Cell κ β) :=
  match c.key, c.memo with
  | none, _ => .ok (default, c)
  | some _, some b => .ok (b, c)
  | some k, none => f k >>= fun b => .ok (b, { c with memo := some b })

def step (f : κ → Except ε β) (default : β) (c : Cell κ β) : Call κ → Except ε (Cell κ β)
  | .set key => .ok { c with key := key }
  | .ask => ask f default c >>= fun r => .ok r.2

/-- The answer a cell gives. -/
def answer (f : κ → Except ε β) (default : β) (c : Cell κ β) : Except ε β :=
  ask f default c >>= fun r => .ok r.1

/-- The key after a list of calls. -/
def keyAfter : Option κ → List (Call κ) → Option κ
  | key, [] => key
  | _, .set key :: calls => keyAfter key calls
  | key, .ask :: calls => keyAfter key calls

/-- The first key that is asked. -/
def firstAsked : Option κ → List (Call κ) → Option κ
  | _, [] => none
  | _, .set key :: calls => firstAsked key calls
  | none, .ask :: calls => firstAsked none calls
  | some k, .ask :: _ => some k

/-- A key the calls ask with. -/
def Asked (calls : List (Call κ)) (k : κ) : Prop :=
  ∃ before after, calls = before ++ .ask :: after ∧ keyAfter none before = some k

/-- Every question the run comes to is answered, and as an empty memory would answer it. -/
def Fresh (f : κ → Except ε β) (default : β) (calls : List (Call κ)) : Prop :=
  ∀ before after c, calls = before ++ .ask :: after →
    FallibleRun.run (step f default) ⟨none, none⟩ before = .ok c →
    ∃ b, answer f default c = .ok b ∧ answer f default { c with memo := none } = .ok b

/-- Any two keys that are asked have the same answer. -/
def Steady (f : κ → Except ε β) (calls : List (Call κ)) : Prop :=
  ∀ k k', Asked calls k → Asked calls k' → ∃ b, f k = .ok b ∧ f k' = .ok b

variable {f : κ → Except ε β} {default : β}

/-- Once there is an answer, a run only changes the key. -/
theorem run_remembered (b : β) (calls : List (Call κ)) (key : Option κ) :
    FallibleRun.run (step f default) ⟨key, some b⟩ calls = .ok ⟨keyAfter key calls, some b⟩ := by
  induction calls generalizing key with
  | nil => rfl
  | cons call calls ih =>
      cases call with
      | set key' => exact ih key'
      | ask => cases key <;> exact ih _

/-- **What a run leaves in the cell.** -/
theorem run_spec (calls : List (Call κ)) (key : Option κ) :
    FallibleRun.run (step f default) ⟨key, none⟩ calls =
      match firstAsked key calls with
      | none => .ok ⟨keyAfter key calls, none⟩
      | some first => f first >>= fun b => .ok ⟨keyAfter key calls, some b⟩ := by
  induction calls generalizing key with
  | nil => cases key <;> rfl
  | cons call calls ih =>
      cases call with
      | set key' => exact ih key'
      | ask =>
          cases key with
          | none => exact ih none
          | some k =>
              show (ask f default ⟨some k, none⟩ >>= fun r => .ok r.2) >>= _ = f k >>= _
              show ((f k >>= fun b => .ok (b, (⟨some k, some b⟩ : Cell κ β))) >>= fun r => .ok r.2)
                >>= _ = f k >>= _
              cases hk : f k with
              | error e => rfl
              | ok b => exact run_remembered b calls (some k)

/-- The key whose answer is remembered was the current one at the first question with a key. -/
theorem firstAsked_split {calls : List (Call κ)} {key : Option κ} {first : κ}
    (h : firstAsked key calls = some first) :
    ∃ before after, calls = before ++ .ask :: after ∧ keyAfter key before = some first ∧
      firstAsked key before = none := by
  induction calls generalizing key with
  | nil => cases h
  | cons call calls ih =>
      cases call with
      | set key' =>
          obtain ⟨before, after, rfl, hkey, hnone⟩ := @ih key' h
          exact ⟨.set key' :: before, after, rfl, hkey, hnone⟩
      | ask =>
          cases key with
          | none =>
              obtain ⟨before, after, rfl, hkey, hnone⟩ := @ih none h
              exact ⟨.ask :: before, after, rfl, hkey, hnone⟩
          | some k => exact ⟨[], calls, rfl, h, rfl⟩

theorem firstAsked_append {calls : List (Call κ)} {key : Option κ} {first : κ}
    (h : firstAsked key calls = some first) (more : List (Call κ)) :
    firstAsked key (calls ++ more) = some first := by
  induction calls generalizing key with
  | nil => cases h
  | cons call calls ih =>
      cases call with
      | set key' => exact @ih key' h
      | ask =>
          cases key with
          | none => exact @ih none h
          | some k => exact h

theorem firstAsked_ask {before : List (Call κ)} {key : Option κ} {k : κ}
    (hnone : firstAsked key before = none) (hkey : keyAfter key before = some k)
    (after : List (Call κ)) : firstAsked key (before ++ .ask :: after) = some k := by
  induction before generalizing key with
  | nil =>
      obtain rfl : key = some k := hkey
      rfl
  | cons call calls ih =>
      cases call with
      | set key' => exact @ih key' hnone hkey
      | ask =>
          cases key with
          | none => exact @ih none hnone hkey
          | some k' => cases hnone

/-- The first key of a fresh run has an answer. -/
theorem Fresh.first {calls : List (Call κ)} {first : κ} (h : Fresh f default calls)
    (hfirst : firstAsked none calls = some first) : ∃ b, f first = .ok b := by
  obtain ⟨before, after, hcalls, hkey, hnone⟩ := firstAsked_split hfirst
  have hrun : FallibleRun.run (step f default) ⟨none, none⟩ before = _ := run_spec before none
  rw [hnone] at hrun
  obtain ⟨b, hb, -⟩ := h before after _ hcalls hrun
  rw [hkey] at hb
  obtain ⟨r, hr, -⟩ := FallibleRun.bind_ok hb
  obtain ⟨b', hb', -⟩ := FallibleRun.bind_ok hr
  exact ⟨b', hb'⟩

/-- Every key of a fresh run has the answer of the first. -/
theorem Fresh.asked {calls : List (Call κ)} {k : κ} (h : Fresh f default calls) (hk : Asked calls k) :
    ∃ first b, firstAsked none calls = some first ∧ f first = .ok b ∧ f k = .ok b := by
  obtain ⟨before, after, hcalls, hkey⟩ := hk
  cases hfirst : firstAsked none before with
  | none =>
      have hcallsFirst : firstAsked none calls = some k := by
        rw [hcalls]
        exact firstAsked_ask hfirst hkey after
      obtain ⟨b, hb⟩ := h.first hcallsFirst
      exact ⟨k, b, hcallsFirst, hb, hb⟩
  | some first =>
      have hcallsFirst : firstAsked none calls = some first := by
        rw [hcalls]
        exact firstAsked_append hfirst _
      obtain ⟨b, hb⟩ := h.first hcallsFirst
      have hrun : FallibleRun.run (step f default) ⟨none, none⟩ before = _ := run_spec before none
      rw [hfirst] at hrun
      simp only [hb] at hrun
      obtain ⟨b', hmemo, hreset⟩ := h before after _ hcalls hrun
      rw [hkey] at hmemo hreset
      obtain rfl : b = b' := Except.ok.inj hmemo
      obtain ⟨r, hr, hrb⟩ := FallibleRun.bind_ok hreset
      obtain ⟨b'', hb'', hr'⟩ := FallibleRun.bind_ok hr
      obtain rfl := Except.ok.inj hr'
      obtain rfl : b'' = b := Except.ok.inj hrb
      exact ⟨first, b'', hcallsFirst, hb, hb''⟩

/-- **Every question is answered and no answer is stale exactly if any two keys that are asked have the
same answer.** -/
theorem fresh_iff (calls : List (Call κ)) : Fresh f default calls ↔ Steady f calls := by
  constructor
  · intro hfresh k k' hk hk'
    obtain ⟨first, b, hfirst, hb, hkb⟩ := hfresh.asked hk
    obtain ⟨first', b', hfirst', hb', hkb'⟩ := hfresh.asked hk'
    obtain rfl : first = first' := Option.some.inj (hfirst.symm.trans hfirst')
    obtain rfl : b = b' := Except.ok.inj (hb.symm.trans hb')
    exact ⟨b, hkb, hkb'⟩
  · intro hsteady before after c hcalls hrun
    rw [run_spec] at hrun
    cases hfirst : firstAsked none before with
    | none =>
        rw [hfirst] at hrun
        cases hrun
        cases hkey : keyAfter none before with
        | none => exact ⟨default, rfl, rfl⟩
        | some k =>
            have hk : Asked calls k := ⟨before, after, hcalls, hkey⟩
            obtain ⟨b, hb, -⟩ := hsteady k k hk hk
            have hanswer : answer f default ⟨some k, none⟩ = .ok b := by
              show (f k >>= fun b => .ok (b, _)) >>= _ = _
              rw [hb]
              rfl
            exact ⟨b, hanswer, hanswer⟩
    | some first =>
        rw [hfirst] at hrun
        obtain ⟨b, hb, hc⟩ := FallibleRun.bind_ok hrun
        cases hc
        cases hkey : keyAfter none before with
        | none => exact ⟨default, rfl, rfl⟩
        | some k =>
            obtain ⟨before', after', hbefore, hfirstKey, -⟩ := firstAsked_split hfirst
            have hasked : Asked calls first :=
              ⟨before', after' ++ .ask :: after, by rw [hcalls, hbefore]; simp, hfirstKey⟩
            obtain ⟨b', hb', hk⟩ := hsteady first k hasked ⟨before, after, hcalls, hkey⟩
            obtain rfl : b = b' := Except.ok.inj (hb.symm.trans hb')
            refine ⟨b, rfl, ?_⟩
            show (f k >>= fun b => .ok (b, _)) >>= _ = _
            rw [hk]
            rfl

end FirstAnswer
