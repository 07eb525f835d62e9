import EspFirmware.Timer

/-!
# When the timer fires

A timer holds ten events and runs callbacks that use it.  An event that nobody stops still behaves as if
it were alone: what it does depends on its own fields and on the times of the updates.

* `Slot.alone` — what one event does over a list of updates;
* `Held`, `Gone` — the event is in its slot, or has left the timer for good;
* `run_alone` — in every run the event does what it would do alone;
* `onTime`, `alone_onTime` — in real time, across wraps of the millisecond counter;
* `alone_pins` — the levels an oscillation writes.
-/

namespace EspFirmware.Timer

open Clock

/-! ### One event alone -/

/-- `!pinState`. -/
def flip (value : UInt8) : UInt8 := if value = 0 then 1 else 0

/-- What an event shows when it fires. -/
def Slot.shows (e : Slot) (now : UInt32) : List Event :=
  .fired e.id now :: if e.eventType = .oscillate then [.pinWritten e.id e.pin (flip e.pinState)] else []

/-- The event after the `switch` of its update. -/
def Slot.switched (e : Slot) : Slot :=
  { e with pinState := if e.eventType = .oscillate then flip e.pinState else e.pinState }

/-- The event after it has fired. -/
def Slot.fired (e : Slot) (now : UInt32) : Slot :=
  { e.switched with lastEventTime := now, count := e.count + 1 }

/-- The period has passed. -/
def Slot.Due (e : Slot) (now : UInt32) : Prop := e.period ≤ now - e.lastEventTime

/-- The event has run often enough. -/
def Slot.Done (e : Slot) : Prop := e.repeatCount > -1 ∧ e.count ≥ e.repeatCount

instance (e : Slot) (now : UInt32) : Decidable (e.Due now) := by
  unfold Slot.Due
  infer_instance

instance (e : Slot) : Decidable e.Done := by
  unfold Slot.Done
  infer_instance

/-- The event after an update. -/
def Slot.updated (e : Slot) (now : UInt32) : Slot := if e.Due now then e.fired now else e

/-- What an event does over the updates at `nows`. -/
def Slot.alone : Slot → List UInt32 → List Event
  | _, [] => []
  | e, now :: nows =>
      (if e.Due now then e.shows now else []) ++
        if (e.updated now).Done then [] else (e.updated now).alone nows

/-- What is seen of one registration. -/
def Event.Of (id : ℕ) : Event → Bool
  | .fired j _ => j == id
  | .pinWritten j _ _ => j == id
  | _ => false

def observe (id : ℕ) (trace : List Event) : List Event := trace.filter (Event.Of id)

/-- The times of the updates among the calls. -/
def updates (calls : List Call) : List UInt32 :=
  calls.filterMap fun c => match c with
    | .op _ => none
    | .update now => some now

/-! ### What other events do to it -/

/-- Slot `i` holds `e`, and no other slot holds its registration. -/
structure Held (s : State) (i : Fin 10) (e : Slot) : Prop where
  slot : s.events i = e
  live : e.eventType ≠ .none
  known : e.id < s.next
  only : ∀ j, j ≠ i → s.Live j → (s.events j).id ≠ e.id

/-- The registration has left the timer. -/
structure Gone (s : State) (id : ℕ) : Prop where
  known : id < s.next
  free : ∀ j, s.Live j → (s.events j).id ≠ id

/-- **Everything a call can do**: nothing, fill a free slot, or free a slot. -/
inductive CallSpec (s : State) : State → Prop
  | nothing : CallSpec s s
  | registered (j : Fin 10) (f : Slot → Slot) (r : ℤ) : (s.events j).eventType = .none →
      CallSpec s (s.register j f r)
  | oscillating (j : Fin 10) (f : Slot → Slot) (r : ℤ) (pin value : UInt8) :
      (s.events j).eventType = .none →
      CallSpec s ((s.register j f r).log (.pinWritten s.next pin value))
  | stopped (j : Fin 10) : s.Live j →
      CallSpec s ((s.log (.stopped (s.events j).id)).modify j fun e => { e with eventType := .none })
  | stoppedFree (j : Fin 10) : (s.events j).eventType = .none →
      CallSpec s (s.modify j fun e => { e with eventType := .none })

theorem apply_spec (s : State) (o : Op) : CallSpec s (o.apply s) := by
  have hosc : ∀ pin period value transitions asked millis,
      CallSpec s (s.oscillation pin period value transitions asked millis).2 := by
    intro pin period value transitions asked millis
    unfold State.oscillation
    split
    · exact .nothing
    · rename_i j hj
      exact .oscillating j _ _ _ _ (free_of_findFreeEventIndex hj)
  cases o with
  | every period callback repeatCount millis =>
      show CallSpec s (s.every period callback repeatCount millis).2
      unfold State.every
      split
      · exact .nothing
      · rename_i j hj
        exact .registered j _ _ (free_of_findFreeEventIndex hj)
  | oscillate pin period startingValue repeatCount millis => exact hosc _ _ _ _ _ _
  | pulseImmediate pin period pulseValue millis => exact hosc _ _ _ _ _ _
  | stop id =>
      show CallSpec s (s.stop id)
      unfold State.stop
      split_ifs with hrange
      · simp only
        split_ifs with hfree
        · exact .stoppedFree _ hfree
        · exact .stopped _ hfree
      · exact .nothing

namespace CallSpec

variable {s s' : State} {i : Fin 10} {e : Slot} {id : ℕ}

/-- A call only adds to the trace. -/
theorem trace_grows (h : CallSpec s s') : s.trace <+: s'.trace := by
  cases h with
  | nothing => exact List.prefix_refl _
  | registered => exact List.prefix_append _ _
  | oscillating j f r pin value _ =>
      exact (List.prefix_append s.trace [.registered s.next r]).trans (List.prefix_append _ _)
  | stopped => exact List.prefix_append _ _
  | stoppedFree => exact List.prefix_refl _

theorem next_le (h : CallSpec s s') : s.next ≤ s'.next := by
  cases h with
  | registered => exact Nat.le_succ _
  | oscillating => exact Nat.le_succ _
  | _ => exact le_rfl

/-- Nothing is seen of a registration made before. -/
theorem observe_eq (h : CallSpec s s') (hid : id < s.next) :
    observe id s'.trace = observe id s.trace := by
  have hne : ¬s.next = id := by omega
  cases h with
  | nothing => rfl
  | registered j f r _ =>
      show observe id (s.trace ++ [.registered s.next r]) = _
      simp [observe, Event.Of]
  | oscillating j f r pin value _ =>
      show observe id (s.trace ++ [.registered s.next r] ++ [.pinWritten s.next pin value]) = _
      simp [observe, Event.Of, hne]
  | stopped j _ =>
      show observe id (s.trace ++ [.stopped (s.events j).id]) = _
      simp [observe, Event.Of]
  | stoppedFree => rfl

/-- A live slot after a call: as before, or filled by a new registration. -/
theorem live_cases (h : CallSpec s s') {j : Fin 10} (hj : s'.Live j) :
    (s.Live j ∧ s'.events j = s.events j) ∨ (s'.events j).id = s.next := by
  have hfree : ∀ {k : Fin 10} {t : State},
      (t.modify k fun e => { e with eventType := .none }).Live j →
      t.events = s.events → (s.Live j ∧
        (t.modify k fun e => { e with eventType := .none }).events j = s.events j) := by
    intro k t hlive ht
    have hne : j ≠ k := by
      rintro rfl
      exact hlive (by rw [modify_same])
    rw [State.Live, modify_other hne, ht] at hlive
    rw [modify_other hne, ht]
    exact ⟨hlive, rfl⟩
  have hreg : ∀ {k : Fin 10} {f : Slot → Slot} {r : ℤ}, (s.register k f r).Live j →
      (s.Live j ∧ (s.register k f r).events j = s.events j) ∨
        ((s.register k f r).events j).id = s.next := by
    intro k f r hlive
    by_cases hne : j = k
    · subst hne
      exact .inr (by rw [register_same])
    · rw [State.Live, register_other hne] at hlive
      exact .inl ⟨hlive, register_other hne⟩
  cases h with
  | nothing => exact .inl ⟨hj, rfl⟩
  | registered k f r _ => exact hreg (r := r) hj
  | oscillating k f r pin value _ => exact hreg (r := r) hj
  | stopped k _ => exact .inl (hfree hj rfl)
  | stoppedFree k _ => exact .inl (hfree hj rfl)

/-- An event that is not stopped stays as it is. -/
theorem slot_eq (h : CallSpec s s') (hlive : s.Live i) (hstop : .stopped (s.events i).id ∉ s'.trace) :
    s'.events i = s.events i := by
  cases h with
  | nothing => rfl
  | registered k f r hfree =>
      exact register_other fun heq => hlive (by rw [heq]; exact hfree)
  | oscillating k f r pin value hfree =>
      exact register_other (r := r) fun heq => hlive (by rw [heq]; exact hfree)
  | stopped k _ =>
      refine modify_other fun heq => hstop ?_
      subst heq
      rw [modify_trace, log_trace]
      simp
  | stoppedFree k hfree =>
      exact modify_other fun heq => hlive (by rw [heq]; exact hfree)

end CallSpec

/-! ### What leaves a registration alone -/

/-- From `s` to `s'` nothing happens to the registration `id`, unless it is stopped. -/
structure Kept (id : ℕ) (s s' : State) : Prop where
  trace : s.trace <+: s'.trace
  next : s.next ≤ s'.next
  seen : observe id s'.trace = observe id s.trace
  apart : ∀ j, (s.Live j → (s.events j).id ≠ id) → s'.Live j → (s'.events j).id ≠ id
  slot : ∀ i, s.Live i → (s.events i).id = id → .stopped id ∉ s'.trace → s'.events i = s.events i

namespace Kept

variable {id : ℕ} {s s' s'' : State} {i j : Fin 10} {e : Slot}

theorem refl (id : ℕ) (s : State) : Kept id s s :=
  ⟨List.prefix_refl _, le_rfl, rfl, fun _ h => h, fun _ _ _ _ => rfl⟩

theorem trans (h : Kept id s s') (h' : Kept id s' s'') : Kept id s s'' where
  trace := h.trace.trans h'.trace
  next := h.next.trans h'.next
  seen := h'.seen.trans h.seen
  apart j hj := h'.apart j (h.apart j hj)
  slot i hlive hid hstop := by
    have hfirst := h.slot i hlive hid fun hm => hstop (h'.trace.subset hm)
    have hsecond := h'.slot i (by rw [State.Live, hfirst]; exact hlive) (by rw [hfirst]; exact hid) hstop
    rw [hsecond, hfirst]

theorem gone (h : Kept id s s') (hgone : Gone s id) : Gone s' id :=
  ⟨lt_of_lt_of_le hgone.known h.next, fun j hj => h.apart j (hgone.free j) hj⟩

theorem held (h : Kept e.id s s') (hheld : Held s i e) (hstop : .stopped e.id ∉ s'.trace) :
    Held s' i e := by
  have hlive : s.Live i := by
    rw [State.Live, hheld.slot]
    exact hheld.live
  have hslot := h.slot i hlive (by rw [hheld.slot]) hstop
  exact ⟨hslot.trans hheld.slot, hheld.live, lt_of_lt_of_le hheld.known h.next,
    fun j hj hlive' => h.apart j (hheld.only j hj) hlive'⟩

/-- A change to a slot that does not hold the registration, and does not make it hold one. -/
theorem modify {f : Slot → Slot} (hf : ∀ e, (f e).eventType ≠ .none → e.eventType ≠ .none ∧ (f e).id = e.id)
    (hj : s.Live j → (s.events j).id ≠ id) : Kept id s (s.modify j f) where
  trace := List.prefix_refl _
  next := le_rfl
  seen := rfl
  apart k hk hlive := by
    by_cases hkj : k = j
    · subst hkj
      rw [State.Live, modify_same] at hlive
      rw [modify_same, (hf _ hlive).2]
      exact hk (hf _ hlive).1
    · rw [State.Live, modify_other hkj] at hlive
      rw [modify_other hkj]
      exact hk hlive
  slot i hlive hid _ := modify_other fun heq => hj (heq ▸ hlive) (heq ▸ hid)

/-- Logging something else. -/
theorem log {d : Event} (hd : Event.Of id d = false) : Kept id s (s.log d) where
  trace := List.prefix_append _ _
  next := le_rfl
  seen := by
    rw [log_trace, observe, List.filter_append, List.filter_singleton, hd]
    exact List.append_nil _
  apart _ h := h
  slot _ _ _ _ := rfl

theorem expire (hj : s.Live j → (s.events j).id ≠ id) : Kept id s (s.expire j) := by
  unfold State.expire
  split_ifs
  · exact .modify (fun e hne => absurd rfl hne) hj
  · exact .refl id s

end Kept

theorem CallSpec.kept {s s' : State} {id : ℕ} (h : CallSpec s s') (hid : id < s.next) : Kept id s s' where
  trace := h.trace_grows
  next := h.next_le
  seen := h.observe_eq hid
  apart j hj hlive := by
    rcases h.live_cases hlive with ⟨hlive', heq⟩ | hnew
    · rw [heq]
      exact hj hlive'
    · rw [hnew]
      exact Nat.ne_of_gt hid
  slot i hlive hi hstop := h.slot_eq hlive (hi ▸ hstop)

theorem applyAll_kept (ops : List Op) {s : State} {id : ℕ} (hid : id < s.next) :
    Kept id s (ops.foldl Op.apply s) := by
  induction ops generalizing s with
  | nil => exact .refl id s
  | cons o ops ih =>
      have hfirst := (apply_spec s o).kept hid
      exact hfirst.trans (ih (lt_of_lt_of_le hid hfirst.next))

/-- **Another event's update leaves a registration alone**, whatever its callback does. -/
theorem updateEvent_kept (program : Program) (now : UInt32) {s : State} {id : ℕ} {j : Fin 10}
    (hid : id < s.next) (hj : s.Live j → (s.events j).id ≠ id) :
    Kept id s (s.updateEvent program now j) := by
  unfold State.updateEvent
  split_ifs with hfree hdue
  · exact .refl id s
  · have hlog : Kept id s (s.log (.fired (s.events j).id now)) :=
      .log (by simpa [Event.Of] using hj hfree)
    have hfire : Kept id s (s.fire program now j) := by
      cases htype : (s.events j).eventType with
      | none => exact absurd htype hfree
      | every =>
          simp only [State.fire, htype]
          exact hlog.trans (applyAll_kept _ hid)
      | oscillate =>
          simp only [State.fire, htype]
          have hflip := hlog.trans (.modify (f := fun e => { e with
            pinState := if (s.events j).pinState = 0 then 1 else 0 }) (fun e hne => ⟨hne, rfl⟩) hj)
          refine hflip.trans (.log ?_)
          simpa [Event.Of] using hj hfree
    have hcount := hfire.trans (.modify (f := fun e => { e with lastEventTime := now, count := e.count + 1 })
      (fun e hne => ⟨hne, rfl⟩) (hfire.apart j hj))
    exact hcount.trans (.expire (hcount.apart j hj))
  · exact .expire hj

/-! ### The event itself -/

namespace Held

variable {s : State} {i : Fin 10} {e : Slot}

theorem isLive (h : Held s i e) : s.Live i := by
  rw [State.Live, h.slot]
  exact h.live

theorem log (h : Held s i e) (d : Event) : Held (s.log d) i e := ⟨h.slot, h.live, h.known, h.only⟩

/-- A change of the event that keeps its registration. -/
theorem modify (h : Held s i e) {f : Slot → Slot} (hid : (f e).id = e.id)
    (hlive : (f e).eventType ≠ .none) : Held (s.modify i f) i (f e) := by
  refine ⟨by rw [modify_same, h.slot], hlive, hid ▸ h.known, fun j hj hlive' => ?_⟩
  rw [State.Live, modify_other hj] at hlive'
  rw [modify_other hj, hid]
  exact h.only j hj hlive'

/-- At the end of its update the event leaves if it has run often enough. -/
theorem expire (h : Held s i e) :
    if e.Done then Gone (s.expire i) e.id else Held (s.expire i) i e := by
  unfold State.expire
  rw [h.slot]
  show if e.Done then _ else _
  by_cases hdone : e.Done
  · have hcond : e.repeatCount > -1 ∧ e.count ≥ e.repeatCount := hdone
    rw [if_pos hdone, if_pos hcond]
    refine ⟨h.known, fun j hlive => ?_⟩
    have hj : j ≠ i := by
      rintro rfl
      exact hlive (by rw [modify_same])
    rw [State.Live, modify_other hj] at hlive
    rw [modify_other hj]
    exact h.only j hj hlive
  · have hcond : ¬(e.repeatCount > -1 ∧ e.count ≥ e.repeatCount) := hdone
    rw [if_neg hdone, if_neg hcond]
    exact h

end Held

theorem expire_trace (s : State) (i : Fin 10) : (s.expire i).trace = s.trace := by
  unfold State.expire
  split_ifs <;> rfl

theorem observe_append (id : ℕ) (t t' : List Event) : observe id (t ++ t') = observe id t ++ observe id t' :=
  List.filter_append ..

/-- The event fires as it does alone, and nothing its callback does reaches it. -/
theorem fire_self (program : Program) (now : UInt32) {s : State} {i : Fin 10} {e : Slot} (h : Held s i e)
    (hstop : .stopped e.id ∉ (s.fire program now i).trace) :
    observe e.id (s.fire program now i).trace = observe e.id s.trace ++ e.shows now ∧
      Held (s.fire program now i) i e.switched := by
  have hseen : observe e.id (s.log (.fired e.id now)).trace = observe e.id s.trace ++ [.fired e.id now] := by
    rw [log_trace, observe_append]
    simp [observe, Event.Of]
  have hlog := h.log (.fired e.id now)
  cases htype : e.eventType with
  | none => exact absurd htype h.live
  | every =>
      have hswitched : e.switched = e := by
        rw [Slot.switched, if_neg (by rw [htype]; decide)]
      have hfire : s.fire program now i
          = (program (s.log (.fired e.id now)).trace e.callback).foldl Op.apply (s.log (.fired e.id now)) := by
        simp only [State.fire, h.slot, htype]
      rw [hfire] at hstop
      rw [hfire, hswitched]
      have hkept := applyAll_kept (program (s.log (.fired e.id now)).trace e.callback)
        (s := s.log (.fired e.id now)) h.known
      refine ⟨?_, hkept.held hlog hstop⟩
      rw [hkept.seen, hseen, Slot.shows, if_neg (by rw [htype]; decide)]
  | oscillate =>
      have hswitched : e.switched = { e with pinState := flip e.pinState } := by
        rw [Slot.switched, if_pos htype]
      have hfire : s.fire program now i
          = ((s.log (.fired e.id now)).modify i fun e' => { e' with pinState := flip e.pinState }).log
              (.pinWritten e.id e.pin (flip e.pinState)) := by
        simp only [State.fire, h.slot, htype, flip]
      rw [hfire, hswitched]
      refine ⟨?_, (hlog.modify (f := fun e' => { e' with pinState := flip e.pinState }) rfl h.live).log _⟩
      rw [log_trace, modify_trace, observe_append, hseen, Slot.shows, if_pos htype]
      simp [observe, Event.Of]

/-- **The event's own update**: it does what it does alone, and stays in its slot or leaves. -/
theorem updateEvent_self (program : Program) (now : UInt32) {s : State} {i : Fin 10} {e : Slot}
    (h : Held s i e) (hstop : .stopped e.id ∉ (s.updateEvent program now i).trace) :
    observe e.id (s.updateEvent program now i).trace
        = observe e.id s.trace ++ (if e.Due now then e.shows now else []) ∧
      if (e.updated now).Done then Gone (s.updateEvent program now i) e.id
        else Held (s.updateEvent program now i) i (e.updated now) := by
  unfold State.updateEvent at hstop ⊢
  rw [if_neg h.isLive, h.slot] at hstop ⊢
  by_cases hdue : e.Due now
  · have hcond : e.period ≤ now - e.lastEventTime := hdue
    rw [if_pos hcond] at hstop ⊢
    rw [expire_trace, modify_trace] at hstop ⊢
    obtain ⟨hseen, hheld⟩ := fire_self program now h hstop
    have hcount := hheld.modify (f := fun e => { e with lastEventTime := now, count := e.count + 1 }) rfl
      h.live
    refine ⟨by rw [hseen, if_pos hdue], ?_⟩
    rw [Slot.updated, if_pos hdue]
    exact hcount.expire
  · have hcond : ¬e.period ≤ now - e.lastEventTime := hdue
    rw [if_neg hcond] at hstop ⊢
    refine ⟨by rw [expire_trace, if_neg hdue, List.append_nil], ?_⟩
    rw [Slot.updated, if_neg hdue]
    exact h.expire

/-! ### Runs -/

theorem run_cons (program : Program) (s : State) (c : Call) (calls : List Call) :
    s.run program (c :: calls) = (s.step program c).run program calls := rfl

theorem updates_op (o : Op) (calls : List Call) : updates (.op o :: calls) = updates calls := by
  simp [updates]

theorem updates_update (now : UInt32) (calls : List Call) :
    updates (.update now :: calls) = now :: updates calls := by
  simp [updates]

theorem applyAll_grows (ops : List Op) (s : State) : s.trace <+: (ops.foldl Op.apply s).trace := by
  induction ops generalizing s with
  | nil => exact List.prefix_refl _
  | cons o ops ih => exact (apply_spec s o).trace_grows.trans (ih _)

theorem updateEvent_grows (program : Program) (now : UInt32) (s : State) (i : Fin 10) :
    s.trace <+: (s.updateEvent program now i).trace := by
  unfold State.updateEvent
  split_ifs
  · exact List.prefix_refl _
  · rw [expire_trace, modify_trace]
    have hlog : s.trace <+: (s.log (.fired (s.events i).id now)).trace := List.prefix_append _ _
    cases htype : (s.events i).eventType with
    | none =>
        simp only [State.fire, htype]
        exact hlog
    | every =>
        simp only [State.fire, htype]
        exact hlog.trans (applyAll_grows _ _)
    | oscillate =>
        simp only [State.fire, htype]
        exact hlog.trans (List.prefix_append _ _)
  · simp [expire_trace]

theorem updateAll_grows (program : Program) (now : UInt32) (is : List (Fin 10)) (s : State) :
    s.trace <+: (is.foldl (State.updateEvent program now) s).trace := by
  induction is generalizing s with
  | nil => exact List.prefix_refl _
  | cons i is ih => exact (updateEvent_grows program now s i).trans (ih _)

theorem run_grows (program : Program) (calls : List Call) (s : State) :
    s.trace <+: (s.run program calls).trace := by
  induction calls generalizing s with
  | nil => exact List.prefix_refl _
  | cons c calls ih =>
      refine List.IsPrefix.trans ?_ (ih _)
      cases c with
      | op o => exact (apply_spec s o).trace_grows
      | update now => exact updateAll_grows program now _ s

/-- Updates of other events leave a registration alone. -/
theorem updateAll_kept (program : Program) (now : UInt32) (is : List (Fin 10)) {s : State} {id : ℕ}
    (hid : id < s.next) (his : ∀ j ∈ is, s.Live j → (s.events j).id ≠ id) :
    Kept id s (is.foldl (State.updateEvent program now) s) := by
  induction is generalizing s with
  | nil => exact .refl id s
  | cons i is ih =>
      have hfirst := updateEvent_kept program now hid (his i List.mem_cons_self)
      refine hfirst.trans (ih (lt_of_lt_of_le hid hfirst.next) fun j hj => ?_)
      exact hfirst.apart j (his j (List.mem_cons_of_mem _ hj))

/-- A registration that has left is not seen again. -/
theorem run_gone (program : Program) (calls : List Call) {s : State} {id : ℕ} (h : Gone s id) :
    observe id (s.run program calls).trace = observe id s.trace := by
  induction calls generalizing s with
  | nil => rfl
  | cons c calls ih =>
      have hstep : Kept id s (s.step program c) := by
        cases c with
        | op o => exact (apply_spec s o).kept h.known
        | update now => exact updateAll_kept program now _ h.known fun j _ => h.free j
      exact (ih (hstep.gone h)).trans hstep.seen

/-- One update of the timer: the event does what it does alone. -/
theorem update_held (program : Program) (now : UInt32) {s : State} {i : Fin 10} {e : Slot}
    (h : Held s i e) (hstop : .stopped e.id ∉ (s.update program now).trace) :
    observe e.id (s.update program now).trace
        = observe e.id s.trace ++ (if e.Due now then e.shows now else []) ∧
      if (e.updated now).Done then Gone (s.update program now) e.id
        else Held (s.update program now) i (e.updated now) := by
  obtain ⟨before, after, hsplit⟩ := List.append_of_mem (List.mem_finRange i)
  have hnodup := List.nodup_finRange 10
  rw [hsplit, List.nodup_append] at hnodup
  have hbefore : ∀ j ∈ before, j ≠ i := fun j hj => hnodup.2.2 j hj i List.mem_cons_self
  have hafter : ∀ j ∈ after, j ≠ i := by
    rintro j hj rfl
    exact (List.nodup_cons.mp hnodup.2.1).1 hj
  set s₁ := before.foldl (State.updateEvent program now) s
  set s₂ := s₁.updateEvent program now i
  have hupdate : s.update program now = after.foldl (State.updateEvent program now) s₂ := by
    rw [State.update, hsplit, List.foldl_append, List.foldl_cons]
  rw [hupdate] at hstop ⊢
  have hstop₂ : .stopped e.id ∉ s₂.trace := fun hm =>
    hstop ((updateAll_grows program now after s₂).subset hm)
  have hstop₁ : .stopped e.id ∉ s₁.trace := fun hm =>
    hstop₂ ((updateEvent_grows program now s₁ i).subset hm)
  -- the events in front of it, the event itself, and the events behind it
  have hkept₁ := updateAll_kept program now before h.known fun j hj => h.only j (hbefore j hj)
  obtain ⟨hseen, hcases⟩ := updateEvent_self program now (hkept₁.held h hstop₁) hstop₂
  have hseen₂ : observe e.id s₂.trace
      = observe e.id s.trace ++ (if e.Due now then e.shows now else []) := by
    rw [hseen, hkept₁.seen]
  have hid : (e.updated now).id = e.id := by
    unfold Slot.updated
    split_ifs <;> rfl
  by_cases hdone : (e.updated now).Done
  · rw [if_pos hdone] at hcases ⊢
    have hkept₂ := updateAll_kept program now after hcases.known fun j _ => hcases.free j
    exact ⟨hkept₂.seen.trans hseen₂, hkept₂.gone hcases⟩
  · rw [if_neg hdone] at hcases ⊢
    have hkept₂ := updateAll_kept program now after hcases.known fun j hj => hcases.only j (hafter j hj)
    refine ⟨(hid ▸ hkept₂.seen).trans hseen₂, hkept₂.held hcases ?_⟩
    rw [hid]
    exact hstop

/-- **An event that nobody stops behaves as if it were alone.** -/
theorem run_held (program : Program) (calls : List Call) {s : State} {i : Fin 10} {e : Slot}
    (h : Held s i e) (hstop : .stopped e.id ∉ (s.run program calls).trace) :
    observe e.id (s.run program calls).trace = observe e.id s.trace ++ e.alone (updates calls) := by
  induction calls generalizing s e with
  | nil => exact (List.append_nil _).symm
  | cons c calls ih =>
      rw [run_cons] at hstop ⊢
      have hstop₁ : .stopped e.id ∉ (s.step program c).trace := fun hm =>
        hstop ((run_grows program calls _).subset hm)
      cases c with
      | op o =>
          have hkept : Kept e.id s (s.step program (.op o)) := (apply_spec s o).kept h.known
          rw [ih (hkept.held h hstop₁) hstop, hkept.seen, updates_op]
      | update now =>
          have hid : (e.updated now).id = e.id := by
            unfold Slot.updated
            split_ifs <;> rfl
          obtain ⟨hseen, hcases⟩ := update_held program now h hstop₁
          have hstep : s.step program (.update now) = s.update program now := rfl
          rw [hstep] at hstop ⊢
          rw [updates_update, Slot.alone, ← List.append_assoc, ← hseen]
          by_cases hdone : (e.updated now).Done
          · rw [if_pos hdone] at hcases ⊢
            rw [run_gone program calls hcases, List.append_nil]
          · rw [if_neg hdone] at hcases ⊢
            have hrest := ih hcases (by rw [hid]; exact hstop)
            rw [hid] at hrest
            exact hrest

/-- In a run the event of a live slot is held. -/
theorem Bounded.held {s : State} (h : Bounded none s) {i : Fin 10} (hlive : s.Live i) :
    Held s i (s.events i) :=
  ⟨rfl, hlive, h.ids i hlive, fun j hj hlive' heq => hj (h.apart j i hlive' hlive heq)⟩

/-- **Every event is on its own.**  Between any two calls of any run, of any program: what is seen of a live
event from there on, if nobody stops it, is what it would do alone, whatever the other nine events and all the
callbacks do. -/
theorem run_alone (program : Program) (before after : List Call) (i : Fin 10)
    (hlive : (State.init.run program before).Live i) :
    ∃ rest, (State.init.run program (before ++ after)).trace
        = (State.init.run program before).trace ++ rest ∧
      (.stopped ((State.init.run program before).events i).id ∉ rest →
        observe ((State.init.run program before).events i).id rest
          = ((State.init.run program before).events i).alone (updates after)) := by
  have hbounded := run_bounded program before
  have hheld := hbounded.held hlive
  have hrun : State.init.run program (before ++ after)
      = (State.init.run program before).run program after := by
    rw [State.run, State.run, State.run, List.foldl_append]
  set s := State.init.run program before
  obtain ⟨rest, hrest⟩ := run_grows program after s
  rw [hrun]
  refine ⟨rest, hrest.symm, fun hstop => ?_⟩
  have hnot : .stopped (s.events i).id ∉ (s.run program after).trace := by
    rw [← hrest, List.mem_append, not_or]
    exact ⟨fun hm => (hbounded.stopped _ hm).2 i hlive rfl, hstop⟩
  have hseen := run_held program after hheld hnot
  rw [← hrest, observe_append] at hseen
  exact List.append_cancel_left hseen

/-- An event that is due at the second of two updates. -/
theorem run_alone_after :
    ∃ rest, (State.init.run (fun _ _ => [.stop 3]) ([.op (.after 5 0 0)] ++ [.update 3, .update 7])).trace
        = (State.init.run (fun _ _ => [.stop 3]) [.op (.after 5 0 0)]).trace ++ rest ∧
      (.stopped 0 ∉ rest → observe 0 rest = [.fired 0 7]) :=
  run_alone (fun _ _ => [.stop 3]) [.op (.after 5 0 0)] [.update 3, .update 7] 0
    (by unfold State.Live; decide)

/-! ### Real time -/

/-- The firing times, in real time, of an event that is updated at `ts`: at the first update a period
after the last firing. -/
def onTime (period : ℕ) (repeatCount : ℤ) : ℕ → ℤ → List ℕ → List ℕ
  | _, _, [] => []
  | last, count, t :: ts =>
      if last + period ≤ t then
        t :: if repeatCount > -1 ∧ count + 1 ≥ repeatCount then [] else onTime period repeatCount t (count + 1) ts
      else if repeatCount > -1 ∧ count ≥ repeatCount then []
      else onTime period repeatCount last count ts

/-- Updates in order of time, none later than a turn of the counter less one period after the one before. -/
def Ticks (period : ℕ) : ℕ → List ℕ → Prop
  | _, [] => True
  | prev, t :: ts => prev ≤ t ∧ t + period ≤ prev + 2 ^ 32 ∧ Ticks period t ts

theorem firings_alone_done (e : Slot) (now : UInt32) :
    firings e.id (e.shows now) = [now] := by
  unfold Slot.shows
  split_ifs <;> simp [firings]

/-- The event has not fired often enough yet, or is to fire for ever. -/
def Slot.Counts (e : Slot) : Prop :=
  0 ≤ e.repeatCount.toInt → e.count.toInt < max 1 e.repeatCount.toInt

theorem Slot.done_iff (e : Slot) :
    e.Done ↔ e.repeatCount.toInt > -1 ∧ e.count.toInt ≥ e.repeatCount.toInt := by
  unfold Slot.Done
  rw [gt_iff_lt, ge_iff_le, Int32.lt_iff_toInt_lt, Int32.le_iff_toInt_le]
  rfl

/-- The count of an event that counts does not wrap. -/
theorem Slot.Counts.fired_count {e : Slot} (h : e.Counts) (h0 : 0 ≤ e.repeatCount.toInt)
    (now : UInt32) : (e.fired now).count.toInt = e.count.toInt + 1 := by
  have hlt := h h0
  have hmax := e.repeatCount.toInt_lt
  exact toInt_add_one (by omega)

theorem Slot.Counts.fired_done {e : Slot} (h : e.Counts) (now : UInt32) :
    (e.fired now).Done ↔ e.repeatCount.toInt > -1 ∧ e.count.toInt + 1 ≥ e.repeatCount.toInt := by
  rw [Slot.done_iff]
  refine and_congr_right fun hrep => ?_
  rw [h.fired_count (show 0 ≤ (e.fired now).repeatCount.toInt by omega)]
  rfl

theorem Slot.Counts.fired {e : Slot} (h : e.Counts) {now : UInt32} (hdone : ¬(e.fired now).Done) :
    (e.fired now).Counts := by
  intro h0
  have hlt := h h0
  rw [h.fired_done] at hdone
  rw [h.fired_count h0]
  show e.count.toInt + 1 < max 1 e.repeatCount.toInt
  have hrep : 0 ≤ e.repeatCount.toInt := h0
  omega

/-- What fires for ever does not look at its count. -/
theorem onTime_forever (period : ℕ) {repeatCount : ℤ} (h : repeatCount < 0) (last : ℕ) (count count' : ℤ)
    (ts : List ℕ) : onTime period repeatCount last count ts = onTime period repeatCount last count' ts := by
  induction ts generalizing last count count' with
  | nil => rfl
  | cons t ts ih =>
      have hnot : ∀ k : ℤ, ¬(repeatCount > -1 ∧ k ≥ repeatCount) := fun k hk => by omega
      rw [onTime, onTime, if_neg (hnot _), if_neg (hnot _), if_neg (hnot _), if_neg (hnot _),
        ih t (count + 1) (count' + 1), ih last count count']

/-- The counter tells whether a period has passed. -/
theorem due_iff {e : Slot} {last t : ℕ} (hlast : e.lastEventTime = UInt32.ofNat last) (hle : last ≤ t)
    (hlt : e.period = 0 ∨ t < last + 2 ^ 32) :
    e.Due (UInt32.ofNat t) ↔ last + e.period.toNat ≤ t := by
  have hp := e.period.toNat_lt
  unfold Slot.Due
  rw [UInt32.le_iff_toNat_le, toNat_sub_eq_elapsed, hlast, elapsed, UInt32.toNat_ofNat', UInt32.toNat_ofNat']
  rcases hlt with hzero | hlt
  · rw [hzero]
    simp only [UInt32.toNat_zero]
    omega
  · omega

/-- **In real time.**  An event alone fires at the first update at least a period after its last firing. -/
theorem firings_alone (e : Slot) (hcounts : e.Counts) (last prev : ℕ) (ts : List ℕ)
    (hlast : e.lastEventTime = UInt32.ofNat last) (hle : last ≤ prev)
    (hprev : prev = last ∨ prev < last + e.period.toNat) (hticks : Ticks e.period.toNat prev ts) :
    firings e.id (e.alone (ts.map UInt32.ofNat))
      = (onTime e.period.toNat e.repeatCount.toInt last e.count.toInt ts).map UInt32.ofNat := by
  induction ts generalizing e last prev with
  | nil => rfl
  | cons t ts ih =>
      obtain ⟨hpt, hgap, hrest⟩ := hticks
      have hdue := due_iff hlast (hle.trans hpt) (by
        by_cases hzero : e.period = 0
        · exact .inl hzero
        · have hpos : 0 < e.period.toNat := by
            rw [Nat.pos_iff_ne_zero]
            intro h0
            exact hzero (UInt32.toNat_inj.mp h0)
          exact .inr (by omega))
      rw [List.map_cons, Slot.alone, firings_append, onTime]
      by_cases hd : e.Due (UInt32.ofNat t)
      · rw [if_pos hd, if_pos (hdue.mp hd), firings_alone_done, Slot.updated, if_pos hd]
        have hdone := hcounts.fired_done (UInt32.ofNat t)
        by_cases hfin : (e.fired (UInt32.ofNat t)).Done
        · rw [if_pos hfin, if_pos (hdone.mp hfin)]
          rfl
        · rw [if_neg hfin, if_neg (fun h => hfin (hdone.mpr h))]
          have hnext := ih (e.fired (UInt32.ofNat t)) (hcounts.fired hfin) t t rfl le_rfl (.inl rfl) hrest
          have hcount : onTime e.period.toNat e.repeatCount.toInt t (e.fired (UInt32.ofNat t)).count.toInt ts
              = onTime e.period.toNat e.repeatCount.toInt t (e.count.toInt + 1) ts := by
            by_cases h0 : 0 ≤ e.repeatCount.toInt
            · rw [hcounts.fired_count h0]
            · exact onTime_forever _ (by omega) _ _ _ _
          rw [List.map_cons, ← List.singleton_append, ← hcount]
          exact congrArg _ hnext
      · have hnot : ¬last + e.period.toNat ≤ t := fun h => hd (hdue.mpr h)
        rw [if_neg hd, if_neg hnot, Slot.updated, if_neg hd]
        show [] ++ _ = _
        rw [List.nil_append]
        have hdone := e.done_iff
        by_cases hfin : e.Done
        · rw [if_pos hfin, if_pos (hdone.mp hfin)]
          rfl
        · rw [if_neg hfin, if_neg (fun h => hfin (hdone.mpr h))]
          exact ih e hcounts last t hlast (hle.trans hpt) (.inr (by omega)) hrest

theorem firings_observe (id : ℕ) (trace : List Event) : firings id (observe id trace) = firings id trace := by
  rw [firings, observe, List.filterMap_filter, firings]
  congr 1
  funext e
  cases e with
  | fired j now =>
      by_cases hj : j = id
      · simp [Event.Of, hj]
      · simp [Event.Of, hj]
  | _ => simp

/-- A registration in a free slot is held from then on. -/
theorem register_held {s : State} (h : Bounded none s) {i : Fin 10} {f : Slot → Slot} {r : ℤ}
    (hstores : Stores (f (s.events i)).repeatCount r) (hlive : (f (s.events i)).eventType ≠ .none) :
    Held (s.register i f r) i { f (s.events i) with count := 0, id := s.next } := by
  have hheld := (h.register i hstores).held (i := i) (by rw [State.Live, register_same]; exact hlive)
  rw [register_same] at hheld
  exact hheld

theorem run_append (program : Program) (s : State) (before after : List Call) :
    s.run program (before ++ after) = (s.run program before).run program after := by
  rw [State.run, State.run, State.run, List.foldl_append]

/-- **A timer fires on time, across wraps of the millisecond counter.**  A registration is made at the real
time `t₀`, outside of any callback, at any point of any run in which a slot is free, and updates follow at
the real times `ts`, each less than a turn of the counter less one period after the one before.  If nobody
stops it, it fires exactly at the first update at least a period after its last firing, until it has fired
`repeatCount` times, whatever else is registered, stopped or done by callbacks. -/
theorem run_every_onTime (program : Program) (before after : List Call) (period : UInt32) (callback : ℕ)
    (repeatCount : Int32) (t₀ : ℕ) (ts : List ℕ)
    (hfree : (State.init.run program before).findFreeEventIndex ≠ none)
    (hupdates : updates after = ts.map UInt32.ofNat) (hticks : Ticks period.toNat t₀ ts)
    (hstop : .stopped (State.init.run program before).next ∉ (State.init.run program
      (before ++ .op (.every period callback repeatCount (UInt32.ofNat t₀)) :: after)).trace) :
    firings (State.init.run program before).next (State.init.run program
        (before ++ .op (.every period callback repeatCount (UInt32.ofNat t₀)) :: after)).trace
      = (onTime period.toNat repeatCount.toInt t₀ 0 ts).map UInt32.ofNat := by
  have hbounded := run_bounded program before
  rw [run_append, run_cons] at hstop ⊢
  set s := State.init.run program before
  obtain ⟨i, hi⟩ := Option.ne_none_iff_exists'.mp hfree
  have hstep : s.step program (.op (.every period callback repeatCount (UInt32.ofNat t₀)))
      = s.register i (fun e => { e with
          eventType := .every, period := period, repeatCount := repeatCount, callback := callback,
          lastEventTime := UInt32.ofNat t₀ }) repeatCount.toInt := by
    show (s.every period callback repeatCount (UInt32.ofNat t₀)).2 = _
    rw [State.every, hi]
  rw [hstep] at hstop ⊢
  have hheld := register_held hbounded (i := i) (r := repeatCount.toInt) (f := fun e => { e with
    eventType := .every, period := period, repeatCount := repeatCount, callback := callback,
    lastEventTime := UInt32.ofNat t₀ }) (fun _ _ => rfl) (by simp)
  have hcounts : Slot.Counts { s.events i with
      eventType := .every, period := period, callback := callback, lastEventTime := UInt32.ofNat t₀,
      repeatCount := repeatCount, count := 0, id := s.next } := by
    intro _
    show (0 : ℤ) < max 1 _
    omega
  have halone := firings_alone _ hcounts t₀ t₀ ts rfl le_rfl (.inl rfl) hticks
  have hseen := run_held program after hheld hstop
  have hnew : firings s.next (s.register i (fun e => { e with
      eventType := .every, period := period, repeatCount := repeatCount, callback := callback,
      lastEventTime := UInt32.ofNat t₀ }) repeatCount.toInt).trace = [] := by
    show firings s.next (s.trace ++ [.registered s.next repeatCount.toInt]) = []
    rw [firings_append, (hbounded.fresh _ le_rfl).1]
    rfl
  rw [← firings_observe]
  refine (congrArg (firings s.next) hseen).trans ?_
  rw [firings_append]
  refine (congrArg (· ++ _) ((firings_observe _ _).trans hnew)).trans ?_
  rw [List.nil_append, hupdates]
  exact halone

/-- A registration ten milliseconds before the counter wraps, whose callback makes another one. -/
theorem run_every_onTime_wrap :
    firings 0 (State.init.run (fun _ _ => [.after 1 1 14])
      ([] ++ .op (.every 20 0 2 (UInt32.ofNat 4294967286)) :: [.update 4294967290, .update 14])).trace
      = [14] :=
  run_every_onTime (fun _ _ => [.after 1 1 14]) [] [.update 4294967290, .update 14] 20 0 2 4294967286
    [4294967290, 4294967310] (by decide) (by decide) (by simp [Ticks]) (by decide)

/-! ### Pins -/

/-- The levels a registration has written to its pin. -/
def levels (id : ℕ) (trace : List Event) : List UInt8 :=
  trace.filterMap fun e => match e with
    | .pinWritten j _ value => if j = id then some value else none
    | _ => none

theorem levels_append (id : ℕ) (t t' : List Event) : levels id (t ++ t') = levels id t ++ levels id t' :=
  List.filterMap_append

/-- An oscillation alone flips its level at each firing. -/
theorem levels_alone (e : Slot) (h : e.eventType = .oscillate) (nows : List UInt32) :
    levels e.id (e.alone nows)
      = List.iterate flip (flip e.pinState) (firings e.id (e.alone nows)).length := by
  induction nows generalizing e with
  | nil => rfl
  | cons now nows ih =>
      rw [Slot.alone, levels_append, firings_append, List.length_append]
      by_cases hd : e.Due now
      · have hlevels : levels e.id (e.shows now) = [flip e.pinState] := by
          simp [Slot.shows, h, levels]
        rw [if_pos hd, hlevels, firings_alone_done, Slot.updated, if_pos hd]
        have hstate : (e.fired now).pinState = flip e.pinState := by
          show (if e.eventType = .oscillate then flip e.pinState else e.pinState) = _
          rw [if_pos h]
        have hrest := ih (e.fired now) h
        rw [hstate] at hrest
        split_ifs
        · rfl
        · rw [List.length_singleton, Nat.add_comm 1]
          exact congrArg (flip e.pinState :: ·) hrest
      · rw [if_neg hd, Slot.updated, if_neg hd]
        show [] ++ _ = List.iterate _ _ (0 + _)
        rw [List.nil_append, Nat.zero_add]
        split_ifs
        · rfl
        · exact ih e h

theorem levels_observe (id : ℕ) (trace : List Event) : levels id (observe id trace) = levels id trace := by
  rw [levels, observe, List.filterMap_filter, levels]
  congr 1
  funext e
  cases e with
  | pinWritten j pin value =>
      by_cases hj : j = id
      · simp [Event.Of, hj]
      · simp [Event.Of, hj]
  | _ => simp

/-- **The levels of an oscillation.**  A call of `oscillate` or `pulseImmediate`, outside of any callback, at
any point of any run in which a slot is free: if nobody stops the registration, it writes its starting value
and then a flipped level at each firing, and fires no more often than its number of transitions, if that fits
an `int`. -/
theorem run_oscillation_levels (program : Program) (before after : List Call) (o : Op) (pin : UInt8)
    (period : UInt32) (value : UInt8) (transitions : ℤ) (millis : UInt32)
    (ho : o = .pulseImmediate pin period value millis ∧ transitions = 1 ∨
      ∃ repeatCount : Int32, o = .oscillate pin period value repeatCount millis ∧
        transitions = repeatCount.toInt * 2)
    (hfree : (State.init.run program before).findFreeEventIndex ≠ none) :
    ∃ rest, (State.init.run program (before ++ .op o :: after)).trace
        = (State.init.run program before).trace ++ rest ∧
      (.stopped (State.init.run program before).next ∉ rest →
        levels (State.init.run program before).next rest
            = List.iterate flip value (1 + (firings (State.init.run program before).next rest).length) ∧
          (0 ≤ transitions → transitions < 2 ^ 31 →
            ((firings (State.init.run program before).next rest).length : ℤ) ≤ max 1 transitions)) := by
  have hbounded := run_bounded program before
  have hfinal := run_bounded program (before ++ .op o :: after)
  rw [run_append, run_cons] at hfinal ⊢
  set s := State.init.run program before
  obtain ⟨i, hi⟩ := Option.ne_none_iff_exists'.mp hfree
  obtain ⟨stored, hstores, hop⟩ : ∃ stored, Stores stored transitions ∧
      s.step program (.op o) = (s.oscillation pin period value stored transitions millis).2 := by
    rcases ho with ⟨rfl, rfl⟩ | ⟨r, rfl, rfl⟩
    · exact ⟨1, fun _ _ => rfl, rfl⟩
    · exact ⟨r * 2, stores_mul_two r, rfl⟩
  obtain ⟨s₁, hs₁⟩ : ∃ s₁, s₁ = (s.register i (fun e => { e with
      eventType := .oscillate, pin := pin, period := period, pinState := value, repeatCount := stored,
      lastEventTime := millis }) transitions).log (.pinWritten s.next pin value) := ⟨_, rfl⟩
  have hstep : s.step program (.op o) = s₁ := by
    rw [hop, State.oscillation, hi, hs₁]
  obtain ⟨e, hheld, hid, htype, hstate⟩ : ∃ e, Held s₁ i e ∧ e.id = s.next ∧ e.eventType = .oscillate ∧
      e.pinState = value := by
    rw [hs₁]
    exact ⟨_, (register_held hbounded hstores (by simp)).log _, rfl, rfl, rfl⟩
  have htrace : s₁.trace = s.trace ++ [.registered s.next transitions, .pinWritten s.next pin value] := by
    rw [hs₁]
    exact List.append_assoc _ _ _
  rw [hstep] at hfinal ⊢
  obtain ⟨rest, hrest⟩ := run_grows program after s₁
  refine ⟨[.registered s.next transitions, .pinWritten s.next pin value] ++ rest, ?_, fun hstop => ?_⟩
  · rw [← hrest, htrace, List.append_assoc]
  have hnot : .stopped s.next ∉ (s₁.run program after).trace := by
    rw [← hrest, htrace, List.append_assoc, List.mem_append, not_or]
    exact ⟨fun hm => Nat.lt_irrefl _ (hbounded.stopped _ hm).1, hstop⟩
  have hseen := run_held program after hheld (by rw [hid]; exact hnot)
  rw [← hrest, observe_append] at hseen
  have hseen' := List.append_cancel_left hseen
  have hfirings : ∀ t, firings s.next
      ([.registered s.next transitions, .pinWritten s.next pin value] ++ t) = firings s.next t := by
    intro t
    rw [firings_append]
    rfl
  have hlevels : ∀ t, levels s.next
      ([.registered s.next transitions, .pinWritten s.next pin value] ++ t) = value :: levels s.next t := by
    intro t
    rw [levels_append]
    simp [levels]
  rw [hfirings, hlevels]
  constructor
  · have halone := levels_alone e htype (updates after)
    rw [← hseen', levels_observe, firings_observe, hid, hstate] at halone
    rw [Nat.add_comm 1, halone]
    rfl
  · intro h0 hlt
    have hreg : .registered s.next transitions ∈ (s₁.run program after).trace := by
      rw [← hrest, htrace]
      simp
    have hlimit := hfinal.limit _ _ hreg h0 hlt
    rw [← hrest, htrace, List.append_assoc, firings_append, (hbounded.fresh _ le_rfl).1, List.nil_append,
      hfirings] at hlimit
    exact hlimit

/-- A pulse: the pin ends at the level it started from. -/
theorem run_oscillation_levels_pulse :
    ∃ rest, (State.init.run (fun _ _ => []) ([] ++ .op (.pulse 13 5 1 0) :: [.update 5, .update 10])).trace
        = (State.init.run (fun _ _ => []) []).trace ++ rest ∧
      (.stopped 0 ∉ rest → levels 0 rest = List.iterate flip 1 (1 + (firings 0 rest).length)) := by
  obtain ⟨rest, htrace, hlevels⟩ := run_oscillation_levels (fun _ _ => []) [] [.update 5, .update 10]
    (.pulse 13 5 1 0) 13 5 1 2 0 (.inr ⟨1, rfl, rfl⟩) (by decide)
  exact ⟨rest, htrace, fun hstop => (hlevels hstop).1⟩

end EspFirmware.Timer
