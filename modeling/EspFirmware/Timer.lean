import Mathlib.Data.List.FinRange
import Mathlib.Logic.Function.Basic
import Mathlib.Tactic.Common
import EspFirmware.Lib.Clock

/-!
# The timer

`Timer` and its ten `Event`s (`lib/Timer`).  `update(now)` goes through the events in order; an event
whose period has passed runs its callback, and the callback may use the timer itself: start events, in
whatever slot is free, and stop any, its own included.  After the callback `lastEventTime` and `count` are
set in whatever the slot then holds.

* `Slot`, `State` — the events, with a number for each registration and a trace of what happened;
* `every`, `after`, `oscillate`, `pulse`, `pulseImmediate`, `stop` — `Op.apply`;
* `updateEvent`, `update` — `Event::update` and `Timer::update`; what callbacks do is a parameter;
* `Bounded`, `run_bounded` — no registration fires more often than it was asked to.
-/

namespace EspFirmware.Timer

/-- `eventType`. -/
inductive EventType where
  | none | every | oscillate
  deriving Repr, DecidableEq

/-- An `Event`; `id` is the number of the registration that filled it. -/
structure Slot where
  eventType : EventType
  period : UInt32
  repeatCount : Int32
  pin : UInt8
  pinState : UInt8
  callback : ℕ
  lastEventTime : UInt32
  count : Int32
  id : ℕ
  deriving Repr, DecidableEq

/-- What can be seen of a timer; `asked` is how often a registration is to fire, for ever if negative. -/
inductive Event where
  | registered (id : ℕ) (asked : ℤ)
  | fired (id : ℕ) (now : UInt32)
  | pinWritten (id : ℕ) (pin value : UInt8)
  | stopped (id : ℕ)
  deriving Repr, DecidableEq

/-- `MAX_NUMBER_OF_EVENTS` events, the number of the next registration and what happened so far. -/
structure State where
  events : Fin 10 → Slot
  next : ℕ
  trace : List Event

/-- The calls a program makes on a timer, each at its own `millis()`. -/
inductive Op where
  | every (period : UInt32) (callback : ℕ) (repeatCount : Int32) (millis : UInt32)
  | oscillate (pin : UInt8) (period : UInt32) (startingValue : UInt8) (repeatCount : Int32)
      (millis : UInt32)
  | pulseImmediate (pin : UInt8) (period : UInt32) (pulseValue : UInt8) (millis : UInt32)
  | stop (id : ℤ)
  deriving Repr, DecidableEq

/-- `every(period, callback)`: for ever. -/
def Op.everyForever (period : UInt32) (callback : ℕ) (millis : UInt32) : Op :=
  .every period callback (-1) millis

/-- `after`. -/
def Op.after (period : UInt32) (callback : ℕ) (millis : UInt32) : Op := .every period callback 1 millis

/-- `oscillate(pin, period, startingValue)`: for ever. -/
def Op.oscillateForever (pin : UInt8) (period : UInt32) (startingValue : UInt8) (millis : UInt32) : Op :=
  .oscillate pin period startingValue (-1) millis

/-- `pulse`. -/
def Op.pulse (pin : UInt8) (period : UInt32) (startingValue : UInt8) (millis : UInt32) : Op :=
  .oscillate pin period startingValue 1 millis

namespace State

/-- A timer after its constructor. -/
def init : State where
  events := fun _ => ⟨.none, 0, 0, 0, 0, 0, 0, 0, 0⟩
  next := 0
  trace := []

def log (s : State) (e : Event) : State := { s with trace := s.trace ++ [e] }

/-- Change one event. -/
def modify (s : State) (i : Fin 10) (f : Slot → Slot) : State :=
  { s with events := Function.update s.events i (f (s.events i)) }

/-- `findFreeEventIndex`. -/
def findFreeEventIndex (s : State) : Option (Fin 10) :=
  (List.finRange 10).find? fun i => decide ((s.events i).eventType = .none)

/-- Fill a slot with a new registration. -/
def register (s : State) (i : Fin 10) (f : Slot → Slot) (asked : ℤ) : State :=
  { (s.modify i fun e => { f e with count := 0, id := s.next }).log (.registered s.next asked) with
    next := s.next + 1 }

/-- `every(period, callback, repeatCount)`: the index, and the timer after it. -/
def every (s : State) (period : UInt32) (callback : ℕ) (repeatCount : Int32) (millis : UInt32) :
    Option (Fin 10) × State :=
  match s.findFreeEventIndex with
  | none => (none, s)
  | some i =>
      (some i, s.register i (fun e => { e with
        eventType := .every, period := period, repeatCount := repeatCount, callback := callback,
        lastEventTime := millis }) repeatCount.toInt)

/-- The part `oscillate` and `pulseImmediate` share; `transitions` is the repeat count they store. -/
def oscillation (s : State) (pin : UInt8) (period : UInt32) (startingValue : UInt8)
    (transitions : Int32) (asked : ℤ) (millis : UInt32) : Option (Fin 10) × State :=
  match s.findFreeEventIndex with
  | none => (none, s)
  | some i =>
      (some i, (s.register i (fun e => { e with
        eventType := .oscillate, pin := pin, period := period, pinState := startingValue,
        repeatCount := transitions, lastEventTime := millis }) asked).log
          (.pinWritten s.next pin startingValue))

/-- `oscillate`: full cycles, not transitions, are counted, so the product may wrap. -/
def oscillate (s : State) (pin : UInt8) (period : UInt32) (startingValue : UInt8) (repeatCount : Int32)
    (millis : UInt32) : Option (Fin 10) × State :=
  s.oscillation pin period startingValue (repeatCount * 2) (repeatCount.toInt * 2) millis

/-- `pulseImmediate`: `oscillate(pin, period, pulseValue, 1)`, with its repeat count then fixed to one
transition. -/
def pulseImmediate (s : State) (pin : UInt8) (period : UInt32) (pulseValue : UInt8) (millis : UInt32) :
    Option (Fin 10) × State :=
  s.oscillation pin period pulseValue 1 1 millis

/-- `stop`. -/
def stop (s : State) (id : ℤ) : State :=
  if h : 0 ≤ id ∧ id < 10 then
    let i : Fin 10 := ⟨id.toNat, by omega⟩
    let s := if (s.events i).eventType = .none then s else s.log (.stopped (s.events i).id)
    s.modify i fun e => { e with eventType := .none }
  else s

end State

/-- One call. -/
def Op.apply (s : State) : Op → State
  | .every period callback repeatCount millis => (s.every period callback repeatCount millis).2
  | .oscillate pin period startingValue repeatCount millis =>
      (s.oscillate pin period startingValue repeatCount millis).2
  | .pulseImmediate pin period pulseValue millis => (s.pulseImmediate pin period pulseValue millis).2
  | .stop id => s.stop id

/-- What a callback does, by everything that happened before it. -/
abbrev Program := List Event → ℕ → List Op

/-- The `switch` of `Event::update`. -/
def State.fire (program : Program) (now : UInt32) (s : State) (i : Fin 10) : State :=
  let e := s.events i
  let s := s.log (.fired e.id now)
  match e.eventType with
  | .none => s
  | .every => (program s.trace e.callback).foldl Op.apply s
  | .oscillate =>
      let value : UInt8 := if e.pinState = 0 then 1 else 0
      (s.modify i fun e => { e with pinState := value }).log (.pinWritten e.id e.pin value)

/-- The end of `Event::update`: an event that has run often enough is removed. -/
def State.expire (s : State) (i : Fin 10) : State :=
  if (s.events i).repeatCount > -1 ∧ (s.events i).count ≥ (s.events i).repeatCount then
    s.modify i fun e => { e with eventType := .none }
  else s

/-- `Event::update`, for an event that is not free; after the callback the fields of whatever the slot
then holds are set. -/
def State.updateEvent (program : Program) (now : UInt32) (s : State) (i : Fin 10) : State :=
  if (s.events i).eventType = .none then s
  else if (s.events i).period ≤ now - (s.events i).lastEventTime then
    ((s.fire program now i).modify i fun e => { e with lastEventTime := now, count := e.count + 1 }).expire i
  else s.expire i

/-- `Timer::update`. -/
def State.update (program : Program) (now : UInt32) (s : State) : State :=
  (List.finRange 10).foldl (State.updateEvent program now) s

/-- A call from outside a callback. -/
inductive Call where
  | op (o : Op)
  | update (now : UInt32)
  deriving Repr, DecidableEq

def State.step (program : Program) (s : State) : Call → State
  | .op o => o.apply s
  | .update now => s.update program now

/-- The timer after a list of calls. -/
def State.run (program : Program) (s : State) (calls : List Call) : State :=
  calls.foldl (State.step program) s

/-! ### Slots and traces -/

/-- The times at which a registration fired. -/
def firings (id : ℕ) (trace : List Event) : List UInt32 :=
  trace.filterMap fun e => match e with
    | .fired j now => if j = id then some now else none
    | _ => none

section Lemmas

variable {s : State} {i j : Fin 10} {f : Slot → Slot} {e : Event} {id : ℕ}

@[simp] theorem modify_trace : (s.modify i f).trace = s.trace := rfl

@[simp] theorem modify_next : (s.modify i f).next = s.next := rfl

@[simp] theorem log_events : (s.log e).events = s.events := rfl

@[simp] theorem log_next : (s.log e).next = s.next := rfl

@[simp] theorem log_trace : (s.log e).trace = s.trace ++ [e] := rfl

theorem modify_same : (s.modify i f).events i = f (s.events i) := Function.update_self _ _ _

theorem modify_other (h : j ≠ i) : (s.modify i f).events j = s.events j := Function.update_of_ne h _ _

theorem register_same {r : ℤ} : (s.register i f r).events i
    = { f (s.events i) with count := 0, id := s.next } := Function.update_self _ _ _

theorem register_other {r : ℤ} (h : j ≠ i) : (s.register i f r).events j = s.events j :=
  Function.update_of_ne h _ _

theorem firings_append (id : ℕ) (t t' : List Event) : firings id (t ++ t') = firings id t ++ firings id t' :=
  List.filterMap_append

theorem firings_fired (id : ℕ) (t : List Event) (now : UInt32) :
    firings id (t ++ [.fired id now]) = firings id t ++ [now] := by
  simp [firings]

/-- Logging anything but a firing of `id` leaves its firings. -/
theorem firings_log (h : ∀ now, e ≠ .fired id now) : firings id (s.log e).trace = firings id s.trace := by
  rw [log_trace, firings_append]
  cases e with
  | fired j now =>
      have hj : j ≠ id := fun he => h now (by rw [he])
      simp [firings, hj]
  | _ => simp [firings]

/-- An update of a timer without events does nothing. -/
theorem update_free {program : Program} {now : UInt32} (h : ∀ i, (s.events i).eventType = .none) :
    s.update program now = s := by
  unfold State.update
  induction List.finRange 10 with
  | nil => rfl
  | cons i is ih =>
      rw [List.foldl_cons, State.updateEvent, if_pos (h i)]
      exact ih

/-- A slot that `findFreeEventIndex` finds is free. -/
theorem free_of_findFreeEventIndex (h : s.findFreeEventIndex = some i) :
    (s.events i).eventType = .none := by
  have hfound := List.find?_some h
  simpa using hfound

end Lemmas

/-! ### No registration fires too often -/

/-- The slot holds a registration. -/
def State.Live (s : State) (i : Fin 10) : Prop := (s.events i).eventType ≠ .none

/-- A stored repeat count is the one asked for, if that is not negative and fits an `int`. -/
def Stores (repeatCount : Int32) (asked : ℤ) : Prop :=
  0 ≤ asked → asked < 2 ^ 31 → repeatCount.toInt = asked

/-- A count below a repeat count goes up by one. -/
theorem toInt_add_one {count : Int32} (h : count.toInt < 2 ^ 31 - 1) :
    (count + 1).toInt = count.toInt + 1 := by
  have hle := count.le_toInt
  rw [Int32.toInt_add, Int32.toInt_one]
  exact Int.bmod_eq_of_le_mul_two (by push_cast; omega) (by push_cast; omega)

/-- Twice a repeat count is stored if it fits. -/
theorem stores_mul_two (repeatCount : Int32) : Stores (repeatCount * 2) (repeatCount.toInt * 2) := by
  intro h0 hlt
  rw [Int32.toInt_mul]
  exact Int.bmod_eq_of_le_mul_two (by push_cast; omega) (by push_cast; omega)

/-- What is not seen after an event: a firing of a registration that was stopped. -/
def Event.Allows (e d : Event) : Prop := ∀ id now, e = .stopped id → d ≠ .fired id now

/-- The invariant of the timer; `busy` is the slot whose callback is running, which has fired once more
than it has counted. -/
structure Bounded (busy : Option (Fin 10)) (s : State) : Prop where
  ids : ∀ i, s.Live i → (s.events i).id < s.next
  apart : ∀ i j, s.Live i → s.Live j → (s.events i).id = (s.events j).id → i = j
  fired : ∀ i, s.Live i → 0 ≤ (s.events i).repeatCount.toInt →
    ((firings (s.events i).id s.trace).length : ℤ)
      ≤ (s.events i).count.toInt + if busy = some i then 1 else 0
  left : ∀ i, s.Live i → 0 ≤ (s.events i).repeatCount.toInt →
    (s.events i).count.toInt < max 1 (s.events i).repeatCount.toInt
  logged : ∀ i, s.Live i → ∃ r, .registered (s.events i).id r ∈ s.trace ∧
    Stores (s.events i).repeatCount r
  fresh : ∀ id, s.next ≤ id → firings id s.trace = [] ∧ ∀ r, .registered id r ∉ s.trace
  once : ∀ id r r', .registered id r ∈ s.trace → .registered id r' ∈ s.trace → r = r'
  limit : ∀ id r, .registered id r ∈ s.trace → 0 ≤ r → r < 2 ^ 31 →
    ((firings id s.trace).length : ℤ) ≤ max 1 r
  stopped : ∀ id, .stopped id ∈ s.trace → id < s.next ∧ ∀ i, s.Live i → (s.events i).id ≠ id
  order : s.trace.Pairwise Event.Allows

theorem bounded_init : Bounded none State.init where
  ids i h := absurd rfl h
  apart i j h := absurd rfl h
  fired i h := absurd rfl h
  left i h := absurd rfl h
  logged i h := absurd rfl h
  fresh id _ := ⟨rfl, by simp [State.init]⟩
  once id r r' h := by simp [State.init] at h
  limit id r h := by simp [State.init] at h
  stopped id h := by simp [State.init] at h
  order := List.Pairwise.nil

namespace Bounded

variable {busy : Option (Fin 10)} {s s' : State} {i : Fin 10}

/-- What a slot may become without harm: free, or as before as far as the invariant looks at it. -/
structure Tamer (e e' : Slot) : Prop where
  id : e'.eventType ≠ .none → e.eventType ≠ .none ∧ e'.id = e.id
  count : e'.eventType ≠ .none → e'.count = e.count ∧ e'.repeatCount = e.repeatCount

/-- Freeing slots, or changing only what the invariant does not look at, keeps it. -/
theorem tame (h : Bounded busy s) (htrace : s'.trace = s.trace) (hnext : s'.next = s.next)
    (hslots : ∀ i, Tamer (s.events i) (s'.events i)) : Bounded busy s' := by
  have hlive : ∀ i, s'.Live i → s.Live i := fun i hi => ((hslots i).id hi).1
  have hid : ∀ i, s'.Live i → (s'.events i).id = (s.events i).id := fun i hi => ((hslots i).id hi).2
  have hcount : ∀ i, s'.Live i → (s'.events i).count = (s.events i).count ∧
      (s'.events i).repeatCount = (s.events i).repeatCount := fun i hi => (hslots i).count hi
  constructor
  case ids =>
    intro i hi
    rw [hid i hi, hnext]
    exact h.ids i (hlive i hi)
  case apart =>
    intro i j hi hj heq
    rw [hid i hi, hid j hj] at heq
    exact h.apart i j (hlive i hi) (hlive j hj) heq
  case fired =>
    intro i hi
    rw [hid i hi, (hcount i hi).1, (hcount i hi).2, htrace]
    exact h.fired i (hlive i hi)
  case left =>
    intro i hi
    rw [(hcount i hi).1, (hcount i hi).2]
    exact h.left i (hlive i hi)
  case logged =>
    intro i hi
    rw [hid i hi, (hcount i hi).2, htrace]
    exact h.logged i (hlive i hi)
  case fresh =>
    rw [htrace, hnext]
    exact h.fresh
  case once =>
    rw [htrace]
    exact h.once
  case limit =>
    rw [htrace]
    exact h.limit
  case stopped =>
    intro id hmem
    rw [htrace] at hmem
    obtain ⟨hlt, hnot⟩ := h.stopped id hmem
    refine ⟨hnext ▸ hlt, fun i hi => ?_⟩
    rw [hid i hi]
    exact hnot i (hlive i hi)
  case order =>
    rw [htrace]
    exact h.order

/-- Freeing one slot. -/
theorem free (h : Bounded busy s) (i : Fin 10) :
    Bounded busy (s.modify i fun e => { e with eventType := .none }) := by
  refine h.tame rfl rfl fun j => ?_
  by_cases hj : j = i
  · subst hj
    rw [modify_same]
    exact ⟨fun hne => absurd rfl hne, fun hne => absurd rfl hne⟩
  · rw [modify_other hj]
    exact ⟨fun hne => ⟨hne, rfl⟩, fun _ => ⟨rfl, rfl⟩⟩

theorem expire (h : Bounded busy s) (i : Fin 10) : Bounded busy (s.expire i) := by
  unfold State.expire
  split_ifs
  · exact h.free i
  · exact h

/-- Logging a pin, or the stop of a registration that is no longer there. -/
theorem log (h : Bounded busy s) {e : Event} (hfired : ∀ id now, e ≠ .fired id now)
    (hregistered : ∀ id r, e ≠ .registered id r)
    (hstopped : ∀ id, e = .stopped id → id < s.next ∧ ∀ i, s.Live i → (s.events i).id ≠ id) :
    Bounded busy (s.log e) := by
  have hfirings : ∀ id, firings id (s.log e).trace = firings id s.trace := fun id =>
    firings_log (hfired id)
  have hreg : ∀ id r, .registered id r ∈ (s.log e).trace ↔ .registered id r ∈ s.trace := by
    intro id r
    rw [log_trace, List.mem_append, List.mem_singleton]
    exact or_iff_left fun he => hregistered id r he.symm
  refine ⟨h.ids, h.apart, ?_, h.left, ?_, ?_, ?_, ?_, ?_, ?_⟩
  · intro i hi
    rw [hfirings]
    exact h.fired i hi
  · intro i hi
    obtain ⟨r, hr, hstores⟩ := h.logged i hi
    exact ⟨r, (hreg _ _).mpr hr, hstores⟩
  · intro id hid
    rw [hfirings]
    exact ⟨(h.fresh id hid).1, fun r => by rw [hreg]; exact (h.fresh id hid).2 r⟩
  · intro id r r' hr hr'
    rw [hreg] at hr hr'
    exact h.once id r r' hr hr'
  · intro id r hr
    rw [hreg] at hr
    rw [hfirings]
    exact h.limit id r hr
  · intro id hid
    rw [log_trace, List.mem_append, List.mem_singleton] at hid
    rcases hid with hid | hid
    · exact h.stopped id hid
    · exact hstopped id hid.symm
  · rw [log_trace, List.pairwise_append]
    refine ⟨h.order, List.pairwise_singleton _ _, fun d _ e' he' id now _ => ?_⟩
    rw [List.mem_singleton.mp he']
    exact hfired id now

theorem pinWritten (h : Bounded busy s) (id : ℕ) (pin value : UInt8) :
    Bounded busy (s.log (.pinWritten id pin value)) :=
  h.log (by simp) (by simp) (by simp)

/-- A live registration is stopped. -/
theorem stop_live (h : Bounded busy s) (hlive : s.Live i) :
    Bounded busy ((s.log (.stopped (s.events i).id)).modify i fun e => { e with eventType := .none }) := by
  refine (h.free i).log (e := .stopped (s.events i).id) (by simp) (by simp) fun id hid => ?_
  obtain rfl := Event.stopped.inj hid
  refine ⟨h.ids i hlive, fun j hj heq => ?_⟩
  have hji : j ≠ i := by
    rintro rfl
    exact hj (by rw [modify_same])
  rw [State.Live, modify_other hji] at hj
  rw [modify_other hji] at heq
  exact hji (h.apart j i hj hlive heq)

/-- A slot is filled. -/
theorem register (h : Bounded busy s) (i : Fin 10) {f : Slot → Slot} {asked : ℤ}
    (hstores : Stores (f (s.events i)).repeatCount asked) : Bounded busy (s.register i f asked) := by
  set s' := s.register i f asked
  have htrace : s'.trace = s.trace ++ [.registered s.next asked] := rfl
  have hsame : s'.events i = { f (s.events i) with count := 0, id := s.next } := register_same
  have hother : ∀ j, j ≠ i → s'.events j = s.events j := fun j hj => register_other hj
  have hold : ∀ j, j ≠ i → s'.Live j → s.Live j := by
    intro j hj hlive
    show (s.events j).eventType ≠ .none
    rw [← hother j hj]
    exact hlive
  have hfirings : ∀ id, firings id s'.trace = firings id s.trace := by
    intro id
    rw [htrace, firings_append]
    simp [firings]
  have hnew : firings s.next s.trace = [] := (h.fresh s.next le_rfl).1
  have hreg : ∀ id r, .registered id r ∈ s'.trace ↔
      .registered id r ∈ s.trace ∨ id = s.next ∧ r = asked := by
    intro id r
    rw [htrace, List.mem_append, List.mem_singleton, Event.registered.injEq]
  constructor
  case ids =>
    intro j hj
    show (s'.events j).id < s.next + 1
    by_cases hji : j = i
    · rw [hji, hsame]
      exact Nat.lt_succ_self _
    · rw [hother j hji]
      exact Nat.lt_succ_of_lt (h.ids j (hold j hji hj))
  case apart =>
    intro j k hj hk heq
    by_cases hji : j = i
    · by_cases hki : k = i
      · rw [hji, hki]
      · rw [hji, hsame, hother k hki] at heq
        exact absurd heq.symm (Nat.ne_of_lt (h.ids k (hold k hki hk)))
    · by_cases hki : k = i
      · rw [hki, hsame, hother j hji] at heq
        exact absurd heq (Nat.ne_of_lt (h.ids j (hold j hji hj)))
      · rw [hother j hji, hother k hki] at heq
        exact h.apart j k (hold j hji hj) (hold k hki hk) heq
  case fired =>
    intro j hj
    rw [hfirings]
    by_cases hji : j = i
    · rw [hji, hsame, hnew]
      intro _
      show (0 : ℤ) ≤ 0 + _
      split_ifs <;> omega
    · rw [hother j hji]
      exact h.fired j (hold j hji hj)
  case left =>
    intro j hj
    by_cases hji : j = i
    · rw [hji, hsame]
      intro _
      show (0 : ℤ) < max 1 _
      omega
    · rw [hother j hji]
      exact h.left j (hold j hji hj)
  case logged =>
    intro j hj
    by_cases hji : j = i
    · rw [hji, hsame]
      exact ⟨asked, (hreg _ _).mpr (.inr ⟨rfl, rfl⟩), hstores⟩
    · rw [hother j hji]
      obtain ⟨r, hr, hkeeps⟩ := h.logged j (hold j hji hj)
      exact ⟨r, (hreg _ _).mpr (.inl hr), hkeeps⟩
  case fresh =>
    intro id hid
    have hlt : s.next < id := hid
    rw [hfirings]
    refine ⟨(h.fresh id hlt.le).1, fun r hr => ?_⟩
    rcases (hreg id r).mp hr with hr | ⟨heq, -⟩
    · exact (h.fresh id hlt.le).2 r hr
    · omega
  case once =>
    intro id r r' hr hr'
    rcases (hreg id r).mp hr with hr | ⟨rfl, rfl⟩
    · rcases (hreg id r').mp hr' with hr' | ⟨rfl, -⟩
      · exact h.once id r r' hr hr'
      · exact absurd hr ((h.fresh _ le_rfl).2 r)
    · rcases (hreg s.next r').mp hr' with hr' | ⟨-, rfl⟩
      · exact absurd hr' ((h.fresh _ le_rfl).2 r')
      · rfl
  case limit =>
    intro id r hr h0 hlt
    rw [hfirings]
    rcases (hreg id r).mp hr with hr | ⟨rfl, rfl⟩
    · exact h.limit id r hr h0 hlt
    · rw [hnew]
      show (0 : ℤ) ≤ max 1 r
      omega
  case stopped =>
    intro id hid
    rw [htrace, List.mem_append, List.mem_singleton] at hid
    rcases hid with hid | hid
    · obtain ⟨hlt, hno⟩ := h.stopped id hid
      refine ⟨Nat.lt_succ_of_lt hlt, fun j hj => ?_⟩
      by_cases hji : j = i
      · rw [hji, hsame]
        exact Nat.ne_of_gt hlt
      · rw [hother j hji]
        exact hno j (hold j hji hj)
    · cases hid
  case order =>
    rw [htrace, List.pairwise_append]
    exact ⟨h.order, List.pairwise_singleton _ _, by simp [Event.Allows]⟩

/-- **Every call keeps the invariant**, also from inside a callback. -/
theorem apply (h : Bounded busy s) (o : Op) : Bounded busy (o.apply s) := by
  have hosc : ∀ pin period value transitions asked millis, Stores transitions asked →
      Bounded busy (s.oscillation pin period value transitions asked millis).2 := by
    intro pin period value transitions asked millis hstores
    unfold State.oscillation
    split
    · exact h
    · rename_i j hj
      exact (h.register j hstores).pinWritten _ _ _
  cases o with
  | every period callback repeatCount millis =>
      show Bounded busy (s.every period callback repeatCount millis).2
      unfold State.every
      split
      · exact h
      · rename_i j hj
        exact h.register j fun _ _ => rfl
  | oscillate pin period startingValue repeatCount millis =>
      exact hosc _ _ _ _ _ _ (stores_mul_two repeatCount)
  | pulseImmediate pin period pulseValue millis => exact hosc _ _ _ _ _ _ fun _ _ => rfl
  | stop id =>
      show Bounded busy (s.stop id)
      unfold State.stop
      split_ifs with hrange
      · simp only
        split_ifs with hfree
        · exact h.free _
        · exact h.stop_live hfree
      · exact h

theorem apply_all (h : Bounded busy s) (ops : List Op) : Bounded busy (ops.foldl Op.apply s) := by
  induction ops generalizing s with
  | nil => exact h
  | cons o ops ih => exact ih (h.apply o)

/-- A slot that is due fires; until its callback is done it is busy. -/
theorem fire_log (h : Bounded none s) (hlive : s.Live i) (now : UInt32) :
    Bounded (some i) (s.log (.fired (s.events i).id now)) := by
  have hself : firings (s.events i).id (s.log (.fired (s.events i).id now)).trace
      = firings (s.events i).id s.trace ++ [now] := firings_fired _ _ _
  have hother : ∀ id, id ≠ (s.events i).id →
      firings id (s.log (.fired (s.events i).id now)).trace = firings id s.trace := by
    intro id hid
    apply firings_log
    intro now' he
    exact hid (Event.fired.inj he).1.symm
  have hreg : ∀ id r, .registered id r ∈ (s.log (.fired (s.events i).id now)).trace ↔
      .registered id r ∈ s.trace := by simp
  have hfired := h.fired i hlive
  simp only [reduceCtorEq, if_false] at hfired
  refine ⟨h.ids, h.apart, ?_, h.left, ?_, ?_, ?_, ?_, ?_, ?_⟩
  · intro j hj h0
    show (_ : ℤ) ≤ (s.events j).count.toInt + _
    by_cases hji : j = i
    · subst hji
      have hle := hfired h0
      rw [log_events, hself, List.length_append, if_pos rfl]
      push_cast
      simp only [List.length_singleton]
      omega
    · have hid : (s.events j).id ≠ (s.events i).id := fun he => hji (h.apart j i hj hlive he)
      have hj' := h.fired j hj h0
      rw [log_events, hother _ hid]
      split_ifs <;> simp_all
  · intro j hj
    obtain ⟨r, hr, hstores⟩ := h.logged j hj
    exact ⟨r, (hreg _ _).mpr hr, hstores⟩
  · intro id hid
    have hne : id ≠ (s.events i).id := Nat.ne_of_gt (Nat.lt_of_lt_of_le (h.ids i hlive) hid)
    rw [hother id hne]
    exact ⟨(h.fresh id hid).1, fun r => by rw [hreg]; exact (h.fresh id hid).2 r⟩
  · intro id r r' hr hr'
    rw [hreg] at hr hr'
    exact h.once id r r' hr hr'
  · intro id r hr h0 hlt
    rw [hreg] at hr
    by_cases hid : id = (s.events i).id
    · subst hid
      -- the registration was asked to repeat as often as its slot says
      obtain ⟨r', hr', hstores⟩ := h.logged i hlive
      obtain rfl := h.once _ _ _ hr hr'
      have hcount := hstores h0 hlt
      have hleft := h.left i hlive (by omega)
      have hle := hfired (by omega)
      rw [hself, List.length_append]
      push_cast
      simp only [List.length_singleton]
      omega
    · rw [hother id hid]
      exact h.limit id r hr h0 hlt
  · intro id hid
    rw [log_trace, List.mem_append, List.mem_singleton] at hid
    rcases hid with hid | hid
    · exact h.stopped id hid
    · cases hid
  · rw [log_trace, List.pairwise_append]
    refine ⟨h.order, List.pairwise_singleton _ _, fun d hd e he id now' hstop => ?_⟩
    rw [List.mem_singleton.mp he]
    intro heq
    subst hstop
    exact (h.stopped id hd).2 i hlive (Event.fired.inj heq).1

/-- The `switch` of an event that is due. -/
theorem fire (h : Bounded none s) (hlive : s.Live i) (program : Program) (now : UInt32) :
    Bounded (some i) (s.fire program now i) := by
  have hlog := h.fire_log hlive now
  cases htype : (s.events i).eventType with
  | none => exact absurd htype hlive
  | every =>
      simp only [State.fire, htype]
      exact hlog.apply_all _
  | oscillate =>
      simp only [State.fire, htype]
      apply pinWritten
      refine hlog.tame rfl rfl fun j => ?_
      by_cases hj : j = i
      · subst hj
        rw [modify_same]
        exact ⟨fun hne => ⟨hne, rfl⟩, fun _ => ⟨rfl, rfl⟩⟩
      · rw [modify_other hj]
        exact ⟨fun hne => ⟨hne, rfl⟩, fun _ => ⟨rfl, rfl⟩⟩

/-- The slot that was busy has counted its firing, or is free. -/
theorem settle (h : Bounded (some i) s) (htrace : s'.trace = s.trace) (hnext : s'.next = s.next)
    (hother : ∀ j, j ≠ i → s'.events j = s.events j)
    (hself : s'.Live i → s.Live i ∧ (s'.events i).id = (s.events i).id ∧
      (s'.events i).repeatCount = (s.events i).repeatCount ∧
      (0 ≤ (s.events i).repeatCount.toInt →
        (s'.events i).count.toInt = (s.events i).count.toInt + 1 ∧
          (s.events i).count.toInt + 1 < max 1 (s.events i).repeatCount.toInt)) :
    Bounded none s' := by
  have hold : ∀ j, s'.Live j → s.Live j ∧ (s'.events j).id = (s.events j).id ∧
      (s'.events j).repeatCount = (s.events j).repeatCount := by
    intro j hj
    by_cases hji : j = i
    · subst hji
      exact ⟨(hself hj).1, (hself hj).2.1, (hself hj).2.2.1⟩
    · have hlive : s.Live j := by
        show (s.events j).eventType ≠ .none
        rw [← hother j hji]
        exact hj
      rw [hother j hji]
      exact ⟨hlive, rfl, rfl⟩
  constructor
  case ids =>
    intro j hj
    rw [(hold j hj).2.1, hnext]
    exact h.ids j (hold j hj).1
  case apart =>
    intro j k hj hk heq
    rw [(hold j hj).2.1, (hold k hk).2.1] at heq
    exact h.apart j k (hold j hj).1 (hold k hk).1 heq
  case fired =>
    intro j hj h0
    rw [(hold j hj).2.2] at h0
    have hfired := h.fired j (hold j hj).1 h0
    rw [(hold j hj).2.1, htrace]
    by_cases hji : j = i
    · subst hji
      rw [if_pos rfl] at hfired
      rw [((hself hj).2.2.2 h0).1, if_neg (by simp)]
      omega
    · rw [if_neg (fun he => hji (Option.some.inj he).symm)] at hfired
      rw [hother j hji, if_neg (by simp)]
      exact hfired
  case left =>
    intro j hj h0
    by_cases hji : j = i
    · subst hji
      rw [(hself hj).2.2.1] at h0 ⊢
      rw [((hself hj).2.2.2 h0).1]
      exact ((hself hj).2.2.2 h0).2
    · have hleft := h.left j (hold j hj).1
      rw [hother j hji] at h0 ⊢
      exact hleft h0
  case logged =>
    intro j hj
    rw [(hold j hj).2.1, (hold j hj).2.2, htrace]
    exact h.logged j (hold j hj).1
  case fresh =>
    rw [htrace, hnext]
    exact h.fresh
  case once =>
    rw [htrace]
    exact h.once
  case limit =>
    rw [htrace]
    exact h.limit
  case stopped =>
    intro id hid
    rw [htrace] at hid
    obtain ⟨hlt, hno⟩ := h.stopped id hid
    refine ⟨hnext ▸ hlt, fun j hj => ?_⟩
    rw [(hold j hj).2.1]
    exact hno j (hold j hj).1
  case order =>
    rw [htrace]
    exact h.order

/-- After the callback the slot counts the firing, and is freed when it has run often enough. -/
theorem count_firing (h : Bounded (some i) s) (now : UInt32) :
    Bounded none ((s.modify i fun e => { e with lastEventTime := now, count := e.count + 1 }).expire i) := by
  set s₁ := s.modify i fun e => { e with lastEventTime := now, count := e.count + 1 }
  have hsame : s₁.events i = { s.events i with lastEventTime := now, count := (s.events i).count + 1 } :=
    modify_same
  have hother : ∀ j, j ≠ i → s₁.events j = s.events j := fun j hj => modify_other hj
  unfold State.expire
  split_ifs with hdone
  · refine h.settle rfl rfl (fun j hj => ?_) fun hlive => absurd ?_ hlive
    · rw [modify_other hj, hother j hj]
    · rw [modify_same]
  · refine h.settle rfl rfl hother fun hlive => ?_
    rw [hsame] at hdone
    have hlive' : s.Live i := by
      rw [State.Live, hsame] at hlive
      exact hlive
    rw [hsame]
    refine ⟨hlive', rfl, rfl, fun h0 => ?_⟩
    have hleft := h.left i hlive' h0
    have hmax := (s.events i).repeatCount.toInt_lt
    have hcount : ((s.events i).count + 1).toInt = (s.events i).count.toInt + 1 :=
      toInt_add_one (by omega)
    simp only [not_and, ge_iff_le, gt_iff_lt, Int32.le_iff_toInt_le, Int32.lt_iff_toInt_lt, not_le,
      hcount] at hdone
    have hlt := hdone (show (-1 : ℤ) < _ by omega)
    exact ⟨hcount, by omega⟩

theorem updateEvent (h : Bounded none s) (program : Program) (now : UInt32) (i : Fin 10) :
    Bounded none (s.updateEvent program now i) := by
  unfold State.updateEvent
  split_ifs with hfree hdue
  · exact h
  · exact (h.fire hfree program now).count_firing now
  · exact h.expire i

theorem update (h : Bounded none s) (program : Program) (now : UInt32) :
    Bounded none (s.update program now) := by
  unfold State.update
  induction List.finRange 10 generalizing s with
  | nil => exact h
  | cons i is ih => exact ih (h.updateEvent program now i)

end Bounded

/-- Every run keeps the invariant. -/
theorem run_bounded (program : Program) (calls : List Call) :
    Bounded none (State.init.run program calls) := by
  have hfrom : ∀ s, Bounded none s → Bounded none (s.run program calls) := by
    induction calls with
    | nil => exact fun s h => h
    | cons c calls ih =>
        intro s h
        apply ih
        cases c with
        | op o => exact h.apply o
        | update now => exact h.update program now
  exact hfrom _ bounded_init

/-- **No registration fires more often than it was asked to, or after it was stopped.**  For every program,
whatever its callbacks do with the timer, and every sequence of calls: a registration that is asked to fire
a number of times that fits an `int` fires at most that often (zero still lets one firing through), and
nothing fires after it was stopped. -/
theorem run_firings (program : Program) (calls : List Call) :
    (∀ id r, .registered id r ∈ (State.init.run program calls).trace → 0 ≤ r → r < 2 ^ 31 →
      ((firings id (State.init.run program calls).trace).length : ℤ) ≤ max 1 r) ∧
    ∀ before id after, (State.init.run program calls).trace = before ++ .stopped id :: after →
      firings id after = [] := by
  have h := run_bounded program calls
  refine ⟨h.limit, fun before id after htrace => ?_⟩
  have horder := h.order
  rw [htrace, List.pairwise_append] at horder
  have hallow := (List.pairwise_cons.mp horder.2.1).1
  rw [firings, List.filterMap_eq_nil_iff]
  intro e he
  cases e with
  | fired j now =>
      have hne : j ≠ id := by
        rintro rfl
        exact hallow _ he j now rfl rfl
      simp [hne]
  | _ => rfl

end EspFirmware.Timer
