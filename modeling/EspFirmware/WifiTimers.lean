import EspFirmware.Lib.Clock
import EspFirmware.WifiManager
import Mathlib.Data.Nat.Find

/-!
# The timers of the Wi-Fi manager

Two timeouts of 15 seconds compare a clock value with a deadline.  `DisplayConnectToWifiStatus` keeps its
start in a `short int`, so the deadline is the one of another time unless the clock is near zero or near
its end; `WaitForConnectResult` keeps all 32 bits, but its deadline, or the reading after it, may have
wrapped where the other has not.

* `deadline`, `late_toShort` — the deadline of a reconnection, in the ranges of its start;
* `giveUpTimer_iff` — when the first timer measures the elapsed time;
* `Advancing`, `FirstStop` — a clock that moves, and the round a wait should end in;
* `waitsInTime_iff` — when the second one does.
-/

namespace EspFirmware

open Startup

/-! ### Giving up a reconnection -/

namespace WifiManager

theorem toInt_toShort (t : UInt32) :
    (toShort t).toInt
      = if t.toNat % 2 ^ 16 < 2 ^ 15 then (t.toNat % 2 ^ 16 : ℤ) else t.toNat % 2 ^ 16 - 2 ^ 16 := by
  have hbits : (toShort t).toInt = t.toUInt16.toBitVec.toInt := rfl
  have hnat : t.toUInt16.toBitVec.toNat = t.toNat % 2 ^ 16 := UInt32.toNat_toUInt16 t
  rw [hbits, BitVec.toInt_eq_toNat_cond, hnat]
  split_ifs <;> omega

/-- The clock value after which a reconnection of time `t` is given up. -/
def deadline (t : UInt32) : ℕ :=
  if 2 ^ 15 ≤ t.toNat % 2 ^ 16 ∧ t.toNat % 2 ^ 16 < 2 ^ 16 - 15000 then
    2 ^ 32 - 2 ^ 16 + t.toNat % 2 ^ 16 + 15000
  else (t.toNat % 2 ^ 16 + 15000) % 2 ^ 16

theorem late_toShort (t now : UInt32) : late (toShort t) now = true ↔ deadline t < now.toNat := by
  have hshort := toInt_toShort t
  rw [late, decide_eq_true_eq, deadline]
  split_ifs at hshort ⊢ <;> omega

/-- The ranges in which the deadline of a reconnection of time `t` is right at the time `now`. -/
def TimerSound (t now : UInt32) : Prop :=
  if t.toNat < 2 ^ 15 ∨ 2 ^ 32 - 2 ^ 15 ≤ t.toNat ∧ t.toNat < 2 ^ 32 - 15000 then t.toNat ≤ now.toNat
  else if 2 ^ 32 - 15000 ≤ t.toNat then now.toNat < t.toNat
  else if 2 ^ 15 ≤ t.toNat % 2 ^ 16 ∧ t.toNat % 2 ^ 16 < 2 ^ 16 - 15000 then
    t.toNat ≤ now.toNat ∧ now.toNat ≤ t.toNat + 15000 ∨
      2 ^ 32 - 2 ^ 16 + t.toNat % 2 ^ 16 + 15000 < now.toNat
  else
    (t.toNat % 2 ^ 16 + 15000) % 2 ^ 16 < now.toNat ∧ now.toNat < t.toNat ∨
      t.toNat + 15000 < now.toNat

/-- The elapsed time in terms of the two values. -/
theorem elapsed_gt_iff (t now : UInt32) :
    15000 < Clock.elapsed t now ↔
      t.toNat + 15000 < now.toNat ∨ now.toNat < t.toNat ∧ t.toNat + 15000 < 2 ^ 32 + now.toNat := by
  have ht := t.toNat_lt
  have hnow := now.toNat_lt
  rw [Clock.elapsed]
  omega

/-- The arithmetic of the timer. -/
theorem late_sound_iff (t now : UInt32) :
    (late (toShort t) now = true ↔ 15000 < Clock.elapsed t now) ↔ TimerSound t now := by
  have ht := t.toNat_lt
  have hnow := now.toNat_lt
  rw [late_toShort, elapsed_gt_iff, TimerSound, deadline]
  split_ifs <;> omega

variable {air : Air} {w w' : WifiManager} {t : UInt32}

/-- The start time is the one of the last reconnection, cut to 16 bits. -/
def Started (w : WifiManager) : Prop :=
  ∀ t, w.reconnects.head? = some t → w.wifiStartConnectTime = toShort t

theorem Started.congr {v : WifiManager} (h : Started w) (hrec : v.reconnects = w.reconnects)
    (htime : v.wifiStartConnectTime = w.wifiStartConnectTime) : Started v := by
  intro t ht
  rw [hrec] at ht
  rw [htime]
  exact h t ht

theorem started_beginReconnect (displayReconnect : Bool) :
    Started (w.beginReconnect air displayReconnect) := by
  intro t ht
  rw [beginReconnect_reconnects, List.head?_cons] at ht
  rw [beginReconnect_wifiStartConnectTime, Option.some.inj ht]

theorem started_pollConnecting (h : Started w) : Started (w.pollConnecting air).2 :=
  h.congr pollConnecting_reconnects pollConnecting_wifiStartConnectTime

theorem started_timerTest (h : Started w) : Started (w.timerTest air).2 :=
  h.congr (timerTest_reconnects w air) (timerTest_wifiStartConnectTime w air)

theorem step_started {call : Call} (hw : Started w) (h : step air w call = some w') : Started w' := by
  cases call with
  | attemptConnect tmpNetworkName tmpPassword rounds =>
      obtain ⟨r, hr, hend⟩ := Option.bind_eq_some_iff.mp h
      obtain ⟨-, hrec, htime, -⟩ := waitLoop_fields hr
      have hend' : w'.reconnects = r.2.reconnects ∧
          w'.wifiStartConnectTime = r.2.wifiStartConnectTime := by
        simp only at hend
        split at hend <;> cases hend <;> simp
      exact hw.congr (hend'.1.trans hrec) (hend'.2.trans htime)
  | reconnect displayReconnect =>
      have heq := (reconnect_eq displayReconnect w 1).symm.trans h
      cases heq
      exact started_pollConnecting (started_beginReconnect _)
  | displayConnectToWifiStatus =>
      obtain ⟨r, hr, hspec⟩ := displayConnectToWifiStatus_spec air w
      obtain ⟨r', hr', rfl⟩ := Option.map_eq_some_iff.mp h
      have heq := (hr 0).symm.trans hr'
      cases heq
      cases hspec with
      | ignored => exact hw.congr rfl rfl
      | connected => exact hw.congr (by simp) (by simp)
      | waited => exact started_timerTest (hw.congr rfl rfl)
      | reconnected =>
          exact started_timerTest (started_pollConnecting (started_beginReconnect _))
  | waitForConnectResult rounds =>
      obtain ⟨r, hr, rfl⟩ := Option.map_eq_some_iff.mp h
      obtain ⟨-, hrec, htime, -⟩ := waitLoop_fields hr
      exact hw.congr hrec htime

/-- A state in which `DisplayConnectToWifiStatus` is called: between two calls from outside, or inside
`Reconnect`. -/
inductive Polled (air : Air) : WifiManager → Prop
  | outer {calls : List Call} {w : WifiManager} : runCalls air calls = some w → Polled air w
  | inner (displayReconnect : Bool) (w : WifiManager) : Polled air (w.beginReconnect air displayReconnect)

theorem Polled.started (h : Polled air w) : Started w := by
  cases h with
  | outer hrun =>
      exact runCalls_invariant (by simp [Started, start]) (fun _ _ _ hw hstep => step_started hw hstep) hrun
  | inner displayReconnect w => exact started_beginReconnect displayReconnect

theorem Polled.exclusive (h : Polled air w) : Exclusive w := by
  cases h with
  | outer hrun => exact runCalls_exclusive hrun
  | inner displayReconnect w => exact beginReconnect_exclusive displayReconnect

/-- The poll ends in cant-connect mode, from a stack of any depth. -/
def GivesUp (air : Air) (w : WifiManager) : Prop :=
  ∃ r, (∀ depth, displayConnectToWifiStatus air (depth + 1) w = some r) ∧ r.2.cantConnectMode = true

/-- **When the give-up timer measures the elapsed time.**  Whatever has happened since the last
`Reconnect`, at time `t`: a poll of a manager that is connecting, with Wi-Fi down, enters cant-connect
mode exactly after 15000 ms if and only if the start and the poll lie in the ranges of `TimerSound`. -/
theorem giveUpTimer_iff (hw : Polled air w) (ht : w.reconnects.head? = some t)
    (hconn : w.wifiConnecting = true) (hdown : w.asked.status air ≠ WL_CONNECTED) :
    (GivesUp air w ↔ 15000 < Clock.elapsed t (w.millis air)) ↔ TimerSound t (w.millis air) := by
  have hcant : w.cantConnectMode = false := by
    cases hc : w.cantConnectMode with
    | false => rfl
    | true => exact absurd ⟨hconn, hc⟩ hw.exclusive
  have hpoll : ∀ depth, displayConnectToWifiStatus air (depth + 1) w
      = some (w.asked.asked.timerTest air) := by
    intro depth
    rw [displayConnectToWifiStatus_connecting hconn hcant, pollConnecting, if_pos hdown]
  have hend : (w.asked.asked.timerTest air).2.cantConnectMode = late (toShort t) (w.millis air) := by
    rw [← hw.started t ht]
    exact timerTest_cantConnectMode w.asked.asked air hcant
  have hgives : GivesUp air w ↔ late (toShort t) (w.millis air) = true := by
    constructor
    · rintro ⟨r, hr, hcm⟩
      have heq := (hr 0).symm.trans (hpoll 0)
      cases heq
      rw [← hend, hcm]
    · intro hlate
      exact ⟨_, hpoll, hend.trans hlate⟩
  rw [hgives]
  exact late_sound_iff t (w.millis air)

/-- Wi-Fi is down; the clock stands at `t` and then at `now`. -/
def downAir (t now : UInt32) : Air where
  status _ := 6
  millis k := if k < 2 then t else now

/-- A reconnection in the first seconds after program start. -/
theorem giveUpTimer_early :
    ∃ w, runCalls (downAir 100 20000) [.reconnect true] = some w ∧ w.wifiConnecting = true ∧
      (GivesUp (downAir 100 20000) w ↔ 15000 < Clock.elapsed 100 20000) := by
  have hrun : runCalls (downAir 100 20000) [.reconnect true] = some _ := rfl
  have hsound : TimerSound 100 20000 := by
    rw [TimerSound, if_pos (by decide)]
    decide
  exact ⟨_, hrun, rfl, (giveUpTimer_iff (.outer hrun) rfl rfl (by decide)).mpr hsound⟩

/-- A reconnection after 40 seconds is not given up 20 seconds later. -/
theorem giveUpTimer_missed :
    ∃ w, runCalls (downAir 40000 60000) [.reconnect true] = some w ∧
      w.reconnects.head? = some 40000 ∧ w.wifiConnecting = true ∧ w.millis (downAir 40000 60000) = 60000 ∧
      15000 < Clock.elapsed 40000 60000 ∧ ¬GivesUp (downAir 40000 60000) w := by
  refine ⟨_, rfl, rfl, rfl, rfl, by decide, ?_⟩
  rintro ⟨r, hr, hcant⟩
  have heq := hr 0
  cases heq
  exact absurd hcant (by decide)

end WifiManager

/-! ### Waiting for Wi-Fi -/

/-- The status ends the wait. -/
def Startup.Reading.Ends (r : Reading) : Prop := r.status = WL_CONNECTED ∨ r.status = WL_CONNECT_FAILED

/-- More than `connectTimeout` has passed since `start`. -/
def Startup.Reading.Overdue (start : UInt32) (r : Reading) : Prop := 15000 < Clock.elapsed start r.millis

/-- A clock that moves by 1 to 1000 ms from one round to the next, and by at most 1000 ms to the first. -/
structure Advancing (start : UInt32) (readings : ℕ → Reading) : Prop where
  first : Clock.elapsed start (readings 0).millis ≤ 1000
  moves : ∀ j, 1 ≤ Clock.elapsed (readings j).millis (readings (j + 1)).millis
  slow : ∀ j, Clock.elapsed (readings j).millis (readings (j + 1)).millis ≤ 1000

/-- The round a wait should end in: the first one whose status ends it or that is overdue. -/
structure FirstStop (start : UInt32) (readings : ℕ → Reading) (k : ℕ) : Prop where
  stops : (readings k).Ends ∨ (readings k).Overdue start
  first : ∀ j < k, ¬(readings j).Ends ∧ ¬(readings j).Overdue start

section Wait

variable {start : UInt32} {readings : ℕ → Reading} {k : ℕ}

theorem FirstStop.unique {k' : ℕ} (h : FirstStop start readings k) (h' : FirstStop start readings k') :
    k = k' := by
  rcases lt_trichotomy k k' with hlt | heq | hgt
  · have hnot := h'.first k hlt
    exact absurd h.stops (by tauto)
  · exact heq
  · have hnot := h.first k' hgt
    exact absurd h'.stops (by tauto)

/-- Until a round is overdue the time since the start adds up. -/
theorem Advancing.elapsed_bounds (h : Advancing start readings)
    (hin : ∀ j < k, ¬(readings j).Overdue start) :
    Clock.elapsed start (readings 0).millis + k ≤ Clock.elapsed start (readings k).millis ∧
      Clock.elapsed start (readings k).millis ≤ 16000 := by
  induction k with
  | zero =>
      have hfirst := h.first
      omega
  | succ k ih =>
      obtain ⟨hlo, -⟩ := ih fun j hj => hin j (Nat.lt_succ_of_lt hj)
      have hle : Clock.elapsed start (readings k).millis ≤ 15000 := not_lt.mp (hin k (Nat.lt_succ_self k))
      have hmoves := h.moves k
      have hslow := h.slow k
      have hsum : Clock.elapsed start (readings k).millis
          + Clock.elapsed (readings k).millis (readings (k + 1)).millis < 2 ^ 32 := by
        omega
      have hadd := Clock.elapsed_add hsum
      omega

/-- A wait should end. -/
theorem Advancing.exists_firstStop (h : Advancing start readings) :
    ∃ k, FirstStop start readings k := by
  classical
  have hex : ∃ k, (readings k).Ends ∨ (readings k).Overdue start := by
    by_contra hnone
    obtain ⟨hlo, hhi⟩ := h.elapsed_bounds (k := 16001) fun j _ hj => hnone ⟨j, .inr hj⟩
    omega
  exact ⟨Nat.find hex, Nat.find_spec hex, fun j hj => not_or.mp (Nat.find_min hex hj)⟩

/-- The deadline of the code, with the counter before its end. -/
theorem late_of_lt {r : Reading} (hstart : start.toNat < 2 ^ 32 - 15000) :
    r.Late start ↔ start.toNat + 15000 < r.millis.toNat := by
  have hconst : connectTimeout.toNat = 15000 := rfl
  rw [Reading.Late, UInt32.lt_iff_toNat_lt, UInt32.toNat_add, hconst, Nat.mod_eq_of_lt (by omega)]

/-- The deadline of the code, wrapped. -/
theorem late_of_le {r : Reading} (hstart : 2 ^ 32 - 15000 ≤ start.toNat) :
    r.Late start ↔ start.toNat + 15000 - 2 ^ 32 < r.millis.toNat := by
  have hconst : connectTimeout.toNat = 15000 := rfl
  have hlt := start.toNat_lt
  rw [Reading.Late, UInt32.lt_iff_toNat_lt, UInt32.toNat_add, hconst]
  omega

/-- The wait has not ended exactly if no round has ended it. -/
theorem waitForConnectResult_eq_none (start : UInt32) (rs : List Reading) :
    waitForConnectResult start rs = none ↔ ∀ r ∈ rs, ¬r.Ends ∧ ¬r.Late start := by
  induction rs with
  | nil => simp [waitForConnectResult]
  | cons r rs ih =>
      rw [waitForConnectResult, List.forall_mem_cons, ← ih, Reading.Ends]
      split_ifs with hstop
      · simp only [false_iff]
        tauto
      · tauto

/-- The round that ends the wait gives its status. -/
theorem waitForConnectResult_concat {rs : List Reading} {r : Reading}
    (h : waitForConnectResult start rs = none) (hr : r.Ends ∨ r.Late start) :
    waitForConnectResult start (rs ++ [r]) = some r.status := by
  induction rs with
  | nil =>
      rw [List.nil_append, waitForConnectResult, if_pos]
      rw [Reading.Ends] at hr
      tauto
  | cons q rs ih =>
      rw [waitForConnectResult] at h
      rw [List.cons_append, waitForConnectResult]
      split_ifs at h with hq
      rw [if_neg hq]
      exact ih h

/-- The readings of the first `k` rounds. -/
def firstReadings (readings : ℕ → Reading) (k : ℕ) : List Reading := (List.range k).map readings

theorem firstReadings_succ (readings : ℕ → Reading) (k : ℕ) :
    firstReadings readings (k + 1) = firstReadings readings k ++ [readings k] := by
  rw [firstReadings, List.range_succ, List.map_append]
  rfl

/-- The code leaves its loop at the round `k`, with the status of that round. -/
structure LeavesAt (start : UInt32) (readings : ℕ → Reading) (k : ℕ) : Prop where
  inside : waitForConnectResult start (firstReadings readings k) = none
  leaves : waitForConnectResult start (firstReadings readings (k + 1)) = some (readings k).status

theorem leavesAt_iff :
    LeavesAt start readings k ↔
      ((readings k).Ends ∨ (readings k).Late start) ∧
        ∀ j < k, ¬(readings j).Ends ∧ ¬(readings j).Late start := by
  have hinside : waitForConnectResult start (firstReadings readings k) = none ↔
      ∀ j < k, ¬(readings j).Ends ∧ ¬(readings j).Late start := by
    rw [waitForConnectResult_eq_none]
    simp [firstReadings]
  constructor
  · rintro ⟨hin, hleaves⟩
    refine ⟨?_, hinside.mp hin⟩
    by_contra hnot
    have hnone : waitForConnectResult start (firstReadings readings (k + 1)) = none := by
      rw [waitForConnectResult_eq_none] at hin ⊢
      rw [firstReadings_succ]
      intro r hr
      rcases List.mem_append.mp hr with hr | hr
      · exact hin r hr
      · rw [List.mem_singleton.mp hr]
        exact not_or.mp hnot
    rw [hnone] at hleaves
    cases hleaves
  · rintro ⟨hstop, hbefore⟩
    refine ⟨hinside.mpr hbefore, ?_⟩
    rw [firstReadings_succ]
    exact waitForConnectResult_concat (hinside.mpr hbefore) hstop

/-- The wait ends in the round it should end in. -/
def WaitsInTime (start : UInt32) (readings : ℕ → Reading) : Prop :=
  ∃ k, FirstStop start readings k ∧ LeavesAt start readings k

/-- Neither the deadline nor the reading after it has wrapped without the other; a wait that starts in the
last 15000 values of the counter needs its first reading after the wrap. -/
def WaitSound (start : UInt32) (readings : ℕ → Reading) : Prop :=
  start.toNat < 2 ^ 32 - 15000 ∧
      (∀ k, FirstStop start readings k →
        (readings k).Ends ∨ start.toNat ≤ (readings k).millis.toNat) ∨
    2 ^ 32 - 15000 ≤ start.toNat ∧
      ((readings 0).Ends ∨ (readings 0).millis.toNat < start.toNat)

/-- A wait that starts before the last 15000 values leaves the loop in time unless the reading has
wrapped. -/
theorem leavesAt_of_lt (hclock : Advancing start readings) (hstart : start.toNat < 2 ^ 32 - 15000)
    (hk : FirstStop start readings k) :
    LeavesAt start readings k ↔
      (readings k).Ends ∨ start.toNat ≤ (readings k).millis.toNat := by
  have hbounds := fun j (hj : j ≤ k) => hclock.elapsed_bounds (k := j)
    fun i hi => (hk.first i (hi.trans_le hj)).2
  have hvalue := fun j => Clock.toNat_eq start (readings j).millis
  have hbefore : ∀ j < k, ¬(readings j).Ends ∧ ¬(readings j).Late start := by
    intro j hj
    obtain ⟨hends, hin⟩ := hk.first j hj
    refine ⟨hends, ?_⟩
    rw [late_of_lt hstart]
    have hle : Clock.elapsed start (readings j).millis ≤ 15000 := not_lt.mp hin
    have hj' := hvalue j
    omega
  rw [leavesAt_iff]
  refine (and_iff_left hbefore).trans (or_congr_right' fun hends => ?_)
  have hover : 15000 < Clock.elapsed start (readings k).millis := hk.stops.resolve_left hends
  have hk' := hvalue k
  have hle := (hbounds k le_rfl).2
  rw [late_of_lt hstart]
  omega

/-- A wait that starts within the last 15000 values leaves the loop in time if its readings have
wrapped. -/
theorem leavesAt_of_wrapped (hclock : Advancing start readings) (hstart : 2 ^ 32 - 15000 ≤ start.toNat)
    (hwrapped : (readings 0).millis.toNat < start.toNat) (hk : FirstStop start readings k) :
    LeavesAt start readings k := by
  have hlt := start.toNat_lt
  have hlate : ∀ j ≤ k, ((readings j).Late start ↔ (readings j).Overdue start) := by
    intro j hj
    obtain ⟨hlo, hhi⟩ := hclock.elapsed_bounds (k := j) fun i hi => (hk.first i (hi.trans_le hj)).2
    have hzero := Clock.elapsed_of_lt hwrapped
    have hvalue := Clock.toNat_eq start (readings j).millis
    rw [late_of_le hstart, Reading.Overdue]
    omega
  rw [leavesAt_iff]
  refine ⟨?_, fun j hj => ⟨(hk.first j hj).1, ?_⟩⟩
  · rw [hlate k le_rfl]
    exact hk.stops
  · rw [hlate j hj.le]
    exact (hk.first j hj).2

/-- **When a wait for Wi-Fi ends in time.**  For every start time, every status sequence and every clock
that moves by 1 to 1000 ms from round to round, the loop is left at the first round whose status ends it
or that is overdue, with the status of that round, if and only if `WaitSound`. -/
theorem waitsInTime_iff (hclock : Advancing start readings) :
    WaitsInTime start readings ↔ WaitSound start readings := by
  obtain ⟨k, hk⟩ := hclock.exists_firstStop
  have hunique : WaitsInTime start readings ↔ LeavesAt start readings k := by
    constructor
    · rintro ⟨k', hk', hleaves⟩
      rwa [hk.unique hk']
    · exact fun hleaves => ⟨k, hk, hleaves⟩
  rw [hunique, WaitSound]
  rcases lt_or_ge start.toNat (2 ^ 32 - 15000) with hstart | hstart
  · rw [leavesAt_of_lt hclock hstart hk]
    constructor
    · intro hsound
      refine .inl ⟨hstart, fun k' hk' => ?_⟩
      rwa [← hk.unique hk']
    · rintro (⟨-, hsound⟩ | ⟨hlate, -⟩)
      · exact hsound k hk
      · omega
  · constructor
    · intro hleaves
      refine .inr ⟨hstart, ?_⟩
      by_contra hnot
      obtain ⟨hends, hwrapped⟩ := not_or.mp hnot
      -- the first reading is past the wrapped deadline though no time has passed
      have hlate : (readings 0).Late start := by
        have hlt := start.toNat_lt
        rw [late_of_le hstart]
        omega
      obtain ⟨-, hbefore⟩ := leavesAt_iff.mp hleaves
      have hzero : k = 0 := by
        by_contra hpos
        exact (hbefore 0 (Nat.pos_of_ne_zero hpos)).2 hlate
      subst hzero
      have hover : 15000 < Clock.elapsed start (readings 0).millis := hk.stops.resolve_left hends
      have hfirst := hclock.first
      omega
    · rintro (⟨hlt, -⟩ | ⟨-, hends | hwrapped⟩)
      · omega
      · have hzero : k = 0 := by
          by_contra hpos
          exact (hk.first 0 (Nat.pos_of_ne_zero hpos)).1 hends
        subst hzero
        exact leavesAt_iff.mpr ⟨.inl hends, by simp⟩
      · exact leavesAt_of_wrapped hclock hstart hwrapped hk

end Wait

/-- Wi-Fi stays down, and 100 ms pass from round to round. -/
def idleReadings (start : UInt32) (j : ℕ) : Reading := ⟨6, start + UInt32.ofNat (100 * (j + 1))⟩

theorem idleReadings_advancing (start : UInt32) : Advancing start (idleReadings start) := by
  have hvalue : ∀ j, (idleReadings start j).millis.toNat
      = (start.toNat + 100 * (j + 1) % 2 ^ 32) % 2 ^ 32 := by
    intro j
    rw [idleReadings, UInt32.toNat_add, UInt32.toNat_ofNat']
  have hlt := start.toNat_lt
  have hstep : ∀ j, Clock.elapsed (idleReadings start j).millis (idleReadings start (j + 1)).millis
      = 100 := by
    intro j
    rw [Clock.elapsed, hvalue, hvalue]
    omega
  refine ⟨?_, fun j => ?_, fun j => ?_⟩
  · rw [Clock.elapsed, hvalue]
    omega
  · rw [hstep]
    omega
  · rw [hstep]
    omega

/-- A wait that starts with the clock at zero ends in time. -/
theorem waitsInTime_zero : Advancing 0 (idleReadings 0) ∧ WaitsInTime 0 (idleReadings 0) :=
  ⟨idleReadings_advancing 0, (waitsInTime_iff (idleReadings_advancing 0)).mpr
    (.inl ⟨by decide, fun _ _ => .inr (Nat.zero_le _)⟩)⟩

/-- A wait that starts 296 ms before the counter wraps is left in its first round. -/
theorem waitsInTime_early :
    Advancing 4294967000 (idleReadings 4294967000) ∧
      LeavesAt 4294967000 (idleReadings 4294967000) 0 ∧
      Clock.elapsed 4294967000 (idleReadings 4294967000 0).millis = 100 ∧
      ¬WaitsInTime 4294967000 (idleReadings 4294967000) := by
  have hlate : (idleReadings 4294967000 0).Late 4294967000 := by decide
  refine ⟨idleReadings_advancing _, leavesAt_iff.mpr ⟨.inr hlate, by simp⟩, by decide, ?_⟩
  rintro ⟨k, hfirst, hleaves⟩
  obtain ⟨-, hbefore⟩ := leavesAt_iff.mp hleaves
  have hzero : k = 0 := by
    by_contra hpos
    exact (hbefore 0 (Nat.pos_of_ne_zero hpos)).2 hlate
  subst hzero
  have hstops := hfirst.stops
  rw [Reading.Ends, Reading.Overdue] at hstops
  exact absurd hstops (by decide)

end EspFirmware
