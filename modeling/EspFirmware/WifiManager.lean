import EspFirmware.Startup

/-!
# The Wi-Fi manager

`WifiManagerClass` of `WifiManager.cpp`.  `DisplayConnectToWifiStatus` starts a reconnection when the
connection was dropped, and `Reconnect` shows the status in turn, so the two call each other; they are
given a depth of the call stack.  `WiFi.status()` and `millis()` are asked anew at every use: their answers
are two sequences, and the state counts how many it has taken.  The body of `CantConnectMode` is commented
out in the source; it is taken to set the flag.

* `WifiManager`, `Air` — the fields of the object and the answers it meets;
* `displayConnectToWifiStatus`, `reconnect`, `waitLoop`, `attemptConnect` — the functions;
* `DisplaySpec` — everything a call of `DisplayConnectToWifiStatus` can do, at any depth from three on;
* `runCalls_exclusive` — the two modes exclude each other, and the recursion is bounded;
* `cantConnect_ends_iff` — cant-connect mode does not end when the network comes back.
-/

namespace EspFirmware

open CString Startup

/-- The answers of `WiFi.status()` and `millis()`, in the order they are asked for. -/
structure Air where
  status : ℕ → UInt8
  millis : ℕ → UInt32

/-- The fields of `WifiManagerClass`; `reconnects` lists the times of the `Reconnect` calls, the last one
first. -/
structure WifiManager where
  networkName : Option (List UInt8)
  password : Option (List UInt8)
  wifiConnecting : Bool
  wifiStartConnectTime : Int16
  cantConnectMode : Bool
  showReconnectStatus : Bool
  statusCalls : ℕ
  millisCalls : ℕ
  reconnects : List UInt32

namespace WifiManager

/-- The object at program start. -/
def start : WifiManager where
  networkName := some (ascii "unknown")
  password := none
  wifiConnecting := false
  wifiStartConnectTime := 0
  cantConnectMode := false
  showReconnectStatus := true
  statusCalls := 0
  millisCalls := 0
  reconnects := []

/-- `WiFi.status()` was called. -/
def asked (w : WifiManager) : WifiManager := { w with statusCalls := w.statusCalls + 1 }

/-- `millis()` was called. -/
def ticked (w : WifiManager) : WifiManager := { w with millisCalls := w.millisCalls + 1 }

/-- What `WiFi.status()` returns now. -/
def status (air : Air) (w : WifiManager) : UInt8 := air.status w.statusCalls

/-- What `millis()` returns now. -/
def millis (air : Air) (w : WifiManager) : UInt32 := air.millis w.millisCalls

/-- `EndCantConnectMode`. -/
def endCantConnectMode (w : WifiManager) : WifiManager :=
  if w.cantConnectMode then { w with cantConnectMode := false } else w

/-- `CantConnectMode`, as assumed. -/
def enterCantConnectMode (w : WifiManager) : WifiManager := { w with cantConnectMode := true }

/-- The conversion of a clock value to `short int`. -/
def toShort (now : UInt32) : Int16 := now.toUInt16.toInt16

/-- `wifiStartConnectTime+(15*1000) < millis()`: the sum is an `int`, compared as an `unsigned long`. -/
def late (wifiStartConnectTime : Int16) (now : UInt32) : Bool :=
  decide ((wifiStartConnectTime.toInt + 15 * 1000) % 2 ^ 32 < (now.toNat : ℤ))

/-- The end of `DisplayConnectToWifiStatus` while Wi-Fi is not connected. -/
def timerTest (air : Air) (w : WifiManager) : Bool × WifiManager :=
  if late w.wifiStartConnectTime (w.millis air) then
    (true, { w.ticked with wifiConnecting := false }.enterCantConnectMode)
  else (w.showReconnectStatus, w.ticked)

/-- `Reconnect` up to its call of `DisplayConnectToWifiStatus`. -/
def beginReconnect (air : Air) (displayReconnect : Bool) (w : WifiManager) : WifiManager :=
  let started := { w.ticked with
    wifiStartConnectTime := toShort (w.millis air)
    showReconnectStatus := displayReconnect
    reconnects := w.millis air :: w.reconnects }
  { started.endCantConnectMode with wifiConnecting := true }

/-- The branch of `DisplayConnectToWifiStatus` for a connection that stands. -/
def connected (w : WifiManager) : WifiManager :=
  { w with showReconnectStatus := false, wifiConnecting := false }.endCantConnectMode

mutual

/-- `DisplayConnectToWifiStatus`. -/
def displayConnectToWifiStatus (air : Air) : ℕ → WifiManager → Option (Bool × WifiManager)
  | 0, _ => none
  | depth + 1, w =>
      if w.status air = WL_CONNECTED ∧ ¬w.wifiConnecting ∨ w.cantConnectMode then some (false, w.asked)
      else if w.asked.status air ≠ WL_CONNECTED then do
        let w' ←
          if ¬w.wifiConnecting ∧ ¬w.cantConnectMode then
            reconnect air depth w.showReconnectStatus w.asked.asked
          else some w.asked.asked
        some (w'.timerTest air)
      else some (false, w.asked.asked.connected)

/-- `Reconnect`. -/
def reconnect (air : Air) : ℕ → Bool → WifiManager → Option WifiManager
  | 0, _, _ => none
  | depth + 1, displayReconnect, w => do
      let r ← displayConnectToWifiStatus air depth (w.beginReconnect air displayReconnect)
      some r.2

end

/-- The loop of `WaitForConnectResult`; `none` if it is not left within so many rounds. -/
def waitLoop (air : Air) (start : UInt32) : ℕ → WifiManager → Option (UInt8 × WifiManager)
  | 0, _ => none
  | rounds + 1, w =>
      let status := w.status air
      let now := w.millis air
      let w' := w.asked.ticked
      if status = WL_CONNECTED ∨ status = WL_CONNECT_FAILED then
        some (status, if status = WL_CONNECTED ∧ w'.cantConnectMode then w'.endCantConnectMode else w')
      else if start + connectTimeout < now then some (status, w')
      else waitLoop air start rounds w'

/-- `WaitForConnectResult`. -/
def waitForConnectResult (air : Air) (rounds : ℕ) (w : WifiManager) : Option (UInt8 × WifiManager) :=
  waitLoop air (w.millis air) rounds w.ticked

/-- The readings of so many rounds. -/
def readings (air : Air) : ℕ → WifiManager → List Reading
  | 0, _ => []
  | rounds + 1, w => ⟨w.status air, w.millis air⟩ :: readings air rounds w.asked.ticked

/-- The status it returns is that of the wait on its readings. -/
theorem waitLoop_status (air : Air) (start : UInt32) (rounds : ℕ) (w : WifiManager) :
    (waitLoop air start rounds w).map Prod.fst
      = Startup.waitForConnectResult start (readings air rounds w) := by
  induction rounds generalizing w with
  | zero => rfl
  | succ rounds ih =>
      rw [waitLoop, readings, Startup.waitForConnectResult, ← ih]
      by_cases hends : w.status air = WL_CONNECTED ∨ w.status air = WL_CONNECT_FAILED
      · have hstop : w.status air = WL_CONNECTED ∨ w.status air = WL_CONNECT_FAILED ∨
            Reading.Late start ⟨w.status air, w.millis air⟩ := by
          tauto
        rw [if_pos hends, if_pos hstop]
        rfl
      · rw [if_neg hends]
        by_cases hlate : start + connectTimeout < w.millis air
        · rw [if_pos hlate, if_pos (.inr (.inr hlate))]
          rfl
        · rw [if_neg hlate, if_neg]
          rw [not_or] at hends
          exact fun h => h.elim hends.1 fun h => h.elim hends.2 hlate

/-- `AttemptConnect`. -/
def attemptConnect (air : Air) (tmpNetworkName tmpPassword : Option (List UInt8)) (rounds : ℕ)
    (w : WifiManager) : Option WifiManager := do
  let r ← { w with wifiConnecting := true }.waitForConnectResult air rounds
  let w' := { r.2 with wifiConnecting := false }
  if w'.status air = WL_CONNECTED then
    some { w'.asked with networkName := tmpNetworkName, password := tmpPassword }.endCantConnectMode
  else some w'.asked

/-! ### Runs -/

/-- The depth `DisplayConnectToWifiStatus` needs. -/
def callDepth : ℕ := 3

/-- A call from outside, with the rounds a wait is observed for. -/
inductive Call where
  | attemptConnect (tmpNetworkName tmpPassword : Option (List UInt8)) (rounds : ℕ)
  | reconnect (displayReconnect : Bool)
  | displayConnectToWifiStatus
  | waitForConnectResult (rounds : ℕ)

def step (air : Air) (w : WifiManager) : Call → Option WifiManager
  | .attemptConnect tmpNetworkName tmpPassword rounds =>
      w.attemptConnect air tmpNetworkName tmpPassword rounds
  | .reconnect displayReconnect => reconnect air callDepth displayReconnect w
  | .displayConnectToWifiStatus => (displayConnectToWifiStatus air callDepth w).map Prod.snd
  | .waitForConnectResult rounds => (w.waitForConnectResult air rounds).map Prod.snd

/-- The object after a list of calls that have returned. -/
def runCalls (air : Air) (calls : List Call) : Option WifiManager := calls.foldlM (step air) start

/-- **The run rule.** -/
theorem runCalls_invariant {air : Air} {P : WifiManager → Prop} (hstart : P start)
    (hstep : ∀ w call w', P w → step air w call = some w' → P w') {calls : List Call} {w : WifiManager}
    (h : runCalls air calls = some w) : P w := by
  have hrun : ∀ (calls : List Call) (v : WifiManager), P v → calls.foldlM (step air) v = some w → P w := by
    intro calls
    induction calls with
    | nil =>
        intro v hv h
        cases h
        exact hv
    | cons call calls ih =>
        intro v hv h
        rw [List.foldlM_cons] at h
        obtain ⟨v', hv', hrest⟩ := Option.bind_eq_some_iff.mp h
        exact ih v' (hstep v call v' hv hv') hrest
  exact hrun calls start hstart h

/-! ### What the small steps keep -/

section Fields

variable (w : WifiManager)

@[simp] theorem asked_wifiConnecting : w.asked.wifiConnecting = w.wifiConnecting := rfl
@[simp] theorem asked_cantConnectMode : w.asked.cantConnectMode = w.cantConnectMode := rfl
@[simp] theorem asked_reconnects : w.asked.reconnects = w.reconnects := rfl
@[simp] theorem asked_wifiStartConnectTime :
    w.asked.wifiStartConnectTime = w.wifiStartConnectTime := rfl
@[simp] theorem ticked_wifiConnecting : w.ticked.wifiConnecting = w.wifiConnecting := rfl
@[simp] theorem ticked_cantConnectMode : w.ticked.cantConnectMode = w.cantConnectMode := rfl
@[simp] theorem ticked_reconnects : w.ticked.reconnects = w.reconnects := rfl
@[simp] theorem ticked_wifiStartConnectTime :
    w.ticked.wifiStartConnectTime = w.wifiStartConnectTime := rfl

@[simp] theorem endCantConnectMode_cantConnectMode : w.endCantConnectMode.cantConnectMode = false := by
  unfold endCantConnectMode
  split
  · rfl
  · rename_i h
    simpa using h

@[simp] theorem endCantConnectMode_wifiConnecting :
    w.endCantConnectMode.wifiConnecting = w.wifiConnecting := by
  unfold endCantConnectMode
  split <;> rfl

@[simp] theorem endCantConnectMode_reconnects : w.endCantConnectMode.reconnects = w.reconnects := by
  unfold endCantConnectMode
  split <;> rfl

@[simp] theorem endCantConnectMode_wifiStartConnectTime :
    w.endCantConnectMode.wifiStartConnectTime = w.wifiStartConnectTime := by
  unfold endCantConnectMode
  split <;> rfl

variable (air : Air)

@[simp] theorem timerTest_reconnects : (w.timerTest air).2.reconnects = w.reconnects := by
  unfold timerTest
  split <;> rfl

@[simp] theorem timerTest_wifiStartConnectTime :
    (w.timerTest air).2.wifiStartConnectTime = w.wifiStartConnectTime := by
  unfold timerTest
  split <;> rfl

theorem timerTest_cantConnectMode (h : w.cantConnectMode = false) :
    (w.timerTest air).2.cantConnectMode = late w.wifiStartConnectTime (w.millis air) := by
  unfold timerTest
  split
  · rename_i hlate
    exact hlate.symm
  · rename_i hlate
    rw [Bool.not_eq_true] at hlate
    rw [hlate]
    exact h

@[simp] theorem connected_wifiConnecting : w.connected.wifiConnecting = false := by simp [connected]
@[simp] theorem connected_cantConnectMode : w.connected.cantConnectMode = false := by simp [connected]
@[simp] theorem connected_reconnects : w.connected.reconnects = w.reconnects := by simp [connected]
@[simp] theorem connected_wifiStartConnectTime :
    w.connected.wifiStartConnectTime = w.wifiStartConnectTime := by simp [connected]

variable (displayReconnect : Bool)

@[simp] theorem beginReconnect_cantConnectMode :
    (w.beginReconnect air displayReconnect).cantConnectMode = false := by simp [beginReconnect]

@[simp] theorem beginReconnect_reconnects :
    (w.beginReconnect air displayReconnect).reconnects = w.millis air :: w.reconnects := by
  simp [beginReconnect]

@[simp] theorem beginReconnect_wifiStartConnectTime :
    (w.beginReconnect air displayReconnect).wifiStartConnectTime = toShort (w.millis air) := by
  simp [beginReconnect]

end Fields

/-! ### The recursion -/

/-- `DisplayConnectToWifiStatus` while the manager is connecting: it reads the status twice, and does not
reconnect. -/
def pollConnecting (air : Air) (w : WifiManager) : Bool × WifiManager :=
  if w.asked.status air ≠ WL_CONNECTED then w.asked.asked.timerTest air
  else (false, w.asked.asked.connected)

variable {air : Air} {w w' : WifiManager} {shown : Bool}

theorem displayConnectToWifiStatus_connecting (hconn : w.wifiConnecting = true)
    (hcant : w.cantConnectMode = false) (depth : ℕ) :
    displayConnectToWifiStatus air (depth + 1) w = some (w.pollConnecting air) := by
  rw [displayConnectToWifiStatus, pollConnecting, if_neg (by simp [hconn, hcant])]
  split
  · rw [if_neg (by simp [hconn])]
    rfl
  · rfl

/-- The flag set just before the inner call ends the recursion. -/
theorem reconnect_eq (displayReconnect : Bool) (w : WifiManager) (depth : ℕ) :
    reconnect air (depth + 2) displayReconnect w
      = some ((w.beginReconnect air displayReconnect).pollConnecting air).2 := by
  rw [reconnect, displayConnectToWifiStatus_connecting rfl (beginReconnect_cantConnectMode _ _ _)]
  rfl

/-- **Everything a call of `DisplayConnectToWifiStatus` can do.** -/
inductive DisplaySpec (air : Air) (w : WifiManager) : Bool × WifiManager → Prop
  | ignored : w.status air = WL_CONNECTED ∧ w.wifiConnecting = false ∨ w.cantConnectMode = true →
      DisplaySpec air w (false, w.asked)
  | connected : w.cantConnectMode = false → w.asked.status air = WL_CONNECTED →
      DisplaySpec air w (false, w.asked.asked.connected)
  | waited : w.cantConnectMode = false → w.wifiConnecting = true → w.asked.status air ≠ WL_CONNECTED →
      DisplaySpec air w (w.asked.asked.timerTest air)
  | reconnected : w.cantConnectMode = false → w.wifiConnecting = false → w.status air ≠ WL_CONNECTED →
      w.asked.status air ≠ WL_CONNECTED →
      DisplaySpec air w
        ((((w.asked.asked.beginReconnect air w.showReconnectStatus).pollConnecting air).2).timerTest air)

/-- The recursion ends at depth three, and a deeper stack changes nothing. -/
theorem displayConnectToWifiStatus_spec (air : Air) (w : WifiManager) :
    ∃ r, (∀ depth, displayConnectToWifiStatus air (depth + 3) w = some r) ∧ DisplaySpec air w r := by
  by_cases hignore : w.status air = WL_CONNECTED ∧ ¬w.wifiConnecting = true ∨ w.cantConnectMode = true
  · refine ⟨_, fun depth => ?_, .ignored (by simpa using hignore)⟩
    rw [displayConnectToWifiStatus, if_pos hignore]
  · obtain ⟨hstatus, hcant⟩ := not_or.mp hignore
    rw [Bool.not_eq_true] at hcant
    by_cases hdown : w.asked.status air ≠ WL_CONNECTED
    · cases hconn : w.wifiConnecting with
      | true =>
          refine ⟨_, fun depth => ?_, .waited hcant hconn hdown⟩
          rw [displayConnectToWifiStatus, if_neg hignore, if_pos hdown, if_neg (by simp [hconn])]
          rfl
      | false =>
          have hfirst : w.status air ≠ WL_CONNECTED := fun h => hstatus ⟨h, by simp [hconn]⟩
          refine ⟨_, fun depth => ?_, .reconnected hcant hconn hfirst hdown⟩
          rw [displayConnectToWifiStatus, if_neg hignore, if_pos hdown,
            if_pos (by simp [hconn, hcant]), reconnect_eq]
          rfl
    · refine ⟨_, fun depth => ?_, .connected hcant (not_not.mp hdown)⟩
      rw [displayConnectToWifiStatus, if_neg hignore, if_neg hdown]

/-! ### The modes -/

/-- The manager is not connecting and unable to connect at once. -/
def Exclusive (w : WifiManager) : Prop := ¬(w.wifiConnecting = true ∧ w.cantConnectMode = true)

theorem timerTest_exclusive (h : Exclusive w) : Exclusive (w.timerTest air).2 := by
  unfold timerTest
  split
  · simp [Exclusive, enterCantConnectMode]
  · exact h

theorem pollConnecting_exclusive (h : Exclusive w) : Exclusive (w.pollConnecting air).2 := by
  unfold pollConnecting
  split
  · exact timerTest_exclusive h
  · simp [Exclusive]

theorem pollConnecting_reconnects : (w.pollConnecting air).2.reconnects = w.reconnects := by
  unfold pollConnecting
  split <;> simp

theorem pollConnecting_wifiStartConnectTime :
    (w.pollConnecting air).2.wifiStartConnectTime = w.wifiStartConnectTime := by
  unfold pollConnecting
  split <;> simp

theorem beginReconnect_exclusive (displayReconnect : Bool) :
    Exclusive (w.beginReconnect air displayReconnect) := by
  simp [Exclusive]

theorem DisplaySpec.exclusive {r : Bool × WifiManager} (h : DisplaySpec air w r) (hw : Exclusive w) :
    Exclusive r.2 := by
  cases h with
  | ignored => exact hw
  | connected => simp [Exclusive]
  | waited => exact timerTest_exclusive hw
  | reconnected =>
      exact timerTest_exclusive (pollConnecting_exclusive (beginReconnect_exclusive _))

/-- A call reconnects at most once. -/
theorem DisplaySpec.reconnects_le {r : Bool × WifiManager} (h : DisplaySpec air w r) :
    r.2.reconnects.length ≤ w.reconnects.length + 1 := by
  cases h with
  | ignored => exact Nat.le_succ _
  | connected => simp
  | waited => simp
  | reconnected => simp [pollConnecting_reconnects]

/-- A wait only ends cant-connect mode. -/
theorem waitLoop_fields {start : UInt32} {rounds : ℕ} {status : UInt8}
    (h : waitLoop air start rounds w = some (status, w')) :
    w'.wifiConnecting = w.wifiConnecting ∧ w'.reconnects = w.reconnects ∧
      w'.wifiStartConnectTime = w.wifiStartConnectTime ∧
      (w'.cantConnectMode = true → w.cantConnectMode = true) := by
  induction rounds generalizing w with
  | zero => cases h
  | succ rounds ih =>
      rw [waitLoop] at h
      split at h
      · cases h
        split <;> simp
      · split at h
        · cases h
          simp
        · simpa using ih h

theorem step_exclusive {call : Call} (hw : Exclusive w) (h : step air w call = some w') :
    Exclusive w' := by
  cases call with
  | attemptConnect tmpNetworkName tmpPassword rounds =>
      obtain ⟨r, -, hr⟩ := Option.bind_eq_some_iff.mp h
      have hconn : w'.wifiConnecting = false := by
        simp only at hr
        split at hr <;> cases hr <;> simp
      simp [Exclusive, hconn]
  | reconnect displayReconnect =>
      have heq := (reconnect_eq displayReconnect w 1).symm.trans h
      cases heq
      exact pollConnecting_exclusive (beginReconnect_exclusive _)
  | displayConnectToWifiStatus =>
      obtain ⟨r, hr, hspec⟩ := displayConnectToWifiStatus_spec air w
      obtain ⟨r', hr', rfl⟩ := Option.map_eq_some_iff.mp h
      have heq := (hr 0).symm.trans hr'
      cases heq
      exact hspec.exclusive hw
  | waitForConnectResult rounds =>
      obtain ⟨r, hr, rfl⟩ := Option.map_eq_some_iff.mp h
      obtain ⟨hconn, -, -, hcant⟩ := waitLoop_fields hr
      intro hboth
      exact hw ⟨hconn ▸ hboth.1, hcant hboth.2⟩

theorem runCalls_exclusive {calls : List Call} (h : runCalls air calls = some w) : Exclusive w :=
  runCalls_invariant (by simp [Exclusive, start]) (fun _ _ _ hw hstep => step_exclusive hw hstep) h

/-- **The two modes exclude each other, and the recursion is bounded.**  After any calls from program
start, with any answers of `WiFi.status()` and `millis()`, the manager is not connecting and unable to
connect at once.  In every state a call of `DisplayConnectToWifiStatus` returns from a stack of three
calls or more and has called `Reconnect` at most once, and a call of `Reconnect` returns too. -/
theorem runCalls_modes {calls : List Call} (h : runCalls air calls = some w) :
    Exclusive w ∧
      (∀ v : WifiManager, ∃ r, (∀ depth, displayConnectToWifiStatus air (depth + 3) v = some r) ∧
        r.2.reconnects.length ≤ v.reconnects.length + 1) ∧
      ∀ (v : WifiManager) (displayReconnect : Bool), ∃ v', ∀ depth,
        reconnect air (depth + 2) displayReconnect v = some v' := by
  refine ⟨runCalls_exclusive h, fun v => ?_, fun v displayReconnect => ⟨_, reconnect_eq _ v⟩⟩
  obtain ⟨r, hr, hspec⟩ := displayConnectToWifiStatus_spec air v
  exact ⟨r, hr, hspec.reconnects_le⟩

/-- Wi-Fi is down for four questions and up then; the clock stands at zero for two readings. -/
def droppedAir : Air where
  status k := if k < 4 then 6 else WL_CONNECTED
  millis k := if k < 2 then 0 else 20000

/-- A reconnection that is given up. -/
def givenUp : List Call := [.reconnect true, .displayConnectToWifiStatus]

theorem runCalls_modes_givenUp :
    ∃ w, runCalls droppedAir givenUp = some w ∧ Exclusive w ∧
      (∀ v : WifiManager, ∃ r, (∀ depth, displayConnectToWifiStatus droppedAir (depth + 3) v = some r) ∧
        r.2.reconnects.length ≤ v.reconnects.length + 1) ∧
      ∀ (v : WifiManager) (displayReconnect : Bool), ∃ v', ∀ depth,
        reconnect droppedAir (depth + 2) displayReconnect v = some v' :=
  have hrun : runCalls droppedAir givenUp = some _ := rfl
  ⟨_, hrun, runCalls_modes hrun⟩

/-! ### The network comes back -/

theorem timerTest_statusCalls (w : WifiManager) : (w.timerTest air).2.statusCalls = w.statusCalls := by
  unfold timerTest
  split <;> rfl

theorem endCantConnectMode_statusCalls (w : WifiManager) :
    w.endCantConnectMode.statusCalls = w.statusCalls := by
  unfold endCantConnectMode
  split <;> rfl

/-- A poll of a manager that is connecting asks for the status twice. -/
theorem pollConnecting_statusCalls (w : WifiManager) :
    (w.pollConnecting air).2.statusCalls = w.statusCalls + 2 := by
  unfold pollConnecting
  split
  · rw [timerTest_statusCalls]
    rfl
  · exact endCantConnectMode_statusCalls _

theorem beginReconnect_statusCalls (displayReconnect : Bool) (w : WifiManager) :
    (w.beginReconnect air displayReconnect).statusCalls = w.statusCalls :=
  endCantConnectMode_statusCalls _

/-- `WiFi.status()` is `WL_CONNECTED` throughout a call that leads from `w` to `w'`. -/
def UpThroughout (air : Air) (w w' : WifiManager) : Prop :=
  ∀ k, w.statusCalls ≤ k → k < w'.statusCalls → air.status k = WL_CONNECTED

/-- **Cant-connect mode does not end when the network comes back.**  After a call of
`DisplayConnectToWifiStatus` throughout which Wi-Fi is connected, both modes are off if and only if the
manager was not in cant-connect mode before. -/
theorem cantConnect_ends_iff {r : Bool × WifiManager}
    (h : displayConnectToWifiStatus air callDepth w = some r) (hup : UpThroughout air w r.2) :
    r.2.wifiConnecting = false ∧ r.2.cantConnectMode = false ↔ w.cantConnectMode = false := by
  obtain ⟨r', hr', hspec⟩ := displayConnectToWifiStatus_spec air w
  obtain rfl : r' = r := Option.some.inj ((hr' 0).symm.trans h)
  cases hspec with
  | ignored hcase =>
      simp only [asked_wifiConnecting, asked_cantConnectMode]
      rcases hcase with ⟨-, hconn⟩ | hcant
      · simp [hconn]
      · simp [hcant]
  | connected hcant => simp [hcant]
  | waited hcant hconn hdown =>
      refine absurd (hup (w.statusCalls + 1) (Nat.le_succ _) ?_) hdown
      rw [timerTest_statusCalls]
      exact Nat.lt_succ_self _
  | reconnected hcant hconn hdown =>
      refine absurd (hup w.statusCalls le_rfl ?_) hdown
      rw [timerTest_statusCalls, pollConnecting_statusCalls, beginReconnect_statusCalls]
      show w.statusCalls < w.statusCalls + 1 + 1 + 2
      omega

/-- Wi-Fi is up after two questions. -/
def returningAir : Air where
  status k := if k < 2 then 6 else WL_CONNECTED
  millis _ := 0

/-- A manager that is connecting stops when Wi-Fi is there. -/
theorem cantConnect_ends_returning :
    ∃ w r, runCalls returningAir [.reconnect true] = some w ∧ w.wifiConnecting = true ∧
      displayConnectToWifiStatus returningAir callDepth w = some r ∧ UpThroughout returningAir w r.2 ∧
      (r.2.wifiConnecting = false ∧ r.2.cantConnectMode = false ↔ w.cantConnectMode = false) := by
  have hup : ∀ v : WifiManager, 2 ≤ v.statusCalls → ∀ v', UpThroughout returningAir v v' :=
    fun v hv v' k hk _ => if_neg (not_lt.mpr (hv.trans hk))
  exact ⟨_, _, rfl, rfl, rfl, hup _ le_rfl _, cantConnect_ends_iff rfl (hup _ le_rfl _)⟩

/-- A manager that gave up and then finds Wi-Fi connected stays in cant-connect mode. -/
theorem cantConnect_stays :
    ∃ w r, runCalls droppedAir givenUp = some w ∧
      displayConnectToWifiStatus droppedAir callDepth w = some r ∧ UpThroughout droppedAir w r.2 ∧
      ¬(r.2.wifiConnecting = false ∧ r.2.cantConnectMode = false) := by
  refine ⟨_, _, rfl, rfl, ?_, ?_⟩
  · intro k hk _
    exact if_neg (not_lt.mpr hk)
  · intro hoff
    exact absurd hoff.2 (by decide)

end WifiManager

end EspFirmware
