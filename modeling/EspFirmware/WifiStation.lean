import Mathlib.Data.Finset.Basic
import EspFirmware.WifiManager

/-!
# The Wi-Fi station behind the manager

What `WiFi.status()` answers is kept by `WiFiGeneric.cpp` and `WiFiSTA.cpp`: the network task hands the
driver's events to `_eventCallback`, which sets the status and the bits of the event group, and reconnects
by itself after some disconnections.  Not every disconnection changes the status: one for the reason
`AUTH_EXPIRE` only clears the bits.

* `Station`, `Driver` — what the library knows, and what the driver answers to its calls;
* `eventCallback`, `begin`, `beginWith`, `disconnect`, `enableSTA`, `mode` — the functions;
* `run_status_iff` — the status is "connected" if an address was the last thing to set it;
* `run_unfounded_iff` — exactly when the station claims a connection it does not have;
* `Board`, `runBoard_stuck` — it does not get over that, whatever the manager does.
-/

namespace EspFirmware.Sta

open CString

/-! ### The source -/

/-- `wl_status_t`. -/
inductive Status where
  | noShield
  | idleStatus
  | noSsidAvail
  | scanCompleted
  | connected
  | connectFailed
  | connectionLost
  | disconnected
  deriving DecidableEq

def Status.code : Status → UInt8
  | .noShield => 255
  | .idleStatus => 0
  | .noSsidAvail => 1
  | .scanCompleted => 2
  | .connected => 3
  | .connectFailed => 4
  | .connectionLost => 5
  | .disconnected => 6

/-- The bits of `_network_event_group`. -/
inductive StatusBit where
  | apStarted
  | apHasIp6
  | apHasClient
  | staStarted
  | staConnected
  | staHasIp
  | staHasIp6
  | ethStarted
  | ethConnected
  | ethHasIp
  | ethHasIp6
  | wifiScanning
  | wifiScanDone
  | wifiDnsIdle
  | wifiDnsDone
  deriving DecidableEq

/-- The reasons of a disconnection that `_eventCallback` tells apart. -/
def WIFI_REASON_AUTH_EXPIRE : UInt8 := 2

def WIFI_REASON_BEACON_TIMEOUT : UInt8 := 200

def WIFI_REASON_NO_AP_FOUND : UInt8 := 201

def WIFI_REASON_AUTH_FAIL : UInt8 := 202

def WIFI_REASON_ASSOC_FAIL : UInt8 := 203

def WIFI_REASON_HANDSHAKE_TIMEOUT : UInt8 := 204

/-- `tcpip_adapter_if_t`. -/
inductive Interface where
  | sta
  | ap
  | eth
  | other
  deriving DecidableEq

/-- `system_event_t`, with what the callback reads of it; `apStaDisconnected` carries whether clients are
left, and `other` is an event it does not know. -/
inductive Event where
  | wifiReady
  | scanDone
  | staStart
  | staStop
  | staConnected
  | staDisconnected (reason : UInt8)
  | staGotIp
  | staLostIp
  | apStart
  | apStop
  | apStaConnected
  | apStaDisconnected (clientsLeft : Bool)
  | ethStart
  | ethStop
  | ethConnected
  | ethDisconnected
  | ethGotIp
  | gotIp6 (interface : Interface)
  | other
  deriving DecidableEq

/-- `wifi_mode_t`: the station bit and the access-point bit. -/
structure Mode where
  sta : Bool
  ap : Bool
  deriving DecidableEq

def Mode.null : Mode := ⟨false, false⟩

/-- `wifi_config_t`, as far as `begin` fills it. -/
structure Config where
  ssid : List UInt8
  password : List UInt8
  bssid : Option (List UInt8)
  channel : ℤ
  deriving DecidableEq

/-- A call of the driver that changes something. -/
inductive Command where
  | start
  | stop
  | setMode (m : Mode)
  | setConfig (conf : Config)
  | disconnect
  | connect
  deriving DecidableEq

/-- What the driver answers during one call of the library: whether each of its functions succeeds.
`staleConfig` is what the stack holds where `begin(ssid, passphrase)` reads the configuration to. -/
structure Driver where
  initialised : Bool
  initOk : Bool
  startOk : Bool
  stopOk : Bool
  setModeOk : Bool
  getConfigOk : Bool
  staleConfig : Config
  setConfigOk : Bool
  dhcpOk : Bool
  disconnectOk : Bool
  connectOk : Bool

/-- `current_conf` after an `esp_wifi_get_config` whose result is not looked at. -/
def Driver.currentConf (drv : Driver) (config : Config) : Config :=
  if drv.getConfigOk then config else drv.staleConfig

/-- The statics of `WiFiGeneric.cpp` and `WiFiSTA.cpp`, and the driver's mode and configuration. -/
structure Station where
  status : Status
  bits : Finset StatusBit
  lowLevelInitDone : Bool
  wifiStarted : Bool
  driverMode : Mode
  config : Config
  autoReconnect : Bool
  useStaticIp : Bool
  commands : List Command

namespace Station

/-- After a reset: the driver has the configuration that was saved. -/
def boot (config : Config) : Station where
  status := .noShield
  bits := {.wifiDnsIdle}
  lowLevelInitDone := false
  wifiStarted := false
  driverMode := .null
  config := config
  autoReconnect := true
  useStaticIp := false
  commands := []

def issue (s : Station) (c : Command) : Station := { s with commands := s.commands ++ [c] }

def setStatus (s : Station) (status : Status) : Station := { s with status := status }

def setStatusBits (s : Station) (bits : Finset StatusBit) : Station := { s with bits := s.bits ∪ bits }

def clearStatusBits (s : Station) (bits : Finset StatusBit) : Station := { s with bits := s.bits \ bits }

def getMode (drv : Driver) (s : Station) : Mode :=
  if ¬s.wifiStarted ∨ ¬drv.initialised then .null else s.driverMode

/-- `espWiFiStart`, with `wifiLowLevelInit`. -/
def espWiFiStart (drv : Driver) (s : Station) : Bool × Station :=
  if s.wifiStarted then (true, s)
  else if ¬s.lowLevelInitDone ∧ ¬drv.initOk then (false, s)
  else if ¬drv.startOk then (false, { s with lowLevelInitDone := true })
  else (true, { s.issue .start with lowLevelInitDone := true, wifiStarted := true })

def espWiFiStop (drv : Driver) (s : Station) : Bool × Station :=
  if ¬s.wifiStarted then (true, s)
  else if drv.stopOk then (true, { s.issue .stop with wifiStarted := false })
  else (false, s)

/-- `esp_wifi_set_mode`. -/
def espWifiSetMode (drv : Driver) (m : Mode) (s : Station) : Bool × Station :=
  if drv.setModeOk then (true, { s.issue (.setMode m) with driverMode := m }) else (false, s)

def mode (drv : Driver) (m : Mode) (s : Station) : Bool × Station :=
  if s.getMode drv = m then (true, s)
  else if s.getMode drv = .null then
    match s.espWiFiStart drv with
    | (true, s') => s'.espWifiSetMode drv m
    | r => r
  else if m = .null then s.espWiFiStop drv
  else s.espWifiSetMode drv m

def enableSTA (drv : Driver) (enable : Bool) (s : Station) : Bool × Station :=
  if (s.getMode drv).sta ≠ enable then s.mode drv { s.getMode drv with sta := enable } else (true, s)

/-- `esp_wifi_set_config`; what it returns is not always looked at. -/
def espWifiSetConfig (drv : Driver) (conf : Config) (s : Station) : Station :=
  if drv.setConfigOk then { s.issue (.setConfig conf) with config := conf } else s

/-- `esp_wifi_connect`, at the end of `begin`. -/
def espWifiConnect (drv : Driver) (s : Station) : Status × Station :=
  if drv.connectOk then (s.status, s.issue .connect) else (.connectFailed, s.issue .connect)

/-- `WiFiSTAClass::begin()`. -/
def begin (drv : Driver) (s : Station) : Status × Station :=
  match s.enableSTA drv true with
  | (false, s') => (.connectFailed, s')
  | (true, s') =>
      if ¬drv.getConfigOk ∨ ¬drv.setConfigOk then (.connectFailed, s')
      else if ¬s'.useStaticIp ∧ ¬drv.dhcpOk then (.connectFailed, s'.espWifiSetConfig drv s'.config)
      else if s'.status ≠ .connected then (s'.espWifiSetConfig drv s'.config).espWifiConnect drv
      else (s'.status, s'.espWifiSetConfig drv s'.config)

/-- The arguments `begin(ssid, passphrase)` accepts. -/
def Accepted (ssid passphrase : Option (List UInt8)) : Prop :=
  (∃ name, ssid = some name ∧ cstr name ≠ [] ∧ strlen name ≤ 31) ∧
    ∀ text, passphrase = some text → strlen text ≤ 64

instance (ssid passphrase : Option (List UInt8)) : Decidable (Accepted ssid passphrase) :=
  inferInstanceAs (Decidable (_ ∧ _))

/-- The configuration it builds; a 64-character passphrase is the key itself. -/
def built (ssid passphrase : Option (List UInt8)) (channel : ℤ) (bssid : Option (List UInt8)) : Config where
  ssid := cstr (ssid.getD [])
  password := cstr (passphrase.getD [])
  bssid := bssid
  channel := if 0 < channel ∧ channel ≤ 13 then channel else 0

/-- The end of `begin(ssid, passphrase)`: the address, and the connection. -/
def beginConnect (drv : Driver) (connect : Bool) (s : Station) : Status × Station :=
  if ¬s.useStaticIp ∧ ¬drv.dhcpOk then (.connectFailed, s)
  else if connect then s.espWifiConnect drv
  else (s.status, s)

/-- `WiFiSTAClass::begin(ssid, passphrase, channel, bssid, connect)`. -/
def beginWith (drv : Driver) (ssid passphrase : Option (List UInt8)) (channel : ℤ)
    (bssid : Option (List UInt8)) (connect : Bool) (s : Station) : Status × Station :=
  match s.enableSTA drv true with
  | (false, s') => (.connectFailed, s')
  | (true, s') =>
      if ¬Accepted ssid passphrase then (.connectFailed, s')
      else if drv.currentConf s'.config ≠ built ssid passphrase channel bssid then
        if ¬drv.disconnectOk then (.connectFailed, s')
        else
          ((s'.issue .disconnect).espWifiSetConfig drv
            (built ssid passphrase channel bssid)).beginConnect drv connect
      else if s'.status = .connected then (.connected, s')
      else
        (s'.espWifiSetConfig drv (built ssid passphrase channel bssid)).beginConnect drv connect

/-- `WiFiSTAClass::reconnect`. -/
def reconnect (drv : Driver) (s : Station) : Bool × Station :=
  if (s.getMode drv).sta ∧ drv.disconnectOk then
    (drv.connectOk, (s.issue .disconnect).issue .connect)
  else (false, s)

/-- `WiFiSTAClass::disconnect`. -/
def disconnect (drv : Driver) (wifioff eraseap : Bool) (s : Station) : Bool × Station :=
  if (s.getMode drv).sta then
    let s' := if eraseap then s.espWifiSetConfig drv ⟨[], [], none, 0⟩ else s
    if ¬drv.disconnectOk then (false, s')
    else if wifioff then (s'.issue .disconnect).enableSTA drv false
    else (true, s'.issue .disconnect)
  else (false, s)

/-- The status a disconnection is given. -/
def statusOfReason (s : Station) (reason : UInt8) : Station :=
  if reason = WIFI_REASON_NO_AP_FOUND then s.setStatus .noSsidAvail
  else if reason = WIFI_REASON_AUTH_FAIL ∨ reason = WIFI_REASON_ASSOC_FAIL then
    s.setStatus .connectFailed
  else if reason = WIFI_REASON_BEACON_TIMEOUT ∨ reason = WIFI_REASON_HANDSHAKE_TIMEOUT then
    s.setStatus .connectionLost
  else if reason = WIFI_REASON_AUTH_EXPIRE then s
  else s.setStatus .disconnected

/-- The disconnections after which the library reconnects by itself. -/
def Reconnects (reason : UInt8) : Prop :=
  reason = WIFI_REASON_AUTH_EXPIRE ∨
    WIFI_REASON_BEACON_TIMEOUT ≤ reason ∧ reason ≠ WIFI_REASON_AUTH_FAIL

instance (reason : UInt8) : Decidable (Reconnects reason) := inferInstanceAs (Decidable (_ ∨ _))

/-- `WiFiGenericClass::_eventCallback`, without callbacks of the user. -/
def eventCallback (drv : Driver) (s : Station) : Event → Station
  | .wifiReady => s
  | .scanDone => (s.setStatusBits {.wifiScanDone}).clearStatusBits {.wifiScanning}
  | .staStart => (s.setStatus .disconnected).setStatusBits {.staStarted}
  | .staStop =>
      (s.setStatus .noShield).clearStatusBits {.staStarted, .staConnected, .staHasIp, .staHasIp6}
  | .staConnected => (s.setStatus .idleStatus).setStatusBits {.staConnected}
  | .staDisconnected reason =>
      let s' := (s.statusOfReason reason).clearStatusBits {.staConnected, .staHasIp, .staHasIp6}
      if Reconnects reason ∧ s'.autoReconnect then ((s'.disconnect drv false false).2.begin drv).2 else s'
  | .staGotIp => (s.setStatus .connected).setStatusBits {.staHasIp, .staConnected}
  | .staLostIp => (s.setStatus .idleStatus).clearStatusBits {.staHasIp}
  | .apStart => s.setStatusBits {.apStarted}
  | .apStop => s.clearStatusBits {.apStarted, .apHasClient}
  | .apStaConnected => s.setStatusBits {.apHasClient}
  | .apStaDisconnected clientsLeft => if clientsLeft then s else s.clearStatusBits {.apHasClient}
  | .ethStart => s.setStatusBits {.ethStarted}
  | .ethStop => s.clearStatusBits {.ethStarted, .ethConnected, .ethHasIp, .ethHasIp6}
  | .ethConnected => s.setStatusBits {.ethConnected}
  | .ethDisconnected => s.clearStatusBits {.ethConnected, .ethHasIp, .ethHasIp6}
  | .ethGotIp => s.setStatusBits {.ethConnected, .ethHasIp}
  | .gotIp6 .ap => s.setStatusBits {.apHasIp6}
  | .gotIp6 .sta => s.setStatusBits {.staConnected, .staHasIp6}
  | .gotIp6 .eth => s.setStatusBits {.ethConnected, .ethHasIp6}
  | .gotIp6 .other => s
  | .other => s

end Station

/-! ### Runs -/

/-- An event of the driver, or a call of the library. -/
inductive Input where
  | event (e : Event)
  | begin
  | beginWith (ssid passphrase : Option (List UInt8)) (channel : ℤ) (bssid : Option (List UInt8))
      (connect : Bool)
  | reconnect
  | disconnect (wifioff eraseap : Bool)
  | setAutoReconnect (autoReconnect : Bool)

def Station.step (s : Station) (i : Input × Driver) : Station :=
  match i.1 with
  | .event e => s.eventCallback i.2 e
  | .begin => (s.begin i.2).2
  | .beginWith ssid passphrase channel bssid connect =>
      (s.beginWith i.2 ssid passphrase channel bssid connect).2
  | .reconnect => (s.reconnect i.2).2
  | .disconnect wifioff eraseap => (s.disconnect i.2 wifioff eraseap).2
  | .setAutoReconnect autoReconnect => { s with autoReconnect := autoReconnect }

def Station.run (s : Station) (inputs : List (Input × Driver)) : Station := inputs.foldl Station.step s

/-! ### What the calls leave alone -/

namespace Station

/-- The status and the bits have not changed. -/
structure SameView (s s' : Station) : Prop where
  status : s'.status = s.status
  bits : s'.bits = s.bits

/-- Nor has the configuration, and the driver was not asked to connect. -/
structure Quiet (s s' : Station) : Prop extends SameView s s' where
  config : s'.config = s.config
  connects : s'.commands.count .connect = s.commands.count .connect

variable {drv : Driver} {s s' s'' : Station}

theorem SameView.refl (s : Station) : SameView s s := ⟨rfl, rfl⟩

theorem SameView.trans (h : SameView s s') (h' : SameView s' s'') : SameView s s'' :=
  ⟨h'.status.trans h.status, h'.bits.trans h.bits⟩

theorem Quiet.refl (s : Station) : Quiet s s := ⟨.refl s, rfl, rfl⟩

theorem Quiet.trans (h : Quiet s s') (h' : Quiet s' s'') : Quiet s s'' :=
  ⟨h.toSameView.trans h'.toSameView, h'.config.trans h.config, h'.connects.trans h.connects⟩

theorem sameView_issue (s : Station) (c : Command) : SameView s (s.issue c) := ⟨rfl, rfl⟩

theorem quiet_issue (s : Station) {c : Command} (hc : c ≠ .connect) : Quiet s (s.issue c) :=
  ⟨⟨rfl, rfl⟩, rfl, by simp [issue, hc]⟩

theorem quiet_espWiFiStart (drv : Driver) (s : Station) : Quiet s (s.espWiFiStart drv).2 := by
  unfold espWiFiStart
  split_ifs
  · exact .refl s
  · exact .refl s
  · have hissue := quiet_issue s (c := .start) (by decide)
    exact ⟨⟨rfl, rfl⟩, rfl, hissue.connects⟩
  · exact ⟨⟨rfl, rfl⟩, rfl, rfl⟩

theorem quiet_espWiFiStop (drv : Driver) (s : Station) : Quiet s (s.espWiFiStop drv).2 := by
  unfold espWiFiStop
  split_ifs
  · have hissue := quiet_issue s (c := .stop) (by decide)
    exact ⟨⟨rfl, rfl⟩, rfl, hissue.connects⟩
  · exact .refl s
  · exact .refl s

theorem quiet_espWifiSetMode (drv : Driver) (m : Mode) (s : Station) :
    Quiet s (s.espWifiSetMode drv m).2 := by
  unfold espWifiSetMode
  split_ifs
  · have hissue := quiet_issue s (c := .setMode m) (by simp)
    exact ⟨⟨rfl, rfl⟩, rfl, hissue.connects⟩
  · exact .refl s

theorem quiet_mode (drv : Driver) (m : Mode) (s : Station) : Quiet s (s.mode drv m).2 := by
  unfold mode
  split_ifs
  · exact .refl s
  · have hstart := quiet_espWiFiStart drv s
    split
    · rename_i s' heq
      rw [heq] at hstart
      exact hstart.trans (quiet_espWifiSetMode drv m s')
    · exact hstart
  · exact quiet_espWiFiStop drv s
  · exact quiet_espWifiSetMode drv m s

theorem quiet_enableSTA (drv : Driver) (enable : Bool) (s : Station) :
    Quiet s (s.enableSTA drv enable).2 := by
  unfold enableSTA
  split_ifs
  · exact quiet_mode drv _ s
  · exact .refl s

theorem sameView_espWifiSetConfig (drv : Driver) (conf : Config) (s : Station) :
    SameView s (s.espWifiSetConfig drv conf) := by
  unfold espWifiSetConfig
  split_ifs <;> exact ⟨rfl, rfl⟩

/-- The configuration that is there may be set again. -/
theorem quiet_espWifiSetConfig (drv : Driver) {conf : Config} (h : s.config = conf) :
    Quiet s (s.espWifiSetConfig drv conf) := by
  unfold espWifiSetConfig
  split_ifs
  · have hissue := quiet_issue s (c := .setConfig conf) (by simp)
    exact ⟨⟨rfl, rfl⟩, h.symm, hissue.connects⟩
  · exact .refl s

theorem sameView_espWifiConnect (drv : Driver) (s : Station) : SameView s (s.espWifiConnect drv).2 := by
  unfold espWifiConnect
  split_ifs <;> exact sameView_issue s .connect

theorem sameView_begin (drv : Driver) (s : Station) : SameView s (s.begin drv).2 := by
  have hsta := (quiet_enableSTA drv true s).toSameView
  unfold begin
  rcases hr : s.enableSTA drv true with ⟨_ | _, s'⟩ <;> rw [hr] at hsta
  · exact hsta
  · have hset := sameView_espWifiSetConfig drv s'.config s'
    simp only
    split_ifs
    · exact hsta
    · exact hsta.trans hset
    · exact (hsta.trans hset).trans (sameView_espWifiConnect drv _)
    · exact hsta.trans hset

/-- `begin` does not connect a station that is taken for connected. -/
theorem quiet_begin (drv : Driver) (h : s.status = .connected) : Quiet s (s.begin drv).2 := by
  have hsta := quiet_enableSTA drv true s
  unfold begin
  rcases hr : s.enableSTA drv true with ⟨_ | _, s'⟩ <;> rw [hr] at hsta
  · exact hsta
  · have hset : Quiet s' (s'.espWifiSetConfig drv s'.config) := quiet_espWifiSetConfig drv rfl
    have hs' : s'.status = .connected := hsta.status.trans h
    simp only [hs', ne_eq, not_true, if_false]
    split_ifs
    · exact hsta
    · exact hsta.trans hset
    · exact hsta.trans hset

theorem sameView_beginConnect (drv : Driver) (connect : Bool) (s : Station) :
    SameView s (s.beginConnect drv connect).2 := by
  unfold beginConnect
  split_ifs
  · exact .refl s
  · exact sameView_espWifiConnect drv s
  · exact .refl s

variable {ssid passphrase bssid : Option (List UInt8)} {channel : ℤ} {connect : Bool}

theorem sameView_beginWith (drv : Driver) (s : Station) :
    SameView s (s.beginWith drv ssid passphrase channel bssid connect).2 := by
  have hsta := (quiet_enableSTA drv true s).toSameView
  unfold beginWith
  rcases hr : s.enableSTA drv true with ⟨_ | _, s'⟩ <;> rw [hr] at hsta
  · exact hsta
  · simp only
    split_ifs
    · have hissue := sameView_issue s' .disconnect
      exact ((hsta.trans hissue).trans (sameView_espWifiSetConfig drv _ _)).trans
        (sameView_beginConnect drv connect _)
    · exact hsta
    · exact hsta
    · exact (hsta.trans (sameView_espWifiSetConfig drv _ _)).trans (sameView_beginConnect drv connect _)
    · exact hsta

/-- Nor does `begin` with the network that is configured already. -/
theorem quiet_beginWith (drv : Driver) (h : s.status = .connected)
    (hconf : Accepted ssid passphrase →
      built ssid passphrase channel bssid = drv.currentConf s.config) :
    Quiet s (s.beginWith drv ssid passphrase channel bssid connect).2 := by
  have hsta := quiet_enableSTA drv true s
  unfold beginWith
  rcases hr : s.enableSTA drv true with ⟨_ | _, s'⟩ <;> rw [hr] at hsta
  · exact hsta
  · by_cases hok : Accepted ssid passphrase
    · have hsame : drv.currentConf s'.config = built ssid passphrase channel bssid := by
        rw [hsta.config]
        exact (hconf hok).symm
      have hs' : s'.status = .connected := hsta.status.trans h
      simp only [hok, hsame, hs', not_true, if_false, ne_eq, if_true]
      exact hsta
    · simp only [hok, not_false_eq_true, if_true]
      exact hsta

theorem sameView_reconnect (drv : Driver) (s : Station) : SameView s (s.reconnect drv).2 := by
  unfold reconnect
  split_ifs <;> exact ⟨rfl, rfl⟩

theorem sameView_disconnect (drv : Driver) (wifioff eraseap : Bool) (s : Station) :
    SameView s (s.disconnect drv wifioff eraseap).2 := by
  have herase : SameView s (if eraseap then s.espWifiSetConfig drv ⟨[], [], none, 0⟩ else s) := by
    split_ifs
    · exact sameView_espWifiSetConfig drv _ s
    · exact .refl s
  unfold disconnect
  generalize (if eraseap then s.espWifiSetConfig drv ⟨[], [], none, 0⟩ else s) = s' at herase
  have hissue := herase.trans (sameView_issue s' .disconnect)
  simp only
  split_ifs
  · exact hissue.trans (quiet_enableSTA drv false _).toSameView
  · exact hissue
  · exact herase
  · exact .refl s

theorem quiet_disconnect (drv : Driver) (s : Station) : Quiet s (s.disconnect drv false false).2 := by
  unfold disconnect
  simp only [Bool.false_eq_true, if_false]
  split_ifs
  · exact quiet_issue s (by decide)
  · exact .refl s
  · exact .refl s

end Station

/-! ### What the status tells -/

/-- The event is one that gives the status a value. -/
def Event.setsStatus : Event → Bool
  | .staStart => true
  | .staStop => true
  | .staConnected => true
  | .staDisconnected reason => reason ≠ WIFI_REASON_AUTH_EXPIRE
  | .staGotIp => true
  | .staLostIp => true
  | _ => false

def Input.setsStatus : Input → Bool
  | .event e => e.setsStatus
  | _ => false

/-- No input gives the status a value. -/
def Silent (inputs : List (Input × Driver)) : Prop := ∀ i ∈ inputs, i.1.setsStatus = false

/-- A disconnection sets the status unless the authentication has expired. -/
theorem setsStatus_staDisconnected (reason : UInt8) :
    (Event.staDisconnected reason).setsStatus = decide (reason ≠ WIFI_REASON_AUTH_EXPIRE) := rfl

theorem eq_of_setsStatus_false {reason : UInt8} (h : (Event.staDisconnected reason).setsStatus = false) :
    reason = WIFI_REASON_AUTH_EXPIRE := by
  rw [setsStatus_staDisconnected] at h
  exact not_not.mp (of_decide_eq_false h)

namespace Station

variable {drv : Driver} {s : Station} {e : Event} {i : Input × Driver} {inputs : List (Input × Driver)}

/-- Reconnecting by itself does not change what a disconnection leaves. -/
theorem eventCallback_staDisconnected (drv : Driver) (s : Station) (reason : UInt8) :
    SameView ((s.statusOfReason reason).clearStatusBits {.staConnected, .staHasIp, .staHasIp6})
      (s.eventCallback drv (.staDisconnected reason)) := by
  rw [eventCallback]
  split_ifs
  · exact (quiet_disconnect drv _).toSameView.trans (sameView_begin drv _)
  · exact .refl _

theorem statusOfReason_connected {reason : UInt8} (h : reason ≠ WIFI_REASON_AUTH_EXPIRE) :
    (s.statusOfReason reason).status ≠ .connected := by
  unfold statusOfReason
  split_ifs <;> simp [setStatus]

theorem eventCallback_status (h : e.setsStatus = true) :
    (s.eventCallback drv e).status = .connected ↔ e = .staGotIp := by
  cases e with
  | staDisconnected reason =>
      rw [setsStatus_staDisconnected] at h
      have hreason : reason ≠ WIFI_REASON_AUTH_EXPIRE := of_decide_eq_true h
      rw [(eventCallback_staDisconnected drv s reason).status]
      exact iff_of_false (statusOfReason_connected hreason) nofun
  | staStart => exact iff_of_false nofun nofun
  | staStop => exact iff_of_false nofun nofun
  | staConnected => exact iff_of_false nofun nofun
  | staLostIp => exact iff_of_false nofun nofun
  | staGotIp => exact iff_of_true rfl rfl
  | _ => cases h

/-- **Everything an event that leaves the status alone can do**: the authentication expires, or some bits
other than the address change. -/
theorem eventCallback_cases (drv : Driver) (s : Station) (h : e.setsStatus = false) :
    e = .staDisconnected WIFI_REASON_AUTH_EXPIRE ∨
      e ≠ .staDisconnected WIFI_REASON_AUTH_EXPIRE ∧
        ∃ bits, s.eventCallback drv e = { s with bits := bits } ∧
          (.staHasIp ∈ bits ↔ .staHasIp ∈ s.bits) := by
  cases e with
  | staDisconnected reason =>
      obtain rfl : reason = WIFI_REASON_AUTH_EXPIRE := eq_of_setsStatus_false h
      exact .inl rfl
  | gotIp6 interface =>
      cases interface <;> exact .inr ⟨nofun, _, rfl, by simp⟩
  | apStaDisconnected clientsLeft =>
      cases clientsLeft <;> exact .inr ⟨nofun, _, rfl, by simp⟩
  | staStart => cases h
  | staStop => cases h
  | staConnected => cases h
  | staGotIp => cases h
  | staLostIp => cases h
  | wifiReady => exact .inr ⟨nofun, _, rfl, Iff.rfl⟩
  | other => exact .inr ⟨nofun, _, rfl, Iff.rfl⟩
  | _ => exact .inr ⟨nofun, _, rfl, by simp [setStatusBits]⟩

/-- An event that leaves the status alone takes the address away only with an expired authentication. -/
theorem eventCallback_silent (drv : Driver) (s : Station) (h : e.setsStatus = false) :
    (s.eventCallback drv e).status = s.status ∧
      (.staHasIp ∈ (s.eventCallback drv e).bits ↔
        .staHasIp ∈ s.bits ∧ e ≠ .staDisconnected WIFI_REASON_AUTH_EXPIRE) := by
  rcases eventCallback_cases drv s h with rfl | ⟨hne, bits, heq, hbits⟩
  · obtain ⟨hstatus, hbits⟩ := eventCallback_staDisconnected drv s WIFI_REASON_AUTH_EXPIRE
    rw [hstatus, hbits]
    exact ⟨rfl, by simp [clearStatusBits]⟩
  · rw [heq]
    exact ⟨rfl, hbits.trans (and_iff_left hne).symm⟩

/-- A call of the library changes neither the status nor the bits. -/
theorem sameView_step (h : ∀ e, i.1 ≠ .event e) : SameView s (s.step i) := by
  obtain ⟨input, drv⟩ := i
  cases input with
  | event e => exact absurd rfl (h e)
  | begin => exact sameView_begin drv s
  | beginWith ssid passphrase channel bssid connect => exact sameView_beginWith drv s
  | reconnect => exact sameView_reconnect drv s
  | disconnect wifioff eraseap => exact sameView_disconnect drv wifioff eraseap s
  | setAutoReconnect autoReconnect => exact ⟨rfl, rfl⟩

theorem step_status (h : i.1.setsStatus = true) :
    (s.step i).status = .connected ↔ i.1 = .event .staGotIp := by
  obtain ⟨input, drv⟩ := i
  cases input with
  | event e => simpa [step] using eventCallback_status h
  | _ => cases h

theorem step_silent (h : i.1.setsStatus = false) :
    (s.step i).status = s.status ∧
      (.staHasIp ∈ (s.step i).bits ↔
        .staHasIp ∈ s.bits ∧ i.1 ≠ .event (.staDisconnected WIFI_REASON_AUTH_EXPIRE)) := by
  by_cases hevent : ∃ e, i.1 = .event e
  · obtain ⟨input, drv⟩ := i
    obtain ⟨e, rfl⟩ := hevent
    simpa [step] using eventCallback_silent drv s h
  · push Not at hevent
    obtain ⟨hstatus, hbits⟩ := sameView_step (s := s) hevent
    rw [hstatus, hbits]
    exact ⟨rfl, by simp [hevent]⟩

theorem run_cons (s : Station) (i : Input × Driver) (inputs : List (Input × Driver)) :
    s.run (i :: inputs) = (s.step i).run inputs := rfl

theorem run_silent (h : Silent inputs) :
    (s.run inputs).status = s.status ∧
      (.staHasIp ∈ (s.run inputs).bits ↔ .staHasIp ∈ s.bits ∧
        ∀ i ∈ inputs, i.1 ≠ .event (.staDisconnected WIFI_REASON_AUTH_EXPIRE)) := by
  induction inputs generalizing s with
  | nil => simp [run]
  | cons i inputs ih =>
      obtain ⟨hi, hrest⟩ := List.forall_mem_cons.mp h
      obtain ⟨hstatus, hbits⟩ := step_silent (s := s) hi
      obtain ⟨ihstatus, ihbits⟩ := ih (s := s.step i) hrest
      rw [run_cons, ihstatus, ihbits, hstatus, hbits, List.forall_mem_cons, and_assoc]
      exact ⟨rfl, Iff.rfl⟩

/-- **The status is "connected"** if it was and nothing has set it since, or if an address was the last
thing to set it. -/
theorem run_status_iff (s : Station) (inputs : List (Input × Driver)) :
    (s.run inputs).status = .connected ↔
      s.status = .connected ∧ Silent inputs ∨
        ∃ before drv after, inputs = before ++ (.event .staGotIp, drv) :: after ∧ Silent after := by
  induction inputs generalizing s with
  | nil => simp [run, Silent]
  | cons i inputs ih =>
      rw [run_cons, ih]
      cases hi : i.1.setsStatus with
      | true =>
          rw [step_status hi]
          constructor
          · rintro (⟨hgot, hsilent⟩ | ⟨before, drv, after, rfl, hsilent⟩)
            · obtain ⟨input, drv⟩ := i
              obtain rfl : input = .event .staGotIp := hgot
              exact .inr ⟨[], drv, inputs, rfl, hsilent⟩
            · exact .inr ⟨i :: before, drv, after, rfl, hsilent⟩
          · rintro (⟨-, hsilent⟩ | ⟨before, drv, after, heq, hsilent⟩)
            · have hfalse := hsilent i List.mem_cons_self
              rw [hi] at hfalse
              cases hfalse
            · rcases before with _ | ⟨b, before⟩
              · obtain ⟨rfl, rfl⟩ := List.cons.inj heq
                exact .inl ⟨rfl, hsilent⟩
              · exact .inr ⟨before, drv, after, (List.cons.inj heq).2, hsilent⟩
      | false =>
          rw [(step_silent hi).1]
          constructor
          · rintro (⟨hs, hsilent⟩ | ⟨before, drv, after, rfl, hsilent⟩)
            · exact .inl ⟨hs, List.forall_mem_cons.mpr ⟨hi, hsilent⟩⟩
            · exact .inr ⟨i :: before, drv, after, rfl, hsilent⟩
          · rintro (⟨hs, hsilent⟩ | ⟨before, drv, after, heq, hsilent⟩)
            · exact .inl ⟨hs, fun j hj => hsilent j (List.mem_cons_of_mem _ hj)⟩
            · rcases before with _ | ⟨b, before⟩
              · obtain ⟨rfl, -⟩ := List.cons.inj heq
                cases hi
              · exact .inr ⟨before, drv, after, (List.cons.inj heq).2, hsilent⟩

/-- **The station claims a connection it does not have** exactly if, since it last got an address, the
connection was dropped for an expired authentication and nothing has set the status. -/
theorem run_unfounded_iff (config : Config) (inputs : List (Input × Driver)) :
    ((boot config).run inputs).status = .connected ∧ .staHasIp ∉ ((boot config).run inputs).bits ↔
      ∃ before drv between drv' after,
        inputs = before ++ (.event .staGotIp, drv) ::
          (between ++ (.event (.staDisconnected WIFI_REASON_AUTH_EXPIRE), drv') :: after) ∧
        Silent (between ++ after) := by
  constructor
  · rintro ⟨hstatus, hbits⟩
    rcases (run_status_iff _ inputs).mp hstatus with ⟨hboot, -⟩ | ⟨before, drv, rest, rfl, hsilent⟩
    · cases hboot
    · -- the address was there, and something among the rest has taken it away
      rw [run, List.foldl_append, List.foldl_cons] at hbits
      have hrest := (run_silent (s := ((boot config).run before).step (.event .staGotIp, drv)) hsilent).2
      have hgot : .staHasIp ∈ (((boot config).run before).step (.event .staGotIp, drv)).bits := by
        simp [step, eventCallback, setStatusBits]
      have hdrop : ¬∀ i ∈ rest, i.1 ≠ .event (.staDisconnected WIFI_REASON_AUTH_EXPIRE) :=
        fun hall => hbits (hrest.mpr ⟨hgot, hall⟩)
      push Not at hdrop
      obtain ⟨⟨input, drv'⟩, hmem, rfl⟩ := hdrop
      obtain ⟨between, after, rfl⟩ := List.append_of_mem hmem
      refine ⟨before, drv, between, drv', after, rfl, fun i hi => hsilent i ?_⟩
      rcases List.mem_append.mp hi with hi | hi
      · exact List.mem_append_left _ hi
      · exact List.mem_append_right _ (List.mem_cons_of_mem _ hi)
  · rintro ⟨before, drv, between, drv', after, rfl, hsilent⟩
    have hrest : Silent
        (between ++ (.event (.staDisconnected WIFI_REASON_AUTH_EXPIRE), drv') :: after) := by
      intro i hi
      rcases List.mem_append.mp hi with hi | hi
      · exact hsilent i (List.mem_append_left _ hi)
      · rcases List.mem_cons.mp hi with rfl | hi
        · rfl
        · exact hsilent i (List.mem_append_right _ hi)
    rw [run, List.foldl_append, List.foldl_cons]
    obtain ⟨hstatus, hbits⟩ :=
      run_silent (s := ((boot config).run before).step (.event .staGotIp, drv)) hrest
    refine ⟨hstatus, fun hip => ?_⟩
    exact (hbits.mp hip).2 _ (List.mem_append_right _ List.mem_cons_self) rfl

end Station

/-! ### The manager on top -/

/-- The manager with the station it asks. -/
structure Board where
  station : Station
  manager : WifiManager

/-- An event of the driver, or a call of the manager with the clock it reads. -/
inductive BoardInput where
  | event (e : Event) (drv : Driver)
  | call (c : WifiManager.Call) (millis : ℕ → UInt32) (drv : Driver)

/-- What one `Reconnect` asks of the station. -/
def Station.reconnected (drv : Driver) (s : Station) : Station := ((s.enableSTA drv true).2.begin drv).2

/-- The passphrase `AttemptConnect` passes on: an empty one is left out. -/
def passphraseOf (password : Option (List UInt8)) : Option (List UInt8) :=
  password.filter fun text => decide (strlen text ≠ 0)

/-- What a call of the manager asks of the station: the credentials of `AttemptConnect`, or one `begin` for
each of its `Reconnect`s. -/
def Station.called (drv : Driver) (reconnects : ℕ) (s : Station) : WifiManager.Call → Station
  | .attemptConnect tmpNetworkName tmpPassword _ =>
      ((s.enableSTA drv true).2.beginWith drv tmpNetworkName (passphraseOf tmpPassword) 0 none true).2
  | _ => (Station.reconnected drv)^[reconnects] s

/-- One input; no event is handled while a call of the manager runs, so that it sees one status. -/
def Board.step (b : Board) : BoardInput → Option Board
  | .event e drv => some { b with station := b.station.eventCallback drv e }
  | .call c millis drv => do
      let w ← WifiManager.step ⟨fun _ => b.station.status.code, millis⟩ b.manager c
      some ⟨b.station.called drv (w.reconnects.length - b.manager.reconnects.length) c, w⟩

def Board.run (b : Board) (inputs : List BoardInput) : Option Board := inputs.foldlM Board.step b

def BoardInput.isReconnect : BoardInput → Bool
  | .call (.reconnect _) _ _ => true
  | _ => false

/-- No event gives the status a value, and `AttemptConnect` is given no other network than it reads. -/
def BoardInput.Keeps (config : Config) : BoardInput → Prop
  | .event e _ => e.setsStatus = false
  | .call (.attemptConnect tmpNetworkName tmpPassword _) _ drv =>
      Station.Accepted tmpNetworkName (passphraseOf tmpPassword) →
        Station.built tmpNetworkName (passphraseOf tmpPassword) 0 none = drv.currentConf config
  | .call _ _ _ => True

section Manager

open WifiManager Startup

variable {air : Air} {w w' : WifiManager}

/-- While the status stands at "connected" only `Reconnect` itself reconnects. -/
theorem step_reconnects (hair : ∀ k, air.status k = WL_CONNECTED) {call : WifiManager.Call}
    (h : WifiManager.step air w call = some w') :
    (∃ displayReconnect, call = .reconnect displayReconnect ∧
        w'.reconnects.length = w.reconnects.length + 1) ∨
      (∀ displayReconnect, call ≠ .reconnect displayReconnect) ∧ w'.reconnects = w.reconnects := by
  cases call with
  | attemptConnect tmpNetworkName tmpPassword rounds =>
      obtain ⟨r, hr, hw'⟩ := Option.bind_eq_some_iff.mp h
      obtain ⟨-, hrec, -⟩ := waitLoop_fields hr
      refine .inr ⟨nofun, ?_⟩
      have hrec' : r.2.reconnects = w.reconnects := by simpa using hrec
      rw [← hrec']
      simp only at hw'
      split at hw' <;> cases hw' <;> simp
  | reconnect displayReconnect =>
      have heq := (reconnect_eq displayReconnect w 1).symm.trans h
      cases heq
      refine .inl ⟨displayReconnect, rfl, ?_⟩
      rw [pollConnecting_reconnects]
      simp
  | displayConnectToWifiStatus =>
      obtain ⟨r, hr, hspec⟩ := displayConnectToWifiStatus_spec air w
      obtain ⟨r', hr', rfl⟩ := Option.map_eq_some_iff.mp h
      have heq := (hr 0).symm.trans hr'
      cases heq
      refine .inr ⟨nofun, ?_⟩
      cases hspec with
      | ignored => rfl
      | connected => simp
      | waited _ _ hdown => exact absurd (hair _) hdown
      | reconnected _ _ hdown => exact absurd (hair _) hdown
  | waitForConnectResult rounds =>
      obtain ⟨r, hr, rfl⟩ := Option.map_eq_some_iff.mp h
      obtain ⟨-, hrec, -⟩ := waitLoop_fields hr
      exact .inr ⟨nofun, by simpa using hrec⟩

end Manager

namespace Station

variable {drv : Driver} {s : Station} {e : Event}

/-- A station that is taken for connected asks for no connection when the authentication expires. -/
theorem eventCallback_connects (drv : Driver) (hstatus : s.status = .connected)
    (h : e.setsStatus = false) :
    (s.eventCallback drv e).config = s.config ∧
      (s.eventCallback drv e).commands.count .connect = s.commands.count .connect := by
  rcases eventCallback_cases drv s h with rfl | ⟨-, bits, heq, -⟩
  · rw [eventCallback]
    split_ifs
    · have hdis := quiet_disconnect drv
        ((s.statusOfReason WIFI_REASON_AUTH_EXPIRE).clearStatusBits {.staConnected, .staHasIp, .staHasIp6})
      have hquiet := hdis.trans (quiet_begin drv (hdis.status.trans hstatus))
      exact ⟨hquiet.config, hquiet.connects⟩
    · exact ⟨rfl, rfl⟩
  · rw [heq]
    exact ⟨rfl, rfl⟩

theorem quiet_reconnected (drv : Driver) (h : s.status = .connected) : Quiet s (s.reconnected drv) := by
  have hsta := quiet_enableSTA drv true s
  exact hsta.trans (quiet_begin drv (hsta.status.trans h))

theorem quiet_iterate_reconnected (drv : Driver) (h : s.status = .connected) (n : ℕ) :
    Quiet s ((Station.reconnected drv)^[n] s) := by
  induction n with
  | zero => exact .refl s
  | succ n ih =>
      rw [Function.iterate_succ_apply']
      exact ih.trans (quiet_reconnected drv (ih.status.trans h))

theorem quiet_called {c : WifiManager.Call} {millis : ℕ → UInt32} (h : s.status = .connected)
    (hkeeps : (BoardInput.call c millis drv).Keeps s.config) (n : ℕ) :
    Quiet s (s.called drv n c) := by
  cases c with
  | attemptConnect tmpNetworkName tmpPassword rounds =>
      have hsta := quiet_enableSTA drv true s
      refine hsta.trans (quiet_beginWith drv (hsta.status.trans h) fun hok => ?_)
      rw [hsta.config]
      exact hkeeps hok
  | reconnect displayReconnect => exact quiet_iterate_reconnected drv h n
  | displayConnectToWifiStatus => exact quiet_iterate_reconnected drv h n
  | waitForConnectResult rounds => exact quiet_iterate_reconnected drv h n

end Station

/-- What the two boards have in common: the claim, the missing address, the configuration, and how often the
driver was asked to connect. -/
structure Stuck (config : Config) (connects : ℕ) (b : Board) : Prop where
  status : b.station.status = .connected
  address : .staHasIp ∉ b.station.bits
  config : b.station.config = config
  connects : b.station.commands.count .connect = connects

theorem step_stuck {config : Config} {connects : ℕ} {b b' : Board} {i : BoardInput}
    (h : Stuck config connects b) (hi : i.Keeps config) (hstep : b.step i = some b') :
    Stuck config connects b' ∧
      b'.manager.reconnects.length
        = b.manager.reconnects.length + if i.isReconnect then 1 else 0 := by
  cases i with
  | event e drv =>
      obtain rfl := Option.some.inj hstep
      obtain ⟨hconf, hcount⟩ := Station.eventCallback_connects drv h.status hi
      obtain ⟨hstatus, hbits⟩ := Station.eventCallback_silent drv b.station hi
      exact ⟨⟨hstatus.trans h.status, fun hip => h.address (hbits.mp hip).1, hconf.trans h.config,
        hcount.trans h.connects⟩, rfl⟩
  | call c millis drv =>
      obtain ⟨w, hw, hb'⟩ := Option.bind_eq_some_iff.mp hstep
      obtain rfl := Option.some.inj hb'
      have hkeeps : (BoardInput.call c millis drv).Keeps b.station.config := by
        rw [h.config]
        exact hi
      have hquiet := Station.quiet_called h.status hkeeps
        (w.reconnects.length - b.manager.reconnects.length)
      refine ⟨⟨hquiet.status.trans h.status, ?_, hquiet.config.trans h.config,
        hquiet.connects.trans h.connects⟩, ?_⟩
      · rw [hquiet.bits]
        exact h.address
      · have hair : ∀ k, (Air.mk (fun _ => b.station.status.code) millis).status k
            = Startup.WL_CONNECTED := by
          intro k
          simp only [h.status]
          rfl
        rcases step_reconnects hair hw with ⟨displayReconnect, rfl, hlen⟩ | ⟨hne, heq⟩
        · exact hlen
        · cases c with
          | reconnect displayReconnect => exact absurd rfl (hne displayReconnect)
          | _ => simp [BoardInput.isReconnect, heq]

theorem run_stuck {config : Config} {connects : ℕ} {b b' : Board} {inputs : List BoardInput}
    (h : Stuck config connects b) (hkeeps : ∀ i ∈ inputs, i.Keeps config)
    (hrun : b.run inputs = some b') :
    Stuck config connects b' ∧
      b'.manager.reconnects.length
        = b.manager.reconnects.length + inputs.countP BoardInput.isReconnect := by
  induction inputs generalizing b with
  | nil =>
      obtain rfl := Option.some.inj hrun
      exact ⟨h, rfl⟩
  | cons i inputs ih =>
      obtain ⟨u, hu, hrest⟩ := Option.bind_eq_some_iff.mp hrun
      obtain ⟨hstuck, hlen⟩ := step_stuck h (hkeeps i List.mem_cons_self) hu
      obtain ⟨hb', hlen'⟩ := ih hstuck (fun j hj => hkeeps j (List.mem_cons_of_mem _ hj)) hrest
      refine ⟨hb', ?_⟩
      rw [hlen', hlen, List.countP_cons]
      omega

/-- **It does not get over that.**  From a state in which the station claims a connection it does not have,
until an event sets the status or `AttemptConnect` is given another network than it reads from the driver:
whatever the manager is called for, and however often the authentication expires, the claim stays, no
address comes back, the driver is never asked to connect, and no poll calls `Reconnect`. -/
theorem runBoard_stuck {b b' : Board} {inputs : List BoardInput}
    (hstatus : b.station.status = .connected) (haddress : .staHasIp ∉ b.station.bits)
    (hkeeps : ∀ i ∈ inputs, i.Keeps b.station.config) (hrun : b.run inputs = some b') :
    b'.station.status = .connected ∧ .staHasIp ∉ b'.station.bits ∧
      b'.station.commands.count .connect = b.station.commands.count .connect ∧
      b'.manager.reconnects.length
        = b.manager.reconnects.length + inputs.countP BoardInput.isReconnect := by
  obtain ⟨hstuck, hlen⟩ := run_stuck ⟨hstatus, haddress, rfl, rfl⟩ hkeeps hrun
  exact ⟨hstuck.status, hstuck.address, hstuck.connects, hlen⟩

/-- A driver that does everything it is asked for. -/
def Driver.obliging : Driver :=
  ⟨true, true, true, true, true, true, ⟨[], [], none, 0⟩, true, true, true, true⟩

/-- A board whose station has connected, got an address and been dropped. -/
def Board.dropped : Board where
  station := (Station.boot ⟨ascii "home", ascii "secret", none, 0⟩).run
    [(.begin, .obliging), (.event .staStart, .obliging), (.event .staConnected, .obliging),
      (.event .staGotIp, .obliging),
      (.event (.staDisconnected WIFI_REASON_AUTH_EXPIRE), .obliging)]
  manager := .start

/-- A poll, a `Reconnect` and another expiry. -/
def BoardInput.afterDrop : List BoardInput :=
  [.call .displayConnectToWifiStatus (fun _ => 0) .obliging,
    .call (.reconnect true) (fun _ => 0) .obliging,
    .event (.staDisconnected WIFI_REASON_AUTH_EXPIRE) .obliging]

/-- One connection was asked for in all, before the drop. -/
theorem runBoard_stuck_dropped :
    ∃ b', Board.dropped.run BoardInput.afterDrop = some b' ∧ b'.station.status = .connected ∧
      .staHasIp ∉ b'.station.bits ∧ b'.station.commands.count .connect = 1 ∧
      b'.manager.reconnects.length = 1 := by
  have haddress : .staHasIp ∉ Board.dropped.station.bits := by decide
  have hkeeps : ∀ i ∈ BoardInput.afterDrop, i.Keeps Board.dropped.station.config := by
    intro i hi
    simp only [BoardInput.afterDrop, List.mem_cons, List.not_mem_nil, or_false] at hi
    rcases hi with rfl | rfl | rfl
    · trivial
    · trivial
    · rfl
  have hreturns : ∃ b', Board.dropped.run BoardInput.afterDrop = some b' := ⟨_, rfl⟩
  obtain ⟨b', hrun⟩ := hreturns
  obtain ⟨hstatus, hbits, hconnects, hlen⟩ := runBoard_stuck rfl haddress hkeeps hrun
  have hone : Board.dropped.station.commands.count .connect = 1 := by decide
  exact ⟨b', hrun, hstatus, hbits, hconnects.trans hone, hlen⟩

end EspFirmware.Sta
