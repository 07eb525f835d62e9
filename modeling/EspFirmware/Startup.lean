import EspFirmware.RequestText
import EspFirmware.Timer

/-!
# Program start

`app_main` (`Main.cpp`) creates one task, which runs `setup` and then updates the timer for ever.
`setup` starts the firmware download.  The certificate of the server is installed by
`setup_HttpRequestManager`, a function of the request manager that a program calls before its first
request.

* `waitForConnectResult` — the wait for Wi-Fi, on the status values and clock readings it meets;
* `WiFiClientSecure.connect`, `startSslClient` — what a connection asks of its peer;
* `loop` — the rounds of the task, each an update of its timer;
* `appMain` — a run of the program, with the `connect` calls it made;
* `setupHttpRequestManager_startFirmwareDownload` — behind the setup its connection would be authenticated;
* `appMain_authenticated_iff` — its connections are authenticated exactly in the runs without any.
-/

namespace EspFirmware.Startup

open CString

/-! ### Waiting for Wi-Fi -/

/-- `WL_CONNECTED` of `wl_status_t`. -/
def WL_CONNECTED : UInt8 := 3

/-- `WL_CONNECT_FAILED`. -/
def WL_CONNECT_FAILED : UInt8 := 4

/-- One round of the wait: what `WiFi.status()` returns, and `millis()` after it. -/
structure Reading where
  status : UInt8
  millis : UInt32

/-- `connectTimeout`, in milliseconds. -/
def connectTimeout : UInt32 := 15000

/-- `millis() > start + connectTimeout`. -/
def Reading.Late (start : UInt32) (r : Reading) : Prop := start + connectTimeout < r.millis

instance (start : UInt32) (r : Reading) : Decidable (r.Late start) := by
  unfold Reading.Late
  infer_instance

/-- `WaitForConnectResult`; `none` while the loop has not been left. -/
def waitForConnectResult (start : UInt32) : List Reading → Option UInt8
  | [] => none
  | r :: rs =>
      if r.status = WL_CONNECTED ∨ r.status = WL_CONNECT_FAILED ∨ r.Late start then some r.status
      else waitForConnectResult start rs

/-- A reading finds Wi-Fi connected, and none before it has failed or was late. -/
def Online (start : UInt32) (readings : List Reading) : Prop :=
  ∃ before r after, readings = before ++ r :: after ∧ r.status = WL_CONNECTED ∧
    ∀ q ∈ before, q.status ≠ WL_CONNECT_FAILED ∧ ¬q.Late start

theorem online_cons (start : UInt32) (r : Reading) (rs : List Reading) :
    Online start (r :: rs) ↔
      r.status = WL_CONNECTED ∨
        (r.status ≠ WL_CONNECT_FAILED ∧ ¬r.Late start ∧ Online start rs) := by
  constructor
  · rintro ⟨before, q, after, heq, hq, hb⟩
    cases before with
    | nil =>
        obtain ⟨rfl, rfl⟩ : r = q ∧ rs = after := by simpa using heq
        exact .inl hq
    | cons x before =>
        obtain ⟨rfl, rfl⟩ : r = x ∧ rs = before ++ q :: after := by simpa using heq
        have hr := hb r (by simp)
        exact .inr ⟨hr.1, hr.2, before, q, after, rfl, hq, fun y hy => hb y (by simp [hy])⟩
  · rintro (hr | ⟨hf, hl, before, q, after, rfl, hq, hb⟩)
    · exact ⟨[], r, rs, rfl, hr, by simp⟩
    · refine ⟨r :: before, q, after, rfl, hq, ?_⟩
      intro y hy
      cases List.mem_cons.mp hy with
      | inl h => exact h ▸ ⟨hf, hl⟩
      | inr h => exact hb y h

/-- The wait ends with Wi-Fi connected exactly when a reading in time finds it so. -/
theorem waitForConnectResult_eq (start : UInt32) (readings : List Reading) :
    waitForConnectResult start readings = some WL_CONNECTED ↔ Online start readings := by
  induction readings with
  | nil => simp [waitForConnectResult, Online]
  | cons r rs ih =>
      rw [online_cons, waitForConnectResult]
      by_cases hr : r.status = WL_CONNECTED
      · simp [hr]
      · by_cases hstop : r.status = WL_CONNECT_FAILED ∨ r.Late start
        · simp only [hr, hstop, false_or, if_true, Option.some.injEq, false_iff]
          tauto
        · simp only [hr, hstop, false_or, if_false, ih]
          tauto

/-! ### The secure client -/

/-- The credentials of a `WiFiClientSecure`, each a pointer that may be null. -/
structure WiFiClientSecure where
  caCert : Option (List UInt8)
  cert : Option (List UInt8)
  privateKey : Option (List UInt8)
  pskIdent : Option (List UInt8)
  psKey : Option (List UInt8)

/-- The constructor `WiFiClientSecure()`. -/
def WiFiClientSecure.new : WiFiClientSecure := ⟨none, none, none, none, none⟩

/-- `setCACert`. -/
def WiFiClientSecure.setCACert (c : WiFiClientSecure) (rootCA : List UInt8) : WiFiClientSecure :=
  { c with caCert := some rootCA }

/-- What a TLS connection asks of its peer. -/
inductive AuthMode where
  | verifyRequired (rootCA : List UInt8)
  | preSharedKey
  | verifyNone
  deriving DecidableEq

/-- The authentication `start_ssl_client` configures. -/
def startSslClient (rootCABuff pskIdent psKey : Option (List UInt8)) : AuthMode :=
  match rootCABuff with
  | some rootCA => .verifyRequired rootCA
  | none => if pskIdent.isSome ∧ psKey.isSome then .preSharedKey else .verifyNone

/-- `WiFiClientSecure::connect(host, port)`: which `start_ssl_client` it calls. -/
def WiFiClientSecure.connect (c : WiFiClientSecure) : AuthMode :=
  if c.pskIdent.isSome ∧ c.psKey.isSome then startSslClient none c.pskIdent c.psKey
  else startSslClient c.caCert none none

/-- The lines of `test_root_ca`. -/
def testRootCa : List String :=
  ["-----BEGIN CERTIFICATE-----",
    "MIIGXzCCBUegAwIBAgIJAP2NDvI0rjgHMA0GCSqGSIb3DQEBCwUAMIGSMQswCQYD",
    "VQQGEwJVUzEPMA0GA1UECAwGT3JlZ29uMQ8wDQYDVQQHDAZPcmVnb24xFTATBgNV",
    "BAoMDENsb3VkVHJpZ2dlcjEhMB8GA1UEAwwYQ2xvdWRUcmlnZ2VyIERldmljZSBD",
    "ZXJ0MScwJQYJKoZIhvcNAQkBFhhTdXBwb3J0QENsb3VkVHJpZ2dlci5jb20wHhcN",
    "MTkxMDIwMDcyMTQ2WhcNMjkxMDE3MDcyMTQ2WjCBkjELMAkGA1UEBhMCVVMxDzAN",
    "BgNVBAgMBk9yZWdvbjEPMA0GA1UEBwwGT3JlZ29uMRUwEwYDVQQKDAxDbG91ZFRy",
    "aWdnZXIxITAfBgNVBAMMGENsb3VkVHJpZ2dlciBEZXZpY2UgQ2VydDEnMCUGCSqG",
    "SIb3DQEJARYYU3VwcG9ydEBDbG91ZFRyaWdnZXIuY29tMIIBIjANBgkqhkiG9w0B",
    "AQEFAAOCAQ8AMIIBCgKCAQEArTJhRzC4AcNn+8960ZXKuqAn59OvF7CaYlUh2IdW",
    "llaKRZ//5Bu1kFOpEQQpNX7BJ43KGtGfbG873zxzW7g8zyCz1ttNdKi2qufXri/Q",
    "uRAXUogu99ZaW9UAnId7lPqN0i5OGAikfynXlJCNOHEOjkwkL+NhgYgiglPBSalP",
    "O02jhwHHRnbHSycYxFjQUl3i1dEvaF3YMlePEMGJWpW63TSJwGYKm2gN1SKNR2zr",
    "xGFVhCJQHDAYEaHUsVto2/QCFja2CTt8IOA4+XPZbi0AvZe1WCKy+JRoKPHVvzHq",
    "FLDaiT5rCYevyW9+1Xyfuw8dYYPA+wO+9g6hmml1X/sRxQIDAQABo4ICtDCCArAw",
    "HQYDVR0OBBYEFNYleax+OwXyw1tmeEDE7PztE9x/MB8GA1UdIwQYMBaAFNYleax+",
    "OwXyw1tmeEDE7PztE9x/MAkGA1UdEwQCMAAwCwYDVR0PBAQDAgWgMIICBwYDVR0R",
    "BIIB/jCCAfqCCWxvY2FsaG9zdIIQY2xvdWR0cmlnZ2VyLmNvbYIXZGV2aWNlLmNs",
    "b3VkdHJpZ2dlci5jb22CGmRldmljZS1xYS5jbG91ZHRyaWdnZXIuY29tghtkZXZp",
    "Y2UtZGV2LmNsb3VkdHJpZ2dlci5jb22CH2RldmljZS1zdGFnaW5nLmNsb3VkdHJp",
    "Z2dlci5jb22CHGRldmljZS1kZW1vLmNsb3VkdHJpZ2dlci5jb22CF2RldmljZS5j",
    "bG91ZHRyaWdnZXIuY29tghIqLmNsb3VkdHJpZ2dlci5jb22CCTEyNy4wLjAuMYIM",
    "Y2xvdWR0cmlnZ2VyggwxOTIuMTY4LjAuMjOCCzE5Mi4xNjguMC4qgiljbG91ZHRy",
    "aWdnZXItZGV2aWNlLWFwaS5henVyZXdlYnNpdGVzLm5ldIIsY2xvdWR0cmlnZ2Vy",
    "LWRldmljZS1hcGktcWEuYXp1cmV3ZWJzaXRlcy5uZXSCLWNsb3VkdHJpZ2dlci1k",
    "ZXZpY2UtYXBpLWRldi5henVyZXdlYnNpdGVzLm5ldIIxY2xvdWR0cmlnZ2VyLWRl",
    "dmljZS1hcGktc3RhZ2luZy5henVyZXdlYnNpdGVzLm5ldIIuY2xvdWR0cmlnZ2Vy",
    "LWRldmljZS1hcGktZGVtby5henVyZXdlYnNpdGVzLm5ldDAsBglghkgBhvhCAQ0E",
    "HxYdT3BlblNTTCBHZW5lcmF0ZWQgQ2VydGlmaWNhdGUwHQYDVR0lBBYwFAYIKwYB",
    "BQUHAwEGCCsGAQUFBwMCMA0GCSqGSIb3DQEBCwUAA4IBAQB6u3hvJQRfNoZ7rEeN",
    "tX107RTvZm0nC8HKIG6M+VtyGrUsxMkIDo3WSRO/CzGwhrwCujPpXZ+RYOyQMcnR",
    "75a6c29tYiTopymbbMD+LLy7O92RKzYTuSDgMtNgZOGQ3P78svS1KTspZSho8TwN",
    "mIvrgwYe7zPrGdjLm5xacV532lk60IT5a4WsYydPv3a2QnOHzuQv81daKEieIVYM",
    "DYka27ptBZ5F3k8hYSS6BWwA0Xhxf1nZtIbmdGyRoKOVd3p+pBpB6G4i9z1KGjFq",
    "Vd3VEB6GuIy2DBa1aStwVI5Vfl5Iyb0+Wvs+CnHOaDOoqqYDaKEPqw+e/0JCjQ2/",
    "9NlQ",
    "-----END CERTIFICATE-----"]

/-- `GetPemCert`. -/
def getPemCert : List UInt8 := testRootCa.flatMap fun line => ascii line ++ [LF]

/-! ### The program -/

/-- The client `wifiClientActive` points to. -/
inductive ActiveClient where
  | insecure | secure
  deriving DecidableEq

/-- A `connect` call of `httpRequest`: the client, its certificate and what the connection asks of its
peer (nothing on the client without TLS). -/
structure Connect where
  client : ActiveClient
  caCert : Option (List UInt8)
  mode : Option AuthMode
  deriving DecidableEq

/-- A connection of the secure client verifies its peer against the installed certificate. -/
def Connect.Authenticated (c : Connect) : Prop :=
  c.client = .secure → c.caCert = some getPemCert ∧ c.mode = some (.verifyRequired getPemCert)

instance (c : Connect) : Decidable c.Authenticated := by
  unfold Connect.Authenticated
  infer_instance

/-- The globals of the request manager with its flags, clients and the `connect` calls made so far. -/
structure Program where
  http : State
  useLocalServer : Bool
  useSecureServer : Bool
  serverPort : ℕ
  wifiClientActive : ActiveClient
  wifiClientSecure : WiFiClientSecure
  connects : List Connect

namespace Program

/-- The static initialisers. -/
def start : Program where
  http := .start
  useLocalServer := false
  useSecureServer := true
  serverPort := 443
  wifiClientActive := .secure
  wifiClientSecure := .new
  connects := []

/-- The server `setup_HttpRequestManager` takes on a local network. -/
def useLocal (p : Program) (networkName : List UInt8) : Program :=
  let server := p.http.server
  let server := if strEq networkName (ascii "iPhone") then
      { server with domain := ascii "172.20.10.4", hostHeader := ascii "Host: 172.20.10.4" }
    else { server with domain := ascii "192.168.0.23", hostHeader := ascii "Host: 192.168.0.23" }
  { p with
    http := { p.http with server := server }
    serverPort := if p.useSecureServer then 5001 else 5000 }

/-- The end of `setup_HttpRequestManager`. -/
def authenticate (p : Program) : Program :=
  if p.serverPort = 443 ∨ p.useSecureServer then
    { p with
      http := p.http.setupHttpRequestManager
      wifiClientSecure := p.wifiClientSecure.setCACert getPemCert }
  else p

/-- `setup_HttpRequestManager`. -/
def setupHttpRequestManager (p : Program) (networkName : List UInt8) : Program :=
  if p.useLocalServer then (p.useLocal networkName).authenticate else p.authenticate

/-- `wifiClientActive->connect(serverDomain, serverPort)`, as a record of the call. -/
def connect (p : Program) : Connect :=
  match p.wifiClientActive with
  | .insecure => ⟨.insecure, none, none⟩
  | .secure => ⟨.secure, p.wifiClientSecure.caCert, some p.wifiClientSecure.connect⟩

/-- `httpRequest`: the globals change as `State.httpRequest` says, and with Wi-Fi connected the active
client connects. -/
def httpRequest (args : RequestArgs) (net : Network) (onError : State → Except Fault State)
    (p : Program) : Except Fault Program := do
  let http ← p.http.httpRequest args net onError
  .ok { p with
    http := http
    connects := if net.wifiConnected then p.connects ++ [p.connect] else p.connects }

end Program

/-- What a run of the program meets. -/
structure Environment where
  startWait : UInt32
  readings : List Reading
  connects : Bool
  millis : UInt32
  idfVersion : List UInt8
  revision : ℕ
  response : List Arrival
  rounds : List UInt32

namespace Environment

/-- What the request of `StartFirmwareDownload` meets. -/
def network (env : Environment) : Network where
  wifiConnected := waitForConnectResult env.startWait env.readings = some WL_CONNECTED
  connects := env.connects
  millis := env.millis
  deviceInfo := getDeviceInfo env.idfVersion env.revision
  response := env.response

end Environment

/-- The request of `StartFirmwareDownload`. -/
def firmwareDownload : RequestArgs where
  httpMethod := ascii "GET"
  path := ascii "/api/firmware/download/"
  data := none
  processCallback := true

/-- `HandleFatalError`: the message is logged. -/
def handleFatalError (s : State) : Except Fault State := .ok s

/-- `firmwareUpdateHttpError`, the error callback of the download. -/
def firmwareUpdateHttpError (s : State) : Except Fault State := handleFatalError s

/-- `StartFirmwareDownload`. -/
def startFirmwareDownload (env : Environment) (p : Program) : Except Fault Program :=
  p.httpRequest firmwareDownload env.network firmwareUpdateHttpError

/-- `setup`: past the logging, the download is all it starts. -/
def setup (env : Environment) (p : Program) : Except Fault Program := startFirmwareDownload env p

/-- The timer's callbacks: the program has none. -/
def noCallbacks : Timer.Program := fun _ _ => []

/-- The `for` loop of `PrimaryLoopTask`, one `timer.update()` per round.  The function pointers of the
events are null, so an event that fired would be a fault. -/
def loop : List UInt32 → Timer.State → Program → Except Fault Program
  | [], _, p => .ok p
  | now :: rounds, timer, p =>
      let timer' := timer.update noCallbacks now
      if timer'.trace.length = timer.trace.length then loop rounds timer' p else .error .nullPointer

/-- `PrimaryLoopTask`; a run that is still waiting for Wi-Fi has only registered its request. -/
def primaryLoopTask (env : Environment) (timer : Timer.State) (p : Program) : Except Fault Program :=
  match waitForConnectResult env.startWait env.readings with
  | none => .ok { p with http := p.http.register firmwareDownload }
  | some _ => do
      let p ← setup env p
      loop env.rounds timer p

/-- `app_main`: the task with the static initialisers. -/
def appMain (env : Environment) : Except Fault Program :=
  primaryLoopTask env .init .start

/-! ### Who installs the certificate -/

/-- Without the setup the secure client accepts any peer. -/
theorem start_connect : Program.start.connect = ⟨.secure, none, some .verifyNone⟩ := rfl

theorem start_not_authenticated : ¬Program.start.connect.Authenticated := by
  rw [start_connect]
  intro h
  exact absurd (h rfl).1 (by simp)

/-- The download is started whatever the network does, and connects when Wi-Fi is there. -/
theorem startFirmwareDownload_ok (env : Environment) {p : Program}
    (hfits : (requestHeaderURL p.http.server firmwareDownload).length < requestHeaderSize) :
    ∃ http, startFirmwareDownload env p = .ok
      { p with
        http := http
        connects := if env.network.wifiConnected then p.connects ++ [p.connect] else p.connects } := by
  have hhttp : ∃ http,
      p.http.httpRequest firmwareDownload env.network firmwareUpdateHttpError = .ok http := by
    rw [State.httpRequest]
    split
    · exact ⟨_, rfl⟩
    · split
      · rw [State.send, if_pos hfits]
        exact ⟨_, rfl⟩
      · exact ⟨_, rfl⟩
  obtain ⟨http, hhttp⟩ := hhttp
  refine ⟨http, ?_⟩
  rw [startFirmwareDownload, Program.httpRequest, hhttp]
  rfl

/-- The request of the download fits its buffer. -/
theorem firmwareDownload_fits :
    (requestHeaderURL State.start.server firmwareDownload).length < requestHeaderSize := by
  decide

/-- Behind the setup the connection of the same download is authenticated, whatever the network is
called. -/
theorem setupHttpRequestManager_startFirmwareDownload (env : Environment) (networkName : List UInt8) :
    ∃ p, startFirmwareDownload env (Program.start.setupHttpRequestManager networkName) = .ok p ∧
      ∀ c ∈ p.connects, c.Authenticated := by
  have hfits : (requestHeaderURL State.start.setupHttpRequestManager.server firmwareDownload).length
      < requestHeaderSize := by
    decide
  obtain ⟨http, hstart⟩ := startFirmwareDownload_ok env
    (p := Program.start.setupHttpRequestManager networkName) hfits
  refine ⟨_, hstart, ?_⟩
  intro c hc
  have hconnect : c = (Program.start.setupHttpRequestManager networkName).connect := by
    simp only at hc
    split_ifs at hc
    · simpa [Program.setupHttpRequestManager, Program.authenticate, Program.start] using hc
    · simp [Program.setupHttpRequestManager, Program.authenticate, Program.start] at hc
  rw [hconnect]
  exact fun _ => ⟨rfl, rfl⟩

/-! ### The run of `app_main` -/

/-- A timer without events does nothing. -/
theorem loop_free {timer : Timer.State} (h : ∀ i, (timer.events i).eventType = .none)
    (rounds : List UInt32) (p : Program) : loop rounds timer p = .ok p := by
  induction rounds with
  | nil => rfl
  | cons now rounds ih =>
      rw [loop, Timer.update_free h]
      exact (if_pos rfl).trans ih

/-- The connections of a run: one when Wi-Fi is there, none otherwise. -/
theorem appMain_connects (env : Environment) :
    ∃ p, appMain env = .ok p ∧
      p.connects = if env.network.wifiConnected then [Program.start.connect] else [] := by
  rw [appMain, primaryLoopTask]
  cases hw : waitForConnectResult env.startWait env.readings with
  | none =>
      refine ⟨_, rfl, ?_⟩
      simp [Environment.network, hw, Program.start]
  | some status =>
      obtain ⟨http, hstart⟩ := startFirmwareDownload_ok env (p := .start) firmwareDownload_fits
      refine ⟨{ Program.start with
        http := http
        connects := if env.network.wifiConnected then [Program.start.connect] else [] }, ?_, rfl⟩
      simp only [setup, hstart]
      exact loop_free (fun _ => rfl) _ _

/-- **Only a run without Wi-Fi is authenticated.**  No function that `app_main` reaches calls
`setup_HttpRequestManager`, so every connection the program makes accepts any peer. -/
theorem appMain_authenticated_iff (env : Environment) :
    ∃ p, appMain env = .ok p ∧
      ((∀ c ∈ p.connects, c.Authenticated) ↔ ¬Online env.startWait env.readings) := by
  obtain ⟨p, hp, hconnects⟩ := appMain_connects env
  have hnet : env.network.wifiConnected = true ↔ Online env.startWait env.readings := by
    rw [← waitForConnectResult_eq]
    simp [Environment.network]
  refine ⟨p, hp, ?_⟩
  rw [← hnet, hconnects]
  by_cases hw : env.network.wifiConnected = true
  · simp [hw, start_not_authenticated]
  · simp [hw]

/-- Wi-Fi is connected at the first reading and the server answers nothing. -/
def onlineAtOnce : Environment where
  startWait := 0
  readings := [⟨WL_CONNECTED, 0⟩]
  connects := true
  millis := 10
  idfVersion := ascii "v3.3"
  revision := 1
  response := []
  rounds := []

/-- With Wi-Fi up at start the firmware is requested from an unverified peer. -/
theorem onlineAtOnce_unverified :
    ∃ p, appMain onlineAtOnce = .ok p ∧ ⟨.secure, none, some .verifyNone⟩ ∈ p.connects ∧
      ¬∀ c ∈ p.connects, c.Authenticated := by
  have hw : onlineAtOnce.network.wifiConnected = true := by decide
  obtain ⟨p, hp, hconnects⟩ := appMain_connects onlineAtOnce
  rw [hw, if_pos rfl] at hconnects
  refine ⟨p, hp, ?_, ?_⟩
  · rw [hconnects, start_connect]
    exact List.mem_singleton_self _
  · intro hall
    exact start_not_authenticated (hall _ (by rw [hconnects]; exact List.mem_singleton_self _))

end EspFirmware.Startup
