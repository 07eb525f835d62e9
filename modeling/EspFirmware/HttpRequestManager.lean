import EspFirmware.Lib.Run
import EspFirmware.ResponseHeader

/-!
# The HTTP request manager

The globals of `HttpRequestManager.cpp` and the functions that work on them.  A request is made of two
phases: `checkForHttpResponse` polls the connection and leaves a completion status, and
`handleHttpResponseComplete` delivers it to a callback.  Callbacks are code of the caller: what one of
them does when it is invoked is a `Script`, which may start and cancel requests but does not poll.

* `State` — the globals, with a trace of what the requests went through;
* `pollResponse` — the reading part of `checkForHttpResponse`, from the client alone;
* `httpRequest`, `checkForHttpResponse`, `handleHttpResponseComplete`, `cancelHttpRequest`;
* `Call`, `step` — one top-level call; a run is a list of calls.

An access outside a buffer or a call through a null pointer is a `Fault`.
-/

namespace EspFirmware

open CString

/-! ### Reading a response -/

/-- `PROGRAM_JSON_MAX_LENGTH`. -/
def responseSize : ℕ := 3500

theorem read_length_le (s : List Arrival) : (Arrival.read s).2.length ≤ s.length := by
  cases s with
  | nil => rfl
  | cons a s => cases a <;> simp [Arrival.read]

/-- Reading after a non-zero `available()` takes something from the connection. -/
theorem readNext_length {client : List Arrival} (h : (Arrival.available client).1 ≠ 0) :
    (Arrival.read (Arrival.available client).2).2.length < client.length := by
  cases client with
  | nil => simp [Arrival.available] at h
  | cons a s =>
      cases a with
      | byte b => simp [Arrival.available, Arrival.read]
      | pause long => simp [Arrival.available] at h
      | closed code =>
          have hle := read_length_le s
          simp only [Arrival.available, List.length_cons]
          omega

/-- The body loop: the characters stored, and the client after it.  A failed `read()` returns `-1`,
which is stored as the character `0xFF`. -/
def readBody (client : List Arrival) : List UInt8 × List Arrival :=
  if _h : (Arrival.available client).1 = 0 then ([], (Arrival.available client).2)
  else
    let r := Arrival.read (Arrival.available client).2
    (r.1.getD 0xFF :: (readBody r.2).1, (readBody r.2).2)
termination_by client.length
decreasing_by all_goals exact readNext_length _h

/-- `responseBuffer` after the body and its terminator were stored from index 0 on. -/
def storeBody (buffer : CharArray responseSize) (body : List UInt8) :
    Except Fault (CharArray responseSize) :=
  if h : body.length < responseSize then
    .ok ⟨body ++ 0 :: buffer.1.drop (body.length + 1), by
      have hb := buffer.2
      simp only [List.length_append, List.length_cons, List.length_drop]
      omega⟩
  else .error .outOfBounds

/-- How a poll that finds data ends. -/
inductive PollResult where
  | nothing (client : List Arrival)
  | failed (msg : List UInt8) (client : List Arrival)
  | process (headerData : ResponseHeaderData) (client : List Arrival)
  | success (buffer : CharArray responseSize) (client : List Arrival)
  | noBody (buffer : CharArray responseSize) (client : List Arrival)

/-- `checkForHttpResponse` from its first `available()` on.  `headerData` is the memory of the local
variable, which the code does not initialise. -/
def pollResponse (processCallback : Bool) (headerData : ResponseHeaderData)
    (buffer : CharArray responseSize) (client : List Arrival) : Except Fault PollResult :=
  if (Arrival.available client).1 = 0 then .ok (.nothing (Arrival.available client).2)
  else do
    match ← readHeaders false headerData (Arrival.available client).2 with
    | .rejected msg client => .ok (.failed msg client)
    | .ended false _ client => .ok (.failed (ascii "No end of header") client)
    | .ended true headerData client =>
        if processCallback then .ok (.process headerData client)
        else do
          let buffer' ← storeBody buffer (readBody client).1
          if (readBody client).1 = [] then .ok (.noBody buffer' (readBody client).2)
          else .ok (.success buffer' (readBody client).2)

/-! ### The globals -/

/-- `requestCompletionStatus`: 0, 1 and -1. -/
inductive CompletionStatus where
  | idle | success | error
  deriving Repr, DecidableEq

/-- A callback invocation with its argument. -/
inductive Callback where
  | success (response : List UInt8)
  | error (msg : List UInt8)
  | process (headerData : ResponseHeaderData)

/-- What a request goes through; requests are numbered in the order of their `httpRequest` calls. -/
inductive HttpEvent where
  | registered (id : ℕ)
  | sent (id : ℕ) (text : List UInt8)
  | cancelled
  | recorded (msg : List UInt8)
  | invoked (id : ℕ) (callback : Callback)

/-- The three callback pointers of a request; only the process callback may be null. -/
structure Callbacks where
  id : ℕ
  process : Bool
  deriving Repr, DecidableEq

/-- `serverDomain`, `serverHostHeader` and `serverProtocol`. -/
structure Server where
  domain : List UInt8
  hostHeader : List UInt8
  protocol : List UInt8

structure State where
  server : Server
  requestIsPending : Bool
  requestCompletionStatus : CompletionStatus
  lastConnectionTime : UInt32
  lostConnectionTimes : ℕ
  pendingErrorResponse : CharArray 22
  responseBuffer : CharArray responseSize
  callbacks : Option Callbacks
  client : List Arrival
  requests : ℕ
  trace : List HttpEvent

namespace State

/-- The globals at program start. -/
def start : State where
  server :=
    { domain := ascii "device.somedomain.com"
      hostHeader := ascii "Host: www.azurewebsites.net"
      protocol := ascii "http" }
  requestIsPending := false
  requestCompletionStatus := .idle
  lastConnectionTime := 0
  lostConnectionTimes := 0
  pendingErrorResponse := CharArray.zero 22
  responseBuffer := CharArray.zero responseSize
  callbacks := none
  client := []
  requests := 0
  trace := []

def log (s : State) (e : HttpEvent) : State := { s with trace := s.trace ++ [e] }

/-- `CancelHttpRequest`: the client is stopped, so nothing is left to read. -/
def cancelHttpRequest (s : State) : State :=
  { s with lostConnectionTimes := 0, requestIsPending := false, client := [] }

/-- `setup_HttpRequestManager` with the flags as the source initialises them, `UseLocalServer` off and
`UseSecureServer` on. -/
def setupHttpRequestManager (s : State) : State :=
  { s with server := { s.server with protocol := ascii "https" } }

theorem strlen_le (a : CharArray 22) : strlen a.1 ≤ 22 := a.str_length_le

/-- `setPendingErrorResponse`; the length of the copy is the length of the string already there. -/
def setPendingErrorResponse (s : State) (msg : List UInt8) : State :=
  { s.log (.recorded msg) with
    pendingErrorResponse :=
      s.pendingErrorResponse.strncpy msg (strlen s.pendingErrorResponse.1) (strlen_le _)
    requestCompletionStatus := .error }

/-- Record an error and give the request up. -/
def giveUp (s : State) (msg : List UInt8) : State :=
  (s.setPendingErrorResponse msg).cancelHttpRequest

end State

/-! ### Sending a request -/

/-- The arguments of `httpRequest` other than the success and error callbacks. -/
structure RequestArgs where
  httpMethod : List UInt8
  path : List UInt8
  data : Option (List UInt8)
  processCallback : Bool

/-- What one `httpRequest` meets: the result of `WaitForConnectResult`, of `connect`, the clock, the
device info, and what the server sends on the connection. -/
structure Network where
  wifiConnected : Bool
  connects : Bool
  millis : UInt32
  deviceInfo : List UInt8
  response : List Arrival

/-- `println` of a string. -/
def println (line : List UInt8) : List UInt8 := cstr line ++ [CR, LF]

/-- The text `sprintf` puts into `requestHeaderURL`. -/
def requestHeaderURL (server : Server) (args : RequestArgs) : List UInt8 :=
  cstr args.httpMethod ++ ascii " " ++ cstr server.protocol ++ ascii "://" ++ cstr server.domain ++
    cstr args.path ++ ascii " HTTP/1.0"

/-- Everything `httpRequest` writes to the client.  Only the `print` of the field name is guarded by the
test of the first data character: the `println` of the length stands outside the `if`. -/
def requestText (server : Server) (args : RequestArgs) (deviceInfo : List UInt8) : List UInt8 :=
  let data := args.data.getD (ascii "{}")
  println (requestHeaderURL server args) ++ println server.hostHeader ++
    println (ascii "User-Agent: ESP32WiFi") ++ println (ascii "Accept: */*") ++
    println (ascii "Cache-Control: no-cache") ++ ascii "DeviceInfo: " ++ println deviceInfo ++
    println (ascii "Connection: close") ++
    if ¬strEq args.httpMethod (ascii "GET") then
      println (ascii "Content-Type: application/json;") ++
        (if (cstr data).head? = some 123 then ascii "Content-Length: " else []) ++
        println (ascii (toString (strlen data))) ++ println [] ++ cstr data
    else println []

/-- `sizeof(requestHeaderURL)`. -/
def requestHeaderSize : ℕ := 500

namespace State

/-- `httpRequest` up to the stored callbacks and the reset of the flags. -/
def register (s : State) (args : RequestArgs) : State :=
  { s.cancelHttpRequest.log (.registered s.requests) with
    callbacks := some ⟨s.requests, args.processCallback⟩
    requestIsPending := true
    requestCompletionStatus := .idle
    lastConnectionTime := 0
    requests := s.requests + 1 }

/-- The connection stands and the request is written. -/
def send (s : State) (args : RequestArgs) (net : Network) : Except Fault State :=
  if (requestHeaderURL s.server args).length < requestHeaderSize then
    .ok { s.register args |>.log (.sent s.requests (requestText s.server args net.deviceInfo)) with
      client := net.response
      lastConnectionTime := net.millis }
  else .error .outOfBounds

/-- `httpRequest`; `onError` is what the error callback does when it is invoked right here. -/
def httpRequest (args : RequestArgs) (net : Network) (onError : State → Except Fault State)
    (s : State) : Except Fault State :=
  if ¬net.wifiConnected then
    onError ((s.register args).log (.invoked s.requests (.error (ascii "No wifi connection"))))
  else if net.connects then s.send args net
  else do
    let s' ← onError
      ((s.register args).log (.invoked s.requests (.error (ascii "Server Not Found"))))
    .ok { s' with requestIsPending := false }

/-- A `CancelHttpRequest` from outside the request manager. -/
def userCancel (s : State) : State := s.cancelHttpRequest.log .cancelled

end State

/-- What a callback does when it is invoked. -/
inductive Script where
  | done
  | request (args : RequestArgs) (net : Network) (onError next : Script)
  | cancel (next : Script)
  | consume (k : ℕ) (next : Script)

/-- A callback running on the globals. -/
def Script.run : Script → State → Except Fault State
  | .done, s => .ok s
  | .request args net onError next, s => do
      let s' ← s.httpRequest args net (fun s' => onError.run s')
      next.run s'
  | .cancel next, s => next.run s.userCancel
  | .consume k next, s => next.run { s with client := s.client.drop k }

/-! ### Polling and delivering -/

/-- What one poll meets: the clock, the Wi-Fi and connection state, the memory of `headerData`, and what
the process callback does if it is invoked. -/
structure Poll where
  millis : UInt32
  wifiConnected : Bool
  connected : Bool
  headerData : ResponseHeaderData
  onProcess : Script

/-- `connectionTimeoutSeconds * 1000L`. -/
def connectionTimeout : UInt32 := 30000

/-- `millis() - lastConnectionTime > connectionTimeoutSeconds * 1000L`; the subtraction wraps. -/
def timedOut (now last : UInt32) : Bool := decide (connectionTimeout < now - last)

namespace State

/-- The part of `checkForHttpResponse` after `pollResponse`. -/
def finishPoll (s : State) (cb : Callbacks) (onProcess : Script) :
    PollResult → Except Fault State
  | .nothing client => .ok { s with client := client }
  | .failed msg _ => .ok (s.giveUp msg)
  | .process headerData client => do
      let s' ← onProcess.run ({ s with client := client }.log (.invoked cb.id (.process headerData)))
      .ok { s' with requestIsPending := false }
  | .success buffer _ =>
      .ok { s with
        responseBuffer := buffer
        client := []
        requestCompletionStatus := .success
        requestIsPending := false }
  | .noBody buffer _ => .ok ({ s with responseBuffer := buffer }.giveUp (ascii "No body content"))

/-- `checkForHttpResponse`. -/
def checkForHttpResponse (s : State) (poll : Poll) : Except Fault State :=
  if ¬s.requestIsPending ∨ s.lastConnectionTime = 0 then .ok s
  else if timedOut poll.millis s.lastConnectionTime then .ok (s.giveUp (ascii "Connection Timeout"))
  else if ¬poll.wifiConnected then .ok (s.giveUp (ascii "Lost Wifi Connection"))
  else if ¬poll.connected then
    if s.lostConnectionTimes + 1 < 25 then
      .ok { s with lostConnectionTimes := s.lostConnectionTimes + 1 }
    else .ok (s.giveUp (ascii "Lost Connection"))
  else
    match s.callbacks with
    | none => .error .nullPointer
    | some cb => do
        let result ← pollResponse cb.process poll.headerData s.responseBuffer s.client
        s.finishPoll cb poll.onProcess result

/-- The flags `handleHttpResponseComplete` resets after the callback. -/
def finishHandle (s : State) : State :=
  { s with requestCompletionStatus := .idle, requestIsPending := false, lostConnectionTimes := 0 }

/-- `handleInvalidResponse(pendingErrorResponse)`. -/
def handleInvalidResponse (s : State) (onError : Script) : Except Fault State :=
  match s.callbacks with
  | none => .error .nullPointer
  | some cb => onError.run (s.log (.invoked cb.id (.error s.pendingErrorResponse.str)))

/-- `httpSuccessCallback(responseBuffer)`. -/
def handleResponse (s : State) (onSuccess : Script) : Except Fault State :=
  match s.callbacks with
  | none => .error .nullPointer
  | some cb => onSuccess.run (s.log (.invoked cb.id (.success s.responseBuffer.str)))

/-- `handleHttpResponseComplete`; the second test reads the status the success callback left. -/
def handleHttpResponseComplete (s : State) (onSuccess onError : Script) : Except Fault State :=
  if s.requestCompletionStatus = .idle then .ok s
  else
    (if s.requestCompletionStatus = .success then s.handleResponse onSuccess else .ok s) >>= fun s₁ =>
    (if s₁.requestCompletionStatus = .error then s₁.handleInvalidResponse onError else .ok s₁) >>=
      fun s₂ => .ok s₂.finishHandle

/-- `httpRequestPending`. -/
def httpRequestPending (s : State) : Bool := s.requestIsPending

end State

/-- A top-level call with everything it meets. -/
inductive Call where
  | httpRequest (args : RequestArgs) (net : Network) (onError : Script)
  | checkForHttpResponse (poll : Poll)
  | handleHttpResponseComplete (onSuccess onError : Script)
  | cancelHttpRequest
  | setupHttpRequestManager

def step (s : State) : Call → Except Fault State
  | .httpRequest args net onError => s.httpRequest args net onError.run
  | .checkForHttpResponse poll => s.checkForHttpResponse poll
  | .handleHttpResponseComplete onSuccess onError =>
      s.handleHttpResponseComplete onSuccess onError
  | .cancelHttpRequest => .ok s.userCancel
  | .setupHttpRequestManager => .ok s.setupHttpRequestManager

/-- The state after a list of calls from program start. -/
def runCalls (calls : List Call) : Except Fault State := FallibleRun.run step .start calls

end EspFirmware
