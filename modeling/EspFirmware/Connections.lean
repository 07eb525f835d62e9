import EspFirmware.PeerIdentity
import EspFirmware.RequestRuns

/-!
# What a connection holds

`start_ssl_client` acquires a socket, parsed certificates and the buffers of a TLS context on its way, and
has an exit behind each step.  `stop` gives back the socket and the buffers, and `start_ssl_client` the
certificates, if it gets to its end; `connect` forgets the socket the client had.  That nothing but
certificates is lost is left to the callers: the request manager stops the client before every `connect`.

* `Dial` — how the steps of one `start_ssl_client` end;
* `startSslClient`, `connect`, `stop` — the client, with what it holds of the device;
* `runMoves` — the order in which a run of the request manager stops and connects the client;
* `Held`, `StopsFirst` — what the client holds, and the order that keeps it so;
* `runCalls_holds` — at every moment of every run at most one socket is open, and what is lost are the
  certificates of the attempts that failed.
-/

namespace EspFirmware

open CString

namespace Tls

/-! ### The source -/

/-- One round of the handshake loop: the handshake is done, has failed, or wants to be called again, at the
time it is asked for then. -/
inductive Shake where
  | done
  | failed
  | want (now : UInt32)

/-- How the steps of one `start_ssl_client` end: `lwip_socket`, `hostByName`, `lwip_connect`, the seed and
the configuration; the parse of the root certificate, `mbedtls_ssl_conf_psk`, the parse of the client's own
certificate and key; the host name, `mbedtls_ssl_setup`, the handshake, `mbedtls_ssl_get_record_expansion`
and `mbedtls_ssl_get_verify_result`. -/
structure Dial where
  descriptor : Option ℕ
  hostFound : Bool
  tcpConnects : Bool
  seeded : Bool
  configured : Bool
  caParsed : Bool
  pskAccepted : Bool
  certParsed : Bool
  keyParsed : Bool
  hostnameSet : Bool
  setUp : Bool
  start : UInt32
  rounds : List Shake
  expansionKnown : Bool
  verified : Bool

/-- What a client is configured with; its own certificate comes with its key, and the pre-shared key with
its identity. -/
structure Settings where
  caCert : Option (List UInt8)
  ownCert : Option (List UInt8 × List UInt8)
  psk : Option (List UInt8 × List UInt8)
  handshakeTimeout : UInt32

/-- What is held: the open descriptors, the contexts that are set up, and the certificates and keys that
have been parsed and not freed. -/
structure Device where
  descriptors : List ℕ
  contexts : ℕ
  parsed : ℕ

/-- A client: `sslclient->socket`, `_connected`, and whether its context is set up. -/
structure Link where
  socket : Option ℕ
  connected : Bool
  setUp : Bool

/-- The pre-shared key, from hexadecimal digits. -/
def decodePsk : List UInt8 → Option (List UInt8)
  | [] => some []
  | [_] => none
  | high :: low :: rest =>
      match parseHexNibble high, parseHexNibble low with
      | some high, some low => (decodePsk rest).map ((high <<< 4 ||| low) :: ·)
      | _, _ => none

/-- `MBEDTLS_PSK_MAX_LEN`. -/
def pskMaxLen : ℕ := 32

/-- The handshake loop; behind the rounds the connection is broken. -/
def shake (timeout start : UInt32) : List Shake → Bool
  | [] => false
  | .done :: _ => true
  | .failed :: _ => false
  | .want now :: rounds => if timeout < now - start then false else shake timeout start rounds

/-- `stop_ssl_socket`. -/
def stopSslSocket (l : Link) (dev : Device) : Link × Device :=
  ({ l with socket := none, setUp := false },
    { dev with
      descriptors := l.socket.elim dev.descriptors dev.descriptors.erase
      contexts := if l.setUp then dev.contexts - 1 else dev.contexts })

/-- `WiFiClientSecure::stop`: `_connected` is reset only with a socket. -/
def stop (l : Link) (dev : Device) : Link × Device :=
  match l.socket with
  | some fd =>
      stopSslSocket { l with socket := none, connected := false }
        { dev with descriptors := dev.descriptors.erase fd }
  | none => stopSslSocket l dev

/-- The authentication `start_ssl_client` sets up: whether it goes on, and how many certificates it has
parsed. -/
def authenticate (settings : Settings) (d : Dial) : Bool × ℕ :=
  match settings.caCert, settings.psk with
  | some _, _ => if d.caParsed then (true, 1) else (false, 0)
  | none, some (_, psKey) =>
      if (cstr psKey).length % 2 ≠ 0 ∨ 2 * pskMaxLen < (cstr psKey).length then (false, 0)
      else if (decodePsk (cstr psKey)).isNone then (false, 0)
      else (d.pskAccepted, 0)
  | none, none => (true, 0)

/-- The client's own certificate and key, likewise. -/
def presentOwn (settings : Settings) (d : Dial) : Bool × ℕ :=
  match settings.ownCert with
  | none => (true, 0)
  | some _ => if ¬d.certParsed then (false, 0) else if ¬d.keyParsed then (false, 1) else (true, 2)

/-- The part of `start_ssl_client` behind the configuration.  A certificate that is not verified closes the
socket, but the `ret` that is returned then is that of the handshake or of the record expansion, and
negative only if the latter is unknown. -/
def negotiate (settings : Settings) (d : Dial) (l : Link) (dev : Device) : Bool × Link × Device :=
  match authenticate settings d with
  | (false, n) => (false, l, { dev with parsed := dev.parsed + n })
  | (true, n) =>
      match presentOwn settings d with
      | (false, m) => (false, l, { dev with parsed := dev.parsed + n + m })
      | (true, m) =>
          if ¬d.hostnameSet ∨ ¬d.setUp then (false, l, { dev with parsed := dev.parsed + n + m })
          else
            let l' := { l with setUp := true }
            let dev' := { dev with contexts := dev.contexts + 1, parsed := dev.parsed + n + m }
            if ¬shake settings.handshakeTimeout d.start d.rounds then (false, l', dev')
            else if ¬d.verified then
              (settings.ownCert.isNone || d.expansionKnown, stopSslSocket l' dev')
            else (true, l', { dev' with parsed := dev'.parsed - n - m })

/-- `start_ssl_client`: whether it returns a value that is not negative. -/
def startSslClient (settings : Settings) (d : Dial) (l : Link) (dev : Device) : Bool × Link × Device :=
  match d.descriptor with
  | none => (false, { l with socket := none }, dev)
  | some fd =>
      if ¬d.hostFound ∨ ¬d.tcpConnects ∨ ¬d.seeded ∨ ¬d.configured then
        (false, { l with socket := some fd }, { dev with descriptors := fd :: dev.descriptors })
      else
        negotiate settings d { l with socket := some fd }
          { dev with descriptors := fd :: dev.descriptors }

/-- What `connect(host, port)` passes on: a pre-shared key comes without certificates. -/
def Settings.passed (settings : Settings) : Settings :=
  match settings.psk with
  | some _ => { settings with caCert := none, ownCert := none }
  | none => settings

/-- `WiFiClientSecure::connect(host, port)`. -/
def connect (settings : Settings) (d : Dial) (l : Link) (dev : Device) : Bool × Link × Device :=
  match startSslClient settings.passed d l dev with
  | (false, l', dev') => (false, stop l' dev')
  | (true, l', dev') => (true, { l' with connected := true }, dev')

/-- `setCACert`. -/
def Settings.setCACert (settings : Settings) (rootCA : List UInt8) : Settings :=
  { settings with caCert := some rootCA }

/-- A call of the client; one that reads or writes may find that the connection has ended. -/
inductive ClientOp where
  | stop
  | connect (d : Dial)
  | transfer (ends : Bool)
  | setCACert (rootCA : List UInt8)

/-- What a call does; the functions that read and write stop a client whose connection has ended. -/
def ClientOp.apply (settings : Settings) (s : Link × Device) : ClientOp → Link × Device
  | .stop => Tls.stop s.1 s.2
  | .connect d => (Tls.connect settings d s.1 s.2).2
  | .transfer ends => if s.1.connected ∧ ends then Tls.stop s.1 s.2 else s
  | .setCACert _ => s

/-- The settings a call leaves. -/
def ClientOp.configure (settings : Settings) : ClientOp → Settings
  | .setCACert rootCA => settings.setCACert rootCA
  | _ => settings

/-- A client as it is constructed. -/
def Link.unused : Link where
  socket := none
  connected := false
  setUp := false

/-- The calls of a client, one after another. -/
def runFrom (settings : Settings) (s : Link × Device) : List ClientOp → Link × Device
  | [] => s
  | op :: ops => runFrom (op.configure settings) (op.apply settings s) ops

/-- The same from its construction on; `settings` are those it is given first. -/
def runOps (settings : Settings) (dev : Device) (ops : List ClientOp) : Link × Device :=
  runFrom settings (.unused, dev) ops

/-- A call that is made on purpose, without what it meets. -/
inductive Move where
  | stop
  | connect
  | setCACert
  deriving DecidableEq

def ClientOp.move : ClientOp → Option Move
  | .stop => some .stop
  | .connect _ => some .connect
  | .transfer _ => none
  | .setCACert _ => some .setCACert

end Tls

open Tls (Move)

/-! ### The request manager's calls of the client -/

/-- What `httpRequest` does to the client, with what the error callback does. -/
def requestMoves (net : Network) (onError : List Move) : List Move :=
  .stop :: if ¬net.wifiConnected then onError else .connect :: if net.connects then [] else onError

def Script.moves : Script → List Move
  | .done => []
  | .request _ net onError next => requestMoves net onError.moves ++ next.moves
  | .cancel next => .stop :: next.moves
  | .consume _ next => next.moves

/-- The part of `checkForHttpResponse` behind `pollResponse`. -/
def resultMoves (onProcess : Script) : PollResult → List Move
  | .nothing _ => []
  | .failed _ _ => [.stop]
  | .process _ _ => onProcess.moves
  | .success _ _ => [.stop]
  | .noBody _ _ => [.stop]

def pollMoves (s : State) (poll : Poll) : List Move :=
  if ¬s.requestIsPending ∨ s.lastConnectionTime = 0 then []
  else if timedOut poll.millis s.lastConnectionTime then [.stop]
  else if ¬poll.wifiConnected then [.stop]
  else if ¬poll.connected then if s.lostConnectionTimes + 1 < 25 then [] else [.stop]
  else
    match s.callbacks with
    | none => []
    | some cb =>
        match pollResponse cb.process poll.headerData s.responseBuffer s.client with
        | .error _ => []
        | .ok result => resultMoves poll.onProcess result

/-- `handleHttpResponseComplete`; the second test reads the status the success callback left. -/
def handleMoves (s : State) (onSuccess onError : Script) : List Move :=
  if s.requestCompletionStatus = .idle then []
  else if s.requestCompletionStatus = .success then
    onSuccess.moves ++
      match s.handleResponse onSuccess with
      | .ok s₁ => if s₁.requestCompletionStatus = .error then onError.moves else []
      | .error _ => []
  else onError.moves

/-- What one top-level call does to the client. -/
def callMoves (s : State) : Call → List Move
  | .httpRequest _ net onError => requestMoves net onError.moves
  | .checkForHttpResponse poll => pollMoves s poll
  | .handleHttpResponseComplete onSuccess onError => handleMoves s onSuccess onError
  | .cancelHttpRequest => [.stop]
  | .setupHttpRequestManager => [.setCACert]

/-- The calls of the client along a run. -/
def runMoves (s : State) : List Call → List Move
  | [] => []
  | call :: calls =>
      callMoves s call ++
        match step s call with
        | .ok s' => runMoves s' calls
        | .error _ => []

/-! ### What is held -/

namespace Tls

/-- The certificates and keys an attempt parses on its way. -/
def parses (settings : Settings) (d : Dial) : ℕ :=
  (authenticate settings d).2 + if (authenticate settings d).1 then (presentOwn settings d).2 else 0

/-- The attempt gets as far as the certificates. -/
def Dial.reached (d : Dial) : Bool :=
  d.descriptor.isSome && d.hostFound && d.tcpConnects && d.seeded && d.configured

/-- From the certificates on every step succeeds, and the server's certificate is verified. -/
def completes (settings : Settings) (d : Dial) : Bool :=
  (authenticate settings d).1 && (presentOwn settings d).1 && d.hostnameSet && d.setUp &&
    shake settings.handshakeTimeout d.start d.rounds && d.verified

/-- The certificates and keys an attempt leaves behind: those it parses, if it does not complete. -/
def lost (settings : Settings) (d : Dial) : ℕ :=
  if d.reached && !completes settings d then parses settings d else 0

def ClientOp.lost (settings : Settings) : ClientOp → ℕ
  | .connect d => Tls.lost settings.passed d
  | _ => 0

/-- The same along a run, each attempt with the settings of its time. -/
def lostBy (settings : Settings) : List ClientOp → ℕ
  | [] => 0
  | op :: ops => op.lost settings + lostBy (op.configure settings) ops

/-- A client on a device that held `dev₀` and has lost `n` certificates and keys since: it holds a socket and
its context, or neither. -/
structure Held (dev₀ : Device) (n : ℕ) (s : Link × Device) : Prop where
  descriptors : s.2.descriptors = s.1.socket.toList ++ dev₀.descriptors
  contexts : s.2.contexts = dev₀.contexts + s.1.socket.toList.length
  parsed : s.2.parsed = dev₀.parsed + n
  setUp : s.1.setUp = s.1.socket.isSome

/-- The same for a `start_ssl_client` that has returned: if it failed, it may have left a socket without a
context. -/
structure Acquired (dev₀ : Device) (n : ℕ) (r : Bool × Link × Device) : Prop where
  descriptors : r.2.2.descriptors = r.2.1.socket.toList ++ dev₀.descriptors
  contexts : r.2.2.contexts = dev₀.contexts + if r.2.1.setUp then 1 else 0
  parsed : r.2.2.parsed = dev₀.parsed + n
  setUp : r.1 = true → r.2.1.setUp = r.2.1.socket.isSome

variable {settings : Settings} {d : Dial} {l : Link} {dev dev₀ : Device} {n : ℕ}

theorem stop_socket (l : Link) (dev : Device) : (stop l dev).1.socket = none := by
  unfold stop
  split <;> rfl

theorem Acquired.stop {b : Bool} (h : Acquired dev₀ n (b, l, dev)) : Held dev₀ n (Tls.stop l dev) := by
  obtain ⟨hd, hc, hp, -⟩ := h
  obtain ⟨socket, connected, setUp⟩ := l
  cases socket <;> cases setUp <;> constructor <;> simp_all [Tls.stop, stopSslSocket]

theorem Held.stop (h : Held dev₀ n (l, dev)) : Held dev₀ n (Tls.stop l dev) := by
  refine Acquired.stop (b := true) ⟨h.descriptors, ?_, h.parsed, fun _ => h.setUp⟩
  have hc : dev.contexts = dev₀.contexts + l.socket.toList.length := h.contexts
  have hs : l.setUp = l.socket.isSome := h.setUp
  rw [hc, hs]
  cases l.socket <;> rfl

/-- Behind the configuration: the socket is there, the context is not. -/
theorem negotiate_acquired (hd : dev.descriptors = l.socket.toList ++ dev₀.descriptors)
    (hc : dev.contexts = dev₀.contexts) (hp : dev.parsed = dev₀.parsed) (hs : l.setUp = false)
    (hl : l.socket.isSome = true) :
    Acquired dev₀ (if completes settings d then 0 else parses settings d)
      (negotiate settings d l dev) := by
  unfold negotiate completes parses
  rcases authenticate settings d with ⟨_ | _, k⟩
  · exact ⟨hd, by simp [hc, hs], by simp [hp], by simp⟩
  · rcases presentOwn settings d with ⟨_ | _, m⟩
    · exact ⟨hd, by simp [hc, hs], by simp [hp, Nat.add_assoc], by simp⟩
    · simp only [Bool.true_and, if_true]
      by_cases hset : d.hostnameSet = true ∧ d.setUp = true
      · simp only [hset]
        cases hshake : shake settings.handshakeTimeout d.start d.rounds with
        | false => exact ⟨hd, by simp [hc], by simp [hp, Nat.add_assoc], by simp⟩
        | true =>
            cases hv : d.verified with
            | false =>
                -- the certificate is refused: the socket and the context go, the parsed ones stay
                refine ⟨?_, by simp [hc, stopSslSocket], by simp [hp, Nat.add_assoc, stopSslSocket],
                  by simp [stopSslSocket]⟩
                obtain ⟨fd, hfd⟩ := Option.isSome_iff_exists.mp hl
                simp [stopSslSocket, hd, hfd]
            | true => exact ⟨hd, by simp [hc], by simp [hp]; omega, by simp [hl]⟩
      · have hunset : ¬d.hostnameSet = true ∨ ¬d.setUp = true := not_and_or.mp hset
        have hnot : (d.hostnameSet && d.setUp) = false := by simpa using hset
        rw [if_pos hunset]
        refine ⟨hd, by simp [hc, hs], ?_, by simp⟩
        simp [hp, hnot, Nat.add_assoc]

theorem startSslClient_acquired (hd : dev.descriptors = dev₀.descriptors)
    (hc : dev.contexts = dev₀.contexts) (hp : dev.parsed = dev₀.parsed) (hs : l.setUp = false) :
    Acquired dev₀ (lost settings d) (startSslClient settings d l dev) := by
  unfold startSslClient lost Dial.reached
  cases hfd : d.descriptor with
  | none => exact ⟨hd, by simp [hc, hs], by simp [hp], by simp⟩
  | some fd =>
      by_cases hearly : d.hostFound = true ∧ d.tcpConnects = true ∧ d.seeded = true ∧ d.configured = true
      · have hnot : ¬(¬d.hostFound = true ∨ ¬d.tcpConnects = true ∨ ¬d.seeded = true ∨
            ¬d.configured = true) := by simp [hearly]
        simp only [hnot, if_false]
        have hn : Acquired dev₀ (if completes settings d then 0 else parses settings d)
            (negotiate settings d { l with socket := some fd }
              { dev with descriptors := fd :: dev.descriptors }) :=
          negotiate_acquired (by simp [hd]) hc hp hs rfl
        convert hn using 1
        cases completes settings d <;> simp [hearly]
      · have hfails : ¬d.hostFound = true ∨ ¬d.tcpConnects = true ∨ ¬d.seeded = true ∨
            ¬d.configured = true := by tauto
        simp only [hfails, if_true]
        refine ⟨by simp [hd], by simp [hc, hs], ?_, by simp⟩
        have hreached : (d.hostFound && d.tcpConnects && d.seeded && d.configured) = false := by
          simp only [Bool.not_eq_true] at hfails
          rcases hfails with h | h | h | h <;> simp [h]
        simp [hp, hreached]

/-- A client that has been stopped may connect. -/
theorem Held.connect (h : Held dev₀ n (l, dev)) (hl : l.socket = none) :
    Held dev₀ (n + lost settings.passed d) (Tls.connect settings d l dev).2 := by
  have hd : dev.descriptors = dev₀.descriptors := by simpa [hl] using h.descriptors
  have hc : dev.contexts = dev₀.contexts := by simpa [hl] using h.contexts
  have hs : l.setUp = false := by simpa [hl] using h.setUp
  have ha : Acquired { dev₀ with parsed := dev₀.parsed + n } (lost settings.passed d)
      (startSslClient settings.passed d l dev) := startSslClient_acquired hd hc h.parsed hs
  unfold Tls.connect
  rcases hstart : startSslClient settings.passed d l dev with ⟨_ | _, l', dev'⟩
  · rw [hstart] at ha
    have hheld := ha.stop
    exact ⟨hheld.descriptors, hheld.contexts, by rw [hheld.parsed, Nat.add_assoc], hheld.setUp⟩
  · rw [hstart] at ha
    have hset : l'.setUp = l'.socket.isSome := ha.setUp rfl
    have hcon := ha.contexts
    refine ⟨ha.descriptors, ?_, by rw [ha.parsed, Nat.add_assoc], hset⟩
    simp only [hset] at hcon ⊢
    rw [hcon]
    cases l'.socket <;> rfl

/-! ### Stopping first -/

/-- Every `connect` follows a `stop`, with only reads and writes in between; `closed` tells whether one has
just been made. -/
def StopsFirst : Bool → List Move → Prop
  | _, [] => True
  | _, .stop :: moves => StopsFirst true moves
  | closed, .connect :: moves => closed = true ∧ StopsFirst false moves
  | closed, .setCACert :: moves => StopsFirst closed moves

theorem StopsFirst.mono {moves : List Move} (h : StopsFirst false moves) (closed : Bool) :
    StopsFirst closed moves := by
  induction moves with
  | nil => trivial
  | cons m moves ih =>
      cases m with
      | stop => exact h
      | connect => exact absurd h.1 (by decide)
      | setCACert => exact ih h

theorem StopsFirst.append {closed : Bool} {moves moves' : List Move} (h : StopsFirst closed moves)
    (h' : StopsFirst false moves') : StopsFirst closed (moves ++ moves') := by
  induction moves generalizing closed with
  | nil => exact h'.mono closed
  | cons m moves ih =>
      cases m with
      | stop => exact ih h
      | connect => exact ⟨h.1, ih h.2⟩
      | setCACert => exact ih h

theorem StopsFirst.of_append {closed : Bool} {moves moves' : List Move}
    (h : StopsFirst closed (moves ++ moves')) : StopsFirst closed moves := by
  induction moves generalizing closed with
  | nil => trivial
  | cons m moves ih =>
      cases m with
      | stop => exact ih h
      | connect => exact ⟨h.1, ih h.2⟩
      | setCACert => exact ih h

/-- The settings after a run. -/
def settingsAfter (settings : Settings) (ops : List ClientOp) : Settings :=
  ops.foldl ClientOp.configure settings

@[simp] theorem settingsAfter_concat (before : List ClientOp) (op : ClientOp) :
    settingsAfter settings (before ++ [op]) = op.configure (settingsAfter settings before) := by
  simp [settingsAfter]

theorem lostBy_concat (before : List ClientOp) (op : ClientOp) :
    lostBy settings (before ++ [op])
      = lostBy settings before + op.lost (settingsAfter settings before) := by
  induction before generalizing settings with
  | nil => simp [lostBy, settingsAfter]
  | cons b before ih =>
      have hafter : settingsAfter settings (b :: before) = settingsAfter (b.configure settings) before :=
        rfl
      rw [List.cons_append, lostBy, lostBy, ih, hafter, Nat.add_assoc]

theorem lostBy_concat_of_ne_connect (before : List ClientOp) (op : ClientOp)
    (h : op.move ≠ some .connect) : lostBy settings (before ++ [op]) = lostBy settings before := by
  rw [lostBy_concat]
  cases op with
  | connect d => exact absurd rfl h
  | stop => rfl
  | transfer ends => rfl
  | setCACert rootCA => rfl

/-- **The rule for the client.**  What `stop` preserves, and `connect` on a client without a socket, holds
along every run that stops first. -/
theorem runFrom_invariant {P : List ClientOp → Link × Device → Prop}
    (hstop : ∀ before s op, op.move ≠ some .connect → P before s → P (before ++ [op]) (stop s.1 s.2))
    (hconnect : ∀ before s d, P before s → s.1.socket = none →
      P (before ++ [.connect d]) (connect (settingsAfter settings before) d s.1 s.2).2)
    (hkeep : ∀ before s op, op.move ≠ some .connect → P before s → P (before ++ [op]) s)
    {closed : Bool} {before : List ClientOp} {s : Link × Device} (ops : List ClientOp)
    (h : StopsFirst closed (ops.filterMap ClientOp.move)) (hs : P before s)
    (hclosed : closed = true → s.1.socket = none) :
    P (before ++ ops) (runFrom (settingsAfter settings before) s ops) := by
  induction ops generalizing closed before s with
  | nil => simpa [runFrom] using hs
  | cons op ops ih =>
      rw [List.append_cons, runFrom, ← settingsAfter_concat]
      cases op with
      | stop => exact ih h (hstop before s .stop (by decide) hs) fun _ => stop_socket s.1 s.2
      | connect d => exact ih h.2 (hconnect before s d hs (hclosed h.1)) (by simp)
      | transfer ends =>
          by_cases hends : s.1.connected = true ∧ ends = true
          · have happly : ClientOp.apply (settingsAfter settings before) s (.transfer ends)
                = stop s.1 s.2 := if_pos hends
            rw [happly]
            exact ih h (hstop before s _ nofun hs) fun _ => stop_socket s.1 s.2
          · have happly : ClientOp.apply (settingsAfter settings before) s (.transfer ends) = s :=
              if_neg hends
            rw [happly]
            exact ih h (hkeep before s _ nofun hs) hclosed
      | setCACert rootCA =>
          have hmove : (ClientOp.setCACert rootCA).move ≠ some .connect := by simp [ClientOp.move]
          exact ih h (hkeep before s _ hmove hs) hclosed

theorem held_runOps {ops : List ClientOp} (h : StopsFirst false (ops.filterMap ClientOp.move))
    (dev : Device) :
    Held dev (lostBy settings ops) (runOps settings dev ops) := by
  have hstart : Held dev (lostBy settings []) (.unused, dev) := ⟨rfl, rfl, rfl, rfl⟩
  refine runFrom_invariant (P := fun before s => Held dev (lostBy settings before) s) ?_ ?_ ?_ ops h hstart
    (by simp)
  · intro before s op hop hs
    rw [lostBy_concat_of_ne_connect before op hop]
    exact hs.stop
  · intro before s d hs hnone
    rw [lostBy_concat]
    exact hs.connect hnone
  · intro before s op hop hs
    rw [lostBy_concat_of_ne_connect before op hop]
    exact hs

/-! ### When the client takes itself for connected -/

theorem negotiate_connected :
    (negotiate settings d l dev).2.1.connected = l.connected := by
  unfold negotiate
  split
  · rfl
  · split
    · rfl
    · simp only
      split_ifs <;> rfl

theorem startSslClient_connected :
    (startSslClient settings d l dev).2.1.connected = l.connected := by
  unfold startSslClient
  split
  · rfl
  · split_ifs
    · rfl
    · exact negotiate_connected

/-- Only a certificate that is not verified closes the socket before `start_ssl_client` returns. -/
theorem negotiate_socket (hv : d.verified = true) :
    (negotiate settings d l dev).2.1.socket = l.socket := by
  unfold negotiate
  split
  · rfl
  · split
    · rfl
    · simp only [hv, not_true, if_false]
      split_ifs <;> rfl

theorem startSslClient_socket (hv : d.verified = true)
    (h : (startSslClient settings d l dev).1 = true) :
    (startSslClient settings d l dev).2.1.socket.isSome = true := by
  unfold startSslClient at h ⊢
  cases hfd : d.descriptor with
  | none => simp [hfd] at h
  | some fd =>
      simp only [hfd] at h ⊢
      split_ifs at h ⊢
      rw [negotiate_socket hv]
      rfl

theorem stop_connected (l : Link) (dev : Device) :
    (stop l dev).1.connected = (l.connected && l.socket.isNone) := by
  unfold stop
  cases hl : l.socket with
  | none => simp [stopSslSocket]
  | some fd => simp [stopSslSocket]

theorem connect_connected (h : l.connected = false) (hv : d.verified = true) :
    (connect settings d l dev).2.1.connected = (connect settings d l dev).2.1.socket.isSome := by
  have hc : (startSslClient settings.passed d l dev).2.1.connected = l.connected :=
    startSslClient_connected
  have hs : (startSslClient settings.passed d l dev).1 = true →
      (startSslClient settings.passed d l dev).2.1.socket.isSome = true := startSslClient_socket hv
  unfold connect
  rcases hstart : startSslClient settings.passed d l dev with ⟨_ | _, l', dev'⟩
  · have hl' : l'.connected = false := by
      rw [hstart] at hc
      exact hc.trans h
    simp [stop_socket, stop_connected, hl']
  · rw [hstart] at hs
    exact (hs rfl).symm

theorem connected_runOps {ops : List ClientOp} (h : StopsFirst false (ops.filterMap ClientOp.move))
    (dev : Device) : (∀ d, .connect d ∈ ops → d.verified = true) →
      (runOps settings dev ops).1.connected = (runOps settings dev ops).1.socket.isSome := by
  have hstart : (∀ d, .connect d ∈ ([] : List ClientOp) → d.verified = true) →
      (Link.unused, dev).1.connected = (Link.unused, dev).1.socket.isSome := fun _ => rfl
  refine runFrom_invariant (P := fun before s => (∀ d, .connect d ∈ before → d.verified = true) →
    s.1.connected = s.1.socket.isSome) ?_ ?_ ?_ ops h hstart (by simp)
  · intro before s op _ hs hv
    have hs' := hs fun d hd => hv d (List.mem_append_left _ hd)
    rw [stop_socket, stop_connected, hs']
    cases s.1.socket <;> rfl
  · intro before s d hs hnone hv
    have hs' := hs fun d hd => hv d (List.mem_append_left _ hd)
    rw [hnone] at hs'
    exact connect_connected hs' (hv d (by simp))
  · intro before s op _ hs hv
    exact hs fun d hd => hv d (List.mem_append_left _ hd)

end Tls

/-! ### Runs of the request manager -/

open Tls

theorem requestMoves_stopsFirst (net : Network) {onError : List Move}
    (h : StopsFirst false onError) : StopsFirst false (requestMoves net onError) := by
  unfold requestMoves
  split_ifs
  · exact ⟨rfl, trivial⟩
  · exact ⟨rfl, h⟩
  · exact h.mono true

theorem Script.moves_stopsFirst (script : Script) : StopsFirst false script.moves := by
  induction script with
  | done => trivial
  | request args net onError next ihError ihNext =>
      exact (requestMoves_stopsFirst net ihError).append ihNext
  | cancel next ih => exact ih.mono true
  | consume k next ih => exact ih

theorem resultMoves_stopsFirst (onProcess : Script) (result : PollResult) :
    StopsFirst false (resultMoves onProcess result) := by
  cases result with
  | process headerData client => exact onProcess.moves_stopsFirst
  | _ => trivial

theorem pollMoves_stopsFirst (s : State) (poll : Poll) : StopsFirst false (pollMoves s poll) := by
  unfold pollMoves
  split_ifs
  any_goals trivial
  split
  · trivial
  · split
    · trivial
    · exact resultMoves_stopsFirst _ _

theorem handleMoves_stopsFirst (s : State) (onSuccess onError : Script) :
    StopsFirst false (handleMoves s onSuccess onError) := by
  unfold handleMoves
  split_ifs
  · trivial
  · refine onSuccess.moves_stopsFirst.append ?_
    split
    · split_ifs
      · exact onError.moves_stopsFirst
      · trivial
    · trivial
  · exact onError.moves_stopsFirst

theorem callMoves_stopsFirst (s : State) (call : EspFirmware.Call) :
    StopsFirst false (callMoves s call) := by
  cases call with
  | httpRequest args net onError => exact requestMoves_stopsFirst net onError.moves_stopsFirst
  | checkForHttpResponse poll => exact pollMoves_stopsFirst s poll
  | handleHttpResponseComplete onSuccess onError => exact handleMoves_stopsFirst s onSuccess onError
  | cancelHttpRequest => trivial
  | setupHttpRequestManager => trivial

/-- The request manager stops the client before every `connect`. -/
theorem runMoves_stopsFirst (s : State) (calls : List EspFirmware.Call) :
    StopsFirst false (runMoves s calls) := by
  induction calls generalizing s with
  | nil => trivial
  | cons call calls ih =>
      refine (callMoves_stopsFirst s call).append ?_
      split
      · exact ih _
      · trivial

/-- **What a connection holds.**  Whatever a run of the request manager does, whatever certificate its setup
installs, whatever its attempts to connect meet and whatever is read and written in between: at every moment
the sockets and contexts of the device are those it had, and at most one more of each, the client's own.  The
certificates and keys that stay behind are those of the attempts that did not complete, and with verified
certificates the client takes itself for connected exactly while it has a socket. -/
theorem runCalls_holds (settings : Settings) (dev : Device) (calls : List EspFirmware.Call)
    (ops : List ClientOp) {before : List ClientOp} (hops : ops.filterMap ClientOp.move = runMoves .start calls)
    (hbefore : before <+: ops) :
    (runOps settings dev before).2.descriptors
        = (runOps settings dev before).1.socket.toList ++ dev.descriptors ∧
      (runOps settings dev before).2.contexts
        = dev.contexts + (runOps settings dev before).1.socket.toList.length ∧
      (runOps settings dev before).2.parsed = dev.parsed + lostBy settings before ∧
      ((∀ d, .connect d ∈ before → d.verified = true) →
        (runOps settings dev before).1.connected
          = (runOps settings dev before).1.socket.isSome) := by
  obtain ⟨after, rfl⟩ := hbefore
  have hfirst : StopsFirst false (before.filterMap ClientOp.move) := by
    have hrun := runMoves_stopsFirst .start calls
    rw [← hops, List.filterMap_append] at hrun
    exact hrun.of_append
  have hheld : Held dev (lostBy settings before) (runOps settings dev before) := held_runOps hfirst dev
  exact ⟨hheld.descriptors, hheld.contexts, hheld.parsed,
    connected_runOps hfirst dev⟩

/-- An attempt whose handshake the server refuses. -/
def Tls.Dial.refused : Dial where
  descriptor := some 54
  hostFound := true
  tcpConnects := true
  seeded := true
  configured := true
  caParsed := true
  pskAccepted := true
  certParsed := true
  keyParsed := true
  hostnameSet := true
  setUp := true
  start := 0
  rounds := [.want 10, .failed]
  expansionKnown := true
  verified := true

/-- The constructor's settings: there are no certificates. -/
def Tls.Settings.new : Settings where
  caCert := none
  ownCert := none
  psk := none
  handshakeTimeout := 120000

/-- A server that cannot be connected to. -/
def Network.refused : Network := { Network.reached [] with connects := false }

/-- The setup between two requests: the first is refused without a certificate, the second loses its root
certificate. -/
theorem runCalls_holds_refused :
    runMoves .start [.httpRequest getRequest .refused .done, .setupHttpRequestManager,
        .httpRequest getRequest .refused .done] = [.stop, .connect, .setCACert, .stop, .connect] ∧
      (runOps .new ⟨[], 0, 0⟩ [.stop, .connect .refused, .setCACert (ascii "-----BEGIN CERTIFICATE-----"),
        .stop, .connect .refused]).2.parsed = 1 :=
  ⟨rfl, (runCalls_holds .new ⟨[], 0, 0⟩
    [.httpRequest getRequest .refused .done, .setupHttpRequestManager,
      .httpRequest getRequest .refused .done]
    [.stop, .connect .refused, .setCACert (ascii "-----BEGIN CERTIFICATE-----"), .stop,
      .connect .refused] rfl (List.prefix_refl _)).2.2.1⟩

end EspFirmware
