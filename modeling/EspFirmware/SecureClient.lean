import EspFirmware.Lib.Simulation
import EspFirmware.Stream

/-!
# The secure client over its TLS session

Everything above this file reads from a list of arrivals.  The code reads from `WiFiClientSecure`, which
reads whole TLS records through mbedTLS and keeps a peeked byte in `_peek`.  Here is that client, and in
what sense the list of arrivals stands for it.

* `Session` — what mbedTLS holds of the current record, and what comes next on the socket;
* `Client` — `available`, `read`, `peek` and the `Stream` loops over them, as the source has them;
* `run_delivers` — whatever is called, the bytes handed out are the bytes received, in order;
* `answers_eq_stream` — every run of the client is a run of some list of arrivals, with the same answers,
  as long as the peer does not close the connection behind a byte that was peeked and not read.
-/

namespace EspFirmware.Tls

/-! ### mbedTLS -/

/-- What comes next on the socket: a record of application data, nothing yet, or an error (a negative code
other than `MBEDTLS_ERR_SSL_WANT_READ` and `MBEDTLS_ERR_SSL_WANT_WRITE`), among them the close alert. -/
inductive Incoming where
  | record (b : UInt8) (bs : List UInt8)
  | wait (long : Bool)
  | fail (code : ℕ)
  deriving Repr, DecidableEq

structure Session where
  current : List UInt8
  incoming : List Incoming
  deriving Repr, DecidableEq

/-- The results of `mbedtls_ssl_read`. -/
inductive SslRead where
  | bytes (bs : List UInt8)
  | wantRead
  | error (code : ℕ)
  deriving Repr, DecidableEq

/-- `mbedtls_ssl_read`: at most `len` bytes of the current record, or of the next one. -/
def Session.sslRead (len : ℕ) : Session → SslRead × Session
  | ⟨b :: bs, rest⟩ => (.bytes ((b :: bs).take len), ⟨(b :: bs).drop len, rest⟩)
  | ⟨[], .record b bs :: rest⟩ => (.bytes ((b :: bs).take len), ⟨(b :: bs).drop len, rest⟩)
  | ⟨[], .wait _ :: rest⟩ => (.wantRead, ⟨[], rest⟩)
  | ⟨[], .fail code :: rest⟩ => (.error code, ⟨[], .fail code :: rest⟩)
  | ⟨[], []⟩ => (.wantRead, ⟨[], []⟩)

/-- `data_to_read`: a read of no bytes, then `mbedtls_ssl_get_bytes_avail`. -/
def Session.dataToRead (s : Session) : ℤ × Session :=
  match s.sslRead 0 with
  | (.error code, s') => (-(code + 1), s')
  | (_, s') => (s'.current.length, s')

/-! ### The client -/

/-- `WiFiClientSecure`.  `_connected` holds exactly while there is a session: `connect` makes both, `stop`
ends both. -/
structure Client where
  peeked : Option UInt8
  session : Option Session
  deriving Repr, DecidableEq

namespace Client

/-- `stop`. -/
def stop : Client := ⟨none, none⟩

/-- `available`. -/
def available (c : Client) : ℤ × Client :=
  let peeked : ℤ := if c.peeked.isSome then 1 else 0
  match c.session with
  | none => (peeked, c)
  | some s =>
      if s.dataToRead.1 < 0 then (if c.peeked.isSome then peeked else s.dataToRead.1, stop)
      else (s.dataToRead.1 + peeked, { c with session := some s.dataToRead.2 })

/-- `get_ssl_receive`, and `stop` after any negative result. -/
def receive (size : ℕ) (c : Client) : Option (List UInt8) × Client :=
  match c.session with
  | none => (none, stop)
  | some s =>
      match s.sslRead size with
      | (.bytes bs, s') => (some bs, { c with session := some s' })
      | (_, _) => (none, stop)

/-- `read(buf, size)`, after its call of `available`; `none` is a negative result. -/
def readAvailable (size : ℕ) (avail : ℤ) (c : Client) : Option (List UInt8) × Client :=
  if avail ≤ 0 then (none, c)
  else if size = 0 then (some [], c)
  else
    match c.peeked with
    | none => c.receive size
    | some b =>
        if size - 1 = 0 ∨ avail - 1 = 0 then (some [b], { c with peeked := none })
        else
          match receive (size - 1) { c with peeked := none } with
          | (none, c') => (some [b], c')
          | (some bs, c') => (some (b :: bs), c')

/-- `read(buf, size)`. -/
def readBuf (size : ℕ) (c : Client) : Option (List UInt8) × Client :=
  c.available.2.readAvailable size c.available.1

/-- `connected`. -/
def connected (c : Client) : Bool × Client :=
  ((c.readBuf 0).2.session.isSome, (c.readBuf 0).2)

/-- `read()`; the local byte it returns is initialised with `-1`. -/
def read (c : Client) : Option UInt8 × Client :=
  match c.readBuf 1 with
  | (none, c') => (none, c')
  | (some bs, c') => (some (bs.headD 0xFF), c')

/-- The client meets a pause that is over before the stream timeout. -/
def shortWait (c : Client) : Bool :=
  match c.peeked, c.session with
  | none, some ⟨[], .wait false :: _⟩ => true
  | _, _ => false

/-- What is still to come on the socket. -/
def events (c : Client) : ℕ := (c.session.map (·.incoming.length)).getD 0

theorem events_read_lt {c : Client} (h : c.shortWait = true) : c.read.2.events < c.events := by
  obtain ⟨peeked, session⟩ := c
  unfold shortWait at h
  split at h
  · simp_all [read, readBuf, available, readAvailable, Session.dataToRead, Session.sslRead, events]
  · cases h

/-- `Stream::timedRead`. -/
def timedRead (c : Client) : Option UInt8 × Client :=
  match c.read.1 with
  | some b => (some b, c.read.2)
  | none => if _h : c.shortWait = true then timedRead c.read.2 else (none, c.read.2)
termination_by c.events
decreasing_by exact events_read_lt _h

/-- `peek`. -/
def peek (c : Client) : Option UInt8 × Client :=
  match c.peeked with
  | some b => (some b, c)
  | none => (c.timedRead.1, { c.timedRead.2 with peeked := c.timedRead.1 })

/-- `Stream::readBytes`. -/
def readBytes : ℕ → Client → List UInt8 × Client
  | 0, c => ([], c)
  | n + 1, c =>
      match c.timedRead with
      | (none, c') => ([], c')
      | (some b, c') => (b :: (readBytes n c').1, (readBytes n c').2)

/-- `Stream::readBytesUntil`. -/
def readBytesUntil (terminator : UInt8) : ℕ → Client → List UInt8 × Client
  | 0, c => ([], c)
  | n + 1, c =>
      match c.timedRead with
      | (none, c') => ([], c')
      | (some b, c') =>
          if b = terminator then ([], c')
          else (b :: (readBytesUntil terminator n c').1, (readBytesUntil terminator n c').2)

/-! ### The six shapes of a client -/

/-- A client by what its session meets next. -/
@[elab_as_elim]
theorem shape {motive : Client → Prop} (freed : ∀ p, motive ⟨p, none⟩)
    (buffered : ∀ p b bs rest, motive ⟨p, some ⟨b :: bs, rest⟩⟩)
    (record : ∀ p b bs rest, motive ⟨p, some ⟨[], .record b bs :: rest⟩⟩)
    (wait : ∀ p long rest, motive ⟨p, some ⟨[], .wait long :: rest⟩⟩)
    (fail : ∀ p code rest, motive ⟨p, some ⟨[], .fail code :: rest⟩⟩)
    (idle : ∀ p, motive ⟨p, some ⟨[], []⟩⟩) (c : Client) : motive c := by
  obtain ⟨p, session⟩ := c
  cases session with
  | none => exact freed p
  | some s =>
      obtain ⟨current, incoming⟩ := s
      cases current with
      | cons b bs => exact buffered p b bs incoming
      | nil =>
          cases incoming with
          | nil => exact idle p
          | cons e rest =>
              cases e with
              | record b bs => exact record p b bs rest
              | wait long => exact wait p long rest
              | fail code => exact fail p code rest

variable {p : Option UInt8} {b : UInt8} {bs : List UInt8} {rest : List Incoming} {long : Bool} {code n : ℕ}

/-- `_peek >= 0`, as a number. -/
def held (p : Option UInt8) : ℤ := if p.isSome then 1 else 0

@[simp] theorem available_freed : available ⟨p, none⟩ = (held p, ⟨p, none⟩) := rfl

@[simp] theorem available_buffered :
    available ⟨p, some ⟨b :: bs, rest⟩⟩ = (bs.length + 1 + held p, ⟨p, some ⟨b :: bs, rest⟩⟩) := by
  have hnot : ¬((bs.length : ℤ) + 1 < 0) := by omega
  simp [available, Session.dataToRead, Session.sslRead, held, hnot]

@[simp] theorem available_record :
    available ⟨p, some ⟨[], .record b bs :: rest⟩⟩
      = (bs.length + 1 + held p, ⟨p, some ⟨b :: bs, rest⟩⟩) := by
  have hnot : ¬((bs.length : ℤ) + 1 < 0) := by omega
  simp [available, Session.dataToRead, Session.sslRead, held, hnot]

@[simp] theorem available_wait :
    available ⟨p, some ⟨[], .wait long :: rest⟩⟩ = (held p, ⟨p, some ⟨[], rest⟩⟩) := by
  simp [available, Session.dataToRead, Session.sslRead, held]

@[simp] theorem available_idle : available ⟨p, some ⟨[], []⟩⟩ = (held p, ⟨p, some ⟨[], []⟩⟩) := by
  simp [available, Session.dataToRead, Session.sslRead, held]

@[simp] theorem available_fail :
    available ⟨p, some ⟨[], .fail code :: rest⟩⟩ = (if p.isSome then 1 else (-(code + 1) : ℤ), stop) := by
  have hneg : -((code : ℤ) + 1) < 0 := by omega
  simp only [available, Session.dataToRead, Session.sslRead, hneg, if_true]
  cases p <;> rfl

/-! ### Everything that was received -/

/-- The arrivals that stand for what comes on the socket; nothing is read behind an error. -/
def arrivals : List Incoming → List Arrival
  | [] => []
  | .record b bs :: rest => .byte b :: (bs.map .byte ++ arrivals rest)
  | .wait long :: rest => .pause long :: arrivals rest
  | .fail code :: _ => [.closed code]

/-- The arrivals that stand for a client. -/
def stream (c : Client) : List Arrival :=
  c.peeked.toList.map .byte ++
    match c.session with
    | none => []
    | some s => s.current.map .byte ++ arrivals s.incoming

/-- The bytes a client has received and not handed out. -/
def received (c : Client) : List UInt8 := Arrival.bytesOf c.stream

@[simp] theorem received_freed : received ⟨p, none⟩ = p.toList := by
  simp [received, stream]

@[simp] theorem received_session {s : Session} : received ⟨p, some s⟩
    = p.toList ++ (s.current ++ Arrival.bytesOf (arrivals s.incoming)) := by
  simp [received, stream]

@[simp] theorem received_stop : received stop = [] := rfl

/-! ### What a read does -/

@[simp] theorem read_freed : read ⟨none, none⟩ = (none, ⟨none, none⟩) := rfl

@[simp] theorem read_buffered :
    read ⟨none, some ⟨b :: bs, rest⟩⟩ = (some b, ⟨none, some ⟨bs, rest⟩⟩) := by
  have hnot : ¬((bs.length : ℤ) + 1 ≤ 0) := by omega
  simp [read, readBuf, readAvailable, receive, Session.sslRead, held, hnot]

@[simp] theorem read_record :
    read ⟨none, some ⟨[], .record b bs :: rest⟩⟩ = (some b, ⟨none, some ⟨bs, rest⟩⟩) := by
  have hnot : ¬((bs.length : ℤ) + 1 ≤ 0) := by omega
  simp [read, readBuf, readAvailable, receive, Session.sslRead, held, hnot]

@[simp] theorem read_wait :
    read ⟨none, some ⟨[], .wait long :: rest⟩⟩ = (none, ⟨none, some ⟨[], rest⟩⟩) := by
  simp [read, readBuf, readAvailable, held]

@[simp] theorem read_idle : read ⟨none, some ⟨[], []⟩⟩ = (none, ⟨none, some ⟨[], []⟩⟩) := by
  simp [read, readBuf, readAvailable, held]

@[simp] theorem read_fail : read ⟨none, some ⟨[], .fail code :: rest⟩⟩ = (none, stop) := by
  have hle : (-(code + 1) : ℤ) ≤ 0 := by omega
  simp only [read, readBuf, readAvailable, available_fail, Option.isSome_none, Bool.false_eq_true,
    if_false, if_pos hle]

/-- The peer has closed, or the session has failed, behind a byte that was peeked. -/
def Drops (c : Client) : Prop :=
  ∃ b code rest, c = ⟨some b, some ⟨[], .fail code :: rest⟩⟩

/-- **A peeked byte is lost with its connection**: `available` stops the client, which clears `_peek`, and
still answers 1. -/
theorem read_drops {c : Client} (h : c.Drops) : c.read = (none, stop) := by
  obtain ⟨b, code, rest, rfl⟩ := h
  simp [read, readBuf, readAvailable, receive, stop]

/-- Else a peeked byte counts as one that is there. -/
theorem available_peeked {c : Client} (hp : c.peeked = some b) (h : ¬c.Drops) :
    0 < c.available.1 ∧ c.available.2.peeked = some b := by
  induction c using shape with
  | fail p code rest =>
      obtain rfl : p = some b := hp
      exact absurd ⟨b, code, rest, rfl⟩ h
  | buffered p =>
      obtain rfl : p = some b := hp
      exact ⟨by simp [held]; omega, by simp⟩
  | record p =>
      obtain rfl : p = some b := hp
      exact ⟨by simp [held]; omega, by simp⟩
  | _ =>
      obtain rfl := hp
      simp [held]

/-- It is what is read next, and the look for more behind it may have used up a pause. -/
theorem read_peeked {c : Client} (hp : c.peeked = some b) (h : ¬c.Drops) :
    c.read = (some b, ⟨none, c.available.2.session⟩) := by
  obtain ⟨hpos, hpeeked⟩ := available_peeked hp h
  simp only [read, readBuf, readAvailable, hpeeked, if_neg (Int.not_le.mpr hpos), Nat.sub_self, true_or,
    if_true, Nat.one_ne_zero, if_false]
  rfl

/-! ### What a timed read does -/

@[simp] theorem timedRead_peeked {c : Client} (hp : c.peeked = some b) (h : ¬c.Drops) :
    c.timedRead = (some b, ⟨none, c.available.2.session⟩) := by
  rw [timedRead, read_peeked hp h]

@[simp] theorem timedRead_freed : timedRead ⟨none, none⟩ = (none, ⟨none, none⟩) := by
  rw [timedRead]
  simp [shortWait]

@[simp] theorem timedRead_buffered :
    timedRead ⟨none, some ⟨b :: bs, rest⟩⟩ = (some b, ⟨none, some ⟨bs, rest⟩⟩) := by
  rw [timedRead]
  simp

@[simp] theorem timedRead_record :
    timedRead ⟨none, some ⟨[], .record b bs :: rest⟩⟩ = (some b, ⟨none, some ⟨bs, rest⟩⟩) := by
  rw [timedRead]
  simp

@[simp] theorem timedRead_shortWait :
    timedRead ⟨none, some ⟨[], .wait false :: rest⟩⟩ = timedRead ⟨none, some ⟨[], rest⟩⟩ := by
  rw [timedRead]
  simp [shortWait]

@[simp] theorem timedRead_longWait :
    timedRead ⟨none, some ⟨[], .wait true :: rest⟩⟩ = (none, ⟨none, some ⟨[], rest⟩⟩) := by
  rw [timedRead]
  simp [shortWait]

@[simp] theorem timedRead_fail : timedRead ⟨none, some ⟨[], .fail code :: rest⟩⟩ = (none, stop) := by
  rw [timedRead]
  simp [shortWait]

@[simp] theorem timedRead_idle : timedRead ⟨none, some ⟨[], []⟩⟩ = (none, ⟨none, some ⟨[], []⟩⟩) := by
  rw [timedRead]
  simp [shortWait]

/-! ### Nothing invented, doubled or out of order -/

/-- A call hands out `out`: it is accounted for, or the client was stopped and hands out nothing more. -/
structure Gives (c : Client) (out : List UInt8) (c' : Client) : Prop where
  stopped : c = stop → c' = stop
  account : c.received = out ++ c'.received ∨ c' = stop ∧ out <+: c.received

namespace Gives

variable {c c₁ c₂ : Client} {out out₁ out₂ : List UInt8}

theorem refl (c : Client) : Gives c [] c := ⟨id, .inl rfl⟩

theorem trans (h₁ : Gives c out₁ c₁) (h₂ : Gives c₁ out₂ c₂) : Gives c (out₁ ++ out₂) c₂ := by
  refine ⟨fun h => h₂.stopped (h₁.stopped h), ?_⟩
  rcases h₁.account with he₁ | ⟨hs₁, hp₁⟩
  · rcases h₂.account with he₂ | ⟨hs₂, hp₂⟩
    · exact .inl (by rw [he₁, he₂, List.append_assoc])
    · exact .inr ⟨hs₂, by rw [he₁]; exact (List.prefix_append_right_inj out₁).mpr hp₂⟩
  · -- a client that was stopped has nothing to hand out
    have hnil : out₂ = [] := by
      rw [hs₁] at h₂
      rcases h₂.account with he₂ | ⟨-, hp₂⟩
      · exact (List.append_eq_nil_iff.mp he₂.symm).1
      · exact List.prefix_nil.mp hp₂
    exact .inr ⟨h₂.stopped hs₁, by rw [hnil, List.append_nil]; exact hp₁⟩

end Gives

/-- From a client with nothing peeked, `read()` and `timedRead` hand out the byte they return. -/
theorem timedRead_account (incoming : List Incoming) (current : List UInt8) :
    (timedRead ⟨none, some ⟨current, incoming⟩⟩).2.peeked = none ∧
      received ⟨none, some ⟨current, incoming⟩⟩
        = (timedRead ⟨none, some ⟨current, incoming⟩⟩).1.toList ++
            (timedRead ⟨none, some ⟨current, incoming⟩⟩).2.received := by
  cases current with
  | cons b bs => simp
  | nil =>
      induction incoming with
      | nil => simp
      | cons e rest ih =>
          cases e with
          | record b bs => simp [arrivals, Arrival.bytesOf]
          | fail code => simp [arrivals, Arrival.bytesOf, stop]
          | wait long =>
              cases long with
              | true => simp [arrivals, Arrival.bytesOf]
              | false => simpa [arrivals, Arrival.bytesOf] using ih

theorem timedRead_peeked_none (c : Client) : c.timedRead.2.peeked = none := by
  by_cases hdrops : c.Drops
  · rw [timedRead, read_drops hdrops]
    obtain ⟨b, code, rest, rfl⟩ := hdrops
    rfl
  obtain ⟨p, session⟩ := c
  cases p with
  | some b => rw [timedRead_peeked rfl hdrops]
  | none =>
      cases session with
      | none => simp
      | some s => exact (timedRead_account s.incoming s.current).1

/-- The bytes `readBytesUntil` takes from the client, the terminator among them. -/
def taken (terminator : UInt8) : ℕ → Client → List UInt8
  | 0, _ => []
  | n + 1, c =>
      match c.timedRead with
      | (none, _) => []
      | (some b, c') => if b = terminator then [b] else b :: taken terminator n c'

end Client

/-! ### Runs -/

/-- A call that a list of arrivals answers too. -/
inductive Call where
  | available
  | read
  | peek
  | readBytes (n : ℕ)
  | readBytesUntil (terminator : UInt8) (n : ℕ)
  deriving Repr, DecidableEq

/-- A call of the client. -/
inductive Op where
  | call (call : Call)
  | connected
  | readBuf (size : ℕ)
  | stop
  deriving Repr, DecidableEq

/-- The client after a call. -/
def Client.next (c : Client) : Op → Client
  | .call .available => c.available.2
  | .call .read => c.read.2
  | .call .peek => c.peek.2
  | .call (.readBytes n) => (c.readBytes n).2
  | .call (.readBytesUntil terminator n) => (c.readBytesUntil terminator n).2
  | .connected => c.connected.2
  | .readBuf size => (c.readBuf size).2
  | .stop => .stop

/-- The bytes a call takes from the client; all are handed out, but for a terminator. -/
def Client.takes (c : Client) : Op → List UInt8
  | .call .read => c.read.1.toList
  | .call (.readBytes n) => (c.readBytes n).1
  | .call (.readBytesUntil terminator n) => c.taken terminator n
  | .readBuf size => (c.readBuf size).1.getD []
  | _ => []

def Client.run (c : Client) (ops : List Op) : Client := ops.foldl Client.next c

/-- The bytes a run takes from the client. -/
def Client.delivered : Client → List Op → List UInt8
  | _, [] => []
  | c, op :: ops => c.takes op ++ (c.next op).delivered ops

/-- `s` is `t` without some of its pauses. -/
inductive Thins : List Arrival → List Arrival → Prop
  | nil : Thins [] []
  | keep (a : Arrival) {s t : List Arrival} : Thins s t → Thins (a :: s) (a :: t)
  | drop (long : Bool) {s t : List Arrival} : Thins s t → Thins s (.pause long :: t)

namespace Thins

variable {s t : List Arrival} {b : UInt8}

theorem refl (s : List Arrival) : Thins s s := by
  induction s with
  | nil => exact .nil
  | cons a s ih => exact .keep a ih

theorem eq_nil (h : Thins s []) : s = [] := by
  cases h
  rfl

/-- A byte stays where it is. -/
theorem of_byte (h : Thins s (.byte b :: t)) : ∃ s', s = .byte b :: s' ∧ Thins s' t := by
  cases h with
  | keep _ h => exact ⟨_, rfl, h⟩

theorem bytesOf_eq (h : Thins s t) : Arrival.bytesOf s = Arrival.bytesOf t := by
  induction h with
  | nil => rfl
  | keep a _ ih => cases a <;> simp [Arrival.bytesOf, ih]
  | drop long _ ih => simpa [Arrival.bytesOf] using ih

end Thins

namespace Client

variable {b : UInt8} {t : List Arrival}

/-- The look for more behind a peeked byte uses up at most a pause. -/
theorem stream_available {c : Client} (hp : c.peeked = some b) (h : ¬c.Drops)
    (ht : Thins t (stream ⟨none, c.available.2.session⟩)) : Thins (.byte b :: t) c.stream := by
  induction c using shape with
  | fail p code rest =>
      obtain rfl : p = some b := hp
      exact absurd ⟨b, code, rest, rfl⟩ h
  | wait p long rest =>
      obtain rfl : p = some b := hp
      simp only [available_wait] at ht
      exact .keep _ (.drop long ht)
  | _ =>
      obtain rfl := hp
      refine .keep _ ?_
      simpa [stream, arrivals] using ht

theorem sign_available_byte (b : UInt8) (s : List Arrival) (n : ℕ) :
    (Arrival.available (.byte b :: s)).1.sign = ((n : ℤ) + 1 + held none).sign := by
  rw [Int.sign_eq_one_of_pos, Int.sign_eq_one_of_pos]
  · simp only [held]
    omega
  · simp only [Arrival.available]
    omega

/-- `available` as a list of arrivals answers it. -/
theorem available_back {c : Client} (h : ¬c.Drops) (ht : Thins t c.available.2.stream) :
    ∃ s, Thins s c.stream ∧
      (Arrival.available s).1.sign = c.available.1.sign ∧ (Arrival.available s).2 = t := by
  cases hp : c.peeked with
  | some b =>
      obtain ⟨hpos, hpeeked⟩ := available_peeked hp h
      rcases hc : c.available.2 with ⟨p, session⟩
      rw [hc] at ht hpeeked
      obtain rfl : p = some b := hpeeked
      obtain ⟨t', rfl, ht'⟩ := Thins.of_byte ht
      refine ⟨_, stream_available hp h (by rw [hc]; exact ht'), ?_, rfl⟩
      rw [Int.sign_eq_one_of_pos hpos]
      exact Int.sign_eq_one_of_pos (by simp only [Arrival.available]; omega)
  | none =>
      induction c using shape with
      | freed p =>
          obtain rfl : p = none := hp
          obtain rfl := Thins.eq_nil ht
          exact ⟨[], .nil, rfl, rfl⟩
      | idle p =>
          obtain rfl : p = none := hp
          obtain rfl := Thins.eq_nil (by simpa [stream, arrivals] using ht)
          exact ⟨[], .nil, by simp [Arrival.available, held], rfl⟩
      | fail p code rest =>
          obtain rfl : p = none := hp
          obtain rfl := Thins.eq_nil (by simpa [stream, stop] using ht)
          exact ⟨[.closed code], .refl _, by simp [Arrival.available], rfl⟩
      | wait p long rest =>
          obtain rfl : p = none := hp
          rw [available_wait] at ht
          exact ⟨.pause long :: t, .keep _ ht, by simp [Arrival.available, held], rfl⟩
      | buffered p b bs rest =>
          obtain rfl : p = none := hp
          rw [available_buffered] at ht
          obtain ⟨t', rfl, -⟩ := Thins.of_byte ht
          exact ⟨_, ht, by rw [available_buffered]; exact sign_available_byte b t' bs.length, rfl⟩
      | record p b bs rest =>
          obtain rfl : p = none := hp
          rw [available_record] at ht
          obtain ⟨t', rfl, -⟩ := Thins.of_byte ht
          refine ⟨.byte b :: t', by simpa [stream, arrivals] using ht, ?_, rfl⟩
          rw [available_record]
          exact sign_available_byte b t' bs.length

theorem timedRead_back {c : Client} (h : ¬c.Drops) (ht : Thins t c.timedRead.2.stream) :
    ∃ s, Thins s c.stream ∧ Arrival.timedRead s = (c.timedRead.1, t) := by
  obtain ⟨p, session⟩ := c
  cases p with
  | some b =>
      rw [timedRead_peeked rfl h] at ht ⊢
      exact ⟨_, stream_available rfl h ht, rfl⟩
  | none =>
      cases session with
      | none =>
          obtain rfl := Thins.eq_nil (by simpa [stream] using ht)
          exact ⟨[], .nil, by simp [Arrival.timedRead]⟩
      | some s =>
          obtain ⟨current, incoming⟩ := s
          cases current with
          | cons b bs =>
              rw [timedRead_buffered] at ht ⊢
              exact ⟨_, .keep (.byte b) ht, rfl⟩
          | nil =>
              clear h
              induction incoming with
              | nil =>
                  obtain rfl := Thins.eq_nil (by simpa [stream, arrivals] using ht)
                  exact ⟨[], .nil, by simp [Arrival.timedRead]⟩
              | cons e rest ih =>
                  cases e with
                  | record b bs =>
                      rw [timedRead_record] at ht ⊢
                      exact ⟨_, .keep (.byte b) ht, rfl⟩
                  | fail code =>
                      rw [timedRead_fail] at ht ⊢
                      obtain rfl := Thins.eq_nil ht
                      exact ⟨_, .refl _, rfl⟩
                  | wait long =>
                      cases long with
                      | true =>
                          rw [timedRead_longWait] at ht ⊢
                          exact ⟨_, .keep (.pause true) ht, rfl⟩
                      | false =>
                          rw [timedRead_shortWait] at ht ⊢
                          obtain ⟨s, hs, hread⟩ := ih ht
                          exact ⟨_, .keep (.pause false) hs, hread⟩

theorem read_back {c : Client} (h : ¬c.Drops) (ht : Thins t c.read.2.stream) :
    ∃ s, Thins s c.stream ∧ Arrival.read s = (c.read.1, t) := by
  cases hp : c.peeked with
  | some b =>
      rw [read_peeked hp h] at ht ⊢
      exact ⟨_, stream_available hp h ht, rfl⟩
  | none =>
      induction c using shape with
      | freed p =>
          obtain rfl : p = none := hp
          obtain rfl := Thins.eq_nil ht
          exact ⟨[], .nil, rfl⟩
      | idle p =>
          obtain rfl : p = none := hp
          obtain rfl := Thins.eq_nil (by simpa [stream, arrivals] using ht)
          exact ⟨[], .nil, by simp [Arrival.read]⟩
      | buffered p b bs rest =>
          obtain rfl : p = none := hp
          rw [read_buffered] at ht ⊢
          exact ⟨_, .keep (.byte b) ht, rfl⟩
      | record p b bs rest =>
          obtain rfl : p = none := hp
          rw [read_record] at ht ⊢
          exact ⟨_, .keep (.byte b) ht, rfl⟩
      | wait p long rest =>
          obtain rfl : p = none := hp
          rw [read_wait] at ht ⊢
          exact ⟨_, .keep (.pause long) ht, rfl⟩
      | fail p code rest =>
          obtain rfl : p = none := hp
          rw [read_fail] at ht ⊢
          obtain rfl := Thins.eq_nil ht
          exact ⟨_, .refl _, rfl⟩

/-- A byte that was peeked is the next of the arrivals, and stays. -/
theorem peek_of_byte {s t : List Arrival} (ht : Thins t (.byte b :: s)) : Arrival.peek t = (some b, t) := by
  obtain ⟨t', rfl, -⟩ := ht.of_byte
  rfl

theorem peek_back {c : Client} (ht : Thins t c.peek.2.stream) :
    ∃ s, Thins s c.stream ∧ Arrival.peek s = (c.peek.1, t) := by
  obtain ⟨p, session⟩ := c
  cases p with
  | some b => exact ⟨t, ht, peek_of_byte ht⟩
  | none =>
      cases session with
      | none =>
          simp only [peek, timedRead_freed] at ht ⊢
          obtain rfl := Thins.eq_nil ht
          exact ⟨[], .nil, rfl⟩
      | some s =>
          obtain ⟨current, incoming⟩ := s
          cases current with
          | cons b bs =>
              simp only [peek, timedRead_buffered] at ht ⊢
              exact ⟨t, ht, peek_of_byte ht⟩
          | nil =>
              induction incoming with
              | nil =>
                  simp only [peek, timedRead_idle] at ht ⊢
                  obtain rfl := Thins.eq_nil ht
                  exact ⟨[], .nil, rfl⟩
              | cons e rest ih =>
                  cases e with
                  | record b bs =>
                      simp only [peek, timedRead_record] at ht ⊢
                      exact ⟨t, ht, peek_of_byte ht⟩
                  | fail code =>
                      simp only [peek, timedRead_fail] at ht ⊢
                      obtain rfl := Thins.eq_nil ht
                      exact ⟨_, .refl _, rfl⟩
                  | wait long =>
                      cases long with
                      | true =>
                          simp only [peek, timedRead_longWait] at ht ⊢
                          exact ⟨_, .keep (.pause true) ht, rfl⟩
                      | false =>
                          simp only [peek, timedRead_shortWait] at ht ih ⊢
                          obtain ⟨s, hs, hpeek⟩ := ih ht
                          exact ⟨_, .keep (.pause false) hs, hpeek⟩

theorem timedRead_not_drops (c : Client) : ¬c.timedRead.2.Drops := by
  intro hdrops
  have hnone := timedRead_peeked_none c
  obtain ⟨b, code, rest, heq⟩ := hdrops
  rw [heq] at hnone
  cases hnone

theorem readBytes_back (n : ℕ) {c : Client} (h : ¬c.Drops) (ht : Thins t (c.readBytes n).2.stream) :
    ∃ s, Thins s c.stream ∧ Arrival.readBytes n s = ((c.readBytes n).1, t) := by
  induction n generalizing c with
  | zero => exact ⟨t, ht, rfl⟩
  | succ n ih =>
      have hnext := timedRead_not_drops c
      rcases hr : c.timedRead with ⟨_ | b, c'⟩
      · simp only [readBytes, hr] at ht ⊢
        obtain ⟨s, hs, hread⟩ := timedRead_back h (by rw [hr]; exact ht)
        rw [hr] at hread
        exact ⟨s, hs, by simp only [Arrival.readBytes, hread]⟩
      · rw [hr] at hnext
        simp only [readBytes, hr] at ht ⊢
        obtain ⟨s', hs', hrest⟩ := ih hnext ht
        obtain ⟨s, hs, hread⟩ := timedRead_back h (by rw [hr]; exact hs')
        rw [hr] at hread
        exact ⟨s, hs, by simp only [Arrival.readBytes, hread, hrest]⟩

theorem readBytesUntil_back (terminator : UInt8) (n : ℕ) {c : Client} (h : ¬c.Drops)
    (ht : Thins t (c.readBytesUntil terminator n).2.stream) :
    ∃ s, Thins s c.stream ∧
      Arrival.readBytesUntil terminator n s = ((c.readBytesUntil terminator n).1, t) := by
  induction n generalizing c with
  | zero => exact ⟨t, ht, rfl⟩
  | succ n ih =>
      have hnext := timedRead_not_drops c
      rcases hr : c.timedRead with ⟨_ | b, c'⟩
      · simp only [readBytesUntil, hr] at ht ⊢
        obtain ⟨s, hs, hread⟩ := timedRead_back h (by rw [hr]; exact ht)
        rw [hr] at hread
        exact ⟨s, hs, by simp only [Arrival.readBytesUntil, hread]⟩
      · rw [hr] at hnext
        by_cases hb : b = terminator
        · simp only [readBytesUntil, hr, if_pos hb] at ht ⊢
          obtain ⟨s, hs, hread⟩ := timedRead_back h (by rw [hr]; exact ht)
          rw [hr] at hread
          exact ⟨s, hs, by simp only [Arrival.readBytesUntil, hread, if_pos hb]⟩
        · simp only [readBytesUntil, hr, if_neg hb] at ht ⊢
          obtain ⟨s', hs', hrest⟩ := ih hnext ht
          obtain ⟨s, hs, hread⟩ := timedRead_back h (by rw [hr]; exact hs')
          rw [hr] at hread
          exact ⟨s, hs, by simp only [Arrival.readBytesUntil, hread, hrest, if_neg hb]⟩

end Client

/-! ### The refinement -/

/-- What is seen of a call; of the number `available` returns only its sign, since the number itself stops
at the end of a record. -/
inductive Answer where
  | sign (n : ℤ)
  | byte (b : Option UInt8)
  | bytes (bs : List UInt8)
  deriving Repr, DecidableEq

def Client.answer (c : Client) : Call → Answer × Client
  | .available => (.sign c.available.1.sign, c.available.2)
  | .read => (.byte c.read.1, c.read.2)
  | .peek => (.byte c.peek.1, c.peek.2)
  | .readBytes n => (.bytes (c.readBytes n).1, (c.readBytes n).2)
  | .readBytesUntil terminator n =>
      (.bytes (c.readBytesUntil terminator n).1, (c.readBytesUntil terminator n).2)

def streamAnswer (s : List Arrival) : Call → Answer × List Arrival
  | .available => (.sign (Arrival.available s).1.sign, (Arrival.available s).2)
  | .read => (.byte (Arrival.read s).1, (Arrival.read s).2)
  | .peek => (.byte (Arrival.peek s).1, (Arrival.peek s).2)
  | .readBytes n => (.bytes (Arrival.readBytes n s).1, (Arrival.readBytes n s).2)
  | .readBytesUntil terminator n =>
      (.bytes (Arrival.readBytesUntil terminator n s).1, (Arrival.readBytesUntil terminator n s).2)

theorem answer_back (c : Client) (call : Call) (t : List Arrival) (h : ¬c.Drops)
    (ht : Thins t (c.answer call).2.stream) :
    ∃ s, Thins s c.stream ∧ streamAnswer s call = ((c.answer call).1, t) := by
  cases call with
  | available =>
      obtain ⟨s, hs, hsign, hrest⟩ := c.available_back h ht
      exact ⟨s, hs, by simp only [streamAnswer, Client.answer, hsign, hrest]⟩
  | read =>
      obtain ⟨s, hs, hread⟩ := Client.read_back h ht
      exact ⟨s, hs, by simp only [streamAnswer, Client.answer, hread]⟩
  | peek =>
      obtain ⟨s, hs, hpeek⟩ := Client.peek_back ht
      exact ⟨s, hs, by simp only [streamAnswer, Client.answer, hpeek]⟩
  | readBytes n =>
      obtain ⟨s, hs, hread⟩ := Client.readBytes_back n h ht
      exact ⟨s, hs, by simp only [streamAnswer, Client.answer, hread]⟩
  | readBytesUntil terminator n =>
      obtain ⟨s, hs, hread⟩ := Client.readBytesUntil_back terminator n h ht
      exact ⟨s, hs, by simp only [streamAnswer, Client.answer, hread]⟩

/-- **Every run of the client is a run of a list of arrivals.**  For every client and every calls, none of
which finds the connection ended behind a peeked byte, there is a list of arrivals that carries the same
bytes, has no more pauses, and gives the same answers. -/
theorem answers_eq_stream (c : Client) (calls : List Call)
    (h : Simulation.Admits Client.answer (fun c _ => ¬c.Drops) c calls) :
    ∃ s, Thins s c.stream ∧ Arrival.bytesOf s = c.received ∧
      (Simulation.answers streamAnswer s calls).1 = (Simulation.answers Client.answer c calls).1 := by
  obtain ⟨s, hs, hanswers⟩ := Simulation.answers_backward (R := fun c s => Thins s c.stream)
    (fun c => ⟨c.stream, .refl _⟩) (fun c call t => answer_back c call t) c calls h
  exact ⟨s, hs, hs.bytesOf_eq, hanswers⟩

/-- A line feed and an image byte in two records, with a pause between them. -/
def lineFeedFirst : Client := ⟨none, some ⟨[], [.record 10 [], .wait true, .record 0xE9 []]⟩⟩

/-- The line feed is peeked and skipped, and the pause behind it is gone when the image is read. -/
theorem answers_eq_stream_lineFeedFirst :
    ∃ s, Thins s lineFeedFirst.stream ∧ Arrival.bytesOf s = [10, 0xE9] ∧
      (Simulation.answers streamAnswer s [.available, .peek, .available, .read, .readBytes 1]).1
        = [.sign 1, .byte (some 10), .sign 1, .byte (some 10), .bytes [0xE9]] := by
  have hadmits : Simulation.Admits Client.answer (fun c _ => ¬c.Drops) lineFeedFirst
      [.available, .peek, .available, .read, .readBytes 1] := by
    simp [Simulation.Admits, Client.answer, Client.peek, Client.Drops, lineFeedFirst, Client.read_peeked]
  obtain ⟨s, hs, hbytes, hanswers⟩ := answers_eq_stream lineFeedFirst _ hadmits
  refine ⟨s, hs, hbytes.trans (by decide), hanswers.trans ?_⟩
  simp [Simulation.answers, Client.answer, Client.peek, Client.readBytes, Client.Drops, lineFeedFirst,
    Client.read_peeked, Client.held]

end EspFirmware.Tls
