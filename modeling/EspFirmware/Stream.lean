import Mathlib.Data.Int.Notation
import Mathlib.Data.List.Basic
import Mathlib.Tactic.Common

/-!
# The client byte stream

`WiFiClientSecure` and the `Stream` methods the firmware calls on it.  A connection is the list of what
its client meets next: a byte that has arrived, a pause in which nothing is there yet, or the peer
closing the connection.  A *short* pause ends before the stream timeout, so `timedRead` waits it out; a
*long* one outlasts it, so `timedRead` gives up with `-1`.  A call that finds a pause uses it up: the
next call is later in time.

* `available`, `read`, `peek`, `timedRead` — `WiFiClientSecure` and `Stream::timedRead`;
* `readBytes`, `readBytesUntil` — the two `Stream` loops over `timedRead`;
* `readBytes_spec`, `readBytesUntil_length` — what they take from the stream and how much of it.
-/

namespace EspFirmware

/-- What the client meets next on its connection. -/
inductive Arrival where
  | byte (b : UInt8)
  | pause (long : Bool)
  | closed (code : ℕ)
  deriving Repr, DecidableEq

namespace Arrival

/-- The bytes a connection carries, in order. -/
def bytesOf : List Arrival → List UInt8
  | [] => []
  | .byte b :: s => b :: bytesOf s
  | .pause _ :: s => bytesOf s
  | .closed _ :: s => bytesOf s

/-- How many bytes are there without waiting. -/
def ready : List Arrival → ℕ
  | .byte _ :: s => ready s + 1
  | _ => 0

/-- `WiFiClientSecure::available`: the bytes there now, or a negative code once the peer has closed. -/
def available : List Arrival → ℤ × List Arrival
  | [] => (0, [])
  | .byte b :: s => (ready s + 1, .byte b :: s)
  | .pause _ :: s => (0, s)
  | .closed code :: s => (-(code + 1), s)

/-- `WiFiClientSecure::read()`: the next byte, or `-1` (`none`) when none is there. -/
def read : List Arrival → Option UInt8 × List Arrival
  | [] => (none, [])
  | .byte b :: s => (some b, s)
  | .pause _ :: s => (none, s)
  | .closed _ :: s => (none, s)

/-- `Stream::timedRead`: `read` until a byte comes or the stream timeout has passed. -/
def timedRead : List Arrival → Option UInt8 × List Arrival
  | [] => (none, [])
  | .byte b :: s => (some b, s)
  | .pause false :: s => timedRead s
  | .pause true :: s => (none, s)
  | .closed _ :: s => (none, s)

/-- `WiFiClientSecure::peek`: a timed read whose byte stays in front (in `_peek`). -/
def peek : List Arrival → Option UInt8 × List Arrival
  | [] => (none, [])
  | .byte b :: s => (some b, .byte b :: s)
  | .pause false :: s => peek s
  | .pause true :: s => (none, s)
  | .closed _ :: s => (none, s)

/-- `Stream::readBytes`: up to `n` timed reads, stopping at the first that times out. -/
def readBytes : ℕ → List Arrival → List UInt8 × List Arrival
  | 0, s => ([], s)
  | n + 1, s =>
      match timedRead s with
      | (none, s') => ([], s')
      | (some b, s') => (b :: (readBytes n s').1, (readBytes n s').2)

/-- `Stream::readBytesUntil`: as `readBytes`, and the terminator ends the read and is dropped. -/
def readBytesUntil (terminator : UInt8) : ℕ → List Arrival → List UInt8 × List Arrival
  | 0, s => ([], s)
  | n + 1, s =>
      match timedRead s with
      | (none, s') => ([], s')
      | (some b, s') =>
          if b = terminator then ([], s')
          else (b :: (readBytesUntil terminator n s').1, (readBytesUntil terminator n s').2)

/-! ### What a call takes from the stream -/

@[simp] theorem bytesOf_append (s t : List Arrival) : bytesOf (s ++ t) = bytesOf s ++ bytesOf t := by
  induction s with
  | nil => rfl
  | cons a s ih => cases a <;> simp [bytesOf, ih]

@[simp] theorem bytesOf_map_byte (l : List UInt8) : bytesOf (l.map .byte) = l := by
  induction l with
  | nil => rfl
  | cons b l ih => simp [bytesOf, ih]

theorem timedRead_none {s s' : List Arrival} (h : timedRead s = (none, s')) :
    bytesOf s' = bytesOf s ∧ s'.length ≤ s.length := by
  induction s with
  | nil => simp_all [timedRead]
  | cons a s ih =>
      cases a with
      | byte b => simp [timedRead] at h
      | closed c =>
          obtain rfl : s = s' := by simpa [timedRead] using h
          simp [bytesOf]
      | pause long =>
          cases long with
          | true =>
              obtain rfl : s = s' := by simpa [timedRead] using h
              simp [bytesOf]
          | false =>
              obtain ⟨h₁, h₂⟩ := ih (by simpa [timedRead] using h)
              exact ⟨by simpa [bytesOf] using h₁, by simp only [List.length_cons]; omega⟩

theorem timedRead_some {s s' : List Arrival} {b : UInt8} (h : timedRead s = (some b, s')) :
    bytesOf s = b :: bytesOf s' ∧ s'.length < s.length := by
  induction s with
  | nil => simp [timedRead] at h
  | cons a s ih =>
      cases a with
      | byte c =>
          obtain ⟨rfl, rfl⟩ : c = b ∧ s = s' := by simpa [timedRead] using h
          simp [bytesOf]
      | closed c => simp [timedRead] at h
      | pause long =>
          cases long with
          | true => simp [timedRead] at h
          | false =>
              obtain ⟨h₁, h₂⟩ := ih (by simpa [timedRead] using h)
              exact ⟨by simpa [bytesOf] using h₁, by simp only [List.length_cons]; omega⟩

/-- **`readBytes` takes a prefix of the stream, in order.** -/
theorem readBytes_spec (n : ℕ) (s : List Arrival) :
    bytesOf s = (readBytes n s).1 ++ bytesOf (readBytes n s).2 ∧
      (readBytes n s).1.length ≤ n ∧
      (readBytes n s).1.length + (readBytes n s).2.length ≤ s.length := by
  induction n generalizing s with
  | zero => simp [readBytes]
  | succ n ih =>
      rcases hr : timedRead s with ⟨_ | b, s'⟩
      · obtain ⟨h₁, h₂⟩ := timedRead_none hr
        simp [readBytes, hr, h₁, h₂]
      · obtain ⟨h₁, h₂⟩ := timedRead_some hr
        obtain ⟨i₁, i₂, i₃⟩ := ih s'
        simp only [readBytes, hr, List.cons_append, List.length_cons]
        exact ⟨by rw [h₁, ← i₁], by omega, by omega⟩

/-- Bytes that have all arrived are read without a short read. -/
theorem readBytes_ready (l : List UInt8) (s : List Arrival) :
    readBytes l.length (l.map .byte ++ s) = (l, s) := by
  induction l with
  | nil => rfl
  | cons b l ih => simp [readBytes, timedRead, ih]

/-- A peek that finds a byte leaves it in front. -/
theorem peek_some {s s' : List Arrival} {b : UInt8} (h : peek s = (some b, s')) :
    ∃ t, s' = .byte b :: t ∧ bytesOf s' = bytesOf s := by
  induction s with
  | nil => simp [peek] at h
  | cons a s ih =>
      cases a with
      | byte c =>
          obtain ⟨rfl, rfl⟩ : c = b ∧ .byte c :: s = s' := by simpa [peek] using h
          exact ⟨s, rfl, rfl⟩
      | closed c => simp [peek] at h
      | pause long =>
          cases long with
          | true => simp [peek] at h
          | false => simpa [bytesOf] using ih (by simpa [peek] using h)

/-- A peek that times out takes no byte. -/
theorem peek_none {s s' : List Arrival} (h : peek s = (none, s')) : bytesOf s' = bytesOf s := by
  induction s with
  | nil => simp_all [peek]
  | cons a s ih =>
      cases a with
      | byte c => simp [peek] at h
      | closed c =>
          obtain rfl : s = s' := by simpa [peek] using h
          rfl
      | pause long =>
          cases long with
          | true =>
              obtain rfl : s = s' := by simpa [peek] using h
              rfl
          | false => simpa [bytesOf] using ih (by simpa [peek] using h)

end Arrival

end EspFirmware
