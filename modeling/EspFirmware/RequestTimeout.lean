import EspFirmware.BadStatus
import EspFirmware.Lib.Clock

/-!
# The request timeout

A request is given up 30 seconds after its connection was made.  The difference of two clock values is
right at any value and across the wrap of the counter, but `lastConnectionTime` is read in two ways: as
the time of the connection, and, when it is zero, as the sign that there is none yet.

* `Later` — everything that can happen to the globals after a request was sent;
* `Dated` — as long as no other request registers, `lastConnectionTime` is the time it was sent;
* `requestTimeout_iff` — the timeout is exact unless the connection was made at clock value zero.
-/

namespace EspFirmware

open CString

/-! ### After a request was sent -/

/-- The globals as they can be later than `s`: the callback that sent a request runs on, the call that
invoked it returns, and other calls are made. -/
inductive Later (s : State) : State → Prop
  | now : Later s s
  | script (script : Script) {t t' : State} : Later s t → script.run t = .ok t' → Later s t'
  | clear {t : State} : Later s t → Later s { t with requestIsPending := false }
  | finishHandle {t : State} : Later s t → Later s t.finishHandle
  | call (call : Call) {t t' : State} : Later s t → step t call = .ok t' → Later s t'

/-- The `k`-th request was sent at `time`: the time stays until another request registers. -/
structure Dated (k : ℕ) (time : UInt32) (s : State) : Prop where
  le_requests : k ≤ s.requests
  time_eq : s.requests = k → s.lastConnectionTime = time

variable {k : ℕ} {time : UInt32}

/-- Only the number of requests and the time of the connection matter. -/
theorem Dated.congr {s t : State} (h : Dated k time s) (hreq : t.requests = s.requests)
    (htime : t.lastConnectionTime = s.lastConnectionTime) : Dated k time t := by
  obtain ⟨hle, heq⟩ := h
  rw [← hreq] at hle heq
  rw [← htime] at heq
  exact ⟨hle, heq⟩

/-- A request that registers is a later one. -/
theorem Dated.of_lt {s : State} (h : k < s.requests) : Dated k time s :=
  ⟨h.le, fun heq => absurd heq h.ne'⟩

theorem scriptInvariant_dated : ScriptInvariant (Dated k time) where
  cancel s hs := hs.congr rfl rfl
  consume s client hs := hs.congr rfl rfl
  fail s args msg hs := .of_lt (Nat.lt_succ_of_le hs.le_requests)
  send s args net s' hs h := by
    rw [send_ok h]
    exact .of_lt (Nat.lt_succ_of_le hs.le_requests)
  clear s hs := hs.congr rfl rfl

theorem step_dated {s s' : State} {call : Call} (hs : Dated k time s) (h : step s call = .ok s') :
    Dated k time s' := by
  cases call with
  | httpRequest args net onError =>
      exact scriptInvariant_dated.httpRequest
        (fun _ _ ht hrun => scriptInvariant_dated.run onError ht hrun) hs h
  | cancelHttpRequest =>
      cases h
      exact scriptInvariant_dated.cancel s hs
  | setupHttpRequestManager =>
      cases h
      exact hs.congr rfl rfl
  | handleHttpResponseComplete onSuccess onError =>
      cases handleHttpResponseComplete_spec h with
      | idle => exact hs
      | delivered cb t _ _ hrun =>
          have hlog := hs.congr (t := s.log (.invoked cb.id (.success s.responseBuffer.str))) rfl rfl
          exact (scriptInvariant_dated.run onSuccess hlog hrun).congr rfl rfl
      | failed cb t _ _ hrun =>
          have hlog :=
            hs.congr (t := s.log (.invoked cb.id (.error s.pendingErrorResponse.str))) rfl rfl
          exact (scriptInvariant_dated.run onError hlog hrun).congr rfl rfl
  | checkForHttpResponse poll =>
      cases checkForHttpResponse_spec h with
      | ignored => exact hs
      | waited => exact hs.congr rfl rfl
      | gaveUp => exact hs.congr rfl rfl
      | processed cb headerData client t _ _ _ _ hrun =>
          have hlog := hs.congr
            (t := { s with client := client }.log (.invoked cb.id (.process headerData))) rfl rfl
          exact scriptInvariant_dated.clear t (scriptInvariant_dated.run poll.onProcess hlog hrun)
      | completed => exact hs.congr rfl rfl

theorem Later.dated {s t : State} (h : Later s t) (hs : Dated k time s) : Dated k time t := by
  induction h with
  | now => exact hs
  | script script _ hrun ih => exact scriptInvariant_dated.run script ih hrun
  | clear _ ih => exact scriptInvariant_dated.clear _ ih
  | finishHandle _ ih => exact ih.congr rfl rfl
  | call call _ hstep ih => exact step_dated ih hstep

/-- A call of `httpRequest`, at the top or in a callback, that reaches its server at `net.millis`. -/
structure Connects (s₀ s₁ : State) (args : RequestArgs) (net : Network) : Prop where
  wifi : net.wifiConnected = true
  server : net.connects = true
  returns : ∃ onError, s₀.httpRequest args net onError = .ok s₁

theorem Connects.send_eq {s₀ s₁ : State} {args : RequestArgs} {net : Network}
    (h : Connects s₀ s₁ args net) : s₀.send args net = .ok s₁ := by
  obtain ⟨onError, hreq⟩ := h.returns
  rw [State.httpRequest, if_neg (not_not.mpr h.wifi), if_pos h.server] at hreq
  exact hreq

/-- A later state of the same request still has the time it was sent at. -/
theorem Later.lastConnectionTime_eq {s₀ s₁ s₂ : State} {args : RequestArgs} {net : Network}
    (hreq : Connects s₀ s₁ args net) (h : Later s₁ s₂) (hsame : s₂.requests = s₁.requests) :
    s₂.lastConnectionTime = net.millis := by
  have hs : Dated s₁.requests net.millis s₁ := by
    rw [send_ok hreq.send_eq]
    exact ⟨le_rfl, fun _ => rfl⟩
  exact (h.dated hs).time_eq hsame

/-! ### What a poll reports -/

section Poll

variable {s s' : State} {poll : Poll} {msg : List UInt8}

/-- The message of a report is the one the poll gave up with. -/
theorem ReportedAs.msg_eq {t : State} {msg' : List UInt8} (h : ReportedAs s (t.giveUp msg') msg)
    (ht : t.trace = s.trace) : msg' = msg := by
  have htrace : t.trace ++ [.recorded msg'] = s.trace ++ [.recorded msg] := h.recorded
  rw [ht] at htrace
  simpa using List.append_cancel_left htrace

/-- Nothing is reported in a trace that has not grown. -/
theorem ReportedAs.trace_ne (h : ReportedAs s s' msg) : s'.trace ≠ s.trace := by
  rw [h.recorded]
  simp

/-- A poll that hands the body over reports nothing: the invocation comes first. -/
theorem not_reportedAs_of_invoked {id : ℕ} {c : Callback}
    (h : s.trace ++ [.invoked id c] <+: s'.trace) : ¬ReportedAs s s' msg := by
  intro hreported
  rw [hreported.recorded] at h
  have heq := h.eq_of_length (by simp)
  simp at heq

/-- Only the timeout is reported as one. -/
theorem not_reported_of_inTime (hp : s.requestIsPending = true) (hsent : s.lastConnectionTime ≠ 0)
    (hin : timedOut poll.millis s.lastConnectionTime = false)
    (h : s.checkForHttpResponse poll = .ok s') :
    ¬ReportedAs s s' (ascii "Connection Timeout") := by
  intro hreported
  have hgo : ¬(¬s.requestIsPending = true ∨ s.lastConnectionTime = 0) := by simp [hp, hsent]
  rw [State.checkForHttpResponse, if_neg hgo, if_neg (by simp [hin])] at h
  split at h
  · cases h
    exact absurd (hreported.msg_eq rfl) (by decide)
  · split at h
    · split at h
      · cases h
        exact hreported.trace_ne rfl
      · cases h
        exact absurd (hreported.msg_eq rfl) (by decide)
    · split at h
      · cases h
      · rename_i cb _
        obtain ⟨r, hr, h⟩ := FallibleRun.bind_ok h
        cases r with
        | nothing client =>
            cases h
            exact hreported.trace_ne rfl
        | failed msg client =>
            cases h
            have hmem := pollResponse_failed hr
            rw [hreported.msg_eq rfl] at hmem
            exact absurd hmem (by decide)
        | process headerData client =>
            obtain ⟨t, ht, h⟩ := FallibleRun.bind_ok h
            cases h
            have hgrown : s.trace ++ [.invoked cb.id (.process headerData)] <+: t.trace :=
              (scriptInvariant_trace _).run poll.onProcess (List.prefix_refl _) ht
            have hnot : ¬ReportedAs s { t with requestIsPending := false } (ascii "Connection Timeout") :=
              not_reportedAs_of_invoked hgrown
            exact hnot hreported
        | success buffer client =>
            cases h
            exact hreported.trace_ne rfl
        | noBody buffer client =>
            cases h
            exact absurd (hreported.msg_eq rfl) (by decide)

theorem timedOut_iff (now last : UInt32) :
    timedOut now last = true ↔ 30000 < Clock.elapsed last now := by
  rw [timedOut, decide_eq_true_eq, UInt32.lt_iff_toNat_lt, Clock.toNat_sub_eq_elapsed]
  rfl

/-- The poll ends the request with a timeout. -/
def TimesOut (s : State) (poll : Poll) : Prop :=
  ∃ s', s.checkForHttpResponse poll = .ok s' ∧ ReportedAs s s' (ascii "Connection Timeout")

/-- With the marker's value apart, the timeout is the elapsed time's. -/
theorem timesOut_iff (hp : s.requestIsPending = true) (hsent : s.lastConnectionTime ≠ 0) :
    TimesOut s poll ↔ 30000 < Clock.elapsed s.lastConnectionTime poll.millis := by
  rw [← timedOut_iff]
  constructor
  · rintro ⟨s', hs', hreported⟩
    by_contra hin
    exact not_reported_of_inTime hp hsent (by simpa using hin) hs' hreported
  · intro hlate
    have hgo : ¬(¬s.requestIsPending = true ∨ s.lastConnectionTime = 0) := by simp [hp, hsent]
    refine ⟨s.giveUp (ascii "Connection Timeout"), ?_, rfl, rfl, rfl, rfl⟩
    rw [State.checkForHttpResponse, if_neg hgo, if_pos hlate]

/-- A request sent at clock value zero is taken for one that has no connection yet. -/
theorem not_timesOut_of_zero (hzero : s.lastConnectionTime = 0) : ¬TimesOut s poll := by
  rintro ⟨s', hs', hreported⟩
  rw [State.checkForHttpResponse, if_pos (.inr hzero)] at hs'
  cases hs'
  exact hreported.trace_ne rfl

end Poll

/-- **The timeout is exact unless the connection was made at clock value zero.**  Whatever the globals were
when the request was sent, and whatever happened since: a poll of the request that is still pending ends
it with a timeout exactly after 30000 ms, if and only if the connection was not made at zero or the poll
comes within these 30000 ms. -/
theorem requestTimeout_iff {s₀ s₁ s₂ : State} {args : RequestArgs} {net : Network} (poll : Poll)
    (hreq : Connects s₀ s₁ args net) (hlater : Later s₁ s₂) (hsame : s₂.requests = s₁.requests)
    (hpending : s₂.requestIsPending = true) :
    (TimesOut s₂ poll ↔ 30000 < Clock.elapsed net.millis poll.millis) ↔
      net.millis ≠ 0 ∨ poll.millis.toNat ≤ 30000 := by
  have htime := hlater.lastConnectionTime_eq hreq hsame
  by_cases hzero : net.millis = 0
  · have hnot : ¬TimesOut s₂ poll := not_timesOut_of_zero (by rw [htime, hzero])
    have helapsed : Clock.elapsed net.millis poll.millis = poll.millis.toNat := by
      rw [hzero, Clock.elapsed_of_le (Nat.zero_le _)]
      rfl
    rw [helapsed]
    constructor
    · intro hiff
      exact .inr (not_lt.mp fun hlt => hnot (hiff.mpr hlt))
    · rintro (hne | hle)
      · exact absurd hzero hne
      · exact ⟨fun h => absurd h hnot, fun hlt => absurd hlt (not_lt.mpr hle)⟩
  · have hsent : s₂.lastConnectionTime ≠ 0 := by
      rw [htime]
      exact hzero
    have hiff : TimesOut s₂ poll ↔ _ := timesOut_iff hpending hsent
    rw [htime] at hiff
    exact ⟨fun _ => .inl hzero, fun _ => hiff⟩

/-- A request that is sent at clock value `millis` to a server that does not answer. -/
def sentAt (millis : UInt32) : Call :=
  .httpRequest getRequest { Network.reached [] with millis := millis } .done

/-- A request that is polled after the counter has wrapped. -/
theorem requestTimeout_wrapped :
    ∃ s, runCalls [sentAt 4294967295, .checkForHttpResponse (.at 29999)] = .ok s ∧
      (TimesOut s (.at 30000) ↔ 30000 < Clock.elapsed 4294967295 30000) :=
  have hreq : Connects .start _ getRequest { Network.reached [] with millis := 4294967295 } :=
    ⟨rfl, rfl, Script.done.run, rfl⟩
  ⟨_, rfl, (requestTimeout_iff (.at 30000) hreq
    (.call (.checkForHttpResponse (.at 29999)) .now rfl) rfl rfl).mpr (.inl (by decide))⟩

/-- A request sent at clock value zero is still pending after 40 seconds. -/
theorem requestTimeout_missed :
    ∃ s, runCalls [sentAt 0] = .ok s ∧ s.requestIsPending = true ∧
      30000 < Clock.elapsed 0 40000 ∧ ¬TimesOut s (.at 40000) :=
  ⟨_, rfl, rfl, by decide, not_timesOut_of_zero rfl⟩

end EspFirmware
