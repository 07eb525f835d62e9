import EspFirmware.RequestTimeout

/-!
# The outcome of a request

A request that was sent is polled by the background task and delivered by the main task, in whatever order
the two are scheduled.  From the request's side there are three stages: it waits for its response, its
outcome is decided but not delivered, or one of its callbacks has been invoked.  No poll and no delivery
goes back a stage, and three things move a waiting request on whatever the server does: 30 seconds, the loss
of the Wi-Fi, and the twenty-fifth poll that finds the connection down.

* `Waiting`, `Decided`, `Settled` — the stages, with one lemma for each call;
* `httpRequest_settles` — a request that is polled past its end and delivered has exactly one outcome;
* `silentRequest_pending_iff` — how long a request waits for a server that sends nothing.
-/

namespace EspFirmware

open CString

variable {id lost : ℕ} {time : UInt32} {s s' : State} {poll : Poll}

/-! ### Three stages -/

/-- The request was sent at `time` and has found its connection down `lost` times. -/
structure Waiting (id : ℕ) (time : UInt32) (lost : ℕ) (s : State) : Prop where
  current : ∃ cb, s.callbacks = some cb ∧ cb.id = id
  pending : s.requestIsPending = true
  time_eq : s.lastConnectionTime = time
  lost_eq : s.lostConnectionTimes = lost

/-- The request has succeeded or failed, and the next delivery tells its callback. -/
structure Decided (id : ℕ) (s : State) : Prop where
  current : ∃ cb, s.callbacks = some cb ∧ cb.id = id
  completed : s.requestCompletionStatus ≠ .idle

/-- One of the request's callbacks has been invoked. -/
def Settled (id : ℕ) (s : State) : Prop := ∃ c, .invoked id c ∈ s.trace

/-- A poll after which a waiting request waits no more. -/
def Poll.Ends (poll : Poll) (time : UInt32) (lost : ℕ) : Prop :=
  timedOut poll.millis time = true ∨ poll.wifiConnected = false ∨ poll.connected = false ∧ 24 ≤ lost

/-- A request that has just been sent waits. -/
theorem Connects.waiting {s₀ s₁ : State} {args : RequestArgs} {net : Network}
    (h : Connects s₀ s₁ args net) : Waiting s₀.requests net.millis 0 s₁ := by
  rw [send_ok h.send_eq]
  exact ⟨⟨_, rfl, rfl⟩, rfl, rfl, rfl⟩

theorem Settled.mono (h : Settled id s) (hgrow : s.trace <+: s'.trace) : Settled id s' := by
  obtain ⟨c, hc⟩ := h
  exact ⟨c, hgrow.subset hc⟩

/-- A request with an outcome has exactly one. -/
theorem Settled.invocations_eq (h : Settled id s) (ho : Ordered s) : invocations id s.trace = 1 := by
  obtain ⟨c, hc⟩ := h
  have hpos : 0 < invocations id s.trace :=
    List.countP_pos_iff.mpr ⟨_, hc, by simp [HttpEvent.invokes]⟩
  have hle := ho.once id
  omega

/-- Whatever is called, the trace only grows. -/
theorem step_grows {call : Call} (h : step s call = .ok s') : s.trace <+: s'.trace := by
  have hscript := scriptInvariant_trace s.trace
  have hinvoked : ∀ (t : State) (e : HttpEvent), t.trace = s.trace → s.trace <+: (t.log e).trace := by
    intro t e ht
    rw [← ht]
    exact List.prefix_append _ _
  cases call with
  | httpRequest args net onError =>
      exact hscript.httpRequest (fun _ _ ht hrun => hscript.run onError ht hrun) (List.prefix_refl _) h
  | cancelHttpRequest =>
      cases h
      exact hscript.cancel s (List.prefix_refl _)
  | setupHttpRequestManager =>
      cases h
      exact List.prefix_refl _
  | handleHttpResponseComplete onSuccess onError =>
      cases handleHttpResponseComplete_spec h with
      | idle => exact List.prefix_refl _
      | delivered cb t _ _ hrun =>
          show s.trace <+: t.trace
          exact hscript.run onSuccess (hinvoked s _ rfl) hrun
      | failed cb t _ _ hrun =>
          show s.trace <+: t.trace
          exact hscript.run onError (hinvoked s _ rfl) hrun
  | checkForHttpResponse poll =>
      cases checkForHttpResponse_spec h with
      | ignored => exact List.prefix_refl _
      | waited => exact List.prefix_refl _
      | gaveUp msg buffer => exact List.prefix_append _ _
      | processed cb headerData client t _ _ _ _ hrun =>
          show s.trace <+: t.trace
          exact hscript.run poll.onProcess (hinvoked { s with client := client } _ rfl) hrun
      | completed => exact List.prefix_refl _

/-! ### What a poll does -/

theorem Waiting.giveUp (h : Waiting id time lost s) (msg : List UInt8) : Decided id (s.giveUp msg) :=
  ⟨h.current, by simp [State.giveUp, State.setPendingErrorResponse, State.cancelHttpRequest]⟩

/-- **A poll of a waiting request.**  It waits on, and counts the poll if the connection was down, or it is
decided or settled. -/
theorem Waiting.polled (h : Waiting id time lost s) (htime : time ≠ 0)
    (hpoll : s.checkForHttpResponse poll = .ok s') :
    Waiting id time (lost + if poll.connected then 0 else 1) s' ∧ ¬poll.Ends time lost ∨
      Decided id s' ∨ Settled id s' := by
  have hsent : s.lastConnectionTime ≠ 0 := by
    rw [h.time_eq]
    exact htime
  obtain ⟨cb, hcb, hid⟩ := h.current
  by_cases htimed : timedOut poll.millis s.lastConnectionTime = true
  · simp only [State.checkForHttpResponse, h.pending, hsent, htimed, not_true, or_self, if_false,
      if_true] at hpoll
    cases hpoll
    exact .inr (.inl (h.giveUp _))
  by_cases hwifi : poll.wifiConnected = true
  · by_cases hconn : poll.connected = true
    · -- the connection stands, and the outcome is that of the response
      have hawaiting : Awaiting s poll := ⟨h.pending, hsent, by simpa using htimed, hwifi, hconn⟩
      rw [checkForHttpResponse_awaiting hawaiting hcb] at hpoll
      obtain ⟨r, -, hfinish⟩ := FallibleRun.bind_ok hpoll
      cases r with
      | nothing client =>
          cases hfinish
          refine .inl ⟨⟨h.current, h.pending, h.time_eq, by simpa [hconn] using h.lost_eq⟩, ?_⟩
          rw [h.time_eq] at htimed
          simp [Poll.Ends, htimed, hwifi, hconn]
      | failed msg client =>
          cases hfinish
          exact .inr (.inl (h.giveUp msg))
      | process headerData client =>
          obtain ⟨t, ht, hclear⟩ := FallibleRun.bind_ok hfinish
          cases hclear
          have hgrow := (scriptInvariant_trace _).run poll.onProcess (List.prefix_refl _) ht
          exact .inr (.inr ⟨.process headerData, hgrow.subset (by simp [State.log, hid])⟩)
      | success buffer client =>
          cases hfinish
          exact .inr (.inl ⟨h.current, by simp⟩)
      | noBody buffer client =>
          cases hfinish
          exact .inr (.inl ⟨h.current,
            by simp [State.giveUp, State.setPendingErrorResponse, State.cancelHttpRequest]⟩)
    · simp only [State.checkForHttpResponse, h.pending, hsent, htimed, hwifi, hconn, not_true, or_self,
        if_false, Bool.false_eq_true, not_false_eq_true, if_true] at hpoll
      split_ifs at hpoll with hfew
      · cases hpoll
        refine .inl ⟨⟨h.current, rfl, h.time_eq, by simp [hconn, h.lost_eq]⟩, ?_⟩
        rw [h.time_eq] at htimed
        rw [h.lost_eq] at hfew
        simp only [Poll.Ends, htimed, hwifi, false_or, not_and, not_le, Bool.true_eq_false,
          Bool.false_eq_true]
        omega
      · cases hpoll
        exact .inr (.inl (h.giveUp _))
  · simp only [State.checkForHttpResponse, h.pending, hsent, htimed, hwifi, not_true, or_self,
      if_false] at hpoll
    cases hpoll
    exact .inr (.inl (h.giveUp _))

/-- Polls leave a decided request alone. -/
theorem Decided.polled (h : Decided id s) (hs : Sound s) (hpoll : s.checkForHttpResponse poll = .ok s') :
    Decided id s' := by
  have hidle : s.requestIsPending = false := by
    by_contra hp
    exact h.completed (hs.pending (by simpa using hp))
  simp only [State.checkForHttpResponse, hidle, Bool.false_eq_true, not_false_eq_true, true_or,
    if_true] at hpoll
  cases hpoll
  exact h

/-! ### What a delivery does -/

/-- There is nothing to deliver yet. -/
theorem Waiting.handled (h : Waiting id time lost s) (hs : Sound s) {onSuccess onError : Script}
    (hhandle : s.handleHttpResponseComplete onSuccess onError = .ok s') : Waiting id time lost s' := by
  rw [State.handleHttpResponseComplete, if_pos (hs.pending h.pending)] at hhandle
  cases hhandle
  exact h

/-- **A decided request is settled by the next delivery.** -/
theorem Decided.handled (h : Decided id s) {onSuccess onError : Script}
    (hhandle : s.handleHttpResponseComplete onSuccess onError = .ok s') : Settled id s' := by
  obtain ⟨cb, hcb, hid⟩ := h.current
  have hinvoked : ∀ {c : Callback} {script : Script} {cb' : Callbacks} {t : State},
      s.callbacks = some cb' → script.run (s.log (.invoked cb'.id c)) = .ok t →
        Settled id t.finishHandle := by
    intro c script cb' t hcb' hrun
    obtain rfl : cb = cb' := Option.some.inj (hcb.symm.trans hcb')
    have hgrow := (scriptInvariant_trace _).run script (List.prefix_refl _) hrun
    exact ⟨c, hgrow.subset (by simp [State.log, hid])⟩
  cases handleHttpResponseComplete_spec hhandle with
  | idle hidle => exact absurd hidle h.completed
  | delivered cb' t _ hcb' hrun => exact hinvoked hcb' hrun
  | failed cb' t _ hcb' hrun => exact hinvoked hcb' hrun

/-! ### Polls and deliveries in any order -/

/-- A call the two tasks make while a request is out. -/
def Call.Serves : Call → Prop
  | .checkForHttpResponse _ => True
  | .handleHttpResponseComplete _ _ => True
  | _ => False

/-- A poll that finds the connection down. -/
def Call.findsDown : Call → Bool
  | .checkForHttpResponse poll => !poll.connected
  | _ => false

/-- The request waits with `lost` polls counted, or has gone on. -/
def Underway (id : ℕ) (time : UInt32) (lost : ℕ) (s : State) : Prop :=
  Waiting id time lost s ∨ Decided id s ∨ Settled id s

theorem step_decided {call : Call} (hcall : call.Serves) (hs : Sound s)
    (h : Decided id s ∨ Settled id s) (hstep : step s call = .ok s') : Decided id s' ∨ Settled id s' := by
  rcases h with h | h
  · cases call with
    | checkForHttpResponse poll => exact .inl (h.polled hs hstep)
    | handleHttpResponseComplete onSuccess onError => exact .inr (h.handled hstep)
    | _ => exact hcall.elim
  · exact .inr (h.mono (step_grows hstep))

theorem step_underway {call : Call} (hcall : call.Serves) (htime : time ≠ 0) (hs : Sound s)
    (h : Underway id time lost s) (hstep : step s call = .ok s') :
    Underway id time (lost + if call.findsDown then 1 else 0) s' := by
  rcases h with h | h
  · cases call with
    | checkForHttpResponse poll =>
        rcases h.polled htime hstep with ⟨hw, -⟩ | hd
        · left
          cases hconn : poll.connected with
          | false => simpa [Call.findsDown, hconn] using hw
          | true => simpa [Call.findsDown, hconn] using hw
        · exact .inr hd
    | handleHttpResponseComplete onSuccess onError => exact .inl (h.handled hs hstep)
    | _ => exact hcall.elim
  · exact .inr (step_decided hcall hs h hstep)

/-- While a request is out, every poll that finds the connection down is counted. -/
theorem run_underway {calls : List Call} (hcalls : ∀ call ∈ calls, call.Serves) (htime : time ≠ 0)
    (hs : Sound s) (h : Underway id time lost s) (hrun : FallibleRun.run step s calls = .ok s') :
    Sound s' ∧ Underway id time (lost + calls.countP Call.findsDown) s' := by
  induction calls generalizing s lost with
  | nil =>
      cases hrun
      exact ⟨hs, h⟩
  | cons call calls ih =>
      obtain ⟨t, hstep, hrest⟩ := FallibleRun.run_cons_ok hrun
      have ht := step_underway (hcalls call List.mem_cons_self) htime hs h hstep
      have := ih (fun c hc => hcalls c (List.mem_cons_of_mem _ hc)) (step_sound hs hstep) ht hrest
      rwa [List.countP_cons, ← Nat.add_comm _ (calls.countP _), ← Nat.add_assoc]

/-- Polls and deliveries do not take a decision back. -/
theorem run_decided {calls : List Call} (hcalls : ∀ call ∈ calls, call.Serves) (hs : Sound s)
    (h : Decided id s ∨ Settled id s) (hrun : FallibleRun.run step s calls = .ok s') :
    Sound s' ∧ (Decided id s' ∨ Settled id s') := by
  have hstep : ∀ t call t', Sound t ∧ (Decided id t ∨ Settled id t) → call.Serves →
      step t call = .ok t' → Sound t' ∧ (Decided id t' ∨ Settled id t') := by
    intro t call t' ht hcall htt'
    exact ⟨step_sound ht.1 htt', step_decided hcall ht.1 ht.2 htt'⟩
  exact FallibleRun.run_invariant hstep ⟨hs, h⟩ hcalls hrun

/-- Nothing takes an outcome back. -/
theorem run_settled {calls : List Call} (hs : Sound s) (h : Settled id s)
    (hrun : FallibleRun.run step s calls = .ok s') : Sound s' ∧ Settled id s' := by
  have hstep : ∀ t call t', Sound t ∧ Settled id t → True → step t call = .ok t' →
      Sound t' ∧ Settled id t' := by
    intro t call t' ht _ htt'
    exact ⟨step_sound ht.1 htt', ht.2.mono (step_grows htt')⟩
  exact FallibleRun.run_invariant hstep ⟨hs, h⟩ (fun _ _ => trivial) hrun

/-- **Every request that is sent has exactly one outcome.**  A request reaches its server, at a clock value
other than zero; then polls and deliveries come in any order.  Once a poll comes after its 30 seconds, or
without Wi-Fi, or is the twenty-fifth that finds the connection down, and a delivery comes after that, one
of its callbacks has been invoked once, and never is again, whatever is called afterwards. -/
theorem httpRequest_settles (before : List Call) {s₀ s₁ s₂ : State} {args : RequestArgs} {net : Network}
    (h₀ : runCalls before = .ok s₀) (hreq : Connects s₀ s₁ args net) (hclock : net.millis ≠ 0)
    (waiting deciding after : List Call) (poll : Poll) (onSuccess onError : Script)
    (hwaiting : ∀ call ∈ waiting, call.Serves) (hdeciding : ∀ call ∈ deciding, call.Serves)
    (hends : poll.Ends net.millis (waiting.countP Call.findsDown))
    (hrun : FallibleRun.run step s₁ (waiting ++ .checkForHttpResponse poll ::
      (deciding ++ .handleHttpResponseComplete onSuccess onError :: after)) = .ok s₂) :
    invocations s₀.requests s₂.trace = 1 := by
  have hsound : Sound s₁ := scriptInvariant_sound.send s₀ args net s₁ (runCalls_sound h₀) hreq.send_eq
  obtain ⟨t₁, ht₁, hrun⟩ := FallibleRun.run_append_ok hrun
  obtain ⟨t₂, ht₂, hrun⟩ := FallibleRun.run_cons_ok hrun
  obtain ⟨t₃, ht₃, hrun⟩ := FallibleRun.run_append_ok hrun
  obtain ⟨t₄, ht₄, hrun⟩ := FallibleRun.run_cons_ok hrun
  obtain ⟨hsound₁, hunder⟩ := run_underway hwaiting hclock hsound (.inl hreq.waiting) ht₁
  rw [Nat.zero_add] at hunder
  have hdecided : Decided s₀.requests t₂ ∨ Settled s₀.requests t₂ := by
    rcases hunder with h | h
    · rcases h.polled hclock ht₂ with ⟨-, hnot⟩ | hd
      · exact absurd hends hnot
      · exact hd
    · have hserves : (Call.checkForHttpResponse poll).Serves := trivial
      exact step_decided hserves hsound₁ h ht₂
  obtain ⟨hsound₃, hdecided₃⟩ := run_decided hdeciding (step_sound hsound₁ ht₂) hdecided ht₃
  have hsettled : Settled s₀.requests t₄ := by
    rcases hdecided₃ with h | h
    · exact h.handled ht₄
    · exact h.mono (step_grows ht₄)
  obtain ⟨hsound', hsettled'⟩ := run_settled (step_sound hsound₃ ht₄) hsettled hrun
  exact hsettled'.invocations_eq hsound'.ordered

/-- A poll that finds Wi-Fi but no connection. -/
def Poll.down : Poll := { Poll.at 2 with connected := false }

/-- A request that is given up at the twenty-fifth such poll. -/
theorem httpRequest_settles_lost :
    ∃ s₁ s₂, Connects .start s₁ getRequest (.reached []) ∧
      FallibleRun.run step s₁ (List.replicate 24 (.checkForHttpResponse .down) ++
        .checkForHttpResponse .down :: ([] ++ .handleHttpResponseComplete .done .done :: [])) = .ok s₂ ∧
      invocations 0 s₂.trace = 1 := by
  have hreq : Connects .start _ getRequest (.reached []) := ⟨rfl, rfl, Script.done.run, rfl⟩
  have hserves : ∀ call ∈ List.replicate 24 (Call.checkForHttpResponse .down), call.Serves := by
    intro call hcall
    rw [List.eq_of_mem_replicate hcall]
    trivial
  exact ⟨_, _, hreq, rfl, httpRequest_settles [] rfl hreq (by decide) _ [] [] .down .done .done hserves
    (by simp) (.inr (.inr ⟨rfl, by decide⟩)) rfl⟩

/-! ### A server that sends nothing -/

/-- Nothing arrives, and the peer does not close. -/
def Silent (client : List Arrival) : Prop := ∀ a ∈ client, ∃ long, a = .pause long

theorem Silent.available {client : List Arrival} (h : Silent client) :
    (Arrival.available client).1 = 0 ∧ Silent (Arrival.available client).2 := by
  cases client with
  | nil => exact ⟨rfl, h⟩
  | cons a client =>
      obtain ⟨long, rfl⟩ := h a List.mem_cons_self
      exact ⟨rfl, fun b hb => h b (List.mem_cons_of_mem _ hb)⟩

/-- A poll that ends a waiting request records an error. -/
theorem Waiting.ended (h : Waiting id time lost s) (htime : time ≠ 0) (hends : poll.Ends time lost) :
    ∃ msg, s.checkForHttpResponse poll = .ok (s.giveUp msg) := by
  have hsent : s.lastConnectionTime ≠ 0 := by
    rw [h.time_eq]
    exact htime
  rw [State.checkForHttpResponse, if_neg (by simp [h.pending, hsent])]
  by_cases htimed : timedOut poll.millis s.lastConnectionTime = true
  · exact ⟨_, if_pos htimed⟩
  rw [if_neg htimed]
  by_cases hwifi : poll.wifiConnected = true
  · rw [h.time_eq] at htimed
    obtain ⟨hdown, hmany⟩ : poll.connected = false ∧ 24 ≤ lost := by
      simpa [Poll.Ends, htimed, hwifi] using hends
    have hlost := h.lost_eq
    rw [if_neg (not_not.mpr hwifi), if_pos (by simp [hdown]), if_neg (by omega)]
    exact ⟨_, rfl⟩
  · exact ⟨_, if_pos hwifi⟩

/-- Any other poll finds nothing on a silent connection. -/
theorem Waiting.quiet (h : Waiting id time lost s) (htime : time ≠ 0) (hends : ¬poll.Ends time lost)
    (hsilent : Silent s.client) :
    ∃ s', s.checkForHttpResponse poll = .ok s' ∧ Silent s'.client ∧
      Waiting id time (lost + if poll.connected then 0 else 1) s' := by
  have hsent : s.lastConnectionTime ≠ 0 := by
    rw [h.time_eq]
    exact htime
  obtain ⟨htimed, hwifi, hfew⟩ : timedOut poll.millis s.lastConnectionTime = false ∧
      poll.wifiConnected = true ∧ (poll.connected = false → lost < 24) := by
    rw [h.time_eq]
    simpa [Poll.Ends, not_or] using hends
  cases hconn : poll.connected with
  | true =>
      obtain ⟨cb, hcb, -⟩ := h.current
      obtain ⟨hnone, hrest⟩ := hsilent.available
      refine ⟨{ s with client := (Arrival.available s.client).2 }, ?_, hrest, ?_⟩
      · rw [checkForHttpResponse_awaiting ⟨h.pending, hsent, htimed, hwifi, hconn⟩ hcb, pollResponse,
          if_pos hnone]
        rfl
      · exact ⟨h.current, h.pending, h.time_eq, h.lost_eq⟩
  | false =>
      have hlost := h.lost_eq
      have hlt := hfew hconn
      refine ⟨{ s with lostConnectionTimes := s.lostConnectionTimes + 1 }, ?_, hsilent, ?_⟩
      · rw [State.checkForHttpResponse, if_neg (by simp [h.pending, hsent]), if_neg (by simp [htimed]),
          if_neg (not_not.mpr hwifi), if_pos (by simp [hconn]), if_pos (by omega)]
      · exact ⟨h.current, h.pending, h.time_eq, by simp [hlost]⟩

/-- Polls of a request that is not pending do nothing. -/
theorem run_polls_idle (h : s.requestIsPending = false) (polls : List Poll) :
    FallibleRun.run step s (polls.map .checkForHttpResponse) = .ok s := by
  induction polls with
  | nil => rfl
  | cons poll polls ih =>
      have hstep : step s (.checkForHttpResponse poll) = .ok s := by
        simp [step, State.checkForHttpResponse, h]
      rw [List.map_cons, FallibleRun.run, hstep]
      exact ih

/-- What a waiting request on a silent connection comes to after some polls. -/
theorem Waiting.run_silent (polls : List Poll) (h : Waiting id time lost s) (htime : time ≠ 0)
    (hsilent : Silent s.client) (hlost : lost ≤ 24) :
    ∃ s', FallibleRun.run step s (polls.map .checkForHttpResponse) = .ok s' ∧
      (s'.requestIsPending = true ↔
        (∀ p ∈ polls, timedOut p.millis time = false ∧ p.wifiConnected = true) ∧
          lost + polls.countP (fun p => !p.connected) ≤ 24) ∧
      (s'.requestIsPending = false → s'.requestCompletionStatus = .error) := by
  induction polls generalizing s lost with
  | nil => exact ⟨s, rfl, by simp [h.pending, hlost], by simp [h.pending]⟩
  | cons poll polls ih =>
      rw [List.map_cons, List.countP_cons]
      by_cases hends : poll.Ends time lost
      · obtain ⟨msg, hgave⟩ := h.ended htime hends
        refine ⟨s.giveUp msg, ?_, ?_, fun _ => rfl⟩
        · rw [FallibleRun.run, step, hgave]
          exact run_polls_idle rfl polls
        · constructor
          · intro hp
            cases hp
          · rintro ⟨hgood, hcount⟩
            obtain ⟨htimed, hwifi⟩ := hgood poll List.mem_cons_self
            obtain ⟨hdown, hmany⟩ : poll.connected = false ∧ 24 ≤ lost := by
              simpa [Poll.Ends, htimed, hwifi] using hends
            simp only [hdown, Bool.not_false, if_true] at hcount
            omega
      · obtain ⟨t, hstep, hsilent', hw⟩ := h.quiet htime hends hsilent
        have hgood : (timedOut poll.millis time = false ∧ poll.wifiConnected = true) ∧
            (poll.connected = false → lost < 24) := by
          simpa [Poll.Ends, not_or, and_assoc] using hends
        have hlost' : (lost + if poll.connected then 0 else 1) ≤ 24 := by
          cases hconn : poll.connected with
          | true => simpa using hlost
          | false =>
              have := hgood.2 hconn
              simp only [Bool.false_eq_true, if_false]
              omega
        obtain ⟨s', hrun, hiff, herr⟩ := ih hw hsilent' hlost'
        refine ⟨s', ?_, ?_, herr⟩
        · rw [FallibleRun.run, step, hstep]
          exact hrun
        · have hcount : (lost + if poll.connected then 0 else 1) + polls.countP (fun p => !p.connected)
              = lost + (polls.countP (fun p => !p.connected) + if !poll.connected then 1 else 0) := by
            cases poll.connected with
            | false =>
                simp only [Bool.false_eq_true, if_false, Bool.not_false, if_true]
                omega
            | true => simp
          rw [hiff, hcount, List.forall_mem_cons]
          exact ⟨fun hr => ⟨⟨hgood.1, hr.1⟩, hr.2⟩, fun hr => ⟨hr.1.2, hr.2⟩⟩

/-- **How long a request waits for a server that sends nothing.**  It is pending as long as its 30 seconds
have not passed at any poll, every poll has found Wi-Fi, and at most 24 polls have found the connection
down, in all and not in a row; else an error is recorded. -/
theorem silentRequest_pending_iff {s₀ s₁ : State} {args : RequestArgs} {net : Network}
    (hreq : Connects s₀ s₁ args net) (hclock : net.millis ≠ 0) (hsilent : Silent net.response)
    (polls : List Poll) :
    ∃ s₂, FallibleRun.run step s₁ (polls.map .checkForHttpResponse) = .ok s₂ ∧
      (s₂.requestIsPending = true ↔
        (∀ p ∈ polls, Clock.elapsed net.millis p.millis ≤ 30000 ∧ p.wifiConnected = true) ∧
          polls.countP (fun p => !p.connected) ≤ 24) ∧
      (s₂.requestIsPending = false → s₂.requestCompletionStatus = .error) := by
  have hclient : Silent s₁.client := by
    rw [send_ok hreq.send_eq]
    exact hsilent
  obtain ⟨s₂, hrun, hiff, herr⟩ := hreq.waiting.run_silent polls hclock hclient (Nat.zero_le _)
  have htimed : ∀ p : Poll, timedOut p.millis net.millis = false ↔
      Clock.elapsed net.millis p.millis ≤ 30000 := by
    intro p
    rw [← Bool.not_eq_true, timedOut_iff, not_lt]
  simp only [htimed, Nat.zero_add] at hiff
  exact ⟨s₂, hrun, hiff, herr⟩

/-- Ten polls up and ten down leave a request waiting. -/
theorem silentRequest_pending_iff_tenDown :
    ∃ s₁ s₂, Connects .start s₁ getRequest (.reached [.pause true]) ∧
      FallibleRun.run step s₁
        ((List.replicate 10 (Poll.at 2) ++ List.replicate 10 Poll.down).map .checkForHttpResponse) = .ok s₂ ∧
      s₂.requestIsPending = true := by
  have hreq : Connects .start _ getRequest (.reached [.pause true]) := ⟨rfl, rfl, Script.done.run, rfl⟩
  obtain ⟨s₂, hrun, hiff, -⟩ := silentRequest_pending_iff hreq (by decide)
    (fun a ha => ⟨true, List.mem_singleton.mp ha⟩) (List.replicate 10 (.at 2) ++ List.replicate 10 .down)
  refine ⟨_, s₂, hreq, hrun, hiff.mpr ⟨?_, by decide⟩⟩
  intro p hp
  rcases List.mem_append.mp hp with hp | hp
  · rw [List.eq_of_mem_replicate hp]
    exact ⟨by decide, rfl⟩
  · rw [List.eq_of_mem_replicate hp]
    exact ⟨by decide, rfl⟩

end EspFirmware
