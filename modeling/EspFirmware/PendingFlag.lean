import EspFirmware.HeaderFields

/-!
# The pending flag

`requestIsPending` and `requestCompletionStatus` say whether a further poll can complete a request.  Three
places write them after a callback has returned: the connect-failure exit of `httpRequest`, the
process-callback exit of `checkForHttpResponse`, and `handleHttpResponseComplete`.  A request the callback
left waiting is lost there.  The no-Wi-Fi exit of `httpRequest` writes nothing after its callback, and a
request that ended there stays pending.

* `Live` — the current request was sent, was not cancelled, and has had no outcome;
* `Leftover`, `Script.leaves` — what a callback leaves behind, read off its script;
* `Call.Careful` — the callback a call invokes leaves no request waiting where the flags are written;
* `runCalls_notLost_iff` — no request is lost exactly in runs of such calls;
* `runCalls_finished_iff` — a finished request is not pending exactly where no request meets the no-Wi-Fi
  exit with a callback that does not cancel.
-/

namespace EspFirmware

open CString

/-! ### No request is lost -/

/-- The most recent request was sent, was not cancelled since, and has had no outcome. -/
def Live (s : State) : Prop :=
  ∃ cb, s.callbacks = some cb ∧
    (∃ before text after, s.trace = before ++ .sent cb.id text :: after ∧ .cancelled ∉ after) ∧
    ∀ c, .invoked cb.id c ∉ s.trace

/-- A live request can still be completed by a poll or a delivery. -/
def NotLost (s : State) : Prop :=
  Live s → s.requestIsPending = true ∨ s.requestCompletionStatus ≠ .idle

theorem Live.congr {s t : State} (h : Live t) (hcb : t.callbacks = s.callbacks)
    (htrace : t.trace = s.trace) : Live s := by
  obtain ⟨cb, h₁, h₂, h₃⟩ := h
  rw [htrace] at h₂ h₃
  exact ⟨cb, hcb ▸ h₁, h₂, h₃⟩

theorem not_live_invoked {s : State} {cb : Callbacks} (hcb : s.callbacks = some cb) (c : Callback) :
    ¬Live (s.log (.invoked cb.id c)) := by
  rintro ⟨cb', hcb', -, hno⟩
  obtain rfl : cb = cb' := Option.some.inj (hcb.symm.trans hcb')
  exact hno c (by simp [State.log])

theorem not_live_fail {s : State} (args : RequestArgs) (msg : List UInt8) :
    ¬Live ((s.register args).log (.invoked s.requests (.error msg))) := by
  have hcb : (s.register args).callbacks = some ⟨s.requests, args.processCallback⟩ := rfl
  exact not_live_invoked hcb (.error msg)

theorem not_live_cancel (s : State) : ¬Live s.userCancel := by
  rintro ⟨cb, -, ⟨before, text, after, htrace, hno⟩, -⟩
  rcases snoc_eq_append_cons htrace with ⟨-, he, -⟩ | ⟨after', rfl, -⟩
  · cases he
  · exact hno (by simp)

/-- What has become of the most recent request: it is not live, it waits for a poll, or it is live and
neither flag shows it. -/
inductive Leftover where
  | nothing | waiting | lost
  deriving DecidableEq

/-- The exits that write the flags lose a request that waits. -/
def Leftover.clear : Leftover → Leftover
  | .nothing => .nothing
  | .waiting => .lost
  | .lost => .lost

/-- What a callback leaves, where `l` was left before it. -/
def Script.leaves : Script → Leftover → Leftover
  | .done, l => l
  | .request _ net onError next, _ =>
      next.leaves
        (if net.wifiConnected then
          if net.connects then .waiting else (onError.leaves .nothing).clear
        else onError.leaves .nothing)
  | .cancel next, _ => next.leaves .nothing
  | .consume _ next, l => next.leaves l

/-- What is left in a state. -/
def Stands (s : State) : Leftover → Prop
  | .nothing => ¬Live s
  | .waiting => Live s ∧ s.requestIsPending = true ∧ s.requestCompletionStatus = .idle
  | .lost => Live s ∧ s.requestIsPending = false ∧ s.requestCompletionStatus = .idle

namespace Stands

variable {s : State} {l : Leftover}

theorem notLost_iff (h : Stands s l) : NotLost s ↔ l ≠ .lost := by
  cases l with
  | nothing => exact ⟨fun _ => by simp, fun _ hlive => absurd hlive h⟩
  | waiting => exact ⟨fun _ => by simp, fun _ _ => .inl h.2.1⟩
  | lost =>
      obtain ⟨hlive, hp, hst⟩ := h
      refine ⟨fun hnot => ?_, fun hne => absurd rfl hne⟩
      rcases hnot hlive with hp' | hst'
      · rw [hp] at hp'
        cases hp'
      · exact absurd hst hst'

theorem consume (h : Stands s l) (client : List Arrival) : Stands { s with client := client } l := by
  cases l with
  | nothing => exact fun hlive => h (hlive.congr rfl rfl)
  | waiting => exact ⟨h.1.congr rfl rfl, h.2⟩
  | lost => exact ⟨h.1.congr rfl rfl, h.2⟩

theorem clear (h : Stands s l) : Stands { s with requestIsPending := false } l.clear := by
  cases l with
  | nothing => exact fun hlive => h (hlive.congr rfl rfl)
  | waiting => exact ⟨h.1.congr rfl rfl, rfl, h.2.2⟩
  | lost => exact ⟨h.1.congr rfl rfl, rfl, h.2.2⟩

theorem finishHandle (h : Stands s l) : Stands s.finishHandle l.clear := by
  cases l with
  | nothing => exact fun hlive => h (hlive.congr rfl rfl)
  | waiting => exact ⟨h.1.congr rfl rfl, rfl, rfl⟩
  | lost => exact ⟨h.1.congr rfl rfl, rfl, rfl⟩

end Stands

theorem Leftover.clear_ne_lost_iff {l : Leftover} : l.clear ≠ .lost ↔ l = .nothing := by
  cases l <;> simp [Leftover.clear]

/-- A request that was sent waits. -/
theorem Stands.send {s s' : State} {args : RequestArgs} {net : Network} (ho : Ordered s)
    (h : s.send args net = .ok s') : Stands s' .waiting := by
  rw [send_ok h]
  refine ⟨⟨⟨s.requests, args.processCallback⟩, rfl, ⟨s.trace ++ [.registered s.requests],
    requestText s.server args net.deviceInfo, [], rfl, by simp⟩, fun c hm => ?_⟩, rfl, rfl⟩
  rcases List.mem_append.mp hm with hm | hm
  · rcases List.mem_append.mp hm with hm | hm
    · exact absurd (ho.invoked _ c hm) (lt_irrefl _)
    · simp at hm
  · simp at hm

/-- A request by its three exits. -/
theorem Stands.httpRequest {s s' : State} {args : RequestArgs} {net : Network} {onError : Script}
    (ho : Ordered s)
    (honError : ∀ t t', Ordered t → ¬Live t → onError.run t = .ok t' →
      Stands t' (onError.leaves .nothing))
    (h : s.httpRequest args net onError.run = .ok s') :
    Stands s' ((Script.request args net onError .done).leaves .nothing) := by
  have hfail : ∀ msg t, onError.run ((s.register args).log (.invoked s.requests (.error msg))) = .ok t →
      Stands t (onError.leaves .nothing) := fun msg t =>
    honError _ t (scriptInvariant_ordered.fail s args msg ho) (not_live_fail args msg)
  unfold State.httpRequest at h
  simp only [Script.leaves]
  split_ifs at h with hwifi hconn
  · rw [if_pos hwifi, if_pos hconn]
    exact .send ho h
  · obtain ⟨t, ht, hclear⟩ := FallibleRun.bind_ok h
    cases hclear
    rw [if_pos hwifi, if_neg hconn]
    exact (hfail _ t ht).clear
  · rw [if_neg hwifi]
    exact hfail _ s' h

/-- **What a callback leaves is read off its script.** -/
theorem Script.run_stands (script : Script) {l : Leftover} {s s' : State} (ho : Ordered s)
    (hl : Stands s l) (h : script.run s = .ok s') : Stands s' (script.leaves l) := by
  induction script generalizing l s s' with
  | done =>
      cases h
      exact hl
  | cancel next ih => exact ih (scriptInvariant_ordered.cancel s ho) (l := .nothing) (not_live_cancel s) h
  | consume k next ih =>
      exact ih (scriptInvariant_ordered.consume s (s.client.drop k) ho) (hl.consume _) h
  | request args net onError next ihError ihNext =>
      obtain ⟨t, ht, hnext⟩ := FallibleRun.bind_ok h
      have hot : Ordered t := scriptInvariant_ordered.httpRequest
        (fun _ _ hu hr => scriptInvariant_ordered.run onError hu hr) ho ht
      exact ihNext hot (.httpRequest ho (fun _ _ hu hnot hr => ihError (l := .nothing) hu hnot hr) ht)
        hnext

/-- What the callback of a request that has had no outcome leaves. -/
theorem Script.run_invoked {script : Script} {s s' : State} {cb : Callbacks} {c : Callback}
    (ho : Ordered s) (hcb : s.callbacks = some cb) (hfresh : Fresh s)
    (h : script.run (s.log (.invoked cb.id c)) = .ok s') : Stands s' (script.leaves .nothing) :=
  script.run_stands (l := .nothing) (ho.invoke hcb hfresh c) (not_live_invoked hcb c) h

/-- The poll invokes a process callback: the request has one, and the headers of its response come to
their end. -/
def InvokesProcess (s : State) (poll : Poll) : Prop :=
  Awaiting s poll ∧ (∃ id, s.callbacks = some ⟨id, true⟩) ∧ (Arrival.available s.client).1 ≠ 0 ∧
    (headerFields false (Arrival.available s.client).2).isSome

/-- The callback the call invokes, if it invokes one, leaves no request waiting where the flags are
written afterwards.  A connection that fails writes them, a request without Wi-Fi does not. -/
def Call.Careful (s : State) : Call → Prop
  | .httpRequest args net onError =>
      (Script.request args net onError .done).leaves .nothing ≠ .lost
  | .checkForHttpResponse poll => InvokesProcess s poll → poll.onProcess.leaves .nothing = .nothing
  | .handleHttpResponseComplete onSuccess onError =>
      (s.requestCompletionStatus = .success → onSuccess.leaves .nothing = .nothing) ∧
        (s.requestCompletionStatus = .error → onError.leaves .nothing = .nothing)
  | .cancelHttpRequest => True
  | .setupHttpRequestManager => True

/-- A poll that does not come to the client. -/
theorem checkForHttpResponse_not_awaiting {s s' : State} {poll : Poll} (hwait : ¬Awaiting s poll)
    (h : s.checkForHttpResponse poll = .ok s') :
    (∃ lost, s' = { s with lostConnectionTimes := lost }) ∨ ∃ msg, s' = s.giveUp msg := by
  unfold State.checkForHttpResponse at h
  split at h
  · cases h
    exact .inl ⟨s.lostConnectionTimes, rfl⟩
  · rename_i hidle
    split at h
    · cases h
      exact .inr ⟨_, rfl⟩
    · rename_i htime
      split at h
      · cases h
        exact .inr ⟨_, rfl⟩
      · rename_i hwifi
        split at h
        · split at h
          · cases h
            exact .inl ⟨_, rfl⟩
          · cases h
            exact .inr ⟨_, rfl⟩
        · rename_i hconn
          simp only [not_or, not_not] at hidle hwifi hconn
          exact absurd ⟨hidle.1, hidle.2, by simpa using htime, hwifi, hconn⟩ hwait

theorem NotLost.giveUp (s : State) (msg : List UInt8) : NotLost (s.giveUp msg) := fun _ =>
  .inr (by simp [State.giveUp, State.setPendingErrorResponse, State.cancelHttpRequest])

/-- A poll that invokes no process callback loses nothing. -/
theorem NotLost.poll {s s' : State} {poll : Poll} (hl : NotLost s) (hno : ¬InvokesProcess s poll)
    (h : s.checkForHttpResponse poll = .ok s') : NotLost s' := by
  by_cases hwait : Awaiting s poll
  · cases checkForHttpResponse_spec h with
    | ignored => exact hl
    | waited lost client hp => exact fun _ => .inl hp
    | gaveUp msg buffer => exact .giveUp _ msg
    | completed => exact fun _ => .inr (by simp)
    | processed cb headerData client t hp hlt hcb hpoll hrun =>
        obtain ⟨hprocess, hav, hread⟩ := pollResponse_process_iff.mp hpoll
        obtain ⟨fields, hfields, -⟩ := readHeaders_ended_iff.mp hread
        obtain ⟨id, process⟩ := cb
        obtain rfl : process = true := hprocess
        exact absurd ⟨hwait, ⟨id, hcb⟩, hav, by rw [hfields]; rfl⟩ hno
  · rcases checkForHttpResponse_not_awaiting hwait h with ⟨lost, rfl⟩ | ⟨msg, rfl⟩
    · exact fun hlive => hl (hlive.congr rfl rfl)
    · exact .giveUp s msg

/-- A poll that invokes one loses the request it leaves waiting. -/
theorem InvokesProcess.notLost_iff {s s' : State} {poll : Poll} (hs : Sound s)
    (hinv : InvokesProcess s poll) (h : s.checkForHttpResponse poll = .ok s') :
    NotLost s' ↔ poll.onProcess.leaves .nothing = .nothing := by
  obtain ⟨hwait, ⟨id, hcb⟩, hav, hsome⟩ := hinv
  obtain ⟨⟨fields, client⟩, hfields⟩ := Option.isSome_iff_exists.mp hsome
  have hpoll : pollResponse true poll.headerData s.responseBuffer s.client
      = .ok (.process (fields.foldl Field.store poll.headerData) client) :=
    pollResponse_process_iff.mpr ⟨rfl, hav, readHeaders_ended_iff.mpr ⟨fields, hfields, rfl⟩⟩
  rw [checkForHttpResponse_awaiting hwait hcb, hpoll] at h
  change (poll.onProcess.run _ >>= _) = _ at h
  obtain ⟨t, hrun, hclear⟩ := FallibleRun.bind_ok h
  cases hclear
  have hfresh : Fresh s := hs.fresh (.inl ⟨hwait.pending, hwait.sent⟩)
  have ho := scriptInvariant_ordered.consume s client hs.ordered
  rw [(Script.run_invoked (s := { s with client := client }) ho hcb hfresh hrun).clear.notLost_iff,
    Leftover.clear_ne_lost_iff]

/-- **Whether a call loses a request.** -/
theorem step_notLost_iff {s s' : State} {call : Call} (hs : Sound s) (hl : NotLost s)
    (h : step s call = .ok s') : NotLost s' ↔ call.Careful s := by
  cases call with
  | httpRequest args net onError =>
      have hstands : Stands s' ((Script.request args net onError .done).leaves .nothing) :=
        .httpRequest hs.ordered (fun _ _ ho hnot hrun => onError.run_stands (l := .nothing) ho hnot hrun) h
      exact hstands.notLost_iff
  | cancelHttpRequest =>
      cases h
      exact iff_of_true (fun hlive => absurd hlive (not_live_cancel s)) trivial
  | setupHttpRequestManager =>
      cases h
      exact iff_of_true (fun hlive => hl (hlive.congr rfl rfl)) trivial
  | checkForHttpResponse poll =>
      by_cases hinv : InvokesProcess s poll
      · exact (hinv.notLost_iff hs h).trans ⟨fun hleaves _ => hleaves, fun hc => hc hinv⟩
      · exact iff_of_true (hl.poll hinv h) fun hinv' => absurd hinv' hinv
  | handleHttpResponseComplete onSuccess onError =>
      cases handleHttpResponseComplete_spec h with
      | idle hst => exact iff_of_true hl ⟨fun h => by simp [hst] at h, fun h => by simp [hst] at h⟩
      | delivered cb t hst hcb hrun =>
          have hfresh : Fresh s := hs.fresh (.inr (by simp [hst]))
          rw [(Script.run_invoked hs.ordered hcb hfresh hrun).finishHandle.notLost_iff,
            Leftover.clear_ne_lost_iff]
          exact ⟨fun hleaves => ⟨fun _ => hleaves, fun h => by simp [hst] at h⟩, fun hc => hc.1 hst⟩
      | failed cb t hst hcb hrun =>
          have hfresh : Fresh s := hs.fresh (.inr (by simp [hst]))
          rw [(Script.run_invoked hs.ordered hcb hfresh hrun).finishHandle.notLost_iff,
            Leftover.clear_ne_lost_iff]
          exact ⟨fun hleaves => ⟨fun h => by simp [hst] at h, fun _ => hleaves⟩, fun hc => hc.2 hst⟩

theorem notLost_start : NotLost State.start := by
  rintro ⟨cb, hcb, -⟩
  simp [State.start] at hcb

/-- **No request is lost exactly where no callback that is invoked leaves one waiting.**  In a run from
program start, the rule holds in every state between the calls if and only if every call is careful in
the state it is made in. -/
theorem runCalls_notLost_iff (calls : List Call) {s : State} (h : runCalls calls = .ok s) :
    (∀ before after t, calls = before ++ after → runCalls before = .ok t → NotLost t) ↔
      ∀ before call after t, calls = before ++ call :: after → runCalls before = .ok t →
        call.Careful t :=
  FallibleRun.run_holds_iff (fun _ _ _ hs h => step_sound hs h)
    (fun _ _ _ hs hl h => step_notLost_iff hs hl h) .start notLost_start h

/-- A request that times out.  Its error callback asks again and thinks better of it; the success callback,
which would ask again too, is not invoked.  The next request comes from outside. -/
def secondThoughtsRun : List Call :=
  [.httpRequest getRequest (.reached []) .done, .checkForHttpResponse (.at 30002),
    .handleHttpResponseComplete (.request getRequest (.reached []) .done .done)
      (.request getRequest (.reached []) .done (.cancel .done)),
    .httpRequest getRequest (.reached []) .done]

theorem runCalls_notLost_iff_secondThoughtsRun : ∃ s, runCalls secondThoughtsRun = .ok s ∧ Live s ∧
    ((∀ before after t, secondThoughtsRun = before ++ after → runCalls before = .ok t → NotLost t) ↔
      ∀ before call after t, secondThoughtsRun = before ++ call :: after → runCalls before = .ok t →
        call.Careful t) ∧
    ∀ before after t, secondThoughtsRun = before ++ after → runCalls before = .ok t → NotLost t := by
  have hiff := runCalls_notLost_iff secondThoughtsRun rfl
  refine ⟨_, rfl, ?_, hiff, hiff.mpr ?_⟩
  · refine ⟨⟨2, false⟩, rfl, ⟨[.registered 0, .sent 0 _, .recorded _, .invoked 0 _, .registered 1,
      .sent 1 _, .cancelled, .registered 2], _, [], rfl, by simp⟩, fun c hc => ?_⟩
    change HttpEvent.invoked 2 c ∈ [.registered 0, .sent 0 _, .recorded _, .invoked 0 _, .registered 1,
      .sent 1 _, .cancelled, .registered 2, .sent 2 _] at hc
    simp at hc
  · -- the four calls, one after another
    have hsent : (Script.request getRequest (.reached []) .done .done).leaves .nothing ≠ .lost := by
      decide
    refine FallibleRun.steps_cons.mpr ⟨hsent, fun s₁ h₁ => ?_⟩
    refine FallibleRun.steps_cons.mpr ⟨fun _ => rfl, fun s₂ h₂ => ?_⟩
    obtain rfl := Except.ok.inj h₁
    obtain rfl := Except.ok.inj h₂
    refine FallibleRun.steps_cons.mpr ⟨⟨fun hst => ?_, fun _ => rfl⟩, fun s₃ h₃ => ?_⟩
    · cases hst
    · refine FallibleRun.steps_cons.mpr ⟨hsent, fun s₄ h₄ => ?_⟩
      intro before call after t hsplit
      simp at hsplit

/-- The second request is on its way, and neither a poll nor a delivery will ever look at it. -/
theorem retryRun_lost : ∃ s, runCalls retryRun = .ok s ∧ Live s ∧ s.requestIsPending = false ∧
    s.requestCompletionStatus = .idle := by
  refine ⟨_, rfl, ⟨⟨1, false⟩, rfl, ⟨[.registered 0, .sent 0 _, .recorded _, .invoked 0 _,
    .registered 1], _, [], rfl, by simp⟩, ?_⟩, rfl, rfl⟩
  intro c hc
  change HttpEvent.invoked 1 c ∈ [.registered 0, .sent 0 _, .recorded _, .invoked 0 _, .registered 1,
    .sent 1 _] at hc
  simp at hc

/-! ### A finished request is not pending -/

/-- As soon as a callback of the most recent request has been invoked, the request is not pending. -/
def FinishedNotPending (s : State) : Prop :=
  ∀ cb c, s.callbacks = some cb → .invoked cb.id c ∈ s.trace → s.httpRequestPending = false

/-- The callback starts no request. -/
def Script.startsNothing : Script → Bool
  | .done => true
  | .request _ _ _ _ => false
  | .cancel next => next.startsNothing
  | .consume _ next => next.startsNothing

/-- The callback cancels. -/
def Script.cancels : Script → Bool
  | .done => false
  | .request _ _ _ next => next.cancels
  | .cancel _ => true
  | .consume _ next => next.cancels

/-- A callback that starts no request: it may cancel, and does nothing else to the requests. -/
theorem Script.run_startsNothing {script : Script} {s s' : State} (hq : script.startsNothing = true)
    (h : script.run s = .ok s') :
    s'.callbacks = s.callbacks ∧ (∀ id c, .invoked id c ∈ s'.trace ↔ .invoked id c ∈ s.trace) ∧
      s'.requestIsPending = (s.requestIsPending && !script.cancels) := by
  induction script generalizing s with
  | done =>
      cases h
      exact ⟨rfl, fun _ _ => Iff.rfl, by simp [Script.cancels]⟩
  | request args net onError next => cases hq
  | cancel next ih =>
      obtain ⟨hcb, hinv, hp⟩ := ih hq h
      refine ⟨hcb, fun id c => (hinv id c).trans ?_, ?_⟩
      · simp [State.userCancel, State.log, State.cancelHttpRequest]
      · rw [hp]
        simp [State.userCancel, State.log, State.cancelHttpRequest, Script.cancels]
  | consume k next ih =>
      obtain ⟨hcb, hinv, hp⟩ := ih (s := { s with client := s.client.drop k }) hq h
      exact ⟨hcb, hinv, hp⟩

/-- Every callback of the call starts no request. -/
def Call.StartsNothing : Call → Prop
  | .httpRequest _ _ onError => onError.startsNothing = true
  | .checkForHttpResponse poll => poll.onProcess.startsNothing = true
  | .handleHttpResponseComplete onSuccess onError =>
      onSuccess.startsNothing = true ∧ onError.startsNothing = true
  | .cancelHttpRequest => True
  | .setupHttpRequestManager => True

/-- A request finds Wi-Fi, or its error callback cancels. -/
def Call.EndsOffline : Call → Prop
  | .httpRequest _ net onError => net.wifiConnected = true ∨ onError.cancels = true
  | _ => True

theorem finishedNotPending_of_idle {s : State} (h : s.requestIsPending = false) :
    FinishedNotPending s := fun _ _ _ _ => h

theorem step_finished {s s' : State} {call : Call} (ho : Ordered s) (hs : FinishedNotPending s)
    (hq : call.StartsNothing) (hc : call.EndsOffline) (h : step s call = .ok s') :
    FinishedNotPending s' := by
  cases call with
  | httpRequest args net onError =>
      simp only [step, State.httpRequest] at h
      split_ifs at h with hwifi hconn
      · -- a request that was sent has had no outcome
        intro cb c hcb hm
        rw [send_ok h] at hcb hm
        obtain rfl : ⟨s.requests, args.processCallback⟩ = cb := Option.some.inj hcb
        rcases List.mem_append.mp hm with hm | hm
        · rcases List.mem_append.mp hm with hm | hm
          · exact absurd (ho.invoked _ _ hm) (lt_irrefl _)
          · simp at hm
        · simp at hm
      · obtain ⟨u, -, hu⟩ := FallibleRun.bind_ok h
        cases hu
        exact finishedNotPending_of_idle rfl
      · apply finishedNotPending_of_idle
        rw [(Script.run_startsNothing hq h).2.2, hc.resolve_left hwifi]
        simp
  | cancelHttpRequest =>
      cases h
      exact finishedNotPending_of_idle rfl
  | setupHttpRequestManager =>
      cases h
      exact hs
  | handleHttpResponseComplete onSuccess onError =>
      cases handleHttpResponseComplete_spec h with
      | idle => exact hs
      | delivered => exact finishedNotPending_of_idle rfl
      | failed => exact finishedNotPending_of_idle rfl
  | checkForHttpResponse poll =>
      cases checkForHttpResponse_spec h with
      | ignored => exact hs
      | waited lost client hp => exact hs
      | gaveUp => exact finishedNotPending_of_idle rfl
      | processed => exact finishedNotPending_of_idle rfl
      | completed => exact finishedNotPending_of_idle rfl

/-- The no-Wi-Fi exit with a callback that does not cancel leaves a finished request pending. -/
theorem step_offline_pending {s s' : State} {call : Call} (hq : call.StartsNothing)
    (hc : ¬call.EndsOffline) (h : step s call = .ok s') : ¬FinishedNotPending s' := by
  cases call with
  | httpRequest args net onError =>
      simp only [Call.EndsOffline, not_or] at hc
      simp only [step, State.httpRequest] at h
      rw [if_pos hc.1] at h
      obtain ⟨hcb, hinv, hp⟩ := Script.run_startsNothing hq h
      intro hfin
      have hidle := hfin ⟨s.requests, args.processCallback⟩ (.error (ascii "No wifi connection"))
        (by rw [hcb]; rfl) ((hinv _ _).mpr (by simp [State.log]))
      have hpend : s'.requestIsPending = true := by
        rw [hp, Bool.not_eq_true _ |>.mp hc.2]
        rfl
      rw [State.httpRequestPending, hpend] at hidle
      cases hidle
  | checkForHttpResponse poll => exact absurd trivial hc
  | handleHttpResponseComplete onSuccess onError => exact absurd trivial hc
  | cancelHttpRequest => exact absurd trivial hc
  | setupHttpRequestManager => exact absurd trivial hc

/-- **Exactly when a finished request is not pending.**  In a run from program start whose callbacks start
no request, it holds in every state between the calls if and only if every request finds Wi-Fi or has an
error callback that cancels. -/
theorem runCalls_finished_iff (calls : List Call) {s : State} (hq : ∀ call ∈ calls, call.StartsNothing)
    (h : runCalls calls = .ok s) :
    (∀ before after t, calls = before ++ after → runCalls before = .ok t → FinishedNotPending t) ↔
      ∀ call ∈ calls, call.EndsOffline := by
  constructor
  · intro hall call hmem
    by_contra hc
    obtain ⟨before, after, rfl⟩ := List.append_of_mem hmem
    rw [← List.singleton_append, ← List.append_assoc] at h hall
    obtain ⟨t, ht, -⟩ := FallibleRun.run_append_ok h
    obtain ⟨u, -, hu⟩ := FallibleRun.run_append_ok ht
    obtain ⟨v, hv, hvt⟩ := FallibleRun.run_cons_ok hu
    cases hvt
    exact step_offline_pending (hq call hmem) hc hv (hall _ after t rfl ht)
  · intro hends before after t heq ht
    subst heq
    have hboth := runCalls_invariant (P := fun s => Sound s ∧ FinishedNotPending s)
      (Q := fun call => call.StartsNothing ∧ call.EndsOffline)
      ⟨.start, finishedNotPending_of_idle rfl⟩
      (fun _ _ _ hs hcall h => ⟨step_sound hs.1 h, step_finished hs.1.ordered hs.2 hcall.1 hcall.2 h⟩)
      (fun call hm => ⟨hq call (List.mem_append_left _ hm), hends call (List.mem_append_left _ hm)⟩) ht
    exact hboth.2

theorem runCalls_finished_iff_timeoutRun :
    (∀ call ∈ timeoutRun, call.StartsNothing) ∧ ∃ s, runCalls timeoutRun = .ok s ∧
      ((∀ before after t, timeoutRun = before ++ after → runCalls before = .ok t →
        FinishedNotPending t) ↔ ∀ call ∈ timeoutRun, call.EndsOffline) := by
  have hq : ∀ call ∈ timeoutRun, call.StartsNothing := by
    simp [timeoutRun, Call.StartsNothing, Script.startsNothing, Poll.at]
  exact ⟨hq, _, rfl, runCalls_finished_iff timeoutRun hq rfl⟩

/-- A request without Wi-Fi. -/
def offlineRun : List Call :=
  [.httpRequest getRequest { Network.reached [] with wifiConnected := false } .done]

/-- Its error callback has been invoked, and it is pending. -/
theorem offlineRun_pending : (∀ call ∈ offlineRun, call.StartsNothing) ∧
    ∃ s, runCalls offlineRun = .ok s ∧ ¬FinishedNotPending s := by
  refine ⟨by simp [offlineRun, Call.StartsNothing, Script.startsNothing], _, rfl, fun h => ?_⟩
  have hidle := h ⟨0, false⟩ (.error (ascii "No wifi connection")) rfl
    (List.mem_append_right _ (List.mem_singleton.mpr rfl))
  cases hidle

end EspFirmware
