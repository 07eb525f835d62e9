import EspFirmware.HttpRequestManager

/-!
# Runs of the request manager

Callbacks may start and cancel requests, so a property of the globals has to survive whole scripts.  A
script only does five things to the globals, and what each of them preserves every script preserves.

* `ScriptInvariant`, `Script.run_invariant` — the induction over scripts, once;
* `Ordered` — requests are numbered in the order they register, each callback invocation belongs to the
  request registered last, and none is invoked twice;
* `Fresh` — as long as a poll or a delivery can still complete the current request, none of its callbacks
  has been invoked;
* `runCalls_outcomes` — at most one outcome per request, and its own.
-/

namespace EspFirmware

open CString

/-! ### What a script preserves -/

/-- `P` survives everything a callback can do. -/
structure ScriptInvariant (P : State → Prop) : Prop where
  cancel : ∀ s, P s → P s.userCancel
  consume : ∀ s client, P s → P { s with client := client }
  fail : ∀ s args msg, P s → P ((s.register args).log (.invoked s.requests (.error msg)))
  send : ∀ s args net s', P s → s.send args net = .ok s' → P s'
  clear : ∀ s, P s → P { s with requestIsPending := false }

variable {P : State → Prop}

theorem ScriptInvariant.httpRequest (h : ScriptInvariant P) {s s' : State} {args : RequestArgs}
    {net : Network} {onError : State → Except Fault State}
    (honError : ∀ t t', P t → onError t = .ok t' → P t') (hs : P s)
    (hrun : s.httpRequest args net onError = .ok s') : P s' := by
  unfold State.httpRequest at hrun
  split_ifs at hrun
  · exact h.send s args net s' hs hrun
  · obtain ⟨t, ht, hs'⟩ := FallibleRun.bind_ok hrun
    cases hs'
    exact h.clear t (honError _ t (h.fail s args _ hs) ht)
  · exact honError _ s' (h.fail s args _ hs) hrun

/-- **The script rule.** -/
theorem ScriptInvariant.run (h : ScriptInvariant P) (script : Script) {s s' : State} (hs : P s)
    (hrun : script.run s = .ok s') : P s' := by
  induction script generalizing s s' with
  | done =>
      cases hrun
      exact hs
  | request args net onError next ihError ihNext =>
      obtain ⟨t, ht, hnext⟩ := FallibleRun.bind_ok hrun
      exact ihNext (h.httpRequest (fun _ _ hu hrun => ihError hu hrun) hs ht) hnext
  | cancel next ih => exact ih (h.cancel s hs) hrun
  | consume k next ih => exact ih (h.consume s _ hs) hrun

/-- A request that is sent has its header line inside the buffer. -/
theorem send_ok {s s' : State} {args : RequestArgs} {net : Network} (h : s.send args net = .ok s') :
    s' = { (s.register args).log (.sent s.requests (requestText s.server args net.deviceInfo)) with
      client := net.response
      lastConnectionTime := net.millis } := by
  unfold State.send at h
  split_ifs at h
  cases h
  rfl

/-- A callback only adds to the trace. -/
theorem scriptInvariant_trace (l : List HttpEvent) : ScriptInvariant fun s => l <+: s.trace where
  cancel s hs := hs.trans (List.prefix_append _ _)
  consume s client hs := hs
  fail s args msg hs := by
    have hreg : l <+: (s.register args).trace := hs.trans (List.prefix_append _ _)
    exact hreg.trans (List.prefix_append _ _)
  send s args net s' hs h := by
    rw [send_ok h]
    have hreg : l <+: (s.register args).trace := hs.trans (List.prefix_append _ _)
    exact hreg.trans (List.prefix_append _ _)
  clear s hs := hs

/-! ### What a poll and a delivery can do -/

/-- The messages a poll can end a request with once it reads from the client. -/
def pollMessages : List (List UInt8) :=
  [ascii "Server Maintenance", ascii "403 Forbidden", ascii "Missing HTTP status code",
    ascii "No end of header"]

theorem ne_nil_of_mem_pollMessages {msg : List UInt8} (h : msg ∈ pollMessages) : msg ≠ [] := by
  rintro rfl
  exact absurd h (by decide)

theorem badStatusMessage_mem (statusCode : CharArray 10) :
    badStatusMessage statusCode ∈ pollMessages := by
  unfold badStatusMessage
  by_cases h : strEq statusCode.1 (ascii "503") = true
  · -- a code that is 503 is not 403, so the second branch is taken
    have h403 : ¬strEq statusCode.1 (ascii "403") = true := by
      intro h'
      simp only [strEq, decide_eq_true_eq] at h h'
      rw [h] at h'
      exact absurd h' (by decide)
    rw [if_neg (not_not.mpr h), if_pos h403]
    simp [pollMessages]
  · rw [if_pos h]
    simp [pollMessages]

theorem headerLine_rejected {found : Bool} {headerData : ResponseHeaderData} {raw msg : List UInt8}
    (h : headerLine found headerData raw = .ok (.rejected msg)) : msg ∈ pollMessages := by
  unfold headerLine at h
  split at h
  · cases h
  · split at h
    · cases h
    · unfold headerTests at h
      split at h
      · split at h
        · cases h
        · simp only at h
          split at h
          · cases h
            exact badStatusMessage_mem _
          · cases h
      · split at h
        · cases h
          simp [pollMessages]
        · repeat' split at h
          all_goals cases h

theorem readHeaders_rejected {found : Bool} {headerData : ResponseHeaderData}
    {client client' : List Arrival} {msg : List UInt8}
    (h : readHeaders found headerData client = .ok (.rejected msg client')) : msg ∈ pollMessages := by
  fun_induction readHeaders found headerData client with
  | case1 => cases h
  | case2 => cases h
  | case3 => cases h
  | case4 _ _ _ _ msg' hline =>
      cases h
      exact headerLine_rejected hline
  | case5 _ _ _ _ _ _ _ ih => exact ih h

/-- **Everything a successful `checkForHttpResponse` can do.** -/
inductive PollSpec (s : State) (poll : Poll) : State → Prop
  | ignored : s.requestIsPending = false ∨ s.lastConnectionTime = 0 → PollSpec s poll s
  | waited (lost : ℕ) (client : List Arrival) : s.requestIsPending = true →
      PollSpec s poll { s with lostConnectionTimes := lost, client := client }
  | gaveUp (msg : List UInt8) (buffer : CharArray responseSize) : s.requestIsPending = true →
      s.lastConnectionTime ≠ 0 → msg ≠ [] →
      PollSpec s poll ({ s with responseBuffer := buffer }.giveUp msg)
  | processed (cb : Callbacks) (headerData : ResponseHeaderData) (client : List Arrival) (s' : State) :
      s.requestIsPending = true → s.lastConnectionTime ≠ 0 → s.callbacks = some cb →
      pollResponse cb.process poll.headerData s.responseBuffer s.client
        = .ok (.process headerData client) →
      poll.onProcess.run ({ s with client := client }.log (.invoked cb.id (.process headerData)))
        = .ok s' →
      PollSpec s poll { s' with requestIsPending := false }
  | completed (cb : Callbacks) (buffer : CharArray responseSize) (client : List Arrival) :
      s.requestIsPending = true → s.lastConnectionTime ≠ 0 → s.callbacks = some cb →
      pollResponse cb.process poll.headerData s.responseBuffer s.client
        = .ok (.success buffer client) →
      PollSpec s poll { s with
        responseBuffer := buffer
        client := []
        requestCompletionStatus := .success
        requestIsPending := false }

theorem pollResponse_failed {process : Bool} {headerData : ResponseHeaderData}
    {buffer : CharArray responseSize} {client client' : List Arrival} {msg : List UInt8}
    (h : pollResponse process headerData buffer client = .ok (.failed msg client')) :
    msg ∈ pollMessages := by
  unfold pollResponse at h
  split at h
  · cases h
  · obtain ⟨r, hr, h⟩ := FallibleRun.bind_ok h
    cases r with
    | rejected msg' client'' =>
        cases h
        exact readHeaders_rejected hr
    | ended found headerData' client'' =>
        cases found with
        | false =>
            cases h
            simp [pollMessages]
        | true =>
            simp only at h
            split at h
            · cases h
            · obtain ⟨buffer', -, h⟩ := FallibleRun.bind_ok h
              split at h <;> cases h

theorem checkForHttpResponse_spec {s s' : State} {poll : Poll}
    (h : s.checkForHttpResponse poll = .ok s') : PollSpec s poll s' := by
  unfold State.checkForHttpResponse at h
  split at h
  · rename_i hidle
    cases h
    exact .ignored (by simpa using hidle)
  · rename_i hgo
    have hp : s.requestIsPending = true := by
      simp only [not_or, not_not] at hgo
      exact hgo.1
    have hl : s.lastConnectionTime ≠ 0 := fun hz => hgo (.inr hz)
    split at h
    · cases h
      exact .gaveUp (ascii "Connection Timeout") s.responseBuffer hp hl (by decide)
    · split at h
      · cases h
        exact .gaveUp (ascii "Lost Wifi Connection") s.responseBuffer hp hl (by decide)
      · split at h
        · split at h
          · cases h
            exact .waited _ s.client hp
          · cases h
            exact .gaveUp (ascii "Lost Connection") s.responseBuffer hp hl (by decide)
        · split at h
          · cases h
          · rename_i cb hcb
            obtain ⟨r, hr, h⟩ := FallibleRun.bind_ok h
            cases r with
            | nothing client =>
                cases h
                exact .waited s.lostConnectionTimes client hp
            | failed msg client =>
                cases h
                exact .gaveUp msg s.responseBuffer hp hl
                  (ne_nil_of_mem_pollMessages (pollResponse_failed hr))
            | process headerData client =>
                obtain ⟨t, ht, h⟩ := FallibleRun.bind_ok h
                cases h
                exact .processed cb headerData client t hp hl hcb hr ht
            | success buffer client =>
                cases h
                exact .completed cb buffer client hp hl hcb hr
            | noBody buffer client =>
                cases h
                exact .gaveUp (ascii "No body content") buffer hp hl (by decide)

/-- A request is out on a connection that stands, and its 30 seconds have not passed. -/
structure Awaiting (s : State) (poll : Poll) : Prop where
  pending : s.requestIsPending = true
  sent : s.lastConnectionTime ≠ 0
  inTime : timedOut poll.millis s.lastConnectionTime = false
  wifi : poll.wifiConnected = true
  connected : poll.connected = true

/-- A poll of such a request reads from the client. -/
theorem checkForHttpResponse_awaiting {s : State} {poll : Poll} {cb : Callbacks} (h : Awaiting s poll)
    (hcb : s.callbacks = some cb) :
    s.checkForHttpResponse poll
      = pollResponse cb.process poll.headerData s.responseBuffer s.client >>=
          s.finishPoll cb poll.onProcess := by
  simp only [State.checkForHttpResponse, h.pending, h.sent, h.inTime, h.wifi, h.connected, not_true,
    or_self, if_false, Bool.false_eq_true, hcb]

/-- A script never leaves an error status behind. -/
theorem scriptInvariant_noError : ScriptInvariant fun s => s.requestCompletionStatus ≠ .error where
  cancel s hs := hs
  consume s client hs := hs
  fail s args msg hs := by simp [State.register, State.log]
  send s args net s' hs h := by
    rw [send_ok h]
    simp [State.register, State.log]
  clear s hs := hs

/-- **Everything a successful `handleHttpResponseComplete` can do.** -/
inductive HandleSpec (s : State) (onSuccess onError : Script) : State → Prop
  | idle : s.requestCompletionStatus = .idle → HandleSpec s onSuccess onError s
  | delivered (cb : Callbacks) (s' : State) : s.requestCompletionStatus = .success →
      s.callbacks = some cb →
      onSuccess.run (s.log (.invoked cb.id (.success s.responseBuffer.str))) = .ok s' →
      HandleSpec s onSuccess onError s'.finishHandle
  | failed (cb : Callbacks) (s' : State) : s.requestCompletionStatus = .error →
      s.callbacks = some cb →
      onError.run (s.log (.invoked cb.id (.error s.pendingErrorResponse.str))) = .ok s' →
      HandleSpec s onSuccess onError s'.finishHandle

theorem handleHttpResponseComplete_spec {s s' : State} {onSuccess onError : Script}
    (h : s.handleHttpResponseComplete onSuccess onError = .ok s') :
    HandleSpec s onSuccess onError s' := by
  unfold State.handleHttpResponseComplete at h
  cases hst : s.requestCompletionStatus with
  | idle =>
      rw [if_pos hst] at h
      cases h
      exact .idle hst
  | success =>
      rw [if_neg (by simp [hst])] at h
      obtain ⟨s₁, h₁, h⟩ := FallibleRun.bind_ok h
      rw [if_pos hst] at h₁
      unfold State.handleResponse at h₁
      split at h₁
      · cases h₁
      · rename_i cb hcb
        have hne : s₁.requestCompletionStatus ≠ .error :=
          scriptInvariant_noError.run onSuccess (by simp [State.log, hst]) h₁
        rw [if_neg hne] at h
        cases h
        exact .delivered cb s₁ hst hcb h₁
  | error =>
      rw [if_neg (by simp [hst])] at h
      obtain ⟨s₁, h₁, h⟩ := FallibleRun.bind_ok h
      rw [if_neg (by simp [hst])] at h₁
      cases h₁
      rw [if_pos hst] at h
      obtain ⟨s₂, h₂, h⟩ := FallibleRun.bind_ok h
      unfold State.handleInvalidResponse at h₂
      split at h₂
      · cases h₂
      · rename_i cb hcb
        cases h
        exact .failed cb s₂ hst hcb h₂

/-! ### Numbered requests -/

/-- The event is an invocation of one of request `id`'s callbacks. -/
def HttpEvent.invokes (id : ℕ) : HttpEvent → Bool
  | .invoked i _ => i == id
  | _ => false

/-- How often a callback of request `id` was invoked. -/
def invocations (id : ℕ) (trace : List HttpEvent) : ℕ := trace.countP (HttpEvent.invokes id)

/-- Requests are numbered in the order they register, and invocations belong to the last one. -/
structure Ordered (s : State) : Prop where
  current : ∀ cb, s.callbacks = some cb → cb.id + 1 = s.requests
  registered : ∀ id, .registered id ∈ s.trace → id < s.requests
  sent : ∀ id text, .sent id text ∈ s.trace → id < s.requests
  invoked : ∀ id c, .invoked id c ∈ s.trace → id < s.requests
  sorted : ∀ before after id, s.trace = before ++ .registered id :: after →
    ∀ id', .registered id' ∈ before → id' < id
  own : ∀ before after id, s.trace = before ++ .registered id :: after →
    ∀ id' c, .invoked id' c ∈ after → id ≤ id'
  once : ∀ id, invocations id s.trace ≤ 1

theorem snoc_eq_append_cons {α : Type} {l before after : List α} {e r : α}
    (h : l ++ [e] = before ++ r :: after) :
    (l = before ∧ e = r ∧ after = []) ∨ ∃ after', after = after' ++ [e] ∧ l = before ++ r :: after' := by
  rcases List.eq_nil_or_concat after with rfl | ⟨after', a, rfl⟩
  · obtain ⟨h₁, h₂⟩ := List.append_inj' h rfl
    exact .inl ⟨h₁, by simpa using h₂, rfl⟩
  · rw [List.concat_eq_append, ← List.cons_append, ← List.append_assoc] at h
    obtain ⟨h₁, h₂⟩ := List.append_inj' h rfl
    obtain rfl : e = a := by simpa using h₂
    exact .inr ⟨after', by simp, h₁⟩

theorem invocations_log {s : State} {e : HttpEvent} (id : ℕ) :
    invocations id (s.log e).trace
      = invocations id s.trace + if e.invokes id = true then 1 else 0 := by
  rw [State.log, invocations, List.countP_append, List.countP_singleton]
  rfl

theorem invocations_eq_zero {s : State} {id : ℕ} (h : ∀ c, .invoked id c ∉ s.trace) :
    invocations id s.trace = 0 := by
  rw [invocations, List.countP_eq_zero]
  intro e he hinv
  cases e with
  | invoked i c =>
      obtain rfl : i = id := by simpa [HttpEvent.invokes] using hinv
      exact h c he
  | _ => simp [HttpEvent.invokes] at hinv

namespace Ordered

variable {s : State}

theorem start : Ordered State.start := by
  refine ⟨by simp [State.start], by simp [State.start], by simp [State.start], by simp [State.start],
    ?_, ?_, fun id => Nat.zero_le _⟩
  · intro before after id h
    simp [State.start] at h
  · intro before after id h
    simp [State.start] at h

/-- Only the callbacks, the number of requests and the trace matter. -/
theorem congr {t : State} (h : Ordered s) (hcb : t.callbacks = s.callbacks)
    (hreq : t.requests = s.requests) (htrace : t.trace = s.trace) : Ordered t := by
  obtain ⟨h₁, h₂, h₃, h₄, h₅, h₆, h₇⟩ := h
  rw [← hcb] at h₁
  rw [← hreq] at h₁ h₂ h₃ h₄
  rw [← htrace] at h₂ h₃ h₄ h₅ h₆ h₇
  exact ⟨h₁, h₂, h₃, h₄, h₅, h₆, h₇⟩

/-- An event that registers nothing, and invokes only a callback of the current request that has had no
outcome yet. -/
theorem log (h : Ordered s) {e : HttpEvent} (hreg : ∀ id, e ≠ .registered id)
    (hsent : ∀ id text, e = .sent id text → id < s.requests)
    (hinv : ∀ id c, e = .invoked id c → id + 1 = s.requests ∧ invocations id s.trace = 0) :
    Ordered (s.log e) where
  current := h.current
  registered id hm := by
    rcases List.mem_append.mp hm with hm | hm
    · exact h.registered id hm
    · exact absurd (List.mem_singleton.mp hm).symm (hreg id)
  sent id text hm := by
    rcases List.mem_append.mp hm with hm | hm
    · exact h.sent id text hm
    · exact hsent id text (List.mem_singleton.mp hm).symm
  invoked id c hm := by
    rcases List.mem_append.mp hm with hm | hm
    · exact h.invoked id c hm
    · have := (hinv id c (List.mem_singleton.mp hm).symm).1
      show id < s.requests
      omega
  sorted before after id heq := by
    rcases snoc_eq_append_cons heq with ⟨-, he, -⟩ | ⟨after', -, hs⟩
    · exact absurd he (hreg id)
    · exact h.sorted before after' id hs
  own before after id heq id' c hm := by
    rcases snoc_eq_append_cons heq with ⟨-, he, -⟩ | ⟨after', rfl, hs⟩
    · exact absurd he (hreg id)
    · rcases List.mem_append.mp hm with hm | hm
      · exact h.own before after' id hs id' c hm
      · have hlt := h.registered id (by rw [hs]; simp)
        have := (hinv id' c (List.mem_singleton.mp hm).symm).1
        omega
  once id := by
    rw [invocations_log]
    split_ifs with hi
    · cases e with
      | invoked i c =>
          obtain rfl : i = id := by simpa [HttpEvent.invokes] using hi
          rw [(hinv i c rfl).2]
      | _ => simp [HttpEvent.invokes] at hi
    · exact h.once id

theorem register (h : Ordered s) (args : RequestArgs) : Ordered (s.register args) where
  current cb hcb := by
    simp only [State.register, Option.some.injEq] at hcb
    rw [← hcb]
    rfl
  registered id hm := by
    show id < s.requests + 1
    rcases List.mem_append.mp hm with hm | hm
    · have := h.registered id hm
      omega
    · obtain rfl : id = s.requests := by simpa using hm
      omega
  sent id text hm := by
    show id < s.requests + 1
    rcases List.mem_append.mp hm with hm | hm
    · have := h.sent id text hm
      omega
    · simp at hm
  invoked id c hm := by
    show id < s.requests + 1
    rcases List.mem_append.mp hm with hm | hm
    · have := h.invoked id c hm
      omega
    · simp at hm
  sorted before after id heq id' hm := by
    rcases snoc_eq_append_cons heq with ⟨hl, he, -⟩ | ⟨after', -, hs⟩
    · obtain rfl : s.requests = id := by simpa using he
      rw [← hl] at hm
      exact h.registered id' hm
    · exact h.sorted before after' id hs id' hm
  own before after id heq id' c hm := by
    rcases snoc_eq_append_cons heq with ⟨-, -, rfl⟩ | ⟨after', rfl, hs⟩
    · simp at hm
    · rcases List.mem_append.mp hm with hm | hm
      · exact h.own before after' id hs id' c hm
      · simp at hm
  once id := by
    have hlog : invocations id (s.register args).trace = invocations id s.trace := by
      show invocations id (s.cancelHttpRequest.log (.registered s.requests)).trace = _
      rw [invocations_log]
      rfl
    rw [hlog]
    exact h.once id

/-- A request that has just registered has no outcome. -/
theorem invocations_register (h : Ordered s) (args : RequestArgs) :
    invocations s.requests (s.register args).trace = 0 := by
  apply invocations_eq_zero
  intro c hm
  rcases List.mem_append.mp hm with hm | hm
  · exact absurd (h.invoked s.requests c hm) (lt_irrefl _)
  · simp at hm

end Ordered

theorem scriptInvariant_ordered : ScriptInvariant Ordered where
  cancel s hs := by
    have hs' : Ordered s.cancelHttpRequest := hs.congr rfl rfl rfl
    exact hs'.log (by simp) (by simp) (by simp)
  consume s client hs := hs.congr rfl rfl rfl
  fail s args msg hs := by
    refine (hs.register args).log (by simp) (by simp) ?_
    intro id c he
    obtain ⟨rfl, -⟩ := HttpEvent.invoked.inj he
    exact ⟨rfl, hs.invocations_register args⟩
  send s args net s' hs h := by
    rw [send_ok h]
    have hsent := (hs.register args).log
      (e := .sent s.requests (requestText s.server args net.deviceInfo)) (by simp)
      (fun id text he => by
        obtain ⟨rfl, -⟩ := HttpEvent.sent.inj he
        exact Nat.lt_succ_self _) (by simp)
    exact hsent.congr rfl rfl rfl
  clear s hs := hs.congr rfl rfl rfl

/-! ### At most one outcome, and the request's own -/

/-- None of the current request's callbacks has been invoked. -/
def Fresh (s : State) : Prop := ∀ cb, s.callbacks = some cb → invocations cb.id s.trace = 0

/-- A poll or a delivery can still invoke a callback. -/
def Open (s : State) : Prop :=
  s.requestIsPending = true ∧ s.lastConnectionTime ≠ 0 ∨ s.requestCompletionStatus ≠ .idle

/-- The invariant between calls. -/
structure Sound (s : State) : Prop where
  ordered : Ordered s
  pending : s.requestIsPending = true → s.requestCompletionStatus = .idle
  fresh : Open s → Fresh s

theorem Sound.start : Sound State.start :=
  ⟨.start, by simp [State.start], by simp [Open, State.start]⟩

theorem scriptInvariant_sound : ScriptInvariant Sound where
  cancel s hs := by
    refine ⟨scriptInvariant_ordered.cancel s hs.ordered,
      by simp [State.userCancel, State.cancelHttpRequest, State.log], ?_⟩
    intro hopen cb hcb
    rcases hopen with ⟨hp, -⟩ | hst
    · simp [State.userCancel, State.cancelHttpRequest, State.log] at hp
    · rw [State.userCancel, invocations_log]
      exact hs.fresh (.inr hst) cb hcb
  consume s client hs := ⟨scriptInvariant_ordered.consume s client hs.ordered, hs.pending, hs.fresh⟩
  fail s args msg hs := by
    refine ⟨scriptInvariant_ordered.fail s args msg hs.ordered, fun _ => rfl, ?_⟩
    intro hopen
    simp [Open, State.register, State.log] at hopen
  send s args net s' hs h := by
    refine ⟨scriptInvariant_ordered.send s args net s' hs.ordered h, ?_, ?_⟩
    · rw [send_ok h]
      exact fun _ => rfl
    · rw [send_ok h]
      intro _ cb hcb
      obtain rfl : ⟨s.requests, args.processCallback⟩ = cb := Option.some.inj hcb
      show invocations s.requests ((s.register args).log
        (.sent s.requests (requestText s.server args net.deviceInfo))).trace = 0
      rw [invocations_log]
      exact hs.ordered.invocations_register args
  clear s hs := by
    refine ⟨scriptInvariant_ordered.clear s hs.ordered, by simp, ?_⟩
    intro hopen
    rcases hopen with ⟨hp, -⟩ | hst
    · simp at hp
    · exact hs.fresh (.inr hst)

theorem scriptInvariant_idle : ScriptInvariant fun s => s.requestCompletionStatus = .idle where
  cancel s hs := hs
  consume s client hs := hs
  fail s args msg hs := rfl
  send s args net s' hs h := by
    rw [send_ok h]
    rfl
  clear s hs := hs

/-- Invoking a callback of the current request, once, keeps the requests ordered. -/
theorem Ordered.invoke {s : State} (h : Ordered s) {cb : Callbacks} (hcb : s.callbacks = some cb)
    (hfresh : Fresh s) (c : Callback) : Ordered (s.log (.invoked cb.id c)) := by
  refine h.log (by simp) (by simp) ?_
  intro id c' he
  obtain ⟨rfl, -⟩ := HttpEvent.invoked.inj he
  exact ⟨h.current cb hcb, hfresh cb hcb⟩

/-- A delivery that has finished leaves nothing open. -/
theorem Sound.finishHandle {s : State} (h : Ordered s) : Sound s.finishHandle :=
  ⟨h.congr rfl rfl rfl, by simp [State.finishHandle], by simp [Open, State.finishHandle]⟩

/-- An error is recorded for a request that has had no outcome. -/
theorem Sound.giveUp {s : State} (h : Sound s) (hopen : Open s) (msg : List UInt8) :
    Sound (s.giveUp msg) := by
  have hlog : Ordered (s.log (.recorded msg)) := h.ordered.log (by simp) (by simp) (by simp)
  refine ⟨hlog.congr rfl rfl rfl, by simp [State.giveUp, State.cancelHttpRequest], fun _ cb hcb => ?_⟩
  show invocations cb.id (s.log (.recorded msg)).trace = 0
  rw [invocations_log]
  exact h.fresh hopen cb hcb

theorem step_sound {s s' : State} {call : Call} (hs : Sound s) (h : step s call = .ok s') :
    Sound s' := by
  cases call with
  | httpRequest args net onError =>
      exact scriptInvariant_sound.httpRequest
        (fun _ _ ht hrun => scriptInvariant_sound.run onError ht hrun) hs h
  | cancelHttpRequest =>
      cases h
      exact scriptInvariant_sound.cancel s hs
  | setupHttpRequestManager =>
      cases h
      exact ⟨hs.ordered.congr rfl rfl rfl, hs.pending, hs.fresh⟩
  | handleHttpResponseComplete onSuccess onError =>
      cases handleHttpResponseComplete_spec h with
      | idle => exact hs
      | delivered cb t hst hcb hrun =>
          have hfresh : Fresh s := hs.fresh (.inr (by simp [hst]))
          exact .finishHandle
            (scriptInvariant_ordered.run onSuccess (hs.ordered.invoke hcb hfresh _) hrun)
      | failed cb t hst hcb hrun =>
          have hfresh : Fresh s := hs.fresh (.inr (by simp [hst]))
          exact .finishHandle
            (scriptInvariant_ordered.run onError (hs.ordered.invoke hcb hfresh _) hrun)
  | checkForHttpResponse poll =>
      cases checkForHttpResponse_spec h with
      | ignored => exact hs
      | waited lost client hp =>
          exact ⟨hs.ordered.congr rfl rfl rfl, hs.pending, hs.fresh⟩
      | gaveUp msg buffer hp hl _ =>
          have hb : Sound { s with responseBuffer := buffer } :=
            ⟨hs.ordered.congr rfl rfl rfl, hs.pending, hs.fresh⟩
          exact hb.giveUp (.inl ⟨hp, hl⟩) msg
      | processed cb headerData client t hp hl hcb _ hrun =>
          have hfresh : Fresh s := hs.fresh (.inl ⟨hp, hl⟩)
          have ho := (scriptInvariant_ordered.consume s client hs.ordered).invoke hcb hfresh
            (.process headerData)
          have ht := scriptInvariant_ordered.run poll.onProcess ho hrun
          have hstart : ({ s with client := client }.log
              (.invoked cb.id (.process headerData))).requestCompletionStatus = .idle := hs.pending hp
          have hidle := scriptInvariant_idle.run poll.onProcess hstart hrun
          refine ⟨scriptInvariant_ordered.clear t ht, by simp, ?_⟩
          intro hopen
          rcases hopen with ⟨hf, -⟩ | hst
          · simp at hf
          · exact absurd hidle hst
      | completed cb buffer client hp hl =>
          exact ⟨hs.ordered.congr rfl rfl rfl, by simp, fun _ => hs.fresh (.inl ⟨hp, hl⟩)⟩

/-- What every admitted call preserves holds after every admitted run from program start. -/
theorem runCalls_invariant {Q : Call → Prop} (hstart : P .start)
    (hstep : ∀ s call s', P s → Q call → step s call = .ok s' → P s') {calls : List Call} {s : State}
    (hcalls : ∀ call ∈ calls, Q call) (h : runCalls calls = .ok s) : P s :=
  FallibleRun.run_invariant hstep hstart hcalls h

theorem runCalls_sound {calls : List Call} {s : State} (h : runCalls calls = .ok s) : Sound s :=
  runCalls_invariant (Q := fun _ => True) .start (fun _ _ _ hs _ h => step_sound hs h)
    (fun _ _ => trivial) h

/-- **At most one outcome per request, and its own.**  In every run from program start that does not meet
undefined behaviour (a header line of 255 bytes, a body of 3500, a request line of 500, a missing token),
whatever else the network does and whatever the callbacks start or cancel, no request has two outcomes,
and no callback registered by an earlier request is invoked after a later one has registered. -/
theorem runCalls_outcomes (calls : List Call) {s : State} (h : runCalls calls = .ok s) :
    (∀ id, invocations id s.trace ≤ 1) ∧
      ∀ before after id id' c, s.trace = before ++ .registered id :: after →
        .registered id' ∈ before → .invoked id' c ∉ after := by
  have hs := runCalls_sound h
  refine ⟨hs.ordered.once, fun before after id id' c heq hreg hinv => ?_⟩
  have hlt := hs.ordered.sorted before after id heq id' hreg
  have hle := hs.ordered.own before after id heq id' c hinv
  omega

/-- A plain `GET`. -/
def getRequest : RequestArgs where
  httpMethod := ascii "GET"
  path := ascii "/api"
  data := none
  processCallback := false

/-- A server that is reached at clock value 1 and answers with `response`. -/
def Network.reached (response : List Arrival) : Network where
  wifiConnected := true
  connects := true
  millis := 1
  deviceInfo := []
  response := response

/-- A `headerData` that happens to be zero. -/
def ResponseHeaderData.zero : ResponseHeaderData where
  contentLength := Long.zero
  statusCode := CharArray.zero 10
  contentType := CharArray.zero 50
  md5Check := CharArray.zero 50

/-- A poll on a good connection at clock value `millis`. -/
def Poll.at (millis : UInt32) : Poll where
  millis := millis
  wifiConnected := true
  connected := true
  headerData := .zero
  onProcess := .done

/-- A request that times out and is reported. -/
def timeoutRun : List Call :=
  [.httpRequest getRequest (.reached []) .done, .checkForHttpResponse (.at 30002),
    .handleHttpResponseComplete .done .done]

/-- A request that times out, with an error callback that tries again. -/
def retryRun : List Call :=
  [.httpRequest getRequest (.reached []) .done, .checkForHttpResponse (.at 30002),
    .handleHttpResponseComplete .done (.request getRequest (.reached []) .done .done)]

theorem runCalls_outcomes_retryRun :
    ∃ s, runCalls retryRun = .ok s ∧ s.requests = 2 ∧ (∀ id, invocations id s.trace ≤ 1) ∧
      ∀ before after id id' c, s.trace = before ++ .registered id :: after →
        .registered id' ∈ before → .invoked id' c ∉ after :=
  ⟨_, rfl, rfl, runCalls_outcomes retryRun rfl⟩

end EspFirmware
