import EspFirmware.RequestRuns

/-!
# Error reports

`setPendingErrorResponse` copies as many characters as the string *already in* `pendingErrorResponse` has.
The array starts zeroed, so that is none, and it stays zeroed for the whole run: every error report that
`handleHttpResponseComplete` delivers is the empty string, while every message recorded is not empty.

* `Unwritten`, `step_unwritten` — the array is zero in every state of every run;
* `lastRecorded` — the message recorded last;
* `runCalls_report_lost` — what the next delivery passes is never that message, cut to 21 characters.
-/

namespace EspFirmware

open CString

/-- Nothing has ever been copied into the report buffer. -/
def Unwritten (s : State) : Prop := s.pendingErrorResponse = CharArray.zero 22

/-- The message recorded last. -/
def lastRecorded (trace : List HttpEvent) : Option (List UInt8) :=
  trace.reverse.findSome? fun
    | .recorded msg => some msg
    | _ => none

/-- An error status comes with a recorded message, and no message is empty. -/
def Reported (s : State) : Prop :=
  s.requestCompletionStatus = .error → ∃ msg, lastRecorded s.trace = some msg ∧ msg ≠ []

theorem lastRecorded_recorded (trace : List HttpEvent) (msg : List UInt8) :
    lastRecorded (trace ++ [.recorded msg]) = some msg := by
  simp [lastRecorded]

theorem lastRecorded_other (trace : List HttpEvent) {e : HttpEvent} (he : ∀ msg, e ≠ .recorded msg) :
    lastRecorded (trace ++ [e]) = lastRecorded trace := by
  cases e with
  | recorded msg => exact absurd rfl (he msg)
  | _ => simp [lastRecorded]

theorem scriptInvariant_unwritten : ScriptInvariant Unwritten where
  cancel s hs := hs
  consume s client hs := hs
  fail s args msg hs := hs
  send s args net s' hs h := by
    rw [send_ok h]
    exact hs
  clear s hs := hs

theorem scriptInvariant_reported : ScriptInvariant Reported where
  cancel s hs := by
    intro hst
    obtain ⟨msg, hlast, hne⟩ := hs hst
    exact ⟨msg, (lastRecorded_other s.trace (by simp)).trans hlast, hne⟩
  consume s client hs := hs
  fail s args msg hs := by
    intro hst
    cases hst
  send s args net s' hs h := by
    rw [send_ok h]
    intro hst
    cases hst
  clear s hs := hs

/-- **A copy of no characters.**  Recording a message leaves the zeroed report buffer as it is. -/
theorem Unwritten.giveUp {s : State} (h : Unwritten s) (msg : List UInt8) : Unwritten (s.giveUp msg) := by
  apply Subtype.ext
  show strncpy s.pendingErrorResponse.1 msg (strlen s.pendingErrorResponse.1) = (CharArray.zero 22).1
  rw [h]
  show strncpy (List.replicate 22 0) msg (strlen (List.replicate 22 0)) = List.replicate 22 0
  rw [strlen_replicate_zero, strncpy_zero]

theorem Reported.giveUp {s : State} {msg : List UInt8} (hne : msg ≠ []) : Reported (s.giveUp msg) :=
  fun _ => ⟨msg, lastRecorded_recorded s.trace msg, hne⟩

theorem step_unwritten {s s' : State} {call : Call} (hs : Unwritten s) (h : step s call = .ok s') :
    Unwritten s' := by
  cases call with
  | httpRequest args net onError =>
      exact scriptInvariant_unwritten.httpRequest
        (fun _ _ ht hrun => scriptInvariant_unwritten.run onError ht hrun) hs h
  | cancelHttpRequest =>
      cases h
      exact hs
  | setupHttpRequestManager =>
      cases h
      exact hs
  | handleHttpResponseComplete onSuccess onError =>
      cases handleHttpResponseComplete_spec h with
      | idle => exact hs
      | delivered cb t _ _ hrun =>
          have ht : Unwritten t := scriptInvariant_unwritten.run (s := s.log _) onSuccess hs hrun
          exact ht
      | failed cb t _ _ hrun =>
          have ht : Unwritten t := scriptInvariant_unwritten.run (s := s.log _) onError hs hrun
          exact ht
  | checkForHttpResponse poll =>
      cases checkForHttpResponse_spec h with
      | ignored => exact hs
      | waited => exact hs
      | gaveUp msg buffer =>
          have hb : Unwritten { s with responseBuffer := buffer } := hs
          exact hb.giveUp msg
      | processed cb headerData client t _ _ _ _ hrun =>
          have hb : Unwritten ({ s with client := client }.log
            (.invoked cb.id (.process headerData))) := hs
          have ht : Unwritten t := scriptInvariant_unwritten.run poll.onProcess hb hrun
          exact ht
      | completed => exact hs

theorem step_reported {s s' : State} {call : Call} (hs : Sound s ∧ Reported s)
    (h : step s call = .ok s') : Reported s' := by
  obtain ⟨hsound, hs⟩ := hs
  cases call with
  | httpRequest args net onError =>
      exact scriptInvariant_reported.httpRequest
        (fun _ _ ht hrun => scriptInvariant_reported.run onError ht hrun) hs h
  | cancelHttpRequest =>
      cases h
      exact scriptInvariant_reported.cancel s hs
  | setupHttpRequestManager =>
      cases h
      exact hs
  | handleHttpResponseComplete onSuccess onError =>
      cases handleHttpResponseComplete_spec h with
      | idle => exact hs
      | delivered => exact fun hst => by cases hst
      | failed => exact fun hst => by cases hst
  | checkForHttpResponse poll =>
      cases checkForHttpResponse_spec h with
      | ignored => exact hs
      | waited => exact hs
      | gaveUp msg buffer _ _ hne => exact Reported.giveUp hne
      | processed cb headerData client t hp _ _ _ hrun =>
          have hidle : ({ s with client := client }.log
            (.invoked cb.id (.process headerData))).requestCompletionStatus = .idle :=
            hsound.pending hp
          have ht := scriptInvariant_idle.run poll.onProcess hidle hrun
          intro hst
          rw [show t.requestCompletionStatus = .idle from ht] at hst
          cases hst
      | completed => exact fun hst => by cases hst

/-- The delivery of `s` that ends in `s'` passes `msg` to an error callback. -/
def Delivers (s s' : State) (msg : List UInt8) : Prop :=
  ∃ id rest, s'.trace = s.trace ++ .invoked id (.error msg) :: rest

/-- **No error report arrives.**  In every run from program start, whenever an error is recorded and not
yet delivered, the next delivery passes the error callback something other than the recorded message cut
to 21 characters. -/
theorem runCalls_report_lost (calls : List Call) {s s' : State} (h : runCalls calls = .ok s)
    (herr : s.requestCompletionStatus = .error) (onSuccess onError : Script)
    (hh : s.handleHttpResponseComplete onSuccess onError = .ok s') :
    ∃ m msg, lastRecorded s.trace = some m ∧ Delivers s s' msg ∧ msg ≠ m.take 21 := by
  have hun : Unwritten s := runCalls_invariant (P := Unwritten) (Q := fun _ => True) rfl
    (fun _ _ _ hs _ h => step_unwritten hs h) (fun _ _ => trivial) h
  have hrep : Sound s ∧ Reported s := runCalls_invariant (P := fun s => Sound s ∧ Reported s)
    (Q := fun _ => True) ⟨.start, fun hst => by cases hst⟩
    (fun _ _ _ hs _ h => ⟨step_sound hs.1 h, step_reported hs h⟩) (fun _ _ => trivial) h
  obtain ⟨m, hlast, hne⟩ := hrep.2 herr
  refine ⟨m, [], hlast, ?_, ?_⟩
  · cases handleHttpResponseComplete_spec hh with
    | idle hst => simp [herr] at hst
    | delivered cb t hst => simp [herr] at hst
    | failed cb t hst hcb hrun =>
        have hempty : s.pendingErrorResponse.str = [] := by
          rw [hun]
          rfl
        rw [hempty] at hrun
        obtain ⟨rest, ht⟩ := (scriptInvariant_trace (s.trace ++ [.invoked cb.id (.error [])])).run onError
          (List.prefix_refl _) hrun
        exact ⟨cb.id, rest, by simpa [State.finishHandle] using ht.symm⟩
  · intro hnil
    cases m with
    | nil => exact hne rfl
    | cons b m => simp at hnil

/-- A request that times out. -/
def unreported : List Call :=
  [.httpRequest getRequest (.reached []) .done, .checkForHttpResponse (.at 30002)]

theorem runCalls_report_lost_unreported :
    ∃ s s', runCalls unreported = .ok s ∧ s.requestCompletionStatus = .error ∧
      s.handleHttpResponseComplete .done .done = .ok s' ∧
      ∃ m msg, lastRecorded s.trace = some m ∧ Delivers s s' msg ∧ msg ≠ m.take 21 :=
  ⟨_, _, rfl, rfl, rfl, runCalls_report_lost unreported rfl rfl .done .done rfl⟩

/-- The report of a timeout is empty. -/
theorem unreported_delivers_nothing :
    ∃ s s', runCalls unreported = .ok s ∧ lastRecorded s.trace = some (ascii "Connection Timeout") ∧
      s.handleHttpResponseComplete .done .done = .ok s' ∧ Delivers s s' [] ∧
      [] ≠ (ascii "Connection Timeout").take 21 :=
  ⟨_, _, rfl, rfl, rfl, ⟨0, [], rfl⟩, by decide⟩

end EspFirmware
