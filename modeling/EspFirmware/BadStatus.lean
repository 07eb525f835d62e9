import EspFirmware.HeaderFields

/-!
# The report of a failing status

A status other than 200 ends a request at its status line: `checkForHttpResponse` records a message for
the error callback and gives the request up.  The message is chosen by a chain of comparisons each of
which is taken when the codes differ.

* `statusMessage` — the message a status calls for;
* `badStatusMessage_eq` — the message the chain comes to: its first branch for everything but 503;
* `badStatus_misreported` — the request ends as it should, with the message of another status.
-/

namespace EspFirmware

open CString

/-- The message for a failing status. -/
def statusMessage (token : List UInt8) : List UInt8 :=
  if token = ascii "503" then ascii "Server Maintenance"
  else if token = ascii "403" then ascii "403 Forbidden"
  else if token = ascii "404" then ascii "404 Not Found"
  else if token = ascii "401" then ascii "401 Unauthorized"
  else if token = ascii "500" then ascii "500 Server Error"
  else token

/-- The message the source records. -/
def recordedMessage (token : List UInt8) : List UInt8 :=
  if token = ascii "503" then ascii "403 Forbidden" else ascii "Server Maintenance"

/-- The request has ended with an error, the client is stopped and the message recorded. -/
structure ReportedAs (s s' : State) (msg : List UInt8) : Prop where
  status : s'.requestCompletionStatus = .error
  stopped : s'.client = []
  notPending : s'.requestIsPending = false
  recorded : s'.trace = s.trace ++ [.recorded msg]

/-! ### The chain of comparisons -/

theorem str_statusCode {token : List UInt8} (hz : (0 : UInt8) ∉ token) (hlen : token.length ≤ 9)
    (dst : CharArray 10) : (dst.strncpy token 10 le_rfl).str = token := by
  rw [CharArray.str_strncpy, cstr_eq_self hz, List.take_of_length_le (by omega)]

/-- The chain stops at its first branch, or for 503 at its second. -/
theorem badStatusMessage_eq {token : List UInt8} (hz : (0 : UInt8) ∉ token) (hlen : token.length ≤ 9)
    (dst : CharArray 10) :
    badStatusMessage (dst.strncpy token 10 le_rfl) = recordedMessage token := by
  have hcmp : ∀ code : String, cstr (ascii code) = ascii code →
      (strEq (dst.strncpy token 10 le_rfl).1 (ascii code) = true ↔ token = ascii code) := by
    intro code hcode
    have hstr : cstr (dst.strncpy token 10 le_rfl).1 = token := str_statusCode hz hlen dst
    rw [strEq, decide_eq_true_eq, hstr, hcode]
  rw [badStatusMessage, recordedMessage]
  by_cases h503 : token = ascii "503"
  · have h₁ := (hcmp "503" (by decide)).mpr h503
    have h₂ : ¬strEq (dst.strncpy token 10 le_rfl).1 (ascii "403") = true := by
      rw [hcmp "403" (by decide), h503]
      decide
    rw [if_neg (not_not.mpr h₁), if_pos h₂, if_pos h503]
  · have h₁ : ¬strEq (dst.strncpy token 10 le_rfl).1 (ascii "503") = true := by
      rw [hcmp "503" (by decide)]
      exact h503
    rw [if_pos h₁, if_neg h503]

/-- No status of at most nine characters is its own message's. -/
theorem recordedMessage_ne {token : List UInt8} (hlen : token.length ≤ 9) :
    recordedMessage token ≠ statusMessage token := by
  rw [recordedMessage, statusMessage]
  split_ifs with h₁ h₂ h₃ h₄ h₅
  · decide
  · decide
  · decide
  · decide
  · decide
  · intro h
    have hlong : (ascii "Server Maintenance").length = 18 := by decide
    rw [← h] at hlen
    omega

/-! ### The poll -/

section Poll

variable {s : State} {poll : Poll} {cb : Callbacks} {token : List UInt8}

/-- The status line of a response that is polled. -/
structure BadStatusLine (client : List Arrival) (token : List UInt8) : Prop where
  available : (Arrival.available client).1 ≠ 0
  there : (Arrival.available (Arrival.available client).2).1 ≠ 0
  line : isStatusLine (lineText (firstChunk client)) = true
  second : secondToken space (lineText (firstChunk client)) = some token
  short : token.length ≤ 9
  bad : token ≠ ascii "200"

theorem headerLine_bad {client : List Arrival} (h : BadStatusLine client token)
    (hterm : Terminated (firstChunk client)) (headerData : ResponseHeaderData) :
    headerLine false headerData (firstChunk client) = .ok (.rejected (recordedMessage token)) := by
  have hz : (0 : UInt8) ∉ token := fun hm =>
    lineText_not_mem_zero _ (mem_of_mem_secondToken h.second hm)
  have hstart : startsWith (ascii "HTTP/1.") (lineText (firstChunk client)) = true := h.line
  have hone : (lineText (firstChunk client)).length ≠ 1 := by
    intro hone
    have hle := length_of_startsWith hstart
    rw [hone] at hle
    exact absurd hle (by decide)
  have hcode : ¬strEq (headerData.statusCode.strncpy token 10 le_rfl).1 (ascii "200") = true := by
    rw [strEq_statusCode hz]
    exact h.bad
  rw [headerLine_eq false headerData (firstChunk_length _) hterm, if_neg hone, headerTests,
    if_pos hstart, h.second]
  simp only
  rw [if_pos hcode, badStatusMessage_eq hz h.short]

/-- A terminated status line gives the request up; any other makes the behaviour undefined. -/
theorem checkForHttpResponse_bad (hs : Awaiting s poll) (hcb : s.callbacks = some cb)
    (h : BadStatusLine s.client token) :
    s.checkForHttpResponse poll
      = if Terminated (firstChunk s.client) then .ok (s.giveUp (recordedMessage token))
        else .error .outOfBounds := by
  rw [checkForHttpResponse_awaiting hs hcb, pollResponse, if_neg h.available, readHeaders,
    dif_neg h.there]
  rw [show (readLine (Arrival.available s.client).2).1 = firstChunk s.client from rfl]
  by_cases hterm : Terminated (firstChunk s.client)
  · rw [headerLine_bad h hterm, if_pos hterm]
    rfl
  · rw [headerLine_fault false poll.headerData (firstChunk_length _) hterm, if_neg hterm]
    rfl

/-- **Every failing status is reported as another one.**  A request whose status line carries a failing
status ends with an error, stopped and not pending, but the message recorded is never the one of its
status. -/
theorem badStatus_misreported (hs : Awaiting s poll) (hcb : s.callbacks = some cb)
    (h : BadStatusLine s.client token) :
    (Terminated (firstChunk s.client) →
      ∃ s', s.checkForHttpResponse poll = .ok s' ∧ ReportedAs s s' (recordedMessage token)) ∧
    ¬∃ s', s.checkForHttpResponse poll = .ok s' ∧ ReportedAs s s' (statusMessage token) := by
  rw [checkForHttpResponse_bad hs hcb h]
  refine ⟨?_, ?_⟩
  · intro hterm
    rw [if_pos hterm]
    exact ⟨_, rfl, rfl, rfl, rfl, rfl⟩
  · rintro ⟨s', hs', hreported⟩
    split_ifs at hs' with hterm
    cases hs'
    have htrace : s.trace ++ [.recorded (recordedMessage token)]
        = s.trace ++ [.recorded (statusMessage token)] := hreported.recorded
    have heq := List.append_cancel_left htrace
    exact recordedMessage_ne h.short (by simpa using heq)

end Poll

/-- A response of a server that is down for maintenance. -/
def maintenance : List Arrival := (ascii "HTTP/1.1 503 Service Unavailable\r\n\r\n").map .byte

theorem maintenance_bad : BadStatusLine maintenance (ascii "503") where
  available := by decide
  there := by decide
  line := by decide
  second := by decide
  short := by decide
  bad := by decide

/-- The report of a response with status 503. -/
theorem badStatus_misreported_503 :
    ∃ s, runCalls [opened false maintenance] = .ok s ∧
      ∃ s', s.checkForHttpResponse (.at 1) = .ok s' ∧ ReportedAs s s' (ascii "403 Forbidden") := by
  obtain ⟨s, hs, hcb, hwait, hclient, -⟩ := runCalls_opened false maintenance
  have hbad : BadStatusLine s.client (ascii "503") := by
    rw [hclient]
    exact maintenance_bad
  refine ⟨s, hs, (badStatus_misreported hwait hcb hbad).1 ?_⟩
  rw [hclient]
  decide

/-- A page that is not found is reported as maintenance. -/
theorem notFound_misreported :
    ∃ s s', runCalls [opened false ((ascii "HTTP/1.1 404 Not Found\r\n\r\n").map .byte)] = .ok s ∧
      s.checkForHttpResponse (.at 1) = .ok s' ∧ ReportedAs s s' (ascii "Server Maintenance") ∧
      statusMessage (ascii "404") = ascii "404 Not Found" ∧
      ¬ReportedAs s s' (ascii "404 Not Found") := by
  have hbad : BadStatusLine ((ascii "HTTP/1.1 404 Not Found\r\n\r\n").map .byte) (ascii "404") :=
    ⟨by decide, by decide, by decide, by decide, by decide, by decide⟩
  obtain ⟨s, hs, hcb, hwait, hclient, -⟩ :=
    runCalls_opened false ((ascii "HTTP/1.1 404 Not Found\r\n\r\n").map .byte)
  rw [← hclient] at hbad
  have hcheck := checkForHttpResponse_bad hwait hcb hbad
  have hterm : Terminated (firstChunk s.client) := by
    rw [hclient]
    decide
  rw [if_pos hterm] at hcheck
  refine ⟨s, _, hs, hcheck, ⟨rfl, rfl, rfl, rfl⟩, by decide, fun h => ?_⟩
  have htrace : s.trace ++ [.recorded (recordedMessage (ascii "404"))]
      = s.trace ++ [.recorded (ascii "404 Not Found")] := h.recorded
  have heq := List.append_cancel_left htrace
  simp only [List.cons.injEq, HttpEvent.recorded.injEq, and_true] at heq
  exact absurd heq (by decide)

end EspFirmware
