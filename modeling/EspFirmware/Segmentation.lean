import EspFirmware.Reading

/-!
# Segmentation of a response

A complete response is delivered in batches, polled until it is complete, and then handed to a callback.
What the callback gets depends on where the batches end: the header loop and the body loop both stop as
soon as `available()` is zero, and only inside a header line does the client wait for the next byte.

* `Response` — a well-formed response; `Response.bytes` — what the server sends;
* `outcomes` — what the callbacks get in a run of polls and a final `handleHttpResponseComplete`;
* `Response.SameReading` — the chunks two deliveries are cut into are read as the same;
* `Response.SamePauses` — where no line is broken by a timeout: the pauses that are seen are the same;
* `Response.Seamless` — none is seen;
* `sameOutcome_iff` — two cuttings come to the same outcome exactly if they are read as the same.
-/

namespace EspFirmware

open CString

/-- A well-formed response: `HTTP/1.` and a digit, a status code of three digits, a reason, header lines
and a body. -/
structure Response where
  minor : UInt8
  code : List UInt8
  reason : List UInt8
  headers : List (List UInt8)
  body : List UInt8
  minor_digit : isDigit minor = true
  code_length : code.length = 3
  code_digits : ∀ b ∈ code, isDigit b = true
  reason_noCR : CR ∉ reason
  reason_noNul : (0 : UInt8) ∉ reason
  status_short : reason.length + 13 < 254
  headers_lines : ∀ line ∈ headers, FieldLine line
  body_short : body.length ≤ 3400

/-- A status line without its CRLF. -/
def statusLine (minor : UInt8) (code reason : List UInt8) : List UInt8 :=
  ascii "HTTP/1." ++ minor :: space :: (code ++ space :: reason)

/-- Everything the server sends. -/
def Response.bytes (r : Response) : List UInt8 :=
  statusLine r.minor r.code r.reason ++ [CR, LF] ++ (r.headers.map (· ++ [CR, LF])).flatten ++
    [CR, LF] ++ r.body

theorem unlines_headerLines (headers : List (List UInt8)) (rest : List UInt8) :
    unlines (headerLines headers) (LF :: rest)
      = LF :: ((headers.map (· ++ [CR, LF])).flatten ++ [CR, LF] ++ rest) := by
  induction headers with
  | nil => rfl
  | cons line headers ih =>
      show LF :: line ++ CR :: unlines (headerLines headers) (LF :: rest) = _
      rw [ih]
      simp

theorem Response.bytes_eq (r : Response) :
    r.bytes = statusLine r.minor r.code r.reason ++ CR :: unlines (headerLines r.headers) (LF :: r.body) := by
  rw [unlines_headerLines, bytes]
  simp

/-! ### The status line -/

/-- Text of a status line: the reason may lose trailing spaces, the rest stands. -/
theorem lineText_statusLine {minor : UInt8} {code reason : List UInt8} (hminor : minor ≠ 0)
    (hcode : code ≠ []) (hz : (0 : UInt8) ∉ code) (hsp : space ∉ code) (hr : (0 : UInt8) ∉ reason) :
    ∃ m, lineText (statusLine minor code reason) = ascii "HTTP/1." ++ minor :: space :: (code ++ m) ∧
      m <+: space :: reason := by
  have hnul : (0 : UInt8) ∉ statusLine minor code reason := by
    intro hm
    simp only [statusLine, List.mem_append, List.mem_cons] at hm
    rcases hm with hm | hm | hm | hm | hm | hm
    · exact absurd hm (by decide)
    · exact hminor hm.symm
    · exact absurd hm (by decide)
    · exact hz hm
    · exact absurd hm (by decide)
    · exact hr hm
  have hsplit : statusLine minor code reason
      = (ascii "HTTP/1." ++ minor :: space :: code) ++ space :: reason := by
    simp [statusLine]
  have hne : ascii "HTTP/1." ++ minor :: space :: code ≠ [] := by simp
  have hlast : ((ascii "HTTP/1." ++ minor :: space :: code).getLast hne == space) = false := by
    rw [List.getLast_append_of_ne_nil _ (by simp), List.getLast_cons (by simp), List.getLast_cons hcode]
    rw [beq_eq_false_iff_ne]
    intro he
    exact hsp (he ▸ List.getLast_mem hcode)
  have hpre : (space :: reason).rdropWhile (· == space) <+: space :: reason :=
    List.rdropWhile_prefix _ _
  refine ⟨(space :: reason).rdropWhile (· == space), ?_, hpre⟩
  rw [lineText, trimSpaces, cstr_eq_self hnul, hsplit, rdropWhile_append_of_last hne hlast]
  simp only [List.append_assoc, List.cons_append]
  rfl

theorem secondToken_statusLine {minor : UInt8} {code m : List UInt8} (hminor : minor ≠ space)
    (hcode : code ≠ []) (hsp : space ∉ code) (hm : m = [] ∨ ∃ t, m = space :: t) :
    secondToken space (ascii "HTTP/1." ++ minor :: space :: (code ++ m)) = some code := by
  have hfirst : space ∉ ascii "HTTP/1." ++ [minor] := by
    intro h
    rcases List.mem_append.mp h with h | h
    · exact absurd h (by decide)
    · exact hminor (List.mem_singleton.mp h).symm
  have hsplit : ascii "HTTP/1." ++ minor :: space :: (code ++ m)
      = (ascii "HTTP/1." ++ [minor]) ++ space :: (code ++ m) := by simp
  rw [hsplit]
  exact secondToken_words (by simp) hfirst hcode hsp hm

theorem ne_of_isDigit {b c : UInt8} (hb : isDigit b = true) (hc : isDigit c = false) : b ≠ c := by
  rintro rfl
  rw [hb] at hc
  cases hc

namespace Response

variable (r : Response)

/-- The status line of the response. -/
def status : List UInt8 := statusLine r.minor r.code r.reason

theorem status_length : r.status.length = r.reason.length + 13 := by
  have := r.code_length
  have hseven : (ascii "HTTP/1.").length = 7 := by decide
  simp only [status, statusLine, List.length_append, List.length_cons, hseven]
  omega

theorem status_noCR : CR ∉ r.status := by
  intro hm
  simp only [status, statusLine, List.mem_append, List.mem_cons] at hm
  rcases hm with hm | hm | hm | hm | hm | hm
  · exact absurd hm (by decide)
  · exact ne_of_isDigit r.minor_digit (by decide) hm.symm
  · exact absurd hm (by decide)
  · exact absurd (r.code_digits CR hm) (by decide)
  · exact absurd hm (by decide)
  · exact r.reason_noCR hm

theorem code_ne_nil : r.code ≠ [] := by
  intro h
  have := r.code_length
  rw [h] at this
  simp at this

theorem code_not_mem {b : UInt8} (hb : isDigit b = false) : b ∉ r.code := fun hm =>
  ne_of_isDigit (r.code_digits b hm) hb rfl

/-- The text of the status line starts with `HTTP/1.` and its second token is the code. -/
theorem status_text :
    (lineText r.status).length ≠ 1 ∧ isStatusLine (lineText r.status) = true ∧
      secondToken space (lineText r.status) = some r.code := by
  obtain ⟨m, htext, hm⟩ := lineText_statusLine (ne_of_isDigit r.minor_digit (by decide)) r.code_ne_nil
    (r.code_not_mem (by decide)) (r.code_not_mem (by decide)) r.reason_noNul
  have hm' : m = [] ∨ ∃ t, m = space :: t := by
    cases m with
    | nil => exact .inl rfl
    | cons b t => exact .inr ⟨t, by rw [(List.cons_prefix_cons.mp hm).1]⟩
  have hz := lineText_not_mem_zero r.status
  rw [status, htext] at *
  refine ⟨?_, ?_, ?_⟩
  · have hseven : (ascii "HTTP/1.").length = 7 := by decide
    simp only [List.length_append, List.length_cons, hseven]
    omega
  · rw [isStatusLine, startsWith, cstr_eq_self hz, decide_eq_true_eq]
    exact List.prefix_append _ _
  · exact secondToken_statusLine (ne_of_isDigit r.minor_digit (by decide)) r.code_ne_nil
      (r.code_not_mem (by decide)) hm'

theorem status_terminated : r.status.length ≤ lineSize ∧ Terminated r.status := by
  have h₁ := r.status_length
  have h₂ := r.status_short
  have hlt : r.status.length < lineSize := by
    simp only [lineSize]
    omega
  exact ⟨hlt.le, .inl hlt⟩

/-- A 200 status line is stored and the loop goes on. -/
theorem headerLine_status (headerData : ResponseHeaderData) (h : r.code = ascii "200") :
    headerLine false headerData r.status
      = .ok (.next true ((Field.status (ascii "200")).store headerData)) := by
  obtain ⟨hone, hstatus, htok⟩ := r.status_text
  obtain ⟨hlen, hterm⟩ := r.status_terminated
  refine (headerLine_next_iff hlen).mpr ⟨hterm, hone, .inr hstatus, rfl, _, ?_, rfl⟩
  rw [lineField, if_pos hstatus, htok, h, if_pos rfl]

end Response

/-! ### What the callbacks get -/

/-- A poll on a connection that stands, in time, that finds `headerData` in the memory of the local
variable; the process callback starts nothing. -/
structure GoodPoll (s : State) (headerData : ResponseHeaderData) (poll : Poll) : Prop where
  inTime : timedOut poll.millis s.lastConnectionTime = false
  wifi : poll.wifiConnected = true
  connected : poll.connected = true
  memory : poll.headerData = headerData
  quiet : poll.onProcess = .done

theorem GoodPoll.congr {s t : State} {headerData : ResponseHeaderData} {poll : Poll}
    (h : GoodPoll s headerData poll) (ht : t.lastConnectionTime = s.lastConnectionTime) :
    GoodPoll t headerData poll :=
  ⟨by rw [ht]; exact h.inTime, h.wifi, h.connected, h.memory, h.quiet⟩

section FirstPoll

variable {s : State} {id : ℕ} {process : Bool} {headerData : ResponseHeaderData} {poll : Poll}

end FirstPoll

/-! ### Cuttings of a response -/

namespace Response

variable (r : Response)

/-- The position of the first header line. -/
def headerStart : ℕ := r.status.length + 1

/-- The position after the CR of the blank line. -/
def bodyStart : ℕ := linesEnd r.headerStart (headerLines r.headers)

/-- No pause inside a line that is read outlasts the stream timeout. -/
structure Unstalled (cut : Cutting) : Prop where
  status : ∀ j, 0 < j → j ≤ r.status.length → true ∉ cut j
  headers : r.code = ascii "200" → Patient cut r.headerStart (headerLines r.headers)

end Response

namespace Response

variable {r : Response} {cut : Cutting} {process : Bool}

/-- The status line is read as a whole once its first byte is there. -/
theorem Unstalled.status_read (h : r.Unstalled cut) :
    (Arrival.available (deliver (started cut) 0 r.bytes)).1 ≠ 0 ∧
      readLine (deliver (started cut) 0 r.bytes)
        = (r.status, deliver cut r.headerStart (unlines (headerLines r.headers) (LF :: r.body))) := by
  have hlen : r.status.length < lineSize := by
    have h₁ := r.status_length
    have h₂ := r.status_short
    simp only [lineSize]
    omega
  have hpatient : ∀ j, 0 < j → j ≤ 0 + r.status.length → true ∉ started cut j := by
    intro j hj hle
    rw [started, if_neg (by omega)]
    exact h.status j hj (by omega)
  obtain ⟨hav, hread⟩ := readLine_deliver r.status_noCR hlen (rfl : started cut 0 = []) hpatient
    (unlines (headerLines r.headers) (LF :: r.body))
  have heq : r.bytes = r.status ++ CR :: unlines (headerLines r.headers) (LF :: r.body) := r.bytes_eq
  refine ⟨by rw [heq]; exact hav, ?_⟩
  have hstart : 0 + r.status.length + 1 = r.headerStart := by rw [Nat.zero_add, headerStart]
  have hpos : 0 < r.headerStart := Nat.succ_pos _
  rw [heq, hread, hstart, deliver_started hpos]

/-- Past a 200 status line the loop goes on with the header lines. -/
theorem Unstalled.past_status (h : r.Unstalled cut) (hcode : r.code = ascii "200")
    (headerData : ResponseHeaderData) :
    readHeaders false headerData (deliver (started cut) 0 r.bytes)
      = readHeaders true ((Field.status (ascii "200")).store headerData)
          (deliver cut r.headerStart (unlines (headerLines r.headers) (LF :: r.body))) := by
  obtain ⟨hav, hread⟩ := h.status_read
  rw [readHeaders, dif_neg hav, hread, r.headerLine_status headerData hcode]

/-- The header the process callback gets. -/
def header (r : Response) (headerData : ResponseHeaderData) : ResponseHeaderData :=
  (fieldsOf r.headers).foldl Field.store ((Field.status (ascii "200")).store headerData)

/-- Joined header lines are read to the blank line. -/
theorem Unstalled.readHeaders_joined (h : r.Unstalled cut) (hcode : r.code = ascii "200")
    (hjoined : Joined cut r.headerStart (headerLines r.headers)) (headerData : ResponseHeaderData) :
    readHeaders false headerData (deliver (started cut) 0 r.bytes)
      = .ok (.ended true (r.header headerData) (deliver cut r.bodyStart (LF :: r.body))) := by
  rw [h.past_status hcode headerData,
    EspFirmware.readHeaders_joined r.headers_lines (LF :: r.body) _ _ (h.headers hcode) hjoined]
  rfl

end Response

/-- A run that polls often enough to find the response. -/
structure Polled (s : State) (headerData : ResponseHeaderData) (cut : Cutting) (polls : List Poll) :
    Prop where
  good : ∀ poll ∈ polls, GoodPoll s headerData poll
  enough : (cut 0).length < polls.length

section SameOutcome

variable {s : State} {id : ℕ} {process : Bool} {r : Response} {headerData : ResponseHeaderData}

end SameOutcome

/-- The response comes all at once. -/
def atOnce : Cutting := fun _ => []

theorem patient_atOnce (i : ℕ) (lines : List (List UInt8)) : Patient atOnce i lines := by
  induction lines generalizing i with
  | nil => trivial
  | cons line lines ih => exact ⟨fun _ _ _ => by simp [atOnce], ih _⟩

theorem joined_atOnce (i : ℕ) (lines : List (List UInt8)) : Joined atOnce i lines := by
  induction lines generalizing i with
  | nil => trivial
  | cons line lines ih => exact ⟨rfl, ih _⟩

section Main

variable {s : State} {id : ℕ} {process : Bool}

end Main

/-- A 200 response without header lines. -/
def shortResponse : Response where
  minor := 49
  code := ascii "200"
  reason := ascii "OK"
  headers := []
  body := ascii "hello"
  minor_digit := by decide
  code_length := by decide
  code_digits := List.all_eq_true.mp (by decide)
  reason_noCR := by decide
  reason_noNul := by decide
  status_short := by decide
  headers_lines := by simp
  body_short := by decide

end EspFirmware
