import EspFirmware.RequestRuns

/-!
# Which first lines are accepted

The header loop tests a line for the end of the headers before it looks for a status, so a first line of
one character ends the headers of a response that has no status.  A 200 status is recognised in the
trimmed, NUL-terminated text of what one `readBytesUntil` returned, which is not always the first line of
the stream.

* `firstChunk`, `closesLine` — what the first `readBytesUntil` returns, and whether it reached the CR;
* `StatusOk` — the first line of the stream starts with `HTTP/1.` and its second token is `200`;
* `Stops`, `Sure` — a first chunk past which nothing is read, and one that shows a 200 status line;
* `MayAccept` — a poll that reads past the line buffer may do anything, so it may accept;
* `acceptsOnly200_iff` — only a 200 response is accepted, exactly for sound first chunks.
-/

namespace EspFirmware

open CString

/-- The first line of a byte stream: what stands before the first CR. -/
def firstLine (bytes : List UInt8) : List UInt8 := bytes.takeWhile (· != CR)

/-- A 200 status line. -/
def StatusOk (bytes : List UInt8) : Prop :=
  ascii "HTTP/1." <+: firstLine bytes ∧ secondToken space (firstLine bytes) = some (ascii "200")

/-- Whether `readBytesUntil` ends at the terminator. -/
def reaches (terminator : UInt8) : ℕ → List Arrival → Bool
  | 0, _ => false
  | n + 1, s =>
      match Arrival.timedRead s with
      | (none, _) => false
      | (some b, s') => if b = terminator then true else reaches terminator n s'

/-- What the first `readBytesUntil` of a poll returns. -/
def firstChunk (client : List Arrival) : List UInt8 := (readLine (Arrival.available client).2).1

/-- Whether it reached the CR of the line. -/
def closesLine (client : List Arrival) : Bool :=
  reaches CR lineSize (Arrival.available (Arrival.available client).2).2

/-- What follows the first space-separated token of a line, from the next character that is no space. -/
def statusField (line : List UInt8) : List UInt8 :=
  match strtok space line with
  | none => []
  | some (_, rest) => rest.dropWhile (· == space)

/-- The text is taken for a 200 status line. -/
def TakenFor200 (text : List UInt8) : Prop :=
  ascii "HTTP/1." <+: text ∧ secondToken space text = some (ascii "200")

/-- The loop stops at the chunk: it is a terminated string that neither ends the headers nor is taken for
a 200 status line. -/
def Stops (raw : List UInt8) : Prop :=
  Terminated raw ∧ (lineText raw).length ≠ 1 ∧ ¬TakenFor200 (lineText raw)

/-- The chunk shows that its line is a 200 status line: the start and the token stand in the bytes as
they were read, and the token is closed. -/
def Sure (raw : List UInt8) (closed : Bool) : Prop :=
  ascii "HTTP/1." <+: raw ∧ secondToken space raw = some (ascii "200") ∧
    (closed = true ∨ ascii "200 " <+: statusField raw)

/-- The first chunk decides the status: the loop stops at it, or it shows a 200 status line. -/
def SoundChunk (raw : List UInt8) (closed : Bool) : Prop := Stops raw ∨ Sure raw closed

/-! ### Tokens -/

theorem secondToken_eq_some {line token : List UInt8} (ht : token ≠ []) :
    secondToken space line = some token ↔ (statusField line).takeWhile (· != space) = token := by
  unfold secondToken statusField
  cases hs : strtok space line with
  | none => simp [ht.symm]
  | some r =>
      obtain ⟨tok, rest⟩ := r
      simp only [strtok]
      cases hd : rest.dropWhile (· == space) with
      | nil => simp [ht.symm]
      | cons b t => simp

theorem firstChunk_length (client : List Arrival) : (firstChunk client).length ≤ lineSize :=
  readLine_raw_length _

theorem dropWhile_append_of_ne_nil {α : Type} {p : α → Bool} {l : List α} (m : List α)
    (h : l.dropWhile p ≠ []) : (l ++ m).dropWhile p = l.dropWhile p ++ m := by
  rw [List.dropWhile_append, if_neg (by simpa using h)]

/-- More bytes behind a line whose second token has begun are appended to it. -/
theorem statusField_append {line : List UInt8} (h : statusField line ≠ []) (more : List UInt8) :
    statusField (line ++ more) = statusField line ++ more := by
  unfold statusField strtok at h ⊢
  cases hd : line.dropWhile (· == space) with
  | nil => simp [hd] at h
  | cons b t =>
      simp only [hd] at h
      have hu : (b :: t).dropWhile (· != space) ≠ [] := by
        intro hu
        simp [hu] at h
      have hrest : ((b :: t).dropWhile (· != space) ++ more).drop 1
          = ((b :: t).dropWhile (· != space)).drop 1 ++ more :=
        List.drop_append_of_le_length (List.length_pos_of_ne_nil hu)
      rw [dropWhile_append_of_ne_nil more (by rw [hd]; simp), hd]
      simp only [List.cons_append]
      rw [← List.cons_append, dropWhile_append_of_ne_nil more hu, hrest,
        dropWhile_append_of_ne_nil more h]

/-- A second token that has not begun is at most the byte that follows. -/
theorem statusField_concat_length {line : List UInt8} (h : statusField line = []) :
    (statusField (line ++ [65])).length ≤ 1 := by
  unfold statusField strtok at h ⊢
  cases hd : line.dropWhile (· == space) with
  | nil =>
      have hd' : (line ++ [65]).dropWhile (· == space) = [65] := by
        rw [List.dropWhile_append, hd]
        rfl
      rw [hd']
      decide
  | cons b t =>
      simp only [hd] at h
      rw [dropWhile_append_of_ne_nil [65] (by rw [hd]; simp), hd]
      simp only [List.cons_append]
      rw [← List.cons_append, List.dropWhile_append]
      cases hu : (b :: t).dropWhile (· != space) with
      | nil =>
          have hnone : ([65] : List UInt8).dropWhile (· != space) = [] := by decide
          simp [hnone]
      | cons c u =>
          have hrest : u.dropWhile (· == space) = [] := by simpa [hu] using h
          have hlast : ([65] : List UInt8).dropWhile (· == space) = [65] := by decide
          simp [List.dropWhile_append, hrest, hlast]

theorem takeWhile_200 (tail : List UInt8) :
    (ascii "200 " ++ tail).takeWhile (· != space) = ascii "200" := by
  have hsplit : ascii "200 " ++ tail = ascii "200" ++ space :: tail := rfl
  have hdigits : ∀ b ∈ ascii "200", (b != space) = true := List.all_eq_true.mp (by decide)
  rw [hsplit, List.takeWhile_append_of_pos hdigits]
  simp

theorem mem_of_mem_secondToken {line token : List UInt8} {b : UInt8}
    (h : secondToken space line = some token) (hb : b ∈ token) : b ∈ line := by
  have hne : token ≠ [] := List.ne_nil_of_mem hb
  rw [secondToken_eq_some hne] at h
  rw [← h] at hb
  have hf := (List.takeWhile_sublist _).subset hb
  unfold statusField strtok at hf
  cases hd : line.dropWhile (· == space) with
  | nil => simp [hd] at hf
  | cons c t =>
      simp only [hd] at hf
      have h₁ := List.mem_of_mem_drop ((List.dropWhile_sublist _).subset hf)
      have h₂ := (List.dropWhile_sublist _).subset h₁
      rw [← hd] at h₂
      exact (List.dropWhile_sublist _).subset h₂

/-! ### What the code takes for a status -/

theorem lineText_not_mem_zero (raw : List UInt8) : (0 : UInt8) ∉ lineText raw := by
  intro h
  have h₁ := (List.dropWhile_sublist _).subset h
  have hp : (cstr raw).rdropWhile (· == space) <+: cstr raw := List.rdropWhile_prefix _ _
  exact cstr_not_mem_zero raw (hp.subset h₁)

/-- The ten bytes of `statusCode` hold `200` only if the token is `200`. -/
theorem strEq_statusCode {token : List UInt8} (hz : (0 : UInt8) ∉ token) (dst : CharArray 10) :
    strEq (dst.strncpy token 10 le_rfl).1 (ascii "200") = true ↔ token = ascii "200" := by
  have hstr : cstr (dst.strncpy token 10 le_rfl).1 = token.take 10 := by
    have h := dst.str_strncpy token
    rwa [cstr_eq_self hz] at h
  have hlit : cstr (ascii "200") = ascii "200" := by decide
  simp only [strEq, decide_eq_true_eq, hstr, hlit]
  constructor
  · intro h
    have hlen := congrArg List.length h
    have hthree : (ascii "200").length = 3 := by decide
    rw [List.length_take, hthree] at hlen
    rwa [List.take_of_length_le (by omega)] at h
  · rintro rfl
    decide

/-- Before a status was found a line goes through only as a 200 status line. -/
theorem headerTests_next {headerData headerData' : ResponseHeaderData} {line : List UInt8}
    {found : Bool} (hz : (0 : UInt8) ∉ line)
    (h : headerTests false headerData line = .ok (.next found headerData')) : TakenFor200 line := by
  unfold headerTests at h
  split at h
  · rename_i hstart
    split at h
    · cases h
    · rename_i token htok
      have hztok : (0 : UInt8) ∉ token := fun hm => hz (mem_of_mem_secondToken htok hm)
      simp only at h
      split at h
      · cases h
      · rename_i hcode
        rw [not_not, strEq_statusCode hztok] at hcode
        rw [hcode] at htok
        refine ⟨?_, htok⟩
        simpa [startsWith, cstr_eq_self hz] using hstart
  · rw [if_pos (by simp)] at h
    cases h

/-- The tests stop only at a missing token. -/
theorem headerTests_error {found : Bool} {headerData : ResponseHeaderData} {line : List UInt8}
    {fault : Fault} (h : headerTests found headerData line = .error fault) : fault = .nullPointer := by
  unfold headerTests at h
  split at h
  · split at h
    · cases h
      rfl
    · simp only at h
      split at h <;> cases h
  · repeat' split at h
    all_goals cases h
    all_goals rfl

theorem headerTests_ne_endOfHeaders (found : Bool) (headerData : ResponseHeaderData)
    (line : List UInt8) : headerTests found headerData line ≠ .ok .endOfHeaders := by
  unfold headerTests
  repeat' split
  all_goals simp
  split <;> simp

/-- A 200 status line goes through. -/
theorem headerTests_of_takenFor200 {line : List UInt8} (found : Bool)
    (headerData : ResponseHeaderData) (hz : (0 : UInt8) ∉ line) (h : TakenFor200 line) :
    headerTests found headerData line = .ok (.next true { headerData with
      statusCode := headerData.statusCode.strncpy (ascii "200") 10 le_rfl }) := by
  have hstart : startsWith (ascii "HTTP/1.") line = true := by
    simpa [startsWith, cstr_eq_self hz] using h.1
  have hcode : strEq (headerData.statusCode.strncpy (ascii "200") 10 le_rfl).1 (ascii "200") = true :=
    (strEq_statusCode (by decide) _).mpr rfl
  simp only [headerTests, hstart, if_true, h.2, hcode, not_true, if_false]

/-! ### The first line and the first chunk -/

theorem available_bytesOf (client : List Arrival) :
    Arrival.bytesOf (Arrival.available client).2 = Arrival.bytesOf client := by
  cases client with
  | nil => rfl
  | cons a s => cases a <;> rfl

/-- `readBytesUntil` takes its bytes from the stream, and the terminator if it reaches it. -/
theorem readBytesUntil_bytesOf (t : UInt8) (n : ℕ) (s : List Arrival) :
    Arrival.bytesOf s = (Arrival.readBytesUntil t n s).1 ++
        (if reaches t n s then [t] else []) ++ Arrival.bytesOf (Arrival.readBytesUntil t n s).2 ∧
      t ∉ (Arrival.readBytesUntil t n s).1 := by
  induction n generalizing s with
  | zero => simp [Arrival.readBytesUntil, reaches]
  | succ n ih =>
      rcases hr : Arrival.timedRead s with ⟨_ | b, s'⟩
      · have h := (Arrival.timedRead_none hr).1
        simp [Arrival.readBytesUntil, reaches, hr, h]
      · have h := (Arrival.timedRead_some hr).1
        obtain ⟨hi, hni⟩ := ih s'
        by_cases hb : b = t
        · simp [Arrival.readBytesUntil, reaches, hr, hb, h]
        · simp only [Arrival.readBytesUntil, reaches, hr, hb, if_false, List.cons_append,
            List.mem_cons, not_or]
          exact ⟨by rw [h, ← hi], fun ht => hb ht.symm, hni⟩

/-- The first line of a stream begins with the first chunk, and is the chunk if that reached the CR. -/
theorem firstLine_eq (client : List Arrival) :
    ∃ more, firstLine (Arrival.bytesOf client) = firstChunk client ++ more ∧
      (closesLine client = true → more = []) := by
  obtain ⟨hbytes, hcr⟩ := readBytesUntil_bytesOf CR lineSize
    (Arrival.available (Arrival.available client).2).2
  rw [available_bytesOf, available_bytesOf] at hbytes
  have hall : ∀ b ∈ firstChunk client, (b != CR) = true := by
    intro b hb
    rw [bne_iff_ne]
    rintro rfl
    exact hcr hb
  refine ⟨firstLine ((if closesLine client then [CR] else []) ++
    Arrival.bytesOf (readLine (Arrival.available client).2).2), ?_, fun hc => ?_⟩
  · rw [hbytes, firstLine, List.append_assoc]
    exact List.takeWhile_append_of_pos hall
  · rw [if_pos hc]
    simp [firstLine]

/-- A chunk that shows a 200 status line comes from one. -/
theorem Sure.statusOk {client : List Arrival} (h : Sure (firstChunk client) (closesLine client)) :
    StatusOk (Arrival.bytesOf client) := by
  obtain ⟨hstart, htok, hclosed⟩ := h
  obtain ⟨more, hline, hmore⟩ := firstLine_eq client
  rw [StatusOk, hline]
  refine ⟨hstart.trans (List.prefix_append _ _), ?_⟩
  rcases hclosed with hc | hspace
  · rw [hmore hc, List.append_nil]
    exact htok
  · obtain ⟨tail, htail⟩ := hspace
    have hfield : statusField (firstChunk client) ≠ [] := by
      rw [← htail]
      exact List.append_ne_nil_of_left_ne_nil (by decide) _
    rw [secondToken_eq_some (by decide), statusField_append hfield, ← htail, List.append_assoc]
    exact takeWhile_200 _

/-! ### A poll that accepts -/

/-- The poll from `s` to `s'` accepts a response: it completes the request with success or invokes the
process callback. -/
def Accepting (s s' : State) : Prop :=
  s.requestCompletionStatus ≠ .success ∧ s'.requestCompletionStatus = .success ∨
    ∃ id headerData rest, s'.trace = s.trace ++ .invoked id (.process headerData) :: rest

/-- The poll may accept a response: it does, or it reads past the end of a buffer, after which nothing is
known of what it does.  A missing token is a null pointer, at which the device traps. -/
def MayAccept (s : State) (poll : Poll) : Prop :=
  (∃ s', s.checkForHttpResponse poll = .ok s' ∧ Accepting s s') ∨
    s.checkForHttpResponse poll = .error .outOfBounds

/-- At a chunk where the loop stops the request is given up, or the device traps. -/
theorem Stops.headerLine {raw : List UInt8} (h : Stops raw) (hlen : raw.length ≤ lineSize)
    (headerData : ResponseHeaderData) :
    (∃ msg, headerLine false headerData raw = .ok (.rejected msg)) ∨
      headerLine false headerData raw = .error .nullPointer := by
  obtain ⟨hterm, hone, hno⟩ := h
  rw [headerLine_eq false headerData hlen hterm, if_neg hone]
  cases htests : headerTests false headerData (lineText raw) with
  | error fault => exact .inr (by rw [headerTests_error htests])
  | ok r =>
      cases r with
      | endOfHeaders => exact absurd htests (headerTests_ne_endOfHeaders _ _ _)
      | rejected msg => exact .inl ⟨msg, rfl⟩
      | next found headerData' => exact absurd (headerTests_next (lineText_not_mem_zero _) htests) hno

/-- The header loop does not get past such a chunk. -/
theorem Stops.readHeaders {client : List Arrival} (h : Stops (firstChunk client))
    (headerData : ResponseHeaderData) :
    (∀ headerData' client', readHeaders false headerData (Arrival.available client).2
      ≠ .ok (.ended true headerData' client')) ∧
    readHeaders false headerData (Arrival.available client).2 ≠ .error .outOfBounds := by
  have hchunk : (readLine (Arrival.available client).2).1 = EspFirmware.firstChunk client := rfl
  rw [EspFirmware.readHeaders]
  split_ifs
  · simp
  · rw [hchunk]
    rcases h.headerLine (firstChunk_length client) headerData with ⟨msg, hline⟩ | hline
    · simp [hline]
    · simp [hline]

theorem pollResponse_accepted {process : Bool} {headerData : ResponseHeaderData}
    {buffer : CharArray responseSize} {client : List Arrival} {r : PollResult}
    (h : pollResponse process headerData buffer client = .ok r)
    (hr : (∃ headerData' client', r = .process headerData' client') ∨
      ∃ buffer' client', r = .success buffer' client') :
    ∃ headerData' client', readHeaders false headerData (Arrival.available client).2
      = .ok (.ended true headerData' client') := by
  unfold pollResponse at h
  split at h
  · cases h
    simp at hr
  · obtain ⟨r', hr', h⟩ := FallibleRun.bind_ok h
    cases r' with
    | rejected msg client' =>
        cases h
        simp at hr
    | ended found headerData' client' =>
        cases found with
        | false =>
            cases h
            simp at hr
        | true => exact ⟨headerData', client', hr'⟩

/-- A poll that reads past a buffer has found the end of the headers or read past the line buffer. -/
theorem pollResponse_outOfBounds {process : Bool} {headerData : ResponseHeaderData}
    {buffer : CharArray responseSize} {client : List Arrival}
    (h : pollResponse process headerData buffer client = .error .outOfBounds) :
    (∃ headerData' client', readHeaders false headerData (Arrival.available client).2
      = .ok (.ended true headerData' client')) ∨
    readHeaders false headerData (Arrival.available client).2 = .error .outOfBounds := by
  unfold pollResponse at h
  split at h
  · cases h
  · cases hread : readHeaders false headerData (Arrival.available client).2 with
    | error fault =>
        rw [hread] at h
        cases h
        exact .inr rfl
    | ok r =>
        rw [hread] at h
        cases r with
        | rejected msg client' => cases h
        | ended found headerData' client' =>
            cases found with
            | false => cases h
            | true => exact .inl ⟨headerData', client', rfl⟩

/-- A poll that reads past a buffer does so in the response or in the process callback. -/
theorem checkForHttpResponse_outOfBounds {s : State} {poll : Poll}
    (h : s.checkForHttpResponse poll = .error .outOfBounds) :
    ∃ process, pollResponse process poll.headerData s.responseBuffer s.client = .error .outOfBounds ∨
      ∃ headerData client, pollResponse process poll.headerData s.responseBuffer s.client
        = .ok (.process headerData client) := by
  unfold State.checkForHttpResponse at h
  split_ifs at h
  cases hcb : s.callbacks with
  | none =>
      rw [hcb] at h
      cases h
  | some cb =>
      rw [hcb] at h
      refine ⟨cb.process, ?_⟩
      cases hpoll : pollResponse cb.process poll.headerData s.responseBuffer s.client with
      | error fault =>
          simp only [hpoll] at h
          cases h
          exact .inl rfl
      | ok r =>
          simp only [hpoll] at h
          cases r with
          | process headerData client => exact .inr ⟨headerData, client, rfl⟩
          | nothing client => cases h
          | failed msg client => cases h
          | success buffer client => cases h
          | noBody buffer client => cases h

/-- **What may be accepted has passed the first chunk.** -/
theorem MayAccept.not_stops {s : State} {poll : Poll} (h : MayAccept s poll) :
    ¬Stops (firstChunk s.client) := by
  intro hstop
  obtain ⟨hend, hbounds⟩ := hstop.readHeaders poll.headerData
  have hpoll : ∀ {process r},
      pollResponse process poll.headerData s.responseBuffer s.client = .ok r →
      ¬((∃ headerData' client', r = .process headerData' client') ∨
        ∃ buffer' client', r = .success buffer' client') := by
    intro process r hr hacc
    obtain ⟨headerData', client', hread⟩ := pollResponse_accepted hr hacc
    exact hend headerData' client' hread
  rcases h with ⟨s', hcheck, hacc⟩ | hcheck
  · cases checkForHttpResponse_spec hcheck with
    | ignored =>
        rcases hacc with ⟨hne, he⟩ | ⟨id, headerData, rest, htrace⟩
        · exact absurd he hne
        · simp at htrace
    | waited =>
        rcases hacc with ⟨hne, he⟩ | ⟨id, headerData, rest, htrace⟩
        · exact absurd he hne
        · simp at htrace
    | gaveUp msg buffer =>
        rcases hacc with ⟨-, he⟩ | ⟨id, headerData, rest, htrace⟩
        · cases he
        · have hsplit : s.trace ++ [HttpEvent.recorded msg]
              = s.trace ++ .invoked id (.process headerData) :: rest := htrace
          have := List.append_cancel_left hsplit
          simp at this
    | processed cb headerData client t hp hl hcb hread hrun => exact hpoll hread (.inl ⟨_, _, rfl⟩)
    | completed cb buffer client hp hl hcb hread => exact hpoll hread (.inr ⟨_, _, rfl⟩)
  · obtain ⟨process, herr | ⟨headerData, client, hread⟩⟩ := checkForHttpResponse_outOfBounds hcheck
    · rcases pollResponse_outOfBounds herr with ⟨headerData', client', hread⟩ | hread
      · exact hend headerData' client' hread
      · exact hbounds hread
    · exact hpoll hread (.inl ⟨_, _, rfl⟩)

/-! ### Chunks that break the rule -/

theorem readBytesUntil_append {t : UInt8} {raw : List UInt8} (h : t ∉ raw) (n : ℕ)
    (s : List Arrival) :
    Arrival.readBytesUntil t (raw.length + n) (raw.map .byte ++ s)
        = (raw ++ (Arrival.readBytesUntil t n s).1, (Arrival.readBytesUntil t n s).2) ∧
      reaches t (raw.length + n) (raw.map .byte ++ s) = reaches t n s := by
  induction raw with
  | nil => simp
  | cons b raw ih =>
      simp only [List.mem_cons, not_or] at h
      obtain ⟨h₁, h₂⟩ := ih h.2
      have hb : ¬b = t := fun he => h.1 he.symm
      have hlen : (b :: raw).length + n = (raw.length + n) + 1 := by
        simp only [List.length_cons]
        omega
      rw [hlen]
      simp only [List.map_cons, List.cons_append, Arrival.readBytesUntil, reaches, Arrival.timedRead,
        hb, if_false, h₁, h₂]
      exact ⟨trivial, trivial⟩

/-- How a chunk ends: at its CR, at the end of the buffer, or at a pause that outlasts the timeout. -/
def endOfChunk (raw : List UInt8) (closed : Bool) : List Arrival :=
  if closed then [.byte CR] else if raw.length = lineSize then [] else [.pause true]

/-- The chunk, and then a line of one character. -/
def chunkStream (raw : List UInt8) (closed : Bool) : List Arrival :=
  raw.map .byte ++ (endOfChunk raw closed ++ [.byte 65, .byte CR])

/-- The bytes and the length a first chunk can have. -/
def PossibleChunk (raw : List UInt8) (closed : Bool) : Prop :=
  CR ∉ raw ∧ raw.length + (if closed then 1 else 0) ≤ lineSize

theorem readBytesUntil_endOfChunk {raw : List UInt8} {closed : Bool} (h : PossibleChunk raw closed)
    (s : List Arrival) :
    Arrival.readBytesUntil CR (lineSize - raw.length) (endOfChunk raw closed ++ s) = ([], s) ∧
      reaches CR (lineSize - raw.length) (endOfChunk raw closed ++ s) = closed := by
  obtain ⟨-, hlen⟩ := h
  cases closed with
  | true =>
      simp only [if_true] at hlen
      obtain ⟨m, hm⟩ : ∃ m, lineSize - raw.length = m + 1 := ⟨lineSize - raw.length - 1, by omega⟩
      rw [hm]
      simp [endOfChunk, Arrival.readBytesUntil, reaches, Arrival.timedRead]
  | false =>
      simp only [Bool.false_eq_true, if_false, Nat.add_zero] at hlen
      by_cases hfull : raw.length = lineSize
      · have hz : lineSize - raw.length = 0 := by omega
        rw [hz]
        simp [endOfChunk, hfull, Arrival.readBytesUntil, reaches]
      · obtain ⟨m, hm⟩ : ∃ m, lineSize - raw.length = m + 1 := ⟨lineSize - raw.length - 1, by omega⟩
        rw [hm]
        simp [endOfChunk, hfull, Arrival.readBytesUntil, reaches, Arrival.timedRead]

theorem available_chunkStream {raw : List UInt8} (hne : raw ≠ []) (closed : Bool) :
    (Arrival.available (chunkStream raw closed)).1 ≠ 0 ∧
      (Arrival.available (chunkStream raw closed)).2 = chunkStream raw closed := by
  obtain ⟨b, raw, rfl⟩ := List.exists_cons_of_ne_nil hne
  refine ⟨?_, rfl⟩
  simp only [chunkStream, List.map_cons, List.cons_append, Arrival.available]
  omega

theorem readLine_chunkStream {raw : List UInt8} {closed : Bool} (hne : raw ≠ [])
    (h : PossibleChunk raw closed) :
    readLine (chunkStream raw closed) = (raw, [.byte 65, .byte CR]) ∧
      firstChunk (chunkStream raw closed) = raw ∧ closesLine (chunkStream raw closed) = closed := by
  have hav := (available_chunkStream hne closed).2
  have hsize : lineSize = raw.length + (lineSize - raw.length) := by
    have := h.2
    omega
  obtain ⟨h₁, h₂⟩ := readBytesUntil_append h.1 (lineSize - raw.length)
    (endOfChunk raw closed ++ [.byte 65, .byte CR])
  obtain ⟨h₃, h₄⟩ := readBytesUntil_endOfChunk h [.byte 65, .byte CR]
  rw [h₃, List.append_nil, ← hsize] at h₁
  rw [h₄, ← hsize] at h₂
  have hline : readLine (chunkStream raw closed) = (raw, [.byte 65, .byte CR]) := by
    rw [readLine, hav]
    exact h₁
  refine ⟨hline, ?_, ?_⟩
  · rw [firstChunk, hav, hline]
  · rw [closesLine, hav, hav]
    exact h₂

/-- The header loop ends at the line of one character. -/
theorem readHeaders_single (headerData : ResponseHeaderData) :
    readHeaders true headerData [.byte 65, .byte CR] = .ok (.ended true headerData []) := by
  have hline : readLine [.byte 65, .byte CR] = ([65], []) := rfl
  have hend : headerLine true headerData [65] = .ok .endOfHeaders := by
    rw [headerLine_eq true headerData (by decide) (by decide), if_pos (by decide)]
  rw [readHeaders, dif_neg (by decide), hline, hend]

theorem readHeaders_chunkStream {raw : List UInt8} {closed : Bool} (headerData : ResponseHeaderData)
    (hne : raw ≠ []) (h : PossibleChunk raw closed) (hterm : Terminated raw)
    (hgo : (lineText raw).length = 1 ∨ TakenFor200 (lineText raw)) :
    ∃ headerData' client', readHeaders false headerData (chunkStream raw closed)
      = .ok (.ended true headerData' client') := by
  obtain ⟨hav, -⟩ := available_chunkStream hne closed
  have hlen : raw.length ≤ lineSize := le_trans (Nat.le_add_right _ _) h.2
  rw [readHeaders, dif_neg hav, (readLine_chunkStream hne h).1,
    headerLine_eq false headerData hlen hterm]
  by_cases hone : (lineText raw).length = 1
  · rw [if_pos hone]
    exact ⟨_, _, rfl⟩
  · rw [if_neg hone, headerTests_of_takenFor200 false headerData (lineText_not_mem_zero raw)
      (hgo.resolve_left hone)]
    exact ⟨_, _, readHeaders_single _⟩

theorem readHeaders_chunkStream_fault {raw : List UInt8} {closed : Bool}
    (headerData : ResponseHeaderData) (hne : raw ≠ []) (h : PossibleChunk raw closed)
    (hterm : ¬Terminated raw) :
    readHeaders false headerData (chunkStream raw closed) = .error .outOfBounds := by
  obtain ⟨hav, -⟩ := available_chunkStream hne closed
  have hlen : raw.length ≤ lineSize := le_trans (Nat.le_add_right _ _) h.2
  rw [readHeaders, dif_neg hav, (readLine_chunkStream hne h).1,
    headerLine_fault false headerData hlen hterm]

/-! ### What a chunk says about its line -/

/-- A raw line that starts with `HTTP/1.` keeps that start when it is cut at its NUL and trimmed. -/
theorem lineText_of_start {raw : List UInt8} (h : ascii "HTTP/1." <+: raw) :
    ascii "HTTP/1." <+: lineText raw ∧ lineText raw <+: raw := by
  obtain ⟨tail, rfl⟩ := h
  have hcstr : cstr (ascii "HTTP/1." ++ tail) = ascii "HTTP/1." ++ cstr tail :=
    List.takeWhile_append_of_pos (List.all_eq_true.mp (by decide))
  have hlast : ((ascii "HTTP/1.").getLast (by decide) == space) = false := by decide
  have htext : lineText (ascii "HTTP/1." ++ tail)
      = ascii "HTTP/1." ++ (cstr tail).rdropWhile (· == space) := by
    rw [lineText, trimSpaces, hcstr, rdropWhile_append_of_last _ hlast]
    rfl
  have hpre : (cstr tail).rdropWhile (· == space) <+: tail :=
    (List.rdropWhile_prefix _ _).trans (List.takeWhile_prefix _)
  rw [htext]
  exact ⟨List.prefix_append _ _, (List.prefix_append_right_inj _).mpr hpre⟩

theorem firstLine_chunkStream {raw : List UInt8} {closed : Bool} (h : PossibleChunk raw closed) :
    firstLine (Arrival.bytesOf (chunkStream raw closed)) = raw ++ if closed then [] else [65] := by
  have hall : ∀ b ∈ raw, (b != CR) = true := by
    intro b hb
    rw [bne_iff_ne]
    rintro rfl
    exact h.1 hb
  rw [chunkStream, Arrival.bytesOf_append, Arrival.bytesOf_map_byte, Arrival.bytesOf_append, firstLine,
    List.takeWhile_append_of_pos hall]
  congr 1
  unfold endOfChunk
  split_ifs <;> decide

/-- A status that one more character leaves in place was closed by a space. -/
theorem closed_of_takeWhile {field : List UInt8}
    (h : (field ++ [65]).takeWhile (· != space) = ascii "200") :
    field.takeWhile (· != space) = ascii "200" ∧ ascii "200 " <+: field := by
  rw [List.takeWhile_append] at h
  split at h
  · have hlast := congrArg List.getLast? h
    simp [space] at hlast
    exact absurd hlast (by decide)
  · rename_i hlen
    refine ⟨h, ?_⟩
    have hsplit := List.takeWhile_append_dropWhile (p := (· != space)) (l := field)
    cases hd : field.dropWhile (· != space) with
    | nil =>
        rw [hd, List.append_nil] at hsplit
        rw [hsplit] at hlen
        exact absurd rfl hlen
    | cons c rest =>
        have hc : c = space := by
          have hhead := List.head_dropWhile_not (· != space) (l := field) (by rw [hd]; simp)
          simp only [hd, List.head_cons] at hhead
          simpa using hhead
        rw [h, hd, hc] at hsplit
        exact ⟨rest, hsplit⟩

/-- If the stream of a chunk has a 200 status line, the chunk shows it. -/
theorem Sure.of_statusOk {raw : List UInt8} {closed : Bool} (h : PossibleChunk raw closed)
    (hok : StatusOk (Arrival.bytesOf (chunkStream raw closed))) : Sure raw closed := by
  rw [StatusOk, firstLine_chunkStream h] at hok
  obtain ⟨hstart, htok⟩ := hok
  have hraw : ascii "HTTP/1." <+: raw := by
    cases closed with
    | true => simpa using hstart
    | false =>
        rcases List.prefix_concat_iff.mp hstart with he | hp
        · have hlast := congrArg List.getLast? he
          rw [List.getLast?_concat] at hlast
          exact absurd hlast (by decide)
        · exact hp
  refine ⟨hraw, ?_⟩
  cases closed with
  | true => exact ⟨by simpa using htok, .inl rfl⟩
  | false =>
      have hne : ascii "200" ≠ [] := by decide
      simp only [Bool.false_eq_true, if_false] at htok
      rw [secondToken_eq_some hne] at htok
      -- the second token has begun inside the chunk
      have hfield : statusField raw ≠ [] := by
        intro hnil
        have hshort := statusField_concat_length hnil
        have htoken := (List.takeWhile_sublist (· != space)).length_le.trans hshort
        rw [htok] at htoken
        exact absurd htoken (by decide)
      rw [statusField_append hfield] at htok
      obtain ⟨h₁, h₂⟩ := closed_of_takeWhile htok
      exact ⟨(secondToken_eq_some hne).mpr h₁, .inr h₂⟩

/-- A request that is sent to a server that answers with `client`. -/
def opened (process : Bool) (client : List Arrival) : Call :=
  .httpRequest { getRequest with processCallback := process } (.reached client) .done

theorem runCalls_opened (process : Bool) (client : List Arrival) :
    ∃ s, runCalls [opened process client] = .ok s ∧ s.callbacks = some ⟨0, process⟩ ∧
      Awaiting s (.at 1) ∧ s.client = client ∧ s.requestCompletionStatus = .idle :=
  ⟨_, rfl, rfl, ⟨rfl, (by decide : (1 : UInt32) ≠ 0), (by decide : timedOut 1 1 = false), rfl, rfl⟩,
    rfl, rfl⟩

/-- The poll of a request whose headers end invokes the process callback. -/
theorem opened_accepting {client : List Arrival} {headerData : ResponseHeaderData}
    {client' : List Arrival} (hav : (Arrival.available client).1 ≠ 0)
    (h : readHeaders false .zero (Arrival.available client).2
      = .ok (.ended true headerData client')) :
    ∃ s s', runCalls [opened true client] = .ok s ∧ s.client = client ∧
      s.checkForHttpResponse (.at 1) = .ok s' ∧ Accepting s s' := by
  obtain ⟨s, hs, hcb, hwait, hclient, -⟩ := runCalls_opened true client
  have hpoll : pollResponse true .zero s.responseBuffer client = .ok (.process headerData client') := by
    rw [pollResponse, if_neg hav, h]
    rfl
  have hcheck := checkForHttpResponse_awaiting hwait hcb
  rw [hclient] at hcheck
  change _ = pollResponse true .zero _ _ >>= _ at hcheck
  rw [hpoll] at hcheck
  exact ⟨s, _, hs, hclient, hcheck, .inr ⟨0, headerData, [], rfl⟩⟩

/-- A request whose response begins with a chunk that does not stop the loop: its first poll may accept. -/
theorem opened_mayAccept {raw : List UInt8} {closed : Bool} (h : PossibleChunk raw closed)
    (hgo : ¬Stops raw) :
    ∃ s, runCalls [opened true (chunkStream raw closed)] = .ok s ∧ s.client = chunkStream raw closed ∧
      firstChunk s.client = raw ∧ closesLine s.client = closed ∧ MayAccept s (.at 1) := by
  have hne : raw ≠ [] := by
    rintro rfl
    refine hgo ⟨by decide, by decide, fun htaken => ?_⟩
    exact absurd htaken.1 (by decide)
  obtain ⟨-, hchunk, hclosed⟩ := readLine_chunkStream hne h
  obtain ⟨hav, hav'⟩ := available_chunkStream hne closed
  by_cases hterm : Terminated raw
  · have hpass : (lineText raw).length = 1 ∨ TakenFor200 (lineText raw) := by
      by_contra hno
      rw [not_or] at hno
      exact hgo ⟨hterm, hno⟩
    obtain ⟨headerData, client', hread⟩ := readHeaders_chunkStream .zero hne h hterm hpass
    rw [← hav'] at hread
    obtain ⟨s, s', hs, hclient, hcheck, hacc⟩ := opened_accepting hav hread
    exact ⟨s, hs, hclient, by rw [hclient, hchunk], by rw [hclient, hclosed],
      .inl ⟨s', hcheck, hacc⟩⟩
  · -- the first line overruns its buffer
    have hread := readHeaders_chunkStream_fault .zero hne h hterm
    rw [← hav'] at hread
    obtain ⟨s, hs, hcb, hwait, hclient, -⟩ := runCalls_opened true (chunkStream raw closed)
    have hcheck := checkForHttpResponse_awaiting hwait hcb
    rw [hclient] at hcheck
    change _ = pollResponse true .zero _ _ >>= _ at hcheck
    rw [pollResponse, if_neg hav, hread] at hcheck
    exact ⟨s, hs, hclient, by rw [hclient, hchunk], by rw [hclient, hclosed], .inr hcheck⟩

/-- **Only a 200 response is accepted, exactly for sound first chunks.**  Whatever the rest of the stream,
the way it becomes available and the state of the request manager: what `checkForHttpResponse` may accept
has a 200 status line if and only if the first chunk is sound. -/
theorem acceptsOnly200_iff (raw : List UInt8) (closed : Bool) (h : PossibleChunk raw closed) :
    (∀ s poll, firstChunk s.client = raw → closesLine s.client = closed → MayAccept s poll →
      StatusOk (Arrival.bytesOf s.client)) ↔ SoundChunk raw closed := by
  constructor
  · intro hall
    by_cases hstop : Stops raw
    · exact .inl hstop
    · obtain ⟨s, -, hclient, hraw, hclosed, hacc⟩ := opened_mayAccept h hstop
      have hok := hall s (.at 1) hraw hclosed hacc
      rw [hclient] at hok
      exact .inr (Sure.of_statusOk h hok)
  · intro hsound s poll hraw hclosed hacc
    have hgo := hacc.not_stops
    rw [hraw] at hgo
    have hsure := hsound.resolve_left hgo
    rw [← hraw, ← hclosed] at hsure
    exact hsure.statusOk

theorem acceptsOnly200_statusLine :
    PossibleChunk (ascii "HTTP/1.1 200 OK") true ∧ ∀ s poll,
      firstChunk s.client = ascii "HTTP/1.1 200 OK" → closesLine s.client = true →
      MayAccept s poll → StatusOk (Arrival.bytesOf s.client) :=
  have hchunk : PossibleChunk (ascii "HTTP/1.1 200 OK") true := ⟨by decide, by decide⟩
  ⟨hchunk, (acceptsOnly200_iff _ true hchunk).mpr (.inr ⟨by decide, by decide, .inl rfl⟩)⟩

/-- A response that begins with a line of one line feed is handed to the process callback, whatever
follows: it has no status line at all. -/
theorem noStatus_accepted :
    ∃ s s', runCalls [opened true ((ascii "\n\r\nfirmware").map .byte)] = .ok s ∧
      s.checkForHttpResponse (.at 1) = .ok s' ∧ Accepting s s' ∧
      ¬StatusOk (Arrival.bytesOf s.client) := by
  have hread : readHeaders false .zero
        (Arrival.available ((ascii "\n\r\nfirmware").map .byte)).2
      = .ok (.ended true .zero ((ascii "\nfirmware").map .byte)) := by
    have hline : readLine (Arrival.available ((ascii "\n\r\nfirmware").map .byte)).2
        = ([LF], (ascii "\nfirmware").map .byte) := rfl
    rw [readHeaders, dif_neg (by decide), hline,
      headerLine_eq false .zero (by decide) (by decide), if_pos (by decide)]
  obtain ⟨s, s', hs, hclient, hcheck, hacc⟩ := opened_accepting (by decide) hread
  refine ⟨s, s', hs, hcheck, hacc, ?_⟩
  rw [hclient, Arrival.bytesOf_map_byte]
  exact fun h => absurd h.1 (by decide)

end EspFirmware
