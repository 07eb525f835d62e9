import EspFirmware.BadStatus
import EspFirmware.HeaderChunks
import Mathlib.Algebra.Order.Ring.Int

/-!
# The body of a response

The body loop of `checkForHttpResponse`, for a request without a process callback, on any results its
client gives.  `available()` is used as a truth value, the `int` of `read()` is narrowed to a `char`, and
the index is a `short`.

* `BodyRound` — what one round of the loop gets from the client; `bodyWrites` — what the loop writes to
  `responseBuffer`, index by index;
* `storeBody_eq` — the writes, checked one by one, are `storeBody` of the characters of the rounds;
* `State.readResponseBody`, `checkForHttpResponse_body` — the body phase, and that a poll comes to it;
* `bodyWrites_inside_iff` — the writes stay in the buffer exactly for fewer than 3500 rounds;
* `deliversReceived_iff` — only received bytes are delivered exactly if no `read()` of the loop failed.
-/

namespace EspFirmware

open CString

/-- The result of `available()` in one round and, if that is not zero, of `read()`. -/
structure BodyRound where
  available : ℤ
  read : ℤ
  deriving Repr, DecidableEq

/-- `char c = wifiClientActive->read()`. -/
def BodyRound.char (r : BodyRound) : UInt8 := UInt8.ofInt r.read

/-- The rounds in which the body of the loop runs. -/
def bodyRounds (rounds : List BodyRound) : List BodyRound := rounds.takeWhile (·.available != 0)

/-- The characters they store. -/
def bodyChars (rounds : List BodyRound) : List UInt8 := (bodyRounds rounds).map BodyRound.char

/-- The writes to `responseBuffer`, terminator included: index and character.  Past the end of the list
the client has nothing more.  The loop also tests `requestIsPending`, which nothing in it changes. -/
def bodyWrites : Int16 → List BodyRound → List (ℤ × UInt8)
  | bufferPos, [] => [(bufferPos.toInt, 0)]
  | bufferPos, r :: rounds =>
      if r.available = 0 then [(bufferPos.toInt, 0)]
      else (bufferPos.toInt, r.char) :: bodyWrites (bufferPos + 1) rounds

/-- An index of `responseBuffer`. -/
def InBuffer (i : ℤ) : Prop := 0 ≤ i ∧ i < responseSize

instance (i : ℤ) : Decidable (InBuffer i) := by
  unfold InBuffer
  infer_instance

/-- Writes to the buffer, one after another. -/
def writeAll : CharArray responseSize → List (ℤ × UInt8) → Except Fault (CharArray responseSize)
  | buffer, [] => .ok buffer
  | buffer, (i, c) :: ws =>
      if InBuffer i then writeAll ⟨buffer.1.set i.toNat c, by rw [List.length_set, buffer.2]⟩ ws
      else .error .outOfBounds

/-! ### The writes -/

theorem bodyRounds_cons (r : BodyRound) (rounds : List BodyRound) :
    bodyRounds (r :: rounds) = if r.available = 0 then [] else r :: bodyRounds rounds := by
  by_cases h : r.available = 0 <;> simp [bodyRounds, h]

theorem bodyChars_length (rounds : List BodyRound) :
    (bodyChars rounds).length = (bodyRounds rounds).length := List.length_map _

/-- The index has not wrapped inside the buffer. -/
theorem inBuffer_ofNat {k : ℕ} (h : k ≤ responseSize) :
    (Int16.ofNat k).toInt = k ∧ (InBuffer (Int16.ofNat k).toInt ↔ k < responseSize) := by
  have hk : (Int16.ofNat k).toInt = k := Int16.toInt_ofNat_of_lt (by simp only [responseSize] at h; omega)
  refine ⟨hk, ?_⟩
  rw [hk, InBuffer]
  omega

/-- From index `k` on, the writes stay in the buffer exactly if there is room for the rounds and the
terminator. -/
theorem bodyWrites_from (rounds : List BodyRound) :
    ∀ k, k ≤ responseSize →
      ((∀ w ∈ bodyWrites (Int16.ofNat k) rounds, InBuffer w.1) ↔
        k + (bodyRounds rounds).length < responseSize) := by
  induction rounds with
  | nil =>
      intro k hk
      simpa [bodyWrites, bodyRounds] using (inBuffer_ofNat hk).2
  | cons r rounds ih =>
      intro k hk
      rw [bodyWrites, bodyRounds_cons]
      by_cases hr : r.available = 0
      · simpa [hr] using (inBuffer_ofNat hk).2
      · have hnext : Int16.ofNat k + 1 = Int16.ofNat (k + 1) := (Int16.ofNat_add k 1).symm
        rw [if_neg hr, if_neg hr, List.forall_mem_cons, (inBuffer_ofNat hk).2, hnext]
        constructor
        · rintro ⟨hlt, hrest⟩
          have := (ih (k + 1) (by omega)).mp hrest
          simp only [List.length_cons]
          omega
        · intro hlt
          simp only [List.length_cons] at hlt
          exact ⟨by omega, (ih (k + 1) (by omega)).mpr (by omega)⟩

/-- **The body never overruns its buffer exactly if fewer than 3500 rounds run.** -/
theorem bodyWrites_inside_iff (rounds : List BodyRound) :
    (∀ w ∈ bodyWrites 0 rounds, 0 ≤ w.1 ∧ w.1 < responseSize) ↔
      (rounds.takeWhile (·.available != 0)).length < responseSize := by
  have h := bodyWrites_from rounds 0 (by decide)
  rw [Nat.zero_add] at h
  exact h

/-- A body of 3500 characters, one more than fits. -/
def longBody : List BodyRound := List.replicate 3500 ⟨1, 65⟩

/-- The terminator is written behind the buffer. -/
theorem longBody_overruns : ¬∀ w ∈ bodyWrites 0 longBody, 0 ≤ w.1 ∧ w.1 < responseSize := by
  have hrounds : (bodyRounds longBody).length = 3500 := by
    rw [bodyRounds, longBody, List.takeWhile_replicate, if_pos (by decide), List.length_replicate]
  intro h
  have hlt := (bodyWrites_from longBody 0 (by decide)).mp h
  rw [hrounds] at hlt
  exact absurd hlt (by decide)

/-! ### The buffer afterwards -/

/-- A write at index `k`. -/
theorem writeAll_cons {k : ℕ} (hk : k ≤ responseSize) (buffer : CharArray responseSize) (c : UInt8)
    (ws : List (ℤ × UInt8)) :
    writeAll buffer (((Int16.ofNat k).toInt, c) :: ws)
      = if k < responseSize then writeAll ⟨buffer.1.set k c, by rw [List.length_set, buffer.2]⟩ ws
        else .error .outOfBounds := by
  obtain ⟨hval, hin⟩ := inBuffer_ofNat hk
  rw [writeAll]
  by_cases hlt : k < responseSize
  · rw [if_pos (hin.mpr hlt), if_pos hlt]
    simp only [hval, Int.toNat_natCast]
  · rw [if_neg (fun h => hlt (hin.mp h)), if_neg hlt]

/-- The terminator, where the loop is left. -/
theorem writeAll_last {k : ℕ} (hk : k ≤ responseSize) (buffer : CharArray responseSize) :
    if k < responseSize then
      ∃ buffer', writeAll buffer [((Int16.ofNat k).toInt, 0)] = .ok buffer' ∧
        buffer'.1 = buffer.1.take k ++ 0 :: buffer.1.drop (k + 1)
    else writeAll buffer [((Int16.ofNat k).toInt, 0)] = .error .outOfBounds := by
  rw [writeAll_cons hk]
  split_ifs with hlt
  · refine ⟨⟨buffer.1.set k 0, by rw [List.length_set, buffer.2]⟩, rfl, ?_⟩
    show buffer.1.set k 0 = _
    rw [List.set_eq_take_append_cons_drop, if_pos (by rw [buffer.2]; exact hlt)]
  · rfl

/-- The writes from index `k` on, where the characters before it stand. -/
theorem writeAll_from (rounds : List BodyRound) :
    ∀ (k : ℕ) (buffer : CharArray responseSize), k ≤ responseSize →
      if k + (bodyChars rounds).length < responseSize then
        ∃ buffer', writeAll buffer (bodyWrites (Int16.ofNat k) rounds) = .ok buffer' ∧
          buffer'.1 = buffer.1.take k ++ bodyChars rounds ++
            0 :: buffer.1.drop (k + (bodyChars rounds).length + 1)
      else writeAll buffer (bodyWrites (Int16.ofNat k) rounds) = .error .outOfBounds := by
  induction rounds with
  | nil =>
      intro k buffer hk
      simpa [bodyChars, bodyRounds, bodyWrites] using writeAll_last hk buffer
  | cons r rounds ih =>
      intro k buffer hk
      rw [bodyWrites, bodyChars, bodyRounds_cons]
      by_cases hr : r.available = 0
      · simpa [hr] using writeAll_last hk buffer
      · have hnext : Int16.ofNat k + 1 = Int16.ofNat (k + 1) := (Int16.ofNat_add k 1).symm
        rw [if_neg hr, if_neg hr, hnext, List.map_cons, ← bodyChars, List.length_cons,
          writeAll_cons hk]
        by_cases hlt : k < responseSize
        · have hlen : k < buffer.1.length := by rw [buffer.2]; exact hlt
          have htake : (buffer.1.set k r.char).take (k + 1) = buffer.1.take k ++ [r.char] := by
            rw [List.set_eq_take_append_cons_drop, if_pos hlen, List.take_append,
              List.take_of_length_le (by rw [List.length_take]; omega), List.length_take,
              Nat.min_eq_left hlen.le]
            simp
          have hdrop : ∀ n, (buffer.1.set k r.char).drop (k + 1 + n + 1)
              = buffer.1.drop (k + (n + 1) + 1) := by
            intro n
            rw [List.drop_set_of_lt (by omega)]
            congr 1
            omega
          have hroom : k + 1 + (bodyChars rounds).length = k + ((bodyChars rounds).length + 1) := by
            omega
          have hrest := ih (k + 1) ⟨buffer.1.set k r.char, by rw [List.length_set, buffer.2]⟩ (by omega)
          simp only [htake, hdrop] at hrest
          rw [hroom] at hrest
          rw [if_pos hlt]
          simpa using hrest
        · rw [if_neg (by omega), if_neg hlt]

/-- **The loop's writes are `storeBody`.** -/
theorem storeBody_eq (buffer : CharArray responseSize) (rounds : List BodyRound) :
    storeBody buffer (bodyChars rounds) = writeAll buffer (bodyWrites 0 rounds) := by
  have h := writeAll_from rounds 0 buffer (by decide)
  rw [Nat.zero_add, show Int16.ofNat 0 = 0 from rfl] at h
  rw [storeBody]
  split_ifs at h ⊢ with hlt
  · obtain ⟨buffer', hwrite, hbuffer⟩ := h
    rw [hwrite]
    congr 1
    apply Subtype.ext
    rw [hbuffer]
    simp
  · rw [h]

/-! ### The body phase -/

/-- `checkForHttpResponse` from the end of the headers on, without a process callback. -/
def State.readResponseBody (s : State) (rounds : List BodyRound) : Except Fault State := do
  let buffer ← writeAll s.responseBuffer (bodyWrites 0 rounds)
  if bodyRounds rounds = [] then
    .ok ({ s with responseBuffer := buffer }.giveUp (ascii "No body content"))
  else
    .ok { s with
      responseBuffer := buffer
      client := []
      requestCompletionStatus := .success
      requestIsPending := false }

/-- What a connection gives the loop. -/
def clientRounds (client : List Arrival) : List BodyRound :=
  if _h : (Arrival.available client).1 = 0 then []
  else
    let r := Arrival.read (Arrival.available client).2
    ⟨(Arrival.available client).1, r.1.elim (-1) fun b => b.toNat⟩ :: clientRounds r.2
termination_by client.length
decreasing_by exact readNext_length _h

theorem ofInt_toNat (b : UInt8) : UInt8.ofInt b.toNat = b := by
  have hlt := b.toNat_lt
  have hmod : ((b.toNat : ℤ) % 2 ^ 8).toNat = b.toNat := by omega
  rw [UInt8.ofInt, hmod, UInt8.ofNat_toNat]

theorem readBody_eq (client : List Arrival) : (readBody client).1 = bodyChars (clientRounds client) := by
  fun_induction clientRounds client with
  | case1 client hav =>
      rw [readBody, dif_pos hav]
      rfl
  | case2 client hav r ih =>
      have hchar : r.1.getD 0xFF = UInt8.ofInt (r.1.elim (-1) fun b => b.toNat) := by
        cases r.1 with
        | none => rfl
        | some b => exact (ofInt_toNat b).symm
      rw [readBody, dif_neg hav, bodyChars, bodyRounds_cons, if_neg hav, List.map_cons, ← bodyChars, ← ih]
      show r.1.getD 0xFF :: (readBody r.2).1 = _
      rw [hchar]
      rfl

/-- **A poll whose headers end goes on with the body phase.** -/
theorem checkForHttpResponse_body {s : State} {poll : Poll} {id : ℕ} {headerData : ResponseHeaderData}
    {client : List Arrival} (hs : Awaiting s poll) (hcb : s.callbacks = some ⟨id, false⟩)
    (hav : (Arrival.available s.client).1 ≠ 0)
    (hread : readHeaders false poll.headerData (Arrival.available s.client).2
      = .ok (.ended true headerData client)) :
    s.checkForHttpResponse poll = s.readResponseBody (clientRounds client) := by
  have hnil : (readBody client).1 = [] ↔ bodyRounds (clientRounds client) = [] := by
    rw [readBody_eq, bodyChars, List.map_eq_nil_iff]
  rw [checkForHttpResponse_awaiting hs hcb, pollResponse, if_neg hav, hread, State.readResponseBody,
    ← storeBody_eq, ← readBody_eq]
  show ((storeBody s.responseBuffer (readBody client).1 >>= _) >>= _) = _
  cases storeBody s.responseBuffer (readBody client).1 with
  | error fault => rfl
  | ok buffer =>
      show ((if (readBody client).1 = [] then _ else _) >>= _) = if _ then _ else _
      by_cases hempty : (readBody client).1 = []
      · rw [if_pos hempty, if_pos (hnil.mp hempty)]
        rfl
      · rw [if_neg hempty, if_neg (fun h => hempty (hnil.mpr h))]
        rfl

/-! ### What is delivered -/

/-- The bytes `read()` returned in the loop: its results that are not negative. -/
def received (rounds : List BodyRound) : List UInt8 :=
  (bodyRounds rounds).filterMap fun r => if 0 ≤ r.read then some r.char else none

/-- A completed body is what was received, which is something, and its terminator; the string in the
buffer, which the success callback gets, is what was received up to a NUL the server sent itself.  If
nothing was received the request ends with an error. -/
structure DeliversReceived (s s' : State) (rounds : List BodyRound) : Prop where
  success : s'.requestCompletionStatus = .success →
    s'.responseBuffer.1.take ((bodyRounds rounds).length + 1) = received rounds ++ [0] ∧
      s'.responseBuffer.str = cstr (received rounds) ∧ received rounds ≠ []
  nothing : received rounds = [] → ReportedAs s s' (ascii "No body content")

/-- **What the body phase leaves.** -/
theorem readResponseBody_spec {s s' : State} {rounds : List BodyRound}
    (h : s.readResponseBody rounds = .ok s') :
    s'.responseBuffer.1.take ((bodyRounds rounds).length + 1) = bodyChars rounds ++ [0] ∧
      (bodyRounds rounds = [] → ReportedAs s s' (ascii "No body content")) ∧
      (bodyRounds rounds ≠ [] → s'.requestCompletionStatus = .success) := by
  rw [State.readResponseBody, ← storeBody_eq] at h
  obtain ⟨buffer, hstore, h⟩ := FallibleRun.bind_ok h
  have hbuffer : buffer.1.take ((bodyRounds rounds).length + 1) = bodyChars rounds ++ [0] := by
    rw [storeBody] at hstore
    split_ifs at hstore with hlt
    cases hstore
    rw [← bodyChars_length, List.take_length_add_append]
    rfl
  by_cases hnil : bodyRounds rounds = []
  · rw [if_pos hnil] at h
    cases h
    exact ⟨hbuffer, fun _ => ⟨rfl, rfl, rfl, rfl⟩, fun hne => absurd hnil hne⟩
  · rw [if_neg hnil] at h
    cases h
    exact ⟨hbuffer, fun h => absurd h hnil, fun _ => rfl⟩

/-- All reads of the loop succeeded exactly if nothing else was stored. -/
theorem bodyChars_eq_received_iff (rounds : List BodyRound) :
    bodyChars rounds = received rounds ↔ ∀ r ∈ bodyRounds rounds, 0 ≤ r.read := by
  constructor
  · intro h
    have hlen : (received rounds).length = (bodyRounds rounds).length := by
      rw [← h, bodyChars_length]
    intro r hr
    have hsome := List.filterMap_length_eq_length.mp hlen r hr
    by_contra hneg
    rw [if_neg hneg] at hsome
    cases hsome
  · intro h
    rw [bodyChars, received, ← List.filterMap_eq_map]
    apply List.filterMap_congr
    intro r hr
    rw [if_pos (h r hr)]
    rfl

/-- A terminated body determines the string in the buffer. -/
theorem str_of_take {buffer : CharArray responseSize} {body : List UInt8} {n : ℕ}
    (h : buffer.1.take n = body ++ [0]) : buffer.str = cstr body := by
  have hsplit := List.take_append_drop n buffer.1
  rw [h, List.append_assoc] at hsplit
  rw [CharArray.str, ← hsplit]
  exact cstr_append_nul body _

/-- **Only received bytes are delivered exactly if no read of the loop failed.**  Any state, any results
of `available()` and `read()` for which the body phase comes to an end. -/
theorem deliversReceived_iff {s s' : State} {rounds : List BodyRound}
    (h : s.readResponseBody rounds = .ok s') :
    DeliversReceived s s' rounds ↔ ∀ r ∈ bodyRounds rounds, 0 ≤ r.read := by
  obtain ⟨hbuffer, hnone, hsome⟩ := readResponseBody_spec h
  rw [← bodyChars_eq_received_iff]
  constructor
  · intro hd
    by_cases hnil : bodyRounds rounds = []
    · rw [bodyChars, received, hnil]
      rfl
    · have hcontents := (hd.success (hsome hnil)).1
      rw [hbuffer] at hcontents
      exact List.append_cancel_right hcontents
  · intro heq
    have hempty : received rounds = [] ↔ bodyRounds rounds = [] := by
      rw [← heq, bodyChars, List.map_eq_nil_iff]
    rw [heq] at hbuffer
    refine ⟨fun hstatus => ⟨hbuffer, str_of_take hbuffer, fun hr => ?_⟩, fun hr => hnone (hempty.mp hr)⟩
    have herror := (hnone (hempty.mp hr)).status
    rw [hstatus] at herror
    cases herror

/-- A body that fits is read to its end. -/
theorem readResponseBody_ok (s : State) {rounds : List BodyRound}
    (h : (bodyRounds rounds).length < responseSize) : ∃ s', s.readResponseBody rounds = .ok s' := by
  rw [State.readResponseBody, ← storeBody_eq, storeBody, dif_pos (by rw [bodyChars_length]; exact h)]
  by_cases hnil : bodyRounds rounds = []
  · exact ⟨_, if_pos hnil⟩
  · exact ⟨_, if_neg hnil⟩

/-- Two bytes that are there, then nothing more. -/
theorem deliversReceived_iff_hi :
    ∃ s', State.start.readResponseBody [⟨2, 72⟩, ⟨1, 105⟩, ⟨0, -1⟩] = .ok s' ∧
      DeliversReceived .start s' [⟨2, 72⟩, ⟨1, 105⟩, ⟨0, -1⟩] ∧
      received [⟨2, 72⟩, ⟨1, 105⟩, ⟨0, -1⟩] = ascii "Hi" := by
  obtain ⟨s', hs'⟩ := readResponseBody_ok .start
    (show (bodyRounds [⟨2, 72⟩, ⟨1, 105⟩, ⟨0, -1⟩]).length < responseSize by decide)
  exact ⟨s', hs', (deliversReceived_iff hs').mpr (by decide), by decide⟩

theorem clientRounds_cons {client : List Arrival} (h : (Arrival.available client).1 ≠ 0) :
    clientRounds client
      = ⟨(Arrival.available client).1,
          (Arrival.read (Arrival.available client).2).1.elim (-1) fun b => b.toNat⟩ ::
        clientRounds (Arrival.read (Arrival.available client).2).2 := by
  rw [clientRounds, dif_neg h]

theorem clientRounds_nil {client : List Arrival} (h : (Arrival.available client).1 = 0) :
    clientRounds client = [] := by
  rw [clientRounds, dif_pos h]

/-- An empty response whose server closes the connection behind it. -/
def closedResponse : List Arrival := emptyResponse.map .byte ++ [.closed 0]

/-- The failed read of the closed connection is delivered as a character. -/
theorem closedResponse_delivered :
    ∃ s s' rest, runCalls [opened false closedResponse] = .ok s ∧ s.FindsEnd (.at 1) rest ∧
      s.checkForHttpResponse (.at 1) = .ok s' ∧ s'.requestCompletionStatus = .success ∧
      received (clientRounds rest) = [LF] ∧ s'.responseBuffer.str = [LF, 0xFF] ∧
      ¬DeliversReceived s s' (clientRounds rest) := by
  obtain ⟨s, hs, hcb, hwait, hclient, -⟩ := runCalls_opened false closedResponse
  have hfound := findsEnd_second (.at 1) hclient rfl (by decide) ⟨by decide, by decide, by decide⟩
    (by decide) (by decide) ⟨by decide, by decide⟩
  have hrounds : clientRounds (nextChunk (nextChunk closedResponse).rest).rest = [⟨1, 10⟩, ⟨-1, -1⟩] := by
    rw [clientRounds_cons (by decide), clientRounds_cons (by decide), clientRounds_nil (by decide)]
    rfl
  obtain ⟨hav, headerData, hread⟩ := hfound
  have hcheck := checkForHttpResponse_body hwait hcb hav hread
  obtain ⟨s', hs'⟩ := readResponseBody_ok s
    (show (bodyRounds [⟨1, 10⟩, ⟨-1, -1⟩]).length < responseSize by decide)
  obtain ⟨hbuffer, -, hsuccess⟩ := readResponseBody_spec hs'
  have hreceived : received [⟨1, 10⟩, ⟨-1, -1⟩] = [LF] := by decide
  have hstatus := hsuccess (by decide)
  have hstored : s'.responseBuffer.str = [LF, 0xFF] := str_of_take hbuffer
  refine ⟨s, s', _, hs, ⟨hav, headerData, hread⟩, ?_, hstatus, ?_, hstored, ?_⟩
  · rw [hcheck, hrounds, hs']
  · rw [hrounds, hreceived]
  · rw [hrounds]
    intro hd
    have hstr : s'.responseBuffer.str = cstr [LF] := (hd.success hstatus).2.1
    rw [hstored] at hstr
    exact absurd hstr (by decide)

end EspFirmware
