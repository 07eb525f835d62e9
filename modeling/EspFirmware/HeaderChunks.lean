import EspFirmware.HeaderFields

/-!
# Where the headers end

The header loop reads the stream in chunks: up to the next CR, or 255 bytes, or what comes before the
stream times out.  It takes a chunk whose trimmed text is one character long for the blank line.

* `chunks` — the chunks the loop would read if no line stopped it;
* `headerFields_eq_some_iff` — the end of the headers is the first chunk of one character that is reached;
* `Overruns` — a chunk that is reached fills the line buffer without a NUL;
* `BlankLineEnds` — no such chunk is reached, and the one that ends the headers is the LF of an empty line;
* `endOfHeaders_iff` — exactly then what was consumed ends in CR LF CR.
-/

namespace EspFirmware

open CString

/-- One read of the header loop: the bytes, whether the CR was reached, and the connection after it. -/
structure Chunk where
  raw : List UInt8
  closed : Bool
  rest : List Arrival

/-- The chunk the next round reads. -/
def nextChunk (client : List Arrival) : Chunk :=
  ⟨(readLine client).1, reaches CR lineSize (Arrival.available client).2, (readLine client).2⟩

/-- The chunks of a connection, while `available()` is non-zero. -/
def chunks (client : List Arrival) : List Chunk :=
  if _h : (Arrival.available client).1 = 0 then [] else nextChunk client :: chunks (readLine client).2
termination_by client.length
decreasing_by exact readLine_length _h

theorem chunks_cons {client : List Arrival} (h : (Arrival.available client).1 ≠ 0) :
    chunks client = nextChunk client :: chunks (nextChunk client).rest := by
  rw [chunks, dif_neg h]
  rfl

namespace Chunk

/-- What the chunk takes from the stream. -/
def bytes (c : Chunk) : List UInt8 := c.raw ++ if c.closed then [CR] else []

/-- The text the tests see. -/
def text (c : Chunk) : List UInt8 := lineText c.raw

/-- Once a status was found the loop goes on after the chunk. -/
structure GoesOn (c : Chunk) : Prop where
  terminated : Terminated c.raw
  long : c.text.length ≠ 1
  field : (lineField c.text).isSome

/-- The chunk is taken for the blank line. -/
structure Ends (c : Chunk) : Prop where
  terminated : Terminated c.raw
  one : c.text.length = 1

end Chunk

/-- The loop goes through these chunks: the first of them has the status unless it was found before. -/
structure Passed (found : Bool) (before : List Chunk) : Prop where
  goesOn : ∀ b ∈ before, b.GoesOn
  status : found = true ∨ ∀ b ∈ before.head?, isStatusLine b.text = true

/-- The fields of chunks. -/
def chunkFields (before : List Chunk) : List Field := before.filterMap fun c => lineField c.text

/-! ### A chunk among the others -/

section Split

variable {α : Type} {a : α} {l : List α}

/-- A place in a list is its head or a place in its tail. -/
theorem exists_split_cons {p : List α → α → Prop} :
    (∃ before c after, a :: l = before ++ c :: after ∧ p before c) ↔
      p [] a ∨ ∃ before c after, l = before ++ c :: after ∧ p (a :: before) c := by
  constructor
  · rintro ⟨before, c, after, h, hp⟩
    rcases List.cons_eq_append_iff.mp h with ⟨rfl, hc⟩ | ⟨before', rfl, hl⟩
    · obtain ⟨rfl, rfl⟩ := List.cons.inj hc
      exact .inl hp
    · exact .inr ⟨before', c, after, hl, hp⟩
  · rintro (hp | ⟨before, c, after, rfl, hp⟩)
    · exact ⟨[], a, l, rfl, hp⟩
    · exact ⟨a :: before, c, after, rfl, hp⟩

theorem forall_split_cons {p : List α → α → Prop} :
    (∀ before c after, a :: l = before ++ c :: after → p before c) ↔
      p [] a ∧ ∀ before c after, l = before ++ c :: after → p (a :: before) c := by
  constructor
  · intro h
    exact ⟨h [] a l rfl, fun before c after hl => h (a :: before) c after (by rw [hl]; rfl)⟩
  · rintro ⟨h₁, h₂⟩ before c after h
    rcases List.cons_eq_append_iff.mp h with ⟨rfl, hc⟩ | ⟨before', rfl, hl⟩
    · obtain ⟨rfl, rfl⟩ := List.cons.inj hc
      exact h₁
    · exact h₂ before' c after hl

end Split

theorem passed_nil (found : Bool) : Passed found [] := ⟨by simp, .inr (by simp)⟩

theorem passed_cons {found : Bool} {c : Chunk} {before : List Chunk} :
    Passed found (c :: before) ↔
      c.GoesOn ∧ (found = true ∨ isStatusLine c.text = true) ∧ Passed true before := by
  constructor
  · intro h
    refine ⟨h.goesOn c (by simp), ?_, ⟨fun b hb => h.goesOn b (by simp [hb]), .inl rfl⟩⟩
    rcases h.status with hf | hs
    · exact .inl hf
    · exact .inr (hs c (by simp))
  · rintro ⟨hc, hs, hrest⟩
    refine ⟨?_, ?_⟩
    · intro b hb
      rcases List.mem_cons.mp hb with rfl | hb
      · exact hc
      · exact hrest.goesOn b hb
    · rcases hs with hf | hs
      · exact .inl hf
      · exact .inr (by simpa using hs)

theorem chunkFields_cons {c : Chunk} {f : Field} (h : lineField c.text = some f) (before : List Chunk) :
    chunkFields (c :: before) = f :: chunkFields before := by
  simp [chunkFields, h]

/-- **The headers end at the first chunk of one character that is reached.** -/
theorem headerFields_eq_some_iff {found : Bool} {client client' : List Arrival} {fields : List Field} :
    headerFields found client = some (fields, client') ↔
      ∃ before c after, chunks client = before ++ c :: after ∧
        (Passed found before ∧ c.Ends ∧ client' = c.rest ∧ fields = chunkFields before) := by
  fun_induction headerFields found client generalizing fields with
  | case1 found client hav =>
      rw [chunks, dif_pos hav]
      simp
  | case2 found client hav hterm =>
      rw [chunks_cons hav, exists_split_cons]
      simp only [passed_cons, reduceCtorEq, false_iff, not_or, not_exists, not_and]
      exact ⟨fun _ hends => absurd hends.terminated hterm,
        fun _ _ _ _ hp => absurd hp.1.terminated hterm⟩
  | case3 found client hav hterm hone =>
      have hends : (nextChunk client).Ends := ⟨not_not.mp hterm, hone⟩
      rw [chunks_cons hav, exists_split_cons]
      constructor
      · intro h
        cases h
        exact .inl ⟨passed_nil found, hends, rfl, rfl⟩
      · rintro (⟨-, -, rfl, rfl⟩ | ⟨before, c, after, -, hp, -⟩)
        · rfl
        · exact absurd hone (passed_cons.mp hp).1.long
  | case4 found client hav hterm hone hgo hf =>
      rw [chunks_cons hav, exists_split_cons]
      simp only [passed_cons, reduceCtorEq, false_iff, not_or, not_exists, not_and]
      refine ⟨fun _ hends => absurd hends.one hone, fun _ _ _ _ hp => ?_⟩
      have hsome : (lineField (lineText (readLine client).1)).isSome := hp.1.field
      rw [hf] at hsome
      cases hsome
  | case5 found client hav hterm hone hgo f hf ih =>
      have hgoes : (nextChunk client).GoesOn := by
        refine ⟨not_not.mp hterm, hone, ?_⟩
        show (lineField (lineText (readLine client).1)).isSome
        rw [hf]
        rfl
      have hfield : lineField (nextChunk client).text = some f := hf
      rw [chunks_cons hav, exists_split_cons]
      constructor
      · intro h
        obtain ⟨⟨fields', client''⟩, hrest, heq⟩ := Option.map_eq_some_iff.mp h
        cases heq
        obtain ⟨before, c, after, hsplit, hp, hends, hclient, hfields⟩ := ih.mp hrest
        refine .inr ⟨before, c, after, hsplit, passed_cons.mpr ⟨hgoes, hgo, hp⟩, hends, hclient, ?_⟩
        rw [hfields, chunkFields_cons hfield]
      · rintro (⟨-, hends, -, -⟩ | ⟨before, c, after, hsplit, hp, hends, hclient, hfields⟩)
        · exact absurd hends.one hone
        · have hrest := ih.mpr ⟨before, c, after, hsplit, (passed_cons.mp hp).2.2, hends, hclient, rfl⟩
          rw [hrest, hfields, chunkFields_cons hfield]
          rfl
  | case6 found client hav hterm hone hgo =>
      rw [chunks_cons hav, exists_split_cons]
      simp only [passed_cons, reduceCtorEq, false_iff, not_or, not_exists, not_and]
      exact ⟨fun _ hends => absurd hends.one hone, fun _ _ _ _ hp => absurd hp.2.1 hgo⟩

/-! ### A chunk that is no string -/

/-- The loop reaches a chunk that fills the line buffer without a NUL, so that the string functions read
past its end. -/
def Overruns (found : Bool) (client : List Arrival) : Prop :=
  ∃ before c after, chunks client = before ++ c :: after ∧ (Passed found before ∧ ¬Terminated c.raw)

theorem overruns_cons {found : Bool} {client : List Arrival} (h : (Arrival.available client).1 ≠ 0) :
    Overruns found client ↔ ¬Terminated (nextChunk client).raw ∨
      (nextChunk client).GoesOn ∧ (found = true ∨ isStatusLine (nextChunk client).text = true) ∧
        Overruns true (nextChunk client).rest := by
  rw [Overruns, chunks_cons h, exists_split_cons]
  refine or_congr ⟨And.right, fun hterm => ⟨passed_nil found, hterm⟩⟩ ?_
  simp only [passed_cons, Overruns]
  constructor
  · rintro ⟨before, c, after, hsplit, ⟨hgoes, hstatus, hpassed⟩, hterm⟩
    exact ⟨hgoes, hstatus, before, c, after, hsplit, hpassed, hterm⟩
  · rintro ⟨hgoes, hstatus, before, c, after, hsplit, hpassed, hterm⟩
    exact ⟨before, c, after, hsplit, ⟨hgoes, hstatus, hpassed⟩, hterm⟩

/-- A line that lets the loop go on is no other result. -/
theorem headerLine_of_goesOn {found : Bool} {client : List Arrival} (headerData : ResponseHeaderData)
    (h : (nextChunk client).GoesOn)
    (hstatus : found = true ∨ isStatusLine (nextChunk client).text = true) :
    ∃ headerData', headerLine found headerData (readLine client).1 = .ok (.next true headerData') := by
  obtain ⟨f, hf⟩ := Option.isSome_iff_exists.mp h.field
  exact ⟨_, (headerLine_next_iff (readLine_raw_length _)).mpr
    ⟨h.terminated, h.long, hstatus, rfl, f, hf, rfl⟩⟩

/-- **The header loop reads past the line buffer exactly at such a chunk.** -/
theorem readHeaders_outOfBounds_iff {found : Bool} {headerData : ResponseHeaderData}
    {client : List Arrival} :
    readHeaders found headerData client = .error .outOfBounds ↔ Overruns found client := by
  fun_induction readHeaders found headerData client with
  | case1 found headerData client hav =>
      rw [Overruns, chunks, dif_pos hav]
      simp
  | case2 found headerData client hav fault hline =>
      rw [overruns_cons hav, show (nextChunk client).raw = (readLine client).1 from rfl,
        ← headerLine_outOfBounds_iff found headerData (readLine_raw_length _), hline]
      refine ⟨fun h => .inl (by rw [Except.error.inj h]), fun h => ?_⟩
      rcases h with h | ⟨hgoes, hstatus, -⟩
      · rw [Except.error.inj h]
      · obtain ⟨_, hnext⟩ := headerLine_of_goesOn headerData hgoes hstatus
        rw [hline] at hnext
        cases hnext
  | case3 found headerData client hav hline =>
      obtain ⟨hterm, hone⟩ := (headerLine_end_iff (readLine_raw_length _)).mp hline
      rw [overruns_cons hav]
      simp only [reduceCtorEq, false_iff, not_or, not_and, not_not]
      exact ⟨hterm, fun hgoes => absurd hone hgoes.long⟩
  | case4 found headerData client hav msg hline =>
      have hterm : Terminated (readLine client).1 := by
        by_contra hterm
        rw [headerLine_fault found headerData (readLine_raw_length _) hterm] at hline
        cases hline
      rw [overruns_cons hav]
      simp only [reduceCtorEq, false_iff, not_or, not_and, not_not]
      refine ⟨hterm, fun hgoes hstatus => ?_⟩
      obtain ⟨_, hnext⟩ := headerLine_of_goesOn headerData hgoes hstatus
      rw [hline] at hnext
      cases hnext
  | case5 found headerData client hav found' headerData'' hline ih =>
      obtain ⟨hterm, hone, hgo, rfl, f, hf, -⟩ :=
        (headerLine_next_iff (readLine_raw_length _)).mp hline
      have hgoes : (nextChunk client).GoesOn := by
        refine ⟨hterm, hone, ?_⟩
        show (lineField (lineText (readLine client).1)).isSome
        rw [hf]
        rfl
      rw [ih, overruns_cons hav]
      exact ⟨fun h => .inr ⟨hgoes, hgo, h⟩, fun h => (h.resolve_left (not_not.mpr hterm)).2.2⟩

/-! ### What the chunks take from the stream -/

theorem nextChunk_bytes (client : List Arrival) :
    Arrival.bytesOf client = (nextChunk client).bytes ++ Arrival.bytesOf (nextChunk client).rest ∧
      CR ∉ (nextChunk client).raw := by
  obtain ⟨h, hcr⟩ := readBytesUntil_bytesOf CR lineSize (Arrival.available client).2
  rw [available_bytesOf] at h
  exact ⟨h, hcr⟩

theorem chunks_bytes {client : List Arrival} {before after : List Chunk} {c : Chunk}
    (h : chunks client = before ++ c :: after) :
    Arrival.bytesOf client
      = before.flatMap Chunk.bytes ++ c.bytes ++ Arrival.bytesOf c.rest ∧
        ∀ b ∈ before ++ [c], CR ∉ b.raw := by
  fun_induction chunks client generalizing before with
  | case1 client hav => simp at h
  | case2 client hav ih =>
      obtain ⟨hbytes, hcr⟩ := nextChunk_bytes client
      rcases List.cons_eq_append_iff.mp h with ⟨rfl, hc⟩ | ⟨before', rfl, hrest⟩
      · obtain ⟨rfl, -⟩ := List.cons.inj hc
        exact ⟨by simpa using hbytes, by simpa using hcr⟩
      · obtain ⟨hbytes', hcr'⟩ := ih hrest
        refine ⟨?_, ?_⟩
        · rw [hbytes, List.flatMap_cons]
          show _ ++ Arrival.bytesOf (readLine client).2 = _
          rw [hbytes']
          simp
        · intro b hb
          rcases List.mem_cons.mp hb with rfl | hb
          · exact hcr
          · exact hcr' b hb

/-! ### The blank line -/

/-- The stream begins with a 200 status line and its CRLF. -/
def StatusStart (bytes : List UInt8) : Prop :=
  ∃ d tail rest, isDigit d = true ∧ CR ∉ tail ∧ (tail = [] ∨ ∃ t, tail = space :: t) ∧
    bytes = ascii "HTTP/1." ++ d :: (ascii " 200" ++ tail) ++ CR :: LF :: rest

/-- Every chunk that is reached is a string, and the first one that is taken for the blank line is the LF
of an empty line: it follows a CR and is closed by one. -/
def BlankLineEnds (bytes : List UInt8) : Prop :=
  ∀ before c after, chunks (bytes.map .byte) = before ++ c :: after → (∀ b ∈ before, b.GoesOn) →
    Terminated c.raw ∧
      (c.Ends → [CR] <:+ before.flatMap Chunk.bytes ∧ c.raw = [LF] ∧ c.closed = true)

/-- A poll that sets `endOfHeadersFound`, with `rest` still to be read. -/
def State.FindsEnd (s : State) (poll : Poll) (rest : List Arrival) : Prop :=
  (Arrival.available s.client).1 ≠ 0 ∧ ∃ headerData,
    readHeaders false poll.headerData (Arrival.available s.client).2 = .ok (.ended true headerData rest)

/-- A poll that may set `endOfHeadersFound` there: it does, or it reads past the line buffer, after which
nothing is known of what it does. -/
def State.MayFindEnd (s : State) (poll : Poll) (rest : List Arrival) : Prop :=
  s.FindsEnd poll rest ∨ (Arrival.available s.client).1 ≠ 0 ∧
    readHeaders false poll.headerData (Arrival.available s.client).2 = .error .outOfBounds

/-- What was consumed ends in CR LF CR. -/
def EndsInBlankLine (bytes : List UInt8) (rest : List Arrival) : Prop :=
  ∃ consumed, bytes = consumed ++ Arrival.bytesOf rest ∧ [CR, LF, CR] <:+ consumed

/-- Wherever a request manager that waits may find the end of the headers in these bytes, it has come to
the blank line. -/
def EndsOnlyAtBlankLine (bytes : List UInt8) : Prop :=
  ∀ s poll rest, Awaiting s poll → s.client = bytes.map .byte → s.MayFindEnd poll rest →
    EndsInBlankLine bytes rest

/-- The first chunk of such a stream is a status line. -/
theorem StatusStart.first {bytes : List UInt8} (h : StatusStart bytes) :
    ∃ c cs, chunks (bytes.map .byte) = c :: cs ∧ isStatusLine c.text = true := by
  obtain ⟨d, tail, rest, -, -, -, rfl⟩ := h
  have hcr : CR ∉ ascii "HTTP/1." := by decide
  have hsplit : (ascii "HTTP/1." ++ d :: (ascii " 200" ++ tail) ++ CR :: LF :: rest).map Arrival.byte
      = (ascii "HTTP/1.").map .byte ++ (d :: (ascii " 200" ++ tail) ++ CR :: LF :: rest).map .byte := by
    simp
  have hread := (readBytesUntil_append hcr 248
    ((d :: (ascii " 200" ++ tail) ++ CR :: LF :: rest).map .byte)).1
  have hsize : (ascii "HTTP/1.").length + 248 = lineSize := by decide
  rw [hsize, ← hsplit] at hread
  rw [chunks]
  refine ⟨_, _, dif_neg ?_, ?_⟩
  · show ¬((Arrival.ready _ : ℤ) + 1 = 0)
    omega
  · have hraw : ascii "HTTP/1." <+: (nextChunk ((ascii "HTTP/1." ++ d :: (ascii " 200" ++ tail) ++
        CR :: LF :: rest).map .byte)).raw := by
      show _ <+: (Arrival.readBytesUntil CR lineSize _).1
      rw [show (Arrival.available ((ascii "HTTP/1." ++ d :: (ascii " 200" ++ tail) ++
        CR :: LF :: rest).map .byte)).2 = (ascii "HTTP/1." ++ d :: (ascii " 200" ++ tail) ++
          CR :: LF :: rest).map .byte from rfl, hread]
      exact List.prefix_append _ _
    obtain ⟨htext, -⟩ := lineText_of_start hraw
    rw [isStatusLine, startsWith, decide_eq_true_eq]
    show _ <+: cstr (lineText _)
    rwa [cstr_eq_self (lineText_not_mem_zero _)]

/-- Where two texts are the same, the last character of the one ends the other. -/
theorem eq_concat_of_append_eq {α : Type} {q p r : List α} {a : α} (h : q ++ [a] = p ++ r)
    (hr : r ≠ []) : ∃ r', r = r' ++ [a] ∧ q = p ++ r' := by
  obtain ⟨r', b, rfl⟩ := (List.eq_nil_or_concat r).resolve_left hr
  rw [List.concat_eq_append] at h ⊢
  rw [← List.append_assoc] at h
  obtain ⟨hq, hlast⟩ := List.append_inj' h rfl
  obtain rfl : a = b := by simpa using hlast
  exact ⟨r', rfl, hq⟩

/-- A chunk brings CR LF CR to an end exactly if it is an LF between two CRs. -/
theorem suffix_chunk_iff {c : Chunk} (hcr : CR ∉ c.raw) (hne : c.raw ≠ []) (p : List UInt8) :
    [CR, LF, CR] <:+ p ++ c.bytes ↔ [CR] <:+ p ∧ c.raw = [LF] ∧ c.closed = true := by
  constructor
  · rintro ⟨q, hq⟩
    rw [show q ++ [CR, LF, CR] = q ++ [CR] ++ [LF] ++ [CR] by simp, Chunk.bytes] at hq
    cases hclosed : c.closed with
    | false =>
        -- the last byte would be a CR of the chunk itself
        rw [hclosed, if_neg (by simp), List.append_nil] at hq
        obtain ⟨r, hr, -⟩ := eq_concat_of_append_eq hq hne
        exact absurd (by rw [hr]; simp) hcr
    | true =>
        rw [hclosed, if_pos rfl, ← List.append_assoc] at hq
        -- so the chunk ends in LF, and what stands before that ends in CR
        obtain ⟨r, hr, hbefore⟩ := eq_concat_of_append_eq (List.append_cancel_right hq) hne
        obtain rfl : r = [] := by
          by_contra hrne
          obtain ⟨r', hr', -⟩ := eq_concat_of_append_eq hbefore hrne
          exact hcr (by rw [hr, hr']; simp)
        rw [List.append_nil] at hbefore
        exact ⟨⟨q, hbefore⟩, hr, rfl⟩
  · rintro ⟨⟨q, rfl⟩, hraw, hclosed⟩
    refine ⟨q, ?_⟩
    rw [Chunk.bytes, hraw, hclosed]
    simp

theorem available_map_byte (bytes : List UInt8) :
    (Arrival.available (bytes.map .byte)).2 = bytes.map .byte := by
  cases bytes <;> rfl

/-- A chunk that is reached and taken for the blank line is where the poll finds the end. -/
theorem findsEnd_of_chunks {s : State} {client : List Arrival} {before after : List Chunk} {c : Chunk}
    (poll : Poll) (hclient : s.client = client) (hsame : (Arrival.available client).2 = client)
    (hsplit : chunks client = before ++ c :: after) (hpassed : Passed false before)
    (hends : c.Ends) : s.FindsEnd poll c.rest := by
  have hav : (Arrival.available client).1 ≠ 0 := by
    intro hav
    rw [chunks, dif_pos hav] at hsplit
    simp at hsplit
  rw [State.FindsEnd, hclient, hsame]
  exact ⟨hav, _, readHeaders_ended_iff.mpr ⟨chunkFields before,
    headerFields_eq_some_iff.mpr ⟨before, c, after, hsplit, hpassed, hends, rfl, rfl⟩, rfl⟩⟩

/-- The end is found at the second chunk when the first is a status line the loop goes on after. -/
theorem findsEnd_second {s : State} {client : List Arrival} (poll : Poll) (hclient : s.client = client)
    (hsame : (Arrival.available client).2 = client) (hav : (Arrival.available client).1 ≠ 0)
    (hgoes : (nextChunk client).GoesOn) (hstatus : isStatusLine (nextChunk client).text = true)
    (hav' : (Arrival.available (nextChunk client).rest).1 ≠ 0)
    (hends : (nextChunk (nextChunk client).rest).Ends) :
    s.FindsEnd poll (nextChunk (nextChunk client).rest).rest := by
  have hpassed : Passed false [nextChunk client] :=
    passed_cons.mpr ⟨hgoes, .inr hstatus, passed_nil true⟩
  have hsplit : chunks client = [nextChunk client] ++ nextChunk (nextChunk client).rest ::
      chunks (nextChunk (nextChunk client).rest).rest := by
    rw [chunks_cons hav, chunks_cons hav']
    rfl
  exact findsEnd_of_chunks poll hclient hsame hsplit hpassed hends

/-- The loop passes the chunks of such a stream it goes on after. -/
theorem StatusStart.passed {bytes : List UInt8} (h : StatusStart bytes) {before after : List Chunk}
    {c : Chunk} (hsplit : chunks (bytes.map .byte) = before ++ c :: after)
    (hbefore : ∀ b ∈ before, b.GoesOn) : Passed false before := by
  obtain ⟨first, others, hfirst, hstatus⟩ := h.first
  refine ⟨hbefore, .inr ?_⟩
  intro b hb
  cases before with
  | nil => simp at hb
  | cons b' before =>
      obtain ⟨rfl, -⟩ := List.cons.inj (hfirst.symm.trans hsplit)
      obtain rfl : first = b := by simpa using hb
      exact hstatus

/-- **The end of the headers is found exactly at the blank line, where no other chunk is taken for one
and none overruns the line buffer.**  Any request manager, any memory of `headerData`, any stream that
begins with a 200 status line and is there at once. -/
theorem endOfHeaders_iff (bytes : List UInt8) (h : StatusStart bytes) :
    EndsOnlyAtBlankLine bytes ↔ BlankLineEnds bytes := by
  constructor
  · intro hall before c after hsplit hbefore
    have hpassed := h.passed hsplit hbefore
    obtain ⟨s, -, -, hwait, hclient, -⟩ := runCalls_opened true (bytes.map .byte)
    refine ⟨?_, fun hends => ?_⟩
    · -- past the buffer the end may be found before anything was consumed
      by_contra hterm
      have hav : (Arrival.available (bytes.map .byte)).1 ≠ 0 := by
        intro hav
        rw [chunks, dif_pos hav] at hsplit
        simp at hsplit
      have hread : readHeaders false (Poll.at 1).headerData (Arrival.available (bytes.map .byte)).2
          = .error .outOfBounds := by
        rw [available_map_byte]
        exact readHeaders_outOfBounds_iff.mpr ⟨before, c, after, hsplit, hpassed, hterm⟩
      rw [← hclient] at hav hread
      obtain ⟨consumed, hbytes, hsuffix⟩ := hall s _ s.client hwait hclient (.inr ⟨hav, hread⟩)
      rw [hclient, Arrival.bytesOf_map_byte] at hbytes
      rw [List.self_eq_append_left.mp hbytes] at hsuffix
      exact absurd hsuffix (by decide)
    · obtain ⟨consumed, hbytes, hsuffix⟩ := hall s _ _ hwait hclient
        (.inl (findsEnd_of_chunks _ hclient (available_map_byte _) hsplit hpassed hends))
      obtain ⟨htaken, hcr⟩ := chunks_bytes hsplit
      rw [Arrival.bytesOf_map_byte, hbytes] at htaken
      rw [List.append_cancel_right htaken] at hsuffix
      have hne : c.raw ≠ [] := by
        intro hnil
        have hone := hends.one
        rw [Chunk.text, hnil] at hone
        exact absurd hone (by decide)
      exact (suffix_chunk_iff (hcr c (by simp)) hne _).mp hsuffix
  · intro hblank s poll rest _ hclient hends
    rcases hends with ⟨-, headerData, hread⟩ | ⟨-, hread⟩
    · rw [hclient, available_map_byte] at hread
      obtain ⟨fields, hfields, -⟩ := readHeaders_ended_iff.mp hread
      obtain ⟨before, c, after, hsplit, hpassed, hends, rfl, -⟩ := headerFields_eq_some_iff.mp hfields
      obtain ⟨hbefore, hraw, hclosed⟩ := (hblank before c after hsplit hpassed.goesOn).2 hends
      obtain ⟨htaken, hcr⟩ := chunks_bytes hsplit
      rw [Arrival.bytesOf_map_byte] at htaken
      refine ⟨before.flatMap Chunk.bytes ++ c.bytes, htaken, ?_⟩
      exact (suffix_chunk_iff (hcr c (by simp)) (by rw [hraw]; simp) _).mpr ⟨hbefore, hraw, hclosed⟩
    · rw [hclient, available_map_byte, readHeaders_outOfBounds_iff] at hread
      obtain ⟨before, c, after, hsplit, hpassed, hterm⟩ := hread
      exact absurd (hblank before c after hsplit hpassed.goesOn).1 hterm

/-- A response without fields and body. -/
def emptyResponse : List UInt8 := ascii "HTTP/1.1 200 OK\r\n\r\n"

/-- Its headers end at the blank line. -/
theorem endOfHeaders_iff_emptyResponse :
    StatusStart emptyResponse ∧ EndsOnlyAtBlankLine emptyResponse := by
  have hstart : StatusStart emptyResponse :=
    ⟨49, ascii " OK", [CR, LF], by decide, by decide, .inr ⟨ascii "OK", by decide⟩, by decide⟩
  refine ⟨hstart, (endOfHeaders_iff emptyResponse hstart).mpr ?_⟩
  rw [BlankLineEnds, chunks_cons (by decide), forall_split_cons, chunks_cons (by decide),
    forall_split_cons]
  refine ⟨fun _ => ⟨by decide, fun hends => absurd hends.one (by decide)⟩,
    fun _ => ⟨by decide, fun _ => ⟨by decide, by decide, by decide⟩⟩, ?_⟩
  -- past the blank line no chunk is reached
  intro before c after _ hbefore
  exact absurd rfl (hbefore _ (List.mem_cons_of_mem _ List.mem_cons_self)).long

/-- A response with a line of one space among its headers. -/
def spacedResponse : List UInt8 := ascii "HTTP/1.1 200 OK\r\n \r\nServer: x\r\n\r\n"

/-- The headers are taken to end at the line of one space. -/
theorem spacedResponse_endsEarly :
    StatusStart spacedResponse ∧ ∃ s rest, Awaiting s (.at 1) ∧ s.client = spacedResponse.map .byte ∧
      s.FindsEnd (.at 1) rest ∧ Arrival.bytesOf rest = ascii "\nServer: x\r\n\r\n" ∧
      ¬EndsInBlankLine spacedResponse rest := by
  refine ⟨⟨49, ascii " OK", ascii " \r\nServer: x\r\n\r\n", by decide, by decide,
    .inr ⟨ascii "OK", by decide⟩, by decide⟩, ?_⟩
  obtain ⟨s, -, -, hwait, hclient, -⟩ := runCalls_opened true (spacedResponse.map .byte)
  have hfinds := findsEnd_second (.at 1) hclient rfl (by decide) ⟨by decide, by decide, by decide⟩
    (by decide) (by decide) ⟨by decide, by decide⟩
  have hrest : Arrival.bytesOf (nextChunk (nextChunk (spacedResponse.map .byte)).rest).rest
      = ascii "\nServer: x\r\n\r\n" := by decide
  refine ⟨s, _, hwait, hclient, hfinds, hrest, ?_⟩
  rintro ⟨consumed, hbytes, hsuffix⟩
  have hsplit : spacedResponse = ascii "HTTP/1.1 200 OK\r\n \r" ++ ascii "\nServer: x\r\n\r\n" := by
    decide
  rw [hrest, hsplit] at hbytes
  rw [← List.append_cancel_right hbytes] at hsuffix
  exact absurd hsuffix (by decide)

end EspFirmware
