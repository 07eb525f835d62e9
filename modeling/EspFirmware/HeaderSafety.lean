import EspFirmware.FieldValues
import EspFirmware.HeaderChunks

/-!
# The buffers of the header loop

What `checkForHttpResponse` does to its buffers while it reads a header, as a list of accesses: the line
buffer of each round, each second token that is copied, the status code at each `strcmp`, and the
`headerData` that is passed to the process callback.  `headerData` is not initialised, so an access is
safe only if it is so whatever the memory held.

* `headerAccesses`, `State.accesses` — the accesses of a header and of a poll;
* `readHeaders_of_safe` — a header whose accesses are safe is read without a fault;
* `SafeAt` — what a chunk that is reached has to fulfil;
* `accesses_safe_iff` — the accesses of a poll are safe exactly if each chunk that is reached does.
-/

namespace EspFirmware

open CString

/-- What the header loop does to its buffers. -/
inductive Access where
  /-- `strtrim`, `strncmp`, `strstr` and `strtok` on `line` -/
  | line (raw : List UInt8)
  /-- the result of `strtok (NULL, " ")`, copied by `strncpy` -/
  | token (result : Option (List UInt8))
  /-- `strcmp` on `headerData.statusCode` -/
  | compared (statusCode : CharArray 10)
  /-- `httpProcessCallback(headerData)` -/
  | handed (headerData : ResponseHeaderData)

/-- The access stays in its buffer and uses no missing token: `strtrim` does not leave the array and
leaves a terminated string there, and the members hold terminated strings. -/
def Access.Safe : Access → Prop
  | .line raw => ∃ line, strtrim (lineArray raw) = some line ∧ line.length = lineSize ∧ (0 : UInt8) ∈ line
  | .token result => result.isSome
  | .compared statusCode => (0 : UInt8) ∈ statusCode.1
  | .handed headerData =>
      (0 : UInt8) ∈ headerData.statusCode.1 ∧ (0 : UInt8) ∈ headerData.contentType.1 ∧
        (0 : UInt8) ∈ headerData.md5Check.1

/-- The accesses of the tests on the trimmed string `line`. -/
def testAccesses (statusCodeFound : Bool) (headerData : ResponseHeaderData) (line : List UInt8) :
    List Access :=
  if isStatusLine line then
    match secondToken space line with
    | none => [.token none]
    | some token =>
        [.token (some token), .compared (headerData.copyStatusCode token).statusCode]
  else if ¬statusCodeFound then []
  else if strstr line (ascii "Content-Length: ") then []
  else if strstr line (ascii "Content-Type: ") ∨ strstr line (ascii "x-MD5: ") then
    [.token (secondToken space line)]
  else []

/-- The accesses of one round. -/
def lineAccesses (statusCodeFound : Bool) (headerData : ResponseHeaderData) (raw : List UInt8) :
    List Access :=
  .line raw ::
    if Terminated raw ∧ (lineText raw).length ≠ 1 then
      testAccesses statusCodeFound headerData (lineText raw)
    else []

/-- The accesses of the header loop and of the call of the process callback, if there is one. -/
def headerAccesses (process statusCodeFound : Bool) (headerData : ResponseHeaderData)
    (client : List Arrival) : List Access :=
  if _h : (Arrival.available client).1 = 0 then []
  else
    lineAccesses statusCodeFound headerData (readLine client).1 ++
      match headerLine statusCodeFound headerData (readLine client).1 with
      | .ok .endOfHeaders => if process then [.handed headerData] else []
      | .ok (.next found headerData') => headerAccesses process found headerData' (readLine client).2
      | _ => []
termination_by client.length
decreasing_by exact readLine_length _h

/-- The accesses of a poll of a request that waits for its response. -/
def State.accesses (s : State) (poll : Poll) : List Access :=
  match s.callbacks with
  | none => []
  | some cb =>
      if (Arrival.available s.client).1 = 0 then []
      else headerAccesses cb.process false poll.headerData (Arrival.available s.client).2

/-! ### One round -/

theorem line_safe_iff {raw : List UInt8} (hlen : raw.length ≤ lineSize) :
    (Access.line raw).Safe ↔ Terminated raw := by
  by_cases hterm : Terminated raw
  · obtain ⟨line, htrim, -, hl, hz⟩ := strtrim_spec hterm.mem_lineArray
    exact ⟨fun _ => hterm, fun _ => ⟨line, htrim, hl.trans (lineArray_length hlen), hz⟩⟩
  · refine ⟨?_, fun h => absurd h hterm⟩
    rintro ⟨line, htrim, -, -⟩
    rw [strtrim_lineArray_eq_none hlen hterm] at htrim
    cases htrim

/-- What a chunk has to fulfil for the tests on it: it is terminated, a status line has a second token
that leaves room for its NUL, and a content type and a checksum have a second token. -/
structure LineSafe (found : Bool) (raw : List UInt8) : Prop where
  terminated : Terminated raw
  status : isStatusLine (lineText raw) = true →
    ∃ token, secondToken space (lineText raw) = some token ∧ token.length < 10
  token : isStatusLine (lineText raw) = false → found = true →
    strstr (lineText raw) (ascii "Content-Length: ") = false →
    (strstr (lineText raw) (ascii "Content-Type: ") = true ∨
      strstr (lineText raw) (ascii "x-MD5: ") = true) →
    (secondToken space (lineText raw)).isSome

theorem compared_safe_iff {token : List UInt8} (hz : (0 : UInt8) ∉ token) (m : ResponseHeaderData) :
    (Access.compared (m.copyStatusCode token).statusCode).Safe ↔ token.length < 10 := by
  show (0 : UInt8) ∈ (m.statusCode.strncpy token 10 le_rfl).1 ↔ token.length < 10
  rw [nul_iff, CharArray.str_strncpy, cstr_eq_self hz, List.length_take]
  omega

theorem testAccesses_safe_iff {found : Bool} {headerData : ResponseHeaderData} {raw : List UInt8}
    (hterm : Terminated raw) :
    (∀ a ∈ testAccesses found headerData (lineText raw), a.Safe) ↔ LineSafe found raw := by
  rw [testAccesses]
  by_cases hs : isStatusLine (lineText raw) = true
  · rw [if_pos hs]
    cases htok : secondToken space (lineText raw) with
    | none =>
        simp only [List.mem_singleton, forall_eq, Access.Safe, Option.isSome_none, Bool.false_eq_true,
          false_iff]
        intro h
        obtain ⟨token, htok', -⟩ := h.status hs
        rw [htok] at htok'
        cases htok'
    | some token =>
        have hz : (0 : UInt8) ∉ token := fun hm =>
          lineText_not_mem_zero _ (mem_of_mem_secondToken htok hm)
        have hcmp := compared_safe_iff hz headerData
        simp only [List.mem_cons, List.not_mem_nil, or_false, forall_eq_or_imp, forall_eq, hcmp]
        constructor
        · intro h
          exact ⟨hterm, fun _ => ⟨token, htok, h.2⟩, fun hn => absurd hs (by simp [hn])⟩
        · intro h
          obtain ⟨token', htok', hlt⟩ := h.status hs
          obtain rfl : token = token' := Option.some.inj (htok.symm.trans htok')
          exact ⟨rfl, hlt⟩
  · rw [if_neg hs]
    have hstatus : isStatusLine (lineText raw) = false := by simpa using hs
    have hnone : LineSafe found raw ↔ (found = true →
        strstr (lineText raw) (ascii "Content-Length: ") = false →
        (strstr (lineText raw) (ascii "Content-Type: ") = true ∨
          strstr (lineText raw) (ascii "x-MD5: ") = true) →
        (secondToken space (lineText raw)).isSome) :=
      ⟨fun h => h.token hstatus, fun h => ⟨hterm, fun hs' => absurd hs' hs, fun _ => h⟩⟩
    rw [hnone]
    split_ifs with hfound hlength htext
    · simp [hlength]
    · have hl : strstr (lineText raw) (ascii "Content-Length: ") = false := by simpa using hlength
      simp only [List.mem_singleton, forall_eq, Access.Safe]
      exact ⟨fun h _ _ _ => h, fun h => h hfound hl htext⟩
    · simp [htext]
    · simp [hfound]

/-- The accesses of one round are safe exactly for such a chunk. -/
theorem lineAccesses_safe_iff {found : Bool} {headerData : ResponseHeaderData} {raw : List UInt8}
    (hlen : raw.length ≤ lineSize) :
    (∀ a ∈ lineAccesses found headerData raw, a.Safe) ↔ LineSafe found raw := by
  rw [lineAccesses, List.forall_mem_cons, line_safe_iff hlen]
  by_cases hterm : Terminated raw
  · by_cases hone : (lineText raw).length = 1
    · -- too short for any of the texts
      have hsafe : LineSafe found raw := by
        refine ⟨hterm, fun hs => ?_, fun _ _ _ htext => ?_⟩
        · have := length_of_startsWith hs
          rw [hone] at this
          exact absurd this (by decide)
        · rcases htext with htext | htext
          · have := length_of_strstr htext
            rw [hone] at this
            exact absurd this (by decide)
          · have := length_of_strstr htext
            rw [hone] at this
            exact absurd this (by decide)
      simp [hterm, hone, hsafe]
    · rw [if_pos ⟨hterm, hone⟩, testAccesses_safe_iff hterm]
      exact ⟨fun h => h.2, fun h => ⟨hterm, h⟩⟩
  · exact ⟨fun h => absurd h.1 hterm, fun h => absurd h.terminated hterm⟩

/-! ### The header that is handed over -/

/-- The fields a header needs for its three strings to be terminated. -/
structure ValuesSafe (fields : List Field) : Prop where
  status : fields ≠ []
  type : ∃ t, typeOf fields = some t ∧ t.length < 50
  md5 : ∃ t, md5Of fields = some t ∧ t.length < 50

/-- The memory of a member shows through exactly if no field overwrites it. -/
theorem forall_getD_iff {α : Type} {o : Option α} {f : ResponseHeaderData → α} {p : α → Prop}
    (hbad : ¬p (f filledMemory)) : (∀ m, p (o.getD (f m))) ↔ ∃ t, o = some t ∧ p t := by
  cases o with
  | none => simpa using ⟨filledMemory, hbad⟩
  | some t =>
      constructor
      · intro h
        exact ⟨t, rfl, h filledMemory⟩
      · rintro ⟨t', ht, hp⟩ m
        cases ht
        exact hp

theorem handed_safe_iff {fields : List Field}
    (hstatus : fields ≠ [] → ∀ m, (0 : UInt8) ∈ (fields.foldl Field.store m).statusCode.1) :
    (∀ m, (Access.handed (fields.foldl Field.store m)).Safe) ↔ ValuesSafe fields := by
  have htype : (∀ m, (0 : UInt8) ∈ (fields.foldl Field.store m).contentType.1) ↔
      ∃ t, typeOf fields = some t ∧ t.length < 50 := by
    simp only [nul_iff, foldl_store_contentType]
    exact forall_getD_iff (f := fun m => m.contentType.str) (p := fun t => t.length < 50) (by decide)
  have hmd5 : (∀ m, (0 : UInt8) ∈ (fields.foldl Field.store m).md5Check.1) ↔
      ∃ t, md5Of fields = some t ∧ t.length < 50 := by
    simp only [nul_iff, foldl_store_md5Check]
    exact forall_getD_iff (f := fun m => m.md5Check.str) (p := fun t => t.length < 50) (by decide)
  constructor
  · intro h
    refine ⟨?_, htype.mp fun m => (h m).2.1, hmd5.mp fun m => (h m).2.2⟩
    rintro rfl
    exact absurd (h filledMemory).1 (by decide)
  · intro h m
    exact ⟨hstatus h.status m, htype.mpr h.type m, hmd5.mpr h.md5 m⟩

/-- A field that goes through keeps the status code terminated. -/
theorem nul_statusCode_store {line : List UInt8} {f : Field} (h : lineField line = some f)
    {m : ResponseHeaderData} (hm : isStatusLine line = true ∨ (0 : UInt8) ∈ m.statusCode.1) :
    (0 : UInt8) ∈ (f.store m).statusCode.1 := by
  have hcode : (0 : UInt8) ∈ ((Field.status (ascii "200")).store m).statusCode.1 := by
    show (0 : UInt8) ∈ (m.statusCode.strncpy (ascii "200") 10 le_rfl).1
    rw [nul_iff, CharArray.str_strncpy]
    decide
  rw [lineField] at h
  split_ifs at h with hs hok hl ht hx
  · cases h
    exact hcode
  all_goals have hmem := hm.resolve_left hs
  · cases h
    exact hmem
  · obtain ⟨token, -, rfl⟩ := Option.map_eq_some_iff.mp h
    exact hmem
  · obtain ⟨token, -, rfl⟩ := Option.map_eq_some_iff.mp h
    exact hmem
  · cases h
    exact hmem

/-! ### The loop -/

/-- What a chunk that is reached after the chunks `before` has to fulfil. -/
structure SafeAt (process : Bool) (before : List Chunk) (c : Chunk) : Prop where
  line : LineSafe (!before.isEmpty) c.raw
  values : c.text.length = 1 → process = true → ValuesSafe (chunkFields before)

section Loop

variable (process : Bool)

/-- The accesses after the first line. -/
theorem headerAccesses_eq {found : Bool} {client : List Arrival}
    (hav : (Arrival.available client).1 ≠ 0) (m : ResponseHeaderData) :
    headerAccesses process found m client
      = lineAccesses found m (nextChunk client).raw ++
        match headerLine found m (nextChunk client).raw with
        | .ok .endOfHeaders => if process then [.handed m] else []
        | .ok (.next found headerData') =>
            headerAccesses process found headerData' (nextChunk client).rest
        | _ => [] := by
  rw [headerAccesses, dif_neg hav]
  rfl

/-- One round of the loop: a line, then the callback, the next round or nothing. -/
theorem headerAccesses_safe_cons {found : Bool} {client : List Arrival}
    (hav : (Arrival.available client).1 ≠ 0) (m : ResponseHeaderData) :
    (∀ a ∈ headerAccesses process found m client, a.Safe) ↔
      LineSafe found (nextChunk client).raw ∧
      ((nextChunk client).Ends → process = true → (Access.handed m).Safe) ∧
      ((nextChunk client).GoesOn → found = true ∨ isStatusLine (nextChunk client).text = true →
        ∀ f, lineField (nextChunk client).text = some f →
          ∀ a ∈ headerAccesses process true (f.store m) (nextChunk client).rest, a.Safe) := by
  have hlen : (nextChunk client).raw.length ≤ lineSize := readLine_raw_length client
  rw [headerAccesses_eq process hav, List.forall_mem_append, lineAccesses_safe_iff hlen]
  apply and_congr_right
  intro _
  by_cases hends : (nextChunk client).Ends
  · have hngo : ¬(nextChunk client).GoesOn := fun h => h.long hends.one
    rw [(headerLine_end_iff hlen).mpr ⟨hends.terminated, hends.one⟩]
    cases process <;> simp [hends, hngo]
  · by_cases hgo : (nextChunk client).GoesOn ∧
        (found = true ∨ isStatusLine (nextChunk client).text = true)
    · obtain ⟨f, hf⟩ := Option.isSome_iff_exists.mp hgo.1.field
      rw [(headerLine_next_iff hlen).mpr
        ⟨hgo.1.terminated, hgo.1.long, hgo.2, rfl, f, hf, rfl⟩]
      simp [hends, hgo.1, hgo.2, hf]
    · -- the line stops the loop
      have hnone : ∀ a ∈ (match headerLine found m (nextChunk client).raw with
          | .ok .endOfHeaders => if process then [Access.handed m] else []
          | .ok (.next found headerData') =>
              headerAccesses process found headerData' (nextChunk client).rest
          | _ => []), a.Safe := by
        split
        · rename_i hline
          obtain ⟨hterm, hone⟩ := (headerLine_end_iff hlen).mp hline
          exact absurd ⟨hterm, hone⟩ hends
        · rename_i hline
          obtain ⟨hterm, hone, hstatus, -, f, hf, -⟩ := (headerLine_next_iff hlen).mp hline
          exact absurd ⟨⟨hterm, hone, by rw [Chunk.text, hf]; rfl⟩, hstatus⟩ hgo
        · simp
      refine ⟨fun _ => ⟨fun h => absurd h hends, fun h hs => absurd ⟨h, hs⟩ hgo⟩, fun _ => hnone⟩

/-- **The accesses of the loop are safe exactly if every chunk that is reached is**, for every memory the
loop may have started with.  The loop has come so far with `fields`. -/
theorem headerAccesses_safe_iff (found : Bool) (fields : List Field) (client : List Arrival)
    (hfound : found = true ↔ fields ≠ [])
    (hstatus : fields ≠ [] → ∀ m, (0 : UInt8) ∈ (fields.foldl Field.store m).statusCode.1) :
    (∀ m, ∀ a ∈ headerAccesses process found (fields.foldl Field.store m) client, a.Safe) ↔
      ∀ before c after, chunks client = before ++ c :: after → (Passed found before →
        LineSafe (found || !before.isEmpty) c.raw ∧
          (c.text.length = 1 → process = true → ValuesSafe (fields ++ chunkFields before))) := by
  fun_induction chunks client generalizing found fields with
  | case1 client hav =>
      have hnil : ∀ m, headerAccesses process found m client = [] := fun m => by
        rw [headerAccesses, dif_pos hav]
      simp [hnil]
  | case2 client hav ih =>
      -- what the rest of the loop needs, once the first chunk has gone through with the field `f`
      have hrest : ∀ f, lineField (nextChunk client).text = some f →
          found = true ∨ isStatusLine (nextChunk client).text = true →
          ((∀ m, ∀ a ∈ headerAccesses process true (f.store (fields.foldl Field.store m))
              (nextChunk client).rest, a.Safe) ↔
            ∀ before c after, chunks (nextChunk client).rest = before ++ c :: after →
              (Passed true before → LineSafe true c.raw ∧ (c.text.length = 1 → process = true →
                ValuesSafe (fields ++ chunkFields (nextChunk client :: before))))) := by
        intro f hf hs
        have hstatus' : fields ++ [f] ≠ [] →
            ∀ m, (0 : UInt8) ∈ ((fields ++ [f]).foldl Field.store m).statusCode.1 := by
          intro _ m
          rw [List.foldl_append]
          exact nul_statusCode_store hf (hs.symm.imp_right fun hf => hstatus (hfound.mp hf) m)
        have hfound' : true = true ↔ fields ++ [f] ≠ [] := by simp
        have hih := ih true (fields ++ [f]) hfound' hstatus'
        simp only [List.foldl_append, List.foldl_cons, List.foldl_nil, Bool.true_or, List.append_assoc,
          List.singleton_append, ← chunkFields_cons hf] at hih
        exact hih
      rw [forall_split_cons]
      simp only [headerAccesses_safe_cons process hav]
      constructor
      · intro h
        refine ⟨fun _ => ⟨?_, fun hone hp => ?_⟩, ?_⟩
        · simpa using (h filledMemory).1
        · have hends : (nextChunk client).Ends := ⟨(h filledMemory).1.terminated, hone⟩
          rw [chunkFields, List.filterMap_nil, List.append_nil]
          exact (handed_safe_iff hstatus).mp fun m => (h m).2.1 hends hp
        · intro before c after hsplit hp
          obtain ⟨hgo, hs, hp'⟩ := passed_cons.mp hp
          obtain ⟨f, hf⟩ := Option.isSome_iff_exists.mp hgo.field
          have := (hrest f hf hs).mp (fun m => (h m).2.2 hgo hs f hf) before c after hsplit hp'
          simpa using this
      · rintro ⟨hfirst, hothers⟩ m
        obtain ⟨hline, hvalues⟩ := hfirst (passed_nil found)
        rw [chunkFields, List.filterMap_nil, List.append_nil] at hvalues
        refine ⟨by simpa using hline, ?_, ?_⟩
        · intro hends hp
          exact (handed_safe_iff hstatus).mpr (hvalues hends.one hp) m
        · intro hgo hs f hf
          refine (hrest f hf hs).mpr ?_ m
          intro before c after hsplit hp
          have := hothers before c after hsplit (passed_cons.mpr ⟨hgo, hs, hp⟩)
          simpa using this

/-- A safe line is judged. -/
theorem LineSafe.headerLine_ok {found : Bool} {raw : List UInt8} (h : LineSafe found raw)
    (hlen : raw.length ≤ lineSize) (m : ResponseHeaderData) :
    ∃ r, headerLine found m raw = .ok r := by
  rw [headerLine_eq found m hlen h.terminated]
  split_ifs with hone
  · exact ⟨_, rfl⟩
  · rw [headerTests]
    split_ifs with hs hfound hlength htype hmd5
    · obtain ⟨token, htok, -⟩ := h.status hs
      rw [htok]
      simp only
      split_ifs <;> exact ⟨_, rfl⟩
    · exact ⟨_, rfl⟩
    · obtain ⟨token, htok⟩ := Option.isSome_iff_exists.mp
        (h.token (by simpa [isStatusLine] using hs) hfound (by simpa using hlength) (.inl htype))
      rw [htok]
      exact ⟨_, rfl⟩
    · obtain ⟨token, htok⟩ := Option.isSome_iff_exists.mp
        (h.token (by simpa [isStatusLine] using hs) hfound (by simpa using hlength) (.inr hmd5))
      rw [htok]
      exact ⟨_, rfl⟩
    · exact ⟨_, rfl⟩
    · exact ⟨_, rfl⟩

/-- A header whose accesses are safe is read without a fault. -/
theorem readHeaders_of_safe {found : Bool} {m : ResponseHeaderData} {client : List Arrival}
    (h : ∀ a ∈ headerAccesses process found m client, a.Safe) :
    ∃ r, readHeaders found m client = .ok r := by
  fun_induction readHeaders found m client with
  | case1 found m client hav => exact ⟨_, rfl⟩
  | case2 found m client hav fault hline =>
      obtain ⟨hsafe, -, -⟩ := (headerAccesses_safe_cons process hav m).mp h
      obtain ⟨r, hr⟩ := hsafe.headerLine_ok (readLine_raw_length client) m
      cases hline.symm.trans hr
  | case3 found m client hav hline => exact ⟨_, rfl⟩
  | case4 found m client hav msg hline => exact ⟨_, rfl⟩
  | case5 found m client hav found' m' hline ih =>
      obtain ⟨hterm, hone, hs, rfl, f, hf, rfl⟩ :=
        (headerLine_next_iff (readLine_raw_length client)).mp hline
      have hgo : (nextChunk client).GoesOn := ⟨hterm, hone, by rw [Chunk.text, nextChunk, hf]; rfl⟩
      exact ih (((headerAccesses_safe_cons process hav m).mp h).2.2 hgo hs f hf)

end Loop

/-! ### The poll -/

/-- Every chunk that is reached fulfils what it has to. -/
def SafeHeader (process : Bool) (client : List Arrival) : Prop :=
  (Arrival.available client).1 ≠ 0 →
    ∀ before c after, chunks (Arrival.available client).2 = before ++ c :: after →
      (Passed false before → SafeAt process before c)

theorem headerAccesses_safeHeader {process : Bool} {client : List Arrival} :
    (∀ m, ∀ a ∈ headerAccesses process false m client, a.Safe) ↔
      ∀ before c after, chunks client = before ++ c :: after →
        (Passed false before → SafeAt process before c) := by
  have h := headerAccesses_safe_iff process false [] client (by simp) (by simp)
  simp only [List.foldl_nil, Bool.false_or, List.nil_append] at h
  rw [h]
  constructor
  · intro h' before c after hsplit hp
    exact ⟨(h' before c after hsplit hp).1, (h' before c after hsplit hp).2⟩
  · intro h' before c after hsplit hp
    exact ⟨(h' before c after hsplit hp).line, (h' before c after hsplit hp).values⟩

/-- **The buffers of the header loop are safe exactly for a safe header.**  Any request that waits for
its response, any stream of its server, any memory of `headerData`. -/
theorem accesses_safe_iff (process : Bool) (client : List Arrival) :
    (∀ s poll id, Awaiting s poll → s.callbacks = some ⟨id, process⟩ → s.client = client →
      ∀ a ∈ s.accesses poll, a.Safe) ↔ SafeHeader process client := by
  rw [SafeHeader, ← headerAccesses_safeHeader]
  constructor
  · intro hall hav m
    obtain ⟨s, -, hcb, hwait, hclient, -⟩ := runCalls_opened process client
    have hacc := hall s { Poll.at 1 with headerData := m } 0
      ⟨hwait.pending, hwait.sent, hwait.inTime, hwait.wifi, hwait.connected⟩ hcb hclient
    rw [State.accesses, hcb, hclient] at hacc
    simp only [if_neg hav] at hacc
    exact hacc
  · intro h s poll id _ hcb hclient
    rw [State.accesses, hcb, hclient]
    by_cases hav : (Arrival.available client).1 = 0
    · simp [hav]
    · simp only [if_neg hav]
      exact h hav poll.headerData

/-- A status line without a code. -/
def noCode : List Arrival := (ascii "HTTP/1.1\r\n\r\n").map .byte

/-- The missing second token is copied. -/
theorem noCode_unsafe :
    ∃ s, runCalls [opened true noCode] = .ok s ∧ Awaiting s (.at 1) ∧
      .token none ∈ s.accesses (.at 1) ∧ ¬∀ a ∈ s.accesses (.at 1), a.Safe := by
  obtain ⟨s, hs, hcb, hwait, hclient, -⟩ := runCalls_opened true noCode
  have hav : (Arrival.available noCode).1 ≠ 0 := by decide
  have htext : Terminated (nextChunk noCode).raw ∧ (lineText (nextChunk noCode).raw).length ≠ 1 := by
    decide
  have hstatus : isStatusLine (lineText (nextChunk noCode).raw) = true := by decide
  have htoken : secondToken space (lineText (nextChunk noCode).raw) = none := by decide
  have hmem : .token none ∈ s.accesses (.at 1) := by
    rw [State.accesses, hcb, hclient]
    simp only [if_neg hav]
    rw [show (Arrival.available noCode).2 = noCode from rfl, headerAccesses_eq true hav]
    apply List.mem_append_left
    simp [lineAccesses, htext, testAccesses, hstatus, htoken]
  refine ⟨s, hs, hwait, hmem, fun hall => ?_⟩
  have hsome : (none : Option (List UInt8)).isSome := hall _ hmem
  cases hsome

end EspFirmware
