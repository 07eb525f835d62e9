import EspFirmware.StatusLine

/-!
# The fields of a response header

What the header loop takes from a response, apart from where it puts it.  `headerData` is never
initialised, so the header the loop ends with is its old memory overwritten by the fields of the
response, in their order.

* `Field`, `Field.store` — what a line contributes, and the member of `headerData` it is written to;
* `lineField` — the field of one line; `headerFields` — the fields of a header, up to its blank line;
* `readHeaders_ended_iff` — the loop finds the end of the headers exactly when there is such a list of
  fields, and leaves the memory with these fields stored.
-/

namespace EspFirmware

open CString ResponseHeaderData

/-- What a header line contributes to `headerData`. -/
inductive Field where
  | status (code : List UInt8)
  | contentLength (value : Long)
  | contentType (value : List UInt8)
  | md5Check (value : List UInt8)
  | other

/-- Write a field to its member. -/
def Field.store (headerData : ResponseHeaderData) : Field → ResponseHeaderData
  | .status code => headerData.copyStatusCode code
  | .contentLength value => { headerData with contentLength := value }
  | .contentType value => headerData.copyContentType value
  | .md5Check value => headerData.copyMd5Check value
  | .other => headerData

/-- The line is tested for a status. -/
def isStatusLine (line : List UInt8) : Bool := startsWith (ascii "HTTP/1.") line

/-- The field of a line; `none` if the loop does not go on after it, for a status other than 200 or for
want of a second token. -/
def lineField (line : List UInt8) : Option Field :=
  if isStatusLine line then
    if secondToken space line = some (ascii "200") then some (.status (ascii "200")) else none
  else if strstr line (ascii "Content-Length: ") then
    some (.contentLength (atol (getHeaderValue line (ascii "Content-Length: "))))
  else if strstr line (ascii "Content-Type: ") then (secondToken space line).map .contentType
  else if strstr line (ascii "x-MD5: ") then (secondToken space line).map .md5Check
  else some .other

/-- The fields of a header whose blank line is found, and the connection after it. -/
def headerFields (statusCodeFound : Bool) (client : List Arrival) :
    Option (List Field × List Arrival) :=
  if _h : (Arrival.available client).1 = 0 then none
  else if ¬Terminated (readLine client).1 then none
  else if (lineText (readLine client).1).length = 1 then some ([], (readLine client).2)
  else if statusCodeFound ∨ isStatusLine (lineText (readLine client).1) then
    match lineField (lineText (readLine client).1) with
    | none => none
    | some f => (headerFields true (readLine client).2).map fun r => (f :: r.1, r.2)
  else none
termination_by client.length
decreasing_by exact readLine_length _h

/-! ### One line -/

/-- A line goes through exactly as one of its fields. -/
theorem headerTests_next_iff {found found' : Bool} {headerData headerData' : ResponseHeaderData}
    {line : List UInt8} (hz : (0 : UInt8) ∉ line) :
    headerTests found headerData line = .ok (.next found' headerData') ↔
      (found = true ∨ isStatusLine line = true) ∧ found' = true ∧
        ∃ f, lineField line = some f ∧ headerData' = f.store headerData := by
  by_cases hs : isStatusLine line = true
  · -- a status line
    by_cases hok : secondToken space line = some (ascii "200")
    · have htaken : TakenFor200 line := by
        refine ⟨?_, hok⟩
        simpa [isStatusLine, startsWith, cstr_eq_self hz] using hs
      rw [headerTests_of_takenFor200 found headerData hz htaken]
      simp only [lineField, hs, hok, if_true, Except.ok.injEq, LineResult.next.injEq, or_true,
        true_and, Option.some.injEq, exists_eq_left']
      exact ⟨fun h => ⟨h.1.symm, h.2.symm⟩, fun h => ⟨h.1.symm, h.2.symm⟩⟩
    · refine ⟨fun h => ?_, fun h => ?_⟩
      · have hstart : startsWith (ascii "HTTP/1.") line = true := hs
        simp only [headerTests, hstart, if_true] at h
        split at h
        · cases h
        · rename_i token htok
          have hztok : (0 : UInt8) ∉ token := fun hm => hz (mem_of_mem_secondToken htok hm)
          split at h
          · cases h
          · rename_i hcode
            rw [not_not, strEq_statusCode hztok] at hcode
            exact absurd (hcode ▸ htok) hok
      · obtain ⟨-, -, f, hf, -⟩ := h
        simp [lineField, hs, hok] at hf
  · have hstart : ¬startsWith (ascii "HTTP/1.") line = true := hs
    cases found with
    | false =>
        simp [headerTests, hstart, hs]
    | true =>
        simp only [headerTests, lineField, hs, hstart, if_false, not_true, Bool.false_eq_true,
          true_or, true_and]
        split_ifs
        · simp [Field.store, eq_comm]
        · cases secondToken space line <;> simp [Field.store, copyContentType, eq_comm]
        · cases secondToken space line <;> simp [Field.store, copyMd5Check, eq_comm]
        · simp [Field.store, eq_comm]

/-- A line read by the loop goes through exactly as one of its fields. -/
theorem headerLine_next_iff {found found' : Bool} {headerData headerData' : ResponseHeaderData}
    {raw : List UInt8} (hlen : raw.length ≤ lineSize) :
    headerLine found headerData raw = .ok (.next found' headerData') ↔
      Terminated raw ∧ (lineText raw).length ≠ 1 ∧
        (found = true ∨ isStatusLine (lineText raw) = true) ∧ found' = true ∧
        ∃ f, lineField (lineText raw) = some f ∧ headerData' = f.store headerData := by
  by_cases hterm : Terminated raw
  · rw [headerLine_eq found headerData hlen hterm]
    by_cases hone : (lineText raw).length = 1
    · simp [hone]
    · rw [if_neg hone, headerTests_next_iff (lineText_not_mem_zero raw)]
      simp [hterm, hone]
  · rw [headerLine_fault found headerData hlen hterm]
    simp [hterm]

/-- A line ends the headers exactly if its text is one character long. -/
theorem headerLine_end_iff {found : Bool} {headerData : ResponseHeaderData} {raw : List UInt8}
    (hlen : raw.length ≤ lineSize) :
    headerLine found headerData raw = .ok .endOfHeaders ↔
      Terminated raw ∧ (lineText raw).length = 1 := by
  by_cases hterm : Terminated raw
  · rw [headerLine_eq found headerData hlen hterm]
    by_cases hone : (lineText raw).length = 1
    · simp [hone, hterm]
    · rw [if_neg hone]
      simp [hone, headerTests_ne_endOfHeaders]
  · rw [headerLine_fault found headerData hlen hterm]
    simp [hterm]

/-- A line is read past its buffer exactly if it is no string. -/
theorem headerLine_outOfBounds_iff (found : Bool) (headerData : ResponseHeaderData)
    {raw : List UInt8} (hlen : raw.length ≤ lineSize) :
    headerLine found headerData raw = .error .outOfBounds ↔ ¬Terminated raw := by
  refine ⟨fun h hterm => ?_, headerLine_fault found headerData hlen⟩
  rw [headerLine_eq found headerData hlen hterm] at h
  split at h
  · cases h
  · cases headerTests_error h

/-! ### The loop -/

/-- Where a line stops the loop there are no fields. -/
theorem headerFields_eq_none {found : Bool} {client : List Arrival} (headerData : ResponseHeaderData)
    (hend : headerLine found headerData (readLine client).1 ≠ .ok .endOfHeaders)
    (hnext : ∀ found' headerData',
      headerLine found headerData (readLine client).1 ≠ .ok (.next found' headerData')) :
    headerFields found client = none := by
  have hraw := readLine_raw_length client
  rw [headerFields]
  split_ifs with hav hterm hone hgo
  · rfl
  · exact hend ((headerLine_end_iff hraw).mpr ⟨hterm, hone⟩)
  · cases hf : lineField (lineText (readLine client).1) with
    | none => rfl
    | some f =>
        exact absurd ((headerLine_next_iff hraw).mpr ⟨hterm, hone, hgo, rfl, f, hf, rfl⟩) (hnext _ _)
  · rfl
  · rfl

/-- **The header the loop ends with is its memory with the fields of the response stored.** -/
theorem readHeaders_ended_iff {found : Bool} {client client' : List Arrival}
    {headerData headerData' : ResponseHeaderData} :
    readHeaders found headerData client = .ok (.ended true headerData' client') ↔
      ∃ fields, headerFields found client = some (fields, client') ∧
        headerData' = fields.foldl Field.store headerData := by
  fun_induction readHeaders found headerData client with
  | case1 found headerData client hav =>
      rw [headerFields, dif_pos hav]
      simp
  | case2 found headerData client hav fault hline =>
      rw [headerFields_eq_none headerData (by simp [hline]) (by simp [hline])]
      simp
  | case3 found headerData client hav hline =>
      obtain ⟨hterm, hone⟩ := (headerLine_end_iff (readLine_raw_length _)).mp hline
      rw [headerFields, dif_neg hav, if_neg (not_not.mpr hterm), if_pos hone]
      simp [eq_comm, and_comm]
  | case4 found headerData client hav msg hline =>
      rw [headerFields_eq_none headerData (by simp [hline]) (by simp [hline])]
      simp
  | case5 found headerData client hav found' headerData'' hline ih =>
      obtain ⟨hterm, hone, hgo, rfl, f, hf, rfl⟩ :=
        (headerLine_next_iff (readLine_raw_length _)).mp hline
      have hfields : headerFields found client
          = (headerFields true (readLine client).2).map fun r => (f :: r.1, r.2) := by
        rw [headerFields, dif_neg hav, if_neg (not_not.mpr hterm), if_neg hone, if_pos hgo, hf]
      refine ih.trans ⟨?_, ?_⟩
      · intro hrest
        obtain ⟨fields, hfs, hdata⟩ := hrest
        exact ⟨f :: fields, by rw [hfields, hfs]; rfl, hdata⟩
      · intro hrest
        obtain ⟨fields, hfs, hdata⟩ := hrest
        rw [hfields] at hfs
        obtain ⟨⟨rest, client''⟩, hrest, heq⟩ := Option.map_eq_some_iff.mp hfs
        cases heq
        exact ⟨rest, hrest, hdata⟩

/-- A poll comes to the process callback exactly if there is one and the headers come to their end. -/
theorem pollResponse_process_iff {process : Bool} {buffer : CharArray responseSize}
    {client client' : List Arrival} {headerData headerData' : ResponseHeaderData} :
    pollResponse process headerData buffer client = .ok (.process headerData' client') ↔
      process = true ∧ (Arrival.available client).1 ≠ 0 ∧
        readHeaders false headerData (Arrival.available client).2
          = .ok (.ended true headerData' client') := by
  unfold pollResponse
  by_cases hav : (Arrival.available client).1 = 0
  · simp [hav]
  · rw [if_neg hav]
    cases hr : readHeaders false headerData (Arrival.available client).2 with
    | error fault =>
        simp only [bind, Except.bind, reduceCtorEq, and_false]
    | ok r =>
        rcases r with ⟨msg, c⟩ | ⟨_ | _, hd, c⟩
        · simp [bind, Except.bind]
        · simp [bind, Except.bind]
        · cases process with
          | true => simp [bind, Except.bind, hav]
          | false =>
              simp only [Bool.false_eq_true, false_and, iff_false]
              intro h
              obtain ⟨r, hr', h⟩ := FallibleRun.bind_ok h
              cases hr'
              obtain ⟨buffer', -, h⟩ := FallibleRun.bind_ok h
              split at h <;> cases h

end EspFirmware
