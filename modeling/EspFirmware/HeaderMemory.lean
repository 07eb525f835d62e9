import EspFirmware.Commit
import EspFirmware.HeaderChunks

/-!
# What the decision to flash depends on

`processFirmwareUpdateResponse` looks at the content length and the content type of the `headerData`
that `checkForHttpResponse` hands it.  A field the response does not carry is whatever the memory of the
local variable held.

* `firmwareResponse` — a poll of the firmware request with its process callback;
* `lengthOf`, `typeOf` — the content length and content type a list of fields leaves;
* `CallsBegin` — `Update.begin` is called with a size; `MayCallBegin` — or the header loop reads past the
  line buffer;
* `selfContained_iff` — memory has no part in the decision exactly if no line overruns its buffer, and a
  field the response carries refuses it or the response carries both fields.
-/

namespace EspFirmware

open CString

/-- A poll of the firmware request: `checkForHttpResponse` from its first `available()` on, with
`processFirmwareUpdateResponse` as the process callback.  `none` if the callback is not reached. -/
def firmwareResponse (env : OtaEnv) (headerData : ResponseHeaderData)
    (buffer : CharArray responseSize) (u : UpdateClass) (w : World) (client : List Arrival) :
    Except Fault (Option Download) :=
  pollResponse true headerData buffer client >>= fun
    | .process headerData client =>
        .ok (some (processFirmwareUpdateResponse env headerData u w client))
    | _ => .ok none

/-- The content length a field carries. -/
def Field.length : Field → Option Long
  | .contentLength value => some value
  | _ => none

/-- The content type a field carries, as the 50 bytes of the member hold it. -/
def Field.type : Field → Option (List UInt8)
  | .contentType value => some ((cstr value).take 50)
  | _ => none

/-- The content length the fields leave: the last one counts. -/
def lengthOf : List Field → Option Long
  | [] => none
  | f :: fields => (lengthOf fields).or f.length

/-- The content type the fields leave. -/
def typeOf : List Field → Option (List UInt8)
  | [] => none
  | f :: fields => (typeOf fields).or f.type

/-- The content type of a firmware image. -/
def octetStream : List UInt8 := ascii "application/octet-stream"

/-- The firmware poll on `client` calls `Update.begin` with `size`. -/
def CallsBegin (env : OtaEnv) (buffer : CharArray responseSize) (u : UpdateClass) (w : World)
    (client : List Arrival) (headerData : ResponseHeaderData) (size : ℕ) : Prop :=
  ∃ d, firmwareResponse env headerData buffer u w client = .ok (some d) ∧
    .beginCalled size ∈ d.world.trace.drop w.trace.length

/-- The firmware poll may call `Update.begin` with `size`: it does, or it reads past the line buffer, after
which nothing is known of what it does. -/
def MayCallBegin (env : OtaEnv) (buffer : CharArray responseSize) (u : UpdateClass) (w : World)
    (client : List Arrival) (headerData : ResponseHeaderData) (size : ℕ) : Prop :=
  CallsBegin env buffer u w client headerData size ∨
    firmwareResponse env headerData buffer u w client = .error .outOfBounds

/-- The response itself carried a content length of `size`, enough for an image, and the content type of
one. -/
def Carried (client : List Arrival) (size : ℕ) : Prop :=
  ∃ fields rest, headerFields false (Arrival.available client).2 = some (fields, rest) ∧
    (∃ n, lengthOf fields = some n ∧ n.1 = size ∧ 500000 ≤ size) ∧ typeOf fields = some octetStream

/-- No field the decision needs is left to memory: no line that is read overruns its buffer, and if the
header comes to its end, a field it carries refuses the image or it carries both fields. -/
def SelfContained (client : List Arrival) : Prop :=
  (Arrival.available client).1 ≠ 0 →
    ¬Overruns false (Arrival.available client).2 ∧
    ∀ fields rest, headerFields false (Arrival.available client).2 = some (fields, rest) →
      (∃ n, lengthOf fields = some n ∧ n.1 < 500000) ∨
      (∃ t, typeOf fields = some t ∧ t ≠ octetStream) ∨
      ((lengthOf fields).isSome ∧ (typeOf fields).isSome)

/-! ### The header after its fields were stored -/

theorem foldl_store_contentLength (fields : List Field) (headerData : ResponseHeaderData) :
    (fields.foldl Field.store headerData).contentLength
      = (lengthOf fields).getD headerData.contentLength := by
  induction fields generalizing headerData with
  | nil => rfl
  | cons f fields ih =>
      rw [List.foldl_cons, ih]
      show _ = ((lengthOf fields).or f.length).getD _
      cases hn : lengthOf fields with
      | some n => rfl
      | none => cases f <;> rfl

theorem foldl_store_contentType (fields : List Field) (headerData : ResponseHeaderData) :
    (fields.foldl Field.store headerData).contentType.str
      = (typeOf fields).getD headerData.contentType.str := by
  induction fields generalizing headerData with
  | nil => rfl
  | cons f fields ih =>
      rw [List.foldl_cons, ih]
      show _ = ((typeOf fields).or f.type).getD _
      cases ht : typeOf fields with
      | some t => rfl
      | none =>
          cases f with
          | contentType value => exact headerData.contentType.str_strncpy value
          | status code => rfl
          | contentLength value => rfl
          | md5Check value => rfl
          | other => rfl

/-- The gate in terms of the fields of the response and the memory. -/
theorem accepted_foldl_store (fields : List Field) (headerData : ResponseHeaderData) :
    Accepted (fields.foldl Field.store headerData) ↔
      500000 ≤ ((lengthOf fields).getD headerData.contentLength).1 ∧
        (typeOf fields).getD headerData.contentType.str = octetStream := by
  have hlit : cstr octetStream = octetStream := by decide
  rw [Accepted, foldl_store_contentLength, ← foldl_store_contentType, strEq, decide_eq_true_eq]
  show _ ∧ cstr _ = cstr octetStream ↔ _ ∧ cstr _ = octetStream
  rw [hlit]

section Decision

variable {env : OtaEnv} {buffer : CharArray responseSize} {u : UpdateClass} {w : World}
  {client : List Arrival}

/-- The callback calls `begin` exactly for an accepted header, with its content length. -/
theorem beginCalled_iff {headerData : ResponseHeaderData} {size : ℕ} :
    .beginCalled size ∈
        (processFirmwareUpdateResponse env headerData u w client).world.trace.drop w.trace.length ↔
      Accepted headerData ∧ size = headerData.contentLength.1.toNat := by
  by_cases hacc : Accepted headerData
  · obtain ⟨es, hes, hongoing⟩ := processFirmwareUpdateResponse_begins env u w client hacc
    rw [hes, World.run_trace, World.step_trace, List.append_assoc, List.drop_left]
    simp only [List.singleton_append, List.mem_cons, hacc, true_and, Event.beginCalled.injEq,
      or_iff_left_iff_imp]
    intro hmem
    exact absurd (hongoing _ hmem) id
  · simp [processFirmwareUpdateResponse, hacc]

/-- **When `begin` is called**: the header comes to its end and the fields of the response, over the old
memory, pass the gate. -/
theorem callsBegin_iff {headerData : ResponseHeaderData} {size : ℕ} :
    CallsBegin env buffer u w client headerData size ↔
      (Arrival.available client).1 ≠ 0 ∧ ∃ fields rest,
        headerFields false (Arrival.available client).2 = some (fields, rest) ∧
        Accepted (fields.foldl Field.store headerData) ∧
        size = (fields.foldl Field.store headerData).contentLength.1.toNat := by
  constructor
  · intro hbegins
    obtain ⟨d, hd, hbegin⟩ := hbegins
    obtain ⟨r, hr, hd⟩ := FallibleRun.bind_ok hd
    cases r with
    | process headerData' client' =>
        cases hd
        obtain ⟨-, hav, hread⟩ := pollResponse_process_iff.mp hr
        obtain ⟨fields, hfields, rfl⟩ := readHeaders_ended_iff.mp hread
        exact ⟨hav, fields, client', hfields, beginCalled_iff.mp hbegin⟩
    | nothing client' => cases hd
    | failed msg client' => cases hd
    | success buffer' client' => cases hd
    | noBody buffer' client' => cases hd
  · intro hreads
    obtain ⟨hav, fields, rest, hfields, hacc⟩ := hreads
    have hread : readHeaders false headerData (Arrival.available client).2
        = .ok (.ended true (fields.foldl Field.store headerData) rest) :=
      readHeaders_ended_iff.mpr ⟨fields, hfields, rfl⟩
    refine ⟨processFirmwareUpdateResponse env (fields.foldl Field.store headerData) u w rest, ?_,
      beginCalled_iff.mpr hacc⟩
    rw [firmwareResponse, pollResponse_process_iff.mpr ⟨rfl, hav, hread⟩]
    rfl

/-- The firmware poll reads past a buffer exactly where the header loop does. -/
theorem firmwareResponse_outOfBounds_iff {headerData : ResponseHeaderData} :
    firmwareResponse env headerData buffer u w client = .error .outOfBounds ↔
      (Arrival.available client).1 ≠ 0 ∧ Overruns false (Arrival.available client).2 := by
  rw [← @readHeaders_outOfBounds_iff false headerData, firmwareResponse, pollResponse]
  by_cases hav : (Arrival.available client).1 = 0
  · simp [hav, bind, Except.bind]
  · rw [if_neg hav]
    cases hr : readHeaders false headerData (Arrival.available client).2 with
    | error fault => simp [hav, bind, Except.bind]
    | ok r =>
        rcases r with ⟨msg, c⟩ | ⟨_ | _, hd, c⟩
        · simp [bind, Except.bind]
        · simp [bind, Except.bind]
        · simp [bind, Except.bind]

/-- A call of `begin` for a self-contained response shows that both fields were there, whatever memory
held. -/
theorem SelfContained.carried {headerData : ResponseHeaderData} {size : ℕ}
    (hself : SelfContained client) (hcall : CallsBegin env buffer u w client headerData size) :
    Carried client size := by
  obtain ⟨hav, fields, rest, hfields, hacc, hsize⟩ := callsBegin_iff.mp hcall
  rw [accepted_foldl_store] at hacc
  rw [foldl_store_contentLength] at hsize
  obtain ⟨n, t, hn, ht⟩ : ∃ n t, lengthOf fields = some n ∧ typeOf fields = some t := by
    rcases (hself hav).2 fields rest hfields with ⟨n, hn, hlt⟩ | ⟨t, ht, hne⟩ | ⟨hn, ht⟩
    · rw [hn] at hacc
      exact absurd hacc.1 (not_le.mpr hlt)
    · rw [ht] at hacc
      exact absurd hacc.2 hne
    · obtain ⟨n, hn⟩ := Option.isSome_iff_exists.mp hn
      obtain ⟨t, ht⟩ := Option.isSome_iff_exists.mp ht
      exact ⟨n, t, hn, ht⟩
  rw [hn, ht] at hacc
  rw [hn] at hsize
  simp only [Option.getD_some] at hacc hsize
  exact ⟨fields, rest, hfields, ⟨n, hn, by omega, by omega⟩, by rw [ht, hacc.2]⟩

/-- Where the response carried what `begin` is called for, it is called over any memory. -/
theorem Carried.callsBegin {size : ℕ} (h : Carried client size)
    (hav : (Arrival.available client).1 ≠ 0) (headerData : ResponseHeaderData) :
    CallsBegin env buffer u w client headerData size := by
  obtain ⟨fields, rest, hfields, ⟨n, hn, hsize, hmin⟩, ht⟩ := h
  refine callsBegin_iff.mpr ⟨hav, fields, rest, hfields, ?_, ?_⟩
  · rw [accepted_foldl_store, hn, ht]
    exact ⟨by simpa [hsize] using hmin, rfl⟩
  · rw [foldl_store_contentLength, hn]
    simp [hsize]

/-- Memory that passes the gate. -/
def firmwareMemory : ResponseHeaderData := firmwareHeader ⟨500000, by decide⟩

/-- **The decision to flash depends on the response alone, exactly for self-contained responses.** -/
theorem selfContained_iff (env : OtaEnv) (buffer : CharArray responseSize) (u : UpdateClass)
    (w : World) (client : List Arrival) :
    ((∀ headerData headerData' size, MayCallBegin env buffer u w client headerData size ↔
        MayCallBegin env buffer u w client headerData' size) ∧
      ∀ headerData size, MayCallBegin env buffer u w client headerData size → Carried client size) ↔
    SelfContained client := by
  constructor
  · intro hall hav
    obtain ⟨-, hcarried⟩ := hall
    refine ⟨fun hover => ?_, fun fields rest hfields => ?_⟩
    · -- past the buffer even a size of zero may be passed
      obtain ⟨fields, rest, -, ⟨n, -, -, hmin⟩, -⟩ := hcarried firmwareMemory 0
        (.inr (firmwareResponse_outOfBounds_iff.mpr ⟨hav, hover⟩))
      exact absurd hmin (by decide)
    · by_contra hopen
      simp only [not_or, not_exists, not_and, not_lt, not_not] at hopen
      obtain ⟨hlength, htype, hboth⟩ := hopen
      have hacc : Accepted (fields.foldl Field.store firmwareMemory) := by
        rw [accepted_foldl_store]
        constructor
        · cases hn : lengthOf fields with
          | none => decide
          | some n => exact hlength n hn
        · cases ht : typeOf fields with
          | none => decide
          | some t => exact htype t ht
      obtain ⟨fields', rest', hfields', ⟨n, hn, _⟩, ht⟩ := hcarried firmwareMemory _
        (.inl (callsBegin_iff.mpr ⟨hav, fields, rest, hfields, hacc, rfl⟩))
      cases hfields.symm.trans hfields'
      exact hboth (by rw [hn]; rfl) (by rw [ht]; rfl)
  · intro hself
    have hcalls : ∀ headerData size, MayCallBegin env buffer u w client headerData size →
        CallsBegin env buffer u w client headerData size := by
      intro headerData size hcall
      refine hcall.resolve_right fun hfault => ?_
      obtain ⟨hav, hover⟩ := firmwareResponse_outOfBounds_iff.mp hfault
      exact (hself hav).1 hover
    have hcarried : ∀ headerData size, MayCallBegin env buffer u w client headerData size →
        Carried client size := fun headerData size hcall => hself.carried (hcalls headerData size hcall)
    have hagree : ∀ headerData headerData' size,
        MayCallBegin env buffer u w client headerData size →
          MayCallBegin env buffer u w client headerData' size := by
      intro headerData headerData' size hcall
      obtain ⟨hav, -⟩ := callsBegin_iff.mp (hcalls headerData size hcall)
      exact .inl ((hcarried headerData size hcall).callsBegin hav headerData')
    exact ⟨fun headerData headerData' size => ⟨hagree _ _ _, hagree _ _ _⟩, hcarried⟩

end Decision

/-- The header of a 200 response without fields. -/
def bareResponse : List Arrival := (ascii "HTTP/1.1 200 OK\r\n\r\n").map .byte

theorem headerFields_bareResponse :
    headerFields false (Arrival.available bareResponse).2
      = some ([.status (ascii "200")], [.byte LF]) := by
  have hfirst : readLine (Arrival.available bareResponse).2
      = (ascii "HTTP/1.1 200 OK", (ascii "\n\r\n").map .byte) := rfl
  have hblank : readLine ((ascii "\n\r\n").map .byte) = ([LF], [.byte LF]) := rfl
  have hend : headerFields true ((ascii "\n\r\n").map .byte) = some ([], [.byte LF]) := by
    rw [headerFields, dif_neg (by decide), hblank, if_neg (by decide), if_pos (by decide)]
  have hfield : lineField (lineText (ascii "HTTP/1.1 200 OK")) = some (.status (ascii "200")) := rfl
  rw [headerFields, dif_neg (by decide), hfirst, if_neg (by decide), if_neg (by decide),
    if_pos (by decide), hfield, hend]
  rfl

/-- A response without fields is flashed or refused by what the memory held. -/
theorem bareResponse_flashed :
    CallsBegin (.healthy ota0 0x400000) (CharArray.zero _) .init .initial bareResponse
        firmwareMemory 500000 ∧
      (∀ size, ¬CallsBegin (.healthy ota0 0x400000) (CharArray.zero _) .init .initial bareResponse
        .zero size) ∧ ¬Carried bareResponse 500000 := by
  refine ⟨callsBegin_iff.mpr ⟨by decide, _, _, headerFields_bareResponse, ?_, rfl⟩, ?_, ?_⟩
  · rw [accepted_foldl_store]
    decide
  · intro size hcall
    obtain ⟨-, fields, rest, hfields, hacc, -⟩ := callsBegin_iff.mp hcall
    cases headerFields_bareResponse.symm.trans hfields
    rw [accepted_foldl_store] at hacc
    exact absurd hacc.1 (by decide)
  · rintro ⟨fields, rest, hfields, ⟨n, hn, -⟩, -⟩
    cases headerFields_bareResponse.symm.trans hfields
    cases hn

end EspFirmware
