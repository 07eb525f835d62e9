import EspFirmware.Stream
import EspFirmware.StringHelpers

/-!
# Reading a response header

The header loop of `checkForHttpResponse` (`HttpRequestManager.cpp`).  Each round reads one line up to
its CR into a zeroed `char line[255]`, trims it and tests it: a line of length one ends the header, a
line that starts with `HTTP/1.` carries the status, and three named fields are stored in the
`ResponseHeaderData`.  The structure is a local variable the code never initialises, so it enters as an
argument.

* `headerLine` — one line; `readHeaders` — the loop while `available()` is non-zero;
* a C library call on a missing token or an unterminated line is a `Fault`: the program's behaviour is
  undefined from there on;
* `headerLine_eq` — a terminated line is judged by its trimmed string alone.
-/

namespace EspFirmware

open CString

/-- `struct ResponseHeaderData`. -/
structure ResponseHeaderData where
  contentLength : Long
  statusCode : CharArray 10
  contentType : CharArray 50
  md5Check : CharArray 50

namespace ResponseHeaderData

variable (headerData : ResponseHeaderData) (token : List UInt8)

/-- `strncpy(headerData.statusCode, token, 10)`. -/
def copyStatusCode : ResponseHeaderData :=
  { headerData with statusCode := headerData.statusCode.strncpy token 10 le_rfl }

/-- `strncpy(headerData.contentType, token, 50)`. -/
def copyContentType : ResponseHeaderData :=
  { headerData with contentType := headerData.contentType.strncpy token 50 le_rfl }

/-- `strncpy(headerData.md5Check, token, 50)`. -/
def copyMd5Check : ResponseHeaderData :=
  { headerData with md5Check := headerData.md5Check.strncpy token 50 le_rfl }

end ResponseHeaderData

/-- Where the program's behaviour becomes undefined. -/
inductive Fault where
  | outOfBounds
  | nullPointer
  deriving Repr, DecidableEq

/-- The message recorded for a status code other than 200.  The comparisons are the source's: each
branch is taken when the code is *not* the one its message names. -/
def badStatusMessage (statusCode : CharArray 10) : List UInt8 :=
  if ¬strEq statusCode.1 (ascii "503") then ascii "Server Maintenance"
  else if ¬strEq statusCode.1 (ascii "403") then ascii "403 Forbidden"
  else if ¬strEq statusCode.1 (ascii "404") then ascii "404 Not Found"
  else if ¬strEq statusCode.1 (ascii "401") then ascii "401 Unauthorized"
  else if ¬strEq statusCode.1 (ascii "500") then ascii "500 Server Error"
  else statusCode.str

/-- `getHeaderValue`: the header without as many characters as its name has. -/
def getHeaderValue (header headerName : List UInt8) : List UInt8 := header.drop (strlen headerName)

/-- What a header line does to the loop. -/
inductive LineResult where
  | endOfHeaders
  | rejected (msg : List UInt8)
  | next (statusCodeFound : Bool) (headerData : ResponseHeaderData)

/-- The tests of one round on the trimmed string `line`. -/
def headerTests (statusCodeFound : Bool) (headerData : ResponseHeaderData) (line : List UInt8) :
    Except Fault LineResult :=
  if startsWith (ascii "HTTP/1.") line then
    match secondToken space line with
    | none => .error .nullPointer
    | some token =>
        let statusCode := headerData.statusCode.strncpy token 10 le_rfl
        if ¬strEq statusCode.1 (ascii "200") then .ok (.rejected (badStatusMessage statusCode))
        else .ok (.next true { headerData with statusCode := statusCode })
  else if ¬statusCodeFound then .ok (.rejected (ascii "Missing HTTP status code"))
  else if strstr line (ascii "Content-Length: ") then
    .ok (.next statusCodeFound
      { headerData with contentLength := atol (getHeaderValue line (ascii "Content-Length: ")) })
  else if strstr line (ascii "Content-Type: ") then
    match secondToken space line with
    | none => .error .nullPointer
    | some token =>
        .ok (.next statusCodeFound
          { headerData with contentType := headerData.contentType.strncpy token 50 le_rfl })
  else if strstr line (ascii "x-MD5: ") then
    match secondToken space line with
    | none => .error .nullPointer
    | some token =>
        .ok (.next statusCodeFound
          { headerData with md5Check := headerData.md5Check.strncpy token 50 le_rfl })
  else .ok (.next statusCodeFound headerData)

/-- `sizeof(line)`. -/
def lineSize : ℕ := 255

/-- `char line[255] = {0}` after `readBytesUntil` put `raw` in front. -/
def lineArray (raw : List UInt8) : List UInt8 := raw ++ List.replicate (lineSize - raw.length) 0

/-- One round of the header loop on the bytes `readBytesUntil` returned. -/
def headerLine (statusCodeFound : Bool) (headerData : ResponseHeaderData) (raw : List UInt8) :
    Except Fault LineResult :=
  match strtrim (lineArray raw) with
  | none => .error .outOfBounds
  | some line =>
      if getPositionOf line lineSize 0 = 1 then .ok .endOfHeaders
      else headerTests statusCodeFound headerData (cstr line)

/-- How the header loop ends: an error is recorded and the request given up, or the loop is left. -/
inductive HeaderResult where
  | rejected (msg : List UInt8) (client : List Arrival)
  | ended (endOfHeadersFound : Bool) (headerData : ResponseHeaderData) (client : List Arrival)

/-- `'\r'`. -/
def CR : UInt8 := 13

/-- `'\n'`. -/
def LF : UInt8 := 10

/-- The line the next round reads, and the stream after it. -/
def readLine (client : List Arrival) : List UInt8 × List Arrival :=
  Arrival.readBytesUntil CR lineSize (Arrival.available client).2

theorem readBytesUntil_length (t : UInt8) (n : ℕ) (s : List Arrival) :
    (Arrival.readBytesUntil t n s).1.length + (Arrival.readBytesUntil t n s).2.length ≤ s.length ∧
      (Arrival.readBytesUntil t n s).1.length ≤ n := by
  induction n generalizing s with
  | zero => simp [Arrival.readBytesUntil]
  | succ n ih =>
      rcases hr : Arrival.timedRead s with ⟨_ | b, s'⟩
      · have h := (Arrival.timedRead_none hr).2
        simpa [Arrival.readBytesUntil, hr] using h
      · have h := (Arrival.timedRead_some hr).2
        have hi := ih s'
        by_cases hb : b = t
        · simp [Arrival.readBytesUntil, hr, hb]
          omega
        · simp [Arrival.readBytesUntil, hr, hb]
          omega

theorem readLine_raw_length (client : List Arrival) : (readLine client).1.length ≤ lineSize :=
  (readBytesUntil_length _ _ _).2

/-- A line read after a non-zero `available()` takes something from the connection. -/
theorem readLine_length {client : List Arrival} (h : (Arrival.available client).1 ≠ 0) :
    (readLine client).2.length < client.length := by
  cases client with
  | nil => simp [Arrival.available] at h
  | cons a s =>
      cases a with
      | pause long => simp [Arrival.available] at h
      | closed code =>
          have hr := (readBytesUntil_length CR lineSize s).1
          simp only [readLine, Arrival.available, List.length_cons]
          omega
      | byte b =>
          have hr := (readBytesUntil_length CR (lineSize - 1) s).1
          have hsize : lineSize = (lineSize - 1) + 1 := rfl
          simp only [readLine, Arrival.available]
          rw [hsize]
          by_cases hb : b = CR
          · simp [Arrival.readBytesUntil, Arrival.timedRead, hb]
          · simp only [Arrival.readBytesUntil, Arrival.timedRead, hb, if_false, List.length_cons]
            omega

/-- The header loop. -/
def readHeaders (statusCodeFound : Bool) (headerData : ResponseHeaderData) (client : List Arrival) :
    Except Fault HeaderResult :=
  if _h : (Arrival.available client).1 = 0 then
    .ok (.ended false headerData (Arrival.available client).2)
  else
    match headerLine statusCodeFound headerData (readLine client).1 with
    | .error fault => .error fault
    | .ok .endOfHeaders => .ok (.ended true headerData (readLine client).2)
    | .ok (.rejected msg) => .ok (.rejected msg (readLine client).2)
    | .ok (.next found headerData') => readHeaders found headerData' (readLine client).2
termination_by client.length
decreasing_by exact readLine_length _h

/-! ### A terminated line is judged by its trimmed string -/

/-- The line holds a terminated string. -/
def Terminated (raw : List UInt8) : Prop := raw.length < lineSize ∨ (0 : UInt8) ∈ raw

instance (raw : List UInt8) : Decidable (Terminated raw) := by
  unfold Terminated
  infer_instance

/-- The string the tests see: cut at the first NUL and trimmed. -/
def lineText (raw : List UInt8) : List UInt8 := trimSpaces (cstr raw)

theorem Terminated.mem_lineArray {raw : List UInt8} (h : Terminated raw) :
    (0 : UInt8) ∈ lineArray raw := by
  rcases h with hlt | hz
  · exact List.mem_append_right _ (List.mem_replicate.mpr ⟨by omega, rfl⟩)
  · exact List.mem_append_left _ hz

theorem lineArray_length {raw : List UInt8} (h : raw.length ≤ lineSize) :
    (lineArray raw).length = lineSize := by
  rw [lineArray, List.length_append, List.length_replicate]
  omega

theorem strtrim_lineArray_eq_none {raw : List UInt8} (hlen : raw.length ≤ lineSize)
    (h : ¬Terminated raw) : strtrim (lineArray raw) = none := by
  simp only [Terminated, not_or, not_lt] at h
  have hzero : lineSize - raw.length = 0 := by omega
  rw [lineArray, hzero, List.replicate_zero, List.append_nil, strtrim_eq_none h.2]

theorem headerLine_eq {raw : List UInt8} (found : Bool) (headerData : ResponseHeaderData)
    (hlen : raw.length ≤ lineSize) (h : Terminated raw) :
    headerLine found headerData raw
      = if (lineText raw).length = 1 then .ok .endOfHeaders
        else headerTests found headerData (lineText raw) := by
  obtain ⟨line, htrim, hstr, hl, hz⟩ := strtrim_spec h.mem_lineArray
  have hsize : line.length = lineSize := hl.trans (lineArray_length hlen)
  have hcstr : cstr line = lineText raw := by
    rw [hstr, lineArray, cstr_append_replicate, lineText]
  rw [headerLine, htrim]
  simp only
  rw [getPositionOf_nul hsize hz, strlen, hcstr]
  norm_cast

theorem headerLine_fault {raw : List UInt8} (found : Bool) (headerData : ResponseHeaderData)
    (hlen : raw.length ≤ lineSize) (h : ¬Terminated raw) :
    headerLine found headerData raw = .error .outOfBounds := by
  rw [headerLine, strtrim_lineArray_eq_none hlen h]

end EspFirmware
