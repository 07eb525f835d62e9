import EspFirmware.RequestText

/-!
# What a request puts on the wire

`WiFiClientSecure::write` hands its bytes to `send_ssl_data`, whose length is a `uint16_t`, and that calls
`mbedtls_ssl_write` until one call is neither refused nor asks to be repeated.  A call takes at most one
record, and what it leaves is not sent: `print` does not look at the number of bytes written.  After an
error the client is stopped, and later writes do nothing.

* `sent` — the part of a piece that goes out;
* `write_cases`, `writeAll_spec` — what one `write` and what a list of them can do;
* `requestPieces` — the pieces in which `httpRequest` prints its request;
* `sendRequest_decodes_iff` — the peer reads the request back exactly if its body fits into one record.
-/

namespace EspFirmware.Tls

open CString
open HttpMessage (OneLine GoodField parse renderField render crlf)

/-- What a call of `mbedtls_ssl_write` returns: `MBEDTLS_ERR_SSL_WANT_READ` or `_WRITE`, the number of bytes
that fit into a record, or another error. -/
inductive Reply where
  | want
  | accepted
  | failed
  deriving DecidableEq

/-- A client as it is written to: `_connected`, the returns of the calls to come (behind them the
connection is broken), and the bytes that have gone out. -/
structure Sender where
  connected : Bool
  replies : List Reply
  wire : List UInt8

/-- The loop of `send_ssl_data`, with records of at most `limit` bytes.  A return of zero ends it too, but is
no error to `write`. -/
def sendLoop (limit : ℕ) (data : List UInt8) : List Reply → Option ℕ × List Reply × List UInt8
  | [] => (none, [], [])
  | .want :: replies => sendLoop limit data replies
  | .failed :: replies => (none, replies, [])
  | .accepted :: replies => (some (min limit data.length), replies, data.take limit)

/-- `send_ssl_data`: its third parameter is a `uint16_t`. -/
def sendSslData (limit : ℕ) (data : List UInt8) (replies : List Reply) :
    Option ℕ × List Reply × List UInt8 :=
  sendLoop limit (data.take (data.length % 2 ^ 16)) replies

namespace Sender

/-- `WiFiClientSecure::write(buf, size)`, with `stop` after an error. -/
def write (limit : ℕ) (s : Sender) (buf : List UInt8) : ℕ × Sender :=
  if s.connected then
    match sendSslData limit buf s.replies with
    | (none, replies, out) => (0, ⟨false, replies, s.wire ++ out⟩)
    | (some n, replies, out) => (n, ⟨true, replies, s.wire ++ out⟩)
  else (0, s)

/-- Some writes, one after another, whose results nobody looks at. -/
def writeAll (limit : ℕ) (s : Sender) (pieces : List (List UInt8)) : Sender :=
  pieces.foldl (fun s buf => (s.write limit buf).2) s

end Sender

/-- The part of a piece that goes out. -/
def sent (limit : ℕ) (buf : List UInt8) : List UInt8 := buf.take (min limit (buf.length % 2 ^ 16))

section Writes

variable {limit : ℕ} {s : Sender} {buf : List UInt8}

theorem sent_length (limit : ℕ) (buf : List UInt8) :
    (sent limit buf).length = min limit (buf.length % 2 ^ 16) := by
  have := Nat.mod_le buf.length (2 ^ 16)
  rw [sent, List.length_take]
  omega

/-- A piece that fits into a record goes out whole, and no other does. -/
theorem sent_eq_iff (hlimit : limit < 2 ^ 16) : sent limit buf = buf ↔ buf.length ≤ limit := by
  constructor
  · intro h
    have hlen := congrArg List.length h
    rw [sent_length] at hlen
    omega
  · intro h
    rw [sent, List.take_of_length_le]
    rw [Nat.mod_eq_of_lt (by omega)]
    omega

/-- What `send_ssl_data` can do: nothing, with an error, or one record. -/
theorem sendSslData_cases (limit : ℕ) (buf : List UInt8) (replies : List Reply) :
    (∃ rest, sendSslData limit buf replies = (none, rest, [])) ∨
      ∃ rest, sendSslData limit buf replies = (some (sent limit buf).length, rest, sent limit buf) := by
  have hmod := Nat.mod_le buf.length (2 ^ 16)
  have htake : (buf.take (buf.length % 2 ^ 16)).take limit = sent limit buf := by
    rw [List.take_take, sent]
  rw [sendSslData]
  induction replies with
  | nil => exact .inl ⟨[], rfl⟩
  | cons r replies ih =>
      cases r with
      | want => exact ih
      | failed => exact .inl ⟨replies, rfl⟩
      | accepted =>
          refine .inr ⟨replies, ?_⟩
          rw [sendLoop, htake, sent_length, List.length_take, min_eq_left hmod]

/-- **What one `write` can do**: it sends its part of the piece and returns its length, or it sends nothing
and the client is not connected any more. -/
theorem write_cases (limit : ℕ) (s : Sender) (buf : List UInt8) :
    ((s.write limit buf).1 = 0 ∧ (s.write limit buf).2.connected = false ∧
        (s.write limit buf).2.wire = s.wire) ∨
      s.connected = true ∧ (s.write limit buf).1 = (sent limit buf).length ∧
        (s.write limit buf).2.connected = true ∧
        (s.write limit buf).2.wire = s.wire ++ sent limit buf := by
  cases hconn : s.connected with
  | false =>
      have hw : s.write limit buf = (0, s) := by rw [Sender.write, hconn, if_neg Bool.false_ne_true]
      rw [hw]
      exact .inl ⟨rfl, hconn, rfl⟩
  | true =>
      rcases sendSslData_cases limit buf s.replies with ⟨rest, h⟩ | ⟨rest, h⟩
      · have hw : s.write limit buf = (0, ⟨false, rest, s.wire ++ []⟩) := by
          rw [Sender.write, hconn, if_pos rfl, h]
        rw [hw]
        exact .inl ⟨rfl, rfl, List.append_nil _⟩
      · have hw : s.write limit buf
            = ((sent limit buf).length, ⟨true, rest, s.wire ++ sent limit buf⟩) := by
          rw [Sender.write, hconn, if_pos rfl, h]
        rw [hw]
        exact .inr ⟨rfl, rfl, rfl, rfl⟩

/-- **What a list of writes can do**: the parts of its first pieces go out, and of all of them if the client
is still connected. -/
theorem writeAll_spec (limit : ℕ) (pieces : List (List UInt8)) (s : Sender) :
    ∃ k ≤ pieces.length, (s.writeAll limit pieces).wire
        = s.wire ++ ((pieces.take k).map (sent limit)).flatten ∧
      ((s.writeAll limit pieces).connected = true → k = pieces.length) ∧
      (s.connected = false → k = 0) := by
  induction pieces generalizing s with
  | nil => exact ⟨0, le_rfl, by simp [Sender.writeAll], fun _ => rfl, fun _ => rfl⟩
  | cons p ps ih =>
      obtain ⟨k, hk, hwire, hall, hnone⟩ := ih (s.write limit p).2
      have hcons : s.writeAll limit (p :: ps) = (s.write limit p).2.writeAll limit ps := rfl
      rw [hcons]
      rcases write_cases limit s p with ⟨-, hdown, hsame⟩ | ⟨hup, -, -, hout⟩
      · -- nothing goes out any more
        have hk0 := hnone hdown
        subst hk0
        refine ⟨0, Nat.zero_le _, by rw [hwire, hsame]; rfl, fun hconn => ?_, fun _ => rfl⟩
        have hnil : ps = [] := List.eq_nil_of_length_eq_zero (hall hconn).symm
        subst hnil
        exact absurd (hdown.symm.trans hconn) Bool.false_ne_true
      · refine ⟨k + 1, Nat.succ_le_succ hk, ?_, fun hconn => by rw [hall hconn, List.length_cons],
          fun hdown => absurd (hup.symm.trans hdown) (by decide)⟩
        rw [hwire, hout, List.take_succ_cons, List.map_cons, List.flatten_cons, List.append_assoc]

theorem writeAll_wire {pieces : List (List UInt8)} (h : (s.writeAll limit pieces).connected = true) :
    (s.writeAll limit pieces).wire = s.wire ++ (pieces.map (sent limit)).flatten := by
  obtain ⟨k, -, hwire, hall, -⟩ := writeAll_spec limit pieces s
  rw [hwire, hall h, List.take_length]

theorem map_sent {pieces : List (List UInt8)} (hlimit : limit < 2 ^ 16)
    (hfits : ∀ p ∈ pieces, p.length ≤ limit) : pieces.map (sent limit) = pieces :=
  (List.map_congr_left fun p hp => (sent_eq_iff hlimit).mpr (hfits p hp)).trans (List.map_id _)

/-- If every piece fits into a record, what goes out is a beginning of the text. -/
theorem writeAll_beginning {pieces : List (List UInt8)} (hlimit : limit < 2 ^ 16)
    (hfits : ∀ p ∈ pieces, p.length ≤ limit) :
    (s.writeAll limit pieces).wire <+: s.wire ++ pieces.flatten := by
  obtain ⟨k, -, hwire, -, -⟩ := writeAll_spec limit pieces s
  rw [hwire, map_sent hlimit fun p hp => hfits p (List.mem_of_mem_take hp)]
  refine (List.prefix_append_right_inj _).mpr ⟨(pieces.drop k).flatten, ?_⟩
  rw [← List.flatten_append, List.take_append_drop]

end Writes

/-! ### The pieces of a request -/

/-- The writes of a `println`: the text, and the line end. -/
def printlnPieces (line : List UInt8) : List (List UInt8) := [cstr line, [CR, LF]]

/-- The writes of `httpRequest` up to `Connection: close`. -/
def commonPieces (server : Server) (args : RequestArgs) (deviceInfo : List UInt8) : List (List UInt8) :=
  printlnPieces (requestHeaderURL server args) ++ printlnPieces server.hostHeader ++
    printlnPieces (ascii "User-Agent: ESP32WiFi") ++ printlnPieces (ascii "Accept: */*") ++
    printlnPieces (ascii "Cache-Control: no-cache") ++ ascii "DeviceInfo: " :: printlnPieces deviceInfo ++
    printlnPieces (ascii "Connection: close")

/-- The writes between them and the data. -/
def lengthPieces (data : List UInt8) : List (List UInt8) :=
  printlnPieces (ascii "Content-Type: application/json;") ++
    (if (cstr data).head? = some 123 then [ascii "Content-Length: "] else []) ++
    printlnPieces (ascii (toString (strlen data))) ++ [[CR, LF]]

/-- The writes of `httpRequest`. -/
def requestPieces (server : Server) (args : RequestArgs) (deviceInfo : List UInt8) :
    List (List UInt8) :=
  let data := args.data.getD (ascii "{}")
  commonPieces server args deviceInfo ++
    if ¬strEq args.httpMethod (ascii "GET") then lengthPieces data ++ [cstr data] else [[CR, LF]]

@[simp]
theorem printlnPieces_flatten (line : List UInt8) : (printlnPieces line).flatten = println line := by
  simp [printlnPieces, println]

section Requests

variable {server : Server} {args : RequestArgs} {deviceInfo : List UInt8}

theorem strEq_get : strEq args.httpMethod (ascii "GET") = true ↔ cstr args.httpMethod = ascii "GET" := by
  have hself : cstr (ascii "GET") = ascii "GET" := by decide
  rw [strEq, decide_eq_true_eq, hself]

theorem requestPieces_get (hget : cstr args.httpMethod = ascii "GET") :
    requestPieces server args deviceInfo = commonPieces server args deviceInfo ++ [[CR, LF]] := by
  rw [requestPieces, if_neg (not_not.mpr (strEq_get.mpr hget))]

theorem requestPieces_data (hget : cstr args.httpMethod ≠ ascii "GET") :
    requestPieces server args deviceInfo
      = commonPieces server args deviceInfo ++ lengthPieces (args.data.getD (ascii "{}")) ++ [args.body] := by
  rw [requestPieces, if_pos (fun h => hget (strEq_get.mp h)), List.append_assoc]
  rfl

/-- Together the pieces are the text of the request. -/
theorem requestPieces_flatten (server : Server) (args : RequestArgs) (deviceInfo : List UInt8) :
    (requestPieces server args deviceInfo).flatten = requestText server args deviceInfo := by
  have hline : println [] = [CR, LF] := rfl
  by_cases hget : strEq args.httpMethod (ascii "GET") = true
  · simp [requestPieces, requestText, commonPieces, hline, hget]
  · by_cases hobject : (cstr (args.data.getD (ascii "{}"))).head? = some 123
    · simp [requestPieces, requestText, commonPieces, lengthPieces, hline, hget, hobject]
    · simp [requestPieces, requestText, commonPieces, lengthPieces, hline, hget, hobject]

/-- What stands before the data of a request that has some. -/
def requestHead (server : Server) (args : RequestArgs) (deviceInfo : List UInt8) : List UInt8 :=
  (commonPieces server args deviceInfo ++ lengthPieces (args.data.getD (ascii "{}"))).flatten

theorem requestText_head (hget : cstr args.httpMethod ≠ ascii "GET") :
    requestText server args deviceInfo = requestHead server args deviceInfo ++ args.body := by
  rw [← requestPieces_flatten, requestPieces_data hget, List.flatten_append, requestHead]
  simp

/-- The head in the grammar of messages. -/
theorem requestHead_eq (hs : Configured server) (hget : cstr args.httpMethod ≠ ascii "GET") :
    requestHead server args deviceInfo
      = requestLine server args ++ (crlf ++ (((baseFields deviceInfo ++
          [(ascii "Content-Type", ascii "application/json;")]).map renderField).flatten ++
          ((if args.body.head? = some 123 then ascii "Content-Length: " else []) ++
            (ascii (toString args.body.length) ++ (crlf ++ crlf))))) := by
  have h : requestText server args deviceInfo = requestHead server args deviceInfo ++ args.body :=
    requestText_head hget
  rw [requestText_eq hs, requestTail_eq hget] at h
  refine List.append_cancel_right (h.symm.trans ?_)
  simp

/-- A head that announces the length parses, whatever body follows it. -/
theorem parse_head_object (hs : Configured server) (hargs : GoodArgs args)
    (hinfo : OneLine (cstr deviceInfo)) (hget : cstr args.httpMethod ≠ ascii "GET")
    (hobject : args.body.head? = some 123) (body : List UInt8) :
    parse (requestHead server args deviceInfo ++ body)
      = some ⟨requestLine server args, baseFields deviceInfo ++
          [(ascii "Content-Type", ascii "application/json;"),
            (ascii "Content-Length", ascii (toString args.body.length))], body⟩ := by
  have hlength : ascii "Content-Length: " ++ ascii (toString args.body.length) ++ crlf
      = renderField (ascii "Content-Length", ascii (toString args.body.length)) := by
    simp [renderField]
    rfl
  have htext : requestHead server args deviceInfo ++ body
      = render ⟨requestLine server args, baseFields deviceInfo ++
          [(ascii "Content-Type", ascii "application/json;"),
            (ascii "Content-Length", ascii (toString args.body.length))], body⟩ := by
    rw [requestHead_eq hs hget, if_pos hobject, render]
    simp only [List.map_append, List.map_cons, List.map_nil, List.flatten_append, List.flatten_cons,
      List.flatten_nil, ← hlength, List.append_assoc, List.append_nil]
  rw [htext]
  refine HttpMessage.parse_render (hargs.oneLine hs) ?_
  intro f hf
  rcases List.mem_append.mp hf with hf | hf
  · exact goodField_baseFields hinfo f hf
  · simp only [List.mem_cons, List.not_mem_nil, or_false] at hf
    rcases hf with rfl | rfl
    · exact goodField (by decide) ⟨by decide, by decide⟩
    · exact goodField (by decide) (oneLine_toString _)

/-- A head with a length that has no name does not. -/
theorem parse_head_noObject (hs : Configured server) (hargs : GoodArgs args)
    (hinfo : OneLine (cstr deviceInfo)) (hget : cstr args.httpMethod ≠ ascii "GET")
    (hobject : args.body.head? ≠ some 123) (body : List UInt8) :
    parse (requestHead server args deviceInfo ++ body) = none := by
  have hfields : ∀ f ∈ baseFields deviceInfo ++ [(ascii "Content-Type", ascii "application/json;")],
      GoodField f := by
    intro f hf
    rcases List.mem_append.mp hf with hf | hf
    · exact goodField_baseFields hinfo f hf
    · rw [List.mem_singleton.mp hf]
      exact goodField (by decide) ⟨by decide, by decide⟩
  have hline := HttpMessage.parseField_noColon
    (toString_not_mem (by decide) : HttpMessage.colon ∉ ascii (toString args.body.length))
  have hbad : parse (requestLine server args ++ (crlf ++ (((baseFields deviceInfo ++
      [(ascii "Content-Type", ascii "application/json;")]).map renderField).flatten ++
        (ascii (toString args.body.length) ++ (crlf ++ (crlf ++ body)))))) = none :=
    HttpMessage.parse_badField (hargs.oneLine hs) hfields (toString_ne_nil _)
      (toString_not_mem (by decide)) hline
  rw [requestHead_eq hs hget, if_neg hobject, ← hbad]
  simp

/-! ### Which pieces fit into a record -/

theorem toString_length {n : ℕ} (h : n < 2 ^ 32) : (ascii (toString n)).length ≤ 10 := by
  have hdigits : (toString n).toList = Nat.toDigits 10 n := Nat.toList_repr
  rw [ascii, hdigits, List.length_map, Nat.length_toDigits_le_iff (by decide) (by decide)]
  omega

theorem printlnPieces_fit {limit : ℕ} {line : List UInt8} (hline : line.length ≤ limit) (h : 2 ≤ limit) :
    ∀ p ∈ printlnPieces line, p.length ≤ limit := by
  intro p hp
  simp only [printlnPieces, List.mem_cons, List.not_mem_nil, or_false] at hp
  rcases hp with rfl | rfl
  · exact (List.takeWhile_prefix _).length_le.trans hline
  · exact h

/-- Everything before the data fits into a record of 500 bytes, if the device info does. -/
theorem head_fits {limit : ℕ} (hs : Configured server) (hlow : requestHeaderSize ≤ limit)
    (hfits : (requestHeaderURL server args).length < requestHeaderSize)
    (hinfo : deviceInfo.length ≤ limit) (hsize : args.body.length < 2 ^ 32) :
    ∀ p ∈ commonPieces server args deviceInfo ++ lengthPieces (args.data.getD (ascii "{}")),
      p.length ≤ limit := by
  have hsmall : ∀ line : List UInt8, line.length ≤ 500 → ∀ p ∈ printlnPieces line, p.length ≤ limit := by
    intro line hline
    exact printlnPieces_fit (hline.trans hlow) ((by decide : 2 ≤ requestHeaderSize).trans hlow)
  have hhost : server.hostHeader.length ≤ 500 := by
    rw [hs.hostHeader]
    decide
  have hdigits : (ascii (toString args.body.length)).length ≤ 500 :=
    (toString_length hsize).trans (by decide)
  have hfield : ∀ p ∈ (if args.body.head? = some 123 then [ascii "Content-Length: "] else []),
      p.length ≤ limit := by
    intro p hp
    split_ifs at hp
    · rw [List.mem_singleton.mp hp]
      exact (by decide : (ascii "Content-Length: ").length ≤ requestHeaderSize).trans hlow
    · cases hp
  simp only [commonPieces, lengthPieces, List.forall_mem_append, List.forall_mem_cons, and_assoc]
  refine ⟨hsmall _ hfits.le, hsmall _ hhost, hsmall _ (by decide), hsmall _ (by decide),
    hsmall _ (by decide), (by decide : (ascii "DeviceInfo: ").length ≤ requestHeaderSize).trans hlow,
    printlnPieces_fit hinfo ((by decide : 2 ≤ requestHeaderSize).trans hlow), hsmall _ (by decide),
    hsmall _ (by decide), hfield, hsmall _ hdigits,
    (by decide : 2 ≤ requestHeaderSize).trans hlow, by simp⟩

end Requests

/-- **The peer reads a request back exactly if its body fits into one record.**  In every run, for every
request and every way the session answers, with records of at least 500 bytes: what goes out is a beginning
of the request if the body fits; if the client is still connected in the end, the peer has all that stands
before the body and the first record of it, and decodes that to the arguments exactly for a `GET`, or for
data that begins with an opening brace and fits. -/
theorem sendRequest_decodes_iff (calls : List EspFirmware.Call) {s : State} (hrun : runCalls calls = .ok s)
    (args : RequestArgs) (hargs : GoodArgs args) (idfVersion : List UInt8) (hidf : OneLine idfVersion)
    (revision : ℕ) (hfits : (requestHeaderURL s.server args).length < requestHeaderSize)
    (hsize : args.body.length < 2 ^ 32) (limit : ℕ) (hlow : requestHeaderSize ≤ limit)
    (hhigh : limit < 2 ^ 16) (hinfo : (getDeviceInfo idfVersion revision).length ≤ limit)
    (replies : List Reply) :
    let deviceInfo := getDeviceInfo idfVersion revision
    let out := Sender.writeAll limit ⟨true, replies, []⟩ (requestPieces s.server args deviceInfo)
    (cstr args.httpMethod = ascii "GET" ∨ args.body.length ≤ limit →
        out.wire <+: requestText s.server args deviceInfo) ∧
      (out.connected = true →
        (cstr args.httpMethod ≠ ascii "GET" →
          ∃ head, requestText s.server args deviceInfo = head ++ args.body ∧
            out.wire = head ++ args.body.take (min limit (args.body.length % 2 ^ 16))) ∧
        (Decodes s.server args out.wire ↔
          cstr args.httpMethod = ascii "GET" ∨ args.isObject ∧ args.body.length ≤ limit)) := by
  intro deviceInfo out
  have hs := runCalls_configured hrun
  have hone : OneLine (cstr deviceInfo) := oneLine_getDeviceInfo hidf revision
  have hhead : ∀ p ∈ commonPieces s.server args deviceInfo ++ lengthPieces (args.data.getD (ascii "{}")),
      p.length ≤ limit := head_fits hs hlow hfits hinfo hsize
  have hpieces : cstr args.httpMethod = ascii "GET" ∨ args.body.length ≤ limit →
      ∀ p ∈ requestPieces s.server args deviceInfo, p.length ≤ limit := by
    intro hbody
    by_cases hget : cstr args.httpMethod = ascii "GET"
    · rw [requestPieces_get hget, List.forall_mem_append]
      refine ⟨fun p hp => hhead p (List.mem_append_left _ hp), ?_⟩
      intro p hp
      rw [List.mem_singleton.mp hp]
      exact (by decide : 2 ≤ requestHeaderSize).trans hlow
    · rw [requestPieces_data hget, List.forall_mem_append]
      refine ⟨hhead, fun p hp => ?_⟩
      rw [List.mem_singleton.mp hp]
      exact hbody.resolve_left hget
  have hcut : cstr args.httpMethod ≠ ascii "GET" → out.connected = true →
      out.wire = requestHead s.server args deviceInfo ++ sent limit args.body := by
    intro hget hconn
    have hwire : out.wire = [] ++ ((requestPieces s.server args deviceInfo).map (sent limit)).flatten :=
      writeAll_wire hconn
    rw [requestPieces_data hget, List.map_append, map_sent hhigh hhead, List.flatten_append] at hwire
    rw [hwire, requestHead]
    simp
  refine ⟨fun hbody => ?_, fun hconn => ⟨fun hget => ?_, ?_⟩⟩
  · rw [← requestPieces_flatten]
    exact writeAll_beginning hhigh (hpieces hbody)
  · exact ⟨_, requestText_head hget, hcut hget hconn⟩
  · by_cases hget : cstr args.httpMethod = ascii "GET"
    · have hwire : out.wire = [] ++ ((requestPieces s.server args deviceInfo).map (sent limit)).flatten :=
        writeAll_wire hconn
      rw [map_sent hhigh (hpieces (.inl hget)), List.nil_append, requestPieces_flatten] at hwire
      rw [hwire]
      exact ⟨fun _ => .inl hget, fun _ => decodes_get hs hargs hone hget⟩
    · rw [hcut hget hconn]
      constructor
      · rintro ⟨m, hm, -, -, hdata⟩
        by_cases hobject : args.body.head? = some 123
        · rw [parse_head_object hs hargs hone hget hobject] at hm
          obtain rfl := Option.some.inj hm
          exact .inr ⟨hobject, (sent_eq_iff hhigh).mp (hdata hget).1⟩
        · rw [parse_head_noObject hs hargs hone hget hobject] at hm
          cases hm
      · intro h
        obtain ⟨hobject, hbody⟩ := h.resolve_left hget
        rw [(sent_eq_iff hhigh).mpr hbody, ← requestText_head hget]
        exact decodes_object hs hargs hone hget hobject

/-- Twenty-two writes that are taken at the second try. -/
def patient : List Reply := (List.replicate 22 [.want, .accepted]).flatten

/-- A body of 513 bytes for records of 512. -/
def longBody : List UInt8 := 123 :: List.replicate 512 97

theorem sendRequest_decodes_iff_post :
    Decodes State.start.server (postText (ascii "{}")) (Sender.writeAll 16384 ⟨true, patient, []⟩
        (requestPieces State.start.server (postText (ascii "{}")) (getDeviceInfo (ascii "v3.3") 1))).wire ∧
      ¬Decodes State.start.server (postText longBody) (Sender.writeAll 512 ⟨true, patient, []⟩
        (requestPieces State.start.server (postText longBody) (getDeviceInfo (ascii "v3.3") 1))).wire := by
  constructor
  · exact ((sendRequest_decodes_iff [] rfl (postText (ascii "{}")) (postText_good _) (ascii "v3.3")
      ⟨by decide, by decide⟩ 1 (by decide) (by decide) 16384 (by decide) (by decide) (by decide) patient).2
      (by decide)).2.mpr (.inr ⟨(by decide : (postText (ascii "{}")).body.head? = some 123), by decide⟩)
  · have hlong : (postText longBody).body.length = 513 := by decide +kernel
    have hiff := ((sendRequest_decodes_iff [] rfl (postText longBody) (postText_good _) (ascii "v3.3")
      ⟨by decide, by decide⟩ 1 (by decide) (by rw [hlong]; decide) 512 (by decide) (by decide) (by decide)
      patient).2 (by decide +kernel)).2
    rw [hiff, hlong]
    exact not_or.mpr ⟨by decide, fun h => absurd h.2 (by decide)⟩

end EspFirmware.Tls
