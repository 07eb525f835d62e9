import EspFirmware.Lib.HttpMessage
import EspFirmware.RequestRuns

/-!
# The text of a request

What `httpRequest` writes to the client, read back with the grammar of HTTP messages.  The name of the
length field is printed only for data that begins with an opening brace, its value in any case: for other
data the header has a line of digits that is no field.

* `getDeviceInfo` — the value of the `DeviceInfo` field;
* `Configured` — the servers a run can talk to, an invariant of runs;
* `requestText_eq` — a request line, fields, and what depends on the method and the data;
* `httpRequest_decodes_iff` — the request decodes back to its arguments exactly for a `GET` or for data
  that begins with an opening brace.
-/

namespace EspFirmware

open CString
open HttpMessage (Message OneLine GoodField parse renderField render crlf)

/-- `GetDeviceInfo`: the version is `FIRMWARE_VERSION` without its first four characters. -/
def getDeviceInfo (idfVersion : List UInt8) (revision : ℕ) : List UInt8 :=
  ascii "ct|0.0.1|espidf|" ++ cstr idfVersion ++ ascii "|" ++ ascii (toString revision) ++
    ascii "|espressif"

/-- The body a request with a body has. -/
def RequestArgs.body (args : RequestArgs) : List UInt8 := cstr (args.data.getD (ascii "{}"))

/-- The first character of the data is an opening brace. -/
def RequestArgs.isObject (args : RequestArgs) : Prop := args.body.head? = some 123

/-- A method that is a token, and a path without blanks and line ends. -/
structure GoodArgs (args : RequestArgs) : Prop where
  method_nonempty : cstr args.httpMethod ≠ []
  method_token : space ∉ cstr args.httpMethod ∧ OneLine (cstr args.httpMethod)
  path_plain : space ∉ cstr args.path ∧ OneLine (cstr args.path)

/-- The request line carries the method and the path. -/
def requestLine (server : Server) (args : RequestArgs) : List UInt8 :=
  cstr args.httpMethod ++ ascii " " ++
    (server.protocol ++ ascii "://" ++ server.domain ++ cstr args.path) ++ ascii " HTTP/1.0"

/-- The text decodes back to the arguments of the request. -/
def Decodes (server : Server) (args : RequestArgs) (text : List UInt8) : Prop :=
  ∃ m, parse text = some m ∧ m.startLine = requestLine server args ∧
    (cstr args.httpMethod = ascii "GET" → m.body = []) ∧
    (cstr args.httpMethod ≠ ascii "GET" → m.body = args.body ∧
      (ascii "Content-Length", ascii (toString args.body.length)) ∈ m.fields)

/-! ### The server of a run -/

/-- The server as the source initialises it, before or after `setup_HttpRequestManager`. -/
structure Configured (server : Server) : Prop where
  domain : server.domain = ascii "device.somedomain.com"
  hostHeader : server.hostHeader = ascii "Host: www.azurewebsites.net"
  protocol : server.protocol = ascii "http" ∨ server.protocol = ascii "https"

theorem scriptInvariant_configured : ScriptInvariant fun s => Configured s.server where
  cancel s hs := hs
  consume s client hs := hs
  fail s args msg hs := hs
  send s args net s' hs h := by
    rw [send_ok h]
    exact hs
  clear s hs := hs

theorem step_configured {s s' : State} {call : Call} (hs : Configured s.server)
    (h : step s call = .ok s') : Configured s'.server := by
  cases call with
  | httpRequest args net onError =>
      exact scriptInvariant_configured.httpRequest
        (fun _ _ ht hrun => scriptInvariant_configured.run onError ht hrun) hs h
  | cancelHttpRequest =>
      cases h
      exact hs
  | setupHttpRequestManager =>
      cases h
      exact ⟨hs.domain, hs.hostHeader, .inr rfl⟩
  | handleHttpResponseComplete onSuccess onError =>
      cases handleHttpResponseComplete_spec h with
      | idle => exact hs
      | delivered cb t _ _ hrun =>
          have ht : Configured t.server :=
            scriptInvariant_configured.run (s := s.log _) onSuccess hs hrun
          exact ht
      | failed cb t _ _ hrun =>
          have ht : Configured t.server :=
            scriptInvariant_configured.run (s := s.log _) onError hs hrun
          exact ht
  | checkForHttpResponse poll =>
      cases checkForHttpResponse_spec h with
      | ignored => exact hs
      | waited => exact hs
      | gaveUp msg buffer => exact hs
      | processed cb headerData client t _ _ _ _ hrun =>
          have ht : Configured t.server := scriptInvariant_configured.run
            (s := { s with client := client }.log _) poll.onProcess hs hrun
          exact ht
      | completed => exact hs

theorem runCalls_configured {calls : List Call} {s : State} (h : runCalls calls = .ok s) :
    Configured s.server :=
  runCalls_invariant (P := fun s => Configured s.server) (Q := fun _ => True)
    ⟨rfl, rfl, .inl rfl⟩ (fun _ _ _ hs _ h => step_configured hs h) (fun _ _ => trivial) h

/-! ### Lines and fields -/

/-- The fields every request has. -/
def baseFields (deviceInfo : List UInt8) : List (List UInt8 × List UInt8) :=
  [(ascii "Host", ascii "www.azurewebsites.net"), (ascii "User-Agent", ascii "ESP32WiFi"),
    (ascii "Accept", ascii "*/*"), (ascii "Cache-Control", ascii "no-cache"),
    (ascii "DeviceInfo", cstr deviceInfo), (ascii "Connection", ascii "close")]

/-- What follows them. -/
def requestTail (args : RequestArgs) : List UInt8 :=
  if ¬strEq args.httpMethod (ascii "GET") then
    println (ascii "Content-Type: application/json;") ++
      (if args.body.head? = some 123 then ascii "Content-Length: " else []) ++
      println (ascii (toString args.body.length)) ++ println [] ++ args.body
  else println []

theorem requestHeaderURL_eq {server : Server} (hs : Configured server) (args : RequestArgs) :
    requestHeaderURL server args = requestLine server args := by
  have hdomain : cstr server.domain = server.domain := by
    rw [hs.domain]
    decide
  have hprotocol : cstr server.protocol = server.protocol := by
    rcases hs.protocol with h | h <;> rw [h] <;> decide
  rw [requestHeaderURL, requestLine, hdomain, hprotocol]
  simp

/-- A character of a request line stands in the method, in the path or in the fixed text. -/
theorem mem_requestLine {server : Server} (hs : Configured server) {args : RequestArgs} {b : UInt8}
    (h : b ∈ requestLine server args) :
    b ∈ cstr args.httpMethod ∨ b ∈ cstr args.path ∨
      b ∈ ascii " https://device.somedomain.com HTTP/1.0" := by
  have hprotocol : b ∈ server.protocol → b ∈ ascii "https" := by
    rcases hs.protocol with he | he
    · rw [he]
      intro hb
      have hp : ascii "http" <+: ascii "https" := by decide
      exact hp.subset hb
    · rw [he]
      exact id
  have hsub : ∀ t : String, ascii t <:+: ascii " https://device.somedomain.com HTTP/1.0" →
      b ∈ ascii t → b ∈ ascii " https://device.somedomain.com HTTP/1.0" :=
    fun t ht hb => ht.subset hb
  simp only [requestLine, List.mem_append, hs.domain] at h
  rcases h with ((h | h) | ((h | h) | h) | h) | h
  · exact .inl h
  · exact .inr (.inr (hsub " " (by decide) h))
  · exact .inr (.inr (hsub "https" (by decide) (hprotocol h)))
  · exact .inr (.inr (hsub "://" (by decide) h))
  · exact .inr (.inr (hsub "device.somedomain.com" (by decide) h))
  · exact .inr (.inl h)
  · exact .inr (.inr (hsub " HTTP/1.0" (by decide) h))

theorem requestLine_not_mem {server : Server} (hs : Configured server) {args : RequestArgs} {b : UInt8}
    (hmethod : b ∉ cstr args.httpMethod) (hpath : b ∉ cstr args.path)
    (hfixed : b ∉ ascii " https://device.somedomain.com HTTP/1.0") : b ∉ requestLine server args := by
  intro h
  rcases mem_requestLine hs h with h | h | h
  · exact hmethod h
  · exact hpath h
  · exact hfixed h

/-- **The text of a request**: a request line, the fixed fields, and the rest. -/
theorem requestText_eq {server : Server} (hs : Configured server) (args : RequestArgs)
    (deviceInfo : List UInt8) :
    requestText server args deviceInfo
      = requestLine server args ++ (crlf ++
          (((baseFields deviceInfo).map renderField).flatten ++ requestTail args)) := by
  have hline : cstr (requestLine server args) = requestLine server args :=
    cstr_eq_self (requestLine_not_mem hs (cstr_not_mem_zero _) (cstr_not_mem_zero _) (by decide))
  have hhost : println server.hostHeader = renderField (ascii "Host", ascii "www.azurewebsites.net") := by
    rw [hs.hostHeader]
    decide
  have hinfo : ascii "DeviceInfo: " ++ println deviceInfo
      = renderField (ascii "DeviceInfo", cstr deviceInfo) := by
    simp [println, renderField]
    rfl
  have hagent : println (ascii "User-Agent: ESP32WiFi")
      = renderField (ascii "User-Agent", ascii "ESP32WiFi") := by decide
  have haccept : println (ascii "Accept: */*") = renderField (ascii "Accept", ascii "*/*") := by decide
  have hcache : println (ascii "Cache-Control: no-cache")
      = renderField (ascii "Cache-Control", ascii "no-cache") := by decide
  have hclose : println (ascii "Connection: close")
      = renderField (ascii "Connection", ascii "close") := by decide
  have hurl : println (requestHeaderURL server args) = requestLine server args ++ crlf := by
    rw [println, requestHeaderURL_eq hs, hline]
    rfl
  have htail : requestText server args deviceInfo
      = println (requestHeaderURL server args) ++ println server.hostHeader ++
          println (ascii "User-Agent: ESP32WiFi") ++ println (ascii "Accept: */*") ++
          println (ascii "Cache-Control: no-cache") ++ ascii "DeviceInfo: " ++ println deviceInfo ++
          println (ascii "Connection: close") ++ requestTail args := rfl
  rw [htail, hurl, hhost, hagent, haccept, hcache, hclose, List.append_assoc _ (ascii "DeviceInfo: "),
    hinfo]
  simp [baseFields]

/-! ### Decoding -/

theorem isDigit_toString {n : ℕ} {b : UInt8} (h : b ∈ ascii (toString n)) : isDigit b = true := by
  obtain ⟨c, hc, rfl⟩ := List.mem_map.mp h
  have hdigits : (toString n).toList = Nat.toDigits 10 n := Nat.toList_repr
  rw [hdigits] at hc
  have hdigit := Nat.isDigit_of_mem_toDigits (by decide) (by decide) hc
  simp only [Char.isDigit, Bool.and_eq_true, decide_eq_true_eq, ge_iff_le, UInt32.le_iff_toNat_le]
    at hdigit
  obtain ⟨hlow, hhigh⟩ := hdigit
  have hnat : c.toNat.toUInt8.toNat = c.toNat := by
    have hhigh' : c.toNat ≤ 57 := hhigh
    simp only [Nat.toUInt8, UInt8.toNat_ofNat']
    omega
  simp only [isDigit, Bool.and_eq_true, decide_eq_true_eq, UInt8.le_iff_toNat_le, hnat]
  exact ⟨hlow, hhigh⟩

theorem toString_ne_nil (n : ℕ) : ascii (toString n) ≠ [] := by
  intro h
  have hdigits : (toString n).toList = Nat.toDigits 10 n := Nat.toList_repr
  rw [ascii, hdigits, List.map_eq_nil_iff] at h
  have := Nat.length_toDigits_pos (b := 10) (n := n)
  rw [h] at this
  simp at this

theorem toString_not_mem {n : ℕ} {b : UInt8} (hb : isDigit b = false) : b ∉ ascii (toString n) := by
  intro h
  rw [isDigit_toString h] at hb
  cases hb

theorem oneLine_toString (n : ℕ) : OneLine (ascii (toString n)) :=
  ⟨toString_not_mem (by decide), toString_not_mem (by decide)⟩

/-- The device info is one line if the version of the framework is. -/
theorem oneLine_getDeviceInfo {idfVersion : List UInt8} (h : OneLine idfVersion) (revision : ℕ) :
    OneLine (cstr (getDeviceInfo idfVersion revision)) := by
  have hsub : ∀ l : List UInt8, cstr l <+: l := fun l => List.takeWhile_prefix _
  have hidf : OneLine (cstr idfVersion) :=
    ⟨fun hm => h.1 ((hsub _).subset hm), fun hm => h.2 ((hsub _).subset hm)⟩
  have hinfo : OneLine (getDeviceInfo idfVersion revision) := by
    refine ((((?_ : OneLine _).append hidf).append ?_).append (oneLine_toString _)).append ?_
    all_goals exact ⟨by decide, by decide⟩
  exact ⟨fun hm => hinfo.1 ((hsub _).subset hm), fun hm => hinfo.2 ((hsub _).subset hm)⟩

theorem goodField {name value : List UInt8}
    (hname : name ≠ [] ∧ HttpMessage.blank ∉ name ∧ HttpMessage.colon ∉ name ∧ CR ∉ name ∧ LF ∉ name)
    (hvalue : OneLine value) : GoodField (name, value) :=
  ⟨hname.1, hname.2.1, hname.2.2.1, hname.2.2.2, hvalue⟩

theorem goodField_baseFields {deviceInfo : List UInt8} (h : OneLine (cstr deviceInfo)) :
    ∀ f ∈ baseFields deviceInfo, GoodField f := by
  intro f hf
  simp only [baseFields, List.mem_cons, List.not_mem_nil, or_false] at hf
  rcases hf with rfl | rfl | rfl | rfl | rfl | rfl
  · exact goodField (by decide) ⟨by decide, by decide⟩
  · exact goodField (by decide) ⟨by decide, by decide⟩
  · exact goodField (by decide) ⟨by decide, by decide⟩
  · exact goodField (by decide) ⟨by decide, by decide⟩
  · exact goodField (by decide) h
  · exact goodField (by decide) ⟨by decide, by decide⟩

theorem GoodArgs.oneLine {args : RequestArgs} (h : GoodArgs args) {server : Server}
    (hs : Configured server) : HttpMessage.CR ∉ requestLine server args :=
  requestLine_not_mem hs h.method_token.2.1 h.path_plain.2.1 (by decide)

section Decoding

variable {server : Server} {args : RequestArgs} {deviceInfo : List UInt8}

/-- A request that is a `GET` decodes. -/
theorem decodes_get (hs : Configured server) (hargs : GoodArgs args)
    (hinfo : OneLine (cstr deviceInfo)) (hget : cstr args.httpMethod = ascii "GET") :
    Decodes server args (requestText server args deviceInfo) := by
  have htail : requestTail args = crlf := by
    have heq : strEq args.httpMethod (ascii "GET") = true := by
      rw [strEq, decide_eq_true_eq, hget]
      decide
    rw [requestTail, if_neg (not_not.mpr heq)]
    rfl
  have htext : requestText server args deviceInfo
      = render ⟨requestLine server args, baseFields deviceInfo, []⟩ := by
    rw [requestText_eq hs, htail]
    simp [render]
  refine ⟨⟨requestLine server args, baseFields deviceInfo, []⟩, ?_, rfl, fun _ => rfl,
    fun hne => absurd hget hne⟩
  rw [htext]
  exact HttpMessage.parse_render (hargs.oneLine hs) (goodField_baseFields hinfo)

theorem requestTail_eq (hget : cstr args.httpMethod ≠ ascii "GET") :
    requestTail args = renderField (ascii "Content-Type", ascii "application/json;") ++
      ((if args.body.head? = some 123 then ascii "Content-Length: " else []) ++
        (ascii (toString args.body.length) ++ (crlf ++ (crlf ++ args.body)))) := by
  have heq : ¬strEq args.httpMethod (ascii "GET") = true := by
    rw [strEq, decide_eq_true_eq]
    intro he
    exact hget (he.trans (by decide))
  have htype : println (ascii "Content-Type: application/json;")
      = renderField (ascii "Content-Type", ascii "application/json;") := by decide
  have hdigits : cstr (ascii (toString args.body.length)) = ascii (toString args.body.length) :=
    cstr_eq_self (toString_not_mem (by decide))
  rw [requestTail, if_pos heq, htype, println, hdigits]
  simp only [List.append_assoc]
  rfl

/-- A request with data that begins with an opening brace decodes. -/
theorem decodes_object (hs : Configured server) (hargs : GoodArgs args)
    (hinfo : OneLine (cstr deviceInfo)) (hget : cstr args.httpMethod ≠ ascii "GET")
    (hobject : args.body.head? = some 123) :
    Decodes server args (requestText server args deviceInfo) := by
  have htext : requestText server args deviceInfo
      = render ⟨requestLine server args, baseFields deviceInfo ++
          [(ascii "Content-Type", ascii "application/json;"),
            (ascii "Content-Length", ascii (toString args.body.length))], args.body⟩ := by
    have hlength : ascii "Content-Length: " ++ ascii (toString args.body.length) ++ crlf
        = renderField (ascii "Content-Length", ascii (toString args.body.length)) := by
      simp [renderField]
      rfl
    rw [requestText_eq hs, requestTail_eq hget, if_pos hobject, render]
    simp only [List.map_append, List.map_cons, List.map_nil, List.flatten_append, List.flatten_cons,
      List.flatten_nil, ← hlength, List.append_assoc, List.append_nil]
  refine ⟨⟨requestLine server args, baseFields deviceInfo ++
    [(ascii "Content-Type", ascii "application/json;"),
      (ascii "Content-Length", ascii (toString args.body.length))], args.body⟩, ?_, rfl,
    fun he => absurd he hget, fun _ => ⟨rfl, by simp⟩⟩
  rw [htext]
  refine HttpMessage.parse_render (hargs.oneLine hs) ?_
  intro f hf
  rcases List.mem_append.mp hf with hf | hf
  · exact goodField_baseFields hinfo f hf
  · simp only [List.mem_cons, List.not_mem_nil, or_false] at hf
    rcases hf with rfl | rfl
    · exact goodField (by decide) ⟨by decide, by decide⟩
    · exact goodField (by decide) (oneLine_toString _)

/-- A request with any other data does not parse: the length stands on a line without a name. -/
theorem parse_noObject (hs : Configured server) (hargs : GoodArgs args)
    (hinfo : OneLine (cstr deviceInfo)) (hget : cstr args.httpMethod ≠ ascii "GET")
    (hobject : args.body.head? ≠ some 123) : parse (requestText server args deviceInfo) = none := by
  have hfields : ∀ f ∈ baseFields deviceInfo ++ [(ascii "Content-Type", ascii "application/json;")],
      GoodField f := by
    intro f hf
    rcases List.mem_append.mp hf with hf | hf
    · exact goodField_baseFields hinfo f hf
    · rw [List.mem_singleton.mp hf]
      exact goodField (by decide) ⟨by decide, by decide⟩
  have hline := HttpMessage.parseField_noColon
    (toString_not_mem (by decide) : HttpMessage.colon ∉ ascii (toString args.body.length))
  have hbad : parse (requestLine server args ++ (crlf ++ (((baseFields deviceInfo ++
      [(ascii "Content-Type", ascii "application/json;")]).map renderField).flatten ++
        (ascii (toString args.body.length) ++ (crlf ++ (crlf ++ args.body)))))) = none :=
    HttpMessage.parse_badField (hargs.oneLine hs) hfields (toString_ne_nil _)
      (toString_not_mem (by decide)) hline
  rw [requestText_eq hs, requestTail_eq hget, if_neg hobject, ← hbad]
  simp

end Decoding

/-- **A request decodes back to its arguments exactly for a `GET` or for data that begins with an opening
brace.**  In every run, for every `httpRequest` that connects. -/
theorem httpRequest_decodes_iff (calls : List Call) {s : State} (hrun : runCalls calls = .ok s)
    (args : RequestArgs) (hargs : GoodArgs args) (net : Network) (onError : Script)
    (hwifi : net.wifiConnected = true) (hconn : net.connects = true) (idfVersion : List UInt8)
    (hidf : OneLine idfVersion) (revision : ℕ) (hinfo : net.deviceInfo = getDeviceInfo idfVersion revision)
    (hfits : (requestHeaderURL s.server args).length < requestHeaderSize) :
    ∃ s' text, s.httpRequest args net onError.run = .ok s' ∧
      s'.trace = s.trace ++ [.registered s.requests, .sent s.requests text] ∧
      (Decodes s.server args text ↔ cstr args.httpMethod = ascii "GET" ∨ args.isObject) := by
  have hs := runCalls_configured hrun
  have hone : OneLine (cstr net.deviceInfo) := by
    rw [hinfo]
    exact oneLine_getDeviceInfo hidf revision
  have hsend : s.httpRequest args net onError.run = s.send args net := by
    rw [State.httpRequest, if_neg (not_not.mpr hwifi), if_pos hconn]
  rw [hsend, State.send, if_pos hfits]
  refine ⟨_, requestText s.server args net.deviceInfo, rfl, ?_, ?_⟩
  · simp [State.register, State.log, State.cancelHttpRequest]
  · by_cases hget : cstr args.httpMethod = ascii "GET"
    · exact ⟨fun _ => .inl hget, fun _ => decodes_get hs hargs hone hget⟩
    · by_cases hobject : args.isObject
      · exact ⟨fun _ => .inr hobject, fun _ => decodes_object hs hargs hone hget hobject⟩
      · constructor
        · intro hdecodes
          obtain ⟨m, hm, -⟩ := hdecodes
          rw [parse_noObject hs hargs hone hget hobject] at hm
          cases hm
        · intro h
          exact absurd h (not_or.mpr ⟨hget, hobject⟩)

/-- A `POST` of a text to the given path. -/
def postText (data : List UInt8) : RequestArgs where
  httpMethod := ascii "POST"
  path := ascii "/api"
  data := some data
  processCallback := false

theorem postText_good (data : List UInt8) : GoodArgs (postText data) :=
  ⟨(by decide : cstr (ascii "POST") ≠ []),
    ⟨(by decide : space ∉ cstr (ascii "POST")), (by decide : CR ∉ cstr (ascii "POST")),
      (by decide : LF ∉ cstr (ascii "POST"))⟩,
    ⟨(by decide : space ∉ cstr (ascii "/api")), (by decide : CR ∉ cstr (ascii "/api")),
      (by decide : LF ∉ cstr (ascii "/api"))⟩⟩

/-- A server that is reached, with the device info of a framework version. -/
def Network.reachedBy (idfVersion : List UInt8) : Network :=
  { Network.reached [] with deviceInfo := getDeviceInfo idfVersion 1 }

theorem httpRequest_decodes_iff_post :
    ∃ s' text, State.start.httpRequest (postText (ascii "{}")) (.reachedBy (ascii "v3.3"))
        Script.done.run = .ok s' ∧
      s'.trace = [] ++ [.registered 0, .sent 0 text] ∧
      (Decodes State.start.server (postText (ascii "{}")) text ↔
        cstr (postText (ascii "{}")).httpMethod = ascii "GET" ∨ (postText (ascii "{}")).isObject) :=
  httpRequest_decodes_iff [] rfl (postText (ascii "{}")) (postText_good _) (.reachedBy (ascii "v3.3"))
    .done rfl rfl (ascii "v3.3") ⟨by decide, by decide⟩ 1 rfl (by decide)

/-- A `POST` of an array is not an HTTP message. -/
theorem postArray_malformed :
    ∃ s' text, State.start.httpRequest (postText (ascii "[1]")) (.reachedBy (ascii "v3.3"))
        Script.done.run = .ok s' ∧
      s'.trace = [.registered 0, .sent 0 text] ∧ parse text = none := by
  have hs : Configured State.start.server := ⟨rfl, rfl, .inl rfl⟩
  refine ⟨_, requestText State.start.server (postText (ascii "[1]"))
    (getDeviceInfo (ascii "v3.3") 1), rfl, rfl, ?_⟩
  exact parse_noObject hs (postText_good _) (oneLine_getDeviceInfo ⟨by decide, by decide⟩ 1) (by decide)
    (by decide)

end EspFirmware
