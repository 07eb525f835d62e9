import EspFirmware.HeaderMemory
import EspFirmware.Segmentation

/-!
# The fields of a well-formed response

A response with a 200 status line and field lines `Name: value`, all of it there when it is polled.
Every line but the first begins with the LF of the line before it, so `getHeaderValue` keeps the blank
before a content length, which `atol` skips.

* `HeaderField`, `HeaderField.WellFormed` — a field line as a server writes it;
* `HeaderField.lineField_eq` — what the header loop takes from it;
* `responseBytes` — the response; `pollResponse_fields` — how a poll reads it;
* `checkForHttpResponse_wellFormed` — the process callback gets the values of the last fields, with the
  LF of the blank line and the body still to be read.
-/

namespace EspFirmware

open CString

/-- A header field. -/
structure HeaderField where
  name : List UInt8
  value : List UInt8

namespace HeaderField

/-- The names the header loop looks for. -/
def contentLength : List UInt8 := ascii "Content-Length"

def contentType : List UInt8 := ascii "Content-Type"

def xMD5 : List UInt8 := ascii "x-MD5"

/-- The field as a line, without its CRLF. -/
def line (f : HeaderField) : List UInt8 := f.name ++ ascii ": " ++ f.value

/-- A field that stands on one line of at most 253 bytes. -/
structure OnLine (f : HeaderField) : Prop where
  plain : ∀ b ∈ f.line, b ≠ CR ∧ b ≠ LF ∧ b ≠ 0
  short : f.line.length ≤ 253

/-- A field of a well-formed response: a name without spaces, a value that is not blank, and the texts
the loop looks for only as the field's own name. -/
structure WellFormed (f : HeaderField) : Prop extends f.OnLine where
  name_nonempty : f.name ≠ []
  name_noSpace : space ∉ f.name
  value_nonblank : ∃ b ∈ f.value, b ≠ space
  own : ∀ name ∈ [contentLength, contentType, xMD5], ∀ u v,
    f.line = u ++ (name ++ ascii ": ") ++ v → u = [] ∧ f.name = name

/-- The first word of a value. -/
def firstWord (value : List UInt8) : List UInt8 :=
  (value.dropWhile (· == space)).takeWhile (· != space)

/-- What a well-formed field tells the header loop. -/
def reads (f : HeaderField) : Field :=
  if f.name = contentLength then .contentLength (atol f.value)
  else if f.name = contentType then .contentType (firstWord f.value)
  else if f.name = xMD5 then .md5Check (firstWord f.value)
  else .other

/-- A field on a line is a header line. -/
theorem OnLine.fieldLine {f : HeaderField} (h : f.OnLine) : FieldLine f.line where
  noCR hm := (h.plain _ hm).1 rfl
  noNul hm := (h.plain _ hm).2.2 rfl
  short := by
    have := h.short
    omega
  nonblank := by
    refine ⟨58, ?_, by decide⟩
    simp only [line, List.mem_append]
    exact .inl (.inr (by decide))

/-! ### Trailing spaces -/

/-- A text is its trimmed end and spaces. -/
theorem eq_rdropWhile_append (v : List UInt8) :
    ∃ spaces : List UInt8, v = v.rdropWhile (· == space) ++ spaces ∧ ∀ b ∈ spaces, b = space := by
  refine ⟨v.rtakeWhile (· == space), ?_, ?_⟩
  · rw [List.rdropWhile, List.rtakeWhile, ← List.reverse_append, List.takeWhile_append_dropWhile,
      List.reverse_reverse]
  · intro b hb
    have := List.mem_rtakeWhile_imp hb
    simpa using this

/-- Spaces at the end stop no scan that a space would stop. -/
theorem takeWhile_append_spaces {p : UInt8 → Bool} (hp : p space = false) {spaces : List UInt8}
    (hs : ∀ b ∈ spaces, b = space) (t : List UInt8) : (t ++ spaces).takeWhile p = t.takeWhile p := by
  have hstop : spaces.takeWhile p = [] := by
    cases spaces with
    | nil => rfl
    | cons b spaces =>
        have hb := hs b (by simp)
        simp [hb, hp]
  rw [List.takeWhile_append]
  split_ifs with hall
  · rw [hstop, List.append_nil]
    exact ((List.takeWhile_prefix _).eq_of_length hall).symm
  · rfl

/-- Spaces at the end do not belong to the first word. -/
theorem firstWord_append_spaces {v spaces : List UInt8} (hv : ∃ b ∈ v, b ≠ space)
    (hs : ∀ b ∈ spaces, b = space) : firstWord (v ++ spaces) = firstWord v := by
  have hne : v.dropWhile (· == space) ≠ [] := by
    intro hnil
    obtain ⟨b, hb, hbs⟩ := hv
    have := List.dropWhile_eq_nil_iff.mp hnil b hb
    exact hbs (by simpa using this)
  rw [firstWord, firstWord, dropWhile_append_of_ne_nil _ hne, takeWhile_append_spaces (by decide) hs]

/-- Spaces at the end do not change a number. -/
theorem atol_append_spaces {v spaces : List UInt8} (hz : (0 : UInt8) ∉ v)
    (hs : ∀ b ∈ spaces, b = space) : atol (v ++ spaces) = atol v := by
  have hz' : (0 : UInt8) ∉ v ++ spaces := by
    intro hm
    rcases List.mem_append.mp hm with hm | hm
    · exact hz hm
    · exact absurd (hs _ hm) (by decide)
  have hstop : ∀ t : List UInt8, (t ++ spaces).takeWhile isDigit = t.takeWhile isDigit :=
    takeWhile_append_spaces (by decide) hs
  rw [atol, atol, cstr_eq_self hz, cstr_eq_self hz']
  by_cases hblank : v.dropWhile isSpace = []
  · have hall : (v ++ spaces).dropWhile isSpace = [] := by
      rw [List.dropWhile_eq_nil_iff] at hblank ⊢
      intro b hb
      rcases List.mem_append.mp hb with hb | hb
      · exact hblank b hb
      · rw [hs b hb]
        decide
    rw [hblank, hall]
  · rw [dropWhile_append_of_ne_nil _ hblank]
    obtain ⟨c, t, hct⟩ := List.exists_cons_of_ne_nil hblank
    rw [hct, List.cons_append]
    split
    · rename_i u heq
      obtain ⟨rfl, rfl⟩ := List.cons.inj heq
      simp only [hstop]
    · rename_i u heq
      obtain ⟨rfl, rfl⟩ := List.cons.inj heq
      simp only [hstop]
    · rename_i h₁ h₂
      have hc := hstop (c :: t)
      rw [List.cons_append] at hc
      rw [hc]
      split
      · rename_i u heq
        exact absurd (by rw [(List.cons.inj heq).1]) (h₁ (t ++ spaces))
      · rename_i u heq
        exact absurd (by rw [(List.cons.inj heq).1]) (h₂ (t ++ spaces))
      · rfl

/-! ### The line of a well-formed field -/

section Line

variable {f : HeaderField}

/-- The value without the spaces at its end, which `strtrim` removes. -/
def trimmed (f : HeaderField) : List UInt8 := f.value.rdropWhile (· == space)

theorem WellFormed.trimmed_nonblank (h : f.WellFormed) : ∃ b ∈ f.trimmed, b ≠ space := by
  obtain ⟨b, hb, hne⟩ := h.value_nonblank
  obtain ⟨spaces, hsplit, hspaces⟩ := eq_rdropWhile_append f.value
  rw [hsplit] at hb
  rcases List.mem_append.mp hb with hb | hb
  · exact ⟨b, hb, hne⟩
  · exact absurd (hspaces b hb) hne

/-- The text the tests see. -/
theorem WellFormed.text (h : f.WellFormed) :
    lineText (LF :: f.line) = LF :: (f.name ++ ascii ":") ++ space :: f.trimmed := by
  have hz : (0 : UInt8) ∉ LF :: f.line := by
    intro hm
    rcases List.mem_cons.mp hm with he | hm
    · exact absurd he (by decide)
    · exact h.fieldLine.noNul hm
  have hvalue : f.value.rdropWhile (· == space) ≠ [] := by
    obtain ⟨b, hb, -⟩ := h.trimmed_nonblank
    exact List.ne_nil_of_mem hb
  have hcolon : ((LF :: (f.name ++ ascii ":")).getLast (by simp) == space) = false := by
    rw [List.getLast_cons (by simp [ascii]), List.getLast_append_of_ne_nil _ (by decide)]
    decide
  have hsplit : LF :: f.line = LF :: (f.name ++ ascii ":") ++ (space :: f.value) := by
    have hsep : ascii ": " = ascii ":" ++ [space] := by decide
    simp [line, hsep]
  have hback : (space :: f.value).rdropWhile (· == space) = space :: f.trimmed :=
    rdropWhile_append_of_ne_nil [space] hvalue
  rw [lineText, trimSpaces, cstr_eq_self hz, hsplit, rdropWhile_append_of_last _ hcolon, hback]
  rfl

/-- The second word of the line is the first word of the value. -/
theorem WellFormed.secondToken (h : f.WellFormed) :
    CString.secondToken space (lineText (LF :: f.line)) = some (firstWord f.value) := by
  have hword : space ∉ LF :: (f.name ++ ascii ":") := by
    intro hm
    rcases List.mem_cons.mp hm with he | hm
    · exact absurd he (by decide)
    · rcases List.mem_append.mp hm with hm | hm
      · exact h.name_noSpace hm
      · exact absurd hm (by decide)
  obtain ⟨spaces, hsplit, hspaces⟩ := eq_rdropWhile_append f.value
  have hfirst : firstWord f.value = firstWord f.trimmed := by
    rw [hsplit]
    exact firstWord_append_spaces h.trimmed_nonblank hspaces
  have hne : f.trimmed.dropWhile (· == space) ≠ [] := by
    intro hnil
    obtain ⟨b, hb, hbs⟩ := h.trimmed_nonblank
    have := List.dropWhile_eq_nil_iff.mp hnil b hb
    exact hbs (by simpa using this)
  obtain ⟨c, t, hct⟩ := List.exists_cons_of_ne_nil hne
  rw [h.text, CString.secondToken, strtok_word (by simp) hword (.inr ⟨_, rfl⟩), hfirst, firstWord]
  simp only [List.drop_succ_cons, List.drop_zero, strtok, hct, Option.map_some]

/-- `atol` of what `getHeaderValue` leaves of the line. -/
theorem WellFormed.length_value (h : f.WellFormed) (hname : f.name = contentLength) :
    atol (getHeaderValue (lineText (LF :: f.line)) (ascii "Content-Length: ")) = atol f.value := by
  have hdrop : getHeaderValue (lineText (LF :: f.line)) (ascii "Content-Length: ")
      = space :: f.trimmed := by
    rw [h.text, hname]
    rfl
  obtain ⟨spaces, hsplit, hspaces⟩ := eq_rdropWhile_append f.value
  have hz : (0 : UInt8) ∉ f.trimmed := by
    intro hm
    have hv : (0 : UInt8) ∈ f.value := by
      rw [hsplit]
      exact List.mem_append_left _ hm
    exact h.fieldLine.noNul (List.mem_append_right _ hv)
  have hskip : atol (space :: f.trimmed) = atol f.trimmed := by
    have hcons : cstr (space :: f.trimmed) = space :: cstr f.trimmed := rfl
    have hspace : isSpace space = true := by decide
    rw [atol, atol, hcons, List.dropWhile_cons_of_pos hspace]
  have hvalue : atol f.value = atol f.trimmed := by
    rw [hsplit]
    exact atol_append_spaces hz hspaces
  rw [hdrop, hskip, hvalue]

/-- A text the loop looks for is found in the line of the field it names and in no other. -/
theorem WellFormed.strstr_iff (h : f.WellFormed) {name : List UInt8}
    (hname : name ∈ [contentLength, contentType, xMD5]) :
    strstr (lineText (LF :: f.line)) (name ++ ascii ": ") = true ↔ f.name = name := by
  have hcstr : cstr (lineText (LF :: f.line)) = lineText (LF :: f.line) :=
    cstr_eq_self (lineText_not_mem_zero _)
  obtain ⟨spaces, hsplit, -⟩ := eq_rdropWhile_append f.value
  have hsep : ascii ": " = ascii ":" ++ [space] := by decide
  have hline : f.line = (f.name ++ ascii ":") ++ space :: f.trimmed ++ spaces := by
    conv_lhs => rw [line, hsplit, hsep]
    simp [trimmed]
  rw [strstr, hcstr, decide_eq_true_eq]
  constructor
  · intro hinfix
    obtain ⟨u, v, huv⟩ := hinfix
    rw [h.text] at huv
    -- the LF in front belongs to none of the texts
    cases u with
    | nil =>
        have hhead : (name ++ ascii ": ").head? = some LF := by
          have := congrArg List.head? huv
          rw [List.nil_append, List.head?_append_of_ne_nil _ (by simp [ascii])] at this
          simpa using this
        simp only [List.mem_cons, List.not_mem_nil, or_false] at hname
        rcases hname with rfl | rfl | rfl <;> exact absurd hhead (by decide)
    | cons b u =>
        simp only [List.cons_append, List.cons.injEq] at huv
        refine (h.own name hname u (v ++ spaces) ?_).2
        rw [hline, ← huv.2]
        simp
  · intro he
    rw [h.text, he, hsep]
    exact ⟨[LF], f.trimmed, by simp⟩

/-- **What the header loop takes from a well-formed field.** -/
theorem WellFormed.lineField_eq (h : f.WellFormed) :
    lineField (lineText (LF :: f.line)) = some f.reads := by
  have hstatus : isStatusLine (lineText (LF :: f.line)) = false := by
    rw [h.text]
    exact isStatusLine_lf _
  have hlength := h.strstr_iff (show contentLength ∈ [contentLength, contentType, xMD5] by simp)
  have htype := h.strstr_iff (show contentType ∈ [contentLength, contentType, xMD5] by simp)
  have hmd5 := h.strstr_iff (show xMD5 ∈ [contentLength, contentType, xMD5] by simp)
  have hl : contentLength ++ ascii ": " = ascii "Content-Length: " := by decide
  have ht : contentType ++ ascii ": " = ascii "Content-Type: " := by decide
  have hm : xMD5 ++ ascii ": " = ascii "x-MD5: " := by decide
  rw [hl] at hlength
  rw [ht] at htype
  rw [hm] at hmd5
  rw [lineField, hstatus, h.secondToken, reads]
  simp only [Bool.false_eq_true, if_false, hlength, htype, hmd5, Option.map_some]
  split_ifs with h₁
  · rw [h.length_value h₁]
  all_goals rfl

end Line

end HeaderField

/-! ### The last field of a name counts -/

section Last

variable {α β : Type}

theorem getLast?_filterMap_cons (g : α → Option β) (a : α) (l : List α) :
    ((a :: l).filterMap g).getLast? = (l.filterMap g).getLast?.or (g a) := by
  cases hg : g a with
  | none =>
      rw [List.filterMap_cons_none hg]
      simp
  | some b =>
      rw [List.filterMap_cons_some hg, List.getLast?_cons]
      cases (l.filterMap g).getLast? <;> rfl

theorem filterMap_ite (p : α → Prop) [DecidablePred p] (h : α → β) (l : List α) :
    l.filterMap (fun a => if p a then some (h a) else none) = (l.filter p).map h := by
  induction l with
  | nil => rfl
  | cons a l ih => by_cases ha : p a <;> simp [ha, ih]

end Last

theorem lengthOf_eq (fields : List Field) : lengthOf fields = (fields.filterMap Field.length).getLast? := by
  induction fields with
  | nil => rfl
  | cons f fields ih => rw [getLast?_filterMap_cons, ← ih, lengthOf]

theorem typeOf_eq (fields : List Field) : typeOf fields = (fields.filterMap Field.type).getLast? := by
  induction fields with
  | nil => rfl
  | cons f fields ih => rw [getLast?_filterMap_cons, ← ih, typeOf]

/-- The checksum a field carries, as the 50 bytes of the member hold it. -/
def Field.md5 : Field → Option (List UInt8)
  | .md5Check value => some ((cstr value).take 50)
  | _ => none

/-- The checksum the fields leave. -/
def md5Of (fields : List Field) : Option (List UInt8) := (fields.filterMap Field.md5).getLast?

theorem md5Of_cons (f : Field) (fields : List Field) :
    md5Of (f :: fields) = (md5Of fields).or f.md5 := getLast?_filterMap_cons _ _ _

theorem foldl_store_md5Check (fields : List Field) (headerData : ResponseHeaderData) :
    (fields.foldl Field.store headerData).md5Check.str
      = (md5Of fields).getD headerData.md5Check.str := by
  induction fields generalizing headerData with
  | nil => rfl
  | cons f fields ih =>
      rw [List.foldl_cons, ih, md5Of_cons]
      cases ht : md5Of fields with
      | some t => rfl
      | none =>
          cases f with
          | md5Check value => exact headerData.md5Check.str_strncpy value
          | status code => rfl
          | contentLength value => rfl
          | contentType value => rfl
          | other => rfl

namespace HeaderField

/-- The last field with a name. -/
def lastNamed (name : List UInt8) (fields : List HeaderField) : Option HeaderField :=
  (fields.filter (·.name = name)).getLast?

theorem filterMap_reads {β : Type} {g : Field → Option β} {name : List UInt8} {h : HeaderField → β}
    (hg : ∀ f : HeaderField, g f.reads = if f.name = name then some (h f) else none)
    (fields : List HeaderField) :
    ((fields.map reads).filterMap g).getLast? = (lastNamed name fields).map h := by
  have hcomp : (fields.map reads).filterMap g
      = fields.filterMap fun f => if f.name = name then some (h f) else none := by
    rw [List.filterMap_map]
    congr 1
    funext f
    exact hg f
  rw [hcomp, filterMap_ite (fun f : HeaderField => f.name = name), List.getLast?_map]
  rfl

theorem names_distinct : contentLength ≠ contentType ∧ contentLength ≠ xMD5 ∧ contentType ≠ xMD5 := by
  decide

theorem lengthOf_reads (fields : List HeaderField) :
    lengthOf (fields.map reads) = (lastNamed contentLength fields).map fun f => atol f.value := by
  rw [lengthOf_eq]
  apply filterMap_reads
  intro f
  rw [reads]
  split_ifs <;> rfl

theorem typeOf_reads (fields : List HeaderField) :
    typeOf (fields.map reads)
      = (lastNamed contentType fields).map fun f => (cstr (firstWord f.value)).take 50 := by
  rw [typeOf_eq]
  apply filterMap_reads
  intro f
  rw [reads]
  split_ifs with h₁ h₂
  · exact absurd (h₁.symm.trans h₂) names_distinct.1
  all_goals rfl

theorem md5Of_reads (fields : List HeaderField) :
    md5Of (fields.map reads)
      = (lastNamed xMD5 fields).map fun f => (cstr (firstWord f.value)).take 50 := by
  rw [md5Of]
  apply filterMap_reads
  intro f
  rw [reads]
  split_ifs with h₁ h₂ h₂ h₃
  · exact absurd (h₁.symm.trans h₂) names_distinct.2.1
  · rfl
  · exact absurd (h₂.symm.trans h₃) names_distinct.2.2
  all_goals rfl

/-- The fields of well-formed lines. -/
theorem fieldsOf_wellFormed {fields : List HeaderField} (h : ∀ f ∈ fields, f.WellFormed) :
    fieldsOf (fields.map line) = fields.map reads := by
  induction fields with
  | nil => rfl
  | cons f fields ih =>
      have hf := (h f (by simp)).lineField_eq
      have hcons : fieldsOf ((f :: fields).map line) = f.reads :: fieldsOf (fields.map line) := by
        simp [fieldsOf, hf]
      rw [hcons, ih fun g hg => h g (by simp [hg]), List.map_cons]

end HeaderField

/-! ### A response that is there at once -/

/-- The status line of a 200 response. -/
structure OkStatus where
  minor : UInt8
  reason : List UInt8
  minor_digit : isDigit minor = true
  reason_noCR : CR ∉ reason
  short : (statusLine minor (ascii "200") reason).length ≤ 253

/-- The line itself. -/
def OkStatus.line (st : OkStatus) : List UInt8 := statusLine st.minor (ascii "200") st.reason

/-- Everything the server sends. -/
def responseBytes (st : OkStatus) (fields : List HeaderField) (body : List UInt8) : List UInt8 :=
  st.line ++ [CR, LF] ++ (fields.map fun f => f.line ++ [CR, LF]).flatten ++ [CR, LF] ++ body

theorem responseBytes_eq (st : OkStatus) (fields : List HeaderField) (body : List UInt8) :
    responseBytes st fields body
      = st.line ++ CR :: unlines (headerLines (fields.map HeaderField.line)) (LF :: body) := by
  rw [unlines_headerLines, responseBytes, List.map_map]
  simp [Function.comp_def]

theorem deliver_atOnce (i : ℕ) (bytes : List UInt8) : deliver atOnce i bytes = bytes.map .byte := by
  induction bytes generalizing i with
  | nil => rfl
  | cons b bytes ih =>
      rw [deliver, ih]
      rfl

namespace OkStatus

variable (st : OkStatus)

theorem noCR : CR ∉ st.line := by
  intro hm
  simp only [line, statusLine, List.mem_append, List.mem_cons] at hm
  rcases hm with hm | hm | hm | hm | hm | hm
  · exact absurd hm (by decide)
  · exact ne_of_isDigit st.minor_digit (by decide) hm.symm
  · exact absurd hm (by decide)
  · exact absurd hm (by decide)
  · exact absurd hm (by decide)
  · exact st.reason_noCR hm

/-- The reason may be cut at a NUL; the rest of the line is not. -/
theorem lineText_line : lineText st.line = lineText (statusLine st.minor (ascii "200") (cstr st.reason)) := by
  have hminor : st.minor ≠ 0 := ne_of_isDigit st.minor_digit (by decide)
  have hstart : ∀ reason, cstr (statusLine st.minor (ascii "200") reason)
      = statusLine st.minor (ascii "200") (cstr reason) := by
    intro reason
    simp [statusLine, cstr, ascii, hminor, space]
  rw [lineText, lineText, line, hstart, hstart, cstr_cstr]

/-- The status line is stored and the loop goes on. -/
theorem headerLine_next (headerData : ResponseHeaderData) :
    headerLine false headerData st.line
      = .ok (.next true ((Field.status (ascii "200")).store headerData)) := by
  have hlen : st.line.length < lineSize := by
    have := st.short
    simp only [line, lineSize]
    omega
  obtain ⟨m, htext, hm⟩ := lineText_statusLine (ne_of_isDigit st.minor_digit (by decide))
    (by decide : ascii "200" ≠ []) (by decide) (by decide) (cstr_not_mem_zero st.reason)
  have hm' : m = [] ∨ ∃ t, m = space :: t := by
    cases m with
    | nil => exact .inl rfl
    | cons b t => exact .inr ⟨t, by rw [(List.cons_prefix_cons.mp hm).1]⟩
  rw [← lineText_line] at htext
  have hz := lineText_not_mem_zero st.line
  have hstatus : isStatusLine (lineText st.line) = true := by
    rw [isStatusLine, startsWith, cstr_eq_self hz, decide_eq_true_eq, htext]
    exact List.prefix_append _ _
  have htok : secondToken space (lineText st.line) = some (ascii "200") := by
    rw [htext]
    exact secondToken_statusLine (ne_of_isDigit st.minor_digit (by decide)) (by decide) (by decide) hm'
  have hone : (lineText st.line).length ≠ 1 := by
    rw [htext]
    simp [ascii]
  refine (headerLine_next_iff hlen.le).mpr ⟨.inl hlen, hone, .inr hstatus, rfl, _, ?_, rfl⟩
  rw [lineField, if_pos hstatus, htok, if_pos rfl]

end OkStatus

/-- **A poll reads the header to its blank line.**  The process callback gets the memory with the fields
stored; the LF of the blank line and the body are still there. -/
theorem pollResponse_fields (st : OkStatus) {fields : List HeaderField} (h : ∀ f ∈ fields, f.OnLine)
    (body : List UInt8) (headerData : ResponseHeaderData) (buffer : CharArray responseSize) :
    pollResponse true headerData buffer ((responseBytes st fields body).map .byte)
      = .ok (.process
          ((fieldsOf (fields.map HeaderField.line)).foldl Field.store
            ((Field.status (ascii "200")).store headerData))
          ((LF :: body).map .byte)) := by
  have hlines : ∀ line ∈ fields.map HeaderField.line, FieldLine line := by
    intro line hline
    obtain ⟨f, hf, rfl⟩ := List.mem_map.mp hline
    exact (h f hf).fieldLine
  have hlen : st.line.length < lineSize := by
    have := st.short
    simp only [OkStatus.line, lineSize]
    omega
  obtain ⟨hav, hread⟩ := readLine_deliver st.noCR hlen (show atOnce 0 = [] from rfl)
    (fun _ _ _ => by simp [atOnce]) (unlines (headerLines (fields.map HeaderField.line)) (LF :: body))
  have hsame : (Arrival.available ((responseBytes st fields body).map .byte)).2
      = (responseBytes st fields body).map .byte := rfl
  rw [← responseBytes_eq, deliver_atOnce] at hav hread
  rw [pollResponse_process_iff]
  refine ⟨rfl, hav, ?_⟩
  rw [hsame, readHeaders, dif_neg hav, hread, st.headerLine_next]
  show readHeaders true _ _ = _
  rw [readHeaders_joined hlines _ _ _ (patient_atOnce _ _) (joined_atOnce _ _), deliver_atOnce]

/-! ### What the process callback gets -/

/-- What a poll hands to the process callback, and what is left on the connection then. -/
def State.handed (s : State) (poll : Poll) : Option (ResponseHeaderData × List Arrival) :=
  match s.callbacks with
  | none => none
  | some cb =>
      match pollResponse cb.process poll.headerData s.responseBuffer s.client with
      | .ok (.process headerData client) => some (headerData, client)
      | _ => none

/-- What is handed over is what the callback runs on. -/
theorem checkForHttpResponse_handed {s : State} {poll : Poll} {headerData : ResponseHeaderData}
    {client : List Arrival} (h : Awaiting s poll) (hhanded : s.handed poll = some (headerData, client)) :
    ∃ cb, s.callbacks = some cb ∧ s.checkForHttpResponse poll
      = poll.onProcess.run ({ s with client := client }.log (.invoked cb.id (.process headerData))) >>=
          fun s' => .ok { s' with requestIsPending := false } := by
  rw [State.handed] at hhanded
  split at hhanded
  · cases hhanded
  · rename_i cb hcb
    refine ⟨cb, hcb, ?_⟩
    split at hhanded
    · rename_i headerData' client' hpoll
      cases hhanded
      rw [checkForHttpResponse_awaiting h hcb, hpoll]
      rfl
    · cases hhanded

/-- A response with fields on lines is handed over with these fields stored. -/
theorem handed_fields {s : State} (poll : Poll) {id : ℕ} (hcb : s.callbacks = some ⟨id, true⟩)
    (st : OkStatus) {fields : List HeaderField} (h : ∀ f ∈ fields, f.OnLine) (body : List UInt8)
    (hclient : s.client = (responseBytes st fields body).map .byte) :
    s.handed poll = some
      ((fieldsOf (fields.map HeaderField.line)).foldl Field.store
        ((Field.status (ascii "200")).store poll.headerData), (LF :: body).map .byte) := by
  have hpoll := pollResponse_fields st h body poll.headerData s.responseBuffer
  rw [← hclient] at hpoll
  rw [State.handed, hcb]
  simp only [hpoll]

/-- The values of a header agree with the last fields of their names. -/
structure Parsed (fields : List HeaderField) (headerData : ResponseHeaderData) : Prop where
  contentLength : ∀ f, HeaderField.lastNamed HeaderField.contentLength fields = some f →
    f.value ≠ [] → (∀ b ∈ f.value, isDigit b = true) → decimal f.value < 2 ^ 31 →
      headerData.contentLength.1 = decimal f.value
  contentType : ∀ f, HeaderField.lastNamed HeaderField.contentType fields = some f →
    (HeaderField.firstWord f.value).length < 50 →
      headerData.contentType.str = HeaderField.firstWord f.value
  md5Check : ∀ f, HeaderField.lastNamed HeaderField.xMD5 fields = some f →
    (HeaderField.firstWord f.value).length < 50 →
      headerData.md5Check.str = HeaderField.firstWord f.value

namespace HeaderField

theorem OnLine.cstr_firstWord {f : HeaderField} (h : f.OnLine) :
    cstr (firstWord f.value) = firstWord f.value := by
  apply cstr_eq_self
  intro hm
  have hv : (0 : UInt8) ∈ f.value :=
    (List.dropWhile_sublist _).subset ((List.takeWhile_sublist _).subset hm)
  exact h.fieldLine.noNul (List.mem_append_right _ hv)

theorem mem_of_lastNamed {name : List UInt8} {fields : List HeaderField} {f : HeaderField}
    (h : lastNamed name fields = some f) : f ∈ fields ∧ f.name = name := by
  have hm := List.mem_of_getLast? h
  simpa using List.mem_filter.mp hm

end HeaderField

/-- The fields of a well-formed response, stored. -/
theorem parsed_of_wellFormed {fields : List HeaderField} (h : ∀ f ∈ fields, f.WellFormed)
    (headerData : ResponseHeaderData) :
    Parsed fields ((fieldsOf (fields.map HeaderField.line)).foldl Field.store headerData) where
  contentLength f hf hne hdigits hsmall := by
    rw [HeaderField.fieldsOf_wellFormed h, foldl_store_contentLength, HeaderField.lengthOf_reads, hf]
    exact atol_numeral hne hdigits hsmall
  contentType f hf hshort := by
    have hword := (h f (HeaderField.mem_of_lastNamed hf).1).cstr_firstWord
    rw [HeaderField.fieldsOf_wellFormed h, foldl_store_contentType, HeaderField.typeOf_reads, hf]
    show (cstr (HeaderField.firstWord f.value)).take 50 = _
    rw [hword, List.take_of_length_le hshort.le]
  md5Check f hf hshort := by
    have hword := (h f (HeaderField.mem_of_lastNamed hf).1).cstr_firstWord
    rw [HeaderField.fieldsOf_wellFormed h, foldl_store_md5Check, HeaderField.md5Of_reads, hf]
    show (cstr (HeaderField.firstWord f.value)).take 50 = _
    rw [hword, List.take_of_length_le hshort.le]

/-- **Header parsing is correct on well-formed responses.**  Whatever the state of the request manager
and the memory of `headerData`, the poll of a request with a process callback reads the header up to the
CR of its blank line and runs the callback on the values of the last fields. -/
theorem checkForHttpResponse_wellFormed {s : State} {poll : Poll} {id : ℕ} (hs : Awaiting s poll)
    (hcb : s.callbacks = some ⟨id, true⟩) (st : OkStatus) {fields : List HeaderField}
    (hfields : ∀ f ∈ fields, f.WellFormed) (body : List UInt8)
    (hclient : s.client = (responseBytes st fields body).map .byte) :
    ∃ headerData, Parsed fields headerData ∧
      s.handed poll = some (headerData, (LF :: body).map .byte) ∧
      s.checkForHttpResponse poll
        = poll.onProcess.run ({ s with client := (LF :: body).map .byte }.log
            (.invoked id (.process headerData))) >>=
              fun s' => .ok { s' with requestIsPending := false } := by
  have hhanded := handed_fields poll hcb st (fun f hf => (hfields f hf).toOnLine) body hclient
  obtain ⟨cb, hcb', hcheck⟩ := checkForHttpResponse_handed hs hhanded
  obtain rfl : ⟨id, true⟩ = cb := Option.some.inj (hcb.symm.trans hcb')
  exact ⟨_, parsed_of_wellFormed hfields _, hhanded, hcheck⟩

/-- A field whose line holds no other text the loop looks for. -/
theorem HeaderField.own_of_infix {f : HeaderField} {name : List UInt8}
    (hinside : ¬name ++ ascii ": " <:+: f.line.tail) (hstart : name ++ ascii ": " <+: f.line → f.name = name)
    (u v : List UInt8) (h : f.line = u ++ (name ++ ascii ": ") ++ v) : u = [] ∧ f.name = name := by
  cases u with
  | nil => exact ⟨rfl, hstart ⟨v, by rw [h, List.nil_append]⟩⟩
  | cons b u =>
      refine absurd ⟨u, v, ?_⟩ hinside
      rw [h]
      rfl

/-- A memory without a NUL. -/
def filledMemory : ResponseHeaderData where
  contentLength := Long.zero
  statusCode := ⟨List.replicate 10 65, by decide⟩
  contentType := ⟨List.replicate 50 65, by decide⟩
  md5Check := ⟨List.replicate 50 65, by decide⟩

/-- The fields of a firmware image. -/
def imageFields : List HeaderField :=
  [⟨ascii "Content-Length", ascii "600000"⟩, ⟨ascii "Content-Type", ascii "application/octet-stream"⟩]

def plainOk : OkStatus where
  minor := 49
  reason := ascii "OK"
  minor_digit := shortResponse.minor_digit
  reason_noCR := shortResponse.reason_noCR
  short := by decide

theorem imageFields_wellFormed : ∀ f ∈ imageFields, f.WellFormed := by
  have hbytes : ∀ f ∈ imageFields, (f.line.all fun b => b != CR && b != LF && b != 0) = true :=
    List.all_eq_true.mp (by decide)
  have hown : ∀ f ∈ imageFields, ∀ name ∈ [HeaderField.contentLength, HeaderField.contentType,
      HeaderField.xMD5], ¬name ++ ascii ": " <:+: f.line.tail ∧
        (name ++ ascii ": " <+: f.line → f.name = name) := by
    simp only [imageFields, List.mem_cons, List.not_mem_nil, or_false, forall_eq_or_imp, forall_eq]
    decide
  intro f hf
  have hshape : f.line.length ≤ 253 ∧ f.name ≠ [] ∧ space ∉ f.name ∧ f.value.all (· == space) = false := by
    simp only [imageFields, List.mem_cons, List.not_mem_nil, or_false] at hf
    rcases hf with rfl | rfl <;> decide
  refine ⟨⟨fun b hb => ?_, hshape.1⟩, hshape.2.1, hshape.2.2.1, ?_, fun name hname =>
    HeaderField.own_of_infix (hown f hf name hname).1 (hown f hf name hname).2⟩
  · have := List.all_eq_true.mp (hbytes f hf) b hb
    simpa [and_assoc] using this
  · have := List.all_eq_false.mp hshape.2.2.2
    simpa using this

/-- The header of an image is handed over with its length and type. -/
theorem checkForHttpResponse_wellFormed_image :
    ∃ s, runCalls [opened true ((responseBytes plainOk imageFields (ascii "image")).map .byte)] = .ok s ∧
      ∃ headerData, s.handed (.at 1) = some (headerData, (ascii "\nimage").map .byte) ∧
        headerData.contentLength.1 = 600000 ∧
        headerData.contentType.str = ascii "application/octet-stream" := by
  obtain ⟨s, hs, hcb, hwait, hclient, -⟩ :=
    runCalls_opened true ((responseBytes plainOk imageFields (ascii "image")).map .byte)
  obtain ⟨headerData, hparsed, hhanded, -⟩ := checkForHttpResponse_wellFormed hwait hcb plainOk
    imageFields_wellFormed (ascii "image") hclient
  refine ⟨s, hs, headerData, hhanded, ?_, ?_⟩
  · exact hparsed.contentLength ⟨ascii "Content-Length", ascii "600000"⟩ rfl (by decide)
      (List.all_eq_true.mp (by decide)) (by decide)
  · exact hparsed.contentType ⟨ascii "Content-Type", ascii "application/octet-stream"⟩ rfl (by decide)

end EspFirmware
