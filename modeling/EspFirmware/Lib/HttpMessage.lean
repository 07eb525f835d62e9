import Mathlib.Data.List.Basic
import Mathlib.Tactic.Common

/-!
# HTTP/1 messages

The grammar of a message: a start line, field lines `name: value`, an empty line and a body, each line
ended by CRLF.  `parse` is the decoder of the grammar and `render` writes a message out.

* `takeLine` — the bytes before the first CRLF and those after it;
* `parseField` — a field line split at its first `": "`; a name is not empty and holds no blank or colon;
* `parse_render` — a well-formed message decodes back to itself;
* `parse_badField` — after any fields, a line that is no field line spoils the message.
-/

namespace HttpMessage

def CR : UInt8 := 13
def LF : UInt8 := 10
def colon : UInt8 := 58
def blank : UInt8 := 32

/-- A decoded message. -/
structure Message where
  startLine : List UInt8
  fields : List (List UInt8 × List UInt8)
  body : List UInt8
  deriving DecidableEq

/-- The first line and what follows its CRLF. -/
def takeLine : List UInt8 → Option (List UInt8 × List UInt8)
  | [] => none
  | b :: text =>
      if b = CR ∧ text.head? = some LF then some ([], text.tail)
      else (takeLine text).map fun r => (b :: r.1, r.2)

/-- Split at the first `": "`. -/
def splitField : List UInt8 → Option (List UInt8 × List UInt8)
  | [] => none
  | b :: text =>
      if b = colon ∧ text.head? = some blank then some ([], text.tail)
      else (splitField text).map fun r => (b :: r.1, r.2)

/-- A field line. -/
def parseField (line : List UInt8) : Option (List UInt8 × List UInt8) :=
  match splitField line with
  | none => none
  | some (name, value) =>
      if name ≠ [] ∧ blank ∉ name ∧ colon ∉ name then some (name, value) else none

theorem takeLine_length {text line rest : List UInt8} (h : takeLine text = some (line, rest)) :
    rest.length < text.length := by
  induction text generalizing line rest with
  | nil => cases h
  | cons b text ih =>
      rw [takeLine] at h
      split_ifs at h with hend
      · cases h
        simp only [List.length_tail, List.length_cons]
        omega
      · obtain ⟨⟨line', rest'⟩, hr, heq⟩ := Option.map_eq_some_iff.mp h
        cases heq
        have := ih hr
        simp only [List.length_cons]
        omega

/-- The field lines up to the empty line, and the body after it. -/
def parseFields (text : List UInt8) : Option (List (List UInt8 × List UInt8) × List UInt8) :=
  match _h : takeLine text with
  | none => none
  | some (line, rest) =>
      if line = [] then some ([], rest)
      else
        match parseField line with
        | none => none
        | some f => (parseFields rest).map fun r => (f :: r.1, r.2)
termination_by text.length
decreasing_by exact takeLine_length _h

/-- A whole message. -/
def parse (text : List UInt8) : Option Message :=
  match takeLine text with
  | none => none
  | some (startLine, rest) =>
      (parseFields rest).map fun r => ⟨startLine, r.1, r.2⟩

/-! ### Writing a message -/

def crlf : List UInt8 := [CR, LF]

def renderField (f : List UInt8 × List UInt8) : List UInt8 := f.1 ++ colon :: blank :: f.2 ++ crlf

def render (m : Message) : List UInt8 :=
  m.startLine ++ crlf ++ (m.fields.map renderField).flatten ++ crlf ++ m.body

/-- A text that fits on a line. -/
def OneLine (text : List UInt8) : Prop := CR ∉ text ∧ LF ∉ text

/-- A field that can be written on a line. -/
structure GoodField (f : List UInt8 × List UInt8) : Prop where
  nonempty : f.1 ≠ []
  noBlank : blank ∉ f.1
  noColon : colon ∉ f.1
  name : OneLine f.1
  value : OneLine f.2

theorem OneLine.append {a b : List UInt8} (ha : OneLine a) (hb : OneLine b) : OneLine (a ++ b) :=
  ⟨by simp [ha.1, hb.1], by simp [ha.2, hb.2]⟩

theorem takeLine_line {line : List UInt8} (h : CR ∉ line) (rest : List UInt8) :
    takeLine (line ++ (crlf ++ rest)) = some (line, rest) := by
  induction line with
  | nil => rfl
  | cons b line ih =>
      simp only [List.mem_cons, not_or] at h
      have hb : ¬(b = CR ∧ (line ++ (crlf ++ rest)).head? = some LF) := fun hc => h.1 hc.1.symm
      rw [List.cons_append, takeLine, if_neg hb, ih h.2]
      rfl

theorem splitField_eq {name : List UInt8} (h : colon ∉ name) (value : List UInt8) :
    splitField (name ++ colon :: blank :: value) = some (name, value) := by
  induction name with
  | nil => rfl
  | cons b name ih =>
      simp only [List.mem_cons, not_or] at h
      have hb : ¬(b = colon ∧ (name ++ colon :: blank :: value).head? = some blank) :=
        fun hc => h.1 hc.1.symm
      rw [List.cons_append, splitField, if_neg hb, ih h.2]
      rfl

theorem parseField_eq {f : List UInt8 × List UInt8} (h : GoodField f) :
    parseField (f.1 ++ colon :: blank :: f.2) = some f := by
  rw [parseField, splitField_eq h.noColon]
  simp only
  rw [if_pos ⟨h.nonempty, h.noBlank, h.noColon⟩]

/-- A line without a colon is no field line. -/
theorem parseField_noColon {line : List UInt8} (h : colon ∉ line) : parseField line = none := by
  have hsplit : splitField line = none := by
    induction line with
    | nil => rfl
    | cons b line ih =>
        simp only [List.mem_cons, not_or] at h
        have hb : ¬(b = colon ∧ line.head? = some blank) := fun hc => h.1 hc.1.symm
        rw [splitField, if_neg hb, ih h.2]
        rfl
  rw [parseField, hsplit]

theorem parseFields_line {line : List UInt8} (hline : CR ∉ line) (rest : List UInt8) :
    parseFields (line ++ (crlf ++ rest)) =
      if line = [] then some ([], rest)
      else
        match parseField line with
        | none => none
        | some f => (parseFields rest).map fun r => (f :: r.1, r.2) := by
  rw [parseFields]
  split
  · rename_i h
    rw [takeLine_line hline] at h
    cases h
  · rename_i line' rest' h
    rw [takeLine_line hline] at h
    cases h
    rfl

theorem parseFields_cons {f : List UInt8 × List UInt8} (h : GoodField f) (rest : List UInt8) :
    parseFields (renderField f ++ rest) = (parseFields rest).map fun r => (f :: r.1, r.2) := by
  have hline : CR ∉ f.1 ++ colon :: blank :: f.2 := by
    intro hm
    simp only [List.mem_append, List.mem_cons] at hm
    rcases hm with hm | hm | hm | hm
    · exact h.name.1 hm
    · exact absurd hm (by decide)
    · exact absurd hm (by decide)
    · exact h.value.1 hm
  have hne : f.1 ++ colon :: blank :: f.2 ≠ [] := by simp
  rw [renderField, List.append_assoc, parseFields_line hline, if_neg hne, parseField_eq h]

/-- Fields are decoded one after another. -/
theorem parseFields_append {fields : List (List UInt8 × List UInt8)} (h : ∀ f ∈ fields, GoodField f)
    (rest : List UInt8) :
    parseFields ((fields.map renderField).flatten ++ rest)
      = (parseFields rest).map fun r => (fields ++ r.1, r.2) := by
  induction fields with
  | nil => simp
  | cons f fields ih =>
      rw [List.map_cons, List.flatten_cons, List.append_assoc,
        parseFields_cons (h f List.mem_cons_self), ih fun g hg => h g (List.mem_cons_of_mem _ hg)]
      cases parseFields rest <;> rfl

theorem parseFields_end (body : List UInt8) : parseFields (crlf ++ body) = some ([], body) := by
  have h := parseFields_line (List.not_mem_nil : CR ∉ ([] : List UInt8)) body
  simpa using h

/-- **A well-formed message decodes back to itself.** -/
theorem parse_render {m : Message} (hstart : CR ∉ m.startLine) (hfields : ∀ f ∈ m.fields, GoodField f) :
    parse (render m) = some m := by
  have htext : render m = m.startLine ++ (crlf ++ ((m.fields.map renderField).flatten ++
      (crlf ++ m.body))) := by
    simp [render]
  rw [htext, parse, takeLine_line hstart]
  simp only
  rw [parseFields_append hfields, parseFields_end]
  simp

/-- **A line that is no field line spoils the message.** -/
theorem parse_badField {startLine line rest : List UInt8} {fields : List (List UInt8 × List UInt8)}
    (hstart : CR ∉ startLine) (hfields : ∀ f ∈ fields, GoodField f) (hne : line ≠ [])
    (hline : CR ∉ line) (hbad : parseField line = none) :
    parse (startLine ++ (crlf ++ ((fields.map renderField).flatten ++ (line ++ (crlf ++ rest)))))
      = none := by
  rw [parse, takeLine_line hstart]
  simp only
  rw [parseFields_append hfields, parseFields_line hline, if_neg hne, hbad]
  rfl

end HttpMessage
