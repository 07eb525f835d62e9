import EspFirmware.FieldValues

/-!
# Foreign header fields

A field whose name is none of the three the header loop knows may still hold one of their texts, in a
longer name or in its value.  The loop searches the whole line, so it takes such a field for the one it
knows, and the last one found counts.

* `Foreign` — a field with another name, on one line;
* `readLength`, `readType`, `readMd5` — what the loop reads from a line, if anything;
* `Unrelated` — what keeps a field without influence at its place;
* `insert_same_iff` — a foreign field leaves the values the process callback gets unchanged exactly then.
-/

namespace EspFirmware

open CString

namespace HeaderField

/-- A field of another name. -/
structure Foreign (g : HeaderField) : Prop extends g.OnLine where
  name_ne : g.name ∉ [contentLength, contentType, xMD5]

/-- Each of the three fields occurs once. -/
def Complete (fields : List HeaderField) : Prop :=
  ∀ name ∈ [contentLength, contentType, xMD5], (fields.filter (·.name = name)).length = 1

instance (fields : List HeaderField) : Decidable (Complete fields) := by
  unfold Complete
  infer_instance

/-- The line of a field as the tests see it. -/
def text (f : HeaderField) : List UInt8 := lineText (LF :: f.line)

/-- The number after sixteen characters of a line that holds the text of a content length. -/
def readLength (f : HeaderField) : Option Long :=
  if strstr f.text (ascii "Content-Length: ") then
    some (atol (getHeaderValue f.text (ascii "Content-Length: ")))
  else none

/-- The first 50 bytes of the second word of a line that holds the text of a content type, and not the
one that is tested before it. -/
def readType (f : HeaderField) : Option (List UInt8) :=
  if strstr f.text (ascii "Content-Length: ") then none
  else if strstr f.text (ascii "Content-Type: ") then (secondToken space f.text).map (List.take 50)
  else none

/-- The same for the checksum, the last text that is tested for. -/
def readMd5 (f : HeaderField) : Option (List UInt8) :=
  if strstr f.text (ascii "Content-Length: ") ∨ strstr f.text (ascii "Content-Type: ") then none
  else if strstr f.text (ascii "x-MD5: ") then (secondToken space f.text).map (List.take 50)
  else none

section Read

variable {β : Type} (read : HeaderField → Option β)

/-- The last field that is read gives `y`. -/
def LastReads (fields : List HeaderField) (y : β) : Prop :=
  ∃ front f back, fields = front ++ f :: back ∧ read f = some y ∧ ∀ f' ∈ back, read f' = none

/-- What is read from `g` does not count: a later field is read too, or the last one before it gives
the same. -/
def Unheard (g : HeaderField) (before after : List HeaderField) : Prop :=
  ∀ y, read g = some y → (∃ f ∈ after, (read f).isSome) ∨ LastReads read before y

end Read

/-- Nothing that is read from `g` counts. -/
structure Unrelated (g : HeaderField) (before after : List HeaderField) : Prop where
  length : Unheard readLength g before after
  type : Unheard readType g before after
  md5 : Unheard readMd5 g before after

/-! ### One member -/

section Member

variable {β : Type} {read : HeaderField → Option β}

theorem lastReads_iff {fields : List HeaderField} {y : β} :
    (fields.filterMap read).getLast? = some y ↔ LastReads read fields y := by
  rw [List.getLast?_filterMap, List.findSome?_eq_some_iff]
  constructor
  · rintro ⟨back, f, front, hsplit, hf, hback⟩
    refine ⟨front.reverse, f, back.reverse, ?_, hf, fun f' hf' => hback f' (by simpa using hf')⟩
    have := congrArg List.reverse hsplit
    simpa using this
  · rintro ⟨front, f, back, rfl, hf, hback⟩
    refine ⟨back.reverse, f, front.reverse, by simp, hf, fun f' hf' => hback f' (by simpa using hf')⟩

theorem getLast?_filterMap_isSome {fields : List HeaderField} :
    ((fields.filterMap read).getLast?).isSome ↔ ∃ f ∈ fields, (read f).isSome := by
  rw [List.getLast?_filterMap, List.findSome?_isSome_iff]
  simp

/-- A value put between others is without influence, whatever the memory behind them, exactly if a later
one stands before it or the earlier one is the same. -/
theorem or_getD_iff {α : Type} {member : α → β} (hmem : ∃ m m', member m ≠ member m')
    (p x q : Option β) :
    (∀ m, (p.or (x.or q)).getD (member m) = (p.or q).getD (member m)) ↔
      ∀ y, x = some y → p.isSome ∨ q = some y := by
  cases p with
  | some a => simp
  | none =>
      cases x with
      | none => simp
      | some y =>
          simp only [Option.none_or, Option.some_or, Option.getD_some, Option.isSome_none,
            Bool.false_eq_true, false_or, Option.some.injEq, forall_eq']
          cases q with
          | some b =>
              obtain ⟨m, -, -⟩ := hmem
              simp only [Option.getD_some, Option.some.injEq]
              exact ⟨fun h => (h m).symm, fun h _ => h.symm⟩
          | none =>
              -- the memory shows through, and some memory is different
              obtain ⟨m, m', hne⟩ := hmem
              simp only [Option.getD_none, reduceCtorEq, iff_false]
              intro h
              exact hne ((h m).symm.trans (h m'))

/-- The member with the field `g` and without it. -/
theorem unheard_iff {α : Type} (read : HeaderField → Option β) (member : α → β)
    (hmem : ∃ m m', member m ≠ member m') (g : HeaderField) (before after : List HeaderField) :
    (∀ m, (((before ++ g :: after).filterMap read).getLast?).getD (member m)
        = (((before ++ after).filterMap read).getLast?).getD (member m)) ↔
      Unheard read g before after := by
  rw [List.filterMap_append, List.filterMap_append, List.getLast?_append, List.getLast?_append,
    getLast?_filterMap_cons, Option.or_assoc, or_getD_iff hmem]
  simp only [getLast?_filterMap_isSome, lastReads_iff]
  rfl

end Member

/-! ### The fields of lines -/

/-- What the loop takes from a line. -/
theorem OnLine.lineField_read {f : HeaderField} (h : f.OnLine) :
    ∃ x, lineField f.text = some x ∧ x.length = f.readLength ∧ x.type = f.readType ∧
      x.md5 = f.readMd5 := by
  obtain ⟨t, -, htext, -⟩ := h.fieldLine.text
  obtain ⟨-, x, hx⟩ := h.fieldLine.field
  refine ⟨x, hx, ?_⟩
  have hstatus : isStatusLine f.text = false := by
    rw [text, htext]
    exact isStatusLine_lf t
  have hword : ∀ token, secondToken space f.text = some token → cstr token = token := fun token htok =>
    cstr_eq_self fun hm => lineText_not_mem_zero _ (mem_of_mem_secondToken htok hm)
  change lineField f.text = some x at hx
  rw [lineField, hstatus, if_neg (by simp)] at hx
  rw [readLength, readType, readMd5]
  split_ifs at hx with h₁ h₂ h₃
  · cases hx
    simp [h₁, Field.length, Field.type, Field.md5]
  · obtain ⟨token, htok, rfl⟩ := Option.map_eq_some_iff.mp hx
    simp [h₁, h₂, htok, hword token htok, Field.length, Field.type, Field.md5]
  · obtain ⟨token, htok, rfl⟩ := Option.map_eq_some_iff.mp hx
    simp [h₁, h₂, h₃, htok, hword token htok, Field.length, Field.type, Field.md5]
  · cases hx
    simp [h₁, h₂, h₃, Field.length, Field.type, Field.md5]

/-- The values of one kind in the lines of a header. -/
theorem filterMap_fieldsOf {β : Type} {value : Field → Option β} {read : HeaderField → Option β}
    (hread : ∀ f : HeaderField, f.OnLine → ∃ x, lineField f.text = some x ∧ value x = read f)
    {fields : List HeaderField} (h : ∀ f ∈ fields, f.OnLine) :
    (fieldsOf (fields.map line)).filterMap value = fields.filterMap read := by
  rw [fieldsOf, List.filterMap_map, List.filterMap_filterMap]
  apply List.filterMap_congr
  intro f hf
  obtain ⟨x, hx, hvalue⟩ := hread f (h f hf)
  change lineField (lineText (LF :: f.line)) = some x at hx
  rw [Function.comp_apply, hx, ← hvalue]
  rfl

section Fields

variable {fields : List HeaderField} (h : ∀ f ∈ fields, f.OnLine)
include h

theorem lengthOf_lines :
    lengthOf (fieldsOf (fields.map line)) = (fields.filterMap readLength).getLast? := by
  rw [lengthOf_eq, filterMap_fieldsOf _ h]
  intro f hf
  obtain ⟨x, hx, hlength, -, -⟩ := hf.lineField_read
  exact ⟨x, hx, hlength⟩

theorem typeOf_lines :
    typeOf (fieldsOf (fields.map line)) = (fields.filterMap readType).getLast? := by
  rw [typeOf_eq, filterMap_fieldsOf _ h]
  intro f hf
  obtain ⟨x, hx, -, htype, -⟩ := hf.lineField_read
  exact ⟨x, hx, htype⟩

theorem md5Of_lines :
    md5Of (fieldsOf (fields.map line)) = (fields.filterMap readMd5).getLast? := by
  rw [md5Of, filterMap_fieldsOf _ h]
  intro f hf
  obtain ⟨x, hx, -, -, hmd5⟩ := hf.lineField_read
  exact ⟨x, hx, hmd5⟩

end Fields

end HeaderField

/-! ### What the callback gets with one more field -/

/-- The three values are the same. -/
structure SameValues (a b : ResponseHeaderData) : Prop where
  contentLength : a.contentLength = b.contentLength
  contentType : a.contentType.str = b.contentType.str
  md5Check : a.md5Check.str = b.md5Check.str

open HeaderField in
/-- The values with the inserted line and without it, whatever the memory held. -/
theorem sameValues_iff {before after : List HeaderField} (h : ∀ f ∈ before ++ after, f.OnLine)
    {g : HeaderField} (hg : g.OnLine) :
    (∀ m, SameValues
        ((fieldsOf ((before ++ g :: after).map line)).foldl Field.store
          ((Field.status (ascii "200")).store m))
        ((fieldsOf ((before ++ after).map line)).foldl Field.store
          ((Field.status (ascii "200")).store m))) ↔
      g.Unrelated before after := by
  have h' : ∀ f ∈ before ++ g :: after, f.OnLine := by
    simp only [List.forall_mem_append, List.forall_mem_cons] at h ⊢
    exact ⟨h.1, hg, h.2⟩
  have hlength := unheard_iff readLength ResponseHeaderData.contentLength
    ⟨.zero, firmwareMemory, by decide⟩ g before after
  have htype := unheard_iff readType (fun m : ResponseHeaderData => m.contentType.str)
    ⟨.zero, filledMemory, by decide⟩ g before after
  have hmd5 := unheard_iff readMd5 (fun m : ResponseHeaderData => m.md5Check.str)
    ⟨.zero, filledMemory, by decide⟩ g before after
  rw [← lengthOf_lines h, ← lengthOf_lines h'] at hlength
  rw [← typeOf_lines h, ← typeOf_lines h'] at htype
  rw [← md5Of_lines h, ← md5Of_lines h'] at hmd5
  constructor
  · intro hsame
    refine ⟨hlength.mp fun m => ?_, htype.mp fun m => ?_, hmd5.mp fun m => ?_⟩
    · have := (hsame m).contentLength
      rwa [foldl_store_contentLength, foldl_store_contentLength] at this
    · have := (hsame m).contentType
      rwa [foldl_store_contentType, foldl_store_contentType] at this
    · have := (hsame m).md5Check
      rwa [foldl_store_md5Check, foldl_store_md5Check] at this
  · intro hun m
    refine ⟨?_, ?_, ?_⟩
    · rw [foldl_store_contentLength, foldl_store_contentLength]
      exact hlength.mpr hun.length m
    · rw [foldl_store_contentType, foldl_store_contentType]
      exact htype.mpr hun.type m
    · rw [foldl_store_md5Check, foldl_store_md5Check]
      exact hmd5.mpr hun.md5 m

/-- The poll runs the process callback on `headerData`. -/
def State.RunsProcess (s : State) (poll : Poll) (headerData : ResponseHeaderData) : Prop :=
  ∃ client, s.handed poll = some (headerData, client) ∧
    ∃ cb, s.callbacks = some cb ∧ s.checkForHttpResponse poll
      = poll.onProcess.run ({ s with client := client }.log (.invoked cb.id (.process headerData))) >>=
          fun s' => .ok { s' with requestIsPending := false }

/-- The request with a response that is there at once. -/
def State.answered (s : State) (st : OkStatus) (fields : List HeaderField) (body : List UInt8) : State :=
  { s with client := (responseBytes st fields body).map .byte }

theorem runsProcess_answered {s : State} {poll : Poll} {id : ℕ} (hs : Awaiting s poll)
    (hcb : s.callbacks = some ⟨id, true⟩) (st : OkStatus) {fields : List HeaderField}
    (h : ∀ f ∈ fields, f.OnLine) (body : List UInt8) :
    (s.answered st fields body).RunsProcess poll
      ((fieldsOf (fields.map HeaderField.line)).foldl Field.store
        ((Field.status (ascii "200")).store poll.headerData)) := by
  have hhanded := handed_fields (s := s.answered st fields body) poll hcb st h body rfl
  have hwait : Awaiting (s.answered st fields body) poll :=
    ⟨hs.pending, hs.sent, hs.inTime, hs.wifi, hs.connected⟩
  exact ⟨_, hhanded, checkForHttpResponse_handed hwait hhanded⟩

/-- The request with a field `g` in its response, and without it: the process callback gets the same
values, whatever the memory of `headerData` held. -/
def State.SameWith (s : State) (poll : Poll) (st : OkStatus) (before : List HeaderField)
    (g : HeaderField) (after : List HeaderField) (body : List UInt8) : Prop :=
  ∀ m, ∃ without withField,
    (s.answered st (before ++ after) body).RunsProcess { poll with headerData := m } without ∧
    (s.answered st (before ++ g :: after) body).RunsProcess { poll with headerData := m } withField ∧
    SameValues withField without

theorem State.RunsProcess.unique {s : State} {poll : Poll} {a b : ResponseHeaderData}
    (ha : s.RunsProcess poll a) (hb : s.RunsProcess poll b) : a = b := by
  obtain ⟨client, hhanded, -⟩ := ha
  obtain ⟨client', hhanded', -⟩ := hb
  have heq := hhanded.symm.trans hhanded'
  exact congrArg Prod.fst (Option.some.inj heq)

/-- **A foreign field has no influence exactly where it is unrelated.**  The field is put anywhere into
the header of a 200 response with fields on lines. -/
theorem insert_same_iff {s : State} {poll : Poll} {id : ℕ} (hs : Awaiting s poll)
    (hcb : s.callbacks = some ⟨id, true⟩) (st : OkStatus) {before after : List HeaderField}
    (hfields : ∀ f ∈ before ++ after, f.OnLine) {g : HeaderField} (hg : g.Foreign)
    (body : List UInt8) :
    s.SameWith poll st before g after body ↔ g.Unrelated before after := by
  have hwith : ∀ f ∈ before ++ g :: after, f.OnLine := by
    simp only [List.forall_mem_append, List.forall_mem_cons] at hfields ⊢
    exact ⟨hfields.1, hg.toOnLine, hfields.2⟩
  have hwait : ∀ m, Awaiting s { poll with headerData := m } := fun m =>
    ⟨hs.pending, hs.sent, hs.inTime, hs.wifi, hs.connected⟩
  have hruns := fun m => runsProcess_answered (hwait m) hcb st hfields body
  have hruns' := fun m => runsProcess_answered (hwait m) hcb st hwith body
  rw [← sameValues_iff hfields hg.toOnLine]
  constructor
  · intro hsame m
    obtain ⟨a, b, ha, hb, hab⟩ := hsame m
    rwa [ha.unique (hruns m), hb.unique (hruns' m)] at hab
  · intro hsame m
    exact ⟨_, _, hruns m, hruns' m, hsame m⟩

/-- The fields of an image with a checksum. -/
def checkedFields : List HeaderField :=
  imageFields ++ [⟨ascii "x-MD5", ascii "9e107d9d372bb6826bd81d3542a419d6"⟩]

/-- A field whose name ends in one the loop looks for. -/
def partLength : HeaderField := ⟨ascii "X-Content-Length", ascii "5"⟩

theorem checkedFields_wellFormed : ∀ f ∈ checkedFields, f.WellFormed := by
  intro f hf
  rcases List.mem_append.mp hf with hf | hf
  · exact imageFields_wellFormed f hf
  · obtain rfl := List.mem_singleton.mp hf
    refine ⟨⟨fun b hb => ?_, by decide⟩, by decide, by decide, ⟨57, by decide, by decide⟩, ?_⟩
    · have hbytes := List.all_eq_true.mp (show (HeaderField.line ⟨ascii "x-MD5",
        ascii "9e107d9d372bb6826bd81d3542a419d6"⟩).all (fun b => b != CR && b != LF && b != 0) = true
          by decide) b hb
      simpa [and_assoc] using hbytes
    · intro name hname
      simp only [List.mem_cons, List.not_mem_nil, or_false] at hname
      rcases hname with rfl | rfl | rfl <;> exact HeaderField.own_of_infix (by decide) (by decide)

theorem partLength_foreign : partLength.Foreign := by
  refine ⟨⟨fun b hb => ?_, by decide⟩, by decide⟩
  have hbytes := List.all_eq_true.mp
    (show partLength.line.all (fun b => b != CR && b != LF && b != 0) = true by decide) b hb
  simpa [and_assoc] using hbytes

/-- Before the field it is taken for, a foreign field does nothing. -/
theorem insert_same_iff_before :
    ∃ s, runCalls [opened true []] = .ok s ∧
      s.SameWith (.at 1) plainOk [] partLength checkedFields [] := by
  obtain ⟨s, hs, hcb, hwait, -, -⟩ := runCalls_opened true []
  have honline : ∀ f ∈ [] ++ checkedFields, f.OnLine := fun f hf =>
    (checkedFields_wellFormed f hf).toOnLine
  have hfound : strstr partLength.text (ascii "Content-Length: ") = true := by decide
  have htype : partLength.readType = none := by rw [HeaderField.readType, if_pos hfound]
  have hmd5 : partLength.readMd5 = none := by rw [HeaderField.readMd5, if_pos (.inl hfound)]
  refine ⟨s, hs, (insert_same_iff hwait hcb plainOk honline partLength_foreign []).mpr ⟨?_, ?_, ?_⟩⟩
  · intro _ _
    exact .inl ⟨⟨ascii "Content-Length", ascii "600000"⟩, by simp [checkedFields, imageFields],
      by decide⟩
  · intro y hy
    rw [htype] at hy
    cases hy
  · intro y hy
    rw [hmd5] at hy
    cases hy

/-- After it, the length of the image is lost. -/
theorem partLength_overwrites :
    (∀ f ∈ checkedFields, f.WellFormed) ∧ HeaderField.Complete checkedFields ∧ partLength.Foreign ∧
    ∃ s, runCalls [opened true []] = .ok s ∧ ∃ without withField,
      (s.answered plainOk checkedFields []).RunsProcess (.at 1) without ∧
      (s.answered plainOk (checkedFields ++ [partLength]) []).RunsProcess (.at 1) withField ∧
      without.contentLength.1 = 600000 ∧ withField.contentLength.1 = 0 ∧
      ¬SameValues withField without := by
  refine ⟨checkedFields_wellFormed, by decide, partLength_foreign, ?_⟩
  obtain ⟨s, hs, hcb, hwait, -, -⟩ := runCalls_opened true []
  have hwell : ∀ f ∈ checkedFields, f.OnLine := fun f hf => (checkedFields_wellFormed f hf).toOnLine
  have hwith : ∀ f ∈ checkedFields ++ [partLength], f.OnLine := by
    intro f hf
    rcases List.mem_append.mp hf with hf | hf
    · exact hwell f hf
    · rw [List.mem_singleton.mp hf]
      exact partLength_foreign.toOnLine
  have ha := runsProcess_answered hwait hcb plainOk hwell []
  have hb := runsProcess_answered hwait hcb plainOk hwith []
  have hla : lengthOf (fieldsOf (checkedFields.map HeaderField.line)) = some ⟨600000, by decide⟩ := by
    decide
  have hlb : lengthOf (fieldsOf ((checkedFields ++ [partLength]).map HeaderField.line))
      = some ⟨0, by decide⟩ := by
    decide
  refine ⟨s, hs, _, _, ha, hb, ?_, ?_, ?_⟩
  · rw [foldl_store_contentLength, hla]
    rfl
  · rw [foldl_store_contentLength, hlb]
    rfl
  · intro h
    have heq := h.contentLength
    rw [foldl_store_contentLength, foldl_store_contentLength, hla, hlb] at heq
    exact absurd heq (by decide)

end EspFirmware
