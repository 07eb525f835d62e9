import EspFirmware.UpdateUnknown

/-!
# Updates written from a source

The third way to write an update: a template for any object with `available` and `read`, which takes what is
there and no more than the update needs.  As long as the update is not complete it does what `write` does
with the same bytes.  On a complete update it still flushes, an empty buffer, and erases a sector.

* `Source.available`, `Source.read` — an object that has its bytes ready in chunks;
* `writeFromLoop`, `writeFrom` — the template `UpdateClass::write<T>`;
* `writesFrom_eq_write` — it agrees with `write`, however the bytes come in chunks;
* `updateFrom_overfed` — a call on a complete update wipes its last sector, and `end` commits what is left.
-/

namespace EspFirmware

open NorFlash CString

/-- The chunks an object has ready; nothing is available behind an empty one. -/
abbrev Source := List (List UInt8)

namespace Source

/-- `available()`: the length of the chunk that is ready. -/
def available : Source → ℕ
  | [] => 0
  | c :: _ => c.length

/-- `read(buffer, n)`, for no more than is available. -/
def read (n : ℕ) : Source → List UInt8 × Source
  | [] => ([], [])
  | c :: cs => (c.take n, if c.length ≤ n then cs else c.drop n :: cs)

variable {c : List UInt8} {cs : Source} {k : ℕ}

theorem available_cons (hc : c ≠ []) : ¬available (c :: cs) = 0 := by
  simpa [available] using hc

theorem read_part (hk : k < c.length) : read k (c :: cs) = (c.take k, c.drop k :: cs) := by
  rw [read, if_neg (by omega)]

theorem read_all (c : List UInt8) (cs : Source) : read c.length (c :: cs) = (c, cs) := by
  rw [read, if_pos le_rfl, List.take_length]

/-- The bytes that are read, and those that are not, are the bytes of the source. -/
theorem read_flatten (hk : k ≤ c.length) : (read k (c :: cs)).2.flatten = c.drop k ++ cs.flatten := by
  rcases hk.lt_or_eq with hlt | rfl
  · rw [read_part hlt, List.flatten_cons]
  · rw [read_all, List.drop_length, List.nil_append]

end Source

namespace UpdateClass

/-- What of the available bytes the update needs, in 32-bit `size_t` arithmetic. -/
def needed (u : UpdateClass) (available : ℕ) : ℕ :=
  if u.remaining < u.buffer.length + available then wrap32 (2 ^ 32 + u.remaining - u.buffer.length)
  else available

/-- The `while` loop of the template: a round reads a byte or empties a full buffer, so that twice as many
rounds as there are bytes, and two, are enough. -/
def writeFromLoop (env : OtaEnv) : ℕ → ℕ → UpdateClass → World → Source →
    ℕ × UpdateClass × World × Source
  | 0, written, u, w, src => (written, u, w, src)
  | rounds + 1, written, u, w, src =>
      if Source.available src = 0 then (written, u, w, src)
      else
        let available := u.needed (Source.available src)
        if secSize < u.buffer.length + available then
          let toBuff := secSize - u.buffer.length
          match (u.fill (Source.read toBuff src).1).writeBuffer env w with
          | (false, u', w') => (written, u', w', (Source.read toBuff src).2)
          | (true, u', w') =>
              if u'.remaining = 0 then (written + toBuff, u', w', (Source.read toBuff src).2)
              else writeFromLoop env rounds (written + toBuff) u' w' (Source.read toBuff src).2
        else
          let u₁ := u.fill (Source.read available src).1
          match (if u₁.buffer.length = u₁.remaining then u₁.writeBuffer env w else (true, u₁, w)) with
          | (false, u', w') => (written + available, u', w', (Source.read available src).2)
          | (true, u', w') =>
              if u'.remaining = 0 then (written + available, u', w', (Source.read available src).2)
              else writeFromLoop env rounds (written + available) u' w' (Source.read available src).2

/-- `write(data)` for a source: the amount written, and what is left of the source. -/
def writeFrom (env : OtaEnv) (u : UpdateClass) (w : World) (src : Source) :
    ℕ × UpdateClass × World × Source :=
  if u.hasError ∨ ¬u.isRunning then (0, u, w, src)
  else writeFromLoop env (2 * src.flatten.length + 2) 0 u w src

variable {env : OtaEnv} {u u' : UpdateClass} {w w' : World} {c : List UInt8} {cs src : Source}
variable {rounds written k : ℕ}

/-! ### The rounds -/

theorem Taking.needed_eq (h : Taking u 1) (k : ℕ) :
    u.needed k = min k (u.remaining - u.buffer.length) := by
  have hfits := h.fits
  have hsmall := h.small
  have hrem := h.remaining_eq
  rw [needed, wrap32]
  split_ifs <;> omega

theorem writeFromLoop_empty : writeFromLoop env (rounds + 1) written u w [] = (written, u, w, []) := rfl

/-- A round that fills the sector, and cannot flush it. -/
theorem writeFromLoop_failed (hc : c ≠ []) (hlt : secSize < u.buffer.length + u.needed c.length)
    (hmore : secSize - u.buffer.length < c.length) (hw : (u.topUp c).writeBuffer env w = (false, u', w')) :
    writeFromLoop env (rounds + 1) written u w (c :: cs)
      = (written, u', w', c.drop (secSize - u.buffer.length) :: cs) := by
  have hw' : (u.fill (c.take (secSize - u.buffer.length))).writeBuffer env w = (false, u', w') := hw
  rw [writeFromLoop, if_neg (Source.available_cons hc)]
  simp only [Source.available, if_pos hlt, Source.read_part hmore, hw']

/-- A round that fills the sector and flushes it. -/
theorem writeFromLoop_full (hc : c ≠ []) (hlt : secSize < u.buffer.length + u.needed c.length)
    (hmore : secSize - u.buffer.length < c.length) (hw : (u.topUp c).writeBuffer env w = (true, u', w'))
    (hrem : u'.remaining ≠ 0) :
    writeFromLoop env (rounds + 1) written u w (c :: cs)
      = writeFromLoop env rounds (written + (secSize - u.buffer.length)) u' w'
          (c.drop (secSize - u.buffer.length) :: cs) := by
  have hw' : (u.fill (c.take (secSize - u.buffer.length))).writeBuffer env w = (true, u', w') := hw
  rw [writeFromLoop, if_neg (Source.available_cons hc)]
  simp only [Source.available, if_pos hlt, Source.read_part hmore, hw', if_neg hrem]

/-- A round that reads a whole chunk, and more is needed. -/
theorem writeFromLoop_chunk (hc : c ≠ []) (hk : u.needed c.length = c.length)
    (hle : u.buffer.length + c.length ≤ secSize)
    (hnot : (u.fill c).buffer.length ≠ (u.fill c).remaining) (hrem : u.remaining ≠ 0) :
    writeFromLoop env (rounds + 1) written u w (c :: cs)
      = writeFromLoop env rounds (written + c.length) (u.fill c) w cs := by
  have hrem' : (u.fill c).remaining ≠ 0 := hrem
  rw [writeFromLoop, if_neg (Source.available_cons hc)]
  simp only [Source.available, hk, if_neg (Nat.not_lt.mpr hle), Source.read_all, if_neg hnot, if_neg hrem']

/-- The round that completes the update. -/
theorem writeFromLoop_last {ok : Bool} (hc : c ≠ []) (hk : u.needed c.length = k)
    (hle : u.buffer.length + k ≤ secSize)
    (hlast : (u.fill (c.take k)).buffer.length = (u.fill (c.take k)).remaining)
    (hw : (u.fill (c.take k)).writeBuffer env w = (ok, u', w')) (hrem : ok = true → u'.remaining = 0) :
    writeFromLoop env (rounds + 1) written u w (c :: cs)
      = (written + k, u', w', (Source.read k (c :: cs)).2) := by
  have hread : (Source.read k (c :: cs)).1 = c.take k := rfl
  rw [writeFromLoop, if_neg (Source.available_cons hc)]
  simp only [Source.available, hk, if_neg (Nat.not_lt.mpr hle), hread, if_pos hlast, hw]
  cases ok with
  | false => rfl
  | true => exact if_pos (hrem rfl)

/-! ### Agreement with `write` -/

/-- What a source can give to the update. -/
def wanted (u : UpdateClass) (src : Source) : List UInt8 :=
  src.flatten.take (u.remaining - u.buffer.length)

/-- The rest of a call does what `write` does with the bytes that are wanted. -/
structure Agrees (env : OtaEnv) (u : UpdateClass) (w : World) (src : Source) (written : ℕ)
    (r : ℕ × UpdateClass × World × Source) : Prop where
  state : (r.2.1, r.2.2.1) = (u.write env w (u.wanted src)).2
  taken : r.2.1.error = .ok → r.1 = written + (u.wanted src).length ∧
    r.2.2.2.flatten = src.flatten.drop (u.remaining - u.buffer.length)

theorem Taking.wanted (h : Taking u 1) (src : Source) : Taking u (u.wanted src).length := by
  have hfits := h.fits
  have hlen : (u.wanted src).length ≤ u.remaining - u.buffer.length := by
    rw [UpdateClass.wanted, List.length_take]
    omega
  rw [h.remaining_eq] at hlen
  exact ⟨h.error, h.running, by omega, h.small⟩

/-- An incomplete update of which nothing is left to be written stays as it is. -/
theorem Taking.write_nil (h : Taking u 1) (hb : u.buffer.length ≤ secSize) :
    (u.write env w []).2 = (u, w) := by
  have hfits := h.fits
  have hnil : u.fill [] = u := by
    show { u with buffer := u.buffer ++ [] } = u
    rw [List.append_nil]
  have hnot : ¬u.buffer.length = u.remaining := by
    rw [h.remaining_eq]
    omega
  rw [(h.mono (Nat.zero_le 1) : Taking u ([] : List UInt8).length).write_eq, writeLoop_short (by simpa using hb)]
  simp only [settle, hnil, if_neg hnot]

/-- What is wanted, when `t` bytes of the first chunk have been taken. -/
theorem wanted_split {t : ℕ} (htc : t ≤ c.length) (ht : t ≤ u.remaining - u.buffer.length) :
    u.wanted (c :: cs)
      = c.take t ++ (c.drop t ++ cs.flatten).take (u.remaining - u.buffer.length - t) := by
  have hroom : u.remaining - u.buffer.length = t + (u.remaining - u.buffer.length - t) := by omega
  rw [wanted, List.flatten_cons]
  nth_rewrite 1 [hroom]
  rw [List.take_add, List.take_append_of_le_length htc, List.drop_append_of_le_length htc]

/-- The state after a sector has been filled and flushed. -/
theorem Taking.sector (h : Taking u 1) (hb : u.buffer.length ≤ secSize)
    (hc : secSize - u.buffer.length < c.length)
    (hroom : secSize - u.buffer.length < u.remaining - u.buffer.length) :
    Taking (u.topUp c).flushed 1 ∧ (u.topUp c).flushed.buffer = [] ∧
      (u.topUp c).flushed.remaining = u.remaining - u.buffer.length - (secSize - u.buffer.length) := by
  have hfits := h.fits
  have hsmall := h.small
  have hrem := h.remaining_eq
  have htake : (c.take (secSize - u.buffer.length)).length = secSize - u.buffer.length :=
    List.length_take_of_le hc.le
  have hmore : Taking u ((c.take (secSize - u.buffer.length)).length + 1) :=
    ⟨h.error, h.running, by omega, h.small⟩
  have hnext : Taking (u.topUp c).flushed 1 := hmore.fill.flushed
  refine ⟨hnext, rfl, ?_⟩
  have hprog : (u.topUp c).flushed.progress = u.progress + secSize := by
    rw [flushed_progress, topUp_buffer, List.length_append, htake]
    show wrap32 (u.progress + _) = _
    rw [wrap32_of_lt (by omega)]
    omega
  rw [hnext.remaining_eq, hprog]
  show u.size - _ = _
  omega

/-- A round that fills a sector agrees if the rounds behind it do. -/
theorem Agrees.sector {r : ℕ × UpdateClass × World × Source} (h : Taking u 1)
    (hb : u.buffer.length ≤ secSize) (hc : secSize - u.buffer.length < c.length)
    (hroom : secSize - u.buffer.length < u.remaining - u.buffer.length)
    (hw : (u.topUp c).writeBuffer env w = (true, u', w'))
    (hr : Agrees env u' w' (c.drop (secSize - u.buffer.length) :: cs)
      (written + (secSize - u.buffer.length)) r) :
    Agrees env u w (c :: cs) written r := by
  obtain ⟨htaking, hbuf, hrem⟩ := h.sector hb hc hroom
  rw [← writeBuffer_true hw] at htaking hbuf hrem
  set t := secSize - u.buffer.length with htdef
  have hsplit : u.wanted (c :: cs) = c.take t ++ u'.wanted (c.drop t :: cs) := by
    rw [wanted_split hc.le hroom.le, wanted, hrem, hbuf]
    rfl
  have htake : (c.take t).length = t := List.length_take_of_le hc.le
  have hpos : 0 < (u'.wanted (c.drop t :: cs)).length := by
    have hlen : 0 < (c.drop t).length := by
      rw [List.length_drop]
      omega
    rw [wanted, hrem, hbuf, List.flatten_cons, List.length_take, List.length_append, List.length_nil]
    omega
  have hlong : secSize < u.buffer.length + (u.wanted (c :: cs)).length := by
    rw [hsplit, List.length_append, htake]
    omega
  have htop : u.topUp (u.wanted (c :: cs)) = u.topUp c := by
    rw [topUp, topUp, ← htdef, hsplit, List.take_append_of_le_length htake.ge, List.take_take, min_self]
  have hdrop : (u.wanted (c :: cs)).drop t = u'.wanted (c.drop t :: cs) := by
    rw [hsplit, List.drop_append_of_le_length htake.ge, List.drop_of_length_le htake.le, List.nil_append]
  have hwrite : (u.write env w (u.wanted (c :: cs))).2
      = (u'.write env w' (u'.wanted (c.drop t :: cs))).2 := by
    rw [← htop] at hw
    rw [(h.wanted _).write_eq, (htaking.wanted _).write_eq, writeLoop_full hlong hw, hdrop]
  refine ⟨hr.state.trans hwrite.symm, fun hok => ?_⟩
  obtain ⟨hcount, hleft⟩ := hr.taken hok
  refine ⟨by rw [hcount, hsplit, List.length_append, htake, Nat.add_assoc], ?_⟩
  rw [hleft, hrem, hbuf, List.flatten_cons, List.flatten_cons, ← List.drop_append_of_le_length hc.le,
    List.drop_drop, List.length_nil]
  congr 1
  omega

/-- A round that cannot flush its sector agrees. -/
theorem agrees_failed {n : ℕ} {rest : Source} (h : Taking u 1)
    (hc : secSize - u.buffer.length < c.length)
    (hroom : secSize - u.buffer.length < u.remaining - u.buffer.length)
    (hw : (u.topUp c).writeBuffer env w = (false, u', w')) :
    Agrees env u w (c :: cs) written (n, u', w', rest) := by
  have hflush := writeBuffer_flush env (u.topUp c) w
  rw [hw] at hflush
  have hsplit : u.wanted (c :: cs) = _ := wanted_split hc.le hroom.le
  have htake : (c.take (secSize - u.buffer.length)).length = secSize - u.buffer.length :=
    List.length_take_of_le hc.le
  have hlong : secSize < u.buffer.length + (u.wanted (c :: cs)).length := by
    rw [wanted, List.flatten_cons, List.length_take, List.length_append]
    omega
  have htop : u.topUp (u.wanted (c :: cs)) = u.topUp c := by
    rw [topUp, topUp, hsplit, List.take_append_of_le_length htake.ge, List.take_take, min_self]
  rw [← htop] at hw
  refine ⟨?_, fun hok => absurd hok hflush.aborted.2⟩
  rw [(h.wanted _).write_eq, writeLoop_failed hlong hw]
  rfl

/-- A round that reads a whole chunk agrees if the rounds behind it do. -/
theorem Agrees.chunk {r : ℕ × UpdateClass × World × Source} (h : Taking u (c.length + 1))
    (hle : u.buffer.length + c.length ≤ secSize)
    (hr : Agrees env (u.fill c) w cs (written + c.length) r) : Agrees env u w (c :: cs) written r := by
  have hfits := h.fits
  have h₁ : Taking u 1 := h.mono (by omega)
  have hrem : (u.fill c).remaining = u.remaining := rfl
  have hbuf : (u.fill c).buffer.length = u.buffer.length + c.length := by
    rw [fill_buffer, List.length_append]
  have hroom : c.length ≤ u.remaining - u.buffer.length := by
    rw [h.remaining_eq]
    omega
  have hsplit : u.wanted (c :: cs) = c ++ (u.fill c).wanted cs := by
    rw [wanted_split le_rfl hroom, List.take_length, List.drop_length, List.nil_append, wanted, hrem,
      hbuf, Nat.sub_sub]
  refine ⟨?_, fun hok => ?_⟩
  · rw [hr.state, (h₁.wanted _).write_eq, hsplit, settle_writeLoop_fill hle,
      ((h.fill : Taking (u.fill c) 1).wanted cs).write_eq]
  · obtain ⟨hcount, hleft⟩ := hr.taken hok
    refine ⟨by rw [hcount, hsplit, List.length_append, Nat.add_assoc], ?_⟩
    rw [hleft, hrem, hbuf, List.flatten_cons, List.drop_append, List.drop_of_length_le hroom,
      List.nil_append, Nat.sub_sub]

/-- The round that completes the update agrees. -/
theorem agrees_last {ok : Bool} (h : Taking u 1) (hc : u.remaining - u.buffer.length ≤ c.length)
    (hle : u.remaining ≤ secSize)
    (hw : (u.fill (c.take (u.remaining - u.buffer.length))).writeBuffer env w = (ok, u', w')) :
    Agrees env u w (c :: cs) written (written + (u.remaining - u.buffer.length), u', w',
      (Source.read (u.remaining - u.buffer.length) (c :: cs)).2) := by
  have hfits := h.fits
  have hrem := h.remaining_eq
  have hsplit : u.wanted (c :: cs) = c.take (u.remaining - u.buffer.length) := by
    rw [wanted_split hc le_rfl, Nat.sub_self, List.take_zero, List.append_nil]
  have hlen : (c.take (u.remaining - u.buffer.length)).length = u.remaining - u.buffer.length :=
    List.length_take_of_le hc
  have hlast : (u.fill (c.take (u.remaining - u.buffer.length))).buffer.length
      = (u.fill (c.take (u.remaining - u.buffer.length))).remaining := by
    show _ = u.remaining
    rw [fill_buffer, List.length_append, hlen]
    omega
  refine ⟨?_, fun _ => ⟨by rw [hsplit, hlen], ?_⟩⟩
  · rw [(h.wanted _).write_eq, hsplit, writeLoop_short (by rw [hlen]; omega)]
    simp only [settle, if_pos hlast, hw]
  · rw [Source.read_flatten hc, List.flatten_cons, List.drop_append_of_le_length hc]

/-- A complete update has nothing remaining. -/
theorem remaining_complete (h : Taking u 0) (hlast : u.buffer.length = u.remaining) :
    u.flushed.remaining = 0 := by
  have hfits := h.fits
  have hsmall := h.small
  have hrem := h.remaining_eq
  rw [h.flushed.remaining_eq, flushed_progress, wrap32_of_lt (by omega), flushed_size]
  omega

/-- **The rounds agree with `write`.** -/
theorem writeFromLoop_agrees (hsrc : ∀ c ∈ src, c ≠ []) (h : Taking u 1)
    (hb : u.buffer.length ≤ secSize) (hrounds : 2 * src.flatten.length + u.buffer.length / secSize < rounds) :
    Agrees env u w src written (writeFromLoop env rounds written u w src) := by
  induction rounds generalizing u w src written with
  | zero => exact absurd hrounds (Nat.not_lt_zero _)
  | succ rounds ih =>
      have hfits := h.fits
      have hrem := h.remaining_eq
      cases src with
      | nil =>
          rw [writeFromLoop_empty]
          have hnil : u.wanted [] = [] := List.take_nil
          exact ⟨by rw [hnil, h.write_nil hb], fun _ => by simp [hnil]⟩
      | cons c cs =>
          have hc : c ≠ [] := hsrc c (by simp)
          have hpos := List.length_pos_of_ne_nil hc
          have hcs : ∀ d ∈ cs, d ≠ [] := fun d hd => hsrc d (by simp [hd])
          have hneed := h.needed_eq c.length
          rw [List.flatten_cons, List.length_append] at hrounds
          by_cases hfull : secSize < u.buffer.length + u.needed c.length
          · have hmore : secSize - u.buffer.length < c.length := by omega
            have hroom : secSize - u.buffer.length < u.remaining - u.buffer.length := by omega
            rcases hw : (u.topUp c).writeBuffer env w with ⟨ok, u', w'⟩
            cases ok with
            | false =>
                rw [writeFromLoop_failed hc hfull hmore hw]
                exact agrees_failed h hmore hroom hw
            | true =>
                obtain ⟨htaking, hbuf, hrem'⟩ := h.sector hb hmore hroom
                rw [← writeBuffer_true hw] at htaking hbuf hrem'
                rw [writeFromLoop_full hc hfull hmore hw (by omega)]
                refine Agrees.sector h hb hmore hroom hw (ih ?_ htaking (by rw [hbuf]; exact Nat.zero_le _) ?_)
                · rw [List.forall_mem_cons]
                  refine ⟨List.ne_nil_of_length_pos ?_, hcs⟩
                  rw [List.length_drop]
                  omega
                · rw [hbuf, List.flatten_cons, List.length_append, List.length_drop, List.length_nil]
                  simp only [secSize] at *
                  omega
          · by_cases hlast : u.remaining - u.buffer.length ≤ c.length
            · have hk : u.needed c.length = u.remaining - u.buffer.length := by omega
              have hlen : (c.take (u.remaining - u.buffer.length)).length
                  = u.remaining - u.buffer.length := List.length_take_of_le hlast
              have hfill : Taking (u.fill (c.take (u.remaining - u.buffer.length))) 0 :=
                Taking.fill ⟨h.error, h.running, by omega, h.small⟩
              have hcomplete : (u.fill (c.take (u.remaining - u.buffer.length))).buffer.length
                  = (u.fill (c.take (u.remaining - u.buffer.length))).remaining := by
                show _ = u.remaining
                rw [fill_buffer, List.length_append, hlen]
                omega
              rcases hw : (u.fill (c.take (u.remaining - u.buffer.length))).writeBuffer env w with
                ⟨ok, u', w'⟩
              have hdone : ok = true → u'.remaining = 0 := by
                rintro rfl
                rw [writeBuffer_true hw]
                exact remaining_complete hfill hcomplete
              rw [writeFromLoop_last hc hk (by omega) hcomplete hw hdone]
              exact agrees_last h hlast (by omega) hw
            · have hk : u.needed c.length = c.length := by omega
              have hmore : Taking u (c.length + 1) := ⟨h.error, h.running, by omega, h.small⟩
              have hbuf : (u.fill c).buffer.length = u.buffer.length + c.length := by
                rw [fill_buffer, List.length_append]
              have hnot : (u.fill c).buffer.length ≠ (u.fill c).remaining := by
                show _ ≠ u.remaining
                rw [hbuf]
                omega
              rw [writeFromLoop_chunk hc hk (by omega) hnot (by omega)]
              refine Agrees.chunk hmore (by omega) (ih hcs hmore.fill (by omega) ?_)
              rw [hbuf]
              simp only [secSize] at *
              omega

theorem Taking.writeFrom_eq (h : Taking u 1) (w : World) (src : Source) :
    writeFrom env u w src = writeFromLoop env (2 * src.flatten.length + 2) 0 u w src := by
  have hgo : ¬(u.hasError = true ∨ ¬u.isRunning = true) := by
    have := h.running
    simp [hasError, isRunning, h.error]
    omega
  rw [writeFrom, if_neg hgo]

/-- One call on an incomplete update. -/
theorem writeFrom_agrees (env : OtaEnv) (w : World) (hsrc : ∀ c ∈ src, c ≠ []) (h : Taking u 1)
    (hb : u.buffer.length ≤ secSize) : Agrees env u w src 0 (writeFrom env u w src) := by
  rw [h.writeFrom_eq]
  refine writeFromLoop_agrees hsrc h hb ?_
  simp only [secSize] at *
  omega

theorem writeFrom_aborted (h : u.error ≠ .ok) (w : World) (src : Source) :
    writeFrom env u w src = (0, u, w, src) := by
  rw [writeFrom, if_pos (.inl (by simp [hasError, h]))]

/-! ### Several calls -/

/-- Several calls, and what the last one returns. -/
def writesFrom (env : OtaEnv) : List Source → Source → UpdateClass → World →
    ℕ × UpdateClass × World × Source
  | [], last, u, w => writeFrom env u w last
  | src :: srcs, last, u, w =>
      writesFrom env srcs last (writeFrom env u w src).2.1 (writeFrom env u w src).2.2.1

theorem writesFrom_aborted (h : u.error ≠ .ok) (srcs : List Source) (last : Source) :
    writesFrom env srcs last u w = (0, u, w, last) := by
  induction srcs with
  | nil => exact writeFrom_aborted h w last
  | cons src srcs ih =>
      rw [writesFrom, writeFrom_aborted h]
      exact ih

theorem writeLoop_buffer {a left : List UInt8} (h : u.writeLoop env w a = (true, u', w', left)) :
    u'.buffer.length + left.length ≤ secSize := by
  fun_induction writeLoop env u w a with
  | case1 u w a hlt u₁ w₁ hw => cases h
  | case2 u w a hlt u₁ w₁ hw ih => exact ih h
  | case3 u w a hlt =>
      cases h
      omega

/-- What a `write` that does not complete the update leaves: an aborted update, or one that needs so many
bytes less. -/
theorem Taking.write_next {a : List UInt8} (env : OtaEnv) (w : World) (h : Taking u (a.length + k))
    (hk : 0 < k) :
    (u.write env w a).2.1.error ≠ .ok ∨ Taking (u.write env w a).2.1 k ∧
      (u.write env w a).2.1.buffer.length ≤ secSize ∧
      (u.write env w a).2.1.remaining - (u.write env w a).2.1.buffer.length
        = u.remaining - u.buffer.length - a.length := by
  rw [(h.mono (by omega)).write_eq]
  rcases hloop : u.writeLoop env w a with ⟨ok, u', w', left⟩
  cases ok with
  | false => exact .inl (writeLoop_stopped hloop)
  | true =>
      obtain ⟨ht, hsize, hpos⟩ := writeLoop_ended h hloop
      have hfits := ht.fits
      have hrem := ht.remaining_eq
      have hnot : ¬(u'.fill left).buffer.length = (u'.fill left).remaining := by omega
      have hsettle : settle env (true, u', w', left) = (u'.fill left, w') := by
        simp only [settle, if_neg hnot]
      have hbuf : (u'.fill left).buffer.length = (u'.buffer ++ left).length := by rw [fill_buffer]
      rw [hsettle]
      refine .inr ⟨ht, ?_, ?_⟩
      · rw [hbuf, List.length_append]
        exact writeLoop_buffer hloop
      · rw [hrem, h.remaining_eq, hbuf, fill_size, fill_progress, hsize]
        omega

/-- A `write` in two parts, of which the first does not complete the update. -/
theorem Taking.write_parts {a b : List UInt8} (env : OtaEnv) (w : World) (h : Taking u (a.length + k))
    (hk : 0 < k) (hb : b.length ≤ k) :
    (u.write env w (a ++ b)).2 = ((u.write env w a).2.1.write env (u.write env w a).2.2 b).2 := by
  by_cases hnil : b = []
  · subst hnil
    rw [List.append_nil]
    rcases h.write_next env w hk with herr | ⟨ht, hbuf, -⟩
    · rw [write_aborted herr]
    · rw [(ht.mono hk).write_nil hbuf]
  · have hab : Taking u (a.length + b.length) := h.mono (by omega)
    rcases hab.write_cases env w (List.length_pos_of_ne_nil hnil) b rfl with ⟨herr, heq⟩ | ⟨-, heq⟩
    · rw [heq, write_aborted herr]
    · exact heq

/-- The calls together agree with `write`, when the bytes of all of them are counted. -/
theorem writesFrom_agrees (env : OtaEnv) (srcs : List Source) (last : Source) (u : UpdateClass) (w : World)
    (hsrcs : ∀ src ∈ srcs, ∀ c ∈ src, c ≠ []) (hlast : ∀ c ∈ last, c ≠ [])
    (h : Taking u (srcs.flatten.flatten.length + 1)) (hb : u.buffer.length ≤ secSize) :
    Agrees env u w (srcs.flatten ++ last) 0
      (srcs.flatten.flatten.length + (writesFrom env srcs last u w).1, (writesFrom env srcs last u w).2) := by
  induction srcs generalizing u w with
  | nil =>
      obtain ⟨hstate, htaken⟩ := writeFrom_agrees env w hlast h hb
      refine ⟨hstate, fun hok => ⟨?_, (htaken hok).2⟩⟩
      exact (Nat.zero_add _).trans (htaken hok).1
  | cons src srcs ih =>
      have hfits := h.fits
      have hrem := h.remaining_eq
      have h₁ : Taking u 1 := h.mono (by omega)
      rw [List.flatten_cons]
      simp only [List.flatten_cons, List.flatten_append, List.length_append] at h hfits
      have hroom : src.flatten.length ≤ u.remaining - u.buffer.length := by omega
      have hwanted : u.wanted src = src.flatten := List.take_of_length_le hroom
      have hcat : (src ++ srcs.flatten ++ last).flatten
          = src.flatten ++ (srcs.flatten ++ last).flatten := by
        rw [List.append_assoc, List.flatten_append]
      have hsplit : u.wanted (src ++ srcs.flatten ++ last)
          = src.flatten ++ (srcs.flatten ++ last).flatten.take
              (u.remaining - u.buffer.length - src.flatten.length) := by
        rw [wanted, hcat, List.take_append, List.take_of_length_le hroom]
      have hstate := (writeFrom_agrees env w (hsrcs src (by simp)) h₁ hb).state
      rw [hwanted] at hstate
      have hu : (writeFrom env u w src).2.1 = (u.write env w src.flatten).2.1 := congrArg Prod.fst hstate
      have hw : (writeFrom env u w src).2.2.1 = (u.write env w src.flatten).2.2 := congrArg Prod.snd hstate
      have hall : Taking u (src.flatten.length
          + (u.remaining - u.buffer.length - src.flatten.length)) :=
        ⟨h.error, h.running, by omega, h.small⟩
      have hparts := hall.write_parts env w (by omega) (List.length_take_le _ (srcs.flatten ++ last).flatten)
      rw [writesFrom, hu, hw]
      rw [Nat.add_assoc] at h
      rcases h.write_next env w (Nat.succ_pos _) with herr | ⟨ht, hbuf, hneeds⟩
      · rw [writesFrom_aborted herr]
        refine ⟨?_, fun hok => absurd hok herr⟩
        rw [hsplit, hparts, write_aborted herr]
      · obtain ⟨hih, htaken⟩ := ih _ (u.write env w src.flatten).2.2
          (fun s hs => hsrcs s (by simp [hs])) ht hbuf
        rw [wanted, hneeds] at hih htaken
        refine ⟨by rw [hsplit, hparts]; exact hih, fun hok => ?_⟩
        obtain ⟨hcount, hleft⟩ := htaken hok
        refine ⟨?_, hleft.trans ?_⟩
        · rw [hsplit, List.flatten_append, List.length_append, List.length_append]
          omega
        · rw [hcat, List.drop_append, List.drop_of_length_le hroom, List.nil_append]

/-- **Writing from sources agrees with writing from memory.**  Calls with any sources, however their bytes
come in chunks and whatever flash operations fail, of which only the last may have as much as the update
needs: they leave the update and the flash that one `write` of the bytes leaves, cut to what is needed, and
without an error the last source keeps what was not needed. -/
theorem writesFrom_eq_write (env : OtaEnv) (srcs : List Source) (last : Source) (u : UpdateClass) (w : World)
    (hsrcs : ∀ src ∈ srcs, ∀ c ∈ src, c ≠ []) (hlast : ∀ c ∈ last, c ≠ [])
    (h : Taking u (srcs.flatten.flatten.length + 1)) (hb : u.buffer.length ≤ secSize) :
    ((writesFrom env srcs last u w).2.1, (writesFrom env srcs last u w).2.2.1)
        = (u.write env w (u.wanted (srcs.flatten ++ last))).2 ∧
      ((writesFrom env srcs last u w).2.1.error = .ok →
        (writesFrom env srcs last u w).2.2.2.flatten
          = (srcs.flatten ++ last).flatten.drop (u.remaining - u.buffer.length)) := by
  obtain ⟨hstate, htaken⟩ := writesFrom_agrees env srcs last u w hsrcs hlast h hb
  exact ⟨hstate, fun hok => (htaken hok).2⟩

/-- A sector and one more byte. -/
def sectorAndByte : List UInt8 := imageMagic :: List.replicate 4096 7

theorem sectorAndByte_length : sectorAndByte.length = 4097 := by
  rw [sectorAndByte, List.length_cons, List.length_replicate]

/-- An update of that size, right after `begin`. -/
def begunUpdate : UpdateClass := { UpdateClass.init with size := 4097, partition := some ota0 }

/-- A source within the first sector, and one whose chunk crosses its end and has more than is needed. -/
theorem writesFrom_eq_write_sectorAndByte :
    (writesFrom (.healthy ota0 0x400000) [[imageMagic :: List.replicate 4000 7]]
        [List.replicate 50 7, List.replicate 100 7] begunUpdate .initial).2.1
      = (begunUpdate.write (.healthy ota0 0x400000) .initial sectorAndByte).2.1 := by
  have hlast : ∀ c ∈ [List.replicate 50 (7 : UInt8), List.replicate 100 7], c ≠ [] := by
    intro c hc
    rw [List.mem_pair] at hc
    rcases hc with rfl | rfl
    · exact List.replicate_succ_ne_nil
    · exact List.replicate_succ_ne_nil
  obtain ⟨hstate, -⟩ := writesFrom_eq_write (.healthy ota0 0x400000) [[imageMagic :: List.replicate 4000 7]]
    [List.replicate 50 7, List.replicate 100 7] begunUpdate .initial (by simp [-List.reduceReplicate]) hlast
    ⟨rfl, by decide, by simp [begunUpdate, UpdateClass.init, -List.reduceReplicate], by decide⟩
    (by decide)
  have hwanted : begunUpdate.wanted ([[imageMagic :: List.replicate 4000 7]].flatten
      ++ [List.replicate 50 7, List.replicate 100 7]) = sectorAndByte := by
    have hrem : begunUpdate.remaining - begunUpdate.buffer.length = 4096 + 1 := by decide +kernel
    rw [wanted, hrem, sectorAndByte]
    simp [-List.reduceReplicate, List.take_replicate, List.replicate_append_replicate]
  rw [hwanted] at hstate
  have hupdate := (Prod.ext_iff.mp hstate).1
  dsimp only at hupdate
  exact hupdate

/-! ### A call too many -/

theorem program_nil (f : Cells) (a : ℕ) : program f a [] = f := by
  funext x
  apply program_apply_of_not_mem
  simp

variable {p : Partition} {n chip : ℕ} {target image : List UInt8} {w₀ : World}

/-- A call on a complete update reads nothing and erases the sector behind its last byte. -/
theorem Sectors.overfed (h : Sectors p n target w₀ image u w) (himage : image.length = n)
    (hworks : env.Works p chip) (hn : n ≤ p.size) (hcut : n % secSize ≠ 0) (hc : c ≠ []) (cs : Source) :
    ∃ u' w', writeFrom env u w (c :: cs) = (0, u', w', c :: cs) ∧ Running p n u' ∧ u'.progress = n ∧
      u'.md5 = image ∧ u'.targetMd5 = target ∧
      w'.flash = erase w.flash (p.address + (n - n % secSize)) secSize := by
  have hpos : 0 < n := by
    apply Nat.pos_of_ne_zero
    rintro rfl
    exact hcut rfl
  have hinside := hworks.inside
  have hsectors := hworks.sectors
  have hsmall := hworks.small
  have haligned := p.aligned
  have hprog : u.progress = n := h.progress.trans himage
  have hlen := List.length_pos_of_ne_nil hc
  have hrem : u.remaining = 0 := by
    rw [h.running.remaining_eq (by omega) hprog.le, hprog, Nat.sub_self]
  have hgo : ¬(u.hasError = true ∨ ¬u.isRunning = true) := by
    simp [hasError, isRunning, h.running.error, h.running.size, hpos]
  have hneed : u.needed c.length = 0 := by
    rw [needed, hrem, h.buffer, List.length_nil, if_pos (by omega)]
    simp [wrap32]
  have hnext : (u.fill (c.take 0)).nextAddress = p.address + n := by
    have := h.running.nextAddress_eq (by omega)
    rw [hprog] at this
    exact this
  have hnone : (u.fill (c.take 0)).buffer = [] := by
    rw [fill_buffer, h.buffer]
    rfl
  have hfirst : ¬(u.fill (c.take 0)).firstBytes = true := by
    intro hf
    have hzero : u.progress = 0 := (firstBytes_iff h.running.command).mp hf
    omega
  have hdata : (u.fill (c.take 0)).flushData = [] := by
    rw [flushData, if_neg hfirst, hnone]
  have hflush := writeBuffer_flush env (u.fill (c.take 0)) w
  have hsucc := hflush.succeeds ?_ ?_ ?_
  · rw [hsucc] at hflush
    have hflash := hflush.flash_done
    rw [hdata, program_nil, hnext] at hflash
    have hstart : (p.address + n) / secSize * secSize = p.address + (n - n % secSize) := by
      simp only [secSize] at *
      omega
    rw [hstart] at hflash
    have hdone : (u.fill (c.take 0)).flushed.progress = n := by
      rw [flushed_progress, fill_progress, hnone, hprog, List.length_nil, wrap32_of_lt (by omega)]
      rfl
    have hrun : Running p n (u.fill (c.take 0)).flushed := h.running.flushed
    refine ⟨_, _, ?_, hrun, hdone, ?_, h.target_eq, hflash⟩
    · rw [writeFrom, if_neg hgo, writeFromLoop_last hc hneed (by rw [h.buffer]; exact Nat.zero_le _)
        (by rw [hnone]; exact hrem.symm) hsucc fun _ => ?_]
      · rw [Source.read_part hlen]
        rfl
      · rw [hrun.remaining_eq (by omega) hdone.le, hdone, Nat.sub_self]
    · show u.md5 ++ (u.fill (c.take 0)).buffer = image
      rw [hnone, List.append_nil, h.md5]
  · exact fun hf => absurd hf hfirst
  · intro i
    apply hworks.flash
    simp only [eraseOp, hnext, FlashOp.Inside, secSize] at *
    omega
  · intro i
    apply hworks.flash
    simp only [writeOp, hnext, FlashOp.Inside, hdata, List.length_nil]
    omega

/-- `begin`, a call for each source, and `end`. -/
def updateFrom (env : OtaEnv) (n : ℕ) (srcs : List Source) (last : Source) (u : UpdateClass) (w : World) :
    Bool × UpdateClass × World :=
  match u.begin env n .flash with
  | (false, u') => (false, u', w)
  | (true, u') =>
      (writesFrom env srcs last u' w).2.1.endUpdate env (writesFrom env srcs last u' w).2.2.1 false

theorem writesFrom_snoc (srcs : List Source) (last extra : Source) :
    writesFrom env (srcs ++ [last]) extra u w
      = writeFrom env (writesFrom env srcs last u w).2.1 (writesFrom env srcs last u w).2.2.1 extra := by
  induction srcs generalizing u w with
  | nil => rfl
  | cons src srcs ih => exact ih

/-- The image with a wiped last sector. -/
theorem wiped_slice {f : Cells} (h : Stored p f image image.length) (hlong : secSize ≤ image.length) :
    slice (Function.update (erase f (p.address + (image.length - image.length % secSize)) secSize)
        p.address imageMagic) p.address image.length
      = image.take (image.length - image.length % secSize)
        ++ List.replicate (image.length % secSize) blank := by
  have hmod : image.length % secSize < secSize := Nat.mod_lt _ (by decide)
  have hle := Nat.mod_le image.length secSize
  obtain ⟨-, hhead, hrest⟩ := h (by omega)
  set m := image.length - image.length % secSize with hm
  have htake : (image.take m).length = m := List.length_take_of_le (Nat.sub_le _ _)
  have hlen : (image.take m ++ List.replicate (image.length % secSize) blank).length = image.length := by
    rw [List.length_append, htake, List.length_replicate]
    omega
  have hwhole := List.take_length (l := image.take m ++ List.replicate (image.length % secSize) blank)
  rw [hlen] at hwhole
  rw [← hwhole]
  apply slice_eq_take hlen.ge
  intro i hi
  by_cases hi0 : i = 0
  · subst hi0
    rw [Nat.add_zero, Function.update_self, List.getD_append _ _ _ _ (by omega),
      List.getD_eq_getElem?_getD, List.getElem?_take_of_lt (by omega), ← List.head?_eq_getElem?, hhead]
    rfl
  · rw [Function.update_of_ne (by omega)]
    by_cases him : i < m
    · rw [erase_apply_of_not_mem (by omega), hrest i (by omega) hi, List.getD_append _ _ _ _ (by omega),
        List.getD_eq_getElem?_getD, List.getD_eq_getElem?_getD, List.getElem?_take_of_lt him]
    · rw [erase_apply_of_mem (by omega), List.getD_append_right _ _ _ _ (by omega),
        List.getD_replicate _ (by omega)]

/-- **An update that is fed past its end is committed without its last sector.**  On a working device the
sources hold exactly the image, which starts with the magic, has the expected sum and does not end with a
sector; one more call finds bytes available, as when the server sends more than it announced.  Then `end`
succeeds and the device boots an image whose last bytes are erased. -/
theorem updateFrom_overfed (env : OtaEnv) (p : Partition) (chip : ℕ) (hworks : env.Works p chip)
    (srcs : List Source) (last extra : Source) (u : UpdateClass) (w : World)
    (hidle : u.isRunning = false) (image : List UInt8) (himage : (srcs.flatten ++ last).flatten = image)
    (hsrcs : ∀ src ∈ srcs, ∀ c ∈ src, c ≠ []) (hlast : ∀ c ∈ last, c ≠ []) (hne : last ≠ [])
    (hextra : Source.available extra ≠ 0) (hlong : secSize ≤ image.length) (hfits : image.length ≤ p.size)
    (hcut : image.length % secSize ≠ 0) (hmagic : image.head? = some imageMagic)
    (hsum : u.targetMd5 = [] ∨ u.targetMd5 = env.md5Hex image) :
    (updateFrom env image.length (srcs ++ [last]) extra u w).1 = true ∧
      (updateFrom env image.length (srcs ++ [last]) extra u w).2.2.boot = p.address ∧
      slice (updateFrom env image.length (srcs ++ [last]) extra u w).2.2.flash p.address image.length
        = image.take (image.length - image.length % secSize)
          ++ List.replicate (image.length % secSize) blank := by
  have hinside := hworks.inside
  have hsmall := hworks.small
  have hsectors := hworks.sectors
  have hpos : 0 < image.length := (by decide : 0 < secSize).trans_le hlong
  have hknown : image.length ≠ 0xFFFFFFFF := by
    simp only [secSize] at hsectors
    omega
  have himage' : image ≠ [] := List.ne_nil_of_length_pos hpos
  have hsize : u.size = 0 := by simpa [isRunning] using hidle
  rcases @begin_cases env _ _ hsize hpos hknown with
    ⟨u', hbegin, hsize', hwhy⟩ | ⟨q, u', hq, -, hbegin, hrun, hprog, hbuf⟩
  · have hno := hwhy p hworks.partition hfits
    rw [hworks.malloc] at hno
    cases hno
  · obtain rfl : p = q := Option.some.inj (hworks.partition.symm.trans hq)
    have htarget : u'.targetMd5 = u.targetMd5 :=
      (congrArg (·.2.targetMd5) hbegin).symm.trans (begin_targetMd5 env u image.length .flash)
    have hstart : Sectors p image.length u.targetMd5 w [] u' w :=
      ⟨hrun, hbuf, hprog, fun h => absurd h (lt_irrefl 0), begin_md5 hbegin, htarget, .refl _ w⟩
    have hshort : srcs.flatten.flatten.length + 1 ≤ image.length := by
      obtain ⟨c, cs, rfl⟩ := List.exists_cons_of_ne_nil hne
      have hc := List.length_pos_of_ne_nil (hlast c (by simp))
      rw [← himage, List.flatten_append, List.length_append, List.flatten_cons, List.length_append]
      omega
    have ht : Taking u' (srcs.flatten.flatten.length + 1) :=
      ⟨hrun.error, by rw [hrun.size]; exact hpos, by rw [hprog, hbuf, hrun.size]; simpa using hshort,
        by rw [hrun.size]; omega⟩
    have hwanted : u'.wanted (srcs.flatten ++ last) = image := by
      rw [wanted, himage, hrun.remaining_eq (by omega) (by omega), hprog, hbuf]
      exact List.take_length
    have hstate := (writesFrom_agrees env srcs last u' w hsrcs hlast ht
      (by rw [hbuf]; exact Nat.zero_le _)).state
    rw [hwanted] at hstate
    have hwritten := write_written env hstart himage' le_rfl hfits (by omega)
    rw [← hstate] at hwritten
    dsimp only at hwritten
    cases hwritten with
    | aborted _ hwhy => exact absurd hmagic (hwhy chip hworks)
    | buffered _ _ _ _ _ _ _ _ _ hless => exact absurd rfl hless
    | complete hsec =>
        obtain ⟨c, cs, rfl⟩ : ∃ c cs, extra = c :: cs :=
          List.exists_cons_of_ne_nil (by rintro rfl; exact hextra rfl)
        have hc : c ≠ [] := by
          rintro rfl
          exact hextra rfl
        obtain ⟨u₂, w₂, hcall, hrun₂, hprog₂, hmd5₂, htarget₂, hflash₂⟩ :=
          hsec.overfed rfl hworks hfits hcut hc cs
        have hblank : w₂.flash p.address = blank := by
          rw [hflash₂]
          exact erase_blank (hsec.stored hpos).1
        have hend := endUpdate_works hworks hrun₂ hpos hfits hprog₂ hblank
          (by rw [hmd5₂, htarget₂]; exact hsum)
        have hwhole : updateFrom env image.length (srcs ++ [last]) (c :: cs) u w
            = u₂.endUpdate env w₂ false := by
          simp only [updateFrom, hbegin, writesFrom_snoc, hcall]
        rw [hwhole, hend]
        refine ⟨rfl, rfl, ?_⟩
        show slice (program w₂.flash p.address ((slice w₂.flash p.address 4).set 0 imageMagic)) _ _ = _
        rw [program_slice_magic hblank, hflash₂]
        exact wiped_slice hsec.stored hlong

/-- The one more byte is lost when another one arrives that was not announced. -/
theorem updateFrom_overfed_ota0 :
    (updateFrom (.healthy ota0 0x400000) sectorAndByte.length ([] ++ [[sectorAndByte]]) [[0]] .init .initial).1
      = true := by
  have hne : sectorAndByte ≠ [] := List.cons_ne_nil _ _
  have hlen := sectorAndByte_length
  exact (updateFrom_overfed (.healthy ota0 0x400000) ota0 0x400000
    (OtaEnv.healthy_works (by decide) (by decide) (by decide)) [] [sectorAndByte] [[0]] .init .initial rfl
    sectorAndByte (by simp) (by simp) (by simpa using hne) (by simp) (by decide) (by rw [hlen]; decide)
    (by rw [hlen]; decide) (by rw [hlen]; decide) rfl (.inl rfl)).1

end UpdateClass

end EspFirmware
