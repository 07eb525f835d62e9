import EspFirmware.Install

/-!
# Updates written in pieces

`Update.write` takes an image from memory, piece by piece, where `writeStream` takes it from a connection.
Its loop flushes a full sector only when a further byte is there, `writeStream` as soon as the sector is
full; the flash operations come out the same.

* `writeLoop`, `write`, `writes` — `UpdateClass::write` and a sequence of calls;
* `Taking.write_cases`, `writes_flatten` — cutting an image into pieces changes nothing, in any environment;
* `write_eq_writeStream` — nor does taking it from memory and not from a connection;
* `updateInPieces_commits` — `begin`, `write` after `write`, `end`: exactly the image or nothing.
-/

namespace EspFirmware

open NorFlash UpdateClass CString

namespace UpdateClass

/-- Copy bytes into `_buffer`, up to a full sector. -/
def topUp (u : UpdateClass) (data : List UInt8) : UpdateClass :=
  u.fill (data.take (secSize - u.buffer.length))

/-- A successful flush leaves an empty buffer. -/
theorem writeBuffer_true {env : OtaEnv} {u u' : UpdateClass} {w w' : World}
    (h : u.writeBuffer env w = (true, u', w')) : u' = u.flushed := by
  have hflush := writeBuffer_flush env u w
  rw [h] at hflush
  exact hflush.done_eq.1

/-- The `while` loop of `write`: whether every flush succeeded, and the bytes still to be copied. -/
def writeLoop (env : OtaEnv) (u : UpdateClass) (w : World) (data : List UInt8) :
    Bool × UpdateClass × World × List UInt8 :=
  if secSize < u.buffer.length + data.length then
    match _h : (u.topUp data).writeBuffer env w with
    | (false, u', w') => (false, u', w', data)
    | (true, u', w') => writeLoop env u' w' (data.drop (secSize - u.buffer.length))
  else (true, u, w, data)
termination_by u.buffer.length + data.length
decreasing_by
  rename_i hlt
  rw [writeBuffer_true _h, flushed_buffer]
  simp only [List.length_nil, List.length_drop, secSize] at *
  omega

/-- `write(data, len)`: the amount written, and what is left.  The sizes do not wrap: `data` and the
buffer are two objects in memory. -/
def write (env : OtaEnv) (u : UpdateClass) (w : World) (data : List UInt8) :
    ℕ × UpdateClass × World :=
  if u.hasError ∨ ¬u.isRunning then (0, u, w)
  else if u.remaining < data.length then (0, u.abort .space, w)
  else
    match u.writeLoop env w data with
    | (false, u', w', left) => (data.length - left.length, u', w')
    | (true, u', w', left) =>
        if (u'.fill left).buffer.length = (u'.fill left).remaining then
          match (u'.fill left).writeBuffer env w' with
          | (false, u'', w'') => (data.length - left.length, u'', w'')
          | (true, u'', w'') => (data.length, u'', w'')
        else (data.length, u'.fill left, w')

/-- Several calls of `write`. -/
def writes (env : OtaEnv) (chunks : List (List UInt8)) (s : UpdateClass × World) :
    UpdateClass × World :=
  chunks.foldl (fun s chunk => (s.1.write env s.2 chunk).2) s

variable {env : OtaEnv} {u u' : UpdateClass} {w w' : World} {a b left : List UInt8}

@[simp] theorem topUp_buffer (data : List UInt8) :
    (u.topUp data).buffer = u.buffer ++ data.take (secSize - u.buffer.length) := rfl

/-- The end of a call of `write`: the last bytes are copied, and flushed if they complete the image. -/
def settle (env : OtaEnv) : Bool × UpdateClass × World × List UInt8 → UpdateClass × World
  | (false, u, w, _) => (u, w)
  | (true, u, w, left) =>
      if (u.fill left).buffer.length = (u.fill left).remaining then ((u.fill left).writeBuffer env w).2
      else (u.fill left, w)

/-- An update that is running without an error and has room for `k` more bytes. -/
structure Taking (u : UpdateClass) (k : ℕ) : Prop where
  error : u.error = .ok
  running : 0 < u.size
  fits : u.progress + u.buffer.length + k ≤ u.size
  small : u.size < 2 ^ 32

namespace Taking

variable {k : ℕ}

theorem remaining_eq (h : Taking u k) : u.remaining = u.size - u.progress :=
  remaining_of_le (by have := h.fits; omega) h.small

theorem mono {j : ℕ} (h : Taking u k) (hle : j ≤ k) : Taking u j :=
  ⟨h.error, h.running, by have := h.fits; omega, h.small⟩

theorem fill (h : Taking u (a.length + k)) : Taking (u.fill a) k := by
  refine ⟨h.error, h.running, ?_, h.small⟩
  have hfits := h.fits
  simp only [fill_progress, fill_buffer, fill_size, List.length_append]
  omega

theorem flushed (h : Taking u k) : Taking u.flushed k := by
  have hfits := h.fits
  have hsmall := h.small
  refine ⟨h.error, h.running, ?_, h.small⟩
  rw [flushed_progress, flushed_buffer, flushed_size, wrap32_of_lt (by omega), List.length_nil]
  omega

/-- What `write` does with bytes that fit. -/
theorem write_eq (h : Taking u a.length) :
    (u.write env w a).2 = settle env (u.writeLoop env w a) := by
  have hgo : ¬(u.hasError = true ∨ ¬u.isRunning = true) := by
    have := h.running
    simp [hasError, isRunning, h.error]
    omega
  have hroom : ¬u.remaining < a.length := by
    have := h.fits
    rw [h.remaining_eq]
    omega
  rw [write, if_neg hgo, if_neg hroom]
  rcases u.writeLoop env w a with ⟨ok, u', w', left⟩
  cases ok with
  | false => rfl
  | true =>
      simp only [settle]
      split_ifs
      · rcases (u'.fill left).writeBuffer env w' with ⟨ok, u'', w''⟩
        cases ok <;> rfl
      · rfl

end Taking

/-! ### Pieces -/

theorem writeLoop_short (hle : u.buffer.length + a.length ≤ secSize) :
    u.writeLoop env w a = (true, u, w, a) := by
  rw [writeLoop, if_neg (by omega)]

theorem writeLoop_failed (hlt : secSize < u.buffer.length + a.length)
    (hw : (u.topUp a).writeBuffer env w = (false, u', w')) :
    u.writeLoop env w a = (false, u', w', a) := by
  rw [writeLoop, if_pos hlt]
  split
  · rename_i heq
    rw [hw] at heq
    cases heq
    rfl
  · rename_i heq
    rw [hw] at heq
    cases heq

theorem writeLoop_full (hlt : secSize < u.buffer.length + a.length)
    (hw : (u.topUp a).writeBuffer env w = (true, u', w')) :
    u.writeLoop env w a = u'.writeLoop env w' (a.drop (secSize - u.buffer.length)) := by
  rw [writeLoop, if_pos hlt]
  split
  · rename_i heq
    rw [hw] at heq
    cases heq
  · rename_i heq
    rw [hw] at heq
    cases heq
    rfl

/-- A loop that stops has aborted the update. -/
theorem writeLoop_stopped (h : u.writeLoop env w a = (false, u', w', left)) : u'.error ≠ .ok := by
  fun_induction writeLoop env u w a with
  | case1 u w a hlt u₁ w₁ hw =>
      have hflush := writeBuffer_flush env (u.topUp a) w
      rw [hw] at hflush
      cases h
      exact hflush.aborted.2
  | case2 u w a hlt u₁ w₁ hw ih => exact ih h
  | case3 u w a hlt => cases h

/-- A loop that ends leaves an update with room for whatever had room before, at the position after its
bytes. -/
theorem writeLoop_ended {k : ℕ} (ht : Taking u (a.length + k))
    (h : u.writeLoop env w a = (true, u', w', left)) :
    Taking (u'.fill left) k ∧ u'.size = u.size ∧
      u'.progress + (u'.buffer ++ left).length = u.progress + u.buffer.length + a.length := by
  fun_induction writeLoop env u w a with
  | case1 u w a hlt u₁ w₁ hw => cases h
  | case2 u w a hlt u₁ w₁ hw ih =>
      have hsplit : (a.take (secSize - u.buffer.length)).length
          + (a.drop (secSize - u.buffer.length)).length = a.length := by
        rw [List.length_take, List.length_drop]
        omega
      have hfits := ht.fits
      have hsmall := ht.small
      have htop : Taking (u.topUp a) ((a.drop (secSize - u.buffer.length)).length + k) := by
        apply Taking.fill
        rw [← Nat.add_assoc, hsplit]
        exact ht
      rw [writeBuffer_true hw] at h ih
      obtain ⟨htaking, hsize, hpos⟩ := ih htop.flushed h
      refine ⟨htaking, hsize, ?_⟩
      rw [hpos, flushed_progress, flushed_buffer, topUp_buffer, List.length_append]
      show wrap32 (u.progress + (u.buffer.length + _)) + 0 + _ = _
      rw [wrap32_of_lt (by omega)]
      omega
  | case3 u w a hlt =>
      cases h
      refine ⟨ht.fill, rfl, ?_⟩
      rw [List.length_append, Nat.add_assoc]

theorem topUp_append (hle : secSize - u.buffer.length ≤ a.length) (b : List UInt8) :
    u.topUp (a ++ b) = u.topUp a := by
  rw [topUp, topUp, List.take_append_of_le_length hle]

/-- A loop that stops over `a` stops there over `a ++ b` too. -/
theorem writeLoop_append_stopped (h : u.writeLoop env w a = (false, u', w', left)) (b : List UInt8) :
    u.writeLoop env w (a ++ b) = (false, u', w', left ++ b) := by
  fun_induction writeLoop env u w a with
  | case1 u w a hlt u₁ w₁ hw =>
      rw [← topUp_append (by omega) b] at hw
      rw [writeLoop_failed (by rw [List.length_append]; omega) hw]
      cases h
      rfl
  | case2 u w a hlt u₁ w₁ hw ih =>
      rw [← topUp_append (by omega) b] at hw
      rw [writeLoop_full (by rw [List.length_append]; omega) hw,
        List.drop_append_of_le_length (by omega)]
      exact ih h
  | case3 u w a hlt => cases h

/-- Bytes that do not fill the sector may as well be in the buffer already. -/
theorem settle_writeLoop_fill (hle : u.buffer.length + a.length ≤ secSize) (b : List UInt8) :
    settle env (u.writeLoop env w (a ++ b)) = settle env ((u.fill a).writeLoop env w b) := by
  have hbuf : (u.fill a).buffer.length = u.buffer.length + a.length := by
    rw [fill_buffer, List.length_append]
  have htop : u.topUp (a ++ b) = (u.fill a).topUp b := by
    show { u with buffer := u.buffer ++ (a ++ b).take (secSize - u.buffer.length) }
      = { u with buffer := u.buffer ++ a ++ b.take (secSize - (u.fill a).buffer.length) }
    rw [List.take_append, List.take_of_length_le (by omega), hbuf, List.append_assoc, Nat.sub_sub]
  have hlen : (u.fill a).buffer.length + b.length = u.buffer.length + (a ++ b).length := by
    rw [hbuf, List.length_append, Nat.add_assoc]
  by_cases hmore : secSize < u.buffer.length + (a ++ b).length
  · have hmore' := hmore
    rw [← hlen] at hmore'
    rcases hw : (u.topUp (a ++ b)).writeBuffer env w with ⟨ok, u₁, w₁⟩
    have hw' := hw
    rw [htop] at hw'
    cases ok with
    | false =>
        rw [writeLoop_failed hmore hw, writeLoop_failed hmore' hw']
        rfl
    | true =>
        rw [writeLoop_full hmore hw, writeLoop_full hmore' hw', List.drop_append,
          List.drop_of_length_le (by omega), List.nil_append, hbuf, Nat.sub_sub]
  · rw [writeLoop_short (by omega), writeLoop_short (by omega)]
    have hfill : u.fill (a ++ b) = (u.fill a).fill b := by
      show { u with buffer := u.buffer ++ (a ++ b) } = { u with buffer := u.buffer ++ a ++ b }
      rw [List.append_assoc]
    simp only [settle, hfill]

/-- A loop that ends over `a` can be taken up over `b`. -/
theorem writeLoop_append_ended (h : u.writeLoop env w a = (true, u', w', left)) (b : List UInt8) :
    settle env (u.writeLoop env w (a ++ b)) = settle env ((u'.fill left).writeLoop env w' b) := by
  fun_induction writeLoop env u w a with
  | case1 u w a hlt u₁ w₁ hw => cases h
  | case2 u w a hlt u₁ w₁ hw ih =>
      rw [← topUp_append (by omega) b] at hw
      rw [writeLoop_full (by rw [List.length_append]; omega) hw,
        List.drop_append_of_le_length (by omega)]
      exact ih h
  | case3 u w a hlt =>
      cases h
      exact settle_writeLoop_fill (by omega) b

theorem write_aborted (h : u.error ≠ .ok) (data : List UInt8) : u.write env w data = (0, u, w) := by
  rw [write, if_pos (.inl (by simp [hasError, h]))]

theorem writes_aborted (h : u.error ≠ .ok) (chunks : List (List UInt8)) :
    writes env chunks (u, w) = (u, w) := by
  induction chunks with
  | nil => rfl
  | cons c cs ih =>
      show writes env cs (u.write env w c).2 = (u, w)
      rw [write_aborted h]
      exact ih

/-- What a piece leaves when another byte is to come: an aborted update, or one that takes it. -/
theorem Taking.write_cases {k : ℕ} (env : OtaEnv) (w : World) (h : Taking u (a.length + k))
    (hk : 0 < k) (b : List UInt8) (hb : b.length = k) :
    (u.write env w a).2.1.error ≠ .ok ∧ (u.write env w (a ++ b)).2 = (u.write env w a).2 ∨
      Taking (u.write env w a).2.1 k ∧
        (u.write env w (a ++ b)).2
          = ((u.write env w a).2.1.write env (u.write env w a).2.2 b).2 := by
  have hwhole : Taking u (a ++ b).length := by
    rw [List.length_append, hb]
    exact h
  rw [hwhole.write_eq, (h.mono (by omega)).write_eq]
  rcases hloop : u.writeLoop env w a with ⟨ok, u', w', left⟩
  cases ok with
  | false =>
      rw [writeLoop_append_stopped hloop]
      exact .inl ⟨writeLoop_stopped hloop, rfl⟩
  | true =>
      have ht := (writeLoop_ended h hloop).1
      have hnot : ¬(u'.fill left).buffer.length = (u'.fill left).remaining := by
        have := ht.fits
        rw [ht.remaining_eq]
        omega
      have hsettle : settle env (true, u', w', left) = (u'.fill left, w') := by
        simp only [settle, if_neg hnot]
      rw [hsettle]
      refine .inr ⟨ht, ?_⟩
      rw [writeLoop_append_ended hloop, (hb ▸ ht : Taking (u'.fill left) b.length).write_eq]

/-- **Cutting an image into pieces changes nothing.**  In any environment, with any flash failures: calls
of `write` with pieces that are not empty and fit leave what one call with all of them leaves. -/
theorem writes_flatten (chunks : List (List UInt8)) (hne : chunks ≠ [])
    (hchunks : ∀ c ∈ chunks, c ≠ []) (h : Taking u chunks.flatten.length) :
    writes env chunks (u, w) = (u.write env w chunks.flatten).2 := by
  induction chunks generalizing u w with
  | nil => exact absurd rfl hne
  | cons c cs ih =>
      show writes env cs (u.write env w c).2 = _
      by_cases hcs : cs = []
      · subst hcs
        simp [writes]
      · have hrest : 0 < cs.flatten.length := by
          obtain ⟨d, ds, rfl⟩ := List.exists_cons_of_ne_nil hcs
          have hd := List.length_pos_of_ne_nil (hchunks d (by simp))
          rw [List.flatten_cons, List.length_append]
          omega
        rw [List.flatten_cons, List.length_append] at h
        have hcases := h.write_cases env w hrest cs.flatten rfl
        rcases hwrite : (u.write env w c).2 with ⟨u', w'⟩
        rw [List.flatten_cons]
        rw [hwrite] at hcases
        rcases hcases with ⟨herr, heq⟩ | ⟨ht, heq⟩
        · rw [heq, writes_aborted herr]
        · rw [heq]
          exact ih hcs (fun d hd => hchunks d (List.mem_cons_of_mem _ hd)) ht

/-! ### Memory or connection -/

/-- A round over bytes that have all arrived flushes them if they fill the sector or end the image. -/
theorem round_ready {bs : List UInt8} {ok : Bool} (rest : List Arrival) (hbs : bs ≠ [])
    (hread : u.bytesToRead = bs.length) (hdue : (u.fill bs).flushDue = true)
    (hw : (u.fill bs).writeBuffer env w = (ok, u', w')) :
    u.round env w (bs.map .byte ++ rest) =
      if ok then .next bs.length u' w' rest else .stop u' w' rest := by
  obtain ⟨b, t, rfl⟩ := List.exists_cons_of_ne_nil hbs
  have hready := readRetry_ready hbs rest
  rw [← hread] at hready
  cases ok with
  | false => simp only [round, hready, hdue, hw, if_true, Bool.false_eq_true, if_false]
  | true => simp only [round, hready, hdue, hw, if_true]

/-- The two loops flush the same sectors. -/
theorem settle_eq_writeStreamLoop (data : List UInt8) (written : ℕ) (hdata : data ≠ [])
    (hbuf : u.buffer = []) (hsize : u.size = u.progress + data.length) (hsmall : u.size < 2 ^ 32) :
    settle env (u.writeLoop env w data) =
      ((u.writeStreamLoop env w (data.map .byte) written).2.1,
        (u.writeStreamLoop env w (data.map .byte) written).2.2.1) := by
  induction hk : data.length using Nat.strong_induction_on generalizing u w data written with
  | _ k ih =>
  subst hk
  have hrem : u.remaining = data.length := by
    rw [remaining_of_le (by omega) hsmall]
    omega
  have hpos := List.length_pos_of_ne_nil hdata
  by_cases hle : data.length ≤ secSize
  · -- the last sector
    have hread : u.bytesToRead = data.length := by
      unfold bytesToRead
      rw [hbuf, hrem, List.length_nil]
      split <;> omega
    have hdue : (u.fill data).flushDue = true := by simp [flushDue, hbuf, hrem]
    rw [writeLoop_short (by rw [hbuf, List.length_nil]; omega)]
    have hlast : (u.fill data).buffer.length = (u.fill data).remaining := by simp [hbuf, hrem]
    simp only [settle, if_pos hlast]
    rcases hw : (u.fill data).writeBuffer env w with ⟨ok, u', w'⟩
    have hround := round_ready [] hdata hread hdue hw
    rw [List.append_nil] at hround
    cases ok with
    | false => rw [writeStreamLoop_stop (by omega) hround]
    | true =>
        have hdone : u'.remaining = 0 := by
          rw [writeBuffer_true hw]
          have hprog : (u.fill data).flushed.progress = u.size := by
            rw [flushed_progress, fill_progress, fill_buffer, hbuf, List.nil_append, ← hsize,
              wrap32_of_lt hsmall]
          have hfull : (u.fill data).flushed.progress = (u.fill data).flushed.size := hprog
          rw [remaining_of_le hfull.le hsmall, hfull, Nat.sub_self]
        rw [writeStreamLoop_next (by omega) hround, writeStreamLoop, if_pos hdone]
  · -- a full sector and more
    have hlt : secSize < u.buffer.length + data.length := by
      rw [hbuf, List.length_nil]
      omega
    have htop : u.topUp data = u.fill (data.take secSize) := by
      rw [topUp, hbuf, List.length_nil, Nat.sub_zero]
    have htake : (data.take secSize).length = secSize := List.length_take_of_le (by omega)
    have hread : u.bytesToRead = (data.take secSize).length := by
      unfold bytesToRead
      rw [hbuf, hrem, List.length_nil, htake, if_neg (by omega), Nat.sub_zero]
    have hdue : (u.fill (data.take secSize)).flushDue = true := by simp [flushDue, hbuf, htake]
    have hne : data.take secSize ≠ [] := by
      intro hnil
      rw [hnil] at htake
      simp [secSize] at htake
    rcases hw : (u.fill (data.take secSize)).writeBuffer env w with ⟨ok, u', w'⟩
    have hround := round_ready ((data.drop secSize).map .byte) hne hread hdue hw
    rw [← List.map_append, List.take_append_drop] at hround
    cases ok with
    | false =>
        rw [writeLoop_failed hlt (by rw [htop]; exact hw), writeStreamLoop_stop (by omega) hround]
        rfl
    | true =>
        have hprog : u'.progress = u.progress + secSize := by
          rw [writeBuffer_true hw, flushed_progress, fill_progress, fill_buffer, hbuf, List.nil_append,
            htake, wrap32_of_lt (by omega)]
        have hsize' : u'.size = u.size := by
          rw [writeBuffer_true hw]
          rfl
        have hdrop : (data.drop secSize).length = data.length - secSize := List.length_drop
        rw [writeLoop_full hlt (by rw [htop]; exact hw), writeStreamLoop_next (by omega) hround, hbuf,
          List.length_nil, Nat.sub_zero]
        refine ih (data.drop secSize).length ?_ _ _ ?_ ?_ (by omega) (by omega) rfl
        · simp only [secSize] at *
          omega
        · intro hnil
          rw [hnil, List.length_nil] at hdrop
          omega
        · rw [writeBuffer_true hw]
          rfl

/-- A first byte that is not the magic is refused, whatever follows it. -/
theorem settle_badMagic {data : List UInt8} (hmagic : data.head? ≠ some imageMagic)
    (hcmd : u.command = .flash) (hprog : u.progress = 0) (hbuf : u.buffer = []) (hdata : data ≠ [])
    (hrem : u.remaining = data.length) :
    settle env (u.writeLoop env w data) = (u.abort .magicByte, w) := by
  have hrefuse : ∀ bs : List UInt8, bs.head? = data.head? →
      (u.fill bs).writeBuffer env w = (false, u.abort .magicByte, w) := by
    intro bs hbs
    have hfirst : (u.fill bs).firstBytes = true := (firstBytes_iff hcmd).mpr hprog
    have hhead : (u.fill bs).buffer.head? ≠ some imageMagic := by
      rw [fill_buffer, hbuf, List.nil_append, hbs]
      exact hmagic
    rw [writeBuffer, if_pos ⟨hfirst, hhead⟩]
    rfl
  by_cases hle : data.length ≤ secSize
  · have hlast : (u.fill data).buffer.length = (u.fill data).remaining := by simp [hbuf, hrem]
    rw [writeLoop_short (by rw [hbuf, List.length_nil]; omega)]
    simp only [settle, if_pos hlast, hrefuse data rfl]
  · have htop : u.topUp data = u.fill (data.take secSize) := by
      rw [topUp, hbuf, List.length_nil, Nat.sub_zero]
    have hhead : (data.take secSize).head? = data.head? := by
      obtain ⟨b, bs, rfl⟩ := List.exists_cons_of_ne_nil hdata
      rfl
    rw [writeLoop_failed (by rw [hbuf, List.length_nil]; omega) (by rw [htop]; exact hrefuse _ hhead)]
    rfl

/-- **Memory or connection, it is the same update.**  Right after `begin`, in any environment: writing the
whole image from memory leaves the updater and the world as `writeStream` does over a connection on which
the image has arrived. -/
theorem write_eq_writeStream {p : Partition} {n : ℕ} {image : List UInt8} (env : OtaEnv) (w : World)
    (h : Running p n u) (hprog : u.progress = 0) (hbuf : u.buffer = []) (hpos : 0 < n) (hn : n < 2 ^ 32)
    (hlen : image.length = n) :
    (u.write env w image).2 = ((u.writeStream env w (image.map .byte)).2.1,
      (u.writeStream env w (image.map .byte)).2.2.1) := by
  have ht : Taking u image.length :=
    ⟨h.error, by rw [h.size]; exact hpos, by rw [hprog, hbuf, h.size]; simp [hlen],
      by rw [h.size]; exact hn⟩
  have hgo : ¬(u.hasError ∨ ¬u.isRunning) := by
    simp [hasError, isRunning, h.error, h.size, hpos]
  obtain ⟨b, bs, rfl⟩ : ∃ b bs, image = b :: bs := by
    apply List.exists_cons_of_ne_nil
    intro hnil
    rw [hnil, List.length_nil] at hlen
    omega
  rw [ht.write_eq]
  have hpeek : Arrival.peek ((b :: bs).map .byte) = (some b, (b :: bs).map .byte) := rfl
  rw [writeStream, if_neg hgo]
  simp only [hpeek, Option.getD_some, verifyHeader, h.command]
  split_ifs with hmagic
  · refine settle_badMagic (fun hh => hmagic (Option.some.inj hh)) h.command hprog hbuf (by simp) ?_
    rw [h.remaining_eq hn (by omega), hprog, hlen]
    rfl
  · exact settle_eq_writeStreamLoop (b :: bs) 0 (by simp) hbuf (by rw [h.size, hprog]; omega)
      (by rw [h.size]; exact hn)

/-! ### The whole update -/

/-- `setMD5`. -/
def setMD5 (u : UpdateClass) (expected : List UInt8) : Bool × UpdateClass :=
  if strlen expected ≠ 32 then (false, u) else (true, { u with targetMd5 := cstr expected })

/-- `begin`, `write` for each piece, and `end`. -/
def updateInPieces (env : OtaEnv) (n : ℕ) (chunks : List (List UInt8)) (u : UpdateClass) (w : World) :
    Bool × UpdateClass × World :=
  match u.begin env n .flash with
  | (false, u') => (false, u', w)
  | (true, u') => (writes env chunks (u', w)).1.endUpdate env (writes env chunks (u', w)).2 false

/-- What has been added to the MD5 context, what is in the buffer and what is left make up what there was
and the data. -/
theorem writeLoop_md5 (h : u.writeLoop env w a = (true, u', w', left)) :
    u'.md5 ++ (u'.buffer ++ left) = u.md5 ++ (u.buffer ++ a) := by
  fun_induction writeLoop env u w a with
  | case1 u w a hlt u₁ w₁ hw => cases h
  | case2 u w a hlt u₁ w₁ hw ih =>
      rw [ih h, writeBuffer_true hw]
      show u.md5 ++ (u.buffer ++ a.take _) ++ ([] ++ a.drop _) = _
      rw [List.nil_append, List.append_assoc, List.append_assoc, List.take_append_drop]
  | case3 u w a hlt =>
      cases h
      rfl

/-- The MD5 context of an update whose image is complete holds the image. -/
theorem Taking.write_md5 (env : OtaEnv) (w : World) (h : Taking u a.length)
    (hfull : u.size = u.progress + u.buffer.length + a.length)
    (hok : (u.write env w a).2.1.error = .ok) :
    (u.write env w a).2.1.md5 = u.md5 ++ (u.buffer ++ a) := by
  rw [h.write_eq] at hok ⊢
  rcases hloop : u.writeLoop env w a with ⟨ok, u', w', left⟩
  rw [hloop] at hok
  cases ok with
  | false => exact absurd hok (writeLoop_stopped hloop)
  | true =>
      obtain ⟨ht, hsize, hpos⟩ := @writeLoop_ended env u u' w w' a left 0 h hloop
      have hlast : (u'.fill left).buffer.length = (u'.fill left).remaining := by
        rw [ht.remaining_eq]
        simp only [fill_buffer, fill_size, fill_progress]
        omega
      simp only [settle, if_pos hlast] at hok ⊢
      have hflush := writeBuffer_flush env (u'.fill left) w'
      rcases hw : (u'.fill left).writeBuffer env w' with ⟨ok, u'', w''⟩
      rw [hw] at hflush hok
      cases ok with
      | false => exact absurd hok hflush.aborted.2
      | true =>
          rw [writeBuffer_true hw, ← writeLoop_md5 hloop]
          rfl

theorem begin_md5 {size : ℕ} {command : Command} (h : u.begin env size command = (true, u')) :
    u'.md5 = [] := by
  unfold UpdateClass.begin at h
  split at h
  · cases h
  · simp only at h
    split at h
    · cases h
    · split at h
      · cases h
      · cases h
      · split_ifs at h <;> cases h <;> rfl

/-- What an update in pieces comes to: nothing is switched, or exactly the image is in place. -/
structure CommitsPieces (env : OtaEnv) (p : Partition) (image : List UInt8) (u : UpdateClass) (w : World)
    (r : Bool × UpdateClass × World) : Prop where
  idle : r.2.1.isRunning = false
  kept : r.1 = false → r.2.2.boot = w.boot
  magic : r.1 = true → image.head? = some imageMagic
  switched : r.1 = true → r.2.2.boot = p.address ∧ slice r.2.2.flash p.address image.length = image
  md5 : r.1 = true → u.targetMd5 = [] ∨ u.targetMd5 = env.md5Hex image

/-- The end of an update in pieces. -/
theorem endUpdate_commitsPieces {p : Partition} {image : List UInt8} {u₀ u₁ : UpdateClass} {w₁ : World}
    (hpos : 0 < image.length) (hend : LoopEnd p image.length w image u₁ w₁)
    (htarget : u₁.targetMd5 = u₀.targetMd5) (hmd5 : u₁.error = .ok → u₁.md5 = image) :
    CommitsPieces env p image u₀ w (u₁.endUpdate env w₁ false) := by
  obtain ⟨hquiet, hend⟩ := hend
  have hboot : ∀ {w₂}, World.Extends Event.Unswitched w w₂ → w₂.boot = w.boot := by
    intro w₂ h
    obtain ⟨es, rfl, hes⟩ := h
    exact World.run_boot w es fun a ha => (hes _ ha).2 a rfl
  have hkept := hquiet.mono fun e => Event.Quiet.unswitched
  rcases hend with ⟨hsize, -⟩ | ⟨hrun, hprog, -, hst⟩
  · rw [endUpdate_idle hsize]
    exact ⟨by simp [isRunning, hsize], fun _ => hboot hkept, by simp, by simp, by simp⟩
  · have hgo : ¬(u₁.hasError = true ∨ u₁.size = 0) := by
      have := hrun.size
      simp only [hasError, hrun.error]
      simp
      omega
    have hfin : ¬¬u₁.isFinished = true := by simp [isFinished, hprog, hrun.size]
    rw [endUpdate_false, if_neg hgo, if_neg hfin, htarget, hmd5 hrun.error]
    split_ifs with hsum
    · exact ⟨rfl, fun _ => hboot hkept, by simp, by simp, by simp⟩
    · have hsum' : u₀.targetMd5 = [] ∨ u₀.targetMd5 = env.md5Hex image := by
        by_contra hno
        rw [not_or] at hno
        exact hsum hno
      have hending := @verifyEnd_ending env u₁ w₁ p hrun.command hrun.partition
      rcases hv : u₁.verifyEnd env w₁ with ⟨ok, u₂, w₂⟩
      rw [hv] at hending
      cases ok with
      | false =>
          obtain ⟨hsize, hext⟩ := hending.failed (P := Event.Unswitched) (fun _ => ⟨by simp, by simp⟩)
            (fun _ => ⟨by simp, by simp⟩) ⟨by simp, by simp⟩
          exact ⟨by simp [isRunning, hsize], fun _ => hboot (hkept.trans hext), by simp, by simp, by simp⟩
      | true =>
          obtain ⟨rfl, rfl⟩ := hending.succeeded
          refine ⟨rfl, by simp, fun _ => (hst hpos).2.1, fun _ => ⟨rfl, ?_⟩, fun _ => hsum'⟩
          show slice (program w₁.flash p.address ((slice w₁.flash p.address 4).set 0 imageMagic)) _ _ = _
          rw [program_slice_magic (hst hpos).1, hst.slice_eq hpos le_rfl, List.take_length]

/-- **An update in pieces commits exactly the image, or nothing.**  Whatever the pieces, as long as none
is empty, whatever fails on the way and whatever MD5 sum is expected: `end` returns `true` only if the
partition holds the pieces, one after another, and boots from it; else the boot selection is the old one.
On a device that works it does return `true`, for an image that starts with the magic and has the
expected sum. -/
theorem updateInPieces_commits (env : OtaEnv) (p : Partition) (chip : ℕ) (chunks : List (List UInt8))
    (u : UpdateClass) (w : World) (hpart : env.nextUpdatePartition = some p) (hchip : chip < 2 ^ 32)
    (hrej : env.RejectsOutside chip) (hidle : u.isRunning = false) (hne : chunks ≠ [])
    (hchunks : ∀ c ∈ chunks, c ≠ []) (hlen : chunks.flatten.length < 0xFFFFFFFF) :
    CommitsPieces env p chunks.flatten u w
        (updateInPieces env chunks.flatten.length chunks u w) ∧
      (env.Works p chip → chunks.flatten.length ≤ p.size →
        chunks.flatten.head? = some imageMagic →
        (u.targetMd5 = [] ∨ u.targetMd5 = env.md5Hex chunks.flatten) →
        (updateInPieces env chunks.flatten.length chunks u w).1 = true) := by
  set image := chunks.flatten with himage
  have hpos : 0 < image.length := by
    obtain ⟨c, cs, rfl⟩ := List.exists_cons_of_ne_nil hne
    have hc := List.length_pos_of_ne_nil (hchunks c (by simp))
    rw [himage, List.flatten_cons, List.length_append]
    omega
  have hsize : u.size = 0 := by simpa [isRunning] using hidle
  rcases @begin_cases env _ _ hsize hpos (show image.length ≠ 0xFFFFFFFF by omega) with
    ⟨u', hbegin, hsize', hwhy⟩ | ⟨q, u', hq, hfits, hbegin, hrun, hprog, hbuf⟩
  · simp only [updateInPieces, hbegin]
    refine ⟨⟨by simp [isRunning, hsize'], fun _ => rfl, by simp, by simp, by simp⟩, ?_⟩
    intro hworks hle
    have hno := hwhy p hpart hle
    rw [hworks.malloc] at hno
    cases hno
  · obtain rfl : p = q := Option.some.inj (hpart.symm.trans hq)
    have ht : Taking u' image.length :=
      ⟨hrun.error, by rw [hrun.size]; exact hpos, by rw [hprog, hbuf, hrun.size]; simp,
        by rw [hrun.size]; omega⟩
    have hwrites : writes env chunks (u', w) = (u'.write env w image).2 := writes_flatten chunks hne hchunks ht
    have hstream := write_eq_writeStream env w hrun hprog hbuf hpos (by omega) rfl
    have hbytes := Arrival.bytesOf_map_byte image
    have htarget := (writeStream_targetMd5 env u' w (image.map .byte)).trans
      ((congrArg (·.2.targetMd5) hbegin).symm.trans (begin_targetMd5 env u image.length .flash))
    have hmd5 := ht.write_md5 env w (by rw [hrun.size, hprog, hbuf]; simp)
    have hend := writeStream_end w (image.map .byte) hrun hprog hbuf hpos (by omega) hfits hchip
      hrej
    simp only [updateInPieces, hbegin, hwrites]
    rw [begin_md5 hbegin, hbuf, List.nil_append, List.nil_append, hstream] at hmd5
    rw [hbytes] at hend
    rw [hstream]
    refine ⟨endUpdate_commitsPieces hpos hend htarget hmd5, fun hworks hle hhead hsum => ?_⟩
    have hsteady : Steady true (image.map .byte) := by
      have h := steady_deliver atOnce (show Arrival.bytesOf [] = [] from rfl) image 0 (by simp [atOnce])
      simp only [deliver_atOnce, List.append_nil] at h
      exact h true (by simp [atOnce])
    obtain ⟨-, hrun'⟩ := writeStream_complete hworks hrun hprog hbuf hpos hle w hsteady (by rw [hbytes])
      (by rw [hbytes]; exact hhead)
    rcases hend.2 with ⟨hzero, -⟩ | ⟨-, hdone, -, hst⟩
    · have := hrun'.size
      omega
    · rw [endUpdate_works hworks hrun' hpos hle hdone (hst hpos).1
        (by rw [htarget, hmd5 hrun'.error]; exact hsum)]

/-- Two pieces, the second across the end of a sector. -/
def acrossSector : List (List UInt8) := [imageMagic :: List.replicate 3999 0, List.replicate 1000 1]

theorem acrossSector_length : acrossSector.flatten.length = 5000 := by
  simp only [acrossSector, List.flatten_cons, List.flatten_nil, List.length_append, List.length_cons,
    List.length_replicate, List.length_nil]

theorem acrossSector_nonempty : ∀ c ∈ acrossSector, c ≠ [] := by
  intro c hc
  rw [acrossSector, List.mem_pair] at hc
  rcases hc with rfl | rfl
  · exact List.cons_ne_nil _ _
  · exact List.replicate_succ_ne_nil

theorem updateInPieces_commits_ota0 :
    (updateInPieces (.healthy ota0 0x400000) acrossSector.flatten.length acrossSector .init
      .initial).1 = true :=
  (updateInPieces_commits (.healthy ota0 0x400000) ota0 0x400000 acrossSector .init .initial rfl
    (by decide) (OtaEnv.healthy_rejectsOutside _ _) rfl (List.cons_ne_nil _ _) acrossSector_nonempty
    (by rw [acrossSector_length]; decide)).2
    (OtaEnv.healthy_works (by decide) (by decide) (by decide)) (by rw [acrossSector_length]; decide) rfl
    (.inl rfl)

end UpdateClass

end EspFirmware
