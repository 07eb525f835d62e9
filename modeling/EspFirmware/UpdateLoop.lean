import EspFirmware.FirmwareUpdates

/-!
# Rounds of the update loop

What every result about a running update needs: the numbers a round works with, and what a flush does to
the flash and to the boot selection.

* `Running` — the part of the updater's state that no round of the loop changes;
* `remaining_of_le`, `remaining_of_lt` — `remaining()` before and after `_progress` has passed `_size`;
* `fill_due_iff`, `not_due_iff` — the flush test after a read;
* `Flush.extends`, `Flush.aborted`, `Flush.flash_done` — the effects of a flush;
* `Ending`, `verifyEnd_ending` — everything `_verifyEnd` can do, with the events it leaves;
* `begin_cases`, `Running.endUpdate` — how an update starts and ends;
* `processFirmwareUpdateResponse_cases`, `download_eq` — the callback taken apart.
-/

namespace EspFirmware

open NorFlash

/-- An event that neither selects what boots nor restarts the device. -/
def Event.Quiet : Event → Prop
  | .setBoot _ _ => False
  | .restart => False
  | _ => True

/-- An event other than a call of `begin`. -/
def Event.Ongoing : Event → Prop
  | .beginCalled _ => False
  | _ => True

/-- An event of the end of a download: no call of `begin`, and no progress. -/
def Event.Closing : Event → Prop
  | .op _ _ => True
  | .setBoot _ _ => True
  | .fatalError _ => True
  | .restart => True
  | _ => False

theorem Event.Closing.ongoing {e : Event} (h : e.Closing) : e.Ongoing := by
  cases e with
  | beginCalled _ => exact h.elim
  | _ => trivial

namespace UpdateClass

variable {env : OtaEnv} {u u' : UpdateClass} {w w' : World} {p : Partition} {n : ℕ}

/-- A running firmware update of `n` bytes into `p`, between two rounds of the loop. -/
structure Running (p : Partition) (n : ℕ) (u : UpdateClass) : Prop where
  size : u.size = n
  command : u.command = .flash
  error : u.error = .ok
  partition : u.partition = some p
  room : u.buffer.length < secSize

@[simp] theorem fill_buffer (bs : List UInt8) : (u.fill bs).buffer = u.buffer ++ bs := rfl

@[simp] theorem fill_progress (bs : List UInt8) : (u.fill bs).progress = u.progress := rfl

@[simp] theorem fill_size (bs : List UInt8) : (u.fill bs).size = u.size := rfl

@[simp] theorem fill_command (bs : List UInt8) : (u.fill bs).command = u.command := rfl

@[simp] theorem fill_remaining (bs : List UInt8) : (u.fill bs).remaining = u.remaining := rfl

@[simp] theorem fill_nextAddress (bs : List UInt8) : (u.fill bs).nextAddress = u.nextAddress := rfl

@[simp] theorem flushed_buffer : u.flushed.buffer = [] := rfl

@[simp] theorem flushed_size : u.flushed.size = u.size := rfl

@[simp] theorem flushed_progress :
    u.flushed.progress = wrap32 (u.progress + u.buffer.length) := rfl

@[simp] theorem abort_size (err : UpdateError) : (u.abort err).size = 0 := rfl

@[simp] theorem abort_error (err : UpdateError) : (u.abort err).error = err := rfl

/-! ### The numbers of a round -/

theorem remaining_of_le (hle : u.progress ≤ u.size) (hsize : u.size < 2 ^ 32) :
    u.remaining = u.size - u.progress := by
  rw [remaining, wrap32]
  omega

theorem remaining_of_lt (hlt : u.size < u.progress) :
    u.remaining = 2 ^ 32 + u.size - u.progress := by
  rw [remaining, wrap32_of_lt]
  omega

theorem bytesToRead_le : u.bytesToRead ≤ u.remaining ∧ u.bytesToRead ≤ secSize - u.buffer.length := by
  unfold bytesToRead
  split <;> omega

/-- The flush test after a read of `bs`. -/
theorem fill_due_iff {bs : List UInt8} : (u.fill bs).flushDue = true ↔
    u.buffer.length + bs.length = u.remaining ∨ u.buffer.length + bs.length = secSize := by
  simp [flushDue]

theorem not_due_iff {bs : List UInt8} : (u.fill bs).flushDue = false ↔
    u.buffer.length + bs.length ≠ u.remaining ∧ u.buffer.length + bs.length ≠ secSize := by
  rw [← Bool.not_eq_true, fill_due_iff, not_or]

theorem firstBytes_iff (h : u.command = .flash) : u.firstBytes = true ↔ u.progress = 0 := by
  simp [firstBytes, h]

namespace Running

theorem fill (h : Running p n u) {bs : List UInt8}
    (hroom : (u.buffer ++ bs).length < secSize) : Running p n (u.fill bs) :=
  ⟨h.size, h.command, h.error, h.partition, hroom⟩

theorem flushed (h : Running p n u) {bs : List UInt8} : Running p n (u.fill bs).flushed :=
  ⟨h.size, h.command, h.error, h.partition, by simp [secSize]⟩

/-- While the image fits, the next sector's address does not wrap. -/
theorem nextAddress_eq (h : Running p n u) (hlt : p.address + u.progress < 2 ^ 32) :
    u.nextAddress = p.address + u.progress := by
  rw [nextAddress, partitionAddress, h.partition]
  exact wrap32_of_lt hlt

theorem remaining_eq (h : Running p n u) (hn : n < 2 ^ 32) (hle : u.progress ≤ n) :
    u.remaining = n - u.progress := by
  rw [remaining_of_le (by rw [h.size]; exact hle) (by rw [h.size]; exact hn), h.size]

/-- Past the end of the image `remaining()` has wrapped. -/
theorem remaining_past (h : Running p n u) (hgt : n < u.progress) :
    u.remaining = 2 ^ 32 + n - u.progress := by
  rw [remaining_of_lt (by rw [h.size]; exact hgt), h.size]

/-- What the next read of a running update may return. -/
theorem read_le (h : Running p n u) {client client' : List Arrival} {bs : List UInt8}
    (hr : readRetry u.bytesToRead client = (bs, client')) :
    Arrival.bytesOf client = bs ++ Arrival.bytesOf client' ∧
      bs.length ≤ u.remaining ∧ u.buffer.length + bs.length ≤ secSize := by
  obtain ⟨h₁, h₂, -⟩ := readRetry_spec u.bytesToRead client
  rw [hr] at h₁ h₂
  simp only at h₂
  have hle := bytesToRead_le (u := u)
  have hroom := h.room
  exact ⟨h₁, by omega, by omega⟩

end Running

/-- A list cut at a length it has. -/
theorem exists_split {α : Type} {bs : List α} {k : ℕ} (h : k ≤ bs.length) :
    ∃ cs ds, bs = cs ++ ds ∧ cs.length = k :=
  ⟨bs.take k, bs.drop k, (List.take_append_drop k bs).symm, List.length_take_of_le h⟩

/-- Bytes that have all arrived are read in one go. -/
theorem readRetry_ready {bs : List UInt8} (hbs : bs ≠ []) (s : List Arrival) :
    readRetry bs.length (bs.map .byte ++ s) = (bs, s) := by
  unfold readRetry
  rw [Arrival.readBytes_ready]
  split
  · rename_i heq
    simp only [Prod.mk.injEq] at heq
    exact absurd heq.1 hbs
  · rfl

/-- The loop goes on after a round that did not stop. -/
theorem writeStreamLoop_next {client client' : List Arrival} {written got : ℕ}
    (hrem : u.remaining ≠ 0) (h : u.round env w client = .next got u' w' client') :
    u.writeStreamLoop env w client written
      = u'.writeStreamLoop env w' client' (wrap32 (written + got)) := by
  rw [writeStreamLoop, if_neg hrem]
  split
  · rename_i heq
    rw [h] at heq
    cases heq
  · rename_i heq
    rw [h] at heq
    cases heq
    rfl

/-- The loop ends with a round that stops. -/
theorem writeStreamLoop_stop {client client' : List Arrival} {written : ℕ} (hrem : u.remaining ≠ 0)
    (h : u.round env w client = .stop u' w' client') :
    u.writeStreamLoop env w client written = (written, u', w', client') := by
  rw [writeStreamLoop, if_neg hrem]
  split
  · rename_i heq
    rw [h] at heq
    cases heq
    rfl
  · rename_i heq
    rw [h] at heq
    cases heq

/-! ### The effects of a flush -/

/-- The events of a flush satisfy whatever its two operations and its reports satisfy. -/
theorem Flush.extends {P : Event → Prop} {ok : Bool} (h : Flush env u w (ok, u', w'))
    (hstart : u.progress = 0 → P (.progress u.progress u.size))
    (hreport : P (.progress u.flushed.progress u.size)) (herase : ∀ r, P (.op u.eraseOp r))
    (hwrite : ∀ r, P (.op u.writeOp r)) : World.Extends P w w' := by
  have hs : ∀ e ∈ u.startReports, P e := by
    intro e he
    unfold startReports reports at he
    split_ifs at he with h0 hc
    · rw [List.mem_singleton.mp he]
      exact hstart h0
    · simp at he
    · simp at he
  have hr : ∀ e ∈ u.flushed.reports, P e := by
    intro e he
    unfold reports at he
    split_ifs at he
    · rw [List.mem_singleton.mp he]
      exact hreport
    · simp at he
  have hstarted := (World.Extends.refl P w).run hs
  cases h with
  | badMagic => exact .refl P w
  | eraseFailed k =>
      rw [World.run_append]
      exact hstarted.step (herase _)
  | writeFailed k =>
      rw [World.run_append]
      exact (hstarted.step (herase _)).step (hwrite _)
  | done =>
      rw [World.run_append, World.run_append]
      exact ((hstarted.step (herase _)).step (hwrite _)).run hr

theorem run_reports_flash : (w.run u.reports).flash = w.flash := by
  unfold reports
  split
  · exact World.step_flash w (.progress _ _) (by simp)
  · rfl

theorem run_startReports_flash : (w.run u.startReports).flash = w.flash := by
  unfold startReports
  split
  · exact run_reports_flash
  · rfl

/-- A flush only operates on the flash and reports. -/
theorem Flush.quiet {ok : Bool} (h : Flush env u w (ok, u', w')) :
    World.Extends Event.Quiet w w' :=
  h.extends (fun _ => trivial) trivial (fun _ => trivial) (fun _ => trivial)

/-- A failed flush aborts the update. -/
theorem Flush.aborted (h : Flush env u w (false, u', w')) :
    u'.size = 0 ∧ u'.error ≠ .ok := by
  cases h <;> simp

/-- A flush that succeeds has passed the magic test, was allowed to erase, and leaves the state and
world it names. -/
theorem Flush.done_eq (h : Flush env u w (true, u', w')) :
    u' = u.flushed ∧ (u.firstBytes = true → u.buffer.head? = some imageMagic) ∧
      (env.flash (u.flushIndex w) u.eraseOp = .ok ∧ env.flash (u.flushIndex w + 1) u.writeOp = .ok) ∧
      w' = w.run (u.startReports ++ [.op u.eraseOp .ok, .op u.writeOp .ok] ++ u.flushed.reports) := by
  cases h with
  | done hm he hw => exact ⟨rfl, hm, ⟨he, hw⟩, rfl⟩

/-- Where both flash operations work and the magic is there, a flush succeeds. -/
theorem Flush.succeeds {r : Bool × UpdateClass × World} (h : Flush env u w r)
    (hmagic : u.firstBytes = true → u.buffer.head? = some imageMagic)
    (herase : ∀ i, env.flash i u.eraseOp = .ok) (hwrite : ∀ i, env.flash i u.writeOp = .ok) :
    r = (true, u.flushed,
      w.run (u.startReports ++ [.op u.eraseOp .ok, .op u.writeOp .ok] ++ u.flushed.reports)) := by
  cases h with
  | badMagic hf hm => exact absurd (hmagic hf) hm
  | eraseFailed k _ he =>
      rw [herase] at he
      cases he
  | writeFailed k _ _ hw =>
      rw [hwrite] at hw
      cases hw
  | done => rfl

/-- The cells after a successful flush. -/
theorem Flush.flash_done (h : Flush env u w (true, u', w')) :
    w'.flash = program (erase w.flash (u.nextAddress / secSize * secSize) secSize)
      u.nextAddress u.flushData := by
  obtain ⟨-, -, -, rfl⟩ := h.done_eq
  rw [World.run_append, World.run_append, run_reports_flash]
  simp only [World.run_cons, World.run_nil, World.step_op_flash, run_startReports_flash]
  rfl

/-- The byte at offset `i` of the data a flush writes. -/
theorem flushData_getD (h : u.command = .flash) (i : ℕ) (hi : 0 < u.progress + i) :
    u.flushData.getD i 0 = u.buffer.getD i 0 := by
  unfold flushData
  split
  · rename_i hf
    have hp := (firstBytes_iff h).mp hf
    rw [List.getD_eq_getElem?_getD, List.getD_eq_getElem?_getD, List.getElem?_set_ne (by omega)]
  · rfl

theorem flushData_length : u.flushData.length = u.buffer.length := by
  unfold flushData
  split <;> simp

/-- The withheld magic: the first byte a flush writes to the partition is blank. -/
theorem flushData_head (h : u.command = .flash) (hp : u.progress = 0) (hb : u.buffer ≠ []) :
    u.flushData.getD 0 0 = blank := by
  obtain ⟨b, bs, hbuf⟩ := List.exists_cons_of_ne_nil hb
  rw [flushData, if_pos ((firstBytes_iff h).mpr hp), hbuf]
  rfl

/-- The loop only adds events. -/
theorem writeStreamLoop_extends (env : OtaEnv) (u : UpdateClass) (w : World)
    (client : List Arrival) (written : ℕ) :
    World.Extends Event.Ongoing w (u.writeStreamLoop env w client written).2.2.1 := by
  apply writeStreamLoop_rule (I := fun _ w' _ => World.Extends Event.Ongoing w w')
    (R := fun _ w' _ => World.Extends Event.Ongoing w w')
  · intro _ _ _ hI _
    exact hI
  · intro u₁ w₁ _ _ _ _ hI _ hround
    cases hround with
    | stalled => exact hI
    | flushFailed _ _ _ _ _ _ _ hflush =>
        exact hI.trans (hflush.extends (fun _ => trivial) trivial (fun _ => trivial) fun _ => trivial)
  · intro u₁ w₁ _ _ _ _ _ hI _ hround
    cases hround with
    | filled => exact hI
    | flushed _ _ _ _ _ _ _ hflush =>
        exact hI.trans (hflush.extends (fun _ => trivial) trivial (fun _ => trivial) fun _ => trivial)
  · exact .refl _ w

/-- `writeStream` only adds events. -/
theorem writeStream_extends (env : OtaEnv) (u : UpdateClass) (w : World) (client : List Arrival) :
    World.Extends Event.Ongoing w (u.writeStream env w client).2.2.1 := by
  unfold writeStream
  split
  · exact .refl _ w
  · simp only
    split
    · exact .refl _ w
    · exact writeStreamLoop_extends _ _ _ _ _

/-- `writeStream` of a running update goes by the byte it peeks at. -/
theorem Running.writeStream_eq (h : Running p n u) (hpos : 0 < n) (env : OtaEnv) (w : World)
    (client : List Arrival) :
    u.writeStream env w client =
      if (Arrival.peek client).1 = some imageMagic then
        u.writeStreamLoop env w (Arrival.peek client).2 0
      else (0, (u.abort .magicByte).reset, w, (Arrival.peek client).2) := by
  have hgo : ¬(u.hasError ∨ ¬u.isRunning) := by
    simp [hasError, isRunning, h.error, h.size, hpos]
  rw [writeStream, if_neg hgo]
  rcases Arrival.peek client with ⟨_ | b, client'⟩
  · simp only [verifyHeader, h.command]
    rfl
  · simp only [verifyHeader, h.command, Option.getD_some, Option.some.injEq]
    by_cases hmagic : b = imageMagic
    · simp only [hmagic, ne_eq, not_true, if_false, if_true]
    · simp only [hmagic, ne_eq, not_false_eq_true, if_false, if_true]

/-- `writeStream` of a running update: the peeked byte is refused, or the loop runs over an unchanged
stream that starts with the magic. -/
theorem Running.writeStream_cases (h : Running p n u) (hpos : 0 < n) (env : OtaEnv) (w : World)
    (client : List Arrival) :
    u.writeStream env w client
        = (0, (u.abort .magicByte).reset, w, (Arrival.peek client).2) ∨
      (Arrival.bytesOf client).head? = some imageMagic ∧
      Arrival.bytesOf (Arrival.peek client).2 = Arrival.bytesOf client ∧
      u.writeStream env w client = u.writeStreamLoop env w (Arrival.peek client).2 0 := by
  rw [h.writeStream_eq hpos]
  split_ifs with hmagic
  · obtain ⟨t, ht, hbytes⟩ := Arrival.peek_some (Prod.ext hmagic rfl)
    refine .inr ⟨?_, hbytes, rfl⟩
    rw [← hbytes, ht]
    rfl
  · exact .inl rfl

/-! ### What `_verifyEnd` can do -/

/-- The read `_enablePartition` and `_partitionIsBootable` issue. -/
def headRead (p : Partition) : FlashOp := .read p.address 4

/-- The write `_enablePartition` issues: the four bytes read, with the magic in front. -/
def magicWrite (p : Partition) (w : World) : FlashOp :=
  .write p.address ((slice w.flash p.address 4).set 0 imageMagic)

/-- **Everything `_verifyEnd` can do** for a firmware update into `p`, with the events it leaves. -/
inductive Ending (env : OtaEnv) (p : Partition) (u : UpdateClass) (w : World) :
    Bool × UpdateClass × World → Prop
  | readFailed (k : ℕ) :
      Ending env p u w (false, u.abort .read, w.run [.op (headRead p) (.failed k)])
  | writeFailed (k : ℕ) :
      Ending env p u w (false, u.abort .read,
        w.run [.op (headRead p) .ok, .op (magicWrite p w) (.failed k)])
  | notBootable (r : Outcome) :
      Ending env p u w (false, u.abort .read,
        w.run [.op (headRead p) .ok, .op (magicWrite p w) .ok, .op (headRead p) r])
  | notActivated : env.setBootOk = false →
      Ending env p u w (false, u.abort .activate,
        w.run [.op (headRead p) .ok, .op (magicWrite p w) .ok, .op (headRead p) .ok,
          .setBoot p.address false])
  | committed : env.setBootOk = true →
      Ending env p u w (true, u.reset,
        w.run [.op (headRead p) .ok, .op (magicWrite p w) .ok, .op (headRead p) .ok,
          .setBoot p.address true])

theorem flashRead_ok {addr len : ℕ} (h : env.flash w.trace.length (.read addr len) = .ok) :
    flashRead env w addr len = (some (slice w.flash addr len), w.step (.op (.read addr len) .ok)) := by
  rw [flashRead, flashOp_ok h]

theorem flashRead_failed {addr len k : ℕ}
    (h : env.flash w.trace.length (.read addr len) = .failed k) :
    flashRead env w addr len = (none, w.step (.op (.read addr len) (.failed k))) := by
  rw [flashRead, flashOp_failed h]

theorem enablePartition_cases (env : OtaEnv) (p : Partition) (w : World) :
    (∃ k, enablePartition env w p.address = (false, w.run [.op (headRead p) (.failed k)])) ∨
    (∃ k, enablePartition env w p.address
      = (false, w.run [.op (headRead p) .ok, .op (magicWrite p w) (.failed k)])) ∨
    enablePartition env w p.address
      = (true, w.run [.op (headRead p) .ok, .op (magicWrite p w) .ok]) := by
  rcases hread : env.flash w.trace.length (.read p.address 4) with _ | k
  · rw [enablePartition, flashRead_ok hread]
    rcases hwrite : env.flash (w.step (.op (headRead p) .ok)).trace.length (magicWrite p w) with _ | k
    · exact .inr (.inr (flashOp_ok hwrite))
    · exact .inr (.inl ⟨k, flashOp_failed hwrite⟩)
  · rw [enablePartition, flashRead_failed hread]
    exact .inl ⟨k, rfl⟩

theorem partitionIsBootable_cases (env : OtaEnv) (p : Partition) (w : World) :
    (∃ r, partitionIsBootable env w p.address = (false, w.run [.op (headRead p) r])) ∨
    partitionIsBootable env w p.address = (true, w.run [.op (headRead p) .ok]) := by
  rcases hread : env.flash w.trace.length (.read p.address 4) with _ | k
  · rw [partitionIsBootable, flashRead_ok hread]
    by_cases hmagic : (slice w.flash p.address 4).head? = some imageMagic
    · exact .inr (by simp [hmagic, headRead])
    · exact .inl ⟨.ok, by simp [hmagic, headRead]⟩
  · rw [partitionIsBootable, flashRead_failed hread]
    exact .inl ⟨.failed k, rfl⟩

theorem verifyEnd_ending (hcmd : u.command = .flash) (hpart : u.partition = some p) :
    Ending env p u w (u.verifyEnd env w) := by
  simp only [verifyEnd, hcmd, hpart]
  rcases enablePartition_cases env p w with ⟨k, he⟩ | ⟨k, he⟩ | he
  · rw [he]
    exact .readFailed k
  · rw [he]
    exact .writeFailed k
  · rw [he]
    rcases partitionIsBootable_cases env p (w.run [.op (headRead p) .ok, .op (magicWrite p w) .ok])
      with ⟨r, hb⟩ | hb
    · simp only [hb]
      exact .notBootable r
    · simp only [hb]
      split_ifs with hset
      · rw [hset]
        exact .committed hset
      · rw [Bool.not_eq_true] at hset
        rw [hset]
        exact .notActivated hset

/-- A failed end leaves an idle updater, and no switch. -/
theorem Ending.failed {P : Event → Prop} (h : Ending env p u w (false, u', w'))
    (hread : ∀ r, P (.op (headRead p) r)) (hwrite : ∀ r, P (.op (magicWrite p w) r))
    (hset : P (.setBoot p.address false)) : u'.size = 0 ∧ World.Extends P w w' := by
  have hstart := World.Extends.refl P w
  cases h with
  | readFailed k => exact ⟨rfl, hstart.step (hread _)⟩
  | writeFailed k => exact ⟨rfl, (hstart.step (hread _)).step (hwrite _)⟩
  | notBootable r => exact ⟨rfl, ((hstart.step (hread _)).step (hwrite _)).step (hread _)⟩
  | notActivated _ =>
      exact ⟨rfl, (((hstart.step (hread _)).step (hwrite _)).step (hread _)).step hset⟩

/-- A successful end puts the magic in place and then switches. -/
theorem Ending.succeeded (h : Ending env p u w (true, u', w')) :
    u' = u.reset ∧
      w' = w.run [.op (headRead p) .ok, .op (magicWrite p w) .ok, .op (headRead p) .ok,
        .setBoot p.address true] := by
  cases h with
  | committed _ => exact ⟨rfl, rfl⟩

theorem Ending.extends {r : Bool × UpdateClass × World} (h : Ending env p u w r) :
    World.Extends Event.Closing w r.2.2 := by
  cases h <;> exact ⟨_, rfl, by simp [Event.Closing]⟩

theorem verifyEnd_extends (env : OtaEnv) (u : UpdateClass) (w : World) :
    World.Extends Event.Closing w (u.verifyEnd env w).2.2 := by
  cases hcmd : u.command with
  | flash =>
      cases hpart : u.partition with
      | none =>
          simp only [verifyEnd, hcmd, hpart]
          exact .refl _ w
      | some p => exact (verifyEnd_ending hcmd hpart).extends
  | spiffs =>
      simp only [verifyEnd, hcmd]
      exact .refl _ w
  | other =>
      simp only [verifyEnd, hcmd]
      exact .refl _ w

/-- `end()` as the download calls it. -/
theorem endUpdate_false (env : OtaEnv) (u : UpdateClass) (w : World) :
    u.endUpdate env w false =
      if u.hasError ∨ u.size = 0 then (false, u, w)
      else if ¬u.isFinished then (false, u.abort .abort, w)
      else if u.targetMd5 ≠ [] ∧ u.targetMd5 ≠ env.md5Hex u.md5 then (false, u.abort .md5, w)
      else u.verifyEnd env w := by
  simp only [endUpdate, Bool.false_eq_true, if_false, not_false_eq_true, and_true]

/-- `end()` only adds events. -/
theorem endUpdate_extends (env : OtaEnv) (u : UpdateClass) (w : World) :
    World.Extends Event.Closing w (u.endUpdate env w false).2.2 := by
  rw [endUpdate_false]
  split
  · exact .refl _ w
  · split
    · exact .refl _ w
    · split
      · exact .refl _ w
      · exact verifyEnd_extends env u w

/-- `end()` refuses an updater that is not running. -/
theorem endUpdate_idle (h : u.size = 0) : u.endUpdate env w false = (false, u, w) := by
  rw [endUpdate_false, if_pos (.inr h)]

/-- `end()` of a complete update checks the MD5 sum, if one was set, and goes on to `_verifyEnd`. -/
theorem Running.endUpdate (h : Running p n u) (hpos : 0 < n) (hprog : u.progress = n) :
    u.endUpdate env w false = (false, u.abort .md5, w) ∨
      Ending env p u w (u.endUpdate env w false) := by
  have hok : ¬(u.hasError = true ∨ u.size = 0) := by
    simp only [hasError, h.error, h.size]
    simp
    omega
  have hfin : ¬¬u.isFinished = true := by simp [isFinished, hprog, h.size]
  rw [endUpdate_false, if_neg hok, if_neg hfin]
  split_ifs with hmd5
  · exact .inl rfl
  · exact .inr (verifyEnd_ending h.command h.partition)

/-- What `begin` of a firmware update leaves, called while the updater is idle. -/
theorem begin_cases (hidle : u.size = 0) (hpos : 0 < n) (hn : n ≠ 0xFFFFFFFF) :
    (∃ u', u.begin env n .flash = (false, u') ∧ u'.size = 0 ∧
        ∀ p, env.nextUpdatePartition = some p → n ≤ p.size → env.mallocOk = false) ∨
      ∃ p u', env.nextUpdatePartition = some p ∧ n ≤ p.size ∧ u.begin env n .flash = (true, u') ∧
        Running p n u' ∧ u'.progress = 0 ∧ u'.buffer = [] := by
  rw [UpdateClass.begin, if_neg (by omega)]
  simp only [if_neg (show ¬n = 0 by omega), if_neg hn]
  cases hp : env.nextUpdatePartition with
  | none => exact .inl ⟨_, rfl, rfl, by simp⟩
  | some p =>
      simp only
      split_ifs with hsize hmalloc
      · refine .inl ⟨_, rfl, rfl, fun q hq hle => ?_⟩
        rw [← Option.some.inj hq] at hle
        omega
      · exact .inr ⟨p, _, rfl, by omega, rfl, ⟨rfl, rfl, rfl, rfl, by simp [reset, secSize]⟩, rfl, rfl⟩
      · exact .inl ⟨_, rfl, rfl, fun _ _ _ => by simpa using hmalloc⟩

end UpdateClass

/-- A logged error, and nothing else. -/
def Event.Logged (e : Event) : Prop := ∃ msg, e = .fatalError msg

theorem Event.Logged.closing {e : Event} (h : e.Logged) : e.Closing := by
  obtain ⟨msg, rfl⟩ := h
  trivial

theorem World.Extends.logged_flash {w w' : World} (h : World.Extends Event.Logged w w') :
    w'.flash = w.flash := by
  obtain ⟨es, rfl, hes⟩ := h
  induction es generalizing w with
  | nil => rfl
  | cons e es ih =>
      rw [World.run_cons, ih fun d hd => hes d (List.mem_cons_of_mem _ hd)]
      obtain ⟨msg, rfl⟩ := hes e List.mem_cons_self
      exact World.step_flash w _ (by simp)

/-- A download is `writeStream`, perhaps a logged error, `end()`, and a last event: the restart exactly
when `end()` succeeds on a complete update. -/
theorem download_eq (env : OtaEnv) (contentLength : CString.Long) (u : UpdateClass) (w : World)
    (client : List Arrival) :
    ∃ w₁, World.Extends Event.Logged (u.writeStream env w client).2.2.1 w₁ ∧
      ∀ ok u' w', (u.writeStream env w client).2.1.endUpdate env w₁ false = (ok, u', w') →
        ∃ msg, download env contentLength u w client =
          if ok = true ∧ u'.isFinished = true then
            ⟨u', w'.step .restart, (u.writeStream env w client).2.2.2, true⟩
          else ⟨u', w'.step (.fatalError msg), (u.writeStream env w client).2.2.2, false⟩ := by
  rcases hws : u.writeStream env w client with ⟨written, u₁, w₁, client₁⟩
  refine ⟨if (written : ℤ) = contentLength.1 then w₁
    else if env.wifiConnected then w₁.step (.fatalError "Save to flash failed")
    else w₁.step (.fatalError "Lost WiFi connection"), ?_, fun ok u' w' hend => ?_⟩
  · split_ifs
    · exact .refl _ _
    · exact (World.Extends.refl _ _).step ⟨_, rfl⟩
    · exact (World.Extends.refl _ _).step ⟨_, rfl⟩
  · simp only [download, hws, hend]
    cases ok with
    | false => exact ⟨"Could not verify", rfl⟩
    | true =>
        refine ⟨"Download incomplete", ?_⟩
        simp only [true_and]

/-- A download only adds events to what `writeStream` did. -/
theorem download_extends (env : OtaEnv) (contentLength : CString.Long) (u : UpdateClass) (w : World)
    (client : List Arrival) :
    World.Extends Event.Closing (u.writeStream env w client).2.2.1
      (download env contentLength u w client).world := by
  obtain ⟨w₁, hlog, hdown⟩ := download_eq env contentLength u w client
  have hend := UpdateClass.endUpdate_extends env (u.writeStream env w client).2.1 w₁
  rcases he : (u.writeStream env w client).2.1.endUpdate env w₁ false with ⟨ok, u', w'⟩
  rw [he] at hend
  obtain ⟨msg, hd⟩ := hdown _ _ _ he
  have hw' := (hlog.mono fun _ => Event.Logged.closing).trans hend
  rw [hd]
  split_ifs
  · exact hw'.step (e := .restart) trivial
  · exact hw'.step (e := .fatalError msg) trivial

/-- **What the callback does with an accepted header** while the updater is idle: `begin` refuses, or a
download starts. -/
theorem processFirmwareUpdateResponse_cases {headerData : ResponseHeaderData} {u : UpdateClass}
    (env : OtaEnv) (w : World) (client : List Arrival) {n : ℕ} (hacc : Accepted headerData)
    (hidle : u.size = 0) (hn : headerData.contentLength.1 = n) :
    (∃ u' : UpdateClass, u'.size = 0 ∧
      (∀ p, env.nextUpdatePartition = some p → n ≤ p.size → env.mallocOk = false) ∧
      writeStreamReturned env headerData u w client = none ∧
      processFirmwareUpdateResponse env headerData u w client =
        ⟨u', w.run [.beginCalled n, .fatalError "Not enough space"], skipLineFeed client, false⟩) ∨
    ∃ p u', env.nextUpdatePartition = some p ∧ n ≤ p.size ∧ UpdateClass.Running p n u' ∧
      u'.progress = 0 ∧ u'.buffer = [] ∧ u'.progressCallback = true ∧
      writeStreamReturned env headerData u w client =
        some (u'.writeStream env (w.run [.beginCalled n, .begun p.address n]) (skipLineFeed client)).1 ∧
      processFirmwareUpdateResponse env headerData u w client =
        download env headerData.contentLength u' (w.run [.beginCalled n, .begun p.address n])
          (skipLineFeed client) := by
  have hlong := headerData.contentLength.2
  have hmin := hacc.1
  have htoNat : headerData.contentLength.1.toNat = n := by omega
  simp only [processFirmwareUpdateResponse, writeStreamReturned, hacc, not_true, if_false, htoNat]
  rcases UpdateClass.begin_cases hidle (show 0 < n by omega) (show n ≠ 0xFFFFFFFF by omega) with
    ⟨u', hbegin, hsize, hwhy⟩ | ⟨p, u', hpart, hfits, hbegin, hrun, hprog, hbuf⟩
  · rw [hbegin]
    exact .inl ⟨u', hsize, hwhy, rfl, rfl⟩
  · rw [hbegin]
    refine .inr ⟨p, { u' with progressCallback := true }, hpart, hfits,
      ⟨hrun.size, hrun.command, hrun.error, hrun.partition, hrun.room⟩, hprog, hbuf, rfl, ?_⟩
    simp only [UpdateClass.partitionAddress, hrun.partition]
    exact ⟨rfl, rfl⟩

/-- **The callback calls `begin` once** if the header passes the gate, with the content length. -/
theorem processFirmwareUpdateResponse_begins {headerData : ResponseHeaderData} (env : OtaEnv)
    (u : UpdateClass) (w : World) (client : List Arrival) (hacc : Accepted headerData) :
    World.Extends Event.Ongoing (w.step (.beginCalled headerData.contentLength.1.toNat))
      (processFirmwareUpdateResponse env headerData u w client).world := by
  simp only [processFirmwareUpdateResponse, hacc, not_true, if_false]
  rcases u.begin env headerData.contentLength.1.toNat .flash with ⟨ok, u'⟩
  cases ok with
  | false => exact (World.Extends.refl _ _).step (e := .fatalError _) trivial
  | true =>
      have hbegun := (World.Extends.refl Event.Ongoing
        (w.step (.beginCalled headerData.contentLength.1.toNat))).step
        (e := .begun u'.partitionAddress headerData.contentLength.1.toNat) trivial
      exact (hbegun.trans (UpdateClass.writeStream_extends _ _ _ _)).trans
        ((download_extends _ _ _ _ _).mono fun _ => Event.Closing.ongoing)

end EspFirmware
