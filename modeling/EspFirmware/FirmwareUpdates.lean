import EspFirmware.ResponseHeader
import EspFirmware.Updater

/-!
# A firmware download

`processFirmwareUpdateResponse` of `FirmwareUpdates.cpp`, the process callback of the firmware request,
over the updater.

* `processFirmwareUpdateResponse` — the callback; an error only logs, so every path past `begin` goes
  through `Update.end()`;
* `Flush`, `writeBuffer_flush` — everything one `_writeBuffer` can do, with the events it leaves;
* `RoundSpec`, `round_spec` — everything one round of `writeStream` can do;
* `writeStreamLoop_counted`, `writeStreamLoop_rule` — the induction over the rounds, once: what a round
  preserves holds at the end.
-/

namespace EspFirmware

open CString

/-- What a download leaves behind; `restarted` says that `ESP.restart` was reached. -/
structure Download where
  update : UpdateClass
  world : World
  client : List Arrival
  restarted : Bool

/-- `if(client->peek()==10) client->read();` -/
def skipLineFeed (client : List Arrival) : List Arrival :=
  match Arrival.peek client with
  | (some b, client') => if b = LF then (Arrival.read client').2 else client'
  | (none, client') => client'

/-- The header passes the gate in front of `Update.begin`. -/
def Accepted (headerData : ResponseHeaderData) : Prop :=
  500000 ≤ headerData.contentLength.1 ∧
    strEq headerData.contentType.1 (ascii "application/octet-stream") = true

instance (headerData : ResponseHeaderData) : Decidable (Accepted headerData) := by
  unfold Accepted
  infer_instance

/-- From `Update.writeStream` on: write, report, end, and restart if the update is complete. -/
def download (env : OtaEnv) (contentLength : Long) (u : UpdateClass) (w : World)
    (client : List Arrival) : Download :=
  let (written, u, w, client) := u.writeStream env w client
  let w :=
    if (written : ℤ) = contentLength.1 then w
    else if env.wifiConnected then w.step (.fatalError "Save to flash failed")
    else w.step (.fatalError "Lost WiFi connection")
  match u.endUpdate env w false with
  | (true, u, w) =>
      if u.isFinished then ⟨u, w.step .restart, client, true⟩
      else ⟨u, w.step (.fatalError "Download incomplete"), client, false⟩
  | (false, u, w) => ⟨u, w.step (.fatalError "Could not verify"), client, false⟩

/-- `processFirmwareUpdateResponse`. -/
def processFirmwareUpdateResponse (env : OtaEnv) (headerData : ResponseHeaderData)
    (u : UpdateClass) (w : World) (client : List Arrival) : Download :=
  if ¬Accepted headerData then ⟨u, w.step (.fatalError "Invalid Response"), client, false⟩
  else
    let client := skipLineFeed client
    let size := headerData.contentLength.1.toNat
    let w := w.step (.beginCalled size)
    match u.begin env size .flash with
    | (false, u) => ⟨u, w.step (.fatalError "Not enough space"), client, false⟩
    | (true, u) =>
        download env headerData.contentLength { u with progressCallback := true }
          (w.step (.begun u.partitionAddress size)) client

/-- What `Update.writeStream` returns during the callback, if it is reached. -/
def writeStreamReturned (env : OtaEnv) (headerData : ResponseHeaderData) (u : UpdateClass) (w : World)
    (client : List Arrival) : Option ℕ :=
  if ¬Accepted headerData then none
  else
    let size := headerData.contentLength.1.toNat
    let w := w.step (.beginCalled size)
    match u.begin env size .flash with
    | (false, _) => none
    | (true, u) =>
        let u := { u with progressCallback := true }
        some (u.writeStream env (w.step (.begun u.partitionAddress size)) (skipLineFeed client)).1

/-! ### The world after a list of events -/

namespace World

variable (w : World) (es fs : List Event) (e : Event)

theorem run_append : w.run (es ++ fs) = (w.run es).run fs := List.foldl_append

@[simp] theorem run_nil : w.run [] = w := rfl

@[simp] theorem run_cons : w.run (e :: es) = (w.step e).run es := rfl

@[simp] theorem step_trace : (w.step e).trace = w.trace ++ [e] := by
  unfold step
  split <;> rfl

@[simp] theorem run_trace : (w.run es).trace = w.trace ++ es := by
  induction es generalizing w with
  | nil => simp
  | cons e es ih => simp [ih]

theorem run_injective {w : World} {es fs : List Event} (h : w.run es = w.run fs) : es = fs := by
  have ht := congrArg trace h
  rw [run_trace, run_trace] at ht
  exact List.append_cancel_left ht

/-- An event other than a successful switch leaves the boot selection alone. -/
theorem step_boot (h : ∀ a, e ≠ .setBoot a true) : (w.step e).boot = w.boot := by
  unfold step
  split
  · rfl
  · exact absurd rfl (h _)
  · rfl
  · rfl

/-- Only a flash operation changes the flash. -/
theorem step_flash (h : ∀ o r, e ≠ .op o r) : (w.step e).flash = w.flash := by
  unfold step
  split
  · exact absurd rfl (h _ _)
  · rfl
  · rfl
  · rfl

@[simp] theorem step_op_flash (o : FlashOp) (r : Outcome) :
    (w.step (.op o r)).flash = o.effect r w.flash := rfl

theorem run_boot (h : ∀ a, .setBoot a true ∉ es) : (w.run es).boot = w.boot := by
  induction es generalizing w with
  | nil => rfl
  | cons e es ih =>
      rw [run_cons, ih _ fun a ha => h a (List.mem_cons_of_mem _ ha)]
      exact step_boot w e fun a ha => h a (ha ▸ List.mem_cons_self)

/-- `w'` is `w` after events that all satisfy `P`. -/
def Extends (P : Event → Prop) (w w' : World) : Prop := ∃ es, w' = w.run es ∧ ∀ e ∈ es, P e

namespace Extends

variable {P : Event → Prop} {w w₁ w₂ : World}

theorem refl (P : Event → Prop) (w : World) : Extends P w w := ⟨[], rfl, by simp⟩

theorem run {es : List Event} (h : Extends P w w₁) (hes : ∀ e ∈ es, P e) :
    Extends P w (w₁.run es) := by
  obtain ⟨ds, rfl, hds⟩ := h
  refine ⟨ds ++ es, (run_append _ _ _).symm, fun e he => ?_⟩
  rcases List.mem_append.mp he with hd | he
  · exact hds e hd
  · exact hes e he

theorem step {e : Event} (h : Extends P w w₁) (he : P e) : Extends P w (w₁.step e) := by
  have hes : ∀ d ∈ [e], P d := by simpa using he
  exact h.run hes

theorem trans (h : Extends P w w₁) (h' : Extends P w₁ w₂) : Extends P w w₂ := by
  obtain ⟨es, rfl, hes⟩ := h'
  exact h.run hes

theorem mono {Q : Event → Prop} (h : Extends P w w₁) (hPQ : ∀ e, P e → Q e) : Extends Q w w₁ := by
  obtain ⟨es, rfl, hes⟩ := h
  exact ⟨es, rfl, fun e he => hPQ e (hes e he)⟩

/-- The events of a run are those its end names. -/
theorem run_iff {es : List Event} : Extends P w (w.run es) ↔ ∀ e ∈ es, P e := by
  refine ⟨fun ⟨fs, hfs, hall⟩ => ?_, fun hes => (refl P w).run hes⟩
  rw [run_injective hfs]
  exact hall

/-- What holds of all events holds of both parts of a run. -/
theorem parts {Q R : Event → Prop} (h : Extends P w w₂) (h₁ : Extends Q w w₁) (h₂ : Extends R w₁ w₂) :
    Extends P w w₁ ∧ Extends P w₁ w₂ := by
  obtain ⟨es, rfl, -⟩ := h₁
  obtain ⟨fs, rfl, -⟩ := h₂
  rw [← run_append, run_iff] at h
  exact ⟨run_iff.mpr fun e he => h e (List.mem_append_left _ he),
    run_iff.mpr fun e he => h e (List.mem_append_right _ he)⟩

end Extends

end World

theorem flashOp_ok {env : OtaEnv} {w : World} {o : FlashOp}
    (h : env.flash w.trace.length o = .ok) : flashOp env w o = (true, w.step (.op o .ok)) := by
  simp [flashOp, h]

theorem flashOp_failed {env : OtaEnv} {w : World} {o : FlashOp} {k : ℕ}
    (h : env.flash w.trace.length o = .failed k) :
    flashOp env w o = (false, w.step (.op o (.failed k))) := by
  simp [flashOp, h]

/-! ### What one `_writeBuffer` can do -/

namespace UpdateClass

/-- The events of a progress callback. -/
def reports (u : UpdateClass) : List Event :=
  if u.progressCallback then [.progress u.progress u.size] else []

/-- The events of the callback made before the first sector. -/
def startReports (u : UpdateClass) : List Event := if u.progress = 0 then u.reports else []

/-- The erase a flush issues. -/
def eraseOp (u : UpdateClass) : FlashOp := .erase (u.nextAddress / secSize)

/-- The write a flush issues. -/
def writeOp (u : UpdateClass) : FlashOp := .write u.nextAddress u.flushData

theorem report_eq (u : UpdateClass) (w : World) : u.report w = w.run u.reports := by
  unfold report reports
  split <;> rfl

/-- The number of events before a flush issues its first operation. -/
def flushIndex (u : UpdateClass) (w : World) : ℕ := w.trace.length + u.startReports.length

/-- **Everything one `_writeBuffer` can do**, with the events it leaves. -/
inductive Flush (env : OtaEnv) (u : UpdateClass) (w : World) : Bool × UpdateClass × World → Prop
  | badMagic : u.firstBytes = true → u.buffer.head? ≠ some imageMagic →
      Flush env u w (false, u.abort .magicByte, w)
  | eraseFailed (k : ℕ) : (u.firstBytes = true → u.buffer.head? = some imageMagic) →
      env.flash (u.flushIndex w) u.eraseOp = .failed k →
      Flush env u w
        (false, u.abort .erase, w.run (u.startReports ++ [.op u.eraseOp (.failed k)]))
  | writeFailed (k : ℕ) : (u.firstBytes = true → u.buffer.head? = some imageMagic) →
      env.flash (u.flushIndex w) u.eraseOp = .ok →
      env.flash (u.flushIndex w + 1) u.writeOp = .failed k →
      Flush env u w
        (false, u.abort .write,
          w.run (u.startReports ++ [.op u.eraseOp .ok, .op u.writeOp (.failed k)]))
  | done : (u.firstBytes = true → u.buffer.head? = some imageMagic) →
      env.flash (u.flushIndex w) u.eraseOp = .ok → env.flash (u.flushIndex w + 1) u.writeOp = .ok →
      Flush env u w
        (true, u.flushed,
          w.run (u.startReports ++ [.op u.eraseOp .ok, .op u.writeOp .ok] ++ u.flushed.reports))

theorem writeBuffer_flush (env : OtaEnv) (u : UpdateClass) (w : World) :
    Flush env u w (u.writeBuffer env w) := by
  unfold writeBuffer
  split
  · rename_i h
    exact .badMagic h.1 h.2
  · rename_i h
    have hmagic : u.firstBytes = true → u.buffer.head? = some imageMagic := fun hf =>
      not_not.mp fun hn => h ⟨hf, hn⟩
    have hstart : (if u.progress = 0 then u.report w else w) = w.run u.startReports := by
      unfold startReports
      split
      · rw [report_eq]
      · rfl
    rw [hstart]
    set w₁ := w.run u.startReports with hw₁
    have herase : flashEraseSector env w₁ (u.nextAddress / secSize) = flashOp env w₁ u.eraseOp := rfl
    have hwrite : ∀ w, flashWrite env w u.nextAddress u.flushData = flashOp env w u.writeOp :=
      fun _ => rfl
    have hindex : w₁.trace.length = u.flushIndex w := by
      rw [hw₁, World.run_trace, List.length_append, flushIndex]
    have hnext : (w₁.step (.op u.eraseOp .ok)).trace.length = u.flushIndex w + 1 := by
      rw [World.step_trace, List.length_append, hindex, List.length_singleton]
    simp only [herase, hwrite]
    rcases he : env.flash w₁.trace.length u.eraseOp with _ | k
    · rw [flashOp_ok he]
      rw [hindex] at he
      rcases hw : env.flash (w₁.step (.op u.eraseOp .ok)).trace.length u.writeOp with _ | k
      · have hdone : Flush env u w _ := .done hmagic he (hnext ▸ hw)
        simp only [flashOp_ok hw, report_eq]
        simpa [World.run_append, hw₁] using hdone
      · have hfail : Flush env u w _ := .writeFailed k hmagic he (hnext ▸ hw)
        simp only [flashOp_failed hw]
        simpa [World.run_append, hw₁] using hfail
    · have hfail : Flush env u w _ := .eraseFailed k hmagic (hindex ▸ he)
      rw [flashOp_failed he]
      simpa [World.run_append, hw₁] using hfail

/-- **Everything one round of `writeStream` can do.** -/
inductive RoundSpec (env : OtaEnv) (u : UpdateClass) (w : World) (client : List Arrival) :
    Round → Prop
  | stalled (client' : List Arrival) : readRetry u.bytesToRead client = ([], client') →
      RoundSpec env u w client (.stop (u.abort .stream) w client')
  | filled (bs : List UInt8) (client' : List Arrival) : bs ≠ [] →
      readRetry u.bytesToRead client = (bs, client') → (u.fill bs).flushDue = false →
      RoundSpec env u w client (.next bs.length (u.fill bs) w client')
  | flushFailed (bs : List UInt8) (u' : UpdateClass) (w' : World) (client' : List Arrival) :
      bs ≠ [] → readRetry u.bytesToRead client = (bs, client') → (u.fill bs).flushDue = true →
      Flush env (u.fill bs) w (false, u', w') → RoundSpec env u w client (.stop u' w' client')
  | flushed (bs : List UInt8) (u' : UpdateClass) (w' : World) (client' : List Arrival) :
      bs ≠ [] → readRetry u.bytesToRead client = (bs, client') → (u.fill bs).flushDue = true →
      Flush env (u.fill bs) w (true, u', w') →
      RoundSpec env u w client (.next bs.length u' w' client')

theorem round_spec (env : OtaEnv) (u : UpdateClass) (w : World) (client : List Arrival) :
    RoundSpec env u w client (u.round env w client) := by
  unfold round
  split
  · rename_i client' hr
    exact .stalled client' hr
  · rename_i b bs client' hr
    have hne : b :: bs ≠ [] := by simp
    split
    · rename_i hd
      have hflush := writeBuffer_flush env (u.fill (b :: bs)) w
      split
      · rename_i u' w' hw
        rw [hw] at hflush
        exact .flushFailed _ u' w' client' hne hr hd hflush
      · rename_i u' w' hw
        rw [hw] at hflush
        exact .flushed _ u' w' client' hne hr hd hflush
    · rename_i hd
      exact .filled _ client' hne hr (by simpa using hd)

/-- **The loop rule.**  What every round preserves, of the count too, holds when the loop is left, by any
of its exits. -/
theorem writeStreamLoop_counted {env : OtaEnv} {I R : ℕ → UpdateClass → World → List Arrival → Prop}
    (hdone : ∀ k u w c, I k u w c → u.remaining = 0 → R k u w c)
    (hstop : ∀ k u w c u' w' c', I k u w c → u.remaining ≠ 0 →
      RoundSpec env u w c (.stop u' w' c') → R k u' w' c')
    (hnext : ∀ k u w c got u' w' c', I k u w c → u.remaining ≠ 0 →
      RoundSpec env u w c (.next got u' w' c') → I (wrap32 (k + got)) u' w' c')
    (u : UpdateClass) (w : World) (c : List Arrival) (written : ℕ) (hI : I written u w c) :
    R (u.writeStreamLoop env w c written).1 (u.writeStreamLoop env w c written).2.1
      (u.writeStreamLoop env w c written).2.2.1 (u.writeStreamLoop env w c written).2.2.2 := by
  fun_induction writeStreamLoop env u w c written with
  | case1 u w c written hrem => exact hdone _ u w c hI hrem
  | case2 u w c written hrem u' w' c' hround =>
      exact hstop _ u w c u' w' c' hI hrem (hround ▸ round_spec env u w c)
  | case3 u w c written hrem got u' w' c' hround ih =>
      exact ih (hnext _ u w c got u' w' c' hI hrem (hround ▸ round_spec env u w c))

/-- The loop rule for what does not depend on the count. -/
theorem writeStreamLoop_rule {env : OtaEnv} {I R : UpdateClass → World → List Arrival → Prop}
    (hdone : ∀ u w c, I u w c → u.remaining = 0 → R u w c)
    (hstop : ∀ u w c u' w' c', I u w c → u.remaining ≠ 0 →
      RoundSpec env u w c (.stop u' w' c') → R u' w' c')
    (hnext : ∀ u w c got u' w' c', I u w c → u.remaining ≠ 0 →
      RoundSpec env u w c (.next got u' w' c') → I u' w' c')
    (u : UpdateClass) (w : World) (c : List Arrival) (written : ℕ) (hI : I u w c) :
    R (u.writeStreamLoop env w c written).2.1 (u.writeStreamLoop env w c written).2.2.1
      (u.writeStreamLoop env w c written).2.2.2 :=
  writeStreamLoop_counted (I := fun _ => I) (R := fun _ => R) (fun _ => hdone) (fun _ => hstop)
    (fun _ => hnext) u w c written hI

end UpdateClass

end EspFirmware
