import EspFirmware.Commit

/-!
# Power loss during an update

Every prefix of the events of a sequence of download attempts is a place where power may be lost.  As
long as an attempt has erased its first sector and not yet written the announced number of bytes, the
first cell of the partition is blank and the boot selection untouched: a flush writes the first byte as
`0xFF`, no later flush of the attempt reaches that cell, and `Update.end()` comes after the last byte.

* `Event.Harmless` — an event that keeps the first cell blank once it is;
* `AttemptEvents` — the shape of the events of one attempt;
* `runAttempts` — attempts one after another, a restarted device starting with a fresh updater.
-/

namespace EspFirmware

open NorFlash UpdateClass

/-- A firmware response as the callback meets it. -/
structure Attempt where
  env : OtaEnv
  headerData : ResponseHeaderData
  client : List Arrival

/-- The updater and the world after one attempt. -/
def Attempt.run (a : Attempt) (s : UpdateClass × World) : UpdateClass × World :=
  let d := processFirmwareUpdateResponse a.env a.headerData s.1 s.2 a.client
  (if d.restarted then .init else d.update, d.world)

/-- Attempts one after another. -/
def runAttempts (as : List Attempt) (s : UpdateClass × World) : UpdateClass × World :=
  as.foldl (fun s a => a.run s) s

/-- The bytes a completed write puts into flash. -/
def Event.written : Event → ℕ
  | .op (.write _ data) .ok => data.length
  | _ => 0

/-- The bytes of the completed writes. -/
def writtenBytes (es : List Event) : ℕ := (es.map Event.written).sum

/-- An event that keeps the first cell of the partition blank once it is. -/
def Event.Harmless (p : Partition) : Event → Prop
  | .begun _ _ => False
  | .setBoot _ _ => False
  | .op (.write addr data) _ => addr ≤ p.address → p.address < addr + data.length →
      data.getD (p.address - addr) 0 = blank
  | _ => True

/-- An event outside any download. -/
def Event.Idle : Event → Prop
  | .beginCalled _ => True
  | .fatalError _ => True
  | _ => False

def Event.IsBegun (e : Event) : Prop := ∃ addr size, e = .begun addr size

/-- **The events of one attempt**: none of a download, or a download that is harmless until the announced
number of bytes has been written. -/
inductive AttemptEvents : List Event → Prop
  | idle (es : List Event) : (∀ e ∈ es, e.Idle) → AttemptEvents es
  | started (before copy finish : List Event) (p : Partition) (n : ℕ) : (∀ e ∈ before, e.Idle) →
      (∀ e ∈ copy, e.Harmless p) → (∀ e ∈ finish, ¬e.IsBegun) →
      (finish ≠ [] → n ≤ writtenBytes copy) →
      AttemptEvents (before ++ .begun p.address n :: (copy ++ finish))

theorem writtenBytes_append (es fs : List Event) :
    writtenBytes (es ++ fs) = writtenBytes es + writtenBytes fs := by
  simp [writtenBytes]

/-! ### Harmless events -/

variable {env : OtaEnv} {p : Partition} {n : ℕ}

theorem Event.Harmless.step_blank {w : World} {e : Event} (he : e.Harmless p)
    (h : w.flash p.address = blank) : (w.step e).flash p.address = blank := by
  cases e with
  | op o r =>
      rw [World.step_op_flash]
      cases o with
      | erase sector => cases r <;> exact erase_blank h
      | write addr data =>
          cases r with
          | ok =>
              have hall : data = data.take data.length := (List.take_length).symm
              rw [FlashOp.effect, hall]
              exact program_take_blank h he
          | failed k => exact program_take_blank h he
      | read addr len => cases r <;> exact h
  | _ =>
      rw [World.step_flash _ _ (by simp)]
      exact h

theorem run_harmless_blank {w : World} {es : List Event} (hes : ∀ e ∈ es, e.Harmless p)
    (h : w.flash p.address = blank) : (w.run es).flash p.address = blank := by
  induction es generalizing w with
  | nil => exact h
  | cons e es ih =>
      exact ih (fun d hd => hes d (List.mem_cons_of_mem _ hd))
        ((hes e List.mem_cons_self).step_blank h)

/-- **Once the first sector is erased, harmless events keep the magic out.** -/
theorem run_harmless_erased {w : World} {es : List Event} (hes : ∀ e ∈ es, e.Harmless p)
    (her : .op (.erase (p.address / secSize)) .ok ∈ es) : (w.run es).flash p.address = blank := by
  obtain ⟨before, after, rfl⟩ := List.append_of_mem her
  have hpa := p.aligned
  rw [World.run_append, World.run_cons]
  apply run_harmless_blank
  · intro e he
    exact hes e (List.mem_append_right _ (List.mem_cons_of_mem _ he))
  · rw [World.step_op_flash]
    apply erase_apply_of_mem
    simp only [secSize] at *
    omega

theorem run_harmless_boot {w : World} {es : List Event} (hes : ∀ e ∈ es, e.Harmless p) :
    (w.run es).boot = w.boot :=
  World.run_boot w es fun _ ha => hes _ ha

/-! ### The events of the loop -/

/-- The loop invariant: harmless events so far, and `_progress` counts no more than was written. -/
def Copying (p : Partition) (n : ℕ) (w₀ : World) (u : UpdateClass) (w : World) : Prop :=
  Running p n u ∧ u.progress < 2 ^ 32 ∧ (u.remaining ≠ 0 → u.progress % secSize = 0) ∧
    ∃ es, w = w₀.run es ∧ (∀ e ∈ es, e.Harmless p) ∧ u.progress ≤ writtenBytes es

/-- What the loop leaves: an aborted updater, or the announced bytes written. -/
def Copied (p : Partition) (n : ℕ) (w₀ : World) (u : UpdateClass) (w : World) : Prop :=
  ∃ es, w = w₀.run es ∧ (∀ e ∈ es, e.Harmless p) ∧
    (u.size = 0 ∨ Running p n u ∧ u.progress = n ∧ n ≤ writtenBytes es)

/-- A flush writes the first byte of the partition as a blank, and reaches it only once. -/
theorem writeOp_harmless {u : UpdateClass} {bs : List UInt8} (hrun : Running p n u) (hbs : bs ≠ [])
    (hprog : u.progress < 2 ^ 32) (halign : u.progress % secSize = 0)
    (hroom : u.buffer.length + bs.length ≤ secSize) (r : Outcome) :
    Event.Harmless p (.op (u.fill bs).writeOp r) := by
  show (u.fill bs).nextAddress ≤ p.address →
    p.address < (u.fill bs).nextAddress + (u.fill bs).flushData.length →
    (u.fill bs).flushData.getD (p.address - (u.fill bs).nextAddress) 0 = blank
  have hpa := p.aligned
  have hnext : (u.fill bs).nextAddress = wrap32 (p.address + u.progress) := by
    rw [fill_nextAddress, nextAddress, partitionAddress, hrun.partition]
    rfl
  rw [hnext, flushData_length, fill_buffer, List.length_append]
  intro hle hlt
  have hzero : u.progress = 0 ∧ wrap32 (p.address + u.progress) = p.address := by
    rw [wrap32] at hle hlt ⊢
    simp only [secSize] at *
    omega
  rw [hzero.2, Nat.sub_self]
  exact flushData_head hrun.command hzero.1 (by simp [hbs])

/-- The events of a flush inside the loop are harmless. -/
theorem Copying.flush_harmless {w₀ : World} {u u' : UpdateClass} {w w' : World} {bs : List UInt8}
    {ok : Bool} (hI : Copying p n w₀ u w) (hrem : u.remaining ≠ 0) (hbs : bs ≠ [])
    (hroom : u.buffer.length + bs.length ≤ secSize)
    (hflush : Flush env (u.fill bs) w (ok, u', w')) : World.Extends (Event.Harmless p) w w' := by
  obtain ⟨hrun, hprog, halign, -⟩ := hI
  exact hflush.extends (fun _ => trivial) trivial (fun _ => trivial)
    (writeOp_harmless hrun hbs hprog (halign hrem) hroom)

theorem Copying.next {w₀ : World} {u u' : UpdateClass} {w w' : World}
    {client client' : List Arrival} {got : ℕ} (hI : Copying p n w₀ u w)
    (hrem : u.remaining ≠ 0) (hround : RoundSpec env u w client (.next got u' w' client')) :
    Copying p n w₀ u' w' := by
  cases hround with
  | filled bs _ hbs hread hdue =>
      obtain ⟨hrun, hprog, halign, hes⟩ := hI
      obtain ⟨-, -, hroom⟩ := hrun.read_le hread
      have hnd := (not_due_iff.mp hdue).2
      exact ⟨hrun.fill (by rw [List.length_append]; omega), hprog, halign, hes⟩
  | flushed bs _ _ _ hbs hread hdue hflush =>
      obtain ⟨-, -, hroom⟩ := hI.1.read_le hread
      have hharm := hI.flush_harmless hrem hbs hroom hflush
      obtain ⟨hrun, hprog, halign, es, hw, hes, hle⟩ := hI
      obtain ⟨fs, hw', hfs⟩ := hharm
      obtain ⟨rfl, -, -, hw''⟩ := hflush.done_eq
      have hfs_eq : fs = _ := World.run_injective (hw'.symm.trans hw'')
      have hwritten : u.buffer.length + bs.length ≤ writtenBytes fs := by
        rw [hfs_eq, writtenBytes_append, writtenBytes_append]
        have hop : writtenBytes [.op (u.fill bs).eraseOp .ok, .op (u.fill bs).writeOp .ok]
            = (u.fill bs).flushData.length := by
          simp [writtenBytes, Event.written, eraseOp, writeOp]
        rw [hop, flushData_length, fill_buffer, List.length_append]
        omega
      rw [fill_due_iff, remaining, hrun.size] at hdue
      have hal := halign hrem
      have hprog' : (u.fill bs).flushed.progress
          = wrap32 (u.progress + (u.buffer.length + bs.length)) := by
        rw [flushed_progress, fill_progress, fill_buffer, List.length_append]
      refine ⟨hrun.flushed, ?_, fun hrem' => ?_, es ++ fs, ?_, ?_, ?_⟩
      · rw [hprog']
        exact wrap32_lt _
      · rw [remaining, flushed_size, fill_size, hrun.size, hprog', wrap32, wrap32] at hrem'
        rw [hprog', wrap32]
        rw [wrap32] at hdue
        simp only [secSize] at *
        omega
      · rw [hw', hw, World.run_append]
      · intro e he
        rcases List.mem_append.mp he with h | h
        · exact hes e h
        · exact hfs e h
      · rw [hprog', writtenBytes_append, wrap32]
        omega

theorem Copying.stop {w₀ : World} {u u' : UpdateClass} {w w' : World}
    {client client' : List Arrival} (hI : Copying p n w₀ u w) (hrem : u.remaining ≠ 0)
    (hround : RoundSpec env u w client (.stop u' w' client')) : Copied p n w₀ u' w' := by
  cases hround with
  | stalled _ hread =>
      obtain ⟨-, -, -, es, hw, hes, -⟩ := hI
      exact ⟨es, hw, hes, .inl rfl⟩
  | flushFailed bs _ _ _ hbs hread hdue hflush =>
      obtain ⟨-, -, hroom⟩ := hI.1.read_le hread
      have hharm := hI.flush_harmless hrem hbs hroom hflush
      obtain ⟨-, -, -, es, hw, hes, -⟩ := hI
      obtain ⟨fs, hfs, hall⟩ := World.Extends.trans ⟨es, hw, hes⟩ hharm
      exact ⟨fs, hfs, hall, .inl hflush.aborted.1⟩

theorem Copying.done {w₀ : World} {u : UpdateClass} {w : World} (hn : n < 2 ^ 32)
    (hI : Copying p n w₀ u w) (hrem : u.remaining = 0) : Copied p n w₀ u w := by
  obtain ⟨hrun, hprog, -, es, hw, hes, hle⟩ := hI
  rw [remaining, hrun.size, wrap32] at hrem
  have hpn : u.progress = n := by omega
  exact ⟨es, hw, hes, .inr ⟨hrun, hpn, by omega⟩⟩

theorem writeStream_copied {u : UpdateClass} (env : OtaEnv) (w : World) (client : List Arrival)
    (hrun : Running p n u) (hprog : u.progress = 0) (hpos : 0 < n) (hn : n < 2 ^ 32) :
    Copied p n w (u.writeStream env w client).2.1 (u.writeStream env w client).2.2.1 := by
  rcases hrun.writeStream_cases hpos env w client with hbad | ⟨-, -, hloop⟩
  · rw [hbad]
    exact ⟨[], rfl, by simp, .inl rfl⟩
  · rw [hloop]
    refine writeStreamLoop_rule (I := fun u w' _ => Copying p n w u w')
      (R := fun u w' _ => Copied p n w u w') (fun _ _ _ hI hrem => hI.done hn hrem)
      (fun _ _ _ _ _ _ hI hrem hround => hI.stop hrem hround)
      (fun _ _ _ _ _ _ _ hI hrem hround => hI.next hrem hround) u w _ 0
      ⟨hrun, by omega, fun _ => by simp [hprog], [], rfl, by simp, by omega⟩

/-! ### The events of an attempt -/

/-- A download copies harmlessly and finishes only once the announced bytes are written; the updater is
idle afterwards. -/
theorem Copied.download {u : UpdateClass} {w : World} {client : List Arrival}
    (contentLength : CString.Long) (hpos : 0 < n)
    (h : Copied p n w (u.writeStream env w client).2.1 (u.writeStream env w client).2.2.1) :
    (download env contentLength u w client).update.size = 0 ∧
      ∃ copy finish, (download env contentLength u w client).world = w.run (copy ++ finish) ∧
        (∀ e ∈ copy, e.Harmless p) ∧ (∀ e ∈ finish, ¬e.IsBegun) ∧
        (finish ≠ [] → n ≤ writtenBytes copy) := by
  obtain ⟨w₁, hlog, hdown⟩ := download_eq env contentLength u w client
  obtain ⟨es, hw, hes, hend⟩ := h
  have hlog' : World.Extends (Event.Harmless p) w w₁ := by
    refine World.Extends.trans ⟨es, hw, hes⟩ (hlog.mono fun e he => ?_)
    obtain ⟨msg, rfl⟩ := he
    trivial
  rcases hend with hidle | ⟨hrun, hprog, hwritten⟩
  · obtain ⟨msg, hd⟩ := hdown _ _ _ (endUpdate_idle hidle)
    obtain ⟨fs, hfs, hall⟩ := hlog'.step (e := .fatalError msg) trivial
    rw [hd]
    exact ⟨hidle, fs, [], by rw [List.append_nil]; exact hfs, hall, by simp, by simp⟩
  · obtain ⟨ls, hls, -⟩ := hlog
    obtain ⟨cs, hcs, hall⟩ := hlog'
    have hcs_eq : cs = es ++ ls := by
      apply World.run_injective (w := w)
      rw [← hcs, hls, hw, World.run_append]
    have hn : n ≤ writtenBytes cs := by
      rw [hcs_eq, writtenBytes_append]
      omega
    -- whatever `end()` does, an event without a new `begin` follows
    have hfinish : ∀ ok u' w', u'.size = 0 → World.Extends (fun e => ¬e.IsBegun) w₁ w' →
        (u.writeStream env w client).2.1.endUpdate env w₁ false = (ok, u', w') →
        (EspFirmware.download env contentLength u w client).update.size = 0 ∧
        ∃ copy finish, (EspFirmware.download env contentLength u w client).world
            = w.run (copy ++ finish) ∧ (∀ e ∈ copy, e.Harmless p) ∧ (∀ e ∈ finish, ¬e.IsBegun) ∧
          (finish ≠ [] → n ≤ writtenBytes copy) := by
      intro ok u' w' hsize hw' he
      obtain ⟨msg, hd⟩ := hdown ok u' w' he
      rw [hd]
      split_ifs
      · obtain ⟨fs, hfs, hfall⟩ := hw'.step (e := .restart) (by simp [Event.IsBegun])
        exact ⟨hsize, cs, fs, by rw [World.run_append, ← hcs]; exact hfs, hall, hfall, fun _ => hn⟩
      · obtain ⟨fs, hfs, hfall⟩ := hw'.step (e := .fatalError msg) (by simp [Event.IsBegun])
        exact ⟨hsize, cs, fs, by rw [World.run_append, ← hcs]; exact hfs, hall, hfall, fun _ => hn⟩
    rcases hrun.endUpdate hpos hprog with hmd5 | hending
    · exact hfinish _ _ _ rfl (.refl _ _) hmd5
    · rcases he : (u.writeStream env w client).2.1.endUpdate env w₁ false with ⟨_ | _, u', w'⟩
      · rw [he] at hending
        obtain ⟨hsize, hext⟩ := hending.failed (P := fun e => ¬e.IsBegun) (by simp [Event.IsBegun])
          (by simp [Event.IsBegun]) (by simp [Event.IsBegun])
        exact hfinish _ _ _ hsize hext he
      · rw [he] at hending
        obtain ⟨rfl, rfl⟩ := hending.succeeded
        exact hfinish _ _ _ rfl ⟨_, rfl, by simp [Event.IsBegun]⟩ he

/-- **What one attempt does**, from an idle updater. -/
theorem Attempt.run_events (a : Attempt) {u : UpdateClass} (w : World) (hidle : u.size = 0) :
    (a.run (u, w)).1.size = 0 ∧ ∃ es, (a.run (u, w)).2 = w.run es ∧ AttemptEvents es := by
  have hfirst : ∀ d : Download, d.update.size = 0 →
      (if d.restarted then UpdateClass.init else d.update).size = 0 := by
    intro d hd
    split_ifs
    · rfl
    · exact hd
  by_cases hacc : Accepted a.headerData
  · have hmin := hacc.1
    have hlong := a.headerData.contentLength.2
    obtain ⟨n, hn⟩ : ∃ n : ℕ, a.headerData.contentLength.1 = n :=
      ⟨_, (Int.toNat_of_nonneg (by omega)).symm⟩
    rcases processFirmwareUpdateResponse_cases a.env w a.client hacc hidle hn with
      ⟨u', hsize, -, -, hd⟩ | ⟨p, u', -, -, hrun, hprog, -, -, -, hd⟩
    · simp only [Attempt.run, hd]
      exact ⟨hsize, _, rfl, .idle _ (by simp [Event.Idle])⟩
    · have hcopied := writeStream_copied a.env (w.run [.beginCalled n, .begun p.address n])
        (skipLineFeed a.client) hrun hprog (by omega) (by omega)
      obtain ⟨hsize, copy, finish, hworld, hcopy, hfinish, hn'⟩ :=
        hcopied.download a.headerData.contentLength (by omega)
      simp only [Attempt.run, hd]
      refine ⟨hfirst _ hsize, _, ?_, .started [.beginCalled n] copy finish p n (by simp [Event.Idle])
        hcopy hfinish hn'⟩
      rw [hworld]
      simp [World.run_append]
  · have hd : processFirmwareUpdateResponse a.env a.headerData u w a.client
        = ⟨u, w.run [.fatalError "Invalid Response"], a.client, false⟩ := by
      rw [processFirmwareUpdateResponse, if_pos hacc]
      rfl
    simp only [Attempt.run, hd]
    exact ⟨hidle, _, rfl, .idle _ (by simp [Event.Idle])⟩

/-! ### Every prefix of the trace -/

/-- Wherever power is lost in `es`: if the attempt begun last has erased its first sector and has not
written its `n` bytes, the magic is not in place and the boot selection is the one it started with. -/
def SafeEverywhere (w : World) (es : List Event) : Prop :=
  ∀ before addr n since, before ++ .begun addr n :: since <+: es → (∀ e ∈ since, ¬e.IsBegun) →
    .op (.erase (addr / secSize)) .ok ∈ since → writtenBytes since < n →
    (w.run (before ++ .begun addr n :: since)).flash addr ≠ imageMagic ∧
      (w.run (before ++ .begun addr n :: since)).boot = (w.run before).boot

theorem prefix_append_cases {α : Type} {l as bs : List α} (h : l <+: as ++ bs) :
    l <+: as ∨ ∃ cs, cs ≠ [] ∧ cs <+: bs ∧ l = as ++ cs := by
  obtain ⟨t, ht⟩ := h
  rcases List.append_eq_append_iff.mp ht with ⟨cs, hcs, -⟩ | ⟨cs, hcs, hbs⟩
  · exact .inl ⟨cs, hcs.symm⟩
  · cases cs with
    | nil => exact .inl ⟨[], by simp [hcs]⟩
    | cons c cs => exact .inr ⟨c :: cs, by simp, ⟨t, hbs.symm⟩, hcs⟩

theorem run_idle {w : World} {es : List Event} (hes : ∀ e ∈ es, e.Idle) :
    (w.run es).flash = w.flash ∧ (w.run es).boot = w.boot := by
  induction es generalizing w with
  | nil => exact ⟨rfl, rfl⟩
  | cons e es ih =>
      have he := hes e List.mem_cons_self
      obtain ⟨hf, hb⟩ := ih (w := w.step e) fun d hd => hes d (List.mem_cons_of_mem _ hd)
      rw [World.run_cons, hf, hb]
      cases e <;> first | exact he.elim | exact ⟨rfl, rfl⟩

/-- Before its `begin` an attempt is idle. -/
theorem AttemptEvents.idle_of_prefix {es fs : List Event} (h : AttemptEvents es) (hfs : fs <+: es)
    (hno : ∀ e ∈ fs, ¬e.IsBegun) : ∀ e ∈ fs, e.Idle := by
  cases h with
  | idle es hall => exact fun e he => hall e (hfs.subset he)
  | started before copy finish p n hbefore hcopy hfinish hn =>
      rcases prefix_append_cases hfs with hpre | ⟨cs, hne, hcs, rfl⟩
      · exact fun e he => hbefore e (hpre.subset he)
      · obtain ⟨c, cs', rfl⟩ := List.exists_cons_of_ne_nil hne
        obtain ⟨rfl, -⟩ := List.cons_prefix_cons.mp hcs
        exact absurd ⟨_, _, rfl⟩ (hno (.begun p.address n) (by simp))

/-- After its `begin` an attempt is harmless for as long as fewer than `n` bytes are written. -/
theorem AttemptEvents.harmless_since {es before since : List Event} {addr n : ℕ}
    (h : AttemptEvents es) (hpre : before ++ .begun addr n :: since <+: es)
    (hlt : writtenBytes since < n) :
    ∃ p : Partition, p.address = addr ∧ ∀ e ∈ since, e.Harmless p := by
  cases h with
  | idle es hall => exact False.elim (hall (.begun addr n) (hpre.subset (by simp)))
  | started before' copy finish p m hbefore hcopy hfinish hm =>
      obtain ⟨t, ht⟩ := hpre
      rw [List.append_assoc] at ht
      have hnot : ∀ e ∈ copy ++ finish, ¬e.IsBegun := by
        intro e he hb
        obtain ⟨a, m', rfl⟩ := hb
        rcases List.mem_append.mp he with h | h
        · exact hcopy _ h
        · exact hfinish _ h ⟨_, _, rfl⟩
      -- the `begin` in front of `since` is the attempt's own
      have hsince : addr = p.address ∧ n = m ∧ since ++ t = copy ++ finish := by
        rcases List.append_eq_append_iff.mp ht with ⟨x, rfl, hx⟩ | ⟨x, rfl, hx⟩
        · cases x with
          | nil =>
              rw [List.nil_append, List.cons_append, List.cons.injEq, Event.begun.injEq] at hx
              exact ⟨hx.1.1, hx.1.2, hx.2⟩
          | cons e x =>
              rw [List.cons_append, List.cons_append, List.cons.injEq] at hx
              exact (hbefore (.begun addr n) (by simp [hx.1])).elim
        · cases x with
          | nil =>
              rw [List.nil_append, List.cons_append, List.cons.injEq, Event.begun.injEq] at hx
              exact ⟨hx.1.1.symm, hx.1.2.symm, hx.2.symm⟩
          | cons e x =>
              rw [List.cons_append, List.cons.injEq] at hx
              exact absurd ⟨_, _, rfl⟩ (hnot (.begun addr n) (by rw [hx.2]; simp))
      obtain ⟨rfl, rfl, hsince⟩ := hsince
      refine ⟨p, rfl, ?_⟩
      have hpre' : since <+: copy ++ finish := ⟨t, hsince⟩
      rcases prefix_append_cases hpre' with hcp | ⟨cs, hne, hcs, rfl⟩
      · exact fun e he => hcopy e (hcp.subset he)
      · have hfin : finish ≠ [] := by
          rintro rfl
          exact hne (List.prefix_nil.mp hcs)
        have := hm hfin
        rw [writtenBytes_append] at hlt
        omega

/-- After a harmless copy that has erased the first sector, the partition cannot boot. -/
theorem harmless_safe {w : World} {before since : List Event} (hes : ∀ e ∈ since, e.Harmless p)
    (her : .op (.erase (p.address / secSize)) .ok ∈ since) :
    (w.run (before ++ .begun p.address n :: since)).flash p.address ≠ imageMagic ∧
      (w.run (before ++ .begun p.address n :: since)).boot = (w.run before).boot := by
  rw [World.run_append, World.run_cons]
  refine ⟨?_, run_harmless_boot hes⟩
  rw [run_harmless_erased hes her]
  decide

/-- **One more attempt keeps every prefix safe.** -/
theorem SafeEverywhere.append {w : World} {es fs : List Event} (h : SafeEverywhere w es)
    (hfs : AttemptEvents fs) : SafeEverywhere w (es ++ fs) := by
  intro before addr n since hpre hno her hlt
  -- a `begin` that lies in the new attempt
  have hnew : ∀ cs, before = es ++ cs → cs ++ .begun addr n :: since <+: fs →
      (w.run (before ++ .begun addr n :: since)).flash addr ≠ imageMagic ∧
        (w.run (before ++ .begun addr n :: since)).boot = (w.run before).boot := by
    intro cs _ hcs
    obtain ⟨p, rfl, hharm⟩ := hfs.harmless_since hcs hlt
    exact harmless_safe hharm her
  rcases prefix_append_cases hpre with hes | ⟨gs, -, hgs, heq⟩
  · exact h before addr n since hes hno her hlt
  · rcases List.append_eq_append_iff.mp heq with ⟨x, hx, hgs'⟩ | ⟨x, hx, hgs'⟩
    · rcases List.cons_eq_append_iff.mp hgs' with ⟨rfl, rfl⟩ | ⟨x', rfl, rfl⟩
      · exact hnew [] (by simpa using hx.symm) (by simpa using hgs)
      · -- an earlier attempt's `begin`: what follows it in the new attempt is idle
        have hidle := hfs.idle_of_prefix hgs fun e he => hno e (List.mem_append_right _ he)
        rw [writtenBytes_append] at hlt
        have her' : .op (.erase (addr / secSize)) .ok ∈ x' := by
          rcases List.mem_append.mp her with hm | hm
          · exact hm
          · exact (hidle _ hm).elim
        obtain ⟨hflash, hboot⟩ := h before addr n x' (by rw [hx])
          (fun e he => hno e (List.mem_append_left _ he)) her' (by omega)
        have hsplit : before ++ Event.begun addr n :: (x' ++ gs)
            = (before ++ .begun addr n :: x') ++ gs := by simp
        obtain ⟨hf, hb⟩ := run_idle (w := w.run (before ++ .begun addr n :: x')) hidle
        rw [hsplit, World.run_append, hf, hb]
        exact ⟨hflash, hboot⟩
    · exact hnew x hx (hgs' ▸ hgs)

theorem runAttempts_safe_from (as : List Attempt) {u : UpdateClass} {w : World} {es : List Event}
    (hidle : u.size = 0) (hes : SafeEverywhere w es) :
    ∃ fs, (runAttempts as (u, w.run es)).2 = w.run fs ∧ SafeEverywhere w fs := by
  induction as generalizing u es with
  | nil => exact ⟨es, rfl, hes⟩
  | cons a as ih =>
      obtain ⟨hidle', fs, hworld, hshape⟩ := a.run_events (w.run es) hidle
      rw [← World.run_append] at hworld
      have hrun : a.run (u, w.run es) = ((a.run (u, w.run es)).1, w.run (es ++ fs)) := by
        rw [← hworld]
      have hnext := ih hidle' (hes.append hshape)
      rw [← hrun] at hnext
      exact hnext

/-- **Power loss never leaves a bootable partial image.**  Whatever attempts are made one after another
from program start, over whatever streams and with whatever flash failures: at every prefix of their
events. -/
theorem runAttempts_safeEverywhere (as : List Attempt) (w : World) :
    ∃ es, (runAttempts as (.init, w)).2 = w.run es ∧ SafeEverywhere w es := by
  have hnil : SafeEverywhere w [] := by
    intro before addr n since hpre
    simp at hpre
  exact runAttempts_safe_from as rfl hnil

end EspFirmware
