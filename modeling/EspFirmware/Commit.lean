import EspFirmware.UpdateLoop

/-!
# A firmware commit is exact and atomic

The `writeStream` loop copies the stream into the partition sector by sector with the magic byte withheld;
`Update.end()` puts the magic in place and switches the boot selection only if exactly the announced
number of bytes was written.

* `Stored` — the first bytes of the image are in flash, in order, the magic byte apart;
* `Phase` — where a running update stands: copying, finished, or past the end of the image (a short read
  in the last sector can carry the buffer over it); in the last phase no flush test can succeed at the
  announced size any more, and the flash chip ends the run;
* `writeStream_end` — what the loop leaves: an aborted updater, or the whole image in flash.
-/

namespace EspFirmware

open NorFlash UpdateClass CString

/-- The image in a stream: its bytes after at most one leading LF. -/
def imageBytes (client : List Arrival) : List UInt8 :=
  if (Arrival.bytesOf client).head? = some LF then (Arrival.bytesOf client).tail
  else Arrival.bytesOf client

/-- The first `k` bytes of `c` are in the partition, with the magic byte withheld. -/
def Stored (p : Partition) (f : Cells) (c : List UInt8) (k : ℕ) : Prop :=
  0 < k → f p.address = blank ∧ c.head? = some imageMagic ∧
    ∀ i, 0 < i → i < k → f (p.address + i) = c.getD i 0

/-- Where a running update of `n` bytes stands after reading `c`. -/
inductive Phase (p : Partition) (n chip : ℕ) (c : List UInt8) (u : UpdateClass) (f : Cells) : Prop
  | copying : u.progress < n → u.progress % secSize = 0 → u.buffer = c.drop u.progress →
      c.length = u.progress + u.buffer.length → u.buffer.length < n - u.progress →
      Stored p f c u.progress → Phase p n chip c u f
  | finished : u.progress = n → u.buffer = [] → c.length = n → Stored p f c n →
      Phase p n chip c u f
  | overrun : u.progress % secSize = 0 →
      (u.progress < n ∧ n - u.progress < u.buffer.length ∨
        n < u.progress ∧ p.address + u.progress ≤ chip) → Phase p n chip c u f

/-- The loop invariant: what has been read and what is still to come make up the stream. -/
def Loop (p : Partition) (n chip : ℕ) (w₀ : World) (total : List UInt8) (u : UpdateClass)
    (w : World) (client : List Arrival) : Prop :=
  Running p n u ∧ World.Extends Event.Quiet w₀ w ∧
    ∃ c, total = c ++ Arrival.bytesOf client ∧ Phase p n chip c u w.flash

/-- What the loop leaves: an aborted updater, or the whole image in flash. -/
def LoopEnd (p : Partition) (n : ℕ) (w₀ : World) (total : List UInt8) (u : UpdateClass)
    (w : World) : Prop :=
  World.Extends Event.Quiet w₀ w ∧
    (u.size = 0 ∧ u.error ≠ .ok ∨
      Running p n u ∧ u.progress = n ∧ n ≤ total.length ∧ Stored p w.flash total n)

variable {env : OtaEnv} {p : Partition} {n chip : ℕ} {w₀ : World} {total : List UInt8}

theorem Stored.append {f : Cells} {c : List UInt8} {k : ℕ} (h : Stored p f c k) (hk : k ≤ c.length)
    (d : List UInt8) : Stored p f (c ++ d) k := by
  intro hpos
  obtain ⟨h₁, h₂, h₃⟩ := h hpos
  refine ⟨h₁, ?_, fun i hi hik => ?_⟩
  · cases c with
    | nil => simp at h₂
    | cons b c => simpa using h₂
  · rw [h₃ i hi hik, List.getD_append _ _ _ _ (by omega)]

/-- **A flush stores its sector.**  A successful flush of a buffer that continues what is stored extends
it by the buffer. -/
theorem Stored.flush {u u' : UpdateClass} {w w' : World} {c : List UInt8} (hrun : Running p n u)
    {bs : List UInt8} (hbs : bs ≠ []) (hn : p.address + n ≤ 2 ^ 32) (hlt : u.progress < n)
    (halign : u.progress % secSize = 0) (hbuf : u.buffer = c.drop u.progress)
    (hlen : c.length = u.progress + u.buffer.length) (hroom : u.buffer.length + bs.length ≤ secSize)
    (hst : Stored p w.flash c u.progress) (hflush : Flush env (u.fill bs) w (true, u', w')) :
    Stored p w'.flash (c ++ bs) (u.progress + (u.buffer ++ bs).length) := by
  have hpa := p.aligned
  have haddr : (u.fill bs).nextAddress = p.address + u.progress :=
    hrun.nextAddress_eq (by omega)
  have hsec : (p.address + u.progress) / secSize * secSize = p.address + u.progress := by
    simp only [secSize] at *
    omega
  have hflash := hflush.flash_done
  rw [haddr, hsec] at hflash
  have hcmd : (u.fill bs).command = .flash := hrun.command
  have hdlen : (u.fill bs).flushData.length = (u.buffer ++ bs).length := flushData_length
  have hlen' : (u.buffer ++ bs).length = u.buffer.length + bs.length := List.length_append
  have hpos : 0 < bs.length := List.length_pos_of_ne_nil hbs
  -- below the sector nothing changes
  have hbelow : ∀ i, i < u.progress → w'.flash (p.address + i) = w.flash (p.address + i) := by
    intro i hi
    rw [hflash, program_apply_of_not_mem (by omega), erase_apply_of_not_mem (by omega)]
  -- inside it the data lands on erased cells
  have hinside : ∀ i, u.progress ≤ i → i < u.progress + (u.buffer ++ bs).length →
      w'.flash (p.address + i) = (u.fill bs).flushData.getD (i - u.progress) 0 := by
    intro i hi hik
    rw [hflash, program_erased (by omega) (erase_apply_of_mem (by omega))]
    congr 1
    omega
  have hdrop : u.buffer ++ bs = (c ++ bs).drop u.progress := by
    rw [List.drop_append_of_le_length (by omega), ← hbuf]
  intro _
  by_cases hp0 : u.progress = 0
  · have hmagic := hflush.done_eq.2.1 ((firstBytes_iff hcmd).mpr hp0)
    have hhead := hinside 0 (by omega) (by omega)
    rw [hp0, Nat.add_zero, flushData_head hcmd hp0 (by simp [hbs])] at hhead
    rw [hp0, List.drop_zero] at hdrop
    refine ⟨hhead, by rw [← hdrop]; exact hmagic, fun i hi hik => ?_⟩
    rw [hinside i (by omega) hik, flushData_getD hcmd _ (by simp only [fill_progress]; omega),
      ← hdrop, hp0]
    rfl
  · obtain ⟨hhead, hmagic, hold⟩ := hst.append (by omega) bs (by omega)
    refine ⟨?_, hmagic, fun i hi hik => ?_⟩
    · have h0 := hbelow 0 (by omega)
      rw [Nat.add_zero] at h0
      rw [h0, hhead]
    · by_cases hip : i < u.progress
      · rw [hbelow i hip, hold i hi hip]
      · rw [hinside i (by omega) hik, flushData_getD hcmd _ (by simp only [fill_progress]; omega),
          fill_buffer, hdrop, List.getD_eq_getElem?_getD, List.getD_eq_getElem?_getD,
          List.getElem?_drop]
        congr 2
        omega

/-- A sector that could be erased lies on the chip. -/
theorem flush_inside {u u' : UpdateClass} {w w' : World} {bs : List UInt8} (hrun : Running p n u)
    (hrej : env.RejectsOutside chip) (haddr : p.address + u.progress < 2 ^ 32)
    (halign : u.progress % secSize = 0) (hflush : Flush env (u.fill bs) w (true, u', w')) :
    p.address + u.progress + secSize ≤ chip := by
  have herase := hflush.done_eq.2.2.1.1
  have hin : FlashOp.Inside chip (u.fill bs).eraseOp := not_not.mp fun hout => hrej _ _ hout herase
  have hnext : (u.fill bs).nextAddress = p.address + u.progress := hrun.nextAddress_eq haddr
  have hpa := p.aligned
  simp only [eraseOp, hnext, FlashOp.Inside, secSize] at *
  omega

/-- The state after a successful flush is again a state between rounds. -/
theorem flush_state {u u' : UpdateClass} {w w' : World} {bs : List UInt8} (hrun : Running p n u)
    (hflush : Flush env (u.fill bs) w (true, u', w'))
    (hlt : u.progress + (u.buffer ++ bs).length < 2 ^ 32) :
    Running p n u' ∧ u'.buffer = [] ∧ u'.progress = u.progress + (u.buffer ++ bs).length := by
  obtain ⟨rfl, -⟩ := hflush.done_eq
  exact ⟨hrun.flushed, rfl, wrap32_of_lt hlt⟩

/-- A round that only reads keeps the invariant. -/
theorem Phase.filled {u : UpdateClass} {f : Cells} {c bs : List UInt8} (hrun : Running p n u)
    (hn : n < 2 ^ 32) (hrem : u.remaining ≠ 0) (hph : Phase p n chip c u f)
    (hle : u.buffer.length + bs.length ≤ secSize) (hdue : (u.fill bs).flushDue = false) :
    Running p n (u.fill bs) ∧ Phase p n chip (c ++ bs) (u.fill bs) f := by
  have hnd := not_due_iff.mp hdue
  refine ⟨hrun.fill (by simp only [List.length_append]; omega), ?_⟩
  cases hph with
  | copying hlt halign hbuf hlen hleft hst =>
      have hr := hrun.remaining_eq hn (by omega)
      by_cases hover : u.buffer.length + bs.length < n - u.progress
      · refine .copying hlt halign ?_ ?_ ?_ (hst.append (by omega) bs)
        · simp only [fill_buffer, fill_progress]
          rw [List.drop_append_of_le_length (by omega), ← hbuf]
        · simp only [fill_buffer, fill_progress, List.length_append]
          omega
        · simpa using hover
      · refine .overrun halign (.inl ⟨hlt, ?_⟩)
        simp only [fill_buffer, fill_progress, List.length_append]
        omega
  | finished hp hbuf hlen hst =>
      have hr := hrun.remaining_eq hn (by omega)
      omega
  | overrun halign hpast =>
      refine .overrun halign (hpast.imp (fun h => ⟨h.1, ?_⟩) id)
      simp only [fill_buffer, fill_progress, List.length_append]
      omega

/-- A round that flushes keeps the invariant. -/
theorem Phase.flushed {u u' : UpdateClass} {w w' : World} {c bs : List UInt8} (hrun : Running p n u)
    (hn : n < 2 ^ 32) (hsize : n ≤ p.size) (hchip : chip < 2 ^ 32) (hrej : env.RejectsOutside chip)
    (hbs : bs ≠ []) (hrem : u.remaining ≠ 0) (hph : Phase p n chip c u w.flash)
    (hle : u.buffer.length + bs.length ≤ secSize) (hdue : (u.fill bs).flushDue = true)
    (hflush : Flush env (u.fill bs) w (true, u', w')) :
    Running p n u' ∧ Phase p n chip (c ++ bs) u' w'.flash := by
  have hfits := p.fits
  rw [fill_due_iff] at hdue
  cases hph with
  | copying hlt halign hbuf hlen hleft hst =>
      have hr := hrun.remaining_eq hn (by omega)
      have hin := flush_inside hrun hrej (by omega) halign hflush
      have hst' := Stored.flush hrun hbs (by omega) hlt halign hbuf hlen hle hst hflush
      have hlapp : (u.buffer ++ bs).length = u.buffer.length + bs.length := List.length_append
      obtain ⟨hrun', hbuf', hprog'⟩ := flush_state hrun hflush (by omega)
      rw [← hprog'] at hst'
      refine ⟨hrun', ?_⟩
      have hclen : (c ++ bs).length = u'.progress := by
        rw [List.length_append, hprog']
        omega
      by_cases hend : u.buffer.length + bs.length = n - u.progress
      · have hpn : u'.progress = n := by omega
        exact .finished hpn hbuf' (by omega) (hpn ▸ hst')
      · have halign' : u'.progress % secSize = 0 := by
          simp only [secSize] at *
          omega
        by_cases hmore : u'.progress < n
        · refine .copying hmore halign' ?_ ?_ (by simp [hbuf', hmore]) hst'
          · rw [hbuf', ← hclen, List.drop_length]
          · rw [hbuf', hclen]
            rfl
        · exact .overrun halign' (.inr ⟨by omega, by omega⟩)
  | finished hp hbuf hlen hst =>
      have hr := hrun.remaining_eq hn (by omega)
      omega
  | overrun halign hpast =>
      have hlapp : (u.buffer ++ bs).length = u.buffer.length + bs.length := List.length_append
      have hin := flush_inside hrun hrej (by omega) halign hflush
      -- past the end of the image only the full-sector test can succeed
      have hfull : u.buffer.length + bs.length = secSize := by
        rcases hpast with ⟨hlt, hmore⟩ | ⟨hgt, -⟩
        · have hr := hrun.remaining_eq hn (by omega)
          omega
        · have hr := hrun.remaining_past hgt
          simp only [secSize] at *
          omega
      obtain ⟨hrun', hbuf', hprog'⟩ := flush_state hrun hflush (by omega)
      refine ⟨hrun', .overrun ?_ (.inr ⟨by omega, by omega⟩)⟩
      simp only [secSize] at *
      omega

/-! ### The loop -/

/-- A round that goes on keeps the invariant. -/
theorem Loop.next {u u' : UpdateClass} {w w' : World} {client client' : List Arrival} {got : ℕ}
    (hn : n < 2 ^ 32) (hsize : n ≤ p.size) (hchip : chip < 2 ^ 32) (hrej : env.RejectsOutside chip)
    (hI : Loop p n chip w₀ total u w client) (hrem : u.remaining ≠ 0)
    (hround : RoundSpec env u w client (.next got u' w' client')) :
    Loop p n chip w₀ total u' w' client' := by
  obtain ⟨hrun, hquiet, c, htotal, hph⟩ := hI
  cases hround with
  | filled bs _ hbs hr hdue =>
      obtain ⟨hbytes, -, hle⟩ := hrun.read_le hr
      obtain ⟨hrun', hph'⟩ := hph.filled hrun hn hrem hle hdue
      exact ⟨hrun', hquiet, c ++ bs, by rw [htotal, hbytes, List.append_assoc], hph'⟩
  | flushed bs _ _ _ hbs hr hdue hflush =>
      obtain ⟨hbytes, -, hle⟩ := hrun.read_le hr
      obtain ⟨hrun', hph'⟩ := hph.flushed hrun hn hsize hchip hrej hbs hrem hle hdue hflush
      exact ⟨hrun', hquiet.trans hflush.quiet, c ++ bs,
        by rw [htotal, hbytes, List.append_assoc], hph'⟩

/-- A round that stops leaves an aborted updater. -/
theorem Loop.stop {u u' : UpdateClass} {w w' : World} {client client' : List Arrival}
    (hI : Loop p n chip w₀ total u w client)
    (hround : RoundSpec env u w client (.stop u' w' client')) : LoopEnd p n w₀ total u' w' := by
  obtain ⟨-, hquiet, -⟩ := hI
  cases hround with
  | stalled _ hr => exact ⟨hquiet, .inl ⟨rfl, by simp⟩⟩
  | flushFailed bs _ _ _ hbs hr hdue hflush =>
      exact ⟨hquiet.trans hflush.quiet, .inl hflush.aborted⟩

/-- The loop is left at its head only when the image is complete. -/
theorem Loop.done {u : UpdateClass} {w : World} {client : List Arrival} (hn : n < 2 ^ 32)
    (hchip : chip < 2 ^ 32) (hI : Loop p n chip w₀ total u w client) (hrem : u.remaining = 0) :
    LoopEnd p n w₀ total u w := by
  obtain ⟨hrun, hquiet, c, htotal, hph⟩ := hI
  refine ⟨hquiet, .inr ⟨hrun, ?_⟩⟩
  cases hph with
  | copying hlt halign hbuf hlen hleft hst =>
      have hr := hrun.remaining_eq hn (by omega)
      omega
  | finished hp hbuf hlen hst =>
      refine ⟨hp, ?_, ?_⟩
      · rw [htotal, List.length_append]
        omega
      · rw [htotal]
        exact hst.append (by omega) _
  | overrun halign hpast =>
      rcases hpast with ⟨hlt, hmore⟩ | ⟨hgt, hin⟩
      · have hr := hrun.remaining_eq hn (by omega)
        omega
      · have hr := hrun.remaining_past hgt
        omega

/-- **The loop copies the stream.**  It ends with an aborted updater or with the whole image in flash. -/
theorem writeStreamLoop_end {u : UpdateClass} {w : World} {client : List Arrival} (written : ℕ)
    (hn : n < 2 ^ 32) (hsize : n ≤ p.size) (hchip : chip < 2 ^ 32) (hrej : env.RejectsOutside chip)
    (hI : Loop p n chip w₀ total u w client) :
    LoopEnd p n w₀ total (u.writeStreamLoop env w client written).2.1
      (u.writeStreamLoop env w client written).2.2.1 :=
  writeStreamLoop_rule (R := fun u w _ => LoopEnd p n w₀ total u w)
    (fun _ _ _ hI hrem => hI.done hn hchip hrem)
    (fun _ _ _ _ _ _ hI _ hround => hI.stop hround)
    (fun _ _ _ _ _ _ _ hI hrem hround => hI.next hn hsize hchip hrej hrem hround)
    u w client written hI

/-- **What `writeStream` leaves** when it is called right after `begin`. -/
theorem writeStream_end {u : UpdateClass} (w : World) (client : List Arrival) (hrun : Running p n u)
    (hprog : u.progress = 0) (hbuf : u.buffer = []) (hpos : 0 < n) (hn : n < 2 ^ 32)
    (hsize : n ≤ p.size) (hchip : chip < 2 ^ 32) (hrej : env.RejectsOutside chip) :
    LoopEnd p n w (Arrival.bytesOf client) (u.writeStream env w client).2.1
      (u.writeStream env w client).2.2.1 := by
  rcases hrun.writeStream_cases hpos env w client with hbad | ⟨-, hbytes, hloop⟩
  · rw [hbad]
    exact ⟨.refl _ w, .inl ⟨rfl, by simp [abort, reset]⟩⟩
  · rw [hloop]
    refine writeStreamLoop_end 0 hn hsize hchip hrej ⟨hrun, .refl _ w, [], hbytes.symm, ?_⟩
    refine .copying (by omega) (by simp [hprog]) (by simp [hbuf]) (by simp [hprog, hbuf])
      (by simp [hprog, hbuf, hpos]) ?_
    simp [Stored, hprog]

/-! ### The end of an update -/

/-- An event that neither switches the boot selection nor restarts the device. -/
def Event.Unswitched (e : Event) : Prop := e ≠ .restart ∧ ∀ a, e ≠ .setBoot a true

theorem Event.Quiet.unswitched {e : Event} (h : e.Quiet) : e.Unswitched := by
  cases e with
  | setBoot a b => exact h.elim
  | restart => exact h.elim
  | _ => exact ⟨by simp, by simp⟩

theorem Event.Logged.quiet {e : Event} (h : e.Logged) : e.Quiet := by
  obtain ⟨msg, rfl⟩ := h
  trivial

/-- Writing four bytes back with the magic in front changes only the first, blank, cell. -/
theorem program_slice_magic {f : Cells} {a : ℕ} (h : f a = blank) :
    program f a ((slice f a 4).set 0 imageMagic) = Function.update f a imageMagic := by
  funext x
  by_cases hx : x = a
  · subst hx
    rw [program_erased (by simp) h, Function.update_self, Nat.sub_self]
    rfl
  · rw [Function.update_of_ne hx]
    by_cases hmem : a ≤ x ∧ x < a + ((slice f a 4).set 0 imageMagic).length
    · have hlen : ((slice f a 4).set 0 imageMagic).length = 4 := by simp
      have hlt : x - a < 4 := by omega
      have hget : (slice f a 4)[x - a]?.getD 0 = f x := by
        simp only [slice, List.getElem?_map, List.getElem?_range hlt, Option.map_some,
          Option.getD_some]
        congr 1
        omega
      rw [program_apply_of_mem hmem, List.getD_eq_getElem?_getD, List.getElem?_set_ne (by omega),
        hget, and_self_byte]
    · exact program_apply_of_not_mem hmem

/-- With the magic in place the stored image is the stream's. -/
theorem Stored.slice_eq {f : Cells} {c : List UInt8} (h : Stored p f c n) (hpos : 0 < n)
    (hlen : n ≤ c.length) :
    slice (Function.update f p.address imageMagic) p.address n = c.take n := by
  obtain ⟨-, hhead, hrest⟩ := h hpos
  apply slice_eq_take hlen
  intro i hi
  by_cases hi0 : i = 0
  · subst hi0
    rw [Nat.add_zero, Function.update_self]
    cases c with
    | nil => simp at hhead
    | cons b c =>
        simp only [List.head?_cons, Option.some.injEq] at hhead
        simp [hhead]
  · rw [Function.update_of_ne (by omega), hrest i (by omega) hi]

/-- What a download from a stream `total` into `p` comes to. -/
inductive Result (p : Partition) (n : ℕ) (w : World) (total : List UInt8) (d : Download) : Prop
  | switched (w₁ : World) : d.restarted = true → World.Extends Event.Quiet w w₁ →
      d.world = (w₁.step (.setBoot p.address true)).step .restart → n ≤ total.length →
      total.head? = some imageMagic → slice w₁.flash p.address n = total.take n →
      Result p n w total d
  | kept : d.restarted = false → World.Extends Event.Unswitched w d.world → Result p n w total d

/-- `end()` after the loop: the switch is made on a complete image, or not at all. -/
theorem LoopEnd.download {u : UpdateClass} {w : World} {client : List Arrival} (contentLength : Long)
    (h : LoopEnd p n w total (u.writeStream env w client).2.1 (u.writeStream env w client).2.2.1)
    (hpos : 0 < n) :
    (download env contentLength u w client).update.size = 0 ∧
      Result p n w total (download env contentLength u w client) := by
  obtain ⟨w₂, hlog, hdown⟩ := download_eq env contentLength u w client
  obtain ⟨hquiet, hend⟩ := h
  have hq₂ : World.Extends Event.Quiet w w₂ := hquiet.trans (hlog.mono fun e => Event.Logged.quiet)
  have hu₂ : World.Extends Event.Unswitched w w₂ := hq₂.mono fun e => Event.Quiet.unswitched
  have hfatal : ∀ msg, Event.Unswitched (.fatalError msg) := fun msg => ⟨by simp, by simp⟩
  have hop : ∀ o r, Event.Unswitched (.op o r) := fun o r => ⟨by simp, by simp⟩
  -- every exit that does not commit ends with a logged error
  have hkept : ∀ u' w', u'.size = 0 → World.Extends Event.Unswitched w₂ w' →
      (u.writeStream env w client).2.1.endUpdate env w₂ false = (false, u', w') →
      (EspFirmware.download env contentLength u w client).update.size = 0 ∧
        Result p n w total (EspFirmware.download env contentLength u w client) := by
    intro u' w' hsize hw' he
    obtain ⟨msg, hd⟩ := hdown _ _ _ he
    rw [hd]
    exact ⟨hsize, .kept rfl ((hu₂.trans hw').step (hfatal msg))⟩
  rcases hend with ⟨hsize, -⟩ | ⟨hrun, hprog, hlen, hst⟩
  · exact hkept _ _ hsize (.refl _ _) (endUpdate_idle hsize)
  · rcases hrun.endUpdate hpos hprog with hmd5 | hending
    · exact hkept _ _ rfl (.refl _ _) hmd5
    · have hflash : w₂.flash = (u.writeStream env w client).2.2.1.flash := hlog.logged_flash
      rcases he : (u.writeStream env w client).2.1.endUpdate env w₂ false with ⟨_ | _, u', w'⟩
      · rw [he] at hending
        obtain ⟨hsize, hext⟩ := hending.failed (fun _ => hop _ _) (fun _ => hop _ _)
          (show Event.Unswitched (.setBoot p.address false) from ⟨by simp, by simp⟩)
        exact hkept _ _ hsize hext he
      · rw [he] at hending
        obtain ⟨rfl, rfl⟩ := hending.succeeded
        obtain ⟨msg, hd⟩ := hdown _ _ _ he
        rw [if_pos ⟨rfl, rfl⟩] at hd
        rw [hd]
        have hops : ∀ e ∈ [Event.op (headRead p) .ok, .op (magicWrite p w₂) .ok,
            .op (headRead p) .ok], e.Quiet := by
          simp [Event.Quiet]
        refine ⟨rfl, .switched _ rfl (hq₂.run hops) rfl hlen (hst hpos).2.1 ?_⟩
        have hcells : w₂.flash p.address = blank := by
          rw [hflash]
          exact (hst hpos).1
        simp only [World.run_cons, World.run_nil, World.step_op_flash, FlashOp.effect, headRead, magicWrite]
        rw [program_slice_magic hcells, hflash]
        exact hst.slice_eq hpos hlen

/-! ### The stream behind the callback -/

/-- Dropping the line feed leaves the image; a line feed that came too late to be peeked stays. -/
theorem skipLineFeed_bytes (client : List Arrival) :
    Arrival.bytesOf (skipLineFeed client) = imageBytes client ∨
      (Arrival.bytesOf (skipLineFeed client)).head? = some LF := by
  unfold skipLineFeed
  rcases hpeek : Arrival.peek client with ⟨_ | b, client'⟩
  · have hb := Arrival.peek_none hpeek
    show Arrival.bytesOf client' = imageBytes client ∨ (Arrival.bytesOf client').head? = some LF
    rw [hb, imageBytes]
    split_ifs with h
    · exact .inr h
    · exact .inl rfl
  · obtain ⟨t, rfl, hb⟩ := Arrival.peek_some hpeek
    refine .inl ?_
    simp only [Arrival.bytesOf] at hb
    simp only [imageBytes, ← hb, List.head?_cons, Option.some.injEq, List.tail_cons]
    split_ifs
    · rfl
    · rfl

/-- What holds of the image's length, if the image starts with the magic, holds of the stream that
`writeStream` gets. -/
theorem skipLineFeed_delivers {Q : ℕ → Prop} {client : List Arrival} {image : List UInt8}
    (himage : imageBytes client = image) (h : Q image.length ∨ image.head? ≠ some imageMagic) :
    Q (Arrival.bytesOf (skipLineFeed client)).length ∨
      (Arrival.bytesOf (skipLineFeed client)).head? ≠ some imageMagic := by
  rcases skipLineFeed_bytes client with hskip | hskip
  · rw [hskip, himage]
    exact h
  · -- a line feed the peek missed is not the magic
    rw [hskip]
    exact .inr (by decide)

/-! ### The commit -/

/-- The callback's effect on `w`, the events `es`, is exact and atomic for an image of `n` bytes. -/
structure AtomicCommit (env : OtaEnv) (n : ℕ) (image : List UInt8) (w : World) (d : Download)
    (es : List Event) : Prop where
  events : d.world = w.run es
  restarted : d.restarted = true ↔ Event.restart ∈ es
  switched : Event.restart ∈ es ↔ ∃ a, Event.setBoot a true ∈ es
  exact : Event.restart ∈ es → ∃ p, env.nextUpdatePartition = some p ∧ d.world.boot = p.address ∧
    n ≤ image.length ∧ image.head? = some imageMagic ∧ slice d.world.flash p.address n = image.take n
  kept : Event.restart ∉ es → d.world.boot = w.boot
  idle : d.update.isRunning = false

/-- A download that ends without a switch is atomic. -/
theorem AtomicCommit.of_unswitched {image : List UInt8} {w : World} {d : Download}
    (hsize : d.update.size = 0) (hr : d.restarted = false)
    (h : World.Extends Event.Unswitched w d.world) : ∃ es, AtomicCommit env n image w d es := by
  obtain ⟨es, hworld, hes⟩ := h
  have hnr : Event.restart ∉ es := fun hm => (hes _ hm).1 rfl
  have hns : ∀ a, Event.setBoot a true ∉ es := fun a hm => (hes _ hm).2 a rfl
  refine ⟨es, hworld, by simp [hr, hnr], by simp [hnr, hns], fun hm => absurd hm hnr, fun _ => ?_,
    by simp [isRunning, hsize]⟩
  rw [hworld]
  exact w.run_boot es hns

/-- A download that switches has done so on the whole image. -/
theorem AtomicCommit.of_switched {image : List UInt8} {w w₁ : World} {d : Download}
    (hpart : env.nextUpdatePartition = some p) (hsize : d.update.size = 0) (hr : d.restarted = true)
    (h : World.Extends Event.Quiet w w₁)
    (hworld : d.world = (w₁.step (.setBoot p.address true)).step .restart)
    (hlen : n ≤ image.length) (hmagic : image.head? = some imageMagic)
    (hslice : slice w₁.flash p.address n = image.take n) :
    ∃ es, AtomicCommit env n image w d es := by
  obtain ⟨es, rfl, -⟩ := h
  refine ⟨es ++ [.setBoot p.address true, .restart], ?_, by simp [hr], ?_, fun _ => ?_, ?_,
    by simp [isRunning, hsize]⟩
  · rw [World.run_append]
    exact hworld
  · exact ⟨fun _ => ⟨p.address, by simp⟩, fun _ => by simp⟩
  · rw [hworld]
    exact ⟨p, hpart, rfl, hlen, hmagic, hslice⟩
  · intro hm
    simp at hm

/-- **The commit is exact and atomic.**  For every accepted header, stream, pattern of reads and pattern
of flash failures, starting from an idle updater: the device restarts exactly when the boot selection
was switched, and then the partition holds the first `n` bytes of the image, which starts with the
magic; on every other exit the boot selection is the old one.  The updater is idle again in any case. -/
theorem processFirmwareUpdateResponse_atomicCommit (env : OtaEnv) (headerData : ResponseHeaderData)
    (u : UpdateClass) (w : World) (client : List Arrival) (chip : ℕ) (hacc : Accepted headerData)
    (hidle : u.isRunning = false) (hchip : chip < 2 ^ 32) (hrej : env.RejectsOutside chip) :
    ∃ es, AtomicCommit env headerData.contentLength.1.toNat (imageBytes client) w
      (processFirmwareUpdateResponse env headerData u w client) es := by
  have hlong := headerData.contentLength.2
  have hmin := hacc.1
  obtain ⟨n, hn⟩ : ∃ n : ℕ, headerData.contentLength.1 = n := 
    ⟨_, (Int.toNat_of_nonneg (by omega)).symm⟩
  have hsize : u.size = 0 := by simpa [isRunning] using hidle
  rw [hn, Int.toNat_natCast]
  rcases processFirmwareUpdateResponse_cases env w client hacc hsize hn with
    ⟨u', hu', -, -, hd⟩ | ⟨p, u', hpart, hfits, hrun, hprog, hbuf, -, -, hd⟩
  · rw [hd]
    refine AtomicCommit.of_unswitched hu' rfl ((World.Extends.refl _ w).run ?_)
    simp [Event.Unswitched]
  · set w₁ := w.run [.beginCalled n, .begun p.address n]
    have hend := writeStream_end w₁ (skipLineFeed client) hrun hprog hbuf
      (by omega) (by omega) hfits hchip hrej
    have hw₁ : World.Extends Event.Quiet w w₁ := (World.Extends.refl _ w).run (by simp [Event.Quiet])
    obtain ⟨hidle', hres⟩ := hend.download headerData.contentLength (by omega)
    rw [hd]
    cases hres with
    | switched w₂ hr hq hworld hlen hmagic hslice =>
        have himage : Arrival.bytesOf (skipLineFeed client) = imageBytes client := by
          rcases skipLineFeed_bytes client with h | h
          · exact h
          · rw [h] at hmagic
            exact absurd hmagic (by decide)
        rw [himage] at hlen hmagic hslice
        exact AtomicCommit.of_switched hpart hidle' hr (hw₁.trans hq) hworld hlen hmagic hslice
    | kept hr hext =>
        exact AtomicCommit.of_unswitched hidle' hr ((hw₁.mono fun e => Event.Quiet.unswitched).trans hext)

/-- The first application partition of a 4 MB device. -/
def ota0 : Partition := ⟨0x10000, 0x1E0000, by decide, by decide⟩

/-- The header of a firmware response. -/
def firmwareHeader (contentLength : Long) : ResponseHeaderData :=
  ResponseHeaderData.copyContentType ⟨contentLength, .zero 10, .zero 50, .zero 50⟩
    (ascii "application/octet-stream")

theorem firmwareHeader_accepted {contentLength : Long} (h : 500000 ≤ contentLength.1) :
    Accepted (firmwareHeader contentLength) := by
  refine ⟨h, ?_⟩
  show strEq ((CharArray.zero 50).strncpy (ascii "application/octet-stream") 50 le_rfl).1
    (ascii "application/octet-stream") = true
  decide

/-- A device with nothing in flash and nothing done yet. -/
def World.initial : World := ⟨fun _ => blank, 0, 0, []⟩

/-- An image behind its line feed, with a timeout after the magic. -/
def pausedImage (rest : List UInt8) : List Arrival :=
  .byte LF :: .byte imageMagic :: .pause true :: rest.map .byte

theorem pausedImage_bytes (rest : List UInt8) : imageBytes (pausedImage rest) = imageMagic :: rest := by
  simp [imageBytes, pausedImage, Arrival.bytesOf, LF]

theorem processFirmwareUpdateResponse_atomicCommit_ota0 :
    Accepted (firmwareHeader ⟨500000, by decide⟩) ∧ UpdateClass.init.isRunning = false ∧
      0x400000 < 2 ^ 32 ∧ (OtaEnv.healthy ota0 0x400000).RejectsOutside 0x400000 ∧
      ∃ es, AtomicCommit (OtaEnv.healthy ota0 0x400000) 500000 (imageMagic :: List.replicate 499999 0)
        .initial (processFirmwareUpdateResponse (OtaEnv.healthy ota0 0x400000)
          (firmwareHeader ⟨500000, by decide⟩) .init .initial
          (pausedImage (List.replicate 499999 0))) es := by
  refine ⟨by decide, by decide, by decide, OtaEnv.healthy_rejectsOutside _ _, ?_⟩
  rw [← pausedImage_bytes]
  exact processFirmwareUpdateResponse_atomicCommit _ (firmwareHeader ⟨500000, by decide⟩) _ _
    (pausedImage (List.replicate 499999 0)) 0x400000 (by decide) (by decide) (by decide)
    (OtaEnv.healthy_rejectsOutside _ _)

end EspFirmware
