import EspFirmware.Commit
import EspFirmware.Sectors

/-!
# Flash outside the announced image

`writeStream` clamps a read to `remaining()`, which leaves the bytes already in the buffer out of account,
and its flush test is an equality.  So after a short read in the last, partial sector a later read can carry
the buffer past the end of the image, and if enough bytes follow, a whole sector is written there.

* `Event.WithinImage` — the event respects the announced image;
* `OverrunsFrom` — from a sector on, the stream fills every sector up to the last one, no read ends at the
  end of the image, and the flash takes them;
* `writeStreamLoop_image` — the loop leaves the image exactly then, by induction over its sectors;
* `respectsImage_iff` — the exact condition for one download.
-/

namespace EspFirmware

open NorFlash UpdateClass CString

/-- Writes lie inside the `n` bytes from the partition's address, erased sectors overlap them, and
`_progress` is at most `_size`. -/
def Event.WithinImage (p : Partition) (n : ℕ) : Event → Prop
  | .op (.write addr data) _ => p.address ≤ addr ∧ addr + data.length ≤ p.address + n
  | .op (.erase sector) _ => sector * secSize < p.address + n ∧ p.address < (sector + 1) * secSize
  | .progress done size => done ≤ size
  | _ => True

/-- From sector `m` on, the stream fills every sector of an image of `n` bytes, the last one too, and the
flash takes them, up to the write of that last one; `i` events come before the erase of the first, and
`image` is the whole stream. -/
structure OverrunsFrom (env : OtaEnv) (p : Partition) (n : ℕ) (image : List UInt8) (i m : ℕ)
    (client : List Arrival) : Prop where
  stream : RunsOn n (n / secSize + 1 - m) m client
  sectors : ∀ k, m ≤ k → k < n / secSize → env.Takes p image i k
  erase : env.flash (i + 3 * (n / secSize)) (sectorErase p (n / secSize)) = .ok

variable {env : OtaEnv} {p : Partition} {n : ℕ}

/-- What the loop of a download that respects its image leaves. -/
def BoundedEnd (p : Partition) (n : ℕ) (w₀ : World) (u : UpdateClass) (w : World) : Prop :=
  World.Extends (Event.WithinImage p n) w₀ w ∧ (u.size = 0 ∨ Running p n u ∧ u.progress = n)

/-- A flush that stays inside the image leaves only events that do. -/
theorem flush_within {u u' : UpdateClass} {w w' : World} {bs : List UInt8} {ok : Bool}
    (hrun : Running p n u) (hn : p.address + n ≤ 2 ^ 32) (halign : u.progress % secSize = 0)
    (hlt : u.progress < n) (hle : u.progress + (u.buffer.length + bs.length) ≤ n)
    (hflush : Flush env (u.fill bs) w (ok, u', w')) :
    World.Extends (Event.WithinImage p n) w w' := by
  have hpa := p.aligned
  have haddr : (u.fill bs).nextAddress = p.address + u.progress := hrun.nextAddress_eq (by omega)
  have hdlen : (u.fill bs).flushData.length = u.buffer.length + bs.length := by
    rw [flushData_length, fill_buffer, List.length_append]
  apply hflush.extends
  · intro h0
    show u.progress ≤ u.size
    rw [hrun.size]
    omega
  · show wrap32 (u.progress + (u.buffer ++ bs).length) ≤ u.size
    rw [hrun.size, List.length_append, wrap32]
    omega
  · intro r
    show (u.fill bs).nextAddress / secSize * secSize < p.address + n ∧
      p.address < ((u.fill bs).nextAddress / secSize + 1) * secSize
    rw [haddr]
    simp only [secSize] at *
    omega
  · intro r
    show p.address ≤ (u.fill bs).nextAddress ∧
      (u.fill bs).nextAddress + (u.fill bs).flushData.length ≤ p.address + n
    rw [haddr, hdlen]
    omega

/-! ### Sector by sector -/

section Loop

variable {i m : ℕ} {image data : List UInt8} {u u' : UpdateClass} {w w' : World}
  {client client' : List Arrival} {ok : Bool}

theorem BoundedEnd.after {w₀ : World} (hext : World.Extends (Event.WithinImage p n) w₀ w)
    (h : BoundedEnd p n w u' w') : BoundedEnd p n w₀ u' w' :=
  ⟨hext.trans h.1, h.2⟩

/-- An event outside the image stays with whatever follows. -/
theorem not_extends_after {P Q R : Event → Prop} {w₀ w₁ w₂ : World} (h : ¬World.Extends P w₀ w₁)
    (h₁ : World.Extends Q w₀ w₁) (h₂ : World.Extends R w₁ w₂) : ¬World.Extends P w₀ w₂ :=
  fun hext => h (hext.parts h₁ h₂).1

/-- A stream that does not fill sector `m` does not overrun. -/
theorem OverrunsFrom.filled (h : OverrunsFrom env p n image i m client) (hm : m ≤ n / secSize) :
    Filled (share n m) 0 client := by
  have hstream := h.stream
  rw [Nat.succ_sub hm] at hstream
  exact hstream.1

/-- With sector `m` filled and taken, the rest decides. -/
theorem overrunsFrom_succ (hm : m < n / secSize) (hfilled : Filled (share n m) 0 client)
    (htakes : env.Takes p image i m) :
    OverrunsFrom env p n image i m client ↔
      OverrunsFrom env p n image i (m + 1) (readSizes (share n m) secSize client).2 := by
  have hsub : n / secSize + 1 - m = n / secSize + 1 - (m + 1) + 1 := by omega
  constructor
  · rintro ⟨hstream, hsectors, herase⟩
    rw [hsub] at hstream
    exact ⟨hstream.2, fun k hk => hsectors k (by omega), herase⟩
  · rintro ⟨hstream, hsectors, herase⟩
    refine ⟨?_, fun k hk hlt => ?_, herase⟩
    · rw [hsub]
      exact ⟨hfilled, hstream⟩
    · rcases Nat.eq_or_lt_of_le hk with rfl | hk
      · exact htakes
      · exact hsectors k hk hlt

theorem overrunsFrom_last (hfilled : Filled (share n (n / secSize)) 0 client) :
    OverrunsFrom env p n image i (n / secSize) client ↔
      env.flash (i + 3 * (n / secSize)) (sectorErase p (n / secSize)) = .ok := by
  refine ⟨fun h => h.erase, fun herase => ⟨?_, fun k hk hlt => absurd hlt (by omega), herase⟩⟩
  rw [Nat.add_sub_cancel_left]
  exact ⟨hfilled, trivial⟩

/-- The last sector, filled past the end of the image, is written if it can be erased. -/
theorem AtSector.flush_last (h : AtSector p n image i (n / secSize) u w client)
    (hbytes : Arrival.bytesOf client = data ++ Arrival.bytesOf client') (hlen : data.length = secSize)
    (hn : p.address + n ≤ 2 ^ 32) (hlast : n % secSize ≠ 0)
    (hflush : Flush env (u.fill data) w (ok, u', w')) :
    (env.flash (i + 3 * (n / secSize)) (sectorErase p (n / secSize)) = .ok →
        ¬World.Extends (Event.WithinImage p n) w w') ∧
      (env.flash (i + 3 * (n / secSize)) (sectorErase p (n / secSize)) ≠ .ok →
        ok = false ∧ BoundedEnd p n w u' w') := by
  have hmod : secSize * (n / secSize) + n % secSize = n := Nat.div_add_mod n secSize
  have hlt : n % secSize < secSize := Nat.mod_lt _ (by decide)
  have hpa := p.aligned
  have hprog := h.progress
  have hindex : (u.fill data).flushIndex w = i + 3 * (n / secSize) := h.events
  have hdata : data ≠ [] := by
    rintro rfl
    simp [secSize] at hlen
  have hmagic := h.magic_first hbytes hdata
  have hnext : (u.fill data).nextAddress = p.address + secSize * (n / secSize) := by
    rw [← hprog]
    exact h.running.nextAddress_eq (by omega)
  have hwrite : ∀ r, ¬Event.WithinImage p n (.op (u.fill data).writeOp r) := by
    rintro r ⟨-, hend⟩
    rw [hnext, flushData_length, fill_buffer, h.buffer, List.nil_append, hlen] at hend
    omega
  rw [← hindex, ← h.eraseOp_eq data]
  cases hflush with
  | badMagic hfirst hbad => exact absurd (hmagic hfirst) hbad
  | eraseFailed k _ he =>
      refine ⟨fun hok => by simp [he] at hok, fun _ => ⟨rfl, ?_, .inl rfl⟩⟩
      have hstarted : World.Extends (Event.WithinImage p n) w (w.run (u.fill data).startReports) := by
        refine (World.Extends.refl _ w).run fun e he => ?_
        unfold startReports reports at he
        split_ifs at he with h0 hc
        · rw [List.mem_singleton.mp he, h0]
          exact Nat.zero_le _
        · simp at he
        · simp at he
      rw [World.run_append]
      refine hstarted.run fun e he => ?_
      rw [List.mem_singleton.mp he]
      show (u.fill data).nextAddress / secSize * secSize < p.address + n ∧
        p.address < ((u.fill data).nextAddress / secSize + 1) * secSize
      rw [hnext]
      simp only [secSize] at *
      omega
  | writeFailed k _ he hw =>
      refine ⟨fun _ hext => ?_, fun hne => absurd he hne⟩
      exact hwrite (.failed k) (World.Extends.run_iff.mp hext _ (by simp))
  | done _ he hw =>
      refine ⟨fun _ hext => ?_, fun hne => absurd he hne⟩
      exact hwrite .ok (World.Extends.run_iff.mp hext _ (by simp))

/-- What the loop may do to the flash from sector `m` on, if it leaves `r`. -/
def KeptFrom (env : OtaEnv) (p : Partition) (n : ℕ) (image : List UInt8) (i m : ℕ) (w : World)
    (client : List Arrival) (r : ℕ × UpdateClass × World × List Arrival) : Prop :=
  (¬OverrunsFrom env p n image i m client → BoundedEnd p n w r.2.1 r.2.2.1) ∧
    (OverrunsFrom env p n image i m client → ¬World.Extends (Event.WithinImage p n) w r.2.2.1)

theorem KeptFrom.of_not_filled {r : ℕ × UpdateClass × World × List Arrival}
    (hnot : ¬Filled (share n m) 0 client) (hm : m ≤ n / secSize) (hend : BoundedEnd p n w r.2.1 r.2.2.1) :
    KeptFrom env p n image i m w client r :=
  ⟨fun _ => hend, fun hover => absurd (hover.filled hm) hnot⟩

namespace AtSector

variable {written : ℕ}

/-- The end of sector `m` is within the counter, and its start within the image. -/
theorem image_bounds (h : AtSector p n image i m u w client) (hmax : n < 2 ^ 31) (hm : m ≤ n / secSize) :
    secSize * (m + 1) < 2 ^ 32 ∧ u.progress ≤ n ∧ u.progress % secSize = 0 := by
  have hmod : secSize * (n / secSize) + n % secSize = n := Nat.div_add_mod n secSize
  have hle : secSize * m ≤ secSize * (n / secSize) := Nat.mul_le_mul_left _ hm
  have hmul : secSize * (m + 1) = secSize * m + secSize := Nat.mul_succ _ _
  have hsec : secSize = 4096 := rfl
  rw [h.progress]
  exact ⟨by omega, by omega, Nat.mul_mod_right _ _⟩

/-- A flush of no more bytes than the image has left stays within it. -/
theorem flush_kept (h : AtSector p n image i m u w client) (hn : p.address + n ≤ 2 ^ 32) (hmax : n < 2 ^ 31)
    (hm : m ≤ n / secSize) (hle : u.progress + data.length ≤ n) (hpos : 0 < data.length)
    (hflush : Flush env (u.fill data) w (ok, u', w')) :
    World.Extends (Event.WithinImage p n) w w' := by
  obtain ⟨-, -, halign⟩ := h.image_bounds hmax hm
  have hbuf : u.buffer.length = 0 := by rw [h.buffer, List.length_nil]
  exact flush_within h.running hn halign (by omega) (by omega) hflush

/-- The rest of the image, flushed or not, ends the loop within it. -/
theorem kept_image (h : AtSector p n image i m u w client) (hn : p.address + n ≤ 2 ^ 32) (hmax : n < 2 ^ 31)
    (hm : m ≤ n / secSize) (hend : data.length = share n m) (hlt : share n m < secSize)
    (hpos : 0 < share n m) (hflush : Flush env (u.fill data) w (ok, u', w')) :
    World.Extends (Event.WithinImage p n) w w' := by
  obtain ⟨hnext, hprog, -⟩ := h.image_bounds hmax hm
  have hc := h.share_eq (by omega) hnext
  have hR := h.running.remaining_eq (by omega) hprog
  exact h.flush_kept hn hmax hm (by omega) (by omega) hflush

/-- The last sector, filled past the end of the image. -/
theorem kept_last (h : AtSector p n image i (n / secSize) u w client) (hn : p.address + n ≤ 2 ^ 32)
    (hfilled : Filled (share n (n / secSize)) 0 client)
    (hbytes : Arrival.bytesOf client = data ++ Arrival.bytesOf client') (hlen : data.length = secSize)
    (hlast : n % secSize ≠ 0) (hflush : Flush env (u.fill data) w (ok, u', w')) :
    KeptFrom env p n image i (n / secSize) w client
      (if ok then u'.writeStreamLoop env w' client' written else (written, u', w', client')) := by
  obtain ⟨hout, hin⟩ := h.flush_last hbytes hlen hn hlast hflush
  rw [KeptFrom, overrunsFrom_last hfilled]
  cases ok with
  | false => exact ⟨fun hne => (hin hne).2, hout⟩
  | true =>
      refine ⟨fun hne => absurd (hin hne).1 (by decide), fun herase => ?_⟩
      exact not_extends_after (hout herase) hflush.quiet (writeStreamLoop_extends _ _ _ _ _)

/-- A sector before the last, which the flash takes or not. -/
theorem kept_sector (h : AtSector p n image i m u w client) (hn : p.address + n ≤ 2 ^ 32) (hmax : n < 2 ^ 31)
    (hlt : m < n / secSize) (hfilled : Filled (share n m) 0 client) (hlen : data.length = secSize)
    (hbytes : Arrival.bytesOf client
      = data ++ Arrival.bytesOf (readSizes (share n m) secSize client).2)
    (hflush : Flush env (u.fill data) w (ok, u', w'))
    (hrest : AtSector p n image i (m + 1) u' w' (readSizes (share n m) secSize client).2 →
      KeptFrom env p n image i (m + 1) w' (readSizes (share n m) secSize client).2
        (u'.writeStreamLoop env w' (readSizes (share n m) secSize client).2 written)) :
    KeptFrom env p n image i m w client
      (if ok then u'.writeStreamLoop env w' (readSizes (share n m) secSize client).2 written
        else (written, u', w', (readSizes (share n m) secSize client).2)) := by
  obtain ⟨hnext, hprog, -⟩ := h.image_bounds hmax hlt.le
  obtain ⟨htakes, hat⟩ := h.flushed_iff hbytes hlen hnext hflush
  have hmod : secSize * (n / secSize) + n % secSize = n := Nat.div_add_mod n secSize
  have hmul : secSize * (m + 1) ≤ secSize * (n / secSize) := Nat.mul_le_mul_left _ hlt
  rw [Nat.mul_succ, ← h.progress] at hmul
  have hin := h.flush_kept hn hmax hlt.le (by omega) (by rw [hlen]; decide) hflush
  cases ok with
  | false =>
      refine ⟨fun _ => ⟨hin, .inl hflush.aborted.1⟩, fun hover => ?_⟩
      exact absurd (htakes.mpr (hover.sectors m le_rfl hlt)) (by decide)
  | true =>
      obtain ⟨hbounded, hout⟩ := hrest (hat rfl)
      rw [KeptFrom, overrunsFrom_succ hlt hfilled (htakes.mp rfl)]
      refine ⟨fun hnot => (hbounded hnot).after hin, fun hover hext => hout hover ?_⟩
      exact (hext.parts hin (writeStreamLoop_extends _ _ _ _ _)).2

end AtSector

/-- **The loop leaves the image exactly if the rest of the stream overruns it**, from any sector on. -/
theorem writeStreamLoop_image (env : OtaEnv) (hat : AtSector p n image i m u w client)
    (hn : p.address + n ≤ 2 ^ 32) (hmax : n < 2 ^ 31) (hm : m ≤ n / secSize) {written : ℕ}
    (hw : written < 2 ^ 32) :
    KeptFrom env p n image i m w client (u.writeStreamLoop env w client written) := by
  induction hd : n / secSize - m using Nat.strong_induction_on generalizing m u w client written with
  | _ d ih =>
      obtain ⟨hnext, hprog, -⟩ := hat.image_bounds hmax hm
      have hc := hat.share_eq (by omega) hnext
      have hR := hat.running.remaining_eq (by omega) hprog
      have hbuf : u.buffer.length = 0 := by rw [hat.buffer, List.length_nil]
      have hsec : secSize = 4096 := rfl
      by_cases hrem : u.remaining = 0
      · -- the image ends with its last sector
        have hend : u.progress = n := by omega
        rw [writeStreamLoop, if_pos hrem]
        exact .of_not_filled (not_filled_of_le_one (by omega)) hm ⟨.refl _ w, .inr ⟨hat.running, hend⟩⟩
      · have hpos : 0 < share n m := by omega
        have hspec := sector_spec env w client hat.running hc hrem (by omega) hw
        generalize u.writeStreamLoop env w client written = r at hspec ⊢
        cases hspec with
        | stalled got client' hnot =>
            rw [hbuf] at hnot
            exact .of_not_filled hnot hm ⟨.refl _ w, .inl rfl⟩
        | flushFailed got data client' u' w' hdue hbytes _ _ hflush =>
            rw [hbuf] at hdue
            cases hdue with
            | image _ hnot hend hlt =>
                have hin := hat.kept_image hn hmax hm (by omega) hlt hpos hflush
                exact .of_not_filled hnot hm ⟨hin, .inl hflush.aborted.1⟩
            | sector hfilled hlen =>
                rw [Nat.zero_add] at hlen
                rcases Nat.eq_or_lt_of_le hm with rfl | hlt
                · have hlast : n % secSize ≠ 0 := by
                    rw [share, if_pos rfl] at hpos
                    exact hpos.ne'
                  exact hat.kept_last hn hfilled hbytes hlen hlast hflush
                · exact hat.kept_sector hn hmax hlt hfilled hlen hbytes hflush fun hat' =>
                    ih _ (show n / secSize - (m + 1) < d by omega) hat' hlt (wrap32_lt _) rfl
        | flushed data client' u' w' hdue hbytes hflush =>
            rw [hbuf] at hdue
            cases hdue with
            | image _ hnot hend hlt =>
                have hin := hat.kept_image hn hmax hm (by omega) hlt hpos hflush
                obtain ⟨hrun', hend', hdone⟩ := hat.image_complete (by omega) (by omega) hlt hflush
                rw [writeStreamLoop, if_pos hdone]
                exact .of_not_filled hnot hm ⟨hin, .inr ⟨hrun', hend'⟩⟩
            | sector hfilled hlen =>
                rw [Nat.zero_add] at hlen
                rcases Nat.eq_or_lt_of_le hm with rfl | hlt
                · have hlast : n % secSize ≠ 0 := by
                    rw [share, if_pos rfl] at hpos
                    exact hpos.ne'
                  exact hat.kept_last hn hfilled hbytes hlen hlast hflush
                · exact hat.kept_sector hn hmax hlt hfilled hlen hbytes hflush fun hat' =>
                    ih _ (show n / secSize - (m + 1) < d by omega) hat' hlt (wrap32_lt _) rfl

end Loop

/-! ### One download -/

/-- The download of an image of `n` bytes overruns it: the peek finds the magic, no read ends at the end of
the image before its last sector is full, and the flash takes the sectors; `i` events come before the
erase of the first. -/
structure OverrunsImage (env : OtaEnv) (p : Partition) (n i : ℕ) (client : List Arrival) : Prop where
  magic : (Arrival.peek client).1 = some imageMagic
  sectors : OverrunsFrom env p n (Arrival.bytesOf client) i 0 (Arrival.peek client).2

section Download

variable {u : UpdateClass} {w : World}

/-- A fresh update of a stream that starts with the magic is at its first sector. -/
theorem atSector_zero {client : List Arrival} (hrun : Running p n u) (hprog : u.progress = 0)
    (hbuf : u.buffer = []) (hcall : u.progressCallback = true)
    (hmagic : (Arrival.peek client).1 = some imageMagic) :
    AtSector p n (Arrival.bytesOf client) (w.trace.length + 1) 0 u w (Arrival.peek client).2 := by
  obtain ⟨t, ht, hbytes⟩ := Arrival.peek_some (Prod.ext hmagic rfl)
  refine ⟨hrun, hbuf, by rw [hprog, Nat.mul_zero], hcall, ?_, ?_, ?_⟩
  · rw [flushIndex, startReports, if_pos hprog, reports, if_pos hcall]
    rfl
  · rw [Nat.mul_zero, List.drop_zero, hbytes]
  · rw [← hbytes, ht]
    rfl

/-- **`writeStream` leaves the image exactly if its stream overruns it.** -/
theorem writeStream_image (env : OtaEnv) (w : World) (client : List Arrival) (hrun : Running p n u)
    (hprog : u.progress = 0) (hbuf : u.buffer = []) (hcall : u.progressCallback = true) (hpos : 0 < n)
    (hn : p.address + n ≤ 2 ^ 32) (hmax : n < 2 ^ 31) :
    (¬OverrunsImage env p n (w.trace.length + 1) client →
        BoundedEnd p n w (u.writeStream env w client).2.1 (u.writeStream env w client).2.2.1) ∧
      (OverrunsImage env p n (w.trace.length + 1) client →
        ¬World.Extends (Event.WithinImage p n) w (u.writeStream env w client).2.2.1) := by
  rw [hrun.writeStream_eq hpos]
  split_ifs with hmagic
  · obtain ⟨hbounded, hout⟩ := writeStreamLoop_image env
      (atSector_zero hrun hprog hbuf hcall hmagic) hn hmax (Nat.zero_le _) (show 0 < 2 ^ 32 by decide)
    exact ⟨fun hnot => hbounded fun hover => hnot ⟨hmagic, hover⟩, fun hover => hout hover.sectors⟩
  · exact ⟨fun _ => ⟨.refl _ w, .inl rfl⟩, fun hover => absurd hover.magic hmagic⟩

theorem BoundedEnd.download {u : UpdateClass} {w : World} {client : List Arrival}
    {contentLength : Long} (hn : 4 ≤ n)
    (h : BoundedEnd p n w (u.writeStream env w client).2.1 (u.writeStream env w client).2.2.1) :
    World.Extends (Event.WithinImage p n) w (download env contentLength u w client).world := by
  obtain ⟨w₂, hlog, hdown⟩ := download_eq env contentLength u w client
  obtain ⟨hext, hend⟩ := h
  have hw₂ : World.Extends (Event.WithinImage p n) w w₂ := by
    refine hext.trans (hlog.mono fun e he => ?_)
    obtain ⟨msg, rfl⟩ := he
    trivial
  have hmagicWrite : ∀ r, Event.WithinImage p n (.op (magicWrite p w₂) r) := by
    intro r
    show p.address ≤ p.address ∧
      p.address + ((slice w₂.flash p.address 4).set 0 imageMagic).length ≤ p.address + n
    simp only [List.length_set, slice_length]
    omega
  -- whatever `end()` did, a restart or a logged error follows
  have hlast : ∀ ok u' w', World.Extends (Event.WithinImage p n) w₂ w' →
      (u.writeStream env w client).2.1.endUpdate env w₂ false = (ok, u', w') →
      World.Extends (Event.WithinImage p n) w
        (EspFirmware.download env contentLength u w client).world := by
    intro ok u' w' hw' he
    obtain ⟨msg, hd⟩ := hdown ok u' w' he
    have hww' := hw₂.trans hw'
    rw [hd]
    split_ifs
    · exact hww'.step (e := .restart) trivial
    · exact hww'.step (e := .fatalError msg) trivial
  rcases hend with hidle | ⟨hrun, hprog⟩
  · exact hlast _ _ _ (.refl _ w₂) (endUpdate_idle hidle)
  · rcases hrun.endUpdate (by omega) hprog with hmd5 | hending
    · exact hlast _ _ _ (.refl _ w₂) hmd5
    · rcases he : (u.writeStream env w client).2.1.endUpdate env w₂ false with ⟨_ | _, u', w'⟩
      · rw [he] at hending
        exact hlast _ _ _ (hending.failed (fun _ => trivial) hmagicWrite trivial).2 he
      · rw [he] at hending
        obtain ⟨rfl, rfl⟩ := hending.succeeded
        refine hlast _ _ _ ((World.Extends.refl _ w₂).run ?_) he
        intro e hmem
        simp only [List.mem_cons, List.not_mem_nil, or_false] at hmem
        rcases hmem with rfl | rfl | rfl | rfl
        · trivial
        · exact hmagicWrite _
        · trivial
        · trivial


/-- One download leaves no event outside the announced image of `n` bytes. -/
def RespectsImage (env : OtaEnv) (p : Partition) (n : ℕ) (headerData : ResponseHeaderData)
    (u : UpdateClass) (w : World) (client : List Arrival) : Prop :=
  ∀ es, (processFirmwareUpdateResponse env headerData u w client).world = w.run es →
    ∀ e ∈ es, e.WithinImage p n

/-- **The events of a download lie within its image** unless the stream overruns it. -/
theorem processFirmwareUpdateResponse_image {headerData : ResponseHeaderData} (w : World)
    (client : List Arrival) (hacc : Accepted headerData) (hcl : headerData.contentLength.1 = n)
    (hidle : u.isRunning = false) (hpart : env.nextUpdatePartition = some p)
    (hmalloc : env.mallocOk = true) (hfits : n ≤ p.size) :
    World.Extends (Event.WithinImage p n) w
        (processFirmwareUpdateResponse env headerData u w client).world ↔
      ¬OverrunsImage env p n (w.trace.length + 3) (skipLineFeed client) := by
  have hmin := hacc.1
  have hlong := headerData.contentLength.2
  have hpf := p.fits
  have hsize : u.size = 0 := by simpa [isRunning] using hidle
  rcases processFirmwareUpdateResponse_cases env w client hacc hsize hcl with
    ⟨u', -, hwhy, -, -⟩ | ⟨p', u', hpart', -, hrun, hprog, hbuf, hcall, -, hd⟩
  · rw [hwhy p hpart hfits] at hmalloc
    cases hmalloc
  · obtain rfl : p = p' := by simpa [hpart] using hpart'
    have hstart : World.Extends (Event.WithinImage p n) w (w.run [.beginCalled n, .begun p.address n]) :=
      (World.Extends.refl _ w).run (by simp [Event.WithinImage])
    have hcount : (w.run [.beginCalled n, .begun p.address n]).trace.length + 1 = w.trace.length + 3 := by
      rw [World.run_trace, List.length_append]
      rfl
    obtain ⟨hbounded, hout⟩ := writeStream_image env (w.run [.beginCalled n, .begun p.address n])
      (skipLineFeed client) hrun hprog hbuf hcall (by omega) (by omega) (by omega)
    rw [hcount] at hbounded hout
    have hloop := writeStream_extends env u' (w.run [.beginCalled n, .begun p.address n])
      (skipLineFeed client)
    have hend := download_extends env headerData.contentLength u'
      (w.run [.beginCalled n, .begun p.address n]) (skipLineFeed client)
    rw [hd]
    refine ⟨fun hext hover => hout hover ?_, fun hnot => ?_⟩
    · have hafter := (hext.parts hstart (hloop.trans (hend.mono fun _ => Event.Closing.ongoing))).2
      exact (hafter.parts hloop hend).1
    · exact hstart.trans ((hbounded hnot).download (by omega))

/-- **Exactly when a download respects the announced image**: unless the stream starts with the magic and
the loop fills every sector, the last one too, without a read that ends at the end of the image, while the
flash takes them. -/
theorem respectsImage_iff (env : OtaEnv) (p : Partition) (n : ℕ) (headerData : ResponseHeaderData)
    (u : UpdateClass) (w : World) (client : List Arrival) (hacc : Accepted headerData)
    (hcl : headerData.contentLength.1 = n) (hidle : u.isRunning = false)
    (hpart : env.nextUpdatePartition = some p) (hmalloc : env.mallocOk = true) (hfits : n ≤ p.size) :
    RespectsImage env p n headerData u w client ↔
      ¬OverrunsImage env p n (w.trace.length + 3) (skipLineFeed client) := by
  rw [← processFirmwareUpdateResponse_image w client hacc hcl hidle hpart hmalloc hfits]
  refine ⟨fun hall => ?_, fun hext es hes => ?_⟩
  · obtain ⟨es, hes, -⟩ := processFirmwareUpdateResponse_begins env u w client hacc
    rw [← World.run_cons] at hes
    exact ⟨_, hes, hall _ hes⟩
  · rw [hes, World.Extends.run_iff] at hext
    exact hext

/-- An image of 500000 bytes and what fills up its last sector. -/
def padded : List UInt8 := imageMagic :: List.replicate 503807 0

/-- Without a timeout the image is respected, whatever follows it. -/
theorem respectsImage_iff_padded :
    Accepted (firmwareHeader ⟨500000, by decide⟩) ∧ UpdateClass.init.isRunning = false ∧
      500000 ≤ ota0.size ∧
      RespectsImage (.healthy ota0 0x400000) ota0 500000 (firmwareHeader ⟨500000, by decide⟩) .init
        .initial (padded.map .byte) := by
  have hacc : Accepted (firmwareHeader ⟨500000, by decide⟩) := firmwareHeader_accepted (by decide)
  refine ⟨hacc, rfl, by decide, ?_⟩
  apply (respectsImage_iff _ _ _ _ _ _ _ hacc rfl rfl rfl rfl (by decide)).mpr
  intro hover
  have hlen : 500000 ≤ padded.length := by
    rw [padded, List.length_cons, List.length_replicate]
    decide
  have hstream : RunsOn 500000 (500000 / secSize + 1) 0 (padded.map .byte) := hover.sectors.stream
  exact not_runsOn_ready (Nat.lt_succ_self _) hlen hstream

end Download

/-! ### The overrun -/

/-- The image with one long pause, after the first byte of its last sector. -/
def stutter (n : ℕ) (image : List UInt8) : List Arrival :=
  (image.take (secSize * (n / secSize) + 1)).map .byte ++
    .pause true :: (image.drop (secSize * (n / secSize) + 1)).map .byte

section Stutter

variable {image : List UInt8} {chip : ℕ}

/-- The stuttering image: the whole sectors, the first byte of the last one, the pause, and the rest. -/
theorem stutter_eq (hlen : secSize * (n / secSize) < image.length) :
    ∃ cs x ds, image = cs ++ x :: ds ∧ cs.length = secSize * (n / secSize) ∧
      stutter n image = cs.map .byte ++ .byte x :: .pause true :: (ds.map .byte) := by
  obtain ⟨cs, es, rfl, hcs⟩ := exists_split hlen.le
  rw [List.length_append] at hlen
  obtain ⟨x, ds, rfl⟩ := List.exists_cons_of_length_pos (show 0 < es.length by omega)
  refine ⟨cs, x, ds, rfl, hcs, ?_⟩
  rw [stutter, ← hcs, List.take_length_add_append, List.drop_length_add_append]
  simp

/-- It fills the last sector past the end of the image, and as many more as there are bytes. -/
theorem runsOn_stutter {j : ℕ} (hlast : 2 ≤ n % secSize)
    (hlen : secSize * (n / secSize + (1 + j)) ≤ image.length) :
    RunsOn n (n / secSize + (1 + j)) 0 (stutter n image) := by
  have hmul : secSize * (n / secSize + (1 + j)) = secSize * (n / secSize) + secSize + secSize * j := by
    rw [Nat.mul_add, Nat.mul_add, Nat.mul_one, Nat.add_assoc]
  have hsec : secSize = 4096 := rfl
  obtain ⟨cs, x, ds, rfl, hcs, hstutter⟩ := stutter_eq (show secSize * (n / secSize) < image.length by omega)
  rw [List.length_append, List.length_cons] at hlen
  obtain ⟨ds₁, ds₂, rfl, hds₁⟩ := exists_split (show secSize - 1 ≤ ds.length by omega)
  rw [List.length_append] at hlen
  obtain ⟨ds₃, ds₄, rfl, hds₃⟩ := exists_split (show secSize * j ≤ ds₂.length by omega)
  rw [hstutter, runsOn_ready _ hcs (by omega), Nat.zero_add, Nat.add_comm 1 j, RunsOn, share, if_pos rfl,
    List.map_append]
  obtain ⟨hfilled, hrest⟩ := filled_stutter x ds₁ ((ds₃ ++ ds₄).map .byte) hlast (by omega)
  refine ⟨hfilled, ?_⟩
  rw [hrest, List.map_append]
  exact (runsOn_ready (k := 0) _ hds₃ (by omega)).mpr trivial

theorem OtaEnv.healthy_erases {m : ℕ} (hin : p.address + secSize * (m + 1) ≤ chip) (hchip : chip < 2 ^ 32)
    (i : ℕ) : (OtaEnv.healthy p chip).flash i (sectorErase p m) = .ok := by
  have hpa := p.aligned
  rw [Nat.mul_succ] at hin
  have haddr : wrap32 (p.address + secSize * m) = p.address + secSize * m := wrap32_of_lt (by omega)
  refine if_pos ?_
  show (wrap32 (p.address + secSize * m) / secSize + 1) * secSize ≤ chip
  rw [haddr]
  simp only [secSize] at *
  omega

/-- A healthy flash takes the sectors on its chip. -/
theorem OtaEnv.healthy_takes {m : ℕ} (hin : p.address + secSize * (m + 1) ≤ chip) (hchip : chip < 2 ^ 32)
    (i : ℕ) : (OtaEnv.healthy p chip).Takes p image i m := by
  refine ⟨healthy_erases hin hchip _, if_pos ?_⟩
  rw [Nat.mul_succ] at hin
  have haddr : wrap32 (p.address + secSize * m) = p.address + secSize * m := wrap32_of_lt (by omega)
  have hlen : ((image.drop (secSize * m)).take secSize).length ≤ secSize := List.length_take_le _ _
  show wrap32 (p.address + secSize * m) +
    (if m = 0 then ((image.drop (secSize * m)).take secSize).set 0 0xFF
      else (image.drop (secSize * m)).take secSize).length ≤ chip
  rw [haddr]
  split_ifs
  · rw [List.length_set]
    omega
  · omega

/-- The peek leaves the stuttering image as it is. -/
theorem peek_stutter (n : ℕ) (b : UInt8) (bs : List UInt8) :
    Arrival.peek (stutter n (b :: bs)) = (some b, stutter n (b :: bs)) := rfl

/-- **The stuttering image overruns** on a healthy device. -/
theorem overruns_stutter (hlast : 2 ≤ n % secSize) (hmagic : image.head? = some imageMagic)
    (hlen : secSize * (n / secSize + 1) ≤ image.length)
    (hin : p.address + secSize * (n / secSize + 1) ≤ chip) (hchip : chip < 2 ^ 32) (i : ℕ) :
    OverrunsImage (.healthy p chip) p n i (stutter n image) := by
  obtain ⟨b, bs, rfl⟩ := List.exists_cons_of_ne_nil (show image ≠ [] by rintro rfl; simp at hmagic)
  have hmul : ∀ k < n / secSize, secSize * (k + 1) ≤ secSize * (n / secSize + 1) := fun k hk =>
    Nat.mul_le_mul_left _ (by omega)
  refine ⟨by rw [peek_stutter]; exact hmagic, ?_, fun k _ hk => ?_, ?_⟩
  · rw [peek_stutter]
    exact runsOn_stutter (j := 0) hlast hlen
  · have hk' := hmul k hk
    exact OtaEnv.healthy_takes (by omega) hchip i
  · exact OtaEnv.healthy_erases hin hchip _

end Stutter

theorem not_respectsImage_padded :
    ∃ e ∈ (processFirmwareUpdateResponse (.healthy ota0 0x400000)
        (firmwareHeader ⟨500000, by decide⟩) .init .initial (stutter 500000 padded)).world.trace,
      ¬e.WithinImage ota0 500000 := by
  have hacc : Accepted (firmwareHeader ⟨500000, by decide⟩) := firmwareHeader_accepted (by decide)
  have hlen : secSize * (500000 / secSize + 1) ≤ padded.length := by
    rw [padded, List.length_cons, List.length_replicate]
    decide
  have hover : OverrunsImage (.healthy ota0 0x400000) ota0 500000 3 (stutter 500000 padded) :=
    overruns_stutter (by decide) rfl hlen (by decide) (by decide) 3
  have hout := mt (processFirmwareUpdateResponse_image (u := .init) .initial (stutter 500000 padded) hacc
    rfl rfl rfl rfl (by decide)).mp (not_not.mpr hover)
  by_contra hall
  simp only [not_exists, not_and, not_not] at hall
  obtain ⟨es, hes, -⟩ := processFirmwareUpdateResponse_begins (.healthy ota0 0x400000) .init .initial
    (stutter 500000 padded) hacc
  rw [← World.run_cons] at hes
  refine hout ⟨_, hes, fun e he => hall e ?_⟩
  rw [hes, World.run_trace]
  exact List.mem_append_right _ he

end EspFirmware
