import EspFirmware.FieldValues
import EspFirmware.PowerLoss

/-!
# A good response installs its image

An exact and atomic commit may still never happen.  Here it does: on a device that works, a response that
carries the announced image and does not stall is installed, whatever was tried before.

* `Steady` — no two timeouts without a byte between them; every read of `writeStream` is retried once, so
  this much stalling is survived wherever it falls, also in the last sector, where the loop asks for more
  bytes than the image has left;
* `Install`, `writeStream_complete` — the loop takes the whole stream;
* `verifyEnd_works` — the end of an update on a working device;
* `processFirmwareUpdateResponse_installs` — the callback restarts into the image and logs no error;
* `runAttempts_installs` — so it does after any attempts, in any environments;
* `pollResponse_flowing`, `checkForHttpResponse_installs` — from the bytes of the response on.
-/

namespace EspFirmware

open NorFlash UpdateClass CString

/-! ### Streams that do not stall -/

/-- While bytes are left, no two timeouts stand without a byte between them; `waited` says that a timeout
has just passed. -/
def Steady : Bool → List Arrival → Prop
  | _, [] => True
  | _, .byte _ :: s => Steady false s
  | waited, .pause false :: s => Steady waited s
  | waited, .pause true :: s => (Arrival.bytesOf s ≠ [] → waited = false) ∧ Steady true s
  | waited, .closed _ :: s => (Arrival.bytesOf s ≠ [] → waited = false) ∧ Steady true s

/-- A timed read of a steady stream finds a byte, or times out for the first time. -/
theorem Steady.timedRead {waited : Bool} {s : List Arrival} (h : Steady waited s)
    (hbytes : Arrival.bytesOf s ≠ []) :
    (∃ b s', Arrival.timedRead s = (some b, s') ∧ Steady false s') ∨
      waited = false ∧ ∃ s', Arrival.timedRead s = (none, s') ∧ Steady true s' := by
  induction s with
  | nil => exact absurd rfl hbytes
  | cons a s ih =>
      cases a with
      | byte b => exact .inl ⟨b, s, rfl, h⟩
      | closed code => exact .inr ⟨h.1 hbytes, s, rfl, h.2⟩
      | pause long =>
          cases long with
          | true => exact .inr ⟨h.1 hbytes, s, rfl, h.2⟩
          | false => exact ih h hbytes

/-- What a read leaves of a steady stream is steady. -/
theorem Steady.readBytes (n : ℕ) {waited : Bool} {s : List Arrival} (h : Steady waited s)
    (hbytes : Arrival.bytesOf (Arrival.readBytes n s).2 ≠ []) :
    ∃ waited', Steady waited' (Arrival.readBytes n s).2 := by
  induction n generalizing waited s with
  | zero => exact ⟨waited, h⟩
  | succ n ih =>
      have hs : Arrival.bytesOf s ≠ [] := by
        intro hnil
        have hspec := (Arrival.readBytes_spec (n + 1) s).1
        rw [hnil] at hspec
        exact hbytes (List.append_eq_nil_iff.mp hspec.symm).2
      rcases h.timedRead hs with ⟨b, s', hr, hs'⟩ | ⟨-, s', hr, hs'⟩
      · simp only [Arrival.readBytes, hr] at hbytes ⊢
        exact ih hs' hbytes
      · simp only [Arrival.readBytes, hr] at hbytes ⊢
        exact ⟨true, hs'⟩

/-- **A retried read of a steady stream gets a byte**, and leaves a steady stream. -/
theorem Steady.readRetry {n : ℕ} (hn : 0 < n) {waited : Bool} {s : List Arrival}
    (h : Steady waited s) (hbytes : Arrival.bytesOf s ≠ []) :
    (readRetry n s).1 ≠ [] ∧
      (Arrival.bytesOf (readRetry n s).2 ≠ [] → ∃ waited', Steady waited' (readRetry n s).2) := by
  obtain ⟨n, rfl⟩ : ∃ k, n = k + 1 := ⟨n - 1, by omega⟩
  -- a read whose first timed read succeeds
  have hfirst : ∀ {waited' : Bool} {t : List Arrival} {b : UInt8} {t' : List Arrival},
      Steady waited' t → Arrival.timedRead t = (some b, t') →
      (Arrival.readBytes (n + 1) t).1 ≠ [] := by
    intro waited' t b t' _ hr
    simp [Arrival.readBytes, hr]
  rcases h.timedRead hbytes with ⟨b, s', hr, -⟩ | ⟨-, s', hr, hs'⟩
  · have hne := hfirst h hr
    have hretry : UpdateClass.readRetry (n + 1) s = Arrival.readBytes (n + 1) s := by
      unfold UpdateClass.readRetry
      split
      · rename_i heq
        rw [heq] at hne
        exact absurd rfl hne
      · rfl
    rw [hretry]
    exact ⟨hne, h.readBytes (n + 1)⟩
  · have hempty : Arrival.readBytes (n + 1) s = ([], s') := by simp [Arrival.readBytes, hr]
    have hretry : UpdateClass.readRetry (n + 1) s = Arrival.readBytes (n + 1) s' := by
      simp only [UpdateClass.readRetry, hempty]
    have hbytes' : Arrival.bytesOf s' ≠ [] := by
      rw [(Arrival.timedRead_none hr).1]
      exact hbytes
    rw [hretry]
    refine ⟨?_, hs'.readBytes (n + 1)⟩
    rcases hs'.timedRead hbytes' with ⟨b, s'', hr', -⟩ | ⟨hf, -⟩
    · exact hfirst hs' hr'
    · exact absurd hf (by simp)

/-- A peek at a steady stream finds its first byte, or times out for the first time. -/
theorem Steady.peek {waited : Bool} {s : List Arrival} (h : Steady waited s)
    (hbytes : Arrival.bytesOf s ≠ []) :
    (∃ b t, Arrival.peek s = (some b, .byte b :: t) ∧ Steady false t) ∨
      waited = false ∧ ∃ s', Arrival.peek s = (none, s') ∧ Steady true s' := by
  induction s with
  | nil => exact absurd rfl hbytes
  | cons a s ih =>
      cases a with
      | byte b => exact .inl ⟨b, s, rfl, h⟩
      | closed code => exact .inr ⟨h.1 hbytes, s, rfl, h.2⟩
      | pause long =>
          cases long with
          | true => exact .inr ⟨h.1 hbytes, s, rfl, h.2⟩
          | false => exact ih h hbytes

theorem steady_of_no_bytes {s : List Arrival} (waited : Bool) (h : Arrival.bytesOf s = []) :
    Steady waited s := by
  induction s generalizing waited with
  | nil => trivial
  | cons a s ih =>
      cases a with
      | byte b => cases h
      | closed code => exact ⟨fun hne => absurd h hne, ih true h⟩
      | pause long =>
          cases long with
          | true => exact ⟨fun hne => absurd h hne, ih true h⟩
          | false => exact ih waited h

theorem steady_pauses {s : List Arrival} (h : ∀ waited, Steady waited s) (pauses : List Bool)
    (waited : Bool) (hcount : pauses.count true + waited.toNat ≤ 1) :
    Steady waited (pauses.map .pause ++ s) := by
  induction pauses generalizing waited with
  | nil => exact h waited
  | cons long pauses ih =>
      cases long with
      | false => exact ih waited (by simpa using hcount)
      | true =>
          rw [List.count_cons_self] at hcount
          have hw : waited = false := by
            cases waited with
            | false => rfl
            | true => simp at hcount
          refine ⟨fun _ => hw, ih true ?_⟩
          simp only [Bool.toNat_true]
          omega

/-- **Bytes with at most one long pause before each** are steady. -/
theorem steady_deliver (cut : Cutting) {tail : List Arrival} (htail : Arrival.bytesOf tail = [])
    (bytes : List UInt8) :
    ∀ i, (∀ j, i ≤ j → j < i + bytes.length → (cut j).count true ≤ 1) →
      ∀ waited, (waited = true → true ∉ cut i) → Steady waited (deliver cut i bytes ++ tail) := by
  induction bytes with
  | nil =>
      intro i _ waited _
      exact steady_of_no_bytes waited htail
  | cons b bytes ih =>
      intro i hcount waited hfirst
      have hrest := ih (i + 1) (fun j hj hlt => hcount j (by omega) (by simp only [List.length_cons]; omega))
        false (by simp)
      rw [deliver, List.append_assoc]
      have hbyte : ∀ w, Steady w (.byte b :: deliver cut (i + 1) bytes ++ tail) := fun _ => hrest
      apply steady_pauses hbyte
      have hi := hcount i le_rfl (by simp only [List.length_cons]; omega)
      cases waited with
      | false => exact hi
      | true => simp [List.count_eq_zero_of_not_mem (hfirst rfl)]

/-! ### The loop takes the whole stream -/

/-- A device of `chip` bytes with the update partition `p` on which everything works. -/
structure OtaEnv.Works (env : OtaEnv) (p : Partition) (chip : ℕ) : Prop where
  partition : env.nextUpdatePartition = some p
  malloc : env.mallocOk = true
  flash : ∀ i o, FlashOp.Inside chip o → env.flash i o = .ok
  rejects : env.RejectsOutside chip
  setBoot : env.setBootOk = true
  sectors : chip % secSize = 0
  small : chip < 2 ^ 32
  inside : p.address + p.size ≤ chip

theorem OtaEnv.healthy_works {p : Partition} {chip : ℕ} (hsectors : chip % secSize = 0)
    (hsmall : chip < 2 ^ 32) (hinside : p.address + p.size ≤ chip) :
    (healthy p chip).Works p chip :=
  ⟨rfl, rfl, fun _ _ hin => if_pos hin, healthy_rejectsOutside p chip, rfl, hsectors, hsmall, hinside⟩

variable {env : OtaEnv} {p : Partition} {n chip : ℕ}

/-- The loop invariant of a steady download of exactly the image: `k` bytes are taken, and the rest of the
image is still to come. -/
structure Install (p : Partition) (n k : ℕ) (u : UpdateClass) (client : List Arrival) : Prop where
  running : Running p n u
  steady : Arrival.bytesOf client ≠ [] → ∃ waited, Steady waited client
  taken : k = u.progress + u.buffer.length
  left : k + (Arrival.bytesOf client).length = n
  sector : u.progress = n ∨
    u.progress % secSize = 0 ∧ u.buffer.length < n - u.progress
  magic : u.progress = 0 → (u.buffer ++ Arrival.bytesOf client).head? = some imageMagic

namespace Install

variable {k : ℕ} {u u' : UpdateClass} {w w' : World} {client client' : List Arrival}

/-- While the loop goes on, the update is inside the image. -/
theorem copying (h : Install p n k u client) (hn : n < 2 ^ 32) (hrem : u.remaining ≠ 0) :
    u.progress % secSize = 0 ∧ u.buffer.length < n - u.progress ∧ u.remaining = n - u.progress := by
  have hr := h.running.remaining_eq hn (by have := h.taken; have := h.left; omega)
  rcases h.sector with hdone | ⟨halign, hlt⟩
  · omega
  · exact ⟨halign, hlt, hr⟩

/-- The next read gets a byte, and leaves a steady stream. -/
theorem reads (h : Install p n k u client) (hn : n < 2 ^ 32) (hrem : u.remaining ≠ 0) :
    (readRetry u.bytesToRead client).1 ≠ [] ∧
      (Arrival.bytesOf (readRetry u.bytesToRead client).2 ≠ [] →
        ∃ waited, Steady waited (readRetry u.bytesToRead client).2) := by
  obtain ⟨halign, hlt, hr⟩ := h.copying hn hrem
  have hleft := h.left
  have htaken := h.taken
  have hroom := h.running.room
  have hbytes : Arrival.bytesOf client ≠ [] := by
    intro hnil
    rw [hnil, List.length_nil] at hleft
    omega
  have hpos : 0 < u.bytesToRead := by
    unfold bytesToRead
    split <;> omega
  obtain ⟨waited, hsteady⟩ := h.steady hbytes
  exact hsteady.readRetry hpos hbytes

/-- **No round of a steady download stops.** -/
theorem no_stop (hworks : env.Works p chip) (h : Install p n k u client) (hn : n ≤ p.size)
    (hrem : u.remaining ≠ 0) : ¬RoundSpec env u w client (.stop u' w' client') := by
  have hfits := p.fits
  have hinside := hworks.inside
  have hsmall := hworks.small
  obtain ⟨halign, hlt, hr⟩ := h.copying (by omega) hrem
  intro hround
  cases hround with
  | stalled _ hread =>
      have hgot := (h.reads (by omega) hrem).1
      rw [hread] at hgot
      exact hgot rfl
  | flushFailed bs _ _ _ hbs hread hdue hflush =>
      obtain ⟨hsplit, -, hle⟩ := h.running.read_le hread
      have hpa := p.aligned
      have hsectors := hworks.sectors
      have hnext : (u.fill bs).nextAddress = p.address + u.progress :=
        h.running.nextAddress_eq (by omega)
      have hsucc := hflush.succeeds ?_ ?_ ?_
      · cases hsucc
      · intro hf
        have hp0 : u.progress = 0 := (firstBytes_iff h.running.command).mp hf
        have hm := h.magic hp0
        obtain ⟨b, t, ht⟩ : ∃ b t, u.buffer ++ bs = b :: t :=
          List.exists_cons_of_ne_nil (by simp [hbs])
        rw [hsplit, ← List.append_assoc, ht] at hm
        rw [fill_buffer, ht]
        exact hm
      · intro i
        apply hworks.flash
        simp only [eraseOp, hnext, FlashOp.Inside, secSize] at *
        omega
      · intro i
        apply hworks.flash
        simp only [writeOp, hnext, FlashOp.Inside, flushData_length, fill_buffer, List.length_append]
        simp only [secSize] at *
        omega

/-- A round that goes on keeps the invariant. -/
theorem next (h : Install p n k u client) (hn : n < 2 ^ 32) (hrem : u.remaining ≠ 0) {got : ℕ}
    (hround : RoundSpec env u w client (.next got u' w' client')) :
    Install p n (wrap32 (k + got)) u' client' := by
  obtain ⟨halign, hlt, hr⟩ := h.copying hn hrem
  have hleft := h.left
  have htaken := h.taken
  have hsteady' := (h.reads hn hrem).2
  cases hround with
  | filled bs _ hbs hread hdue =>
      obtain ⟨hsplit, -, hle⟩ := h.running.read_le hread
      have hnd := not_due_iff.mp hdue
      rw [hread] at hsteady'
      have hlen : (Arrival.bytesOf client).length = bs.length + (Arrival.bytesOf client').length := by
        rw [hsplit, List.length_append]
      rw [wrap32_of_lt (by omega)]
      refine ⟨h.running.fill (by rw [List.length_append]; omega), hsteady', ?_, by omega,
        .inr ⟨halign, ?_⟩, ?_⟩
      · simp only [fill_progress, fill_buffer, List.length_append]
        omega
      · simp only [fill_progress, fill_buffer, List.length_append]
        omega
      · intro hp0
        have hm := h.magic hp0
        rw [hsplit, ← List.append_assoc] at hm
        exact hm
  | flushed bs _ _ _ hbs hread hdue hflush =>
      obtain ⟨hsplit, -, hle⟩ := h.running.read_le hread
      rw [fill_due_iff] at hdue
      rw [hread] at hsteady'
      have hlen : (Arrival.bytesOf client).length = bs.length + (Arrival.bytesOf client').length := by
        rw [hsplit, List.length_append]
      have hlapp : (u.buffer ++ bs).length = u.buffer.length + bs.length := List.length_append
      have hposbs : 0 < bs.length := List.length_pos_of_ne_nil hbs
      obtain ⟨hrun', hbuf', hprog'⟩ := flush_state h.running hflush (by omega)
      obtain ⟨rfl, -⟩ := hflush.done_eq
      rw [wrap32_of_lt (by omega)]
      refine ⟨hrun', hsteady', by rw [hprog', hbuf', hlapp, List.length_nil]; omega,
        by omega, ?_, by omega⟩
      by_cases hend : u.buffer.length + bs.length = n - u.progress
      · exact .inl (by omega)
      · refine .inr ⟨?_, ?_⟩
        · rw [hprog', hlapp]
          simp only [secSize] at *
          omega
        · rw [hprog', hbuf', hlapp, List.length_nil]
          omega

end Install

/-- **The loop takes the whole stream.**  A steady stream of exactly the image is copied to its end: the
count is the image's length, and the update is still running. -/
theorem writeStreamLoop_complete {u : UpdateClass} (hworks : env.Works p chip) (hn : n ≤ p.size)
    (w : World) {client : List Arrival} {k : ℕ} (h : Install p n k u client) :
    (u.writeStreamLoop env w client k).1 = n ∧
      Running p n (u.writeStreamLoop env w client k).2.1 := by
  have hfits := p.fits
  have hsmall := hworks.small
  have hinside := hworks.inside
  apply writeStreamLoop_counted (I := fun k u _ client => Install p n k u client)
    (R := fun k u _ _ => k = n ∧ Running p n u)
  · intro k u w client hI hrem
    have hr := hI.running.remaining_eq (by omega) (by have := hI.taken; have := hI.left; omega)
    have htaken := hI.taken
    have hleft := hI.left
    exact ⟨by omega, hI.running⟩
  · intro k u w client u' w' client' hI hrem hround
    exact absurd hround (hI.no_stop hworks hn hrem)
  · intro k u w client got u' w' client' hI hrem hround
    exact hI.next (by omega) hrem hround
  · exact h

/-- A stream from which the image starts promptly: steady, and if a line feed comes first, with no timeout
before it nor between it and the image. -/
def Prompt (client : List Arrival) : Prop :=
  Steady false client ∧ ((Arrival.bytesOf client).head? = some LF →
    Steady true client ∧ Steady true (Arrival.timedRead client).2)

theorem timedRead_of_peek {s t : List Arrival} {b : UInt8} (h : Arrival.peek s = (some b, .byte b :: t)) :
    Arrival.timedRead s = (some b, t) := by
  induction s with
  | nil => simp [Arrival.peek] at h
  | cons a s ih =>
      cases a with
      | byte c =>
          obtain ⟨rfl, rfl⟩ : c = b ∧ s = t := by simpa [Arrival.peek] using h
          rfl
      | closed code => simp [Arrival.peek] at h
      | pause long =>
          cases long with
          | true => simp [Arrival.peek] at h
          | false => exact ih h

/-- The line feed is dropped in time, and the image can be peeked at. -/
theorem Prompt.skipLineFeed {client : List Arrival} (h : Prompt client)
    (hbytes : Arrival.bytesOf client ≠ []) :
    Steady true (skipLineFeed client) ∧ Arrival.bytesOf (skipLineFeed client) = imageBytes client := by
  rcases h.1.peek hbytes with ⟨b, t, hpeek, hsteady⟩ | ⟨-, s', hpeek, hsteady⟩
  · have hb : Arrival.bytesOf client = b :: Arrival.bytesOf t := by
      obtain ⟨t', ht, hb⟩ := Arrival.peek_some hpeek
      rw [← hb]
      rfl
    rw [imageBytes, hb]
    simp only [EspFirmware.skipLineFeed, hpeek, List.head?_cons, Option.some.injEq, List.tail_cons]
    split_ifs with hlf
    · subst hlf
      refine ⟨?_, rfl⟩
      have hfeed := (h.2 (by rw [hb]; rfl)).2
      rw [timedRead_of_peek hpeek] at hfeed
      exact hfeed
    · exact ⟨hsteady, rfl⟩
  · have hnot : (Arrival.bytesOf client).head? ≠ some LF := by
      intro hhead
      rcases (h.2 hhead).1.peek hbytes with ⟨b, t, hpeek', -⟩ | ⟨hf, -⟩
      · rw [hpeek] at hpeek'
        cases hpeek'
      · cases hf
    rw [imageBytes, if_neg hnot]
    simp only [EspFirmware.skipLineFeed, hpeek]
    exact ⟨hsteady, Arrival.peek_none hpeek⟩

/-- **`writeStream` takes the whole stream** when it is called right after `begin`. -/
theorem writeStream_complete {u : UpdateClass} (hworks : env.Works p chip) (hrun : Running p n u)
    (hprog : u.progress = 0) (hbuf : u.buffer = []) (hpos : 0 < n) (hn : n ≤ p.size) (w : World)
    {client : List Arrival} (hsteady : Steady true client)
    (hlen : (Arrival.bytesOf client).length = n)
    (hmagic : (Arrival.bytesOf client).head? = some imageMagic) :
    (u.writeStream env w client).1 = n ∧ Running p n (u.writeStream env w client).2.1 := by
  have hbytes : Arrival.bytesOf client ≠ [] := by
    intro hnil
    rw [hnil] at hmagic
    cases hmagic
  rcases hsteady.peek hbytes with ⟨b, t, hpeek, hsteady'⟩ | ⟨hf, -⟩
  · obtain ⟨t', ht, hb⟩ := Arrival.peek_some hpeek
    have hloop : u.writeStream env w client = u.writeStreamLoop env w (.byte b :: t) 0 := by
      have hgo : ¬(u.hasError ∨ ¬u.isRunning) := by
        simp [hasError, isRunning, hrun.error, hrun.size, hpos]
      have hbm : b = imageMagic := by
        rw [← hb] at hmagic
        simpa [Arrival.bytesOf] using hmagic
      rw [writeStream, if_neg hgo]
      simp [hpeek, verifyHeader, hrun.command, hbm]
    rw [hloop]
    apply writeStreamLoop_complete hworks hn
    refine ⟨hrun, fun _ => ⟨false, hsteady'⟩, by simp [hprog, hbuf], ?_, .inr ?_, fun _ => ?_⟩
    · rw [hb, hlen, Nat.zero_add]
    · simp [hprog, hbuf, hpos]
    · rw [hbuf, List.nil_append, hb]
      exact hmagic
  · cases hf

/-! ### The MD5 target -/

theorem UpdateClass.Flush.targetMd5_eq {u u' : UpdateClass} {w w' : World} {ok : Bool}
    (h : Flush env u w (ok, u', w')) : u'.targetMd5 = u.targetMd5 := by
  cases h <;> rfl

theorem begin_targetMd5 (env : OtaEnv) (u : UpdateClass) (size : ℕ) (command : Command) :
    (u.begin env size command).2.targetMd5 = u.targetMd5 := by
  unfold UpdateClass.begin
  split
  · rfl
  · simp only
    split
    · rfl
    · split
      · rfl
      · rfl
      · split_ifs <;> rfl

theorem writeStream_targetMd5 (env : OtaEnv) (u : UpdateClass) (w : World) (client : List Arrival) :
    (u.writeStream env w client).2.1.targetMd5 = u.targetMd5 := by
  have hloop : ∀ client, (u.writeStreamLoop env w client 0).2.1.targetMd5 = u.targetMd5 := by
    intro client
    apply writeStreamLoop_rule (I := fun u' _ _ => u'.targetMd5 = u.targetMd5)
      (R := fun u' _ _ => u'.targetMd5 = u.targetMd5)
    · intro _ _ _ hI _
      exact hI
    · intro u₁ w₁ _ _ _ _ hI _ hround
      cases hround with
      | stalled => exact hI
      | flushFailed _ _ _ _ _ _ _ h => exact h.targetMd5_eq.trans hI
    · intro u₁ w₁ _ _ _ _ _ hI _ hround
      cases hround with
      | filled => exact hI
      | flushed _ _ _ _ _ _ _ h => exact h.targetMd5_eq.trans hI
    · rfl
  unfold writeStream
  split
  · rfl
  · simp only [verifyHeader]
    cases hcmd : u.command with
    | flash =>
        simp only
        split_ifs
        · rfl
        · exact hloop _
    | spiffs => exact hloop _
    | other => rfl

theorem verifyEnd_targetMd5 (env : OtaEnv) (u : UpdateClass) (w : World) :
    (u.verifyEnd env w).2.1.targetMd5 = u.targetMd5 := by
  cases hcmd : u.command with
  | flash =>
      cases hpart : u.partition with
      | none =>
          simp only [verifyEnd, hcmd, hpart]
          rfl
      | some p =>
          have h := @verifyEnd_ending env u w p hcmd hpart
          rcases hr : u.verifyEnd env w with ⟨ok, u', w'⟩
          rw [hr] at h
          cases h <;> rfl
  | spiffs =>
      simp only [verifyEnd, hcmd]
      rfl
  | other => simp only [verifyEnd, hcmd]

theorem endUpdate_targetMd5 (env : OtaEnv) (u : UpdateClass) (w : World) :
    (u.endUpdate env w false).2.1.targetMd5 = u.targetMd5 := by
  rw [endUpdate_false]
  split
  · rfl
  · split
    · rfl
    · split
      · rfl
      · exact verifyEnd_targetMd5 env u w

/-! ### The end of an update that works -/

/-- On a working device the end of an update puts the magic in place and switches. -/
theorem verifyEnd_works {u : UpdateClass} {w : World} (hworks : env.Works p chip)
    (hrun : Running p n u) (hpos : 0 < p.size) (hblank : w.flash p.address = blank) :
    u.verifyEnd env w = (true, u.reset, w.run [.op (headRead p) .ok, .op (magicWrite p w) .ok,
      .op (headRead p) .ok, .setBoot p.address true]) := by
  have hhead : p.address + 4 ≤ chip := by
    have hpa := p.aligned
    have hsectors := hworks.sectors
    have hinside := hworks.inside
    simp only [secSize] at *
    omega
  have hread : ∀ i, env.flash i (headRead p) = .ok := fun i => hworks.flash i _ hhead
  have hwrite : ∀ i, env.flash i (magicWrite p w) = .ok := fun i => by
    apply hworks.flash
    simp only [magicWrite, FlashOp.Inside, List.length_set, slice_length]
    exact hhead
  have hcells : (w.run [.op (headRead p) .ok, .op (magicWrite p w) .ok]).flash
      = Function.update w.flash p.address imageMagic := by
    simp only [World.run_cons, World.run_nil, World.step_op_flash, FlashOp.effect, headRead, magicWrite]
    exact program_slice_magic hblank
  have henable : enablePartition env w p.address
      = (true, w.run [.op (headRead p) .ok, .op (magicWrite p w) .ok]) := by
    rw [enablePartition, flashRead_ok (hread _)]
    exact flashOp_ok (hwrite _)
  have hbootable : partitionIsBootable env (w.run [.op (headRead p) .ok, .op (magicWrite p w) .ok])
      p.address = (true, w.run [.op (headRead p) .ok, .op (magicWrite p w) .ok, .op (headRead p) .ok]) := by
    rw [partitionIsBootable, flashRead_ok (hread _), hcells]
    simp [slice, List.range_succ_eq_map, headRead]
  simp only [verifyEnd, hrun.command, hrun.partition, henable, hbootable, hworks.setBoot, if_true]
  rfl

/-- `end()` of a complete update on a working device. -/
theorem endUpdate_works {u : UpdateClass} {w : World} (hworks : env.Works p chip) (hrun : Running p n u)
    (hpos : 0 < n) (hn : n ≤ p.size) (hprog : u.progress = n) (hblank : w.flash p.address = blank)
    (hmd5 : u.targetMd5 = [] ∨ u.targetMd5 = env.md5Hex u.md5) :
    u.endUpdate env w false = (true, u.reset, w.run [.op (headRead p) .ok, .op (magicWrite p w) .ok,
      .op (headRead p) .ok, .setBoot p.address true]) := by
  have hgo : ¬(u.hasError = true ∨ u.size = 0) := by
    simp only [hasError, hrun.error, hrun.size]
    simp
    omega
  have hfin : ¬¬u.isFinished = true := by simp [isFinished, hprog, hrun.size]
  have hsum : ¬(u.targetMd5 ≠ [] ∧ u.targetMd5 ≠ env.md5Hex u.md5) := by
    rw [← not_or, not_not]
    exact hmd5
  rw [endUpdate_false, if_neg hgo, if_neg hfin, if_neg hsum, verifyEnd_works hworks hrun (by omega) hblank]

/-- The image is in the partition and the device restarts into it; nothing went wrong on the way. -/
structure Installed (p : Partition) (image : List UInt8) (w : World) (d : Download) : Prop where
  restarted : d.restarted = true
  boot : d.world.boot = p.address
  image : slice d.world.flash p.address image.length = image
  noError : ∃ es, d.world = w.run es ∧ ∀ msg, .fatalError msg ∉ es

/-- An event other than a logged error. -/
def Event.Unlogged (e : Event) : Prop := ∀ msg, e ≠ .fatalError msg

theorem writeStreamLoop_unlogged (env : OtaEnv) (u : UpdateClass) (w : World) (client : List Arrival)
    (written : ℕ) :
    World.Extends Event.Unlogged w (u.writeStreamLoop env w client written).2.2.1 := by
  have hflush : ∀ {u u' : UpdateClass} {w w' : World} {ok : Bool}, Flush env u w (ok, u', w') →
      World.Extends Event.Unlogged w w' := fun h =>
    h.extends (fun _ _ => by simp) (fun _ => by simp) (fun _ _ => by simp) (fun _ _ => by simp)
  apply writeStreamLoop_rule (I := fun _ w' _ => World.Extends Event.Unlogged w w')
    (R := fun _ w' _ => World.Extends Event.Unlogged w w')
  · intro _ _ _ hI _
    exact hI
  · intro u₁ w₁ _ _ _ _ hI _ hround
    cases hround with
    | stalled => exact hI
    | flushFailed _ _ _ _ _ _ _ h => exact hI.trans (hflush h)
  · intro u₁ w₁ _ _ _ _ _ hI _ hround
    cases hround with
    | filled => exact hI
    | flushed _ _ _ _ _ _ _ h => exact hI.trans (hflush h)
  · exact .refl _ w

theorem writeStream_unlogged (env : OtaEnv) (u : UpdateClass) (w : World) (client : List Arrival) :
    World.Extends Event.Unlogged w (u.writeStream env w client).2.2.1 := by
  unfold writeStream
  split
  · exact .refl _ w
  · simp only
    split
    · exact .refl _ w
    · exact writeStreamLoop_unlogged _ _ _ _ _

/-- **A download of a prompt stream is installed.** -/
theorem download_installs {u : UpdateClass} {contentLength : Long} (hworks : env.Works p chip)
    (hrun : Running p n u) (hprog : u.progress = 0) (hbuf : u.buffer = []) (hmd5 : u.targetMd5 = [])
    (hpos : 0 < n) (hn : n ≤ p.size) (hlength : contentLength.1 = n) (w : World) {client : List Arrival}
    (hsteady : Steady true client) (hlen : (Arrival.bytesOf client).length = n)
    (hmagic : (Arrival.bytesOf client).head? = some imageMagic) :
    Installed p (Arrival.bytesOf client) w (download env contentLength u w client) := by
  have hfits := p.fits
  have hinside := hworks.inside
  have hsmall := hworks.small
  obtain ⟨hcount, hrun'⟩ := writeStream_complete hworks hrun hprog hbuf hpos hn w hsteady hlen hmagic
  have hmd5' := writeStream_targetMd5 env u w client
  obtain ⟨-, hend⟩ := writeStream_end w client hrun hprog hbuf (by omega) (by omega) hn hsmall
    hworks.rejects
  have hunlogged := writeStream_unlogged env u w client
  rcases hws : u.writeStream env w client with ⟨written, u₁, w₁, client₁⟩
  rw [hws] at hcount hrun' hmd5' hend hunlogged
  simp only at hcount hrun' hmd5' hend hunlogged
  rcases hend with ⟨hzero, -⟩ | ⟨-, hdone, -, hst⟩
  · have := hrun'.size
    omega
  · have hendUpdate := endUpdate_works hworks hrun' hpos hn hdone (hst hpos).1
      (.inl (hmd5'.trans hmd5))
    have hwritten : (written : ℤ) = contentLength.1 := by rw [hcount, hlength]
    have hreset : u₁.reset.isFinished = true := rfl
    simp only [download, hws, hwritten, if_true, hendUpdate, hreset]
    refine ⟨rfl, rfl, ?_, ?_⟩
    · show slice (program w₁.flash p.address ((slice w₁.flash p.address 4).set 0 imageMagic)) p.address _ = _
      rw [program_slice_magic (hst (by omega)).1, hlen, hst.slice_eq (by omega) (by omega), ← hlen,
        List.take_length]
    · have hrest : ∀ e ∈ [Event.op (headRead p) .ok, .op (magicWrite p w₁) .ok, .op (headRead p) .ok,
          .setBoot p.address true, .restart], e.Unlogged := by
        simp [Event.Unlogged]
      obtain ⟨es, hes, hall⟩ := hunlogged.run hrest
      exact ⟨es, hes, fun msg hm => hall _ hm msg rfl⟩

/-! ### The callback, after any attempts -/

theorem download_targetMd5 (env : OtaEnv) (contentLength : Long) (u : UpdateClass) (w : World)
    (client : List Arrival) :
    (download env contentLength u w client).update.targetMd5 = u.targetMd5 := by
  obtain ⟨w₁, -, hdown⟩ := download_eq env contentLength u w client
  have hws := writeStream_targetMd5 env u w client
  have hend := endUpdate_targetMd5 env (u.writeStream env w client).2.1 w₁
  rcases he : (u.writeStream env w client).2.1.endUpdate env w₁ false with ⟨ok, u', w'⟩
  obtain ⟨msg, hd⟩ := hdown _ _ _ he
  rw [he] at hend
  rw [hd]
  split_ifs
  · exact hend.trans hws
  · exact hend.trans hws

/-- No attempt sets an MD5 target. -/
theorem processFirmwareUpdateResponse_targetMd5 (env : OtaEnv) (headerData : ResponseHeaderData)
    (u : UpdateClass) (w : World) (client : List Arrival) :
    (processFirmwareUpdateResponse env headerData u w client).update.targetMd5 = u.targetMd5 := by
  unfold processFirmwareUpdateResponse
  split
  · rfl
  · have hbegin := begin_targetMd5 env u headerData.contentLength.1.toNat .flash
    rcases hb : u.begin env headerData.contentLength.1.toNat .flash with ⟨ok, u₁⟩
    rw [hb] at hbegin
    simp only [hb]
    cases ok with
    | false => exact hbegin
    | true => exact (download_targetMd5 _ _ _ _ _).trans hbegin

/-- **A good response is installed.**  On a device that works, with an idle updater: an accepted header
and a prompt stream that carries exactly the announced image, which starts with the magic, make the
device restart into that image.  No error is logged. -/
theorem processFirmwareUpdateResponse_installs (hworks : env.Works p chip)
    {headerData : ResponseHeaderData} {u : UpdateClass} (w : World) {client : List Arrival}
    (hacc : Accepted headerData) (hidle : u.isRunning = false) (hmd5 : u.targetMd5 = [])
    (hprompt : Prompt client) (hlength : headerData.contentLength.1 = (imageBytes client).length)
    (hfits : (imageBytes client).length ≤ p.size)
    (hmagic : (imageBytes client).head? = some imageMagic) :
    Installed p (imageBytes client) w (processFirmwareUpdateResponse env headerData u w client) := by
  have hmin := hacc.1
  have hlong := headerData.contentLength.2
  have hsize : u.size = 0 := by simpa [isRunning] using hidle
  have hbytes : Arrival.bytesOf client ≠ [] := by
    intro hnil
    simp [imageBytes, hnil] at hmagic
  obtain ⟨hsteady, hskip⟩ := hprompt.skipLineFeed hbytes
  set n := (imageBytes client).length with hn
  have htoNat : headerData.contentLength.1.toNat = n := by omega
  rcases @begin_cases env _ _ hsize (show 0 < n by omega) (show n ≠ 0xFFFFFFFF by omega) with
    ⟨u', -, -, hwhy⟩ | ⟨q, u', hq, -, hbegin, hrun, hprog, hbuf⟩
  · have hno := hwhy p hworks.partition hfits
    rw [hworks.malloc] at hno
    cases hno
  · obtain rfl : p = q := Option.some.inj (hworks.partition.symm.trans hq)
    have hmd5' := begin_targetMd5 env u n .flash
    rw [hbegin] at hmd5'
    have hrun' : Running p n { u' with progressCallback := true } :=
      ⟨hrun.size, hrun.command, hrun.error, hrun.partition, hrun.room⟩
    have hinst := download_installs hworks hrun' hprog hbuf (hmd5'.trans hmd5) (by omega) hfits hlength
      ((w.step (.beginCalled n)).step (.begun u'.partitionAddress n)) hsteady (by rw [hskip])
      (by rw [hskip]; exact hmagic)
    rw [hskip] at hinst
    simp only [processFirmwareUpdateResponse, hacc, not_true, if_false, htoNat, hbegin]
    refine ⟨hinst.restarted, hinst.boot, hinst.image, ?_⟩
    obtain ⟨es, hes, hall⟩ := hinst.noError
    refine ⟨[.beginCalled n, .begun u'.partitionAddress n] ++ es, ?_, fun msg hm => ?_⟩
    · rw [World.run_append]
      exact hes
    · simp only [List.cons_append, List.nil_append, List.mem_cons, reduceCtorEq, false_or] at hm
      exact hall msg hm

/-- An updater between two attempts. -/
theorem runAttempts_between (as : List Attempt) (w : World) :
    (runAttempts as (.init, w)).1.size = 0 ∧ (runAttempts as (.init, w)).1.targetMd5 = [] := by
  have hfrom : ∀ s : UpdateClass × World, s.1.size = 0 → s.1.targetMd5 = [] →
      (runAttempts as s).1.size = 0 ∧ (runAttempts as s).1.targetMd5 = [] := by
    induction as with
    | nil => exact fun s hsize hmd5 => ⟨hsize, hmd5⟩
    | cons a as ih =>
        intro s hsize hmd5
        refine ih (a.run s) (a.run_events s.2 hsize).1 ?_
        unfold Attempt.run
        simp only
        split_ifs
        · rfl
        · exact (processFirmwareUpdateResponse_targetMd5 _ _ _ _ _).trans hmd5
  exact hfrom (.init, w) rfl rfl

/-- **Failed attempts do not stand in the way.**  Whatever attempts were made from program start, in
whatever environments and with whatever streams and flash failures: a good response that comes after them
is installed, and the device starts afresh from it. -/
theorem runAttempts_installs (as : List Attempt) (a : Attempt) (w : World) (p : Partition) (chip : ℕ)
    (hworks : a.env.Works p chip) (hacc : Accepted a.headerData) (hprompt : Prompt a.client)
    (hlength : a.headerData.contentLength.1 = (imageBytes a.client).length)
    (hfits : (imageBytes a.client).length ≤ p.size)
    (hmagic : (imageBytes a.client).head? = some imageMagic) :
    (runAttempts (as ++ [a]) (.init, w)).1 = .init ∧
      (runAttempts (as ++ [a]) (.init, w)).2.boot = p.address ∧
      slice (runAttempts (as ++ [a]) (.init, w)).2.flash p.address (imageBytes a.client).length
        = imageBytes a.client ∧
      ∃ es, (runAttempts (as ++ [a]) (.init, w)).2 = (runAttempts as (.init, w)).2.run es ∧
        ∀ msg, .fatalError msg ∉ es := by
  obtain ⟨hsize, hmd5⟩ := runAttempts_between as w
  have hlast : runAttempts (as ++ [a]) (.init, w) = a.run (runAttempts as (.init, w)) := by
    simp [runAttempts]
  have hinst := processFirmwareUpdateResponse_installs hworks (runAttempts as (.init, w)).2 hacc
    (by simp [isRunning, hsize]) hmd5 hprompt hlength hfits hmagic
  rw [hlast]
  simp only [Attempt.run, hinst.restarted, if_true]
  exact ⟨trivial, hinst.boot, hinst.image, hinst.noError⟩

theorem pausedImage_prompt (rest : List UInt8) : Prompt (pausedImage rest) := by
  have hrest := steady_deliver atOnce (show Arrival.bytesOf [] = [] from rfl) rest 0 (by simp [atOnce])
  simp only [deliver_atOnce, List.append_nil] at hrest
  have hpause : Steady false (.pause true :: rest.map .byte) :=
    ⟨fun _ => rfl, hrest true (by simp [atOnce])⟩
  exact ⟨hpause, fun _ => ⟨hpause, hpause⟩⟩

/-- A stalled attempt, and then a good one. -/
theorem runAttempts_installs_ota0 :
    (runAttempts ([⟨.healthy ota0 0x400000, firmwareHeader ⟨500000, by decide⟩, []⟩] ++
      [⟨.healthy ota0 0x400000, firmwareHeader ⟨500000, by decide⟩,
        pausedImage (List.replicate 499999 0)⟩]) (.init, .initial)).2.boot = 0x10000 := by
  have hlen : (imageBytes (pausedImage (List.replicate 499999 0))).length = 500000 := by
    rw [pausedImage_bytes, List.length_cons, List.length_replicate]
  have hmagic : (imageBytes (pausedImage (List.replicate 499999 0))).head? = some imageMagic := by
    rw [pausedImage_bytes, List.head?_cons]
  exact (runAttempts_installs [⟨.healthy ota0 0x400000, firmwareHeader ⟨500000, by decide⟩, []⟩]
    ⟨.healthy ota0 0x400000, firmwareHeader ⟨500000, by decide⟩, pausedImage (List.replicate 499999 0)⟩
    .initial ota0 0x400000 (OtaEnv.healthy_works (by decide) (by decide) (by decide))
    (firmwareHeader_accepted (by decide)) (pausedImage_prompt _) (by rw [hlen]; rfl)
    (by rw [hlen]; decide) hmagic).2.1

/-! ### From the bytes of the response on -/

/-- The position of the line feed that ends the header. -/
def feedPosition (st : OkStatus) (fields : List HeaderField) : ℕ :=
  linesEnd (st.line.length + 1) (headerLines (fields.map HeaderField.line))

/-- A firmware response whose header comes in one piece, apart from short pauses inside its lines, and
whose image follows promptly and steadily. -/
structure Flowing (cut : Cutting) (st : OkStatus) (fields : List HeaderField) : Prop where
  first : cut 0 = []
  status : ∀ j, 0 < j → j ≤ st.line.length → true ∉ cut j
  patient : Patient cut (st.line.length + 1) (headerLines (fields.map HeaderField.line))
  joined : Joined cut (st.line.length + 1) (headerLines (fields.map HeaderField.line))
  feed : true ∉ cut (feedPosition st fields)
  image : true ∉ cut (feedPosition st fields + 1)
  steady : ∀ j, feedPosition st fields + 1 < j → (cut j).count true ≤ 1

/-- **A poll reads a flowing header to its blank line.** -/
theorem pollResponse_flowing {cut : Cutting} {st : OkStatus} {fields : List HeaderField}
    (h : Flowing cut st fields) (hfields : ∀ f ∈ fields, f.OnLine) (body : List UInt8)
    (headerData : ResponseHeaderData) (buffer : CharArray responseSize) :
    pollResponse true headerData buffer (deliver cut 0 (responseBytes st fields body))
      = .ok (.process
          ((fieldsOf (fields.map HeaderField.line)).foldl Field.store
            ((Field.status (ascii "200")).store headerData))
          (deliver cut (feedPosition st fields) (LF :: body))) := by
  have hlines : ∀ line ∈ fields.map HeaderField.line, FieldLine line := by
    intro line hline
    obtain ⟨f, hf, rfl⟩ := List.mem_map.mp hline
    exact (hfields f hf).fieldLine
  have hlen : st.line.length < lineSize := by
    have := st.short
    simp only [OkStatus.line, lineSize]
    omega
  obtain ⟨hav, hread⟩ := readLine_deliver st.noCR hlen h.first
    (fun j hj hle => h.status j hj (by omega))
    (unlines (headerLines (fields.map HeaderField.line)) (LF :: body))
  rw [← responseBytes_eq, Nat.zero_add] at hread
  rw [← responseBytes_eq] at hav
  obtain ⟨b, bytes, hbytes⟩ : ∃ b bytes, responseBytes st fields body = b :: bytes := ⟨_, _, rfl⟩
  have hsame := (available_deliver h.first b bytes).2
  rw [← hbytes] at hsame
  rw [pollResponse_process_iff]
  refine ⟨rfl, hav, ?_⟩
  rw [hsame, readHeaders, dif_neg hav, hread, st.headerLine_next]
  show readHeaders true _ _ = _
  rw [readHeaders_joined hlines _ _ _ h.patient h.joined]
  rfl

/-- What follows a flowing header is prompt. -/
theorem Flowing.prompt {cut : Cutting} {st : OkStatus} {fields : List HeaderField}
    (h : Flowing cut st fields) (body : List UInt8) :
    Prompt (deliver cut (feedPosition st fields) (LF :: body)) ∧
      imageBytes (deliver cut (feedPosition st fields) (LF :: body)) = body := by
  have hcount : ∀ j, feedPosition st fields ≤ j → (cut j).count true ≤ 1 := by
    intro j hj
    by_cases h₀ : j = feedPosition st fields
    · rw [h₀, List.count_eq_zero_of_not_mem h.feed]
      omega
    · by_cases h₁ : j = feedPosition st fields + 1
      · rw [h₁, List.count_eq_zero_of_not_mem h.image]
        omega
      · exact h.steady j (by omega)
  have hnil : Arrival.bytesOf [] = [] := rfl
  have hwhole := steady_deliver cut hnil (LF :: body) (feedPosition st fields)
    (fun j hj _ => hcount j hj)
  have hrest := steady_deliver cut hnil body (feedPosition st fields + 1)
    (fun j hj _ => hcount j (by omega))
  simp only [List.append_nil] at hwhole hrest
  have hread : Arrival.timedRead (deliver cut (feedPosition st fields) (LF :: body))
      = (some LF, deliver cut (feedPosition st fields + 1) body) := by
    rw [deliver, timedRead_pauses h.feed]
    rfl
  have hbytes : ∀ i bytes, Arrival.bytesOf (deliver cut i bytes) = bytes := by
    intro i bytes
    induction bytes generalizing i with
    | nil => rfl
    | cons b bytes ih =>
        have hpauses : Arrival.bytesOf ((cut i).map .pause) = [] := by
          induction cut i with
          | nil => rfl
          | cons long pauses ihp => exact ihp
        rw [deliver, Arrival.bytesOf_append, hpauses, List.nil_append, Arrival.bytesOf, ih]
  refine ⟨⟨hwhole false (by simp), fun _ => ⟨hwhole true fun _ => h.feed, ?_⟩⟩, ?_⟩
  · rw [hread]
    exact hrest true fun _ => h.image
  · rw [imageBytes, hbytes]
    simp

/-- The fields announce a firmware image of `n` bytes. -/
structure Announces (fields : List HeaderField) (n : ℕ) : Prop where
  wellFormed : ∀ f ∈ fields, f.WellFormed
  length : ∃ f, HeaderField.lastNamed HeaderField.contentLength fields = some f ∧ f.value ≠ [] ∧
    (∀ b ∈ f.value, isDigit b = true) ∧ decimal f.value = n
  type : ∃ f, HeaderField.lastNamed HeaderField.contentType fields = some f ∧
    HeaderField.firstWord f.value = ascii "application/octet-stream"

/-- The parsed header of an announced image passes the gate. -/
theorem Announces.accepted {fields : List HeaderField} {n : ℕ} (h : Announces fields n)
    {headerData : ResponseHeaderData} (hparsed : Parsed fields headerData) (hmin : 500000 ≤ n)
    (hmax : n < 2 ^ 31) : Accepted headerData ∧ headerData.contentLength.1 = n := by
  obtain ⟨f, hf, hne, hdigits, hvalue⟩ := h.length
  obtain ⟨g, hg, hword⟩ := h.type
  have hlength := hparsed.contentLength f hf hne hdigits (by omega)
  have htype := hparsed.contentType g hg (by rw [hword]; decide)
  rw [hvalue] at hlength
  refine ⟨⟨by omega, ?_⟩, hlength⟩
  have hstr : cstr headerData.contentType.1 = ascii "application/octet-stream" := htype.trans hword
  rw [strEq, hstr]
  decide

/-- **From the response to the installed image.**  A request with a process callback is awaiting its
response; the server sends a 200 status line, well-formed fields that announce `image` and the image, and
they flow.  Then one poll hands the callback a header and a stream with which it installs `image`, on a
device that works and in whatever state earlier attempts left it. -/
theorem checkForHttpResponse_installs {s : State} {poll : Poll} {id : ℕ} (hs : Awaiting s poll)
    (hcb : s.callbacks = some ⟨id, true⟩) (st : OkStatus) {fields : List HeaderField}
    {image : List UInt8} (hann : Announces fields image.length) {cut : Cutting}
    (hflow : Flowing cut st fields) (hclient : s.client = deliver cut 0 (responseBytes st fields image))
    {env : OtaEnv} {p : Partition} {chip : ℕ} (hworks : env.Works p chip) {u : UpdateClass} (w : World)
    (hidle : u.isRunning = false) (hmd5 : u.targetMd5 = []) (hmin : 500000 ≤ image.length)
    (hfits : image.length ≤ p.size) (hlong : image.length < 2 ^ 31)
    (hmagic : image.head? = some imageMagic) :
    ∃ headerData client, s.handed poll = some (headerData, client) ∧
      s.checkForHttpResponse poll
        = poll.onProcess.run ({ s with client := client }.log (.invoked id (.process headerData))) >>=
            (fun s' => .ok { s' with requestIsPending := false }) ∧
      Installed p image w (processFirmwareUpdateResponse env headerData u w client) := by
  have hpoll := pollResponse_flowing hflow (fun f hf => (hann.wellFormed f hf).toOnLine) image
    poll.headerData s.responseBuffer
  rw [← hclient] at hpoll
  have hhanded : s.handed poll = some
      ((fieldsOf (fields.map HeaderField.line)).foldl Field.store
        ((Field.status (ascii "200")).store poll.headerData),
        deliver cut (feedPosition st fields) (LF :: image)) := by
    rw [State.handed, hcb]
    simp only [hpoll]
  obtain ⟨cb, hcb', hcheck⟩ := checkForHttpResponse_handed hs hhanded
  obtain rfl : ⟨id, true⟩ = cb := Option.some.inj (hcb.symm.trans hcb')
  obtain ⟨hacc, hlength⟩ := hann.accepted (parsed_of_wellFormed hann.wellFormed _) hmin hlong
  obtain ⟨hprompt, himage⟩ := hflow.prompt image
  refine ⟨_, _, hhanded, hcheck, ?_⟩
  have hinst := processFirmwareUpdateResponse_installs hworks w hacc hidle hmd5 hprompt
    (by rw [himage]; exact hlength) (by rw [himage]; exact hfits) (by rw [himage]; exact hmagic)
  rw [himage] at hinst
  exact hinst

theorem flowing_atOnce (st : OkStatus) (fields : List HeaderField) : Flowing atOnce st fields :=
  ⟨rfl, by simp [atOnce], patient_atOnce _ _, joined_atOnce _ _, by simp [atOnce], by simp [atOnce],
    by simp [atOnce]⟩

theorem imageFields_announces : Announces imageFields 600000 :=
  ⟨imageFields_wellFormed,
    ⟨⟨ascii "Content-Length", ascii "600000"⟩, rfl, by decide, List.all_eq_true.mp (by decide), by decide⟩,
    ⟨⟨ascii "Content-Type", ascii "application/octet-stream"⟩, rfl, by decide⟩⟩

/-- An image of 600000 bytes, from its response to the boot selection. -/
theorem checkForHttpResponse_installs_ota0 :
    ∃ s headerData client, runCalls [opened true (deliver atOnce 0
        (responseBytes plainOk imageFields (imageMagic :: List.replicate 599999 0)))] = .ok s ∧
      s.handed (.at 1) = some (headerData, client) ∧
      (processFirmwareUpdateResponse (.healthy ota0 0x400000) headerData .init .initial client).world.boot
        = 0x10000 := by
  have hlen : (imageMagic :: List.replicate 599999 (0 : UInt8)).length = 600000 := by
    rw [List.length_cons, List.length_replicate]
  obtain ⟨s, hs, hcb, hwait, hclient, -⟩ := runCalls_opened true
    (deliver atOnce 0 (responseBytes plainOk imageFields (imageMagic :: List.replicate 599999 0)))
  obtain ⟨headerData, client, hhanded, -, hinst⟩ := checkForHttpResponse_installs hwait hcb plainOk
    (by rw [hlen]; exact imageFields_announces) (flowing_atOnce _ _) hclient
    (OtaEnv.healthy_works (p := ota0) (by decide) (by decide) (by decide : _ ≤ 0x400000)) .initial
    (by rfl : UpdateClass.init.isRunning = false) rfl (by rw [hlen]; decide) (by rw [hlen]; decide)
    (by rw [hlen]; decide) rfl
  exact ⟨s, headerData, client, hs, hhanded, hinst.boot⟩

end EspFirmware
