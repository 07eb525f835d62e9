import EspFirmware.UpdateWrite

/-!
# Updates of unknown size

`begin(UPDATE_SIZE_UNKNOWN)` takes the whole partition for the size, and `end(true)` ends the update
wherever it is: it flushes what is in the buffer and takes the progress for the size.  The result of that
last flush is not looked at, and an update it aborts is ended all the same.

* `Sectors` — the sectors flushed so far hold a beginning of the image;
* `writeLoop_sectors`, `write_written` — what `write` leaves, in flash and in the buffer;
* `updateOfUnknownSize_commits` — the pieces are committed exactly, or nothing is, unless the last flush
  fails and no sum shows it.
-/

namespace EspFirmware

open NorFlash CString

namespace UpdateClass

/-- `begin` without a size, `write` for each piece, and `end(true)`. -/
def updateOfUnknownSize (env : OtaEnv) (chunks : List (List UInt8)) (u : UpdateClass) (w : World) :
    Bool × UpdateClass × World :=
  match u.begin env 0xFFFFFFFF .flash with
  | (false, u') => (false, u', w)
  | (true, u') => (writes env chunks (u', w)).1.endUpdate env (writes env chunks (u', w)).2 true

variable {env : OtaEnv} {p : Partition} {n : ℕ} {u u' : UpdateClass} {w w' w₀ : World}
variable {c data left bs target : List UInt8}

/-- Between two flushes: `c` has been flushed, and nothing else. -/
structure Sectors (p : Partition) (n : ℕ) (target : List UInt8) (w₀ : World) (c : List UInt8)
    (u : UpdateClass) (w : World) : Prop where
  running : Running p n u
  buffer : u.buffer = []
  progress : u.progress = c.length
  stored : Stored p w.flash c c.length
  md5 : u.md5 = c
  target_eq : u.targetMd5 = target
  quiet : World.Extends Event.Quiet w₀ w

/-- An update that has been aborted, without a switch. -/
def Aborted (w₀ : World) (u : UpdateClass) (w : World) : Prop :=
  u.size = 0 ∧ u.error ≠ .ok ∧ World.Extends Event.Quiet w₀ w

/-- A flush behind whole sectors. -/
theorem Sectors.flush (h : Sectors p n target w₀ c u w) (halign : c.length % secSize = 0)
    (hbs : bs ≠ []) (hsec : bs.length ≤ secSize) (hfits : c.length + bs.length ≤ n) (hn : n ≤ p.size)
    (hsmall : n < 2 ^ 32) (hw : (u.fill bs).writeBuffer env w = (true, u', w')) :
    Sectors p n target w₀ (c ++ bs) u' w' := by
  have hpos := List.length_pos_of_ne_nil hbs
  have hp := p.fits
  have hflush := writeBuffer_flush env (u.fill bs) w
  rw [hw] at hflush
  have hst := Stored.flush h.running hbs (by omega) (by rw [h.progress]; omega)
    (by rw [h.progress]; exact halign) (by rw [h.buffer, h.progress, List.drop_length])
    (by rw [h.progress, h.buffer, List.length_nil, Nat.add_zero]) (by rw [h.buffer]; simpa using hsec)
    (by rw [h.progress]; exact h.stored) hflush
  have hlen : (u.buffer ++ bs).length = bs.length := by rw [h.buffer, List.nil_append]
  obtain ⟨hrun, hbuf, hprog⟩ := flush_state h.running hflush (by rw [h.progress, hlen]; omega)
  rw [h.progress, hlen] at hprog hst
  refine ⟨hrun, hbuf, by rw [hprog, List.length_append], by rw [List.length_append]; exact hst, ?_,
    hflush.targetMd5_eq.trans h.target_eq, h.quiet.trans hflush.quiet⟩
  rw [writeBuffer_true hw]
  show u.md5 ++ (u.buffer ++ bs) = c ++ bs
  rw [h.md5, h.buffer, List.nil_append]

/-- A flush fails only on a device that does not work, or for want of the magic. -/
theorem Sectors.flush_failed (h : Sectors p n target w₀ c u w) (halign : c.length % secSize = 0)
    (hbs : bs ≠ []) (hfits : c.length + bs.length ≤ n) (hn : n ≤ p.size)
    (hw : (u.fill bs).writeBuffer env w = (false, u', w')) :
    Aborted w₀ u' w' ∧ ∀ chip, env.Works p chip → (c ++ bs).head? ≠ some imageMagic := by
  have hflush := writeBuffer_flush env (u.fill bs) w
  rw [hw] at hflush
  refine ⟨⟨hflush.aborted.1, hflush.aborted.2, h.quiet.trans hflush.quiet⟩, fun chip hworks hmagic => ?_⟩
  have hpos := List.length_pos_of_ne_nil hbs
  have hinside := hworks.inside
  have hsmall := hworks.small
  have hsectors := hworks.sectors
  have hpa := p.aligned
  have hnext : (u.fill bs).nextAddress = p.address + u.progress :=
    h.running.nextAddress_eq (by rw [h.progress]; omega)
  rw [h.progress] at hnext
  have hsucc := hflush.succeeds ?_ ?_ ?_
  · cases hsucc
  · intro hf
    have hp0 : u.progress = 0 := (firstBytes_iff h.running.command).mp hf
    rw [h.progress] at hp0
    rw [List.eq_nil_of_length_eq_zero hp0, List.nil_append] at hmagic
    rw [fill_buffer, h.buffer, List.nil_append]
    exact hmagic
  · intro i
    apply hworks.flash
    simp only [eraseOp, hnext, FlashOp.Inside, secSize] at *
    omega
  · intro i
    apply hworks.flash
    simp only [writeOp, hnext, FlashOp.Inside, flushData_length, fill_buffer, h.buffer, List.nil_append]
    omega

/-- **What the loop of `write` leaves**: whole sectors in flash and the rest to be copied, or an aborted
update. -/
theorem writeLoop_sectors (env : OtaEnv) (h : Sectors p n target w₀ c u w) (halign : c.length % secSize = 0)
    (hdata : data ≠ []) (hfits : c.length + data.length ≤ n) (hn : n ≤ p.size) (hsmall : n < 2 ^ 32) :
    ((u.writeLoop env w data).1 = false ∧
        Aborted w₀ (u.writeLoop env w data).2.1 (u.writeLoop env w data).2.2.1 ∧
        ∀ chip, env.Works p chip → (c ++ data).head? ≠ some imageMagic) ∨
      (u.writeLoop env w data).1 = true ∧ ∃ c', c ++ data = c' ++ (u.writeLoop env w data).2.2.2 ∧
        Sectors p n target w₀ c' (u.writeLoop env w data).2.1 (u.writeLoop env w data).2.2.1 ∧
        c'.length % secSize = 0 ∧ (u.writeLoop env w data).2.2.2 ≠ [] ∧
        (u.writeLoop env w data).2.2.2.length ≤ secSize := by
  induction hk : data.length using Nat.strong_induction_on generalizing u w c data with
  | _ k ih =>
  subst hk
  by_cases hlt : secSize < u.buffer.length + data.length
  · have hlong : secSize < data.length := by
      rw [h.buffer, List.length_nil] at hlt
      omega
    have htop : u.topUp data = u.fill (data.take secSize) := by
      rw [topUp, h.buffer, List.length_nil, Nat.sub_zero]
    have htake : (data.take secSize).length = secSize := List.length_take_of_le (by omega)
    have hne : data.take secSize ≠ [] := by
      intro hnil
      rw [hnil] at htake
      simp [secSize] at htake
    rcases hw : (u.topUp data).writeBuffer env w with ⟨ok, u₁, w₁⟩
    cases ok with
    | false =>
        rw [writeLoop_failed hlt hw]
        rw [htop] at hw
        obtain ⟨habort, hwhy⟩ := h.flush_failed halign hne (by omega) hn hw
        refine .inl ⟨rfl, habort, fun chip hworks hmagic => hwhy chip hworks ?_⟩
        rw [← List.take_append_drop secSize data, ← List.append_assoc, List.head?_append_of_ne_nil _
          (by simp [hne])] at hmagic
        exact hmagic
    | true =>
        rw [writeLoop_full hlt hw, h.buffer, List.length_nil, Nat.sub_zero]
        rw [htop] at hw
        have h₁ := h.flush halign hne (by omega) (by omega) hn hsmall hw
        have hdrop : (data.drop secSize).length = data.length - secSize := List.length_drop
        have hclen : (c ++ data.take secSize).length = c.length + secSize := by
          rw [List.length_append, htake]
        have hrest := ih (data.drop secSize).length (by simp only [secSize] at *; omega) h₁
          (by rw [hclen]; simp only [secSize] at *; omega)
          (by intro hnil; rw [hnil, List.length_nil] at hdrop; omega) (by omega) rfl
        rwa [List.append_assoc, List.take_append_drop] at hrest
  · rw [writeLoop_short (by omega)]
    have hshort : data.length ≤ secSize := by
      rw [h.buffer, List.length_nil] at hlt
      omega
    exact .inr ⟨rfl, c, rfl, h, halign, hdata, hshort⟩

/-- What `write` of the whole image leaves: an aborted update, the image in flash, or its last bytes in the
buffer. -/
inductive Written (env : OtaEnv) (p : Partition) (n : ℕ) (target : List UInt8) (w₀ : World)
    (image : List UInt8) (u : UpdateClass) (w : World) : Prop
  | aborted : Aborted w₀ u w → (∀ chip, env.Works p chip → image.head? ≠ some imageMagic) →
      Written env p n target w₀ image u w
  | complete : Sectors p n target w₀ image u w → Written env p n target w₀ image u w
  | buffered (c left : List UInt8) (u₁ : UpdateClass) : image = c ++ left → u = u₁.fill left →
      Sectors p n target w₀ c u₁ w → c.length % secSize = 0 → left ≠ [] → left.length ≤ secSize →
      image.length ≠ n → Written env p n target w₀ image u w

theorem write_written (env : OtaEnv) {image : List UInt8} (h : Sectors p n target w₀ [] u w) (himage : image ≠ [])
    (hfits : image.length ≤ n) (hn : n ≤ p.size) (hsmall : n < 2 ^ 32) :
    Written env p n target w₀ image (u.write env w image).2.1 (u.write env w image).2.2 := by
  have hpos := List.length_pos_of_ne_nil himage
  have ht : Taking u image.length := by
    refine ⟨h.running.error, by rw [h.running.size]; omega, ?_, by rw [h.running.size]; exact hsmall⟩
    rw [h.progress, h.buffer, h.running.size]
    simpa using hfits
  have hloop := writeLoop_sectors env h rfl himage (by simpa using hfits) hn hsmall
  rw [ht.write_eq]
  rcases hr : u.writeLoop env w image with ⟨ok, u₁, w₁, left⟩
  rw [hr] at hloop
  dsimp only at hloop
  rw [List.nil_append] at hloop
  rcases hloop with ⟨hok, habort, hwhy⟩ | ⟨hok, c, hsplit, hsec, halign, hleft, hshort⟩
  · obtain rfl : ok = false := hok
    exact .aborted habort hwhy
  · obtain rfl : ok = true := hok
    have hlen : image.length = c.length + left.length := by
      have := congrArg List.length hsplit
      simpa using this
    simp only [settle]
    split_ifs with hfull
    · rcases hw : (u₁.fill left).writeBuffer env w₁ with ⟨ok, u₂, w₂⟩
      cases ok with
      | false =>
          obtain ⟨habort, hwhy⟩ := hsec.flush_failed halign hleft (by omega) hn hw
          rw [← hsplit] at hwhy
          exact .aborted habort hwhy
      | true =>
          have hdone := hsec.flush halign hleft hshort (by omega) hn hsmall hw
          rw [← hsplit] at hdone
          exact .complete hdone
    · refine .buffered c left u₁ hsplit rfl hsec halign hleft hshort fun hn => hfull ?_
      have hrem : (u₁.fill left).remaining = n - u₁.progress :=
        hsec.running.remaining_eq hsmall (by rw [hsec.progress]; omega)
      rw [hrem, fill_buffer, hsec.buffer, List.nil_append, hsec.progress]
      omega

/-! ### `end(true)` -/

theorem Flush.failed_md5 (h : Flush env u w (false, u', w')) : u'.md5 = u.md5 := by
  cases h <;> rfl

theorem endUpdate_true_aborted (h : Aborted w₀ u w) : u.endUpdate env w true = (false, u, w) := by
  rw [endUpdate, if_pos (.inr h.1)]

/-- `end(true)` flushes the buffer and goes on, whatever the flush returns. -/
theorem endUpdate_true (herr : u.error = .ok) (hsize : u.size ≠ 0)
    (hs : (if 0 < u.buffer.length then (u.writeBuffer env w).2 else (u, w)) = (u', w')) :
    u.endUpdate env w true =
      if u'.targetMd5 ≠ [] ∧ u'.targetMd5 ≠ env.md5Hex u'.md5 then (false, u'.abort .md5, w')
      else ({ u' with size := u'.progress } : UpdateClass).verifyEnd env w' := by
  have hgo : ¬(u.hasError = true ∨ u.size = 0) := by simp [hasError, herr, hsize]
  rw [endUpdate, if_neg hgo, if_neg (by simp)]
  simp only [if_true, hs]
  rfl

/-- If the image is in flash then, it is `end()` of an update of that size. -/
theorem Sectors.endUpdate_true_eq (env : OtaEnv) (h : Sectors p n target w₀ c u' w') (hc : 0 < c.length)
    (herr : u.error = .ok) (hsize : u.size ≠ 0)
    (hs : (if 0 < u.buffer.length then (u.writeBuffer env w).2 else (u, w)) = (u', w')) :
    u.endUpdate env w true = ({ u' with size := c.length } : UpdateClass).endUpdate env w' false := by
  have hgo : ¬(({ u' with size := c.length } : UpdateClass).hasError = true ∨ c.length = 0) := by
    rw [not_or]
    exact ⟨by simp [hasError, h.running.error], hc.ne'⟩
  have hfin : ¬¬({ u' with size := c.length } : UpdateClass).isFinished = true := by
    simp [isFinished, h.progress]
  rw [endUpdate_true herr hsize hs, endUpdate_false, if_neg hgo, if_neg hfin, h.progress]
  rfl

/-- The image is in flash, and the size is its length. -/
theorem Sectors.loopEnd (h : Sectors p n target w₀ c u w) :
    LoopEnd p c.length w₀ c { u with size := c.length } w :=
  ⟨h.quiet, .inr ⟨⟨rfl, h.running.command, h.running.error, h.running.partition, h.running.room⟩,
    h.progress, le_rfl, h.stored⟩⟩

/-! ### The whole update -/

/-- A refused update commits nothing. -/
theorem commitsPieces_refused {image : List UInt8} (hsize : u'.size = 0)
    (hquiet : World.Extends Event.Quiet w w') : CommitsPieces env p image u w (false, u', w') := by
  refine ⟨by simp [isRunning, hsize], fun _ => ?_, by simp, by simp, by simp⟩
  obtain ⟨es, rfl, hes⟩ := hquiet.mono fun e => Event.Quiet.unswitched
  exact World.run_boot w es fun a ha => (hes _ ha).2 a rfl

/-- What `begin` without a size leaves. -/
theorem begin_unknown (hidle : u.size = 0) (hpart : env.nextUpdatePartition = some p) :
    (∃ u', u.begin env 0xFFFFFFFF .flash = (false, u') ∧ u'.size = 0 ∧ env.mallocOk = false) ∨
      ∃ u', u.begin env 0xFFFFFFFF .flash = (true, u') ∧ Running p p.size u' ∧ u'.progress = 0 ∧
        u'.buffer = [] := by
  rw [UpdateClass.begin, if_neg (by omega)]
  simp only [if_neg (show ¬0xFFFFFFFF = 0 by decide), hpart, if_true]
  split_ifs with hsize hmalloc
  · omega
  · exact .inr ⟨_, rfl, ⟨rfl, rfl, rfl, rfl, by simp [reset, secSize]⟩, rfl, rfl⟩
  · exact .inl ⟨_, rfl, rfl, by simpa using hmalloc⟩

/-- The bytes that are left in the buffer cannot be flushed. -/
def LastFlushFails (env : OtaEnv) (s : UpdateClass × World) : Prop :=
  s.1.error = .ok ∧ s.1.buffer ≠ [] ∧ (s.1.writeBuffer env s.2).1 = false

/-- The expected sum does not tell the image from the whole sectors before its last bytes. -/
def Unguarded (env : OtaEnv) (image target : List UInt8) : Prop :=
  target = [] ∨ ∃ c left, image = c ++ left ∧ left ≠ [] ∧ c.length % secSize = 0 ∧ target = env.md5Hex c

/-- A sum that does tell them apart ends the update even if the last flush fails. -/
theorem Sectors.endUpdate_true_guarded (h : Sectors p n target w₀ c u w)
    (hs : (u.fill left).writeBuffer env w = (false, u', w')) (hleft : left ≠ []) (hn : n ≠ 0)
    (htarget : target ≠ [] ∧ target ≠ env.md5Hex c) :
    (u.fill left).endUpdate env w true = (false, u'.abort .md5, w') := by
  have hflush := writeBuffer_flush env (u.fill left) w
  rw [hs] at hflush
  have hnonempty : 0 < (u.fill left).buffer.length := by
    rw [fill_buffer, h.buffer, List.nil_append]
    exact List.length_pos_of_ne_nil hleft
  have hsum : u'.targetMd5 ≠ [] ∧ u'.targetMd5 ≠ env.md5Hex u'.md5 := by
    rw [hflush.failed_md5, hflush.targetMd5_eq]
    show u.targetMd5 ≠ [] ∧ u.targetMd5 ≠ env.md5Hex u.md5
    rw [h.md5, h.target_eq]
    exact htarget
  rw [endUpdate_true (show (u.fill left).error = .ok from h.running.error)
    (by rw [fill_size, h.running.size]; exact hn)
    (by rw [if_pos hnonempty, hs]), if_pos hsum]

/-- **An update of unknown size commits exactly the pieces, or nothing, unless the last flush fails** and
the expected sum does not show it.  Whatever the pieces, as long as none is empty and they fit the
partition, whatever fails on the way and whatever MD5 sum is expected.  On a device that works it does
commit them, if they start with the magic and have the expected sum. -/
theorem updateOfUnknownSize_commits (env : OtaEnv) (p : Partition) (chunks : List (List UInt8))
    (u : UpdateClass) (w : World) (hpart : env.nextUpdatePartition = some p) (hsmall : p.size < 2 ^ 32)
    (hidle : u.isRunning = false) (hne : chunks ≠ []) (hchunks : ∀ c ∈ chunks, c ≠ [])
    (hfits : chunks.flatten.length ≤ p.size) :
    (CommitsPieces env p chunks.flatten u w (updateOfUnknownSize env chunks u w) ∨
        ∃ u', u.begin env 0xFFFFFFFF .flash = (true, u') ∧
          LastFlushFails env (writes env chunks (u', w)) ∧
          Unguarded env chunks.flatten u.targetMd5) ∧
      ∀ chip, env.Works p chip → chunks.flatten.head? = some imageMagic →
        (u.targetMd5 = [] ∨ u.targetMd5 = env.md5Hex chunks.flatten) →
        (updateOfUnknownSize env chunks u w).1 = true := by
  set image := chunks.flatten with himage
  have hpos : 0 < image.length := by
    obtain ⟨c, cs, rfl⟩ := List.exists_cons_of_ne_nil hne
    have hc := List.length_pos_of_ne_nil (hchunks c (by simp))
    rw [himage, List.flatten_cons, List.length_append]
    omega
  have himage' : image ≠ [] := List.ne_nil_of_length_pos hpos
  have hsize : u.size = 0 := by simpa [isRunning] using hidle
  rcases begin_unknown hsize hpart with ⟨u', hbegin, hsize', hmalloc⟩ | ⟨u', hbegin, hrun, hprog, hbuf⟩
  · simp only [updateOfUnknownSize, hbegin]
    refine ⟨.inl (commitsPieces_refused hsize' (.refl _ w)), fun chip hworks => ?_⟩
    rw [hworks.malloc] at hmalloc
    cases hmalloc
  · have htarget : u'.targetMd5 = u.targetMd5 :=
      (congrArg (·.2.targetMd5) hbegin).symm.trans (begin_targetMd5 env u 0xFFFFFFFF .flash)
    have hstart : Sectors p p.size u.targetMd5 w [] u' w :=
      ⟨hrun, hbuf, hprog, fun h => absurd h (lt_irrefl 0), begin_md5 hbegin, htarget, .refl _ w⟩
    have ht : Taking u' image.length :=
      ⟨hrun.error, by rw [hrun.size]; omega, by rw [hprog, hbuf, hrun.size]; simpa using hfits,
        by rw [hrun.size]; exact hsmall⟩
    have hwrites : writes env chunks (u', w) = (u'.write env w image).2 :=
      writes_flatten chunks hne hchunks ht
    have hwritten := write_written env hstart himage' hfits le_rfl hsmall
    simp only [updateOfUnknownSize, hbegin]
    rw [hwrites]
    rcases hr : (u'.write env w image).2 with ⟨u₁, w₁⟩
    rw [hr] at hwritten
    dsimp only at hwritten ⊢
    -- once the image is in flash, all is as in an update of its size
    have hdone : ∀ {u₂ : UpdateClass} {w₂ : World}, Sectors p p.size u.targetMd5 w image u₂ w₂ →
        u₁.endUpdate env w₁ true = ({ u₂ with size := image.length } : UpdateClass).endUpdate env w₂ false →
        CommitsPieces env p image u w (u₁.endUpdate env w₁ true) ∧
          ∀ chip, env.Works p chip → image.head? = some imageMagic →
            (u.targetMd5 = [] ∨ u.targetMd5 = env.md5Hex image) →
            (u₁.endUpdate env w₁ true).1 = true := by
      intro u₂ w₂ hsec heq
      rw [heq]
      have hend := hsec.loopEnd
      refine ⟨endUpdate_commitsPieces hpos hend hsec.target_eq (fun _ => hsec.md5), ?_⟩
      intro chip hworks hmagic hsum
      rcases hend.2 with ⟨hzero, -⟩ | ⟨hrun₂, hprog₂, -, hst⟩
      · exact absurd hzero hpos.ne'
      · have hsum' : u₂.targetMd5 = [] ∨ u₂.targetMd5 = env.md5Hex u₂.md5 := by
          rw [hsec.target_eq, hsec.md5]
          exact hsum
        rw [endUpdate_works hworks hrun₂ hpos hfits hprog₂ (hst hpos).1 hsum']
    cases hwritten with
    | aborted habort hwhy =>
        rw [endUpdate_true_aborted habort]
        exact ⟨.inl (commitsPieces_refused habort.1 habort.2.2),
          fun chip hworks hmagic => absurd hmagic (hwhy chip hworks)⟩
    | complete hsec =>
        have heq := hsec.endUpdate_true_eq env hpos hsec.running.error
          (by rw [hsec.running.size]; omega) (if_neg (by simp [hsec.buffer]))
        obtain ⟨hcommits, hworks⟩ := hdone hsec heq
        exact ⟨.inl hcommits, hworks⟩
    | buffered c left u₂ hsplit hu hsec halign hleft hshort _ =>
        have hlen : image.length = c.length + left.length := by rw [hsplit, List.length_append]
        have hbuffer : u₁.buffer = left := by rw [hu, fill_buffer, hsec.buffer, List.nil_append]
        have herr : u₁.error = .ok := by
          rw [hu]
          exact hsec.running.error
        have hsize₁ : u₁.size ≠ 0 := by
          rw [hu, fill_size, hsec.running.size]
          omega
        have hnonempty : 0 < u₁.buffer.length := by
          rw [hbuffer]
          exact List.length_pos_of_ne_nil hleft
        rcases hw : u₁.writeBuffer env w₁ with ⟨ok, u₃, w₃⟩
        cases ok with
        | false =>
            have hlast : LastFlushFails env (writes env chunks (u', w)) := by
              rw [hwrites, hr]
              exact ⟨herr, List.ne_nil_of_length_pos hnonempty, congrArg (·.1) hw⟩
            rw [hu] at hw
            obtain ⟨habort, hwhy⟩ := hsec.flush_failed halign hleft (by omega) le_rfl hw
            rw [← hsplit] at hwhy
            refine ⟨?_, fun chip hworks hmagic => absurd hmagic (hwhy chip hworks)⟩
            by_cases hguard : Unguarded env image u.targetMd5
            · exact .inr ⟨u', rfl, hlast, hguard⟩
            · obtain ⟨hset, hsum⟩ := not_or.mp hguard
              rw [hu, hsec.endUpdate_true_guarded hw hleft (by omega)
                ⟨hset, fun heq => hsum ⟨c, left, hsplit, hleft, halign, heq⟩⟩]
              exact .inl (commitsPieces_refused rfl habort.2.2)
        | true =>
            have hflushed : (if 0 < u₁.buffer.length then (u₁.writeBuffer env w₁).2 else (u₁, w₁))
                = (u₃, w₃) := by rw [if_pos hnonempty, hw]
            rw [hu] at hw
            have hsec₃ := hsec.flush halign hleft hshort (by omega) le_rfl hsmall hw
            rw [← hsplit] at hsec₃
            obtain ⟨hcommits, hworks⟩ := hdone hsec₃ (hsec₃.endUpdate_true_eq env hpos herr hsize₁ hflushed)
            exact ⟨.inl hcommits, hworks⟩

theorem updateOfUnknownSize_commits_ota0 :
    (updateOfUnknownSize (.healthy ota0 0x400000) acrossSector .init .initial).1 = true :=
  (updateOfUnknownSize_commits (.healthy ota0 0x400000) ota0 acrossSector .init .initial rfl (by decide)
    rfl (List.cons_ne_nil _ _) acrossSector_nonempty (by rw [acrossSector_length]; decide)).2 0x400000
    (OtaEnv.healthy_works (by decide) (by decide) (by decide)) rfl (.inl rfl)

-- A last flush that fails with no sum to show it: the sector cannot be erased, and what it held before boots.
example :
    let env : OtaEnv := { OtaEnv.healthy ota0 0x400000 with
      flash := fun i _ => if i = 0 then .failed 0 else .ok }
    let u : UpdateClass := { UpdateClass.init with
      size := ota0.size, partition := some ota0, buffer := [imageMagic, 1, 2] }
    let w : World := { World.initial with flash := fun _ => imageMagic }
    (u.endUpdate env w true).1 = true ∧ (u.endUpdate env w true).2.2.boot = ota0.address := by
  decide +kernel

end UpdateClass

end EspFirmware
