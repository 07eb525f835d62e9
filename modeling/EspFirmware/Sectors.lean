import EspFirmware.UpdateLoop

/-!
# The loop sector by sector

Between two flushes the loop of `writeStream` only reads.  How the reads of one sector line up with its end
decides what is flushed, and the reads depend on nothing but the stream and the number of bytes they ask
for.

* `readSizes` — the lengths of the reads that fill a buffer;
* `Filled`, `RunsOn` — no read ends at the end of the image, and so the sector fills up; a number of sectors
  in a row do;
* `SectorSpec`, `sector_spec` — **everything the loop can do with one sector**;
* `OtaEnv.Takes` — the flash takes a sector, stated for the bytes of the stream;
* `AtSector`, `AtSector.flushed_iff` — a whole sector is flushed exactly if the flash takes it.
-/

namespace EspFirmware

open NorFlash UpdateClass

/-- The lengths of the reads that bring `k` bytes, each of at most `cap` bytes and tried twice, and the
stream after them.  They stop where a read brings nothing. -/
def readSizes (cap k : ℕ) (client : List Arrival) : List ℕ × List Arrival :=
  if k = 0 then ([], client)
  else
    match readRetry (min cap k) client with
    | ([], client') => ([], client')
    | (b :: bs, client') =>
        let (sizes, rest) := readSizes cap (k - (b :: bs).length) client'
        ((b :: bs).length :: sizes, rest)
termination_by k
decreasing_by
  simp only [List.length_cons]
  omega

/-- A buffer of `b` bytes grows to a whole sector by reads of at most `c` bytes, and none of them ends at
`c`, unless that is the end of the sector. -/
def Filled (c b : ℕ) (client : List Arrival) : Prop :=
  b + (readSizes c (secSize - b) client).1.sum = secSize ∧
    ∀ i, b + ((readSizes c (secSize - b) client).1.take i).sum = c → c = secSize

/-- How many bytes of sector `m` belong to an image of `n` bytes; past its end the loop goes by whole
sectors. -/
def share (n m : ℕ) : ℕ := if m = n / secSize then n % secSize else secSize

/-- The stream fills `j` sectors in a row, from sector `m` on. -/
def RunsOn (n : ℕ) : ℕ → ℕ → List Arrival → Prop
  | 0, _, _ => True
  | j + 1, m, client =>
      Filled (share n m) 0 client ∧ RunsOn n j (m + 1) (readSizes (share n m) secSize client).2

/-- The erase of sector `m` of the partition. -/
def sectorErase (p : Partition) (m : ℕ) : FlashOp := .erase (wrap32 (p.address + secSize * m) / secSize)

/-- The write of sector `m`, filled from the bytes `image`, with the magic withheld. -/
def sectorWrite (p : Partition) (image : List UInt8) (m : ℕ) : FlashOp :=
  let data := (image.drop (secSize * m)).take secSize
  .write (wrap32 (p.address + secSize * m)) (if m = 0 then data.set 0 0xFF else data)

/-- The flash takes sector `m`, where `i` events come before the erase of the first. -/
def OtaEnv.Takes (env : OtaEnv) (p : Partition) (image : List UInt8) (i m : ℕ) : Prop :=
  env.flash (i + 3 * m) (sectorErase p m) = .ok ∧
    env.flash (i + 3 * m + 1) (sectorWrite p image m) = .ok

/-! ### Reads -/

section Reads

variable {cap k c b : ℕ} {client client' : List Arrival} {bs : List UInt8}

theorem readSizes_zero (cap : ℕ) (client : List Arrival) : readSizes cap 0 client = ([], client) := by
  rw [readSizes, if_pos rfl]

theorem readSizes_stalled (hk : k ≠ 0) (h : readRetry (min cap k) client = ([], client')) :
    readSizes cap k client = ([], client') := by
  rw [readSizes, if_neg hk, h]

theorem readSizes_next (hk : k ≠ 0) (hbs : bs ≠ []) (h : readRetry (min cap k) client = (bs, client')) :
    readSizes cap k client
      = (bs.length :: (readSizes cap (k - bs.length) client').1,
          (readSizes cap (k - bs.length) client').2) := by
  obtain ⟨b, t, rfl⟩ := List.exists_cons_of_ne_nil hbs
  rw [readSizes, if_neg hk, h]

/-- A read that ends neither at `c` nor at the end of the sector leaves the rest to be filled. -/
theorem filled_next (hroom : b < secSize) (hb : b ≠ c) (hbs : bs ≠ [])
    (h : readRetry (min c (secSize - b)) client = (bs, client')) :
    Filled c b client ↔ Filled c (b + bs.length) client' := by
  have hsub : secSize - b - bs.length = secSize - (b + bs.length) := by omega
  rw [Filled, Filled, readSizes_next (by omega) hbs h, hsub]
  refine and_congr ?_ ⟨fun hends i hi => ?_, fun hends i hi => ?_⟩
  · rw [List.sum_cons, Nat.add_assoc]
  · refine hends (i + 1) ?_
    rw [List.take_succ_cons, List.sum_cons, ← Nat.add_assoc, hi]
  · cases i with
    | zero => exact absurd hi hb
    | succ i =>
        refine hends i ?_
        rw [List.take_succ_cons, List.sum_cons, ← Nat.add_assoc] at hi
        exact hi

/-- A read that ends the sector fills it. -/
theorem filled_of_full (hroom : b < secSize) (hb : b ≠ c) (hbs : bs ≠ [])
    (h : readRetry (min c (secSize - b)) client = (bs, client')) (hfull : b + bs.length = secSize) :
    Filled c b client ∧ (readSizes c (secSize - b) client).2 = client' := by
  have hsub : secSize - b - bs.length = 0 := by omega
  rw [Filled, readSizes_next (by omega) hbs h, hsub, readSizes_zero]
  refine ⟨⟨by simpa using hfull, fun i hi => ?_⟩, rfl⟩
  cases i with
  | zero => exact absurd hi hb
  | succ i =>
      simp only [List.take_succ_cons, List.take_nil, List.sum_cons, List.sum_nil] at hi
      omega

/-- A read that ends at `c` does not. -/
theorem not_filled_of_end (hroom : b < secSize) (hbs : bs ≠ [])
    (h : readRetry (min c (secSize - b)) client = (bs, client')) (hend : b + bs.length = c)
    (hc : c < secSize) : ¬Filled c b client := by
  rintro ⟨-, hends⟩
  rw [readSizes_next (by omega) hbs h] at hends
  have heq := hends 1 (by simpa using hend)
  omega

theorem not_filled_of_stalled (hroom : b < secSize)
    (h : readRetry (min c (secSize - b)) client = ([], client')) : ¬Filled c b client := by
  rintro ⟨hsum, -⟩
  rw [readSizes_stalled (by omega) h, List.sum_nil] at hsum
  omega

/-- What fills a buffer comes from the stream. -/
theorem readSizes_le (cap k : ℕ) (client : List Arrival) :
    (readSizes cap k client).1.sum + (Arrival.bytesOf (readSizes cap k client).2).length
      = (Arrival.bytesOf client).length := by
  induction k using Nat.strong_induction_on generalizing client with
  | _ k ih =>
      by_cases hk : k = 0
      · rw [hk, readSizes_zero, List.sum_nil, Nat.zero_add]
      · have hbytes := (readRetry_spec (min cap k) client).1
        rcases hr : readRetry (min cap k) client with ⟨bs, client'⟩
        rw [hr] at hbytes
        by_cases hbs : bs = []
        · rw [hbs] at hr hbytes
          rw [readSizes_stalled hk hr, List.sum_nil, hbytes, List.nil_append, Nat.zero_add]
        · have hpos := List.length_pos_of_ne_nil hbs
          have hrest := ih (k - bs.length) (by omega) client'
          rw [readSizes_next hk hbs hr, List.sum_cons, hbytes, List.length_append]
          simp only
          omega

/-- The sectors a stream fills are no more than its bytes. -/
theorem RunsOn.le {n j m : ℕ} (h : RunsOn n j m client) :
    secSize * j ≤ (Arrival.bytesOf client).length := by
  induction j generalizing m client with
  | zero => simp
  | succ j ih =>
      obtain ⟨⟨hsum, -⟩, hrest⟩ := h
      have hle := readSizes_le (share n m) secSize client
      have hrest' := ih hrest
      rw [Nat.zero_add, Nat.sub_zero] at hsum
      rw [Nat.mul_succ]
      omega

/-- A share of no byte or of one is never run past. -/
theorem not_filled_of_le_one (hc : c ≤ 1) : ¬Filled c 0 client := by
  have hsec : secSize = 4096 := rfl
  rcases hr : readRetry (min c (secSize - 0)) client with ⟨bs, client'⟩
  have hlen := (readRetry_spec (min c (secSize - 0)) client).2.1
  rw [hr] at hlen
  simp only at hlen
  by_cases hbs : bs = []
  · rw [hbs] at hr
    exact not_filled_of_stalled (by omega) hr
  · have hpos := List.length_pos_of_ne_nil hbs
    exact not_filled_of_end (by omega) hbs hr (by omega) (by omega)

/-- Sectors past the end of an image are filled only if its last sector holds more than one byte. -/
theorem RunsOn.share_gt_one {n j m : ℕ} (h : RunsOn n j m client) (hm : m ≤ n / secSize)
    (hj : n / secSize < m + j) : 1 < n % secSize := by
  induction j generalizing m client with
  | zero => omega
  | succ j ih =>
      obtain ⟨hfilled, hrest⟩ := h
      rcases Nat.eq_or_lt_of_le hm with rfl | hlt
      · rw [share, if_pos rfl] at hfilled
        by_contra hle
        exact not_filled_of_le_one (by omega) hfilled
      · exact ih hrest hlt (by omega)

/-! ### Streams without a timeout -/

/-- A sector past its share goes on to the end, if its bytes are there. -/
theorem filled_past {ds : List UInt8} (rest : List Arrival) (hc : 0 < c) (hb : 0 < b) (hbc : b ≠ c)
    (hroom : b < secSize) (hlen : b + ds.length = secSize) :
    Filled c b (ds.map .byte ++ rest) ∧
      (readSizes c (secSize - b) (ds.map .byte ++ rest)).2 = rest := by
  induction hm : ds.length using Nat.strong_induction_on generalizing b ds with
  | _ m ih =>
      obtain ⟨cs, es, rfl, hcs⟩ := exists_split (show min c (secSize - b) ≤ ds.length by omega)
      have hne : cs ≠ [] := by
        rintro rfl
        rw [List.length_nil] at hcs
        omega
      have hread : readRetry (min c (secSize - b)) ((cs ++ es).map .byte ++ rest)
          = (cs, es.map .byte ++ rest) := by
        rw [← hcs, List.map_append, List.append_assoc]
        exact readRetry_ready hne _
      rw [List.length_append] at hlen hm
      by_cases hfull : b + cs.length = secSize
      · have hes : es = [] := List.length_eq_zero_iff.mp (by omega)
        rw [hes, List.map_nil, List.nil_append] at hread
        rw [hes]
        exact filled_of_full hroom hbc hne hread hfull
      · -- the next read starts past the share, so it cannot end at it
        obtain ⟨hfilled, hrest⟩ := ih es.length (by omega) (show 0 < b + cs.length by omega) (by omega)
          (by omega) (show b + cs.length + es.length = secSize by omega) rfl
        refine ⟨(filled_next hroom hbc hne hread).mpr hfilled, ?_⟩
        rw [readSizes_next (by omega) hne hread, Nat.sub_sub]
        exact hrest

/-- Whole sectors that are there are filled one by one. -/
theorem runsOn_ready {n j k m : ℕ} {cs : List UInt8} (rest : List Arrival)
    (hlen : cs.length = secSize * j) (hm : ∀ i < j, m + i ≠ n / secSize) :
    RunsOn n (j + k) m (cs.map .byte ++ rest) ↔ RunsOn n k (m + j) rest := by
  induction j generalizing m cs with
  | zero =>
      obtain rfl : cs = [] := List.length_eq_zero_iff.mp (by rw [hlen, Nat.mul_zero])
      rw [Nat.zero_add, Nat.add_zero, List.map_nil, List.nil_append]
  | succ j ih =>
      rw [Nat.mul_succ] at hlen
      obtain ⟨ds, es, rfl, hds⟩ := exists_split (show secSize ≤ cs.length by omega)
      have hne : ds ≠ [] := by
        rintro rfl
        simp [secSize] at hds
      have hread : readRetry (min secSize (secSize - 0)) ((ds ++ es).map .byte ++ rest)
          = (ds, es.map .byte ++ rest) := by
        rw [Nat.sub_zero, Nat.min_self, ← hds, List.map_append, List.append_assoc]
        exact readRetry_ready hne _
      obtain ⟨hfilled, hrest⟩ := filled_of_full (show 0 < secSize by decide) (by decide) hne hread
        (by rw [Nat.zero_add, hds])
      rw [Nat.sub_zero] at hrest
      rw [List.length_append] at hlen
      have hshare : share n m = secSize := if_neg (hm 0 (by omega))
      rw [Nat.add_right_comm, RunsOn, hshare, hrest, and_iff_right hfilled,
        ih (by omega) fun i hi => by have := hm (i + 1) (by omega); omega]
      rw [Nat.add_right_comm, Nat.add_assoc]

/-- If the image's last bytes are there when they are asked for, the loop stops at its end. -/
theorem not_filled_ready {ds : List UInt8} (rest : List Arrival) (hds : ds ≠ [])
    (hlt : ds.length < secSize) : ¬Filled ds.length 0 (ds.map .byte ++ rest) := by
  have hread : readRetry (min ds.length (secSize - 0)) (ds.map .byte ++ rest) = (ds, rest) := by
    rw [Nat.sub_zero, Nat.min_eq_left hlt.le]
    exact readRetry_ready hds rest
  exact not_filled_of_end (by omega) hds hread (Nat.zero_add _) hlt

/-- **A stream without a timeout never runs past the image.** -/
theorem not_runsOn_ready {n k : ℕ} {bs : List UInt8} (hk : n / secSize < k) (hlen : n ≤ bs.length) :
    ¬RunsOn n k 0 (bs.map .byte) := by
  intro hruns
  have hmod : secSize * (n / secSize) + n % secSize = n := Nat.div_add_mod n secSize
  have hlt : n % secSize < secSize := Nat.mod_lt _ (by decide)
  obtain ⟨cs, ds, rfl, hcs⟩ := exists_split (show secSize * (n / secSize) ≤ bs.length by omega)
  rw [List.length_append] at hlen
  obtain ⟨es, fs, rfl, hes⟩ := exists_split (show n % secSize ≤ ds.length by omega)
  obtain ⟨j, rfl⟩ := Nat.exists_eq_add_of_lt hk
  rw [List.map_append, Nat.add_assoc, runsOn_ready _ hcs (by omega), Nat.zero_add] at hruns
  have hfilled := hruns.1
  rw [share, if_pos rfl, ← hes, List.map_append] at hfilled
  by_cases hes0 : es = []
  · rw [hes0] at hfilled
    exact not_filled_of_le_one (by simp) hfilled
  · exact not_filled_ready _ hes0 (by omega) hfilled

/-- One byte of the last sector, a timeout, and then bytes enough: it is filled past the image. -/
theorem filled_stutter (x : UInt8) (ds : List UInt8) (rest : List Arrival) (hc : 2 ≤ c)
    (hlen : 1 + ds.length = secSize) :
    Filled c 0 (.byte x :: .pause true :: (ds.map .byte ++ rest)) ∧
      (readSizes c secSize (.byte x :: .pause true :: (ds.map .byte ++ rest))).2 = rest := by
  obtain ⟨k, hk⟩ : ∃ k, min c (secSize - 0) = k + 2 := ⟨min c secSize - 2, by simp only [secSize]; omega⟩
  have hread : readRetry (min c (secSize - 0)) (.byte x :: .pause true :: (ds.map .byte ++ rest))
      = ([x], ds.map .byte ++ rest) := by
    rw [hk]
    rfl
  have hroom : 0 < secSize := by decide
  obtain ⟨hfilled, hrest⟩ := filled_past rest (show 0 < c by omega) Nat.one_pos (by omega) (by decide)
    hlen
  refine ⟨(filled_next hroom (by omega) (by simp) hread).mpr hfilled, ?_⟩
  rw [Nat.sub_zero] at hread
  rw [readSizes_next (by omega) (by simp) hread]
  exact hrest

end Reads

/-! ### One sector of the loop -/

/-- The buffer of `b` bytes is flushed with `data` more: the rest of the image, or of the sector. -/
inductive Due (c b : ℕ) (client : List Arrival) (data : List UInt8) : List Arrival → Prop
  | image (client' : List Arrival) : ¬Filled c b client → b + data.length = c → c < secSize →
      Due c b client data client'
  | sector : Filled c b client → b + data.length = secSize →
      Due c b client data (readSizes c (secSize - b) client).2

/-- **Everything the loop can do with one sector** that `c` bytes of the image are left for. -/
inductive SectorSpec (env : OtaEnv) (u : UpdateClass) (w : World) (client : List Arrival)
    (written c : ℕ) : ℕ × UpdateClass × World × List Arrival → Prop
  | stalled (got : ℕ) (client' : List Arrival) : ¬Filled c u.buffer.length client →
      u.buffer.length + got ≠ c → u.buffer.length + got < secSize →
      SectorSpec env u w client written c (wrap32 (written + got), u.abort .stream, w, client')
  | flushFailed (got : ℕ) (data : List UInt8) (client' : List Arrival) (u' : UpdateClass) (w' : World) :
      Due c u.buffer.length client data client' →
      Arrival.bytesOf client = data ++ Arrival.bytesOf client' →
      u.buffer.length + got ≠ c → got < data.length → Flush env (u.fill data) w (false, u', w') →
      SectorSpec env u w client written c (wrap32 (written + got), u', w', client')
  | flushed (data : List UInt8) (client' : List Arrival) (u' : UpdateClass) (w' : World) :
      Due c u.buffer.length client data client' →
      Arrival.bytesOf client = data ++ Arrival.bytesOf client' →
      Flush env (u.fill data) w (true, u', w') →
      SectorSpec env u w client written c
        (u'.writeStreamLoop env w' client' (wrap32 (written + data.length)))

section Sector

variable {env : OtaEnv} {p : Partition} {n c : ℕ} {u : UpdateClass} {w : World}
  {client client' : List Arrival} {bs : List UInt8}

theorem wrap32_add (a b : ℕ) : wrap32 (wrap32 a + b) = wrap32 (a + b) := by
  rw [wrap32, wrap32, wrap32, Nat.mod_add_mod]

theorem fill_fill (bs cs : List UInt8) : (u.fill bs).fill cs = u.fill (bs ++ cs) := by
  simp only [fill, List.append_assoc]

/-- A sector that goes on after a read of `bs`. -/
theorem SectorSpec.after {written : ℕ} {r : ℕ × UpdateClass × World × List Arrival}
    (hroom : u.buffer.length < secSize) (hb : u.buffer.length ≠ c) (hbs : bs ≠ [])
    (hread : readRetry (min c (secSize - u.buffer.length)) client = (bs, client'))
    (hbytes : Arrival.bytesOf client = bs ++ Arrival.bytesOf client')
    (h : SectorSpec env (u.fill bs) w client' (wrap32 (written + bs.length)) c r) :
    SectorSpec env u w client written c r := by
  have hlen : (u.fill bs).buffer.length = u.buffer.length + bs.length := by
    rw [fill_buffer, List.length_append]
  have hfilled := filled_next hroom hb hbs hread
  -- the bytes after `bs` are due exactly if `bs` and those bytes are
  have hdue : ∀ data rest, Due c (u.buffer.length + bs.length) client' data rest →
      Due c u.buffer.length client (bs ++ data) rest := by
    intro data rest hd
    cases hd with
    | image _ hnot hend hc =>
        refine .image _ (mt hfilled.mp hnot) ?_ hc
        rw [List.length_append]
        omega
    | sector hfull hend =>
        have hrest : (readSizes c (secSize - u.buffer.length) client).2
            = (readSizes c (secSize - (u.buffer.length + bs.length)) client').2 := by
          rw [readSizes_next (by omega) hbs hread, Nat.sub_sub]
        rw [← hrest]
        refine .sector (hfilled.mpr hfull) ?_
        rw [List.length_append]
        omega
  cases h with
  | stalled got rest hnot hne hlt =>
      rw [hlen] at hnot hne hlt
      rw [wrap32_add, Nat.add_assoc]
      exact .stalled (bs.length + got) rest (mt hfilled.mp hnot) (by omega) (by omega)
  | flushFailed got data rest u' w' hd hrest hne hlt hflush =>
      rw [hlen] at hd hne
      rw [fill_fill] at hflush
      rw [wrap32_add, Nat.add_assoc]
      refine .flushFailed (bs.length + got) (bs ++ data) rest u' w' (hdue _ _ hd) ?_ (by omega) ?_ hflush
      · rw [hbytes, hrest, List.append_assoc]
      · rw [List.length_append]
        omega
  | flushed data rest u' w' hd hrest hflush =>
      rw [hlen] at hd
      rw [fill_fill] at hflush
      have hcount : wrap32 (wrap32 (written + bs.length) + data.length)
          = wrap32 (written + (bs ++ data).length) := by
        rw [wrap32_add, List.length_append, Nat.add_assoc]
      rw [hcount]
      refine .flushed (bs ++ data) rest u' w' (hdue _ _ hd) ?_ hflush
      rw [hbytes, hrest, List.append_assoc]

/-- The flush test after a read says that the buffer is due. -/
theorem due_of_read (hrun : Running p n u) (hc : c = min u.remaining secSize)
    (hb : u.buffer.length ≠ c) (hbs : bs ≠ [])
    (hread : readRetry (min c (secSize - u.buffer.length)) client = (bs, client'))
    (hle : u.buffer.length + bs.length ≤ secSize) (hdue : (u.fill bs).flushDue = true) :
    Due c u.buffer.length client bs client' := by
  have hroom := hrun.room
  rw [fill_due_iff] at hdue
  by_cases hfull : u.buffer.length + bs.length = secSize
  · obtain ⟨hfilled, hrest⟩ := filled_of_full hroom hb hbs hread hfull
    rw [← hrest]
    exact .sector hfilled hfull
  · have hend : u.buffer.length + bs.length = c := by omega
    exact .image client' (not_filled_of_end hroom hbs hread hend (by omega)) hend (by omega)

/-- **The loop meets the specification of a sector**, whatever is in the buffer already. -/
theorem sector_spec (env : OtaEnv) (w : World) (client : List Arrival) (hrun : Running p n u)
    (hc : c = min u.remaining secSize) (hrem : u.remaining ≠ 0) (hb : u.buffer.length ≠ c) {written : ℕ}
    (hw : written < 2 ^ 32) :
    SectorSpec env u w client written c (u.writeStreamLoop env w client written) := by
  induction hm : secSize - u.buffer.length using Nat.strong_induction_on
    generalizing u client written with
  | _ m ih =>
      have hroom := hrun.room
      have hask : u.bytesToRead = min c (secSize - u.buffer.length) := by
        rw [bytesToRead]
        split_ifs <;> omega
      have hround := round_spec env u w client
      rcases hres : u.round env w client with ⟨u', w', client'⟩ | ⟨got, u', w', client'⟩
      · rw [hres] at hround
        rw [writeStreamLoop_stop hrem hres]
        cases hround with
        | stalled _ hread =>
            rw [hask] at hread
            have hstalled : SectorSpec env u w client written c
                (wrap32 (written + 0), u.abort .stream, w, client') :=
              .stalled 0 client' (not_filled_of_stalled hroom hread) hb hroom
            rwa [Nat.add_zero, wrap32_of_lt hw] at hstalled
        | flushFailed bs _ _ _ hbs hread hdue hflush =>
            obtain ⟨hbytes, -, hle⟩ := hrun.read_le hread
            rw [hask] at hread
            have hfail : SectorSpec env u w client written c (wrap32 (written + 0), u', w', client') :=
              .flushFailed 0 bs client' u' w' (due_of_read hrun hc hb hbs hread hle hdue) hbytes hb
                (List.length_pos_of_ne_nil hbs) hflush
            rwa [Nat.add_zero, wrap32_of_lt hw] at hfail
      · rw [hres] at hround
        rw [writeStreamLoop_next hrem hres]
        cases hround with
        | filled bs _ hbs hread hdue =>
            obtain ⟨hbytes, -, hle⟩ := hrun.read_le hread
            have hnd := not_due_iff.mp hdue
            have hpos := List.length_pos_of_ne_nil hbs
            have hlen : (u.fill bs).buffer.length = u.buffer.length + bs.length := by
              rw [fill_buffer, List.length_append]
            rw [hask] at hread
            refine .after hroom hb hbs hread hbytes
              (ih _ ?_ _ (hrun.fill ?_) hc hrem ?_ (wrap32_lt _) rfl)
            · omega
            · rw [← fill_buffer]
              omega
            · omega
        | flushed bs _ _ _ hbs hread hdue hflush =>
            obtain ⟨hbytes, -, hle⟩ := hrun.read_le hread
            rw [hask] at hread
            exact .flushed bs client' u' w' (due_of_read hrun hc hb hbs hread hle hdue) hbytes hflush

end Sector

/-! ### From sector to sector -/

/-- The loop is at the start of sector `m`: `i` events come before the erase of the first sector, and
`image` is what the stream carries from there on. -/
structure AtSector (p : Partition) (n : ℕ) (image : List UInt8) (i m : ℕ) (u : UpdateClass) (w : World)
    (client : List Arrival) : Prop where
  running : Running p n u
  buffer : u.buffer = []
  progress : u.progress = secSize * m
  callback : u.progressCallback = true
  events : u.flushIndex w = i + 3 * m
  bytes : image.drop (secSize * m) = Arrival.bytesOf client
  magic : image.head? = some imageMagic

namespace AtSector

variable {env : OtaEnv} {p : Partition} {n i m : ℕ} {image data : List UInt8} {u u' : UpdateClass}
  {w w' : World} {client client' : List Arrival} {ok : Bool}

theorem eraseOp_eq (h : AtSector p n image i m u w client) (data : List UInt8) :
    (u.fill data).eraseOp = sectorErase p m := by
  rw [eraseOp, fill_nextAddress, nextAddress, partitionAddress, h.running.partition, h.progress]
  rfl

/-- What a sector of the image, or one past it, has to itself. -/
theorem share_eq (h : AtSector p n image i m u w client) (hn : n < 2 ^ 32)
    (hbound : secSize * (m + 1) < 2 ^ 32) : share n m = min u.remaining secSize := by
  have hprog := h.progress
  have hmod := Nat.div_add_mod n secSize
  rw [share]
  by_cases hpast : u.progress ≤ n
  · rw [h.running.remaining_eq hn hpast]
    split_ifs with hm
    · subst hm
      have hlt : n % secSize < secSize := Nat.mod_lt _ (by decide)
      omega
    · simp only [secSize] at *
      omega
  · rw [h.running.remaining_past (by omega), if_neg]
    · simp only [secSize] at *
      omega
    · rintro rfl
      omega

/-- The first bytes of the stream pass the magic test. -/
theorem magic_first (h : AtSector p n image i m u w client)
    (hbytes : Arrival.bytesOf client = data ++ Arrival.bytesOf client') (hdata : data ≠ [])
    (hfirst : (u.fill data).firstBytes = true) : (u.fill data).buffer.head? = some imageMagic := by
  have hzero : secSize * m = 0 := h.progress.symm.trans ((firstBytes_iff h.running.command).mp hfirst)
  have himage := h.bytes
  rw [hzero, List.drop_zero, hbytes] at himage
  have hmagic := h.magic
  rw [himage, List.head?_append_of_ne_nil _ hdata] at hmagic
  rw [fill_buffer, h.buffer, List.nil_append, hmagic]

theorem writeOp_eq (h : AtSector p n image i m u w client)
    (hbytes : Arrival.bytesOf client = data ++ Arrival.bytesOf client') (hlen : data.length = secSize) :
    (u.fill data).writeOp = sectorWrite p image m := by
  have htake : (image.drop (secSize * m)).take secSize = data := by
    rw [h.bytes, hbytes, ← hlen, List.take_left]
  have hfirst : (u.fill data).firstBytes = true ↔ m = 0 := by
    rw [firstBytes_iff (show (u.fill data).command = .flash from h.running.command), fill_progress,
      h.progress]
    simp only [secSize]
    omega
  rw [writeOp, fill_nextAddress, nextAddress, partitionAddress, h.running.partition, h.progress,
    flushData, fill_buffer, h.buffer, List.nil_append, sectorWrite, htake]
  by_cases hm : m = 0
  · rw [if_pos (hfirst.mpr hm), if_pos hm]
    rfl
  · rw [if_neg (mt hfirst.mp hm), if_neg hm]
    rfl

/-- **A whole sector is flushed exactly if the flash takes it**, and then the next one follows. -/
theorem flushed_iff (h : AtSector p n image i m u w client)
    (hbytes : Arrival.bytesOf client = data ++ Arrival.bytesOf client') (hlen : data.length = secSize)
    (hbound : secSize * (m + 1) < 2 ^ 32) (hflush : Flush env (u.fill data) w (ok, u', w')) :
    (ok = true ↔ env.Takes p image i m) ∧
      (ok = true → AtSector p n image i (m + 1) u' w' client') := by
  have hindex : (u.fill data).flushIndex w = i + 3 * m := h.events
  have hdata : data ≠ [] := by
    rintro rfl
    simp [secSize] at hlen
  have hmagic := h.magic_first hbytes hdata
  have herase := h.eraseOp_eq data
  have hwrite := h.writeOp_eq hbytes hlen
  unfold OtaEnv.Takes
  rw [← hindex, ← herase, ← hwrite]
  cases hflush with
  | badMagic hfirst hbad => exact absurd (hmagic hfirst) hbad
  | eraseFailed k _ he => simp [he]
  | writeFailed k _ he hw => simp [hw]
  | done _ he hw =>
      refine ⟨by simp [he, hw], fun _ => ?_⟩
      have hprog : (u.fill data).flushed.progress = secSize * (m + 1) := by
        rw [flushed_progress, fill_progress, fill_buffer, h.buffer, List.nil_append, hlen, h.progress,
          ← Nat.mul_succ]
        exact wrap32_of_lt hbound
      refine ⟨h.running.flushed, rfl, hprog, h.callback, ?_, ?_, h.magic⟩
      · have hstart : (u.fill data).flushed.startReports = [] := by
          rw [startReports, hprog, if_neg (by simp [secSize])]
        have hreport : (u.fill data).flushed.reports.length = 1 := by
          rw [reports, if_pos (show (u.fill data).flushed.progressCallback = true from h.callback)]
          rfl
        rw [flushIndex] at hindex
        rw [flushIndex, hstart, World.run_trace, List.length_append, List.length_append,
          List.length_append, hreport]
        simp only [List.length_cons, List.length_nil]
        omega
      · rw [Nat.mul_succ, ← List.drop_drop, h.bytes, hbytes, ← hlen, List.drop_left]

/-- A flush at the end of the image completes it. -/
theorem image_complete (h : AtSector p n image i m u w client) (hn : n < 2 ^ 32)
    (hend : data.length = share n m) (hlt : share n m < secSize)
    (hflush : Flush env (u.fill data) w (true, u', w')) :
    Running p n u' ∧ u'.progress = n ∧ u'.remaining = 0 := by
  have hmod : secSize * (n / secSize) + n % secSize = n := Nat.div_add_mod n secSize
  have hlast : m = n / secSize := by
    by_contra hm
    rw [share, if_neg hm] at hlt
    omega
  have hprog := h.progress
  rw [hlast] at hprog
  rw [hlast, share, if_pos rfl] at hend
  obtain ⟨rfl, -⟩ := hflush.done_eq
  have hdone : (u.fill data).flushed.progress = n := by
    rw [flushed_progress, fill_progress, fill_buffer, h.buffer, List.nil_append, wrap32_of_lt (by omega)]
    omega
  have hrun : Running p n (u.fill data).flushed := h.running.flushed
  refine ⟨hrun, hdone, ?_⟩
  rw [hrun.remaining_eq hn hdone.le, hdone, Nat.sub_self]

end AtSector

end EspFirmware
