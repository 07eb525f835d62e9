import EspFirmware.Lib.Printf
import EspFirmware.Overrun
import Mathlib.Data.Nat.Digits.Lemmas

/-!
# The progress of a download

`_writeBuffer` calls `onDownloadProgress` before the first sector and after every sector, and the callback
turns the bytes written into a percentage that it does not check.  The overrun of the last sector lets
`_progress` pass `_size`, `remaining()` wraps, and from then on the loop writes whole sectors for as long
as bytes arrive and the chip has room: the percentage goes past 100 as soon as the sectors written make up
101 % of the image.

* `SoundCalls` — the calls of one download are as they should be;
* `CallsUpTo` — the calls never fall back, and the last one is where the updater stands;
* `PassesFrom` — from a sector on, the stream fills the sectors that make up 101 % of the image, no read ends
  at the end of the image, and the flash takes them;
* `writeStreamLoop_reported` — the loop reports 101 % exactly then, by induction over its sectors;
* `progressSound_iff` — the exact condition for one download.
-/

namespace EspFirmware

open NorFlash UpdateClass CString

/-- The arguments of a call of `onDownloadProgress`. -/
def Event.progressCall : Event → Option (ℕ × ℕ)
  | .progress done size => some (done, size)
  | _ => none

/-- The calls of `onDownloadProgress` among the events, in order. -/
def progressCalls (es : List Event) : List (ℕ × ℕ) := es.filterMap Event.progressCall

/-- What `DisplayPercentDownloaded` prints, `"%d%% downloaded"`, without the terminator. -/
def displayPercentDownloaded (percComplete : ℕ) : List UInt8 :=
  Printf.Item.signed (BitVec.ofNat 32 percComplete) ++ ascii "% downloaded"

/-- The calls made during a download of `n` bytes are sound; `written` is what `writeStream` returned. -/
structure SoundCalls (n : ℕ) (written : Option ℕ) (calls : List (ℕ × ℕ)) : Prop where
  size : ∀ c ∈ calls, c.2 ≠ 0
  exact : ∀ c ∈ calls, c.1 * 100 < 2 ^ 32
  bounded : ∀ c ∈ calls, onDownloadProgress c.1 c.2 ≤ 100
  fits : ∀ c ∈ calls, (displayPercentDownloaded (onDownloadProgress c.1 c.2)).length + 1 ≤ 20
  monotone : calls.Pairwise fun c d => onDownloadProgress c.1 c.2 ≤ onDownloadProgress d.1 d.2
  last : written = some n → ∃ c, calls.getLast? = some c ∧ onDownloadProgress c.1 c.2 = 100

/-- The least number of sectors that make up 101 % of `n` bytes. -/
def overrunSectors (n : ℕ) : ℕ := (101 * n + 409599) / 409600

/-- From sector `m` on, the stream fills and the flash takes the sectors before `last`; `i` events come
before the erase of the first, and `image` is the whole stream. -/
structure PassesFrom (env : OtaEnv) (p : Partition) (n : ℕ) (image : List UInt8) (i last m : ℕ)
    (client : List Arrival) : Prop where
  stream : RunsOn n (last - m) m client
  sectors : ∀ k, m ≤ k → k < last → env.Takes p image i k

variable {env : OtaEnv} {p : Partition} {n : ℕ} {w₀ : World}

/-! ### One percentage -/

theorem below_overrun {m : ℕ} (hm : m < overrunSectors n) : secSize * m * 100 < 101 * n := by
  simp only [secSize, overrunSectors] at *
  omega

theorem overrunSectors_le (n : ℕ) : secSize * overrunSectors n ≤ 2 * n + secSize := by
  simp only [secSize, overrunSectors]
  omega

theorem div_lt_overrunSectors (hpos : 0 < n) : n / secSize < overrunSectors n := by
  simp only [secSize, overrunSectors]
  omega

theorem onDownloadProgress_eq {done : ℕ} (h : done * 100 < 2 ^ 32) :
    onDownloadProgress done n = done * 100 / n := by
  rw [onDownloadProgress, wrap32_of_lt h]

/-- A percentage of at most three digits leaves room in `percentDownloadedText`. -/
theorem displayPercentDownloaded_fits {perc : ℕ} (h : perc ≤ 100) :
    (displayPercentDownloaded perc).length + 1 ≤ 20 := by
  have hint : (BitVec.ofNat 32 perc).toInt = perc := by
    rw [BitVec.toInt_eq_toNat_of_lt, BitVec.toNat_ofNat]
    · congr 1
      omega
    · rw [BitVec.toNat_ofNat]
      omega
  have hdigits : (Printf.numeral Printf.lower 10 perc).length ≤ 3 := by
    rw [Printf.numeral]
    split_ifs with h0
    · decide
    · rw [List.length_map, List.length_reverse, Nat.digits_length_le_iff (by decide)]
      omega
  have htext : (ascii "% downloaded").length = 12 := by decide
  rw [displayPercentDownloaded, Printf.Item.signed, hint, if_neg (by omega), Int.natAbs_natCast,
    List.length_append, htext]
  omega

/-! ### The calls so far -/

/-- The calls made since `w₀` announce `n` bytes and never fall back, and the last one says `done`. -/
def CallsUpTo (n : ℕ) (w₀ w : World) (done : ℕ) : Prop :=
  ∃ es, ∃ ds : List ℕ, w = w₀.run es ∧ progressCalls es = ds.map (·, n) ∧ ds.Pairwise (· ≤ ·) ∧
    (∀ d ∈ ds, d ≤ done) ∧ (0 < done → ds.getLast? = some done)

namespace CallsUpTo

variable {w w' : World} {k : ℕ}

/-- No call yet. -/
theorem of_no_call {es : List Event} (h : progressCalls es = []) : CallsUpTo n w₀ (w₀.run es) 0 :=
  ⟨es, [], rfl, h, .nil, by simp, by simp⟩

theorem call {d : ℕ} (h : CallsUpTo n w₀ w k) (hle : k ≤ d) :
    CallsUpTo n w₀ (w.step (.progress d n)) d := by
  obtain ⟨es, ds, rfl, hcalls, hsorted, hmax, -⟩ := h
  have hbelow : ∀ a ∈ ds, a ≤ d := fun a ha => (hmax a ha).trans hle
  refine ⟨es ++ [.progress d n], ds ++ [d], ?_, ?_, ?_, ?_, fun _ => ?_⟩
  · rw [World.run_append]
    rfl
  · rw [progressCalls, List.filterMap_append, ← progressCalls, hcalls, List.map_append]
    rfl
  · rw [List.pairwise_append]
    exact ⟨hsorted, List.pairwise_singleton _ _, by simpa using hbelow⟩
  · intro a ha
    rcases List.mem_append.mp ha with hd | hd
    · exact hbelow a hd
    · rw [List.mem_singleton.mp hd]
  · rw [List.getLast?_append]
    rfl

theorem silent {e : Event} (h : CallsUpTo n w₀ w k) (he : e.progressCall = none) :
    CallsUpTo n w₀ (w.step e) k := by
  obtain ⟨es, ds, rfl, hcalls, hrest⟩ := h
  refine ⟨es ++ [e], ds, ?_, ?_, hrest⟩
  · rw [World.run_append]
    rfl
  · rw [progressCalls, List.filterMap_append, ← progressCalls, hcalls, List.filterMap_cons_none he]
    simp

theorem op (h : CallsUpTo n w₀ w k) (o : FlashOp) (r : Outcome) :
    CallsUpTo n w₀ (w.step (.op o r)) k := h.silent rfl

/-- What comes after the loop makes no call. -/
theorem closing (h : CallsUpTo n w₀ w k) (hext : World.Extends Event.Closing w w') :
    CallsUpTo n w₀ w' k := by
  obtain ⟨es, rfl, hes⟩ := hext
  induction es generalizing w with
  | nil => exact h
  | cons e es ih =>
      have he : e.progressCall = none := by
        have hclosing := hes e List.mem_cons_self
        cases e with
        | progress done size => exact hclosing.elim
        | _ => rfl
      exact ih (h.silent he) fun d hd => hes d (List.mem_cons_of_mem _ hd)

variable {u u' : UpdateClass}

theorem start (h : CallsUpTo n w₀ w u.progress) (hsize : u.size = n)
    (hcall : u.progressCallback = true) : CallsUpTo n w₀ (w.run u.startReports) u.progress := by
  rw [startReports, reports, if_pos hcall]
  split_ifs
  · rw [hsize]
    exact h.call le_rfl
  · exact h

/-- A flush that fails calls back at most once more, for the byte zero. -/
theorem flushFailed (h : CallsUpTo n w₀ w u.progress) (hsize : u.size = n)
    (hcall : u.progressCallback = true) (hflush : Flush env u w (false, u', w')) :
    CallsUpTo n w₀ w' u.progress := by
  have hstart := h.start hsize hcall
  cases hflush with
  | badMagic => exact h
  | eraseFailed =>
      rw [World.run_append]
      exact hstart.op _ _
  | writeFailed =>
      rw [World.run_append]
      exact (hstart.op _ _).op _ _

/-- A flush that succeeds calls back with the new `_progress`. -/
theorem flushed (h : CallsUpTo n w₀ w u.progress) (hsize : u.size = n)
    (hcall : u.progressCallback = true) (hflush : Flush env u w (true, u', w'))
    (hle : u.progress ≤ u'.progress) : CallsUpTo n w₀ w' u'.progress := by
  obtain ⟨rfl, -, -, rfl⟩ := hflush.done_eq
  have hreports : u.flushed.reports = [.progress u.flushed.progress n] := by
    rw [reports, if_pos (show u.flushed.progressCallback = true from hcall), flushed_size, hsize]
  have hops := ((h.start hsize hcall).op u.eraseOp .ok).op u.writeOp .ok
  rw [hreports, World.run_append, World.run_append]
  exact hops.call hle

/-- Calls that stay below 101 % are sound. -/
theorem sound {written : Option ℕ} {es : List Event} (h : CallsUpTo n w₀ (w₀.run es) k) (hpos : 0 < n)
    (hmax : n ≤ 2 ^ 24) (hlt : k * 100 < 101 * n) (hlast : written = some n → k = n) :
    SoundCalls n written (progressCalls es) := by
  obtain ⟨fs, ds, hrun, hcalls, hsorted, hbelow, hend⟩ := h
  rw [World.run_injective hrun, hcalls]
  have hmem : ∀ c ∈ ds.map (·, n), c.2 = n ∧ c.1 ≤ k := by
    intro c hc
    obtain ⟨d, hd, rfl⟩ := List.mem_map.mp hc
    exact ⟨rfl, hbelow d hd⟩
  have hbound : ∀ c ∈ ds.map (·, n), onDownloadProgress c.1 c.2 ≤ 100 := by
    intro c hc
    obtain ⟨hsize, hle⟩ := hmem c hc
    rw [hsize, onDownloadProgress_eq (by omega)]
    exact Nat.le_of_lt_succ (Nat.div_lt_of_lt_mul (by omega))
  refine ⟨fun c hc => ?_, fun c hc => ?_, hbound,
    fun c hc => displayPercentDownloaded_fits (hbound c hc), ?_, fun hw => ?_⟩
  · rw [(hmem c hc).1]
    omega
  · have hle := (hmem c hc).2
    omega
  · rw [List.pairwise_map]
    refine hsorted.imp_of_mem fun {a b} ha hb hab => ?_
    have hbk := hbelow b hb
    rw [onDownloadProgress_eq (by omega), onDownloadProgress_eq (by omega)]
    exact Nat.div_le_div_right (by omega)
  · have hk := hlast hw
    refine ⟨(n, n), ?_, ?_⟩
    · rw [List.getLast?_map, hend (by omega), hk]
      rfl
    · rw [onDownloadProgress_eq (by omega), Nat.mul_div_cancel_left _ hpos]

end CallsUpTo

/-! ### The loop -/

/-- What the loop leaves, with `written` returned, of a download whose progress is sound. -/
def ReportingEnd (n : ℕ) (w₀ : World) (written : ℕ) (w : World) : Prop :=
  ∃ done, CallsUpTo n w₀ w done ∧ done * 100 < 101 * n ∧ (written = n → done = n)

section Loop

variable {i m : ℕ} {image : List UInt8} {u : UpdateClass} {w : World} {client : List Arrival}

theorem PassesFrom.filled {last : ℕ} (h : PassesFrom env p n image i last m client) (hm : m < last) :
    Filled (share n m) 0 client := by
  have hstream := h.stream
  rw [show last - m = last - (m + 1) + 1 by omega] at hstream
  exact hstream.1

/-- With sector `m` filled and taken, the rest decides. -/
theorem passesFrom_succ {last : ℕ} (hm : m < last) (hfilled : Filled (share n m) 0 client)
    (htakes : env.Takes p image i m) :
    PassesFrom env p n image i last m client ↔
      PassesFrom env p n image i last (m + 1) (readSizes (share n m) secSize client).2 := by
  have hsub : last - m = last - (m + 1) + 1 := by omega
  constructor
  · rintro ⟨hstream, hsectors⟩
    rw [hsub] at hstream
    exact ⟨hstream.2, fun k hk => hsectors k (by omega)⟩
  · rintro ⟨hstream, hsectors⟩
    refine ⟨?_, fun k hk hlt => ?_⟩
    · rw [hsub]
      exact ⟨hfilled, hstream⟩
    · rcases Nat.eq_or_lt_of_le hk with rfl | hk
      · exact htakes
      · exact hsectors k hk hlt

/-- Bytes that do not end at the share of their sector are not the whole image. -/
theorem not_complete {got : ℕ} (hgot : got < secSize) (hne : got ≠ share n m) :
    secSize * m + got ≠ n := by
  have hmod : secSize * (n / secSize) + n % secSize = n := Nat.div_add_mod n secSize
  intro heq
  rw [share] at hne
  split_ifs at hne with hm
  · rw [hm] at heq
    omega
  · refine hm ?_
    rw [← heq, Nat.mul_add_div (by decide), Nat.div_eq_of_lt hgot, Nat.add_zero]

/-- A successful flush calls back last with the new `_progress`. -/
theorem flush_reports {u' : UpdateClass} {w' : World} {P : Event → Prop}
    (hcall : u.progressCallback = true) (hflush : Flush env u w (true, u', w'))
    (hP : ¬P (.progress u'.progress u'.size)) : ¬World.Extends P w w' := by
  obtain ⟨rfl, -, -, rfl⟩ := hflush.done_eq
  have hreports : u.flushed.reports = [.progress u.flushed.progress u.flushed.size] :=
    if_pos (show u.flushed.progressCallback = true from hcall)
  intro hext
  refine hP (World.Extends.run_iff.mp hext _ ?_)
  rw [hreports]
  simp

/-- The loop is at the start of sector `m`, below 101 %, and the calls made so far are sound. -/
structure Reporting (p : Partition) (n : ℕ) (image : List UInt8) (i m : ℕ) (w₀ : World) (u : UpdateClass)
    (w : World) (client : List Arrival) : Prop where
  sector : AtSector p n image i m u w client
  calls : CallsUpTo n w₀ w u.progress
  below : m < overrunSectors n

/-- What the loop may report from sector `m` on, if it leaves `r`. -/
def ReportedFrom (env : OtaEnv) (p : Partition) (n : ℕ) (image : List UInt8) (i m : ℕ) (w₀ w : World)
    (client : List Arrival) (r : ℕ × UpdateClass × World × List Arrival) : Prop :=
  (¬PassesFrom env p n image i (overrunSectors n) m client → ReportingEnd n w₀ r.1 r.2.2.1) ∧
    (PassesFrom env p n image i (overrunSectors n) m client →
      ¬World.Extends (· ≠ .progress (secSize * overrunSectors n) n) w r.2.2.1)

variable {u' : UpdateClass} {w' : World} {client' : List Arrival} {data : List UInt8} {written got : ℕ}

theorem ReportedFrom.of_sound {r : ℕ × UpdateClass × World × List Arrival}
    (hnot : ¬PassesFrom env p n image i (overrunSectors n) m client)
    (hend : ReportingEnd n w₀ r.1 r.2.2.1) : ReportedFrom env p n image i m w₀ w client r :=
  ⟨fun _ => hend, fun hpass => absurd hpass hnot⟩

namespace Reporting

/-- The next sector's end is within the counter, and less than 101 % are there. -/
theorem bounds (h : Reporting p n image i m w₀ u w client) (hmax : n ≤ 2 ^ 24) :
    secSize * (m + 1) < 2 ^ 32 ∧ u.progress + secSize < 2 ^ 32 ∧ u.progress * 100 < 101 * n := by
  have hle : secSize * (m + 1) ≤ secSize * overrunSectors n := Nat.mul_le_mul_left _ h.below
  have hM := overrunSectors_le n
  have hsec : secSize = 4096 := rfl
  have hbelow := below_overrun h.below
  have hprog := h.sector.progress
  have hmul : secSize * (m + 1) = secSize * m + secSize := Nat.mul_succ _ _
  rw [← hprog] at hbelow hmul
  exact ⟨by omega, by omega, hbelow⟩

/-- A loop that stops within a sector, without having completed the image, has reported sound calls. -/
theorem stopped_end (h : Reporting p n image i m w₀ u w client) (hmax : n ≤ 2 ^ 24)
    (hw : written = secSize * m) (hcalls : CallsUpTo n w₀ w' u.progress) (hgot : got < secSize)
    (hne : got ≠ share n m) : ReportingEnd n w₀ (wrap32 (written + got)) w' := by
  obtain ⟨-, hbound, hbelow⟩ := h.bounds hmax
  have hpart := not_complete hgot hne
  have hprog := h.sector.progress
  refine ⟨u.progress, hcalls, hbelow, fun hn => ?_⟩
  rw [wrap32_of_lt (by omega)] at hn
  omega

/-- The image ends with its last sector. -/
theorem reported_done (h : Reporting p n image i m w₀ u w client) (hpos : 0 < n) (hmax : n ≤ 2 ^ 24)
    (hrem : u.remaining = 0) : ReportedFrom env p n image i m w₀ w client (written, u, w, client) := by
  obtain ⟨hnext, hbound, hbelow⟩ := h.bounds hmax
  have hend : u.progress = n := by
    by_cases hpast : u.progress ≤ n
    · rw [h.sector.running.remaining_eq (by omega) hpast] at hrem
      omega
    · rw [h.sector.running.remaining_past (by omega)] at hrem
      omega
  have hc := h.sector.share_eq (by omega) hnext
  have hnot : ¬Filled (share n m) 0 client := not_filled_of_le_one (by omega)
  exact .of_sound (fun hpass => hnot (hpass.filled h.below)) ⟨n, hend ▸ h.calls, by omega, fun _ => rfl⟩

/-- A flush that fails ends the calls; it cannot be that of a sector the flash takes. -/
theorem reported_flushFailed (h : Reporting p n image i m w₀ u w client) (hmax : n ≤ 2 ^ 24)
    (hw : written = secSize * m) (hdue : Due (share n m) 0 client data client')
    (hbytes : Arrival.bytesOf client = data ++ Arrival.bytesOf client') (hne : got ≠ share n m)
    (hlt : got < data.length) (hflush : Flush env (u.fill data) w (false, u', w')) :
    ReportedFrom env p n image i m w₀ w client (wrap32 (written + got), u', w', client') := by
  obtain ⟨hnext, -, -⟩ := h.bounds hmax
  have hc := h.sector.share_eq (by omega) hnext
  have hdata : data.length ≤ secSize := by
    cases hdue with
    | image _ _ hend hlast => omega
    | sector _ hlen => omega
  have hnot : ¬PassesFrom env p n image i (overrunSectors n) m client := by
    intro hpass
    cases hdue with
    | image _ hnot => exact hnot (hpass.filled h.below)
    | sector _ hlen =>
        rw [Nat.zero_add] at hlen
        have htakes := (h.sector.flushed_iff hbytes hlen hnext hflush).1
        exact absurd (htakes.mpr (hpass.sectors m le_rfl h.below)) (by decide)
  have hcalls := CallsUpTo.flushFailed (u := u.fill data) h.calls h.sector.running.size
    h.sector.callback hflush
  exact .of_sound hnot (h.stopped_end hmax hw hcalls (by omega) hne)

/-- A flush at the end of the image ends the loop. -/
theorem reported_image (h : Reporting p n image i m w₀ u w client) (hpos : 0 < n) (hmax : n ≤ 2 ^ 24)
    (hnot : ¬Filled (share n m) 0 client) (hend : data.length = share n m) (hlt : share n m < secSize)
    (hflush : Flush env (u.fill data) w (true, u', w')) :
    ReportedFrom env p n image i m w₀ w client (u'.writeStreamLoop env w' client' written) := by
  obtain ⟨hnext, hbound, -⟩ := h.bounds hmax
  obtain ⟨-, hdone, hrem⟩ := h.sector.image_complete (by omega) hend hlt hflush
  have hle : u.progress ≤ n := by
    by_contra hpast
    have hr := h.sector.running.remaining_past (by omega)
    have hc := h.sector.share_eq (by omega) hnext
    have hsec : secSize = 4096 := rfl
    omega
  have hcalls := CallsUpTo.flushed (u := u.fill data) h.calls h.sector.running.size h.sector.callback
    hflush (by rw [fill_progress]; omega)
  rw [writeStreamLoop, if_pos hrem]
  exact .of_sound (fun hpass => hnot (hpass.filled h.below)) ⟨n, hdone ▸ hcalls, by omega, fun _ => rfl⟩

/-- A whole sector: it reports 101 %, or the loop is at the start of the next one. -/
theorem reported_sector (h : Reporting p n image i m w₀ u w client) (hmax : n ≤ 2 ^ 24)
    (hfilled : Filled (share n m) 0 client) (hlen : data.length = secSize)
    (hbytes : Arrival.bytesOf client
      = data ++ Arrival.bytesOf (readSizes (share n m) secSize client).2)
    (hflush : Flush env (u.fill data) w (true, u', w'))
    (hrest : Reporting p n image i (m + 1) w₀ u' w' (readSizes (share n m) secSize client).2 →
      ReportedFrom env p n image i (m + 1) w₀ w' (readSizes (share n m) secSize client).2
        (u'.writeStreamLoop env w' (readSizes (share n m) secSize client).2 written)) :
    ReportedFrom env p n image i m w₀ w client
      (u'.writeStreamLoop env w' (readSizes (share n m) secSize client).2 written) := by
  obtain ⟨hnext, -, -⟩ := h.bounds hmax
  obtain ⟨htakes, hat⟩ := h.sector.flushed_iff hbytes hlen hnext hflush
  have hprog := h.sector.progress
  have hprog' := (hat rfl).progress
  have hcalls := CallsUpTo.flushed (u := u.fill data) h.calls h.sector.running.size h.sector.callback
    hflush (by rw [fill_progress, hprog', hprog, Nat.mul_succ]; omega)
  have hext := writeStreamLoop_extends env u' w' (readSizes (share n m) secSize client).2 written
  have hsame := passesFrom_succ h.below hfilled (htakes.mp rfl)
  rcases Nat.eq_or_lt_of_le (Nat.succ_le_of_lt h.below) with hlast | hmore
  · have hpass : PassesFrom env p n image i (overrunSectors n) (m + 1)
        (readSizes (share n m) secSize client).2 := by
      rw [← hlast]
      refine ⟨?_, fun k hk hlt => absurd hlt (by omega)⟩
      rw [Nat.sub_self]
      trivial
    refine ⟨fun hnot => absurd (hsame.mpr hpass) hnot, fun _ => ?_⟩
    have hreport := flush_reports (P := (· ≠ .progress (secSize * overrunSectors n) n))
      (u := u.fill data) h.sector.callback hflush
    rw [hprog', (hat rfl).running.size, ← hlast] at hreport
    exact not_extends_after (hlast ▸ hreport (not_not.mpr rfl)) hflush.quiet hext
  · obtain ⟨hend, hout⟩ := hrest ⟨hat rfl, hcalls, hmore⟩
    refine ⟨fun hnot => hend fun hpass => hnot (hsame.mpr hpass), fun hpass hall => ?_⟩
    exact hout (hsame.mp hpass) (hall.parts hflush.quiet hext).2

end Reporting

/-- **The loop reports 101 % exactly if the rest of the stream passes it**, from any sector on. -/
theorem writeStreamLoop_reported (env : OtaEnv) (h : Reporting p n image i m w₀ u w client) (hpos : 0 < n)
    (hmax : n ≤ 2 ^ 24) (hw : written = secSize * m) :
    ReportedFrom env p n image i m w₀ w client (u.writeStreamLoop env w client written) := by
  induction hd : overrunSectors n - m using Nat.strong_induction_on
    generalizing m u w client written with
  | _ d ih =>
      have hat := h.sector
      have hbelow := h.below
      obtain ⟨hnext, hbound, -⟩ := h.bounds hmax
      have hc := hat.share_eq (by omega) hnext
      have hbuf : u.buffer.length = 0 := by rw [hat.buffer, List.length_nil]
      have hprog := hat.progress
      have hsec : secSize = 4096 := rfl
      by_cases hrem : u.remaining = 0
      · rw [writeStreamLoop, if_pos hrem]
        exact h.reported_done hpos hmax hrem
      · have hspec := sector_spec env w client hat.running hc hrem (by omega)
          (show written < 2 ^ 32 by omega)
        generalize u.writeStreamLoop env w client written = r at hspec ⊢
        cases hspec with
        | stalled got client' hnot hne hlt =>
            rw [hbuf] at hnot
            rw [hbuf, Nat.zero_add] at hne hlt
            exact .of_sound (fun hpass => hnot (hpass.filled hbelow)) (h.stopped_end hmax hw h.calls hlt hne)
        | flushFailed got data client' u' w' hdue hbytes hne hlt hflush =>
            rw [hbuf] at hdue
            rw [hbuf, Nat.zero_add] at hne
            exact h.reported_flushFailed hmax hw hdue hbytes hne hlt hflush
        | flushed data client' u' w' hdue hbytes hflush =>
            rw [hbuf] at hdue
            cases hdue with
            | image _ hnot hend hlt =>
                exact h.reported_image hpos hmax hnot (by omega) hlt hflush
            | sector hfilled hlen =>
                rw [Nat.zero_add] at hlen
                refine h.reported_sector hmax hfilled hlen hbytes hflush fun h' => ?_
                refine ih _ (show overrunSectors n - (m + 1) < d by omega) h' ?_ rfl
                rw [wrap32_of_lt (by omega), hw, hlen, Nat.mul_succ]

end Loop

/-! ### One download -/

/-- The progress of a download of `n` bytes passes 100 %: the peek finds the magic, no read ends at the end
of the image, and the loop goes on to the sectors that make up 101 %; `i` events come before the erase of
the first. -/
structure PassesImage (env : OtaEnv) (p : Partition) (n i : ℕ) (client : List Arrival) : Prop where
  magic : (Arrival.peek client).1 = some imageMagic
  sectors : PassesFrom env p n (Arrival.bytesOf client) i (overrunSectors n) 0 (Arrival.peek client).2

section Download

variable {u : UpdateClass} {w : World}

/-- **What `writeStream` reports**, for every stream. -/
theorem writeStream_reported (env : OtaEnv) (client : List Arrival) (hrun : Running p n u)
    (hprog : u.progress = 0) (hbuf : u.buffer = []) (hcall : u.progressCallback = true)
    (hrep : CallsUpTo n w₀ w 0) (hpos : 0 < n) (hmax : n ≤ 2 ^ 24) :
    (¬PassesImage env p n (w.trace.length + 1) client →
        ReportingEnd n w₀ (u.writeStream env w client).1 (u.writeStream env w client).2.2.1) ∧
      (PassesImage env p n (w.trace.length + 1) client →
        ¬World.Extends (· ≠ .progress (secSize * overrunSectors n) n) w
          (u.writeStream env w client).2.2.1) := by
  rw [hrun.writeStream_eq hpos]
  split_ifs with hmagic
  · have hstart : Reporting p n (Arrival.bytesOf client) (w.trace.length + 1) 0 w₀ u w
        (Arrival.peek client).2 :=
      ⟨atSector_zero hrun hprog hbuf hcall hmagic, hprog.symm ▸ hrep,
        (Nat.zero_le _).trans_lt (div_lt_overrunSectors hpos)⟩
    obtain ⟨hend, hout⟩ := writeStreamLoop_reported env hstart hpos hmax (Nat.mul_zero secSize).symm
    exact ⟨fun hnot => hend fun hpass => hnot ⟨hmagic, hpass⟩, fun hpass => hout hpass.sectors⟩
  · exact ⟨fun _ => ⟨0, hrep, by omega, fun h => h⟩, fun hpass => absurd hpass.magic hmagic⟩

/-- The calls made during one download of `n` bytes are sound. -/
def ProgressSound (env : OtaEnv) (n : ℕ) (headerData : ResponseHeaderData) (u : UpdateClass) (w : World)
    (client : List Arrival) : Prop :=
  ∀ es, (processFirmwareUpdateResponse env headerData u w client).world = w.run es →
    SoundCalls n (writeStreamReturned env headerData u w client) (progressCalls es)

theorem SoundCalls.not_passed {written : Option ℕ} {calls : List (ℕ × ℕ)} (hpos : 0 < n)
    (h : SoundCalls n written calls) : (secSize * overrunSectors n, n) ∉ calls := by
  intro hcall
  have hle := h.bounded _ hcall
  rw [onDownloadProgress_eq (h.exact _ hcall)] at hle
  have hlt := (Nat.div_lt_iff_lt_mul hpos).mp (Nat.lt_succ_of_le hle)
  simp only [secSize, overrunSectors] at hlt
  omega

/-- A download whose stream passes the image reports 101 %. -/
theorem processFirmwareUpdateResponse_reports {headerData : ResponseHeaderData} (w : World)
    (client : List Arrival) (hacc : Accepted headerData) (hcl : headerData.contentLength.1 = n)
    (hidle : u.isRunning = false) (hpart : env.nextUpdatePartition = some p)
    (hmalloc : env.mallocOk = true) (hfits : n ≤ p.size) (hmax : p.size ≤ 2 ^ 24) :
    (PassesImage env p n (w.trace.length + 3) (skipLineFeed client) →
        ¬World.Extends (· ≠ .progress (secSize * overrunSectors n) n) w
          (processFirmwareUpdateResponse env headerData u w client).world) ∧
      (¬PassesImage env p n (w.trace.length + 3) (skipLineFeed client) →
        ProgressSound env n headerData u w client) := by
  have hmin := hacc.1
  have hpos : 0 < n := by omega
  have hsize : u.size = 0 := by simpa [isRunning] using hidle
  rcases processFirmwareUpdateResponse_cases env w client hacc hsize hcl with
    ⟨u', -, hwhy, -, -⟩ | ⟨p', u', hpart', -, hrun, hprog, hbuf, hcall, hret, hd⟩
  · rw [hwhy p hpart hfits] at hmalloc
    cases hmalloc
  · obtain rfl : p = p' := by simpa [hpart] using hpart'
    have hstart : World.Extends Event.Quiet w (w.run [.beginCalled n, .begun p.address n]) :=
      (World.Extends.refl _ w).run (by simp [Event.Quiet])
    have hcount : (w.run [.beginCalled n, .begun p.address n]).trace.length + 1 = w.trace.length + 3 := by
      rw [World.run_trace, List.length_append]
      rfl
    have hbegun : CallsUpTo n w (w.run [.beginCalled n, .begun p.address n]) 0 := .of_no_call rfl
    obtain ⟨hend, hout⟩ := writeStream_reported env (skipLineFeed client) hrun hprog hbuf hcall hbegun
      hpos (by omega)
    rw [hcount] at hend hout
    have hloop := writeStream_extends env u' (w.run [.beginCalled n, .begun p.address n])
      (skipLineFeed client)
    have hclose := download_extends env headerData.contentLength u'
      (w.run [.beginCalled n, .begun p.address n]) (skipLineFeed client)
    refine ⟨fun hpass hall => hout hpass ?_, fun hnot es hes => ?_⟩
    · rw [hd] at hall
      have hafter := (hall.parts hstart (hloop.trans (hclose.mono fun _ => Event.Closing.ongoing))).2
      exact (hafter.parts hloop hclose).1
    · obtain ⟨done, hrep, hbound, hlast⟩ := hend hnot
      have hclosed := hrep.closing hclose
      rw [← hd, hes] at hclosed
      refine hclosed.sound hpos (by omega) hbound fun hw => hlast ?_
      rw [hret] at hw
      exact Option.some.inj hw

/-- **Exactly when the progress of a download is sound**: unless the stream starts with the magic and the
loop fills the sectors that make up 101 % of the image, without a read that ends at its end, while the
flash takes them. -/
theorem progressSound_iff (env : OtaEnv) (p : Partition) (n : ℕ) (headerData : ResponseHeaderData)
    (u : UpdateClass) (w : World) (client : List Arrival) (hacc : Accepted headerData)
    (hcl : headerData.contentLength.1 = n) (hidle : u.isRunning = false)
    (hpart : env.nextUpdatePartition = some p) (hmalloc : env.mallocOk = true) (hfits : n ≤ p.size)
    (hmax : p.size ≤ 2 ^ 24) :
    ProgressSound env n headerData u w client ↔
      ¬PassesImage env p n (w.trace.length + 3) (skipLineFeed client) := by
  have hmin := hacc.1
  obtain ⟨hout, hsound⟩ := processFirmwareUpdateResponse_reports w client hacc hcl hidle hpart hmalloc
    hfits hmax
  refine ⟨fun hall hpass => hout hpass ?_, hsound⟩
  obtain ⟨es, hes, -⟩ := processFirmwareUpdateResponse_begins env u w client hacc
  rw [← World.run_cons] at hes
  refine ⟨_, hes, fun e he heq => ?_⟩
  exact (hall _ hes).not_passed (by omega) (List.mem_filterMap.mpr ⟨e, he, by rw [heq]; rfl⟩)

/-- An image of 500000 bytes and what fills up its last sector and one more. -/
def trailed : List UInt8 := imageMagic :: List.replicate 507903 0

/-- Without a timeout the progress is sound, whatever follows the image. -/
theorem progressSound_iff_trailed :
    Accepted (firmwareHeader ⟨500000, by decide⟩) ∧ UpdateClass.init.isRunning = false ∧
      500000 ≤ ota0.size ∧ ota0.size ≤ 2 ^ 24 ∧
      ProgressSound (.healthy ota0 0x400000) 500000 (firmwareHeader ⟨500000, by decide⟩) .init .initial
        (trailed.map .byte) := by
  have hacc : Accepted (firmwareHeader ⟨500000, by decide⟩) := firmwareHeader_accepted (by decide)
  refine ⟨hacc, rfl, by decide, by decide, ?_⟩
  apply (progressSound_iff _ ota0 _ _ _ _ _ hacc rfl rfl rfl rfl (by decide) (by decide)).mpr
  intro hpass
  have hlen : 500000 ≤ trailed.length := by
    rw [trailed, List.length_cons, List.length_replicate]
    decide
  have hstream : RunsOn 500000 (overrunSectors 500000) 0 (trailed.map .byte) := hpass.sectors.stream
  exact not_runsOn_ready (div_lt_overrunSectors (by decide)) hlen hstream

end Download

theorem not_progressSound_trailed :
    Event.progress 507904 500000 ∈ (processFirmwareUpdateResponse (.healthy ota0 0x400000)
        (firmwareHeader ⟨500000, by decide⟩) .init .initial (stutter 500000 trailed)).world.trace ∧
      onDownloadProgress 507904 500000 = 101 := by
  have hacc : Accepted (firmwareHeader ⟨500000, by decide⟩) := firmwareHeader_accepted (by decide)
  have hpass : PassesImage (.healthy ota0 0x400000) ota0 500000 3 (stutter 500000 trailed) := by
    have hlen : secSize * (500000 / secSize + (1 + 1)) ≤ trailed.length := by
      rw [trailed, List.length_cons, List.length_replicate]
      decide
    have hruns := runsOn_stutter (j := 1) (show 2 ≤ 500000 % secSize by decide) hlen
    refine ⟨rfl, ⟨hruns, fun k _ hk => ?_⟩⟩
    have hle : secSize * (k + 1) ≤ secSize * 124 := Nat.mul_le_mul_left _ hk
    have hin : ota0.address + secSize * 124 ≤ 0x400000 := by decide
    exact OtaEnv.healthy_takes (by omega) (by decide) 3
  have hout := (processFirmwareUpdateResponse_reports (u := .init) .initial (stutter 500000 trailed) hacc
    rfl rfl rfl rfl (by decide) (by decide)).1 hpass
  refine ⟨?_, by rw [onDownloadProgress_eq (by decide)]⟩
  by_contra hno
  obtain ⟨es, hes, -⟩ := processFirmwareUpdateResponse_begins (.healthy ota0 0x400000) .init .initial
    (stutter 500000 trailed) hacc
  rw [← World.run_cons] at hes
  refine hout ⟨_, hes, fun e he heq => hno ?_⟩
  rw [hes, World.run_trace]
  exact List.mem_append_right _ (heq ▸ he)

end EspFirmware
