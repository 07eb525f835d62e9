import EspFirmware.Install
import EspFirmware.Overrun

/-!
# Two partitions and the way back

An update goes into the partition the device does not run from, and `Update.rollBack()` goes back to that
other partition.  So the firmware that runs must survive every attempt to replace it, and a partition that
an attempt has begun to fill must not be rolled back to.

* `canRollBack`, `rollBack` — `UpdateClass::canRollBack` and `rollBack`;
* `Event.Spares` — the event touches cells of the partition only;
* `runAttempts_spares` — attempts whose streams do not run over the end of the image touch no other
  cells, at any prefix of their events;
* `rollBack_works` — on a working device `rollBack` goes by the first byte of the partition;
* `runAttempts_rollBack` — the way back is open after any attempts and power losses if it was open before
  them, and the way into a partition that is being filled is closed.
-/

namespace EspFirmware

open NorFlash UpdateClass CString

namespace UpdateClass

/-- `canRollBack`; `_buffer` is allocated exactly while an update runs. -/
def canRollBack (env : OtaEnv) (u : UpdateClass) (w : World) : Bool × World :=
  if u.isRunning then (false, w)
  else
    match env.nextUpdatePartition with
    | none => (false, w)
    | some p => partitionIsBootable env w p.address

/-- `rollBack`. -/
def rollBack (env : OtaEnv) (u : UpdateClass) (w : World) : Bool × World :=
  match u.canRollBack env w, env.nextUpdatePartition with
  | (true, w'), some p => (env.setBootOk, w'.step (.setBoot p.address env.setBootOk))
  | (_, w'), _ => (false, w')

end UpdateClass

/-! ### The other partition -/

/-- A cell of the partition. -/
def Partition.Covers (p : Partition) (x : ℕ) : Prop := p.address ≤ x ∧ x < p.address + p.size

/-- The event touches cells of the partition only. -/
def Event.Spares (p : Partition) : Event → Prop
  | .op (.write addr data) _ => p.address ≤ addr ∧ addr + data.length ≤ p.address + p.size
  | .op (.erase sector) _ =>
      p.address ≤ sector * secSize ∧ (sector + 1) * secSize ≤ p.address + p.size
  | _ => True

theorem Event.Spares.step {p : Partition} {e : Event} (h : e.Spares p) (w : World) {x : ℕ}
    (hx : ¬p.Covers x) : (w.step e).flash x = w.flash x := by
  simp only [Partition.Covers] at hx
  cases e with
  | op o r =>
      rw [World.step_op_flash]
      cases o with
      | erase sector =>
          obtain ⟨hlow, hhigh⟩ := h
          cases r with
          | ok => exact erase_apply_of_not_mem (by simp only [secSize] at *; omega)
          | failed k => exact erase_apply_of_not_mem (by simp only [secSize] at *; omega)
      | write addr data =>
          obtain ⟨hlow, hhigh⟩ := h
          cases r with
          | ok => exact program_apply_of_not_mem (by omega)
          | failed k =>
              refine program_apply_of_not_mem ?_
              have hlen : (data.take k).length ≤ data.length := by
                rw [List.length_take]
                omega
              omega
      | read addr len => cases r <;> rfl
  | _ =>
      rw [World.step_flash _ _ (by simp)]

/-- **Events that spare the other cells leave them alone.** -/
theorem run_spares {p : Partition} {es : List Event} (hes : ∀ e ∈ es, e.Spares p) (w : World) {x : ℕ}
    (hx : ¬p.Covers x) : (w.run es).flash x = w.flash x := by
  induction es generalizing w with
  | nil => rfl
  | cons e es ih =>
      rw [World.run_cons, ih (fun d hd => hes d (List.mem_cons_of_mem _ hd))]
      exact (hes e List.mem_cons_self).step w hx

/-- In a partition of whole sectors, what respects the image spares the other cells. -/
theorem Event.WithinImage.spares {p : Partition} {n : ℕ} {e : Event} (h : e.WithinImage p n)
    (hn : n ≤ p.size) (hp : p.size % secSize = 0) : e.Spares p := by
  have hpa := p.aligned
  cases e with
  | op o r =>
      cases o with
      | erase sector =>
          obtain ⟨hlow, hhigh⟩ := h
          simp only [Spares, secSize] at *
          omega
      | write addr data =>
          obtain ⟨hlow, hhigh⟩ := h
          exact ⟨hlow, by omega⟩
      | read addr len => trivial
  | _ => trivial

/-- No pattern of reads can fill the last sector past an image of `n` bytes from `len` bytes. -/
def Contained (n len : ℕ) : Prop := n % secSize ≤ 1 ∨ len < secSize * (n / secSize + 1)

theorem Contained.not_overrunsImage {env : OtaEnv} {p : Partition} {n i : ℕ} {client : List Arrival}
    (hc : Contained n (Arrival.bytesOf client).length ∨
      (Arrival.bytesOf client).head? ≠ some imageMagic) : ¬OverrunsImage env p n i client := by
  intro hover
  obtain ⟨t, ht, hbytes⟩ := Arrival.peek_some (Prod.ext hover.magic rfl)
  have hruns := hover.sectors.stream
  have hle := hruns.le
  rw [hbytes] at hle
  rcases hc with (hlast | hshort) | hno
  · have hgt := hruns.share_gt_one (Nat.zero_le _) (by omega)
    omega
  · exact absurd hle (by rw [Nat.sub_zero]; omega)
  · refine hno ?_
    rw [← hbytes, ht]
    rfl

/-- An attempt into `p` whose stream does not run over the end of the image. -/
structure Attempt.Into (a : Attempt) (p : Partition) : Prop where
  partition : a.env.nextUpdatePartition = some p
  contained : Accepted a.headerData →
    Contained a.headerData.contentLength.1.toNat (imageBytes a.client).length ∨
      (imageBytes a.client).head? ≠ some imageMagic

/-- One attempt touches cells of its partition only. -/
theorem Attempt.Into.spares {a : Attempt} {p : Partition} (h : a.Into p) (hp : p.size % secSize = 0)
    {u : UpdateClass} (w : World) (hidle : u.size = 0) :
    World.Extends (Event.Spares p) w (a.run (u, w)).2 := by
  show World.Extends (Event.Spares p) w
    (processFirmwareUpdateResponse a.env a.headerData u w a.client).world
  by_cases hacc : Accepted a.headerData
  · have hmin := hacc.1
    have hlong := a.headerData.contentLength.2
    obtain ⟨n, hn⟩ : ∃ n : ℕ, a.headerData.contentLength.1 = n :=
      ⟨_, (Int.toNat_of_nonneg (by omega)).symm⟩
    have hcont := h.contained hacc
    rw [hn, Int.toNat_natCast] at hcont
    rcases processFirmwareUpdateResponse_cases a.env w a.client hacc hidle hn with
      ⟨u', -, -, -, hd⟩ | ⟨q, u', hq, hfits, hrun, hprog, hbuf, hcall, -, hd⟩
    · rw [hd]
      exact (World.Extends.refl _ w).run (by simp [Event.Spares])
    · obtain rfl : p = q := Option.some.inj (h.partition.symm.trans hq)
      have hpf := p.fits
      have hend := (writeStream_image a.env (w.run [.beginCalled n, .begun p.address n])
        (skipLineFeed a.client) hrun hprog hbuf hcall (by omega) (by omega) (by omega)).1
        (Contained.not_overrunsImage (skipLineFeed_delivers (Q := Contained n) rfl hcont))
      have hstart : World.Extends (Event.Spares p) w (w.run [.beginCalled n, .begun p.address n]) :=
        (World.Extends.refl _ w).run (by simp [Event.Spares])
      rw [hd]
      exact hstart.trans ((hend.download (by omega)).mono fun e he => he.spares hfits hp)
  · rw [processFirmwareUpdateResponse, if_pos hacc]
    exact (World.Extends.refl _ w).step (e := .fatalError _) trivial

theorem runAttempts_spares_from (as : List Attempt) {p : Partition} (hp : p.size % secSize = 0)
    (has : ∀ a ∈ as, a.Into p) {u : UpdateClass} (w : World) (hidle : u.size = 0) :
    World.Extends (Event.Spares p) w (runAttempts as (u, w)).2 := by
  induction as generalizing u w with
  | nil => exact .refl _ w
  | cons a as ih =>
      have hfirst := (has a List.mem_cons_self).spares hp w hidle
      have hidle' := (a.run_events w hidle).1
      exact hfirst.trans (ih (fun b hb => has b (List.mem_cons_of_mem _ hb)) (a.run (u, w)).2 hidle')

/-! ### The way back -/

theorem slice_head (f : Cells) (a len : ℕ) : (slice f a (len + 1)).head? = some (f a) := by
  rw [slice, List.range_succ_eq_map]
  rfl

/-- On a working device `rollBack` goes by the first byte of the partition, and changes no cell. -/
theorem rollBack_works {env : OtaEnv} {q : Partition} {chip : ℕ} (hworks : env.Works q chip)
    (hq : 0 < q.size) {u : UpdateClass} (hidle : u.isRunning = false) (w : World) :
    ((u.rollBack env w).1 = true ↔ w.flash q.address = imageMagic) ∧
      (u.rollBack env w).2.flash = w.flash ∧
      ((u.rollBack env w).1 = true → (u.rollBack env w).2.boot = q.address) ∧
      ((u.rollBack env w).1 = false → (u.rollBack env w).2.boot = w.boot) := by
  have hread : env.flash w.trace.length (.read q.address 4) = .ok := by
    apply hworks.flash
    have hqa := q.aligned
    have hsectors := hworks.sectors
    have hinside := hworks.inside
    simp only [FlashOp.Inside, secSize] at *
    omega
  have hcan : u.canRollBack env w
      = (decide (w.flash q.address = imageMagic), w.step (.op (.read q.address 4) .ok)) := by
    simp only [canRollBack, hidle, Bool.false_eq_true, if_false, hworks.partition, partitionIsBootable,
      flashRead_ok hread, slice_head, Option.some.injEq]
  have hflash : (w.step (.op (.read q.address 4) .ok)).flash = w.flash := rfl
  by_cases hmagic : w.flash q.address = imageMagic
  · simp only [rollBack, hcan, hmagic, decide_true, hworks.partition, hworks.setBoot]
    exact ⟨by simp, rfl, fun _ => rfl, by simp⟩
  · simp only [rollBack, hcan, hmagic, decide_false]
    exact ⟨by simp, rfl, by simp, fun _ => rfl⟩

/-- In any environment `rollBack` refuses a partition that does not start with the magic. -/
theorem rollBack_refused {env : OtaEnv} {p : Partition} (hpart : env.nextUpdatePartition = some p)
    (u : UpdateClass) {w : World} (hno : w.flash p.address ≠ imageMagic) :
    (u.rollBack env w).1 = false ∧ (u.rollBack env w).2.boot = w.boot := by
  have hcan : (u.canRollBack env w).1 = false ∧ (u.canRollBack env w).2.boot = w.boot := by
    unfold canRollBack
    split
    · exact ⟨rfl, rfl⟩
    · simp only [hpart]
      rcases hread : env.flash w.trace.length (.read p.address 4) with _ | k
      · rw [partitionIsBootable, flashRead_ok hread]
        simp only [slice_head, Option.some.injEq, hno, decide_false]
        exact ⟨trivial, rfl⟩
      · rw [partitionIsBootable, flashRead_failed hread]
        exact ⟨rfl, rfl⟩
  rcases hc : u.canRollBack env w with ⟨ok, w'⟩
  rw [hc] at hcan
  obtain ⟨rfl, hboot⟩ := hcan
  simp only [rollBack, hc]
  exact ⟨trivial, hboot⟩

/-- **The firmware that runs survives.**  The device runs from `q` and is updated into `p`, a partition
of whole sectors apart from it, by any attempts from program start whose streams do not run over the end
of their images.  Wherever power is lost: no cell outside `p` has changed, and on a working device
`rollBack` goes back to `q` exactly if it could before the first attempt. -/
theorem runAttempts_keeps_other (as : List Attempt) (p q : Partition) (w : World)
    (hp : p.size % secSize = 0) (hq : 0 < q.size) (hapart : ∀ x, q.Covers x → ¬p.Covers x)
    (has : ∀ a ∈ as, a.Into p) :
    ∃ es, (runAttempts as (.init, w)).2 = w.run es ∧ ∀ ds, ds <+: es →
      (∀ x, ¬p.Covers x → (w.run ds).flash x = w.flash x) ∧
      ∀ env chip, OtaEnv.Works env q chip →
        ((UpdateClass.init.rollBack env (w.run ds)).1 = true ↔ w.flash q.address = imageMagic) ∧
        ((UpdateClass.init.rollBack env (w.run ds)).1 = true →
          (UpdateClass.init.rollBack env (w.run ds)).2.boot = q.address ∧
          ∀ x, q.Covers x → (UpdateClass.init.rollBack env (w.run ds)).2.flash x = w.flash x) := by
  obtain ⟨es, hworld, hes⟩ := runAttempts_spares_from as hp has w (u := .init) rfl
  refine ⟨es, hworld, fun ds hds => ?_⟩
  have hkept : ∀ x, ¬p.Covers x → (w.run ds).flash x = w.flash x := fun x hx =>
    run_spares (fun e he => hes e (hds.subset he)) w hx
  refine ⟨hkept, fun env chip hworks => ?_⟩
  obtain ⟨hiff, hflash, hboot, -⟩ := rollBack_works hworks hq (u := .init) rfl (w.run ds)
  have hfirst := hkept q.address (hapart _ ⟨le_rfl, by omega⟩)
  rw [hfirst] at hiff
  refine ⟨hiff, fun hok => ⟨hboot hok, fun x hx => ?_⟩⟩
  rw [hflash]
  exact hkept x (hapart x hx)

/-- The second application partition of a 4 MB device. -/
def ota1 : Partition := ⟨0x1F0000, 0x1E0000, by decide, by decide⟩

/-- A device that runs from the second partition. -/
def World.fromSecond : World :=
  { World.initial with
    flash := Function.update (fun _ => blank) ota1.address imageMagic
    boot := ota1.address }

/-- One attempt into the first partition, and power lost anywhere in it: the second is there to go back to. -/
theorem runAttempts_keeps_other_ota1 :
    ∃ es, (runAttempts [⟨.healthy ota0 0x400000, firmwareHeader ⟨500000, by decide⟩,
        pausedImage (List.replicate 499999 0)⟩] (.init, .fromSecond)).2 = World.fromSecond.run es ∧
      ∀ ds, ds <+: es →
        (UpdateClass.init.rollBack (.healthy ota1 0x400000) (World.fromSecond.run ds)).1 = true ∧
          (UpdateClass.init.rollBack (.healthy ota1 0x400000) (World.fromSecond.run ds)).2.boot
            = ota1.address := by
  have hlen : (imageBytes (pausedImage (List.replicate 499999 0))).length = 500000 := by
    rw [pausedImage_bytes, List.length_cons, List.length_replicate]
  have hinto : ∀ a ∈ [(⟨.healthy ota0 0x400000, firmwareHeader ⟨500000, by decide⟩,
      pausedImage (List.replicate 499999 0)⟩ : Attempt)], a.Into ota0 := by
    intro a ha
    rw [List.mem_singleton.mp ha]
    refine ⟨rfl, fun _ => .inl ?_⟩
    rw [hlen]
    exact .inr (by decide)
  obtain ⟨es, hes, hall⟩ := runAttempts_keeps_other _ ota0 ota1 .fromSecond (by decide) (by decide)
    (by intro x hx; simp only [Partition.Covers, ota0, ota1] at *; omega) hinto
  refine ⟨es, hes, fun ds hds => ?_⟩
  obtain ⟨hiff, hback⟩ := (hall ds hds).2 (.healthy ota1 0x400000) 0x400000
    (OtaEnv.healthy_works (by decide) (by decide) (by decide))
  have hmagic : World.fromSecond.flash ota1.address = imageMagic := by simp [World.fromSecond]
  have hok := hiff.mpr hmagic
  exact ⟨hok, (hback hok).1⟩

/-- **A partition that is being filled is not rolled back to.**  Whatever attempts are made from program
start, in whatever environments: wherever power is lost between the first erase of an attempt and its last
byte, `rollBack` refuses its partition after the restart and leaves the boot selection as it was before
the attempt. -/
theorem runAttempts_rollBack_refused (as : List Attempt) (w : World) :
    ∃ es, (runAttempts as (.init, w)).2 = w.run es ∧
      ∀ before addr n since, before ++ .begun addr n :: since <+: es → (∀ e ∈ since, ¬e.IsBegun) →
        .op (.erase (addr / secSize)) .ok ∈ since → writtenBytes since < n →
        ∀ (env : OtaEnv) (p : Partition), env.nextUpdatePartition = some p → p.address = addr →
          (UpdateClass.init.rollBack env (w.run (before ++ .begun addr n :: since))).1 = false ∧
            (UpdateClass.init.rollBack env (w.run (before ++ .begun addr n :: since))).2.boot
              = (w.run before).boot := by
  have hnil : SafeEverywhere w [] := by
    intro before addr n since hpre
    simp at hpre
  obtain ⟨es, hworld, hsafe⟩ := runAttempts_safe_from as (u := .init) rfl hnil
  refine ⟨es, hworld, fun before addr n since hpre hno her hlt env p hpart haddr => ?_⟩
  obtain ⟨hflash, hboot⟩ := hsafe before addr n since hpre hno her hlt
  rw [← haddr] at hflash
  rw [← haddr] at hboot ⊢
  obtain ⟨hfalse, hkeep⟩ := rollBack_refused hpart .init hflash
  exact ⟨hfalse, hkeep.trans hboot⟩

end EspFirmware
