import EspFirmware.Lib.NorFlash
import EspFirmware.Stream
import Mathlib.Tactic.NormNum

/-!
# The updater

`UpdateClass` of the Arduino core (`libraries/Update/src/Updater.cpp`) over a NOR flash device.  Every
effect the updater has on the world is an `Event`, and `World.step` is the only way the world changes,
so the world after any piece of code is the world before it run over the events in between.

* `OtaEnv` — what the code under the updater answers: the partition found, whether `malloc` succeeds,
  how each flash operation ends, whether `esp_ota_set_boot_partition` succeeds;
* `UpdateClass.begin`, `writeBuffer`, `writeStream`, `endUpdate` — the four operations a download uses;
* sizes and addresses are 32-bit: `remaining` wraps, `_progress` wraps, flash addresses wrap.
-/

namespace EspFirmware

open NorFlash

/-- `SPI_FLASH_SEC_SIZE`. -/
def secSize : ℕ := 4096

/-- `ESP_IMAGE_HEADER_MAGIC`. -/
def imageMagic : UInt8 := 0xE9

/-- A value stored in a 32-bit unsigned word. -/
@[irreducible] def wrap32 (x : ℕ) : ℕ := x % 2 ^ 32

theorem wrap32_of_lt {x : ℕ} (h : x < 2 ^ 32) : wrap32 x = x := by
  rw [wrap32]
  exact Nat.mod_eq_of_lt h

theorem wrap32_lt (x : ℕ) : wrap32 x < 2 ^ 32 := by
  rw [wrap32]
  exact Nat.mod_lt _ (by norm_num)

/-! ### The world under the updater -/

/-- An OTA partition: sector-aligned and inside the 32-bit address space. -/
structure Partition where
  address : ℕ
  size : ℕ
  aligned : address % secSize = 0
  fits : address + size ≤ 2 ^ 32

/-- A call of `ESP.flashEraseSector`, `ESP.flashWrite` or `ESP.flashRead`. -/
inductive FlashOp where
  | erase (sector : ℕ)
  | write (addr : ℕ) (data : List UInt8)
  | read (addr len : ℕ)
  deriving Repr, DecidableEq

/-- How a flash operation ends; a failed one leaves a prefix of its effect. -/
inductive Outcome where
  | ok
  | failed (done : ℕ)
  deriving Repr, DecidableEq

/-- What a flash operation does to the cells. -/
def FlashOp.effect : FlashOp → Outcome → Cells → Cells
  | .erase sector, .ok, f => NorFlash.erase f (sector * secSize) secSize
  | .erase sector, .failed k, f => NorFlash.erase f (sector * secSize) (min k secSize)
  | .write addr data, .ok, f => program f addr data
  | .write addr data, .failed k, f => program f addr (data.take k)
  | .read _ _, _, f => f

/-- The address range a flash operation touches lies inside a device of `chip` bytes. -/
def FlashOp.Inside (chip : ℕ) : FlashOp → Prop
  | .erase sector => (sector + 1) * secSize ≤ chip
  | .write addr data => addr + data.length ≤ chip
  | .read addr len => addr + len ≤ chip

instance (chip : ℕ) (o : FlashOp) : Decidable (o.Inside chip) := by
  cases o <;> unfold FlashOp.Inside <;> infer_instance

/-- What a firmware download does that can be seen from outside. -/
inductive Event where
  | beginCalled (size : ℕ)
  | begun (addr size : ℕ)
  | op (o : FlashOp) (r : Outcome)
  | progress (done size : ℕ)
  | setBoot (addr : ℕ) (success : Bool)
  | fatalError (msg : String)
  | restart
  deriving Repr, DecidableEq

/-- Flash contents, boot selection, the global `percComplete` and everything that happened so far. -/
structure World where
  flash : Cells
  boot : ℕ
  percComplete : ℕ
  trace : List Event

/-- `percComplete` after `onDownloadProgress(progress, size)`, in 32-bit `size_t` arithmetic. -/
def onDownloadProgress (done size : ℕ) : ℕ := wrap32 (done * 100) / size

/-- The effect of one event on the world. -/
def World.step (w : World) (e : Event) : World :=
  match e with
  | .op o r => { w with flash := o.effect r w.flash, trace := w.trace ++ [e] }
  | .setBoot addr true => { w with boot := addr, trace := w.trace ++ [e] }
  | .progress done size =>
      { w with percComplete := onDownloadProgress done size, trace := w.trace ++ [e] }
  | _ => { w with trace := w.trace ++ [e] }

/-- The world after a list of events. -/
def World.run (w : World) (es : List Event) : World := es.foldl World.step w

/-- What the code below the updater answers during one download. -/
structure OtaEnv where
  /-- `esp_ota_get_next_update_partition(NULL)`. -/
  nextUpdatePartition : Option Partition
  /-- `esp_partition_find_first(DATA, SPIFFS, NULL)`. -/
  spiffsPartition : Option Partition
  /-- `malloc(SPI_FLASH_SEC_SIZE)` returns a buffer. -/
  mallocOk : Bool
  /-- How each flash operation ends, by the number of events before it. -/
  flash : ℕ → FlashOp → Outcome
  /-- `esp_ota_set_boot_partition` returns `ESP_OK`. -/
  setBootOk : Bool
  /-- `MD5Builder` over the bytes added, as a hexadecimal string. -/
  md5Hex : List UInt8 → List UInt8
  /-- `WifiManager.WifiConnected()`. -/
  wifiConnected : Bool

/-- `spi_flash_*` refuses an operation that does not lie inside a device of `chip` bytes. -/
def OtaEnv.RejectsOutside (env : OtaEnv) (chip : ℕ) : Prop :=
  ∀ i o, ¬FlashOp.Inside chip o → env.flash i o ≠ .ok

/-- A device of `chip` bytes with the update partition `p` on which everything works. -/
def OtaEnv.healthy (p : Partition) (chip : ℕ) : OtaEnv where
  nextUpdatePartition := some p
  spiffsPartition := none
  mallocOk := true
  flash := fun _ o => if o.Inside chip then .ok else .failed 0
  setBootOk := true
  md5Hex := id
  wifiConnected := true

theorem OtaEnv.healthy_rejectsOutside (p : Partition) (chip : ℕ) :
    (healthy p chip).RejectsOutside chip := by
  intro i o hout
  simp [healthy, hout]

/-- Issue a flash operation: the result and the world after it. -/
def flashOp (env : OtaEnv) (w : World) (o : FlashOp) : Bool × World :=
  let r := env.flash w.trace.length o
  (decide (r = .ok), w.step (.op o r))

/-- `ESP.flashEraseSector`. -/
def flashEraseSector (env : OtaEnv) (w : World) (sector : ℕ) : Bool × World :=
  flashOp env w (.erase sector)

/-- `ESP.flashWrite`. -/
def flashWrite (env : OtaEnv) (w : World) (addr : ℕ) (data : List UInt8) : Bool × World :=
  flashOp env w (.write addr data)

/-- `ESP.flashRead`: the bytes read, `none` when the read fails. -/
def flashRead (env : OtaEnv) (w : World) (addr len : ℕ) : Option (List UInt8) × World :=
  match flashOp env w (.read addr len) with
  | (true, w') => (some (slice w.flash addr len), w')
  | (false, w') => (none, w')

/-! ### The updater's state -/

/-- The `UPDATE_ERROR_*` codes. -/
inductive UpdateError where
  | ok | write | erase | read | space | size | stream | md5 | magicByte | activate
  | noPartition | badArgument | abort
  deriving Repr, DecidableEq

/-- The `command` of an update: `U_FLASH`, `U_SPIFFS` or any other number. -/
inductive Command where
  | flash | spiffs | other
  deriving Repr, DecidableEq

/-- The fields of `UpdateClass`.  `buffer` is the filled part of `_buffer`, so `_bufferLen` is its
length; `md5` is what has been added to the MD5 context. -/
structure UpdateClass where
  error : UpdateError
  buffer : List UInt8
  size : ℕ
  progressCallback : Bool
  progress : ℕ
  command : Command
  partition : Option Partition
  targetMd5 : List UInt8
  md5 : List UInt8

namespace UpdateClass

/-- The constructor. -/
def init : UpdateClass where
  error := .ok
  buffer := []
  size := 0
  progressCallback := false
  progress := 0
  command := .flash
  partition := none
  targetMd5 := []
  md5 := []

/-- `_reset`. -/
def reset (u : UpdateClass) : UpdateClass :=
  { u with buffer := [], progress := 0, size := 0, command := .flash }

/-- `_abort`. -/
def abort (u : UpdateClass) (err : UpdateError) : UpdateClass := { u.reset with error := err }

/-- `hasError`. -/
def hasError (u : UpdateClass) : Bool := decide (u.error ≠ .ok)

/-- `isRunning`. -/
def isRunning (u : UpdateClass) : Bool := decide (0 < u.size)

/-- `isFinished`. -/
def isFinished (u : UpdateClass) : Bool := decide (u.progress = u.size)

/-- `remaining`, in 32-bit `size_t` arithmetic. -/
def remaining (u : UpdateClass) : ℕ := wrap32 (2 ^ 32 + u.size - u.progress)

/-- `_partition->address`; `_partition` is set whenever the updater runs. -/
def partitionAddress (u : UpdateClass) : ℕ := (u.partition.map Partition.address).getD 0

/-- `begin(size, command)`. -/
def begin (env : OtaEnv) (u : UpdateClass) (size : ℕ) (command : Command) : Bool × UpdateClass :=
  if 0 < u.size then (false, u)
  else
    let u := { u.reset with error := .ok }
    if size = 0 then (false, { u with error := .size })
    else
      let found : Except UpdateError (Option Partition) :=
        match command with
        | .flash => .ok env.nextUpdatePartition
        | .spiffs => .ok env.spiffsPartition
        | .other => .error .badArgument
      match found with
      | .error err => (false, { u with error := err })
      | .ok none => (false, { u with partition := none, error := .noPartition })
      | .ok (some p) =>
          let u := { u with partition := some p }
          let size' := if size = 0xFFFFFFFF then p.size else size
          if p.size < size' then (false, { u with error := .size })
          else if env.mallocOk then
            (true, { u with size := size', command := command, md5 := [] })
          else (false, u)

/-- The flash address of the next sector to write, `_partition->address + _progress`. -/
def nextAddress (u : UpdateClass) : ℕ := wrap32 (u.partitionAddress + u.progress)

/-- Whether the buffer holds the first bytes of a firmware image. -/
def firstBytes (u : UpdateClass) : Bool := decide (u.progress = 0) && decide (u.command = .flash)

/-- What `_writeBuffer` hands to `ESP.flashWrite`: the buffer, with the magic byte withheld from the
first sector. -/
def flushData (u : UpdateClass) : List UInt8 :=
  if u.firstBytes then u.buffer.set 0 0xFF else u.buffer

/-- The state after a successful flush. -/
def flushed (u : UpdateClass) : UpdateClass :=
  { u with
    md5 := u.md5 ++ u.buffer
    progress := wrap32 (u.progress + u.buffer.length)
    buffer := [] }

/-- Call the progress callback, if one is registered. -/
def report (u : UpdateClass) (w : World) : World :=
  if u.progressCallback then w.step (.progress u.progress u.size) else w

/-- `_writeBuffer`. -/
def writeBuffer (env : OtaEnv) (u : UpdateClass) (w : World) : Bool × UpdateClass × World :=
  if u.firstBytes ∧ u.buffer.head? ≠ some imageMagic then (false, u.abort .magicByte, w)
  else
    let w := if u.progress = 0 then u.report w else w
    match flashEraseSector env w (u.nextAddress / secSize) with
    | (false, w) => (false, u.abort .erase, w)
    | (true, w) =>
        match flashWrite env w u.nextAddress u.flushData with
        | (false, w) => (false, u.abort .write, w)
        | (true, w) => (true, u.flushed, u.flushed.report w)

/-- `_verifyHeader`; the argument is converted to `uint8_t`, so a timed-out peek arrives as `0xFF`. -/
def verifyHeader (u : UpdateClass) (data : UInt8) : Bool × UpdateClass :=
  match u.command with
  | .flash => if data ≠ imageMagic then (false, u.abort .magicByte) else (true, u)
  | .spiffs => (true, u)
  | .other => (false, u)

/-- Read up to `n` bytes, and once more if none came. -/
def readRetry (n : ℕ) (client : List Arrival) : List UInt8 × List Arrival :=
  match Arrival.readBytes n client with
  | ([], client') => Arrival.readBytes n client'
  | r => r

/-- A retried read takes a prefix of the stream, of at most the bytes asked for. -/
theorem readRetry_spec (n : ℕ) (client : List Arrival) :
    Arrival.bytesOf client
        = (readRetry n client).1 ++ Arrival.bytesOf (readRetry n client).2 ∧
      (readRetry n client).1.length ≤ n ∧
      (readRetry n client).1.length + (readRetry n client).2.length ≤ client.length := by
  have h := Arrival.readBytes_spec n client
  unfold readRetry
  split
  · rename_i client' hr
    rw [hr] at h
    have h' := Arrival.readBytes_spec n client'
    simp only [List.nil_append, List.length_nil] at h
    exact ⟨by rw [h.1, ← h'.1], h'.2.1, by omega⟩
  · exact h

/-- `SPI_FLASH_SEC_SIZE - _bufferLen`, clamped to `remaining()`. -/
def bytesToRead (u : UpdateClass) : ℕ :=
  if u.remaining < secSize - u.buffer.length then u.remaining else secSize - u.buffer.length

/-- The flush test of `writeStream`. -/
def flushDue (u : UpdateClass) : Bool :=
  decide (u.buffer.length = u.remaining) || decide (u.buffer.length = secSize)

/-- The buffer with the bytes just read. -/
def fill (u : UpdateClass) (bs : List UInt8) : UpdateClass := { u with buffer := u.buffer ++ bs }

/-- How one round of the `writeStream` loop ends. -/
inductive Round where
  | stop (u : UpdateClass) (w : World) (client : List Arrival)
  | next (got : ℕ) (u : UpdateClass) (w : World) (client : List Arrival)

/-- One round of the loop: read, and flush the buffer when it is due. -/
def round (env : OtaEnv) (u : UpdateClass) (w : World) (client : List Arrival) : Round :=
  match readRetry u.bytesToRead client with
  | ([], client') => .stop (u.abort .stream) w client'
  | (b :: bs, client') =>
      if (u.fill (b :: bs)).flushDue then
        match (u.fill (b :: bs)).writeBuffer env w with
        | (false, u', w') => .stop u' w' client'
        | (true, u', w') => .next (b :: bs).length u' w' client'
      else .next (b :: bs).length (u.fill (b :: bs)) w client'

theorem round_length {env : OtaEnv} {u u' : UpdateClass} {w w' : World} {client client' : List Arrival}
    {got : ℕ} (h : u.round env w client = .next got u' w' client') :
    client'.length < client.length := by
  have hlen := (readRetry_spec u.bytesToRead client).2.2
  rcases hr : readRetry u.bytesToRead client with ⟨_ | ⟨b, bs⟩, client₁⟩
  · simp [round, hr] at h
  · have hclient : client₁ = client' := by
      rcases hw : (u.fill (b :: bs)).writeBuffer env w with ⟨_ | _, u₁, w₁⟩ <;>
        by_cases hd : (u.fill (b :: bs)).flushDue <;>
        simp only [round, hr, hd, hw, if_true, if_false, Bool.false_eq_true, reduceCtorEq,
          Round.next.injEq] at h
      · exact h.2.2.2
      · exact h.2.2.2
      · exact h.2.2.2
    rw [hr] at hlen
    simp only [List.length_cons] at hlen
    subst hclient
    omega

/-- The loop of `writeStream`: the bytes counted, and what is left. -/
def writeStreamLoop (env : OtaEnv) (u : UpdateClass) (w : World) (client : List Arrival)
    (written : ℕ) : ℕ × UpdateClass × World × List Arrival :=
  if u.remaining = 0 then (written, u, w, client)
  else
    match _h : u.round env w client with
    | .stop u' w' client' => (written, u', w', client')
    | .next got u' w' client' => writeStreamLoop env u' w' client' (wrap32 (written + got))
termination_by client.length
decreasing_by exact round_length _h

/-- `writeStream`. -/
def writeStream (env : OtaEnv) (u : UpdateClass) (w : World) (client : List Arrival) :
    ℕ × UpdateClass × World × List Arrival :=
  if u.hasError ∨ ¬u.isRunning then (0, u, w, client)
  else
    let (first, client) := Arrival.peek client
    match u.verifyHeader (first.getD 0xFF) with
    | (false, u) => (0, u.reset, w, client)
    | (true, u) => writeStreamLoop env u w client 0

/-- `_enablePartition`: read four bytes, put the magic in front, write them back. -/
def enablePartition (env : OtaEnv) (w : World) (addr : ℕ) : Bool × World :=
  match flashRead env w addr 4 with
  | (none, w) => (false, w)
  | (some buf, w) => flashWrite env w addr (buf.set 0 imageMagic)

/-- `_partitionIsBootable`. -/
def partitionIsBootable (env : OtaEnv) (w : World) (addr : ℕ) : Bool × World :=
  match flashRead env w addr 4 with
  | (none, w) => (false, w)
  | (some buf, w) => (decide (buf.head? = some imageMagic), w)

/-- `_verifyEnd`; `&&`-chained as in the source, so a failed enable skips the bootable test. -/
def verifyEnd (env : OtaEnv) (u : UpdateClass) (w : World) : Bool × UpdateClass × World :=
  match u.command with
  | .flash =>
      match u.partition with
      | none => (false, u.abort .read, w)
      | some p =>
          match enablePartition env w p.address with
          | (false, w) => (false, u.abort .read, w)
          | (true, w) =>
              match partitionIsBootable env w p.address with
              | (false, w) => (false, u.abort .read, w)
              | (true, w) =>
                  let w := w.step (.setBoot p.address env.setBootOk)
                  if env.setBootOk then (true, u.reset, w) else (false, u.abort .activate, w)
  | .spiffs => (true, u.reset, w)
  | .other => (false, u, w)

/-- `end(evenIfRemaining)`. -/
def endUpdate (env : OtaEnv) (u : UpdateClass) (w : World) (evenIfRemaining : Bool) :
    Bool × UpdateClass × World :=
  if u.hasError ∨ u.size = 0 then (false, u, w)
  else if ¬u.isFinished ∧ ¬evenIfRemaining then (false, u.abort .abort, w)
  else
    let (u, w) :=
      if evenIfRemaining then
        let (u, w) := if 0 < u.buffer.length then (u.writeBuffer env w).2 else (u, w)
        ({ u with size := u.progress }, w)
      else (u, w)
    if u.targetMd5 ≠ [] ∧ u.targetMd5 ≠ env.md5Hex u.md5 then (false, u.abort .md5, w)
    else u.verifyEnd env w

end UpdateClass

end EspFirmware
