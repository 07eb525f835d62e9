import EspFirmware.Lib.FirstAnswer
import EspFirmware.ResponseHeader
import Mathlib.Algebra.Order.Ring.Int

/-!
# The update check

`FirmwareUpdateAvailable` and `SetHighestFirmwareAPIVersion` of `FirmwareUpdates.cpp`.  The version the
API reports is copied to a 16-byte array and taken apart at its dots; three numbers are compared with
those of the running version.  The verdict is kept in `cachedFirmwareCheckResult`, and nothing resets it
when another version is set.

* `versionParts` — the three numbers in an array; a scan past the array is a `Fault`;
* `compareVersions`, `verdict` — the answer for a version, the lexicographic order of the numbers;
* `Check`, `firmwareUpdateAvailable` — the globals and the cached check;
* `firmwareUpdateAvailable_cell` — it is a cell that remembers its first answer;
* `neverStale_iff` — when no answer is stale.
-/

namespace EspFirmware

open CString

/-- `'.'`. -/
def dot : UInt8 := 46

/-- `strtok` on what is left of an array; without a terminator in the array the scan must stop at a
delimiter. -/
def strtokIn (terminated : Bool) (s : List UInt8) : Except Fault (Option (List UInt8 × List UInt8)) :=
  if terminated ∨ dot ∈ s.dropWhile (· == dot) then .ok (strtok dot s) else .error .outOfBounds

/-- The loop over the segments: `atoi` of each, 0 where there is none. -/
def segments (terminated : Bool) :
    ℕ → Option (List UInt8 × List UInt8) → Except Fault (List Long)
  | 0, _ => .ok []
  | n + 1, none => do
      let parts ← segments terminated n none
      .ok (Long.zero :: parts)
  | n + 1, some (token, rest) => do
      let segment ← strtokIn terminated rest
      let parts ← segments terminated n segment
      .ok (atol token :: parts)

/-- The three numbers of a version in a 16-byte array. -/
def versionParts (version : CharArray 16) : Except Fault (List Long) := do
  let segment ← strtokIn (decide ((0 : UInt8) ∈ version.1)) version.str
  segments (decide ((0 : UInt8) ∈ version.1)) 3 segment

/-- The last loop: whether the first difference makes the highest version the newer one. -/
def compareVersions : List Long → List Long → Bool
  | c :: current, h :: highest =>
      if c.1 < h.1 then true else if h.1 < c.1 then false else compareVersions current highest
  | _, _ => false

/-- **The loop decides the lexicographic order of the numbers.** -/
theorem compareVersions_iff {current highest : List Long} (h : current.length = highest.length) :
    compareVersions current highest = true ↔ current.map (·.1) < highest.map (·.1) := by
  induction current generalizing highest with
  | nil =>
      obtain rfl : highest = [] := List.eq_nil_of_length_eq_zero h.symm
      simp [compareVersions]
  | cons c current ih =>
      cases highest with
      | nil => simp at h
      | cons n highest =>
          have hrest := ih (Nat.succ.inj h)
          rw [compareVersions, List.map_cons, List.map_cons, List.cons_lt_cons_iff]
          rcases lt_trichotomy c.1 n.1 with hlt | heq | hgt
          · simp [hlt]
          · simp [heq, hrest]
          · simp [hgt, hgt.not_gt, hgt.ne']

/-- `FIRMWARE_VERSION + 4`. -/
def currentVersion : List UInt8 := ascii "0.0.1"

/-- `strncpy(highestVersionTmp, highestVersionOnAPI, 16)`. -/
def copyHighestVersion (tmp : CharArray 16) (version : List UInt8) : CharArray 16 :=
  tmp.strncpy version 16 le_rfl

/-- The uncached part of `FirmwareUpdateAvailable`.  The arrays are not initialised, but `strncpy` fills
one of them and copies the other with its terminator. -/
def verdict (version : List UInt8) : Except Fault Bool :=
  if strEq currentVersion version then .ok false
  else do
    let highest ← versionParts ((CharArray.zero 16).strncpy version 16 le_rfl)
    let current ← versionParts ((CharArray.zero 16).strncpy currentVersion 16 le_rfl)
    .ok (compareVersions current highest)

/-- `cachedFirmwareCheckResult`: 0, 1 and -1. -/
inductive CheckResult where
  | unknown | available | upToDate
  deriving Repr, DecidableEq

/-- `highestVersionOnAPI`, null at program start, and the cached result. -/
structure Check where
  highestVersionOnAPI : Option (List UInt8)
  cachedFirmwareCheckResult : CheckResult

namespace Check

/-- The globals at program start. -/
def start : Check := ⟨none, .unknown⟩

/-- `SetHighestFirmwareAPIVersion`. -/
def setHighestFirmwareAPIVersion (c : Check) (version : Option (List UInt8)) : Check :=
  { c with highestVersionOnAPI := version }

/-- `FirmwareUpdateAvailable`. -/
def firmwareUpdateAvailable (c : Check) : Except Fault (Bool × Check) :=
  match c.highestVersionOnAPI with
  | none => .ok (false, c)
  | some version =>
      if cstr version = [] then .ok (false, c)
      else
        match c.cachedFirmwareCheckResult with
        | .available => .ok (true, c)
        | .upToDate => .ok (false, c)
        | .unknown => do
            let newer ← verdict version
            .ok (newer, { c with cachedFirmwareCheckResult := if newer then .available else .upToDate })

/-- What `FirmwareUpdateAvailable` returns. -/
def answer (c : Check) : Except Fault Bool := c.firmwareUpdateAvailable >>= fun r => .ok r.1

/-- A call of one of the two functions. -/
inductive Call where
  | setHighestFirmwareAPIVersion (version : Option (List UInt8))
  | firmwareUpdateAvailable

def step (c : Check) : Call → Except Fault Check
  | .setHighestFirmwareAPIVersion version => .ok (c.setHighestFirmwareAPIVersion version)
  | .firmwareUpdateAvailable => c.firmwareUpdateAvailable >>= fun r => .ok r.2

/-- The globals after a list of calls from program start. -/
def runCalls (calls : List Call) : Except Fault Check := FallibleRun.run step start calls

/-- Every check the run comes to answers as it would with `cachedFirmwareCheckResult` reset to 0.  A check
that scans past its array has no such answer, with the result cached or not. -/
def NeverStale (calls : List Call) : Prop :=
  ∀ before after c, calls = before ++ .firmwareUpdateAvailable :: after → runCalls before = .ok c →
    ∃ newer, c.answer = .ok newer ∧
      { c with cachedFirmwareCheckResult := .unknown }.answer = .ok newer

/-! ### The check is a cell that remembers its first answer -/

/-- The version the check looks at: none if it is null or empty. -/
def asked (version : Option (List UInt8)) : Option (List UInt8) :=
  version.filter fun v => cstr v ≠ []

/-- The answer the cached result stands for. -/
def remembered : CheckResult → Option Bool
  | .unknown => none
  | .available => some true
  | .upToDate => some false

def cell (c : Check) : FirstAnswer.Cell (List UInt8) Bool :=
  ⟨asked c.highestVersionOnAPI, remembered c.cachedFirmwareCheckResult⟩

/-- The call as a call of the cell. -/
def cellCall : Call → FirstAnswer.Call (List UInt8)
  | .setHighestFirmwareAPIVersion version => .set (asked version)
  | .firmwareUpdateAvailable => .ask

/-- **The check refines the cell.** -/
theorem firmwareUpdateAvailable_cell (c : Check) :
    (c.firmwareUpdateAvailable >>= fun r => .ok (r.1, r.2.cell))
      = FirstAnswer.ask verdict false c.cell := by
  obtain ⟨version, cached⟩ := c
  cases version with
  | none => rfl
  | some v =>
      by_cases hv : cstr v = []
      · have hasked : asked (some v) = none := by simp [asked, hv]
        simp only [firmwareUpdateAvailable, hv, if_true, cell, hasked, FirstAnswer.ask, bind,
          Except.bind]
      · have hasked : asked (some v) = some v := by simp [asked, hv]
        cases cached with
        | available =>
            simp only [firmwareUpdateAvailable, hv, if_false, cell, hasked, remembered,
              FirstAnswer.ask, bind, Except.bind]
        | upToDate =>
            simp only [firmwareUpdateAvailable, hv, if_false, cell, hasked, remembered,
              FirstAnswer.ask, bind, Except.bind]
        | unknown =>
            simp only [firmwareUpdateAvailable, hv, if_false, cell, hasked, remembered,
              FirstAnswer.ask, bind, Except.bind]
            cases verdict v with
            | error fault => rfl
            | ok newer => cases newer <;> simp [hasked]

theorem answer_cell (c : Check) : c.answer = FirstAnswer.answer verdict false c.cell := by
  rw [FirstAnswer.answer, ← firmwareUpdateAvailable_cell, answer]
  cases c.firmwareUpdateAvailable <;> rfl

theorem step_cell (c : Check) (call : Call) :
    (c.step call >>= fun c' => .ok c'.cell) = FirstAnswer.step verdict false c.cell (cellCall call) := by
  cases call with
  | setHighestFirmwareAPIVersion version => rfl
  | firmwareUpdateAvailable =>
      show (c.firmwareUpdateAvailable >>= fun r => .ok r.2) >>= _
        = FirstAnswer.ask verdict false c.cell >>= _
      rw [← firmwareUpdateAvailable_cell]
      cases c.firmwareUpdateAvailable <;> rfl

/-- A run of the program is a run of the cell. -/
theorem run_cell (calls : List Call) (c : Check) :
    (FallibleRun.run step c calls >>= fun c' => .ok c'.cell)
      = FallibleRun.run (FirstAnswer.step verdict false) c.cell (calls.map cellCall) := by
  induction calls generalizing c with
  | nil => rfl
  | cons call calls ih =>
      rw [List.map_cons, FallibleRun.run, FallibleRun.run, ← step_cell]
      cases c.step call with
      | error fault => rfl
      | ok c' => exact ih c'

theorem neverStale_iff_fresh (calls : List Call) :
    NeverStale calls ↔ FirstAnswer.Fresh verdict false (calls.map cellCall) := by
  constructor
  · intro hstale before after k hcalls hrun
    obtain ⟨before', rest, rfl, rfl, hrest⟩ := List.map_eq_append_iff.mp hcalls
    obtain ⟨call, after', rfl, hcall, rfl⟩ := List.map_eq_cons_iff.mp hrest
    obtain rfl : call = .firmwareUpdateAvailable := by
      cases call with
      | setHighestFirmwareAPIVersion version => cases hcall
      | firmwareUpdateAvailable => rfl
    have hsim := run_cell before' start
    change _ = FallibleRun.run (FirstAnswer.step verdict false) ⟨none, none⟩ _ at hsim
    rw [hrun] at hsim
    obtain ⟨c, hc, hk⟩ := FallibleRun.bind_ok hsim
    obtain rfl : c.cell = k := Except.ok.inj hk
    have hsame := hstale before' after' c rfl hc
    simp only [answer_cell] at hsame
    exact hsame
  · intro hfresh before after c hcalls hrun
    have hsim := run_cell before start
    change (runCalls before >>= _) = FallibleRun.run (FirstAnswer.step verdict false) ⟨none, none⟩ _
      at hsim
    rw [hrun] at hsim
    have hsame := hfresh (before.map cellCall) (after.map cellCall) c.cell
      (by rw [hcalls]; simp [cellCall]) hsim.symm
    simp only [answer_cell]
    exact hsame

/-- **The check never answers from a stale cache exactly if any two versions it looks at have the same
verdict.**  A version whose scan leaves the array has none. -/
theorem neverStale_iff (calls : List Call) :
    NeverStale calls ↔ FirstAnswer.Steady verdict (calls.map cellCall) :=
  (neverStale_iff_fresh calls).trans (FirstAnswer.fresh_iff _)

/-- The version in use is reported, and later a newer one. -/
def newerLater : List Call :=
  [.setHighestFirmwareAPIVersion (some (ascii "0.0.1")), .firmwareUpdateAvailable,
    .setHighestFirmwareAPIVersion (some (ascii "1.0.0")), .firmwareUpdateAvailable]

/-- The second check still says that the device is up to date. -/
theorem newerLater_stale : ¬NeverStale newerLater := by
  intro h
  obtain ⟨newer, hcached, hreset⟩ := h [.setHighestFirmwareAPIVersion (some (ascii "0.0.1")),
    .firmwareUpdateAvailable, .setHighestFirmwareAPIVersion (some (ascii "1.0.0"))] []
    ⟨some (ascii "1.0.0"), .upToDate⟩ rfl rfl
  obtain rfl : false = newer := Except.ok.inj hcached
  exact absurd hreset (by decide)

end Check

end EspFirmware
