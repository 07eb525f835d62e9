import EspFirmware.VersionCheck

/-!
# The order of versions

A device offers the version the API reports exactly if it is newer than its own.  The version in use is a
constant of the build, so a statement about all pairs of versions is one about all builds: the check is
restated with the text after the prefix of `FIRMWARE_VERSION` and the memory of the two arrays, which are
not initialised, as parameters.

* `verdictOf`, `firmwareUpdateAvailableOf` — the check of a build;
* `firmwareUpdateAvailableOf_currentVersion` — at this build's version it is the check of the source;
* `IsVersion` — three decimal numbers with dots between them;
* `versionParts_eq` — the loops over `strtok` and `atoi` find the three numbers;
* `firmwareUpdateAvailableOf_lex` — the answer is the lexicographic order.
-/

namespace EspFirmware

open CString

/-- The memory of `currentVersionTmp` and `highestVersionTmp`. -/
structure VersionArrays where
  currentVersionTmp : CharArray 16
  highestVersionTmp : CharArray 16

/-- `strncpy(currentVersionTmp, FIRMWARE_VERSION + 4, sizeof(FIRMWARE_VERSION) - 4)`: the count is that of
the text with its terminator. -/
def copyCurrentVersion (current : List UInt8) (tmp : CharArray 16) : Except Fault (CharArray 16) :=
  if h : current.length + 1 ≤ 16 then .ok (tmp.strncpy current (current.length + 1) h)
  else .error .outOfBounds

/-- The uncached part of `FirmwareUpdateAvailable` in a build of version `current`. -/
def verdictOf (current : List UInt8) (memory : VersionArrays) (version : List UInt8) :
    Except Fault Bool := do
  let tmp ← copyCurrentVersion current memory.currentVersionTmp
  if strEq tmp.1 version then .ok false
  else do
    let highestVersionParts ← versionParts (copyHighestVersion memory.highestVersionTmp version)
    let currentVersionParts ← versionParts tmp
    .ok (compareVersions currentVersionParts highestVersionParts)

/-- `FirmwareUpdateAvailable` in a build of version `current`. -/
def firmwareUpdateAvailableOf (current : List UInt8) (memory : VersionArrays) (c : Check) :
    Except Fault (Bool × Check) :=
  match c.highestVersionOnAPI with
  | none => .ok (false, c)
  | some version =>
      if cstr version = [] then .ok (false, c)
      else
        match c.cachedFirmwareCheckResult with
        | .available => .ok (true, c)
        | .upToDate => .ok (false, c)
        | .unknown => do
            let newer ← verdictOf current memory version
            .ok (newer, { c with cachedFirmwareCheckResult := if newer then .available else .upToDate })

/-! ### The arrays -/

theorem strtokIn_terminated (s : List UInt8) : strtokIn true s = .ok (strtok dot s) := by
  simp [strtokIn]

/-- A text that fits with its terminator is the string of the array. -/
theorem str_strncpy_terminated (dst : CharArray 16) {src : List UInt8} (hz : (0 : UInt8) ∉ src) {n : ℕ}
    (hn : n ≤ 16) (h : src.length < n) :
    (dst.strncpy src n hn).str = src ∧ (0 : UInt8) ∈ (dst.strncpy src n hn).1 := by
  obtain ⟨k, rfl⟩ : ∃ k, n = src.length + (k + 1) := ⟨n - src.length - 1, by omega⟩
  have hcopy : (dst.strncpy src (src.length + (k + 1)) hn).1
      = src ++ 0 :: (List.replicate k 0 ++ dst.1.drop (src.length + (k + 1))) := by
    show CString.strncpy _ _ _ = _
    rw [CString.strncpy, cstr_eq_self hz, List.take_length_add_append, List.take_replicate,
      Nat.min_eq_left (by omega), List.replicate_succ]
    simp
  rw [CharArray.str, hcopy]
  exact ⟨cstr_append_zero hz _, by simp⟩

/-- `strcmp` of the string in an array. -/
theorem strEq_str {a : CharArray 16} {text : List UInt8} (hstr : a.str = text) (v : List UInt8) :
    strEq a.1 v = decide (text = cstr v) := by
  rw [← hstr]
  rfl

/-- A version is read through its terminator and its text only. -/
theorem versionParts_congr {a b : CharArray 16} (ha : (0 : UInt8) ∈ a.1) (hb : (0 : UInt8) ∈ b.1)
    (h : a.str = b.str) : versionParts a = versionParts b := by
  rw [versionParts, versionParts, h]
  simp only [ha, hb]

/-- **The check of a build of this version is the check of the source**, whatever the arrays hold. -/
theorem firmwareUpdateAvailableOf_currentVersion (memory : VersionArrays) (c : Check) :
    firmwareUpdateAvailableOf currentVersion memory c = c.firmwareUpdateAvailable := by
  have hz : (0 : UInt8) ∉ currentVersion := by decide
  obtain ⟨htmp, htmpTerm⟩ :=
    str_strncpy_terminated memory.currentVersionTmp hz (n := 6) (by decide) (by decide)
  obtain ⟨hzero, hzeroTerm⟩ := str_strncpy_terminated (.zero 16) hz le_rfl (by decide)
  have hparts := versionParts_congr htmpTerm hzeroTerm (htmp.trans hzero.symm)
  have hverdict : verdictOf currentVersion memory = verdict := by
    funext version
    have hcopy : copyCurrentVersion currentVersion memory.currentVersionTmp
        = .ok (memory.currentVersionTmp.strncpy currentVersion 6 (by decide)) := rfl
    have hsame : strEq (memory.currentVersionTmp.strncpy currentVersion 6 (by decide)).1 version
        = strEq currentVersion version := by
      rw [strEq_str htmp, strEq, cstr_eq_self hz]
    have hhighest : copyHighestVersion memory.highestVersionTmp version
        = (CharArray.zero 16).strncpy version 16 le_rfl := by
      apply Subtype.ext
      show CString.strncpy _ _ _ = CString.strncpy _ _ _
      rw [CString.strncpy, CString.strncpy, List.drop_eq_nil_of_le memory.highestVersionTmp.2.le,
        List.drop_eq_nil_of_le (CharArray.zero 16).2.le]
    rw [verdictOf, hcopy]
    show (if _ then _ else _) = _
    rw [hsame, hhighest, hparts, verdict]
  rw [firmwareUpdateAvailableOf, hverdict]
  rfl

/-! ### Three numbers -/

/-- A decimal numeral below `2 ^ 31`; leading zeros are allowed. -/
structure IsNumeral (digits : List UInt8) (n : ℕ) : Prop where
  ne_nil : digits ≠ []
  isDigit : ∀ b ∈ digits, CString.isDigit b = true
  value : decimal digits = n
  small : n < 2 ^ 31

/-- The text `x.y.z`, of at most 15 characters. -/
structure IsVersion (text : List UInt8) (x y z : ℕ) : Prop where
  short : text.length ≤ 15
  parts : ∃ a b c, IsNumeral a x ∧ IsNumeral b y ∧ IsNumeral c z ∧ text = a ++ dot :: (b ++ dot :: c)

theorem IsNumeral.atol_eq {digits : List UInt8} {n : ℕ} (h : IsNumeral digits n) :
    (atol digits).1 = n := by
  have hsmall : decimal digits < 2 ^ 31 := by
    rw [h.value]
    exact h.small
  rw [atol_numeral h.ne_nil h.isDigit hsmall, h.value]

theorem IsNumeral.not_mem {digits : List UInt8} {n : ℕ} (h : IsNumeral digits n) {b : UInt8}
    (hb : CString.isDigit b = false) : b ∉ digits := fun hm =>
  absurd (h.isDigit b hm) (by rw [hb]; simp)

theorem IsVersion.not_mem_zero {text : List UInt8} {x y z : ℕ} (h : IsVersion text x y z) :
    (0 : UInt8) ∉ text := by
  obtain ⟨a, b, c, ha, hb, hc, rfl⟩ := h.parts
  have hz : CString.isDigit 0 = false := rfl
  simp only [List.mem_append, List.mem_cons, not_or]
  exact ⟨ha.not_mem hz, by decide, hb.not_mem hz, by decide, hc.not_mem hz⟩

theorem IsVersion.ne_nil {text : List UInt8} {x y z : ℕ} (h : IsVersion text x y z) : text ≠ [] := by
  obtain ⟨a, b, c, -, -, -, rfl⟩ := h.parts
  simp

/-- The loops find the three numbers. -/
theorem versionParts_eq {a : CharArray 16} {text : List UInt8} {x y z : ℕ} (h : IsVersion text x y z)
    (hterm : (0 : UInt8) ∈ a.1) (hstr : a.str = text) :
    ∃ parts, versionParts a = .ok parts ∧ parts.map (·.1) = [(x : ℤ), (y : ℤ), (z : ℤ)] := by
  obtain ⟨p, q, r, hp, hq, hr, htext⟩ := h.parts
  have hdot : CString.isDigit dot = false := rfl
  have hfirst : strtok dot text = some (p, q ++ dot :: r) := by
    rw [htext, strtok_word hp.ne_nil (hp.not_mem hdot) (.inr ⟨_, rfl⟩)]
    rfl
  have hsecond : strtok dot (q ++ dot :: r) = some (q, r) := by
    rw [strtok_word hq.ne_nil (hq.not_mem hdot) (.inr ⟨_, rfl⟩)]
    rfl
  have hthird : strtok dot r = some (r, []) := by
    have hword := strtok_word hr.ne_nil (hr.not_mem hdot) (.inl rfl)
    rwa [List.append_nil] at hword
  refine ⟨[atol p, atol q, atol r], ?_, ?_⟩
  · rw [versionParts, hstr]
    simp only [hterm, decide_true, segments, strtokIn_terminated, hfirst, hsecond, hthird, bind,
      Except.bind]
  · rw [List.map_cons, List.map_cons, List.map_cons, hp.atol_eq, hq.atol_eq, hr.atol_eq, List.map_nil]

/-! ### The answer -/

/-- The lexicographic order of three numbers. -/
def OlderThan (x y z x' y' z' : ℕ) : Prop := x < x' ∨ x = x' ∧ (y < y' ∨ y = y' ∧ z < z')

instance (x y z x' y' z' : ℕ) : Decidable (OlderThan x y z x' y' z') :=
  inferInstanceAs (Decidable (_ ∨ _ ∧ (_ ∨ _ ∧ _)))

section Answer

variable {current version : List UInt8} {x y z x' y' z' : ℕ}

theorem olderThan_iff :
    OlderThan x y z x' y' z' ↔ [(x : ℤ), (y : ℤ), (z : ℤ)] < [(x' : ℤ), (y' : ℤ), (z' : ℤ)] := by
  simp only [OlderThan, List.cons_lt_cons_iff, Nat.cast_lt, Nat.cast_inj, List.not_lt_nil, and_false,
    or_false]

theorem verdictOf_eq (memory : VersionArrays) (hc : IsVersion current x y z)
    (hv : IsVersion version x' y' z') :
    verdictOf current memory version = .ok (decide (OlderThan x y z x' y' z')) := by
  have hle : current.length + 1 ≤ 16 := Nat.succ_le_succ hc.short
  obtain ⟨htmp, htmpTerm⟩ := str_strncpy_terminated memory.currentVersionTmp hc.not_mem_zero hle
    (Nat.lt_succ_self current.length)
  obtain ⟨hhigh, hhighTerm⟩ := str_strncpy_terminated memory.highestVersionTmp hv.not_mem_zero le_rfl
    (Nat.lt_succ_of_le hv.short)
  obtain ⟨cur, hcur, hcurParts⟩ := versionParts_eq hc htmpTerm htmp
  obtain ⟨high, hhighest, hhighParts⟩ := versionParts_eq hv hhighTerm hhigh
  have hcopy : copyCurrentVersion current memory.currentVersionTmp
      = .ok (memory.currentVersionTmp.strncpy current (current.length + 1) hle) := dif_pos hle
  have hsame : strEq (memory.currentVersionTmp.strncpy current (current.length + 1) hle).1 version
      = decide (current = version) := by
    rw [strEq_str htmp, cstr_eq_self hv.not_mem_zero]
  have hlen : cur.length = high.length := by
    have h₁ := congrArg List.length hcurParts
    have h₂ := congrArg List.length hhighParts
    simp only [List.length_map, List.length_cons, List.length_nil] at h₁ h₂
    rw [h₁, h₂]
  have hcompare : compareVersions cur high = decide (OlderThan x y z x' y' z') := by
    rw [Bool.eq_iff_iff, compareVersions_iff hlen, hcurParts, hhighParts, decide_eq_true_eq,
      olderThan_iff]
  rw [verdictOf, hcopy, copyHighestVersion]
  show (if _ then _ else _) = _
  rw [hsame, hhighest, hcur]
  by_cases heq : current = version
  · -- equal texts have equal numbers, so the shortcut agrees with the comparison
    rw [if_pos (by simpa using heq)]
    subst heq
    obtain ⟨parts, hparts, hnums⟩ := versionParts_eq hv htmpTerm htmp
    rw [hcur] at hparts
    cases hparts
    rw [hcurParts] at hnums
    obtain ⟨rfl, rfl, rfl⟩ : x = x' ∧ y = y' ∧ z = z' := by simpa using hnums
    have hnot : ¬OlderThan x y z x y z := by simp [OlderThan]
    rw [decide_eq_false hnot]
  · rw [if_neg (by simpa using heq)]
    show Except.ok (compareVersions cur high) = _
    rw [hcompare]

/-- A device of version `current` with an empty cache offers `version`. -/
def Offers (current version : List UInt8) : Prop :=
  ∃ memory c', firmwareUpdateAvailableOf current memory ⟨some version, .unknown⟩ = .ok (true, c')

theorem firmwareUpdateAvailableOf_eq (memory : VersionArrays) (hc : IsVersion current x y z)
    (hv : IsVersion version x' y' z') :
    ∃ c', firmwareUpdateAvailableOf current memory ⟨some version, .unknown⟩
      = .ok (decide (OlderThan x y z x' y' z'), c') := by
  have hne : cstr version ≠ [] := by
    rw [cstr_eq_self hv.not_mem_zero]
    exact hv.ne_nil
  rw [firmwareUpdateAvailableOf]
  simp only [hne, if_false, verdictOf_eq memory hc hv, bind, Except.bind]
  exact ⟨_, rfl⟩

theorem offers_iff (hc : IsVersion current x y z) (hv : IsVersion version x' y' z') :
    Offers current version ↔ OlderThan x y z x' y' z' := by
  constructor
  · rintro ⟨memory, c', hoffer⟩
    obtain ⟨c'', heq⟩ := firmwareUpdateAvailableOf_eq memory hc hv
    rw [heq] at hoffer
    simp only [Except.ok.injEq, Prod.mk.injEq, decide_eq_true_eq] at hoffer
    exact hoffer.1
  · intro holder
    obtain ⟨c', heq⟩ := firmwareUpdateAvailableOf_eq ⟨.zero 16, .zero 16⟩ hc hv
    rw [decide_eq_true holder] at heq
    exact ⟨_, c', heq⟩

/-- **The check is the lexicographic order of the versions.**  With an empty cache, whatever the arrays
hold, the check of a device of version `current` returns and its answer is whether `current` is older; so
of two versions at most one is offered to a device of the other. -/
theorem firmwareUpdateAvailableOf_lex (memory : VersionArrays) (hc : IsVersion current x y z)
    (hv : IsVersion version x' y' z') :
    (∃ c', firmwareUpdateAvailableOf current memory ⟨some version, .unknown⟩
      = .ok (decide (OlderThan x y z x' y' z'), c')) ∧
    ¬(Offers current version ∧ Offers version current) := by
  refine ⟨firmwareUpdateAvailableOf_eq memory hc hv, ?_⟩
  rintro ⟨hoffer, hback⟩
  rw [offers_iff hc hv] at hoffer
  rw [offers_iff hv hc] at hback
  simp only [OlderThan] at hoffer hback
  omega

end Answer

theorem isVersion_current : IsVersion currentVersion 0 0 1 where
  short := by decide
  parts := ⟨[48], [48], [49], ⟨by decide, by simp [isDigit], rfl, by decide⟩,
    ⟨by decide, by simp [isDigit], rfl, by decide⟩, ⟨by decide, by simp [isDigit], rfl, by decide⟩, rfl⟩

theorem isVersion_leadingZeros : IsVersion (ascii "0.010.0") 0 10 0 where
  short := by decide
  parts := ⟨[48], [48, 49, 48], [48], ⟨by decide, by simp [isDigit], rfl, by decide⟩,
    ⟨by decide, by simp [isDigit], rfl, by decide⟩, ⟨by decide, by simp [isDigit], rfl, by decide⟩, rfl⟩

/-- The check of the source takes version 0.010.0 for newer than 0.0.1. -/
theorem firmwareUpdateAvailableOf_leadingZeros :
    (∃ c', Check.firmwareUpdateAvailable ⟨some (ascii "0.010.0"), .unknown⟩
        = .ok (decide (OlderThan 0 0 1 0 10 0), c')) ∧
      ¬(Offers currentVersion (ascii "0.010.0") ∧ Offers (ascii "0.010.0") currentVersion) := by
  rw [← firmwareUpdateAvailableOf_currentVersion ⟨.zero 16, .zero 16⟩]
  exact firmwareUpdateAvailableOf_lex _ isVersion_current isVersion_leadingZeros

end EspFirmware
