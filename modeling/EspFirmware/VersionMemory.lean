import EspFirmware.Lib.Footprint
import EspFirmware.VersionOrder

/-!
# The memory of the version loop

`FirmwareUpdateAvailable` takes the version of the API apart in `highestVersionTmp`, an array of 16 bytes.
The copy in it is terminated only if the version is shorter than that; `strtok` and `atoi` look for a
terminator or a dot, and what lies behind the array is not theirs.  The loop is kept call by call, with the
pointers into the array, the NULs that `strtok` writes and every cell that is touched.

* `parseVersion` — the loop on memory;
* `parseVersion_refines` — inside the array it is `versionParts`, and it leaves the array where that is a
  `Fault`;
* `firmwareUpdateAvailable_returns_iff` — the check returns exactly if its loop stays inside;
* `endedSegments` — the segments of a text that end at a dot;
* `parsesInside_iff` — for which versions the loop stays inside the array.
-/

namespace EspFirmware

open CString Footprint

/-- `while (i<3)`, with the rounds that are left and what `strtok` left. -/
def parseSegments : ℕ → Tok → Traced (List Long)
  | 0, _ => return []
  | n + 1, tok =>
      match tok.token with
      | none => do
          let parts ← parseSegments n tok
          return Long.zero :: parts
      | some segment => do
          let part ← atoiAt tok.memory segment
          let next ← strtokNext dot tok
          let parts ← parseSegments n next
          return part :: parts

/-- The loop over `highestVersionTmp`, which is where `memory` starts: `highestVersionParts`. -/
def parseVersion (memory : List UInt8) : Traced (List Long) := do
  let tok ← strtokAt dot memory 0
  parseSegments 3 tok

/-! ### The loop refines the one on strings -/

variable {terminated : Bool} {memory behind : List UInt8}

/-- The pointer `strtok` keeps stands before the text that is left; it is null behind the terminator. -/
def Left (terminated : Bool) (behind memory : List UInt8) : Option ℕ → List UInt8 → Prop
  | none, rest => terminated = true ∧ rest = []
  | some p, rest => ∃ w, memory.drop p = w ++ behind ∧ p + w.length = 16 ∧ cstr w = rest ∧
      terminated = decide ((0 : UInt8) ∈ w)

/-- What `strtok` left on memory is what it left on the string: the token is terminated in the array. -/
def Tracks (terminated : Bool) (behind : List UInt8) (tok : Tok) :
    Option (List UInt8 × List UInt8) → Prop
  | none => tok.token = none
  | some (word, rest) =>
      (∃ t v, tok.token = some t ∧ tok.memory.drop t = word ++ 0 :: v ∧ t + word.length < 16) ∧
        Left terminated behind tok.memory tok.lasts rest

theorem dot_ne_zero : dot ≠ 0 := by decide

/-- Between delimiters and terminators there are none. -/
theorem word_not_mem {word : List UInt8} (hword : ∀ b ∈ word, endsToken dot b = false) :
    dot ∉ word ∧ (0 : UInt8) ∉ word :=
  ⟨fun h => (endsToken_eq_false.mp (hword _ h)).1 rfl, fun h => (endsToken_eq_false.mp (hword _ h)).2 rfl⟩

theorem zero_not_mem_replicate (n : ℕ) : (0 : UInt8) ∉ List.replicate n dot := fun h =>
  dot_ne_zero (List.eq_of_mem_replicate h).symm

theorem strtokIn_runsOut (n : ℕ) {word : List UInt8} (hdot : dot ∉ word) :
    strtokIn false (List.replicate n dot ++ word) = .error .outOfBounds := by
  have hnone : dot ∉ (List.replicate n dot ++ word).dropWhile (· == dot) := by
    rw [dropWhile_replicate]
    exact fun h => hdot ((List.dropWhile_suffix _).subset h)
  rw [strtokIn, if_neg (by simpa using hnone)]

theorem strtokIn_atDelim (terminated : Bool) (n : ℕ) {word : List UInt8} (hne : word ≠ [])
    (hdot : dot ∉ word) (s : List UInt8) :
    strtokIn terminated (List.replicate n dot ++ (word ++ dot :: s)) = .ok (some (word, s)) := by
  have hsome : dot ∈ (List.replicate n dot ++ (word ++ dot :: s)).dropWhile (· == dot) := by
    obtain ⟨b, word, rfl⟩ := List.exists_cons_of_ne_nil hne
    have hb : b ≠ dot := fun hb => hdot (hb ▸ List.mem_cons_self)
    rw [dropWhile_replicate]
    simp [hb]
  rw [strtokIn, if_pos (.inr hsome), strtok_replicate, strtok_word hne hdot (.inr ⟨s, rfl⟩)]
  rfl

/-- **`strtok` on memory is `strtok` on the string**, and where the string says that the scan does not end
in the array it does not. -/
theorem strtokAt_refines {p : ℕ} {rest : List UInt8} (h : Left terminated behind memory (some p) rest) :
    Refines 16 (Tracks terminated behind) (strtokAt dot memory p) (strtokIn terminated rest) := by
  obtain ⟨w, hm, hlen, rfl, rfl⟩ := h
  cases firstToken dot w with
  | @runsOut n word hword =>
      obtain ⟨hdot, hz⟩ := word_not_mem hword
      have hnul : (0 : UInt8) ∉ List.replicate n dot ++ word := fun h =>
        (List.mem_append.mp h).elim (zero_not_mem_replicate n) hz
      rw [List.append_assoc] at hm
      rw [List.length_append, List.length_replicate] at hlen
      rw [cstr_eq_self hnul, decide_eq_false hnul, strtokIn_runsOut n hdot]
      exact strtokAt_leaves hm hword hlen
  | @atNul n word hword v =>
      obtain ⟨hdot, hz⟩ := word_not_mem hword
      have hstr : cstr (List.replicate n dot ++ (word ++ 0 :: v)) = List.replicate n dot ++ word := by
        rw [cstr_append (zero_not_mem_replicate n), cstr_append_zero hz]
      have hnul : (0 : UInt8) ∈ List.replicate n dot ++ (word ++ 0 :: v) := by simp
      simp only [List.append_assoc, List.cons_append] at hm
      simp only [List.length_append, List.length_replicate, List.length_cons] at hlen
      have hrun := strtokAt_nul dot_ne_zero hm hword (N := 16) (by omega)
      rw [hstr, decide_eq_true hnul, strtokIn_terminated, strtok_replicate]
      by_cases hne : word = []
      · subst hne
        exact ⟨_, hrun, rfl⟩
      · have hlast := strtok_word hne hdot (.inl rfl)
        rw [List.append_nil] at hlast
        rw [if_neg hne] at hrun
        rw [hlast]
        exact ⟨_, hrun, ⟨p + n, v ++ behind, rfl, drop_skipped hm, by omega⟩, rfl, rfl⟩
  | @atDelim n word hword hne v =>
      obtain ⟨hdot, hz⟩ := word_not_mem hword
      have hstr : cstr (List.replicate n dot ++ (word ++ dot :: v))
          = List.replicate n dot ++ (word ++ dot :: cstr v) := by
        rw [cstr_append (zero_not_mem_replicate n), cstr_append hz]
        rfl
      have hnul : (0 : UInt8) ∈ List.replicate n dot ++ (word ++ dot :: v) ↔ (0 : UInt8) ∈ v := by
        simp [zero_not_mem_replicate n, hz, dot_ne_zero.symm]
      simp only [List.append_assoc, List.cons_append] at hm
      simp only [List.length_append, List.length_replicate, List.length_cons] at hlen
      have hrun := strtokAt_delim dot_ne_zero hm hne hword (N := 16) (by omega)
      obtain ⟨htoken, hrest⟩ := drop_ended hm
      rw [hstr, strtokIn_atDelim _ n hne hdot]
      refine ⟨_, hrun, ⟨p + n, v ++ behind, rfl, htoken, by omega⟩, v, hrest, by omega, rfl, ?_⟩
      simp only [hnul]

theorem strtokNext_refines {tok : Tok} {rest : List UInt8}
    (h : Left terminated behind tok.memory tok.lasts rest) :
    Refines 16 (Tracks terminated behind) (strtokNext dot tok) (strtokIn terminated rest) := by
  cases hlasts : tok.lasts with
  | some p =>
      rw [hlasts] at h
      rw [strtokNext, hlasts]
      exact strtokAt_refines h
  | none =>
      rw [hlasts] at h
      obtain ⟨rfl, rfl⟩ := h
      rw [strtokNext, hlasts, strtokIn_terminated]
      exact ⟨_, Within.pure _, rfl⟩

/-- A round reads one number and moves to the next token. -/
theorem parseSegments_refines (n : ℕ) {tok : Tok} {segment : Option (List UInt8 × List UInt8)}
    (h : Tracks terminated behind tok segment) :
    Refines 16 (· = ·) (parseSegments n tok) (segments terminated n segment) := by
  induction n generalizing tok segment with
  | zero => exact ⟨[], Within.pure [], rfl⟩
  | succ n ih =>
      cases segment with
      | none =>
          have hnone : tok.token = none := h
          have hrest : Tracks terminated behind tok none := h
          rw [parseSegments, segments, hnone]
          refine (ih hrest).bind fun parts parts' hparts => ?_
          rw [hparts]
          exact Refines.pure rfl
      | some s =>
          obtain ⟨word, rest⟩ := s
          obtain ⟨⟨t, v, htoken, hm, hlt⟩, hleft⟩ := h
          rw [parseSegments, segments, htoken]
          refine (atoiAt_within hm hlt).refines ?_
          refine (strtokNext_refines hleft).bind fun next segment hnext => ?_
          refine (ih hnext).bind fun parts parts' hparts => ?_
          rw [hparts]
          exact Refines.pure rfl

/-- **The loop on memory refines `versionParts`**, whatever lies behind the array. -/
theorem parseVersion_refines (version : CharArray 16) (behind : List UInt8) :
    Refines 16 (· = ·) (parseVersion (version.1 ++ behind)) (versionParts version) := by
  have hleft : Left (decide ((0 : UInt8) ∈ version.1)) behind (version.1 ++ behind) (some 0) version.str :=
    ⟨version.1, rfl, by rw [version.2], rfl, rfl⟩
  exact (strtokAt_refines hleft).bind fun tok segment h => parseSegments_refines 3 h

/-! ### Which versions are parsed inside the array -/

/-- The number of places where a dot follows another character: the segments of a text that end at a
dot. -/
def endedSegments : List UInt8 → ℕ
  | b :: c :: s => (if b ≠ dot ∧ c = dot then 1 else 0) + endedSegments (c :: s)
  | _ => 0

theorem endedSegments_dot (s : List UInt8) : endedSegments (dot :: s) = endedSegments s := by
  cases s with
  | nil => rfl
  | cons c s => simp [endedSegments]

theorem endedSegments_dots (n : ℕ) (s : List UInt8) :
    endedSegments (List.replicate n dot ++ s) = endedSegments s := by
  induction n with
  | zero => rfl
  | succ n ih =>
      show endedSegments (dot :: (List.replicate n dot ++ s)) = _
      rw [endedSegments_dot, ih]

theorem endedSegments_word {word : List UInt8} (hdot : dot ∉ word) : endedSegments word = 0 := by
  induction word with
  | nil => rfl
  | cons b word ih =>
      cases word with
      | nil => rfl
      | cons c word =>
          have hrest : dot ∉ c :: word := fun h => hdot (List.mem_cons_of_mem b h)
          have hc : c ≠ dot := fun hc => hrest (hc ▸ List.mem_cons_self)
          rw [endedSegments, ih hrest, if_neg fun h => hc h.2]

theorem endedSegments_word_dot {word : List UInt8} (hne : word ≠ []) (hdot : dot ∉ word)
    (s : List UInt8) : endedSegments (word ++ dot :: s) = endedSegments s + 1 := by
  induction word with
  | nil => exact absurd rfl hne
  | cons b word ih =>
      have hb : b ≠ dot := fun hb => hdot (hb ▸ List.mem_cons_self)
      have hrest : dot ∉ word := fun h => hdot (List.mem_cons_of_mem b h)
      cases word with
      | nil =>
          show (if b ≠ dot ∧ dot = dot then 1 else 0) + endedSegments (dot :: s) = _
          rw [if_pos ⟨hb, rfl⟩, endedSegments_dot, Nat.add_comm]
      | cons c word =>
          have hc : c ≠ dot := fun hc => hrest (hc ▸ List.mem_cons_self)
          show (if b ≠ dot ∧ c = dot then 1 else 0) + endedSegments ((c :: word) ++ dot :: s) = _
          rw [if_neg fun h => hc h.2, ih (List.cons_ne_nil _ _) hrest, Nat.zero_add]

/-- On a terminated copy the loop always returns. -/
theorem segments_terminated (n : ℕ) (segment : Option (List UInt8 × List UInt8)) :
    ∃ parts, segments true n segment = .ok parts := by
  induction n generalizing segment with
  | zero => exact ⟨[], rfl⟩
  | succ n ih =>
      cases segment with
      | none =>
          obtain ⟨parts, hparts⟩ := ih none
          rw [segments, hparts]
          exact ⟨_, rfl⟩
      | some s =>
          obtain ⟨word, rest⟩ := s
          obtain ⟨parts, hparts⟩ := ih (strtok dot rest)
          rw [segments, strtokIn_terminated]
          show ∃ parts, (segments true n (strtok dot rest) >>= _) = .ok parts
          rw [hparts]
          exact ⟨_, rfl⟩

/-- Without a terminator `strtok` finds a segment that ends at a dot, or goes past the array. -/
theorem strtokIn_unterminated {s : List UInt8} (hz : (0 : UInt8) ∉ s) :
    strtokIn false s = .error .outOfBounds ∧ endedSegments s = 0 ∨
    ∃ word rest, strtokIn false s = .ok (some (word, rest)) ∧ (0 : UInt8) ∉ rest ∧
      endedSegments s = endedSegments rest + 1 := by
  cases firstToken dot s with
  | runsOut n hword =>
      obtain ⟨hdot, -⟩ := word_not_mem hword
      refine .inl ⟨strtokIn_runsOut n hdot, ?_⟩
      rw [endedSegments_dots, endedSegments_word hdot]
  | atNul n hword v => exact absurd (by simp) hz
  | @atDelim n word hword hne v =>
      obtain ⟨hdot, -⟩ := word_not_mem hword
      refine .inr ⟨word, v, strtokIn_atDelim false n hne hdot v, fun h => hz (by simp [h]), ?_⟩
      rw [endedSegments_dots, endedSegments_word_dot hne hdot]

theorem not_ok_of_fault (rounds : Option (List UInt8 × List UInt8) → Except Fault (List Long)) :
    ¬∃ parts, Except.error Fault.outOfBounds >>= rounds = .ok parts := by
  intro h
  obtain ⟨parts, hparts⟩ := h
  cases hparts

/-- Each call of `strtok` needs such a segment: the first one, and one more in every round. -/
theorem segments_unterminated (n : ℕ) {s : List UInt8} (hz : (0 : UInt8) ∉ s) :
    (∃ parts, strtokIn false s >>= segments false n = .ok parts) ↔ n + 1 ≤ endedSegments s := by
  induction n generalizing s with
  | zero =>
      rcases strtokIn_unterminated hz with ⟨hrun, hended⟩ | ⟨word, rest, hrun, -, hended⟩
      · rw [hrun, hended]
        exact ⟨fun h => absurd h (not_ok_of_fault _), fun h => by omega⟩
      · rw [hrun, hended]
        exact ⟨fun _ => Nat.le_add_left 1 _, fun _ => ⟨[], rfl⟩⟩
  | succ n ih =>
      rcases strtokIn_unterminated hz with ⟨hrun, hended⟩ | ⟨word, rest, hrun, hrest, hended⟩
      · rw [hrun, hended]
        exact ⟨fun h => absurd h (not_ok_of_fault _), fun h => by omega⟩
      · rw [hrun, hended, Nat.add_le_add_iff_right, ← ih hrest]
        show (∃ parts, segments false (n + 1) (some (word, rest)) = .ok parts) ↔ _
        rw [segments]
        constructor
        · intro h
          obtain ⟨parts, hparts⟩ := h
          obtain ⟨next, hnext, hround⟩ := FallibleRun.bind_ok hparts
          obtain ⟨tail, htail, -⟩ := FallibleRun.bind_ok hround
          rw [hnext]
          exact ⟨tail, htail⟩
        · intro h
          obtain ⟨tail, hrounds⟩ := h
          obtain ⟨next, hnext, htail⟩ := FallibleRun.bind_ok hrounds
          rw [hnext]
          show ∃ parts, segments false n next >>= _ = .ok parts
          rw [htail]
          exact ⟨_, rfl⟩

theorem segments_length {n : ℕ} {segment : Option (List UInt8 × List UInt8)} {parts : List Long}
    (h : segments terminated n segment = .ok parts) : parts.length = n := by
  induction n generalizing segment parts with
  | zero =>
      cases h
      rfl
  | succ n ih =>
      cases segment with
      | none =>
          rw [segments] at h
          obtain ⟨rest, hrest, hparts⟩ := FallibleRun.bind_ok h
          cases hparts
          rw [List.length_cons, ih hrest]
      | some s =>
          obtain ⟨word, rest⟩ := s
          rw [segments] at h
          obtain ⟨next, -, hnext⟩ := FallibleRun.bind_ok h
          obtain ⟨tail, htail, hparts⟩ := FallibleRun.bind_ok hnext
          cases hparts
          rw [List.length_cons, ih htail]

/-- The three numbers are found in a terminated array, and in one that holds four segments with the dots
behind them. -/
theorem versionParts_ok_iff (version : CharArray 16) :
    (∃ parts, versionParts version = .ok parts) ↔
      (0 : UInt8) ∈ version.1 ∨ 4 ≤ endedSegments version.str := by
  by_cases hterm : (0 : UInt8) ∈ version.1
  · obtain ⟨parts, hparts⟩ := segments_terminated 3 (strtok dot version.str)
    refine ⟨fun _ => .inl hterm, fun _ => ⟨parts, ?_⟩⟩
    rw [versionParts, decide_eq_true hterm, strtokIn_terminated]
    exact hparts
  · rw [versionParts, decide_eq_false hterm, or_iff_right hterm]
    exact segments_unterminated 3 (cstr_not_mem_zero version.1)

/-- The copy of a version is terminated exactly if the version has fewer than 16 characters. -/
theorem versionParts_copy_iff (tmp : CharArray 16) (version : List UInt8) :
    (∃ parts, versionParts (copyHighestVersion tmp version) = .ok parts) ↔
      strlen version < 16 ∨ 4 ≤ endedSegments ((cstr version).take 16) := by
  have hstr : (copyHighestVersion tmp version).str = (cstr version).take 16 := tmp.str_strncpy version
  rw [versionParts_ok_iff, nul_iff, hstr, List.length_take, strlen, min_lt_iff,
    or_iff_right (lt_irrefl 16)]

theorem versionParts_length {version : CharArray 16} {parts : List Long}
    (h : versionParts version = .ok parts) : parts.length = 3 := by
  obtain ⟨segment, -, hparts⟩ := FallibleRun.bind_ok h
  exact segments_length hparts

/-- The loop returns with three numbers, and the cells it has touched are those of
`highestVersionTmp`. -/
def ParsesInside (memory : List UInt8) : Prop :=
  ∃ parts cells, parseVersion memory = .done parts cells ∧ (∀ c ∈ cells, c < 16) ∧ parts.length = 3

theorem parsesInside_iff_versionParts (version : CharArray 16) (behind : List UInt8) :
    ParsesInside (version.1 ++ behind) ↔ ∃ parts, versionParts version = .ok parts := by
  have hiff := (parseVersion_refines version behind).within_iff
  constructor
  · intro h
    obtain ⟨parts, cells, hrun, hcells, -⟩ := h
    exact ⟨parts, (hiff parts).mp ⟨cells, hrun, hcells⟩⟩
  · intro h
    obtain ⟨parts, hparts⟩ := h
    obtain ⟨cells, hrun, hcells⟩ := (hiff parts).mpr hparts
    exact ⟨parts, cells, hrun, hcells, versionParts_length hparts⟩

/-- A check with an empty cache returns exactly if its loop stays inside the array. -/
theorem firmwareUpdateAvailable_returns_iff (tmp : CharArray 16) (version behind : List UInt8) :
    (∃ r, Check.firmwareUpdateAvailable ⟨some version, .unknown⟩ = .ok r) ↔
      ParsesInside ((copyHighestVersion tmp version).1 ++ behind) := by
  have hcopy := versionParts_copy_iff (.zero 16) version
  rw [parsesInside_iff_versionParts, versionParts_copy_iff, Check.firmwareUpdateAvailable]
  by_cases hempty : cstr version = []
  · have hshort : strlen version < 16 := by simp [strlen, hempty]
    simp only [hempty, if_true]
    exact ⟨fun _ => .inl hshort, fun _ => ⟨_, rfl⟩⟩
  · simp only [hempty, if_false]
    by_cases hsame : strEq currentVersion version = true
    · have hshort : strlen version < 16 := by
        rw [strlen, ← of_decide_eq_true hsame]
        decide
      rw [verdict, if_pos hsame]
      exact ⟨fun _ => .inl hshort, fun _ => ⟨_, rfl⟩⟩
    · -- the version in use is short, so the second loop returns whenever the first does
      obtain ⟨current, hcurrent⟩ := (versionParts_copy_iff (.zero 16) currentVersion).mpr (.inl (by decide))
      rw [copyHighestVersion] at hcurrent
      rw [verdict, if_neg hsame, hcurrent, ← hcopy, copyHighestVersion]
      constructor
      · intro h
        obtain ⟨r, hr⟩ := h
        obtain ⟨newer, hnewer, -⟩ := FallibleRun.bind_ok hr
        obtain ⟨highest, hhighest, -⟩ := FallibleRun.bind_ok hnewer
        exact ⟨highest, hhighest⟩
      · intro h
        obtain ⟨highest, hhighest⟩ := h
        rw [hhighest]
        exact ⟨_, rfl⟩

/-- **The version loop stays inside its copy exactly if the copy stops it.**  For every version, whatever
the array held before and whatever lies behind it: the loop touches only the array and fills the three
numbers exactly if the version has fewer than 16 characters, or its first 16 hold four segments that end
at a dot. -/
theorem parsesInside_iff (tmp : CharArray 16) (version behind : List UInt8) :
    ParsesInside ((copyHighestVersion tmp version).1 ++ behind) ↔
      strlen version < 16 ∨ 4 ≤ endedSegments ((cstr version).take 16) :=
  (parsesInside_iff_versionParts _ behind).trans (versionParts_copy_iff tmp version)

-- a long version whose fourth segment ends in the array
example : ParsesInside ((copyHighestVersion (.zero 16) (ascii "1.2.3.4.20190304")).1 ++ []) :=
  ⟨_, _, rfl, by decide, rfl⟩

/-- A version of 16 characters with two dots: the third `strtok` goes on behind the array. -/
def longVersion : List UInt8 := ascii "1.0.0-2019030401"

/-- The NUL that stops the loop is not in the array. -/
theorem longVersion_overruns :
    ¬ParsesInside ((copyHighestVersion (.zero 16) longVersion).1 ++ [0]) ∧
      ∃ parts cells, parseVersion ((copyHighestVersion (.zero 16) longVersion).1 ++ [0])
        = .done parts cells ∧ 16 ∈ cells := by
  have hrun : ∃ parts cells, parseVersion ((copyHighestVersion (.zero 16) longVersion).1 ++ [0])
      = .done parts cells ∧ 16 ∈ cells :=
    ⟨_, _, rfl, by decide⟩
  refine ⟨fun h => ?_, hrun⟩
  obtain ⟨parts, cells, hdone, hin⟩ := hrun
  obtain ⟨parts', cells', hdone', hcells, -⟩ := h
  rw [hdone] at hdone'
  cases hdone'
  exact absurd (hcells 16 hin) (lt_irrefl 16)

end EspFirmware
