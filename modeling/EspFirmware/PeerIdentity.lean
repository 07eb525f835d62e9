import EspFirmware.Lib.CString
import Mathlib.Data.List.TakeDrop

/-!
# The identity of the peer

`verify_ssl_fingerprint` reads a fingerprint from a text, with blanks and colons between the bytes, and
compares it with the SHA-256 sum of the certificate; a domain name, if there is one, must be covered by a
name of the certificate.  The alternative names are compared in lower case, the common names as they are.

* `parseHexNibble`, `parseFingerprint`, `matchName`, `verifySslDn`, `verifySslFingerprint` — the source;
* `Spells` — what a text must look like to stand for some bytes;
* `Covers` — what a name with or without a wildcard stands for;
* `verifySslFingerprint_iff` — exactly which certificates are accepted.
-/

namespace EspFirmware.Tls

open CString

/-! ### The source -/

/-- `parseHexNibble`. -/
def parseHexNibble (pb : UInt8) : Option UInt8 :=
  if 48 ≤ pb ∧ pb ≤ 57 then some (pb - 48)
  else if 97 ≤ pb ∧ pb ≤ 102 then some (pb - 97 + 10)
  else if 65 ≤ pb ∧ pb ≤ 70 then some (pb - 65 + 10)
  else none

/-- A blank or a colon. -/
def isSeparator (b : UInt8) : Bool := decide (b = 32) || decide (b = 58)

/-- The loop of `verify_ssl_fingerprint` over the bytes of `fingerprint_local`: what comes after the last
byte is not looked at. -/
def parseFingerprint : ℕ → List UInt8 → Option (List UInt8)
  | 0, _ => some []
  | n + 1, fp =>
      match fp.dropWhile isSeparator with
      | high :: low :: rest =>
          match parseHexNibble high, parseHexNibble low with
          | some high, some low => (parseFingerprint n rest).map ((low ||| high <<< 4) :: ·)
          | _, _ => none
      | _ => none

def star : UInt8 := 42
def dot : UInt8 := 46

/-- `std::string::find` of a character, with `none` for `npos`. -/
def find (c : UInt8) (s : List UInt8) : Option ℕ := s.findIdx? (· == c)

/-- `matchName`; no position is greater than `npos`. -/
def matchName (name domainName : List UInt8) : Bool :=
  match find star name with
  | none => name == domainName
  | some wildcardPos =>
      if (find dot name).any (· < wildcardPos) then false
      else if wildcardPos ≠ 0 ∨ find dot name ≠ some 1 then false
      else
        match find dot domainName with
        | none => false
        | some domainNameFirstDotPos => domainName.drop domainNameFirstDotPos == name.drop 1

/-- `tolower`. -/
def toLower (b : UInt8) : UInt8 := if 65 ≤ b ∧ b ≤ 90 then b + 32 else b

/-- What is read of a certificate: its encoding, the alternative names, of which one without any has an
empty one, and the objects of the subject, with a mark at the common names. -/
structure Certificate where
  raw : List UInt8
  subjectAltNames : List (List UInt8)
  subject : List (Bool × List UInt8)

/-- `verify_ssl_dn`. -/
def verifySslDn (crt : Certificate) (domainName : List UInt8) : Bool :=
  crt.subjectAltNames.any (fun san => matchName (san.map toLower) ((cstr domainName).map toLower)) ||
    crt.subject.any (fun object => object.1 && matchName object.2 ((cstr domainName).map toLower))

/-- `verify_ssl_fingerprint`, with the certificate of the peer, if there is one. -/
def verifySslFingerprint (sha256 : List UInt8 → List UInt8) (peer : Option Certificate) (fp : List UInt8)
    (domainName : Option (List UInt8)) : Bool :=
  match parseFingerprint 32 (cstr fp), peer with
  | some fingerprintLocal, some crt =>
      if fingerprintLocal ≠ sha256 crt.raw then false
      else
        match domainName with
        | some name => verifySslDn crt name
        | none => true
  | _, _ => false

/-! ### Fingerprints -/

/-- `c` is the digit of value `v`, in either case. -/
def IsHexDigit (c : UInt8) (v : ℕ) : Prop :=
  v < 10 ∧ c.toNat = 48 + v ∨ 10 ≤ v ∧ v < 16 ∧ (c.toNat = 55 + v ∨ c.toNat = 87 + v)

/-- A text stands for some bytes: each is written with two digits, behind any blanks and colons. -/
def Spells : List UInt8 → List UInt8 → Prop
  | [], _ => True
  | b :: bytes, text => ∃ separators high low rest, text = separators ++ high :: low :: rest ∧
      (∀ s ∈ separators, s = 32 ∨ s = 58) ∧ IsHexDigit high (b.toNat / 16) ∧
      IsHexDigit low (b.toNat % 16) ∧ Spells bytes rest

theorem parseHexNibble_iff {c v : UInt8} : parseHexNibble c = some v ↔ IsHexDigit c v.toNat := by
  have hsub : ∀ k : UInt8, k ≤ c → (c - k).toNat = c.toNat - k.toNat := fun k hk =>
    UInt8.toNat_sub_of_le _ _ hk
  have hten : ∀ k : UInt8, k ≤ c → c ≤ k + 5 → (k + 5).toNat = k.toNat + 5 →
      (c - k + 10).toNat = c.toNat - k.toNat + 10 := by
    intro k hk hle hk5
    rw [UInt8.le_iff_toNat_le, hk5] at hle
    rw [UInt8.toNat_add, hsub k hk]
    simp only [UInt8.reduceToNat]
    omega
  unfold parseHexNibble IsHexDigit
  split_ifs with h1 h2 h3
  · rw [Option.some.injEq, ← UInt8.toNat_inj, hsub 48 h1.1]
    simp only [UInt8.le_iff_toNat_le, UInt8.reduceToNat] at h1 ⊢
    omega
  · rw [Option.some.injEq, ← UInt8.toNat_inj, hten 97 h2.1 h2.2 rfl]
    simp only [UInt8.le_iff_toNat_le, UInt8.reduceToNat] at h1 h2 ⊢
    omega
  · rw [Option.some.injEq, ← UInt8.toNat_inj, hten 65 h3.1 h3.2 rfl]
    simp only [UInt8.le_iff_toNat_le, UInt8.reduceToNat] at h1 h2 h3 ⊢
    omega
  · simp only [UInt8.le_iff_toNat_le, UInt8.reduceToNat] at h1 h2 h3
    simp only [false_iff]
    omega

theorem IsHexDigit.lt {c : UInt8} {v : ℕ} (h : IsHexDigit c v) : v < 16 := by
  rcases h with ⟨h, -⟩ | ⟨-, h, -⟩ <;> omega

theorem IsHexDigit.not_separator {c : UInt8} {v : ℕ} (h : IsHexDigit c v) : isSeparator c = false := by
  have hc : c.toNat ≠ 32 ∧ c.toNat ≠ 58 := by
    rcases h with ⟨hv, hc⟩ | ⟨hten, hv, hc⟩ <;> omega
  rw [isSeparator, Bool.or_eq_false_iff, decide_eq_false_iff_not, decide_eq_false_iff_not]
  exact ⟨fun heq => hc.1 (congrArg UInt8.toNat heq), fun heq => hc.2 (congrArg UInt8.toNat heq)⟩

theorem nibbles_toNat {high low : UInt8} (hhigh : high.toNat < 16) (hlow : low.toNat < 16) :
    (low ||| high <<< 4).toNat = 16 * high.toNat + low.toNat := by
  have hshift : (high <<< 4).toNat = 2 ^ 4 * high.toNat := by
    rw [UInt8.toNat_shiftLeft]
    simp [Nat.shiftLeft_eq]
    omega
  rw [UInt8.toNat_or, hshift, Nat.or_comm, ← Nat.two_pow_add_eq_or_of_lt hlow]

/-- The byte of two nibbles is determined by its quotient and remainder. -/
theorem nibbles_eq_iff {high low b : UInt8} (hhigh : high.toNat < 16) (hlow : low.toNat < 16) :
    low ||| high <<< 4 = b ↔ high.toNat = b.toNat / 16 ∧ low.toNat = b.toNat % 16 := by
  rw [← UInt8.toNat_inj, nibbles_toNat hhigh hlow]
  omega

theorem dropWhile_separators {separators rest : List UInt8} {c : UInt8}
    (hsep : ∀ s ∈ separators, s = 32 ∨ s = 58) (hc : isSeparator c = false) :
    (separators ++ c :: rest).dropWhile isSeparator = c :: rest := by
  have hall : ∀ s ∈ separators, isSeparator s = true := by
    intro s hs
    rcases hsep s hs with rfl | rfl <;> rfl
  rw [List.dropWhile_append_of_pos hall, List.dropWhile_cons_of_neg (by simp [hc])]

/-- A round of the loop that finds two digits. -/
theorem parseFingerprint_digits {n : ℕ} {fp rest : List UInt8} {high low h l : UInt8}
    (hfp : fp.dropWhile isSeparator = high :: low :: rest) (hhigh : parseHexNibble high = some h)
    (hlow : parseHexNibble low = some l) :
    parseFingerprint (n + 1) fp = (parseFingerprint n rest).map ((l ||| h <<< 4) :: ·) := by
  simp only [parseFingerprint, hfp, hhigh, hlow]

/-- A loop that succeeds has found two digits in its first round. -/
theorem parseFingerprint_some {n : ℕ} {fp bytes : List UInt8} (h : parseFingerprint (n + 1) fp = some bytes) :
    ∃ high low rest h l bytes', fp.dropWhile isSeparator = high :: low :: rest ∧
      parseHexNibble high = some h ∧ parseHexNibble low = some l ∧
      parseFingerprint n rest = some bytes' ∧ bytes = (l ||| h <<< 4) :: bytes' := by
  rw [parseFingerprint] at h
  split at h
  · rename_i high low rest hfp
    split at h
    · rename_i h' l hhigh hlow
      obtain ⟨bytes', hrest, rfl⟩ := Option.map_eq_some_iff.mp h
      exact ⟨high, low, rest, h', l, bytes', hfp, hhigh, hlow, hrest, rfl⟩
    · cases h
  · cases h

/-- **The texts that are read as a fingerprint**, and the bytes they stand for. -/
theorem parseFingerprint_iff (n : ℕ) (fp bytes : List UInt8) :
    parseFingerprint n fp = some bytes ↔ bytes.length = n ∧ Spells bytes fp := by
  induction n generalizing fp bytes with
  | zero =>
      rw [parseFingerprint, Option.some.injEq, List.length_eq_zero_iff]
      constructor
      · rintro rfl
        exact ⟨rfl, trivial⟩
      · exact fun h => h.1.symm
  | succ n ih =>
      constructor
      · intro h
        obtain ⟨high, low, rest, h', l, bytes', hfp, hhigh, hlow, hrest, rfl⟩ := parseFingerprint_some h
        obtain ⟨hlen, hspells⟩ := (ih rest bytes').mp hrest
        have hhigh' := parseHexNibble_iff.mp hhigh
        have hlow' := parseHexNibble_iff.mp hlow
        obtain ⟨hq, hr⟩ := (nibbles_eq_iff hhigh'.lt hlow'.lt).mp rfl
        rw [hq] at hhigh'
        rw [hr] at hlow'
        refine ⟨by rw [List.length_cons, hlen], fp.takeWhile isSeparator, high, low, rest, ?_, ?_, hhigh',
          hlow', hspells⟩
        · rw [← hfp, List.takeWhile_append_dropWhile]
        · intro s hs
          have := List.mem_takeWhile_imp hs
          simpa [isSeparator] using this
      · rintro ⟨hlen, hspells⟩
        obtain ⟨b, bytes', rfl⟩ := List.exists_cons_of_length_eq_add_one hlen
        obtain ⟨separators, high, low, rest, rfl, hsep, hhigh, hlow, hrest⟩ := hspells
        -- the nibbles of the byte, as bytes
        have hb := b.toNat_lt
        have hq : (UInt8.ofNat (b.toNat / 16)).toNat = b.toNat / 16 :=
          UInt8.toNat_ofNat_of_lt (show b.toNat / 16 < 256 by omega)
        have hr : (UInt8.ofNat (b.toNat % 16)).toNat = b.toNat % 16 :=
          UInt8.toNat_ofNat_of_lt (show b.toNat % 16 < 256 by omega)
        have hjoin : UInt8.ofNat (b.toNat % 16) ||| UInt8.ofNat (b.toNat / 16) <<< 4 = b :=
          (nibbles_eq_iff (by omega) (by omega)).mpr ⟨hq, hr⟩
        rw [parseFingerprint_digits (dropWhile_separators hsep hhigh.not_separator)
          (parseHexNibble_iff.mpr (by rw [hq]; exact hhigh)) (parseHexNibble_iff.mpr (by rw [hr]; exact hlow)),
          (ih rest bytes').mpr ⟨by simpa using hlen, hrest⟩, hjoin]
        rfl

/-! ### Names -/

/-- A name without a wildcard covers itself, and one whose first label is a wildcard every domain with one
label in its place. -/
def Covers (name domain : List UInt8) : Prop :=
  star ∉ name ∧ name = domain ∨
    ∃ label rest, name = star :: dot :: rest ∧ domain = label ++ dot :: rest ∧ dot ∉ label

theorem find_none_iff {c : UInt8} {s : List UInt8} : find c s = none ↔ c ∉ s := by
  rw [find, List.findIdx?_eq_none_iff]
  constructor
  · intro h hc
    simpa using h c hc
  · intro h x hx
    have hne : x ≠ c := fun heq => h (heq ▸ hx)
    simpa using hne

/-- Where a character is found first. -/
theorem find_some_iff {c : UInt8} {s : List UInt8} {i : ℕ} :
    find c s = some i ↔ ∃ front rest, s = front ++ c :: rest ∧ front.length = i ∧ c ∉ front := by
  induction s generalizing i with
  | nil => simp [find]
  | cons b s ih =>
      rw [find, List.findIdx?_cons]
      by_cases hb : b = c
      · subst hb
        rw [if_pos (by simp), Option.some.injEq]
        constructor
        · rintro rfl
          exact ⟨[], s, rfl, rfl, by simp⟩
        · rintro ⟨front, rest, hs, rfl, hfront⟩
          cases front with
          | nil => rfl
          | cons d front =>
              obtain ⟨rfl, -⟩ := List.cons.inj hs
              exact absurd List.mem_cons_self hfront
      · rw [if_neg (by simpa using hb), Option.map_eq_some_iff]
        constructor
        · rintro ⟨j, hj, rfl⟩
          obtain ⟨front, rest, rfl, rfl, hfront⟩ := ih.mp hj
          refine ⟨b :: front, rest, rfl, rfl, ?_⟩
          rw [List.mem_cons, not_or]
          exact ⟨Ne.symm hb, hfront⟩
        · rintro ⟨front, rest, hs, rfl, hfront⟩
          cases front with
          | nil => exact absurd (List.cons.inj hs).1 hb
          | cons d front =>
              obtain ⟨rfl, rfl⟩ := List.cons.inj hs
              rw [List.mem_cons, not_or] at hfront
              exact ⟨front.length, ih.mpr ⟨front, rest, rfl, rfl, hfront.2⟩, rfl⟩

/-- The domains a wildcard label matches. -/
theorem matchName_wildcard (rest domain : List UInt8) :
    matchName (star :: dot :: rest) domain = true ↔ ∃ label, domain = label ++ dot :: rest ∧ dot ∉ label := by
  have hstar : find star (star :: dot :: rest) = some 0 :=
    find_some_iff.mpr ⟨[], dot :: rest, rfl, rfl, by simp⟩
  have hdot : find dot (star :: dot :: rest) = some 1 :=
    find_some_iff.mpr ⟨[star], rest, rfl, rfl, by decide⟩
  have hmatch : matchName (star :: dot :: rest) domain = true ↔
      ∃ d, find dot domain = some d ∧ domain.drop d = dot :: rest := by
    cases hd : find dot domain <;> simp [matchName, hstar, hdot, hd]
  rw [hmatch]
  constructor
  · rintro ⟨d, hd, hdrop⟩
    obtain ⟨label, rest', rfl, rfl, hlabel⟩ := find_some_iff.mp hd
    rw [List.drop_left] at hdrop
    exact ⟨label, by rw [hdrop], hlabel⟩
  · rintro ⟨label, rfl, hlabel⟩
    exact ⟨label.length, find_some_iff.mpr ⟨label, rest, rfl, rfl, hlabel⟩, List.drop_left⟩

/-- A name with a wildcard that matches anything has it for its first label. -/
theorem matchName_star {name domain : List UInt8} (hstar : star ∈ name) (h : matchName name domain = true) :
    ∃ rest, name = star :: dot :: rest := by
  have hsome : ∃ w, find star name = some w := by
    rw [← Option.ne_none_iff_exists']
    exact fun hnone => find_none_iff.mp hnone hstar
  obtain ⟨w, hw⟩ := hsome
  simp only [matchName, hw] at h
  split_ifs at h with hleft hfirst
  rw [not_or, not_not, not_not] at hfirst
  obtain ⟨rfl, hdot⟩ := hfirst
  obtain ⟨front, rest, hname, hlen, -⟩ := find_some_iff.mp hdot
  obtain ⟨front', rest', hname', hlen', -⟩ := find_some_iff.mp hw
  obtain rfl : front' = [] := List.eq_nil_of_length_eq_zero hlen'
  obtain ⟨b, rfl⟩ := List.length_eq_one_iff.mp hlen
  have hb : b = star := by
    have := hname.symm.trans hname'
    exact (List.cons.inj this).1
  exact ⟨rest, by rw [hname, hb]; rfl⟩

/-- **The domains a name matches.** -/
theorem matchName_iff (name domain : List UInt8) : matchName name domain = true ↔ Covers name domain := by
  by_cases hstar : star ∈ name
  · constructor
    · intro h
      obtain ⟨rest, rfl⟩ := matchName_star hstar h
      obtain ⟨label, hdomain, hlabel⟩ := (matchName_wildcard rest domain).mp h
      exact .inr ⟨label, rest, rfl, hdomain, hlabel⟩
    · rintro (⟨hnone, -⟩ | ⟨label, rest, rfl, hdomain, hlabel⟩)
      · exact absurd hstar hnone
      · exact (matchName_wildcard rest domain).mpr ⟨label, hdomain, hlabel⟩
  · have hnone := find_none_iff.mpr hstar
    simp only [matchName, hnone, beq_iff_eq]
    constructor
    · exact fun h => .inl ⟨hstar, h⟩
    · rintro (⟨-, h⟩ | ⟨label, rest, rfl, -⟩)
      · exact h
      · exact absurd List.mem_cons_self hstar

/-! ### The whole check -/

/-- A name of the certificate covers the domain, which is compared in lower case. -/
def Certificate.Names (crt : Certificate) (domain : List UInt8) : Prop :=
  (∃ san ∈ crt.subjectAltNames, Covers (san.map toLower) (domain.map toLower)) ∨
    ∃ object ∈ crt.subject, object.1 = true ∧ Covers object.2 (domain.map toLower)

theorem verifySslDn_iff (crt : Certificate) (domainName : List UInt8) :
    verifySslDn crt domainName = true ↔ crt.Names (cstr domainName) := by
  simp only [verifySslDn, Certificate.Names, Bool.or_eq_true, List.any_eq_true, Bool.and_eq_true,
    matchName_iff]

/-- **Exactly which peers are accepted.**  For every certificate, every text and every sum of 32 bytes: the
text begins with a spelling of the sum of the certificate, in any case and with any blanks and colons, and
one of the names of the certificate covers the domain name, if there is one. -/
theorem verifySslFingerprint_iff (sha256 : List UInt8 → List UInt8) (hsum : ∀ data, (sha256 data).length = 32)
    (peer : Option Certificate) (fp : List UInt8) (domainName : Option (List UInt8)) :
    verifySslFingerprint sha256 peer fp domainName = true ↔
      ∃ crt, peer = some crt ∧ Spells (sha256 crt.raw) (cstr fp) ∧
        ∀ name, domainName = some name → crt.Names (cstr name) := by
  cases peer with
  | none =>
      have hfalse : verifySslFingerprint sha256 none fp domainName = false := by
        cases hp : parseFingerprint 32 (cstr fp) <;> simp only [verifySslFingerprint, hp]
      simp [hfalse]
  | some crt =>
      have hparse : parseFingerprint 32 (cstr fp) = some (sha256 crt.raw) ↔
          Spells (sha256 crt.raw) (cstr fp) := by
        rw [parseFingerprint_iff]
        exact ⟨fun h => h.2, fun h => ⟨hsum _, h⟩⟩
      have hcheck : verifySslFingerprint sha256 (some crt) fp domainName = true ↔
          parseFingerprint 32 (cstr fp) = some (sha256 crt.raw) ∧
            ∀ name, domainName = some name → verifySslDn crt name = true := by
        cases hp : parseFingerprint 32 (cstr fp) with
        | none => simp [verifySslFingerprint, hp]
        | some bytes => cases domainName <;> simp [verifySslFingerprint, hp]
      rw [hcheck, hparse]
      simp only [verifySslDn_iff]
      constructor
      · exact fun h => ⟨crt, rfl, h⟩
      · rintro ⟨crt', hcrt, h⟩
        obtain rfl := Option.some.inj hcrt
        exact h

/-- A wildcard certificate whose sum is written with colons and mixed case. -/
def wildcardCertificate : Certificate := ⟨[], [ascii "*.Somedomain.com"], []⟩

theorem verifySslFingerprint_iff_wildcard :
    Spells (List.replicate 32 0xAB) (cstr (List.replicate 32 (ascii ":aB")).flatten) ∧
      wildcardCertificate.Names (cstr (ascii "device.somedomain.COM")) := by
  obtain ⟨crt, hcrt, hspells, hnames⟩ := (verifySslFingerprint_iff (fun _ => List.replicate 32 0xAB)
    (fun _ => List.length_replicate) (some wildcardCertificate) (List.replicate 32 (ascii ":aB")).flatten
    (some (ascii "device.somedomain.COM"))).mp (by decide)
  obtain rfl := Option.some.inj hcrt
  exact ⟨hspells, hnames _ rfl⟩

end EspFirmware.Tls
