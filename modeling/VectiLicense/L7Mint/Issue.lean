import VectiLicense.L3Verify.Fingerprint
import VectiLicense.L7Mint.Codec

/-!
# Issuing a licence: `tools/vl_mint.py issue`

`cmdIssue` is the subcommand from the parsed command line to the blob: the
device id in either spelling, the range checks, the two dates, the packed
payload, the signature and its check, and base32. Numbers are `Int`, as
`argparse` leaves them; every way out (`sys.exit`, an uncaught exception) is
an `Exit`. The seed is what `read_key` returned. What the tool prints around
the blob, `--out` and `--qr` are left out.

Ed25519 is the library's (`Ed25519Lib`): 32-byte public keys and 64-byte
signatures are what it documents.

* `parseWhen_epoch`: an epoch on the command line is itself.
* `cmdIssue_terms`: a command line that spells out `Terms` gives the base32 of
  the packed terms and their signature.
-/
namespace VectiLicense.L7

open VectiLicense.Core VectiLicense.L0 VectiLicense.L3 VectiLicense.L1.Base32

/-- mirrors tools/vl_mint.py:42-51 -/
def SIGN_PREFIX : List UInt8 :=
  ascii ['v', 'e', 'c', 't', 'i', 'l', 'i', 'c', 'e', 'n', 's', 'e', ':', 'v', '1']
def MAGIC : UInt8 := 0x56
def FORMAT_VERSION : UInt8 := 0x01
def BLOB_STR_LEN : Nat := 160
def DEVICE_ID_LEN : Nat := 16

/-- `SIGN`, `PUBKEY_OF` and `VERIFY`. -/
structure Ed25519Lib where
  sign : Vector UInt8 32 → List UInt8 → Vector UInt8 64
  pubkeyOf : Vector UInt8 32 → Vector UInt8 32
  verify : Vector UInt8 32 → Vector UInt8 64 → List UInt8 → Bool

/-- How `issue` ends without a blob. -/
inductive Exit where
  /-- `error: bad --device-id: {e}` -/
  | deviceId (e : ValueError)
  /-- The same for `bytes.fromhex`. -/
  | deviceIdHex
  /-- `error: device id must be 16 bytes` -/
  | deviceIdLength
  /-- `error: {name} must be 0..255` -/
  | notAByte (name : String)
  /-- `error: --features must fit in 32 bits` -/
  | features
  /-- `error: {s!r} is not YYYY-MM-DD or an epoch` -/
  | when (s : List Char)
  /-- `error: --expires is before --not-before` -/
  | expires
  /-- `internal error: freshly minted signature does not verify` -/
  | internal
  /-- An exception nobody catches. -/
  | raised
  deriving DecidableEq, Repr

/-- `if p: sys.exit(…)`. -/
def exitIf (p : Prop) [Decidable p] (e : Exit) : Except Exit Unit :=
  if p then .error e else .ok ()

/-- The members of the parsed command line that `issue` reads. An option that
was not given is `[]` where the code tests its truth, `none` where it tests
for `None`. -/
structure IssueArgs where
  deviceId : List Char
  deviceIdHex : List Char
  family : Int
  keyId : Int
  features : Int
  serial : Int
  notBefore : Option (List Char)
  expires : Option (List Char)

/-! ## The device id -/

def hexVal (ch : Char) : Option Nat :=
  if '0' ≤ ch ∧ ch ≤ '9' then some (ch.toNat - 48)
  else if 'a' ≤ ch ∧ ch ≤ 'f' then some (ch.toNat - 87)
  else if 'A' ≤ ch ∧ ch ≤ 'F' then some (ch.toNat - 55)
  else none

/-- ASCII white space, which `bytes.fromhex` skips between bytes. -/
def isSpace (ch : Char) : Prop := ch ∈ [' ', '\t', '\n', '\x0b', '\x0c', '\r']

instance (ch : Char) : Decidable (isSpace ch) := inferInstanceAs (Decidable (_ ∈ _))

/-- `bytes.fromhex`. -/
def fromHex : List Char → Option (List UInt8)
  | [] => some []
  | [ch] => if isSpace ch then some [] else none
  | ch :: ch' :: text =>
    if isSpace ch then fromHex (ch' :: text)
    else
      match hexVal ch, hexVal ch' with
      | some hi, some lo => (fromHex text).map fun bytes => UInt8.ofNat (16 * hi + lo) :: bytes
      | _, _ => none

/-- mirrors tools/vl_mint.py:249-253 -/
def deviceIdArg (a : IssueArgs) : Except Exit (List UInt8) :=
  if a.deviceIdHex = [] then
    match b32Decode a.deviceId DEVICE_ID_LEN with
    | .error e => .error (.deviceId e)
    | .ok dev => .ok dev
  else
    match fromHex a.deviceIdHex with
    | none => .error .deviceIdHex
    | some bytes => .ok (bytes.take DEVICE_ID_LEN)

/-! ## Dates -/

/-- `s.isdigit()` of ASCII text; Python also takes other scripts' digits. -/
def isDigits (s : List Char) : Prop := s ≠ [] ∧ ∀ c ∈ s, c.isDigit

instance (s : List Char) : Decidable (isDigits s) :=
  @instDecidableAnd _ _ inferInstance (List.decidableBAll _ _)

/-- `int(s)` of digits. -/
def pyInt (s : List Char) : Nat := Nat.ofDigitChars 10 s 0

/-- Split at the first `-`. -/
def cutDash : List Char → Option (List Char × List Char)
  | [] => none
  | c :: s => if c = '-' then some ([], s) else (cutDash s).map fun p => (c :: p.1, p.2)

def isLeap (y : Nat) : Prop := y % 4 = 0 ∧ (y % 100 ≠ 0 ∨ y % 400 = 0)

instance (y : Nat) : Decidable (isLeap y) := inferInstanceAs (Decidable (_ ∧ _))

def daysInMonth (y m : Nat) : Nat :=
  [31, if isLeap y then 29 else 28, 31, 30, 31, 30, 31, 31, 30, 31, 30, 31].getD (m - 1) 0

/-- `date.toordinal`: day 1 is 1 January of the year 1. -/
def toOrdinal (y m d : Nat) : Nat :=
  365 * (y - 1) + (y - 1) / 4 - (y - 1) / 100 + (y - 1) / 400 +
    ((List.range (m - 1)).map fun k => daysInMonth y (k + 1)).sum + d

/-- `dt.datetime.strptime(s, "%Y-%m-%d")` in UTC, as seconds since 1 January
1970: a four-digit year, then month and day in one or two digits, a one-digit
day also behind a space. ASCII text only, as above. -/
def strptime (s : List Char) : Option Int := do
  let (ys, rest) ← cutDash s
  let (ms, ds) ← cutDash rest
  let ds := match ds with
    | [' ', d] => [d]
    | ds => ds
  let (y, m, d) := (pyInt ys, pyInt ms, pyInt ds)
  if isDigits ys ∧ ys.length = 4 ∧ isDigits ms ∧ ms.length ≤ 2 ∧ isDigits ds ∧ ds.length ≤ 2 ∧
      1 ≤ y ∧ 1 ≤ m ∧ m ≤ 12 ∧ 1 ≤ d ∧ d ≤ daysInMonth y m then
    some (86400 * ((toOrdinal y m d : Int) - 719163))
  else none

/-- The model is for ASCII text.
mirrors tools/vl_mint.py:232-244 -/
def parseWhen (s : Option (List Char)) (endOfDay : Bool) : Except Exit Int :=
  match s with
  | none => .ok 0
  | some s =>
    if isDigits s then .ok (pyInt s)
    else
      match strptime s with
      | none => .error (.when s)
      | some d => .ok (if endOfDay then d + 86399 else d)

theorem parseWhen_epoch (n : Nat) (endOfDay : Bool) :
    parseWhen (some (Nat.toDigits 10 n)) endOfDay = .ok n := by
  have hdigits : isDigits (Nat.toDigits 10 n) :=
    ⟨Nat.toDigits_ne_nil, fun c hc => Nat.isDigit_of_mem_toDigits (by decide) (by decide) hc⟩
  simp only [parseWhen, if_pos hdigits, pyInt, Nat.ofDigitChars_ten_toDigits]

/-- The last second of a leap day. -/
example : parseWhen (some ['2', '0', '2', '8', '-', '0', '2', '-', '2', '9']) true =
    .ok 1835481599 := by decide +kernel

/-! ## The payload -/

/-- An element of `bytes([…])`. -/
def pyByte (n : Int) : Except Exit UInt8 :=
  if 0 ≤ n ∧ n ≤ 255 then .ok (UInt8.ofNat n.toNat) else .error .raised

/-- `struct.pack("<I", n)`. -/
def packU32 (n : Int) : Except Exit (List UInt8) :=
  if 0 ≤ n ∧ n ≤ 0xFFFFFFFF then .ok (leBytes 4 n.toNat) else .error .raised

/-- mirrors tools/vl_mint.py:84-91 -/
def payload (keyId family features : Int) (deviceId16 : List UInt8)
    (notBefore notAfter serial : Int) : Except Exit (List UInt8) := do
  exitIf (deviceId16.length ≠ DEVICE_ID_LEN) .raised
  let keyId ← pyByte keyId
  let family ← pyByte family
  let features ← packU32 features
  let notBefore ← packU32 notBefore
  let notAfter ← packU32 notAfter
  let serial ← packU32 serial
  return [MAGIC, FORMAT_VERSION, keyId, family] ++ features ++ deviceId16 ++ notBefore ++
    notAfter ++ serial

/-- mirrors tools/vl_mint.py:247-273 -/
def cmdIssue (lib : Ed25519Lib) (seed : Vector UInt8 32) (a : IssueArgs) :
    Except Exit (List Char) := do
  let dev ← deviceIdArg a
  exitIf (dev.length ≠ DEVICE_ID_LEN) .deviceIdLength
  exitIf (¬ (0 ≤ a.family ∧ a.family ≤ 255)) (.notAByte "--family")
  exitIf (¬ (0 ≤ a.keyId ∧ a.keyId ≤ 255)) (.notAByte "--key-id")
  exitIf (¬ (0 ≤ a.features ∧ a.features ≤ 0xFFFFFFFF)) .features
  let nb ← parseWhen a.notBefore false
  let na ← parseWhen a.expires true
  exitIf (nb ≠ 0 ∧ na ≠ 0 ∧ na < nb) .expires
  let p ← payload a.keyId a.family a.features dev nb na a.serial
  let msg := SIGN_PREFIX ++ [0] ++ p
  let sig := lib.sign seed msg
  exitIf (lib.verify (lib.pubkeyOf seed) sig msg = false) .internal
  let blob := b32 (p ++ sig.toList)
  exitIf (blob.length ≠ BLOB_STR_LEN) .raised
  return blob

/-! ## What is issued -/

/-- What a licence says, the device apart. -/
structure Terms where
  keyId : UInt8
  family : UInt8
  features : UInt32
  notBefore : UInt32
  notAfter : UInt32
  serial : UInt32

/-- The window is not empty. -/
def Terms.Ordered (terms : Terms) : Prop :=
  ¬ (terms.notBefore ≠ 0 ∧ terms.notAfter ≠ 0 ∧ terms.notAfter < terms.notBefore)

instance (terms : Terms) : Decidable terms.Ordered := inferInstanceAs (Decidable (¬ _))

/-- The command line spells out the terms and names the device by its id
string; the dates may be given in any form. -/
structure IssueArgs.Names (a : IssueArgs) (id : List Char) (terms : Terms) : Prop where
  deviceId : a.deviceId = id
  noHex : a.deviceIdHex = []
  family : a.family = terms.family.toNat
  keyId : a.keyId = terms.keyId.toNat
  features : a.features = terms.features.toNat
  serial : a.serial = terms.serial.toNat
  notBefore : parseWhen a.notBefore false = .ok terms.notBefore.toNat
  expires : parseWhen a.expires true = .ok terms.notAfter.toNat

/-- The 36 bytes that get signed. -/
def Terms.bytes (terms : Terms) (dev : List UInt8) : List UInt8 :=
  [0x56, 0x01, terms.keyId, terms.family] ++ leBytes 4 terms.features.toNat ++ dev ++
    leBytes 4 terms.notBefore.toNat ++ leBytes 4 terms.notAfter.toNat ++
    leBytes 4 terms.serial.toNat

@[simp] theorem Terms.length_bytes (terms : Terms) (dev : List UInt8) :
    (terms.bytes dev).length = 20 + dev.length := by
  simp only [Terms.bytes, List.length_append, List.length_cons, List.length_nil, length_leBytes]
  omega

theorem pyByte_toNat (b : UInt8) : pyByte b.toNat = .ok b := by
  have hlt := b.toNat_lt
  unfold pyByte
  rw [if_pos (by omega), Int.toNat_natCast, UInt8.ofNat_toNat]

theorem packU32_toNat (x : UInt32) : packU32 x.toNat = .ok (leBytes 4 x.toNat) := by
  have hlt := x.toNat_lt
  unfold packU32
  rw [if_pos (by omega), Int.toNat_natCast]

theorem ok_bind {α β : Type} (a : α) (f : α → Except Exit β) : (Except.ok a >>= f) = f a := rfl

theorem exitIf_not {p : Prop} [Decidable p] (h : ¬ p) (e : Exit) : exitIf p e = .ok () := if_neg h

theorem payload_terms (terms : Terms) {dev : List UInt8} (hdev : dev.length = 16) :
    payload terms.keyId.toNat terms.family.toNat terms.features.toNat dev terms.notBefore.toNat
      terms.notAfter.toNat terms.serial.toNat = .ok (terms.bytes dev) := by
  have hassert : ¬ dev.length ≠ DEVICE_ID_LEN := not_not.mpr hdev
  unfold payload
  rw [exitIf_not hassert, pyByte_toNat, pyByte_toNat, packU32_toNat, packU32_toNat,
    packU32_toNat, packU32_toNat]
  rfl

section
variable [Target]

theorem cmdIssue_terms {lib : Ed25519Lib} {seed : Vector UInt8 32} {a : IssueArgs}
    {dev : List UInt8} {terms : Terms} (hdev : dev.length = 16) (hnames : a.Names (b32 dev) terms)
    (hterms : terms.Ordered) (hself : ∀ msg, lib.verify (lib.pubkeyOf seed) (lib.sign seed msg) msg) :
    cmdIssue lib seed a = .ok (b32 (terms.bytes dev ++
      (lib.sign seed (SIGN_PREFIX ++ [0] ++ terms.bytes dev)).toList)) := by
  obtain ⟨-, -, -, -, hid, -⟩ := b32_round_trip dev (by omega) (by omega)
  have hdevice : deviceIdArg a = .ok dev := by
    rw [hdev] at hid
    unfold deviceIdArg
    rw [if_pos hnames.noHex, hnames.deviceId, show DEVICE_ID_LEN = 16 from rfl, hid]
  have hlen : ∀ sig : Vector UInt8 64,
      ¬ (b32 (terms.bytes dev ++ sig.toList)).length ≠ BLOB_STR_LEN := by
    intro sig
    obtain ⟨s, htext, hl, -⟩ := b32_round_trip (terms.bytes dev ++ sig.toList)
      (by simp [hdev]) (by simp [hdev])
    rw [← htext, text, List.length_map, hl]
    simp [hdev, BLOB_STR_LEN]
  have hassert : ¬ dev.length ≠ DEVICE_ID_LEN := not_not.mpr hdev
  have hbyte : ∀ b : UInt8, ¬ ¬ (0 ≤ (b.toNat : Int) ∧ (b.toNat : Int) ≤ 255) := by
    intro b
    have hlt := b.toNat_lt
    omega
  have hfeatures : ¬ ¬ (0 ≤ (terms.features.toNat : Int) ∧
      (terms.features.toNat : Int) ≤ 0xFFFFFFFF) := by
    have hlt := terms.features.toNat_lt
    omega
  have hwindow : ¬ ((terms.notBefore.toNat : Int) ≠ 0 ∧ (terms.notAfter.toNat : Int) ≠ 0 ∧
      (terms.notAfter.toNat : Int) < terms.notBefore.toNat) := by
    intro h
    refine hterms ⟨?_, ?_, ?_⟩
    · intro h0
      exact h.1 (by rw [h0]; rfl)
    · intro h0
      exact h.2.1 (by rw [h0]; rfl)
    · exact UInt32.lt_iff_toNat_lt.mpr (by omega)
  have hverify : ∀ msg, ¬ lib.verify (lib.pubkeyOf seed) (lib.sign seed msg) msg = false := by
    intro msg
    rw [hself msg]
    decide
  unfold cmdIssue
  rw [hdevice, hnames.family, hnames.keyId, hnames.features, hnames.serial, hnames.notBefore,
    hnames.expires]
  simp only [ok_bind, exitIf_not hassert, exitIf_not (hbyte _), exitIf_not hfeatures,
    exitIf_not hwindow, payload_terms terms hdev, exitIf_not (hlen _),
    exitIf_not (hverify _)]
  rfl

end

end VectiLicense.L7
