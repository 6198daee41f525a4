import VectiLicense.L5Hal.Boards
import VectiLicense.L7Mint.Genuine

/-!
# One licence, one board

The identity callbacks of the shipped HALs under the fingerprint of the core. A
board whose hardware did not answer has no fingerprint, so that two of them cannot
share one; a board that answers has the SHA-256 of its framed segments; and under
one HAL the segments tell the boards apart.

* `board_fingerprint`: what a board's fingerprint is, or that there is none and
  no licence is ever accepted.
* `one_licence_one_board`: a licence accepted on two boards of a kind.
-/
namespace VectiLicense.L7

open VectiLicense.Core VectiLicense.L0 VectiLicense.L3 VectiLicense.L5 VectiLicense.L1.Base32
open VectiLicense.L1.Hash (sha256)
open VectiLicense.L4.Mark (FIX_PUBKEY)

section
variable {σ : Type}

/-- A board's device; the other callbacks, and what the stack holds, are left open. -/
abbrev boardHal (b : Board) (rest : VlHal σ) (stale : UInt32 → σ → Buf 255) : VlHal σ :=
  identityHal b.read rest stale

/-- A HAL with nothing but an identity. -/
def identityOnly : VlHal Unit := ⟨none, none, none, none, none, none, none⟩

theorem firstSegments_list {segs : List (List UInt8)} (h : segs.length ≤ VL_ID_SEGMENT_COUNT_MAX) :
    firstSegments (some segs.length) (fun i => segs.getD i []) = segs := by
  rw [firstSegments, remaining, Nat.sub_zero, Nat.min_eq_right h]
  refine List.ext_getElem (by simp) fun i hi _ => ?_
  simp only [List.length_map, List.length_range] at hi
  simp [List.getD_eq_getElem?_getD, hi]

theorem board_yields {b : Board} {segs : List (List UInt8)} (h : b.segments = some segs)
    (rest : VlHal σ) (stale : UInt32 → σ → Buf 255) (s : σ) :
    Yields (boardHal b rest stale) s (some segs.length) fun i => segs.getD i [] :=
  (board_reads b).yields rest stale s (board_gives h)

theorem segmentsFp_board {b : Board} {segs : List (List UInt8)} (h : b.segments = some segs) :
    segmentsFp (some segs.length) (fun i => segs.getD i []) = sha256 (preimage segs) := by
  rw [segmentsFp, firstSegments_list (board_gives h).few]

theorem identityRun_refused {b : Board} (h : b.segments = none) (rest : VlHal σ)
    (stale : UInt32 → σ → Buf 255) (s : σ) (cr : Crypto) :
    (identityRun cr (boardHal b rest stale) s).val = (.errPlatform, some (Vector.replicate 32 0)) := by
  obtain ⟨i, hi⟩ := board_refuses h
  exact (board_reads b).refused rest stale s hi cr _

variable [Target]

theorem identity_of_ok {cr : Crypto} {str : CStr} {c : VlConfig} {hal : VlHal σ}
    {out : Option VlLicense} {s : σ}
    (hok : (verifyOn cr (some str) (some c) (some hal) out s).val.1 = .ok) :
    (identityRun cr hal s).val.1 = .ok := by
  have hpass := verifyOn_passed hok
  simp only [checks, laterChecks, deviceChecks, passAll_cons, passAll_append] at hpass
  exact hpass.2.2.1.1

theorem refused_not_ok {b : Board} (hnone : b.segments = none) {cr : Crypto} {str : CStr}
    {c : VlConfig} {rest : VlHal σ} {stale : UInt32 → σ → Buf 255} {out : Option VlLicense} {s : σ} :
    (verifyOn cr (some str) (some c) (some (boardHal b rest stale)) out s).val.1 ≠ .ok := by
  intro hok
  have hid := identity_of_ok hok
  rw [identityRun_refused hnone] at hid
  cases hid

theorem genuine_of_board {b : Board} {stack : Stack} {str : CStr} {c : VlConfig} {rest : VlHal σ}
    {stale : UInt32 → σ → Buf 255} {out : Option VlLicense} {s : σ}
    (hok : (verifyOn (deviceCrypto stack) (some str) (some c) (some (boardHal b rest stale)) out
      s).val.1 = .ok) :
    ∃ segs bytes, b.segments = some segs ∧ Genuine c str bytes ∧
      (sha256 (preimage segs)).toList.take 16 = (bytes.drop 8).take 16 := by
  cases hsegs : b.segments with
  | none => exact absurd hok (refused_not_ok hsegs)
  | some segs =>
    obtain ⟨bytes, hgenuine, hid⟩ := genuine_of_ok (board_yields hsegs rest stale s) hok
    rw [segmentsFp_board hsegs] at hid
    exact ⟨segs, bytes, rfl, hgenuine, hid⟩

omit [Target] in
theorem segments_short {b : Board} {segs : List (List UInt8)} (h : b.segments = some segs) :
    ∀ f ∈ segs, f.length ≤ 255 := by
  intro f hf
  have hshort := firstSegments_short (board_yields h identityOnly (fun _ _ => Vector.replicate 255 0) ())
  rw [firstSegments_list (board_gives h).few] at hshort
  exact hshort f hf

/-- **The fingerprint of a board**: the SHA-256 of its framed segments, whatever the
buffer and the stack held and whatever else the HAL can do. A board that does not answer
has none, only a status and zeros, and no licence is accepted on it. -/
theorem board_fingerprint (b : Board) (rest : VlHal σ) (stale : UInt32 → σ → Buf 255) (s : σ) :
    (∀ (stack : Stack) segs, b.segments = some segs →
      (identityRun (deviceCrypto stack) (boardHal b rest stale) s).val =
        (.ok, some (sha256 (preimage segs)))) ∧
    (b.segments = none → ∀ cr : Crypto,
      (identityRun cr (boardHal b rest stale) s).val = (.errPlatform, some (Vector.replicate 32 0)) ∧
      ∀ (str : CStr) (c : VlConfig) (out : Option VlLicense),
        (verifyOn cr (some str) (some c) (some (boardHal b rest stale)) out s).val.1 ≠ .ok) := by
  refine ⟨fun stack segs hsegs => ?_, fun hnone cr => ?_⟩
  · rw [identityRun_genuine stack (board_yields hsegs rest stale s), segmentsFp_board hsegs]
  · have hrun := identityRun_refused hnone rest stale s cr
    exact ⟨hrun, fun str c out => refused_not_ok hnone⟩

/-- **One licence, one board**: where two boards of a kind accept the same blob, under
whatever configuration, they have the same hardware as far as their HAL hashes it, or
their segments are two strings whose SHA-256 agree in 128 bits. -/
theorem one_licence_one_board {τ : Type} (b b' : Board) (hkind : b.kind = b'.kind) (str : CStr)
    (stack stack' : Stack) (c c' : VlConfig) (rest : VlHal σ) (rest' : VlHal τ)
    (stale : UInt32 → σ → Buf 255) (stale' : UInt32 → τ → Buf 255) (out out' : Option VlLicense)
    (s : σ) (s' : τ)
    (hok : (verifyOn (deviceCrypto stack) (some str) (some c) (some (boardHal b rest stale)) out
      s).val.1 = .ok)
    (hok' : (verifyOn (deviceCrypto stack') (some str) (some c') (some (boardHal b' rest' stale'))
      out' s').val.1 = .ok) :
    b.hashed = b'.hashed ∨
      ∃ segs segs', b.segments = some segs ∧ b'.segments = some segs' ∧
        preimage segs ≠ preimage segs' ∧
        (sha256 (preimage segs)).toList.take 16 = (sha256 (preimage segs')).toList.take 16 := by
  obtain ⟨segs, bytes, hsegs, hgenuine, hid⟩ := genuine_of_board hok
  obtain ⟨segs', bytes', hsegs', hgenuine', hid'⟩ := genuine_of_board hok'
  obtain rfl := hgenuine.decodes.unique hgenuine'.decodes
  by_cases hsame : preimage segs = preimage segs'
  · obtain rfl := preimage_inj (segments_short hsegs) (segments_short hsegs') hsame
    exact .inl (segments_inj hkind hsegs hsegs')
  · exact .inr ⟨segs, segs', hsegs, hsegs', hsame, hid.trans hid'.symm⟩

/-! ## What the stack held -/

omit [Target] in
theorem deviceCrypto_congr {stack stack' : Stack} {sig msg : List UInt8} {pk : Vector UInt8 32}
    (hmsg : msg.length + 64 < 2 ^ 64)
    (h : (deviceCrypto stack).vlEd25519Verify sig msg pk = true) :
    (deviceCrypto stack').vlEd25519Verify sig msg pk = true := by
  obtain ⟨R, S, hRS⟩ := Ed25519.Limbs.exists_joinSig (sigAt sig)
  have hall : Ed25519.messageOf (some msg) msg.length = msg := List.take_length
  rw [deviceCrypto_iff, hRS] at h ⊢
  exact (Ed25519.verify_exact _ R S pk (some msg) msg.length (by rw [hall]; exact hmsg)).1.mpr
    ((Ed25519.verify_exact _ R S pk (some msg) msg.length (by rw [hall]; exact hmsg)).1.mp h)

omit [Target] in
theorem argsOk_identityOnly {b : Board} {str : CStr} {c : VlConfig}
    {stale : UInt32 → Unit → Buf 255} :
    ArgsOk (some str) (some c) (some (boardHal b identityOnly stale)) ↔
      ∃ keys, c.keys = some keys ∧ keys ≠ [] ∧ ¬ c.enforceHwm := by
  refine ⟨?_, ?_⟩
  · rintro ⟨-, c', h, keys, hc, hh, hkeys, hne, -, hhwm⟩
    cases hc
    cases hh
    refine ⟨keys, hkeys, hne, fun hf => ?_⟩
    cases (hhwm hf).1
  · rintro ⟨keys, hkeys, hne, hhwm⟩
    exact ⟨rfl, c, _, keys, rfl, rfl, hkeys, hne, rfl, fun hf => absurd hf hhwm⟩

/-- Two runs that differ in what the stack held make the same checks. -/
theorem checks_stack (b : Board) (str : CStr) (c : VlConfig) (stack stack' : Stack)
    (stale stale' : UInt32 → Unit → Buf 255) :
    List.Forall₂ (fun c c' => (c.passes ↔ c'.passes) ∧ c.error = c'.error)
      (checks (deviceCrypto stack) (some str) (some c) (some (boardHal b identityOnly stale)) ())
      (checks (deviceCrypto stack') (some str) (some c) (some (boardHal b identityOnly stale')) ()) := by
  have hid : (identityRun (deviceCrypto stack) (boardHal b identityOnly stale) ()).val =
      (identityRun (deviceCrypto stack') (boardHal b identityOnly stale') ()).val := by
    cases hsegs : b.segments with
    | none => rw [identityRun_refused hsegs, identityRun_refused hsegs]
    | some segs =>
      rw [identityRun_genuine stack (board_yields hsegs identityOnly stale ()),
        identityRun_genuine stack' (board_yields hsegs identityOnly stale' ())]
  have hshort : ∀ bytes : List UInt8,
      (VL_SIGN_PREFIX ++ [0] ++ bytes.take 36).length + 64 < 2 ^ 64 := by
    intro bytes
    simp only [VL_SIGN_PREFIX, ascii, List.length_append, List.length_map, List.length_cons,
      List.length_nil, List.length_take]
    omega
  have hclock : ∀ stale, (boardHal b identityOnly stale).nowEpoch = none := fun _ => rfl
  simp only [checks, laterChecks, blobChecks, deviceChecks, clockChecks, markChecks,
    List.cons_append, List.nil_append, List.forall₂_cons, List.forall₂_nil_left_iff, and_true, hid,
    argsOk_identityOnly, true_and, iff_self]
  refine ⟨?_, ?_⟩
  · constructor <;> exact fun h bytes pk hb hk => deviceCrypto_congr (hshort bytes) (h bytes pk hb hk)
  · simp [hclock]

/-- A verdict on a board without a clock is one on its segments alone. -/
theorem verdict_stack (b : Board) (str : CStr) (c : VlConfig) (lic lic' : VlLicense)
    (stack stack' : Stack) (stale stale' : UInt32 → Unit → Buf 255) :
    (verifyOn (deviceCrypto stack) (some str) (some c) (some (boardHal b identityOnly stale))
        (some lic) ()).val =
      (verifyOn (deviceCrypto stack') (some str) (some c) (some (boardHal b identityOnly stale'))
        (some lic') ()).val := by
  have hchecks := checks_stack b str c stack stack' stale stale'
  obtain ⟨r, hverdict, -, -⟩ := verifyOn_cases (deviceCrypto stack) (some str) (some c)
    (some (boardHal b identityOnly stale)) (some lic) ()
  cases r with
  | error e =>
    rw [verifyOn_first hverdict, verifyOn_first (FirstFailure.congr hchecks hverdict)]
    rfl
  | ok _ =>
    have hok := verifyOn_passes hverdict (some lic)
    have hok' := verifyOn_passes (PassAll.congr hchecks hverdict) (some lic')
    have hpass : PassAll (checks (deviceCrypto stack) _ _ _ _) := hverdict
    simp only [checks, laterChecks, blobChecks, passAll_cons, passAll_append] at hpass
    obtain ⟨bytes, hbytes⟩ := hpass.2.1.1
    exact Prod.ext (hok.trans hok'.symm)
      ((verifyOn_license hbytes hok).trans (verifyOn_license hbytes hok').symm)

end

/-- An ESP32 with model number `model`. -/
def espBoard (model : UInt32) : Board :=
  .esp32 ⟨some #v[0x24, 0x6F, 0x28, 0xAB, 0xCD, 0x01], ⟨model, 2, 301, 0x32⟩, some 0x00C84017⟩

/-- Two ESP32 whose model numbers agree in eight bits share their segments, and a licence
minted for the one is accepted on both. -/
theorem one_licence_one_board_esp : ∃ blob : CStr, ∃ c : VlConfig, ∃ rest : VlHal Unit,
    ∀ stale : UInt32 → Unit → Buf 255,
      (@verifyOn host64 _ (deviceCrypto zeroStack) (some blob) (some c)
        (some (boardHal (espBoard 1) rest stale)) none ()).val.1 = .ok ∧
      ((espBoard 1).hashed = (espBoard 0x101).hashed ∨
        ∃ segs segs', (espBoard 1).segments = some segs ∧ (espBoard 0x101).segments = some segs' ∧
          preimage segs ≠ preimage segs' ∧
          (sha256 (preimage segs)).toList.take 16 = (sha256 (preimage segs')).toList.take 16) := by
  let _ : Target := host64
  obtain ⟨segs, hsegs⟩ : ∃ segs, (espBoard 1).segments = some segs := ⟨_, rfl⟩
  have hsegs' : (espBoard 0x101).segments = some segs := hsegs
  obtain ⟨blob, -, -, -, sig, hcarries⟩ := exists_minted FIX_SEED windowedTerms
    (segmentsFp (some segs.length) fun i => segs.getD i [])
  have hok : ∀ {b : Board} (stale : UInt32 → Unit → Buf 255), b.segments = some segs →
      (verifyOn (deviceCrypto zeroStack) (some blob) (some suiteConfig)
        (some (boardHal b (fixHal 1750000000) stale)) none ()).val.1 = .ok := by
    intro b stale hb
    have hjudged := (hcarries zeroStack).judged (by decide) suiteConfig_trusts
      (identityRun_genuine zeroStack (board_yields hb (fixHal 1750000000) stale ())) rfl
      (t := 1750000000) rfl rfl none
    exact hjudged.ok_iff.mpr ⟨by decide, by decide⟩
  refine ⟨blob, suiteConfig, fixHal 1750000000, fun stale => ⟨hok stale hsegs, ?_⟩⟩
  exact one_licence_one_board (espBoard 1) (espBoard 0x101) rfl blob zeroStack zeroStack suiteConfig
    suiteConfig (fixHal 1750000000) (fixHal 1750000000) stale stale none none () () (hok stale hsegs)
    (hok stale hsegs')

end VectiLicense.L7
