import VectiLicense.L3Verify.Commitment
import VectiLicense.L7Mint.RoundTrip

/-!
# The fingerprint, twice: `vl_mint.fingerprint`

The tool has a reference implementation of the device's fingerprint, over
`hashlib`. Both are SHA-256 of the same byte string.

* `fingerprint_eq`: what the tool computes.
* `fingerprint_commits`: the device computes the same for at most 64 segments,
  the first 64 of them otherwise, and two segment lists share a fingerprint
  only through a collision.
-/
namespace VectiLicense.L7

open VectiLicense.Core VectiLicense.L0 VectiLicense.L3 VectiLicense.L1.Hash
open VectiLicense.L4.Mark (vltReadIdSegment vltSegments FIX_FINGERPRINT)

/-- mirrors tools/vl_mint.py:43 -/
def FP_DOMAIN : List UInt8 :=
  ascii ['v', 'e', 'c', 't', 'i', 'l', 'i', 'c', 'e', 'n', 's', 'e', ':',
    'f', 'i', 'n', 'g', 'e', 'r', 'p', 'r', 'i', 'n', 't', ':', 'v', '1']

/-- The loop; `h` is what `hashlib` has been fed, `none` the `ValueError` for a
segment longer than 255 bytes.
mirrors tools/vl_mint.py:100-104 -/
def fingerprintLoop (h : List UInt8) : List (List UInt8) → Option (List UInt8)
  | [] => some h
  | s :: segments =>
    if s.length > 255 then none
    else fingerprintLoop (h ++ [UInt8.ofNat s.length] ++ s) segments

/-- mirrors tools/vl_mint.py:94-105 -/
def fingerprint (segments : List (List UInt8)) : Option (Vector UInt8 32) :=
  (fingerprintLoop FP_DOMAIN segments).map sha256

theorem fingerprintLoop_eq {segments : List (List UInt8)} (h : ∀ s ∈ segments, s.length ≤ 255)
    (m : List UInt8) : fingerprintLoop m segments = some (m ++ prefixed segments) := by
  induction segments generalizing m with
  | nil => rw [fingerprintLoop, prefixed_nil, List.append_nil]
  | cons s segments ih =>
    obtain ⟨hs, hrest⟩ := List.forall_mem_cons.mp h
    rw [fingerprintLoop, if_neg (Nat.not_lt.mpr hs), ih hrest, prefixed_cons]
    simp only [List.append_assoc, List.cons_append, List.nil_append]

theorem fingerprint_eq {segments : List (List UInt8)} (h : ∀ s ∈ segments, s.length ≤ 255) :
    fingerprint segments = some (sha256 (preimage segments)) := by
  rw [fingerprint, fingerprintLoop_eq h]
  rfl

/-- Two messages that SHA-256 does not tell apart. -/
def Collision (m m' : List UInt8) : Prop := m ≠ m' ∧ sha256 m = sha256 m'

/-- **The fingerprint is an injective commitment to the segments.** -/
theorem fingerprint_commits (buffer : Buf 64)
    (verify : List UInt8 → List UInt8 → Vector UInt8 32 → Bool) :
    (∀ {σ : Type} (hal : VlHal σ) (s : σ) (count : Option Nat) (seg : Nat → List UInt8)
      (out : Vector UInt8 32), Yields hal s count seg →
      ((vlComputeFingerprint (sha256Crypto buffer verify) (some hal.mask) (some out)).run
          hal.handler s).val =
        (.ok, some (sha256 (VL_FP_DOMAIN ++ prefixed (firstSegments count seg)))) ∧
      ∀ n, count = some n → n ≤ 64 →
        ((vlComputeFingerprint (sha256Crypto buffer verify) (some hal.mask) (some out)).run
          hal.handler s).val = (.ok, fingerprint ((List.range n).map seg))) ∧
    VL_FP_DOMAIN.length = 27 ∧
    (∀ l l' : List (List UInt8), (∀ f ∈ l, f.length ≤ 255) → (∀ f ∈ l', f.length ≤ 255) →
      (VL_FP_DOMAIN ++ prefixed l = VL_FP_DOMAIN ++ prefixed l' → l = l') ∧
      (l ≠ l' → fingerprint l = fingerprint l' → Collision (preimage l) (preimage l'))) := by
  refine ⟨?_, rfl, ?_⟩
  · intro σ hal s count seg out hy
    have hrun := fingerprint_yields (hashesAs_sha256 buffer verify) hy out
    refine ⟨hrun, ?_⟩
    intro n hcount hn
    have hfirst : firstSegments count seg = (List.range n).map seg := by
      have hall : remaining count 0 VL_ID_SEGMENT_COUNT_MAX = n := by
        simp only [hcount, remaining, VL_ID_SEGMENT_COUNT_MAX]
        omega
      rw [firstSegments, hall]
    have hshort : ∀ f ∈ (List.range n).map seg, f.length ≤ 255 := by
      intro f hf
      obtain ⟨i, hi, rfl⟩ := List.mem_map.mp hf
      refine (hy.length i ?_).2
      intro c hc
      rw [hcount, Option.some.injEq] at hc
      exact hc ▸ List.mem_range.mp hi
    rw [hrun, hfirst, fingerprint_eq hshort]
  · intro l l' hl hl'
    refine ⟨fun h => preimage_inj hl hl' h, ?_⟩
    intro hne hsame
    rw [fingerprint_eq hl, fingerprint_eq hl', Option.some.injEq] at hsame
    exact ⟨fun h => hne (preimage_inj hl hl' h), hsame⟩

theorem below_three {i : Nat} (h : Below (some 3) i) : i = 0 ∨ i = 1 ∨ i = 2 := by
  have hlt := h 3 rfl
  omega

/-- The test suite's HAL hands out its three segments. -/
theorem fixHal_yields : Yields (fixHal 0) () (some 3) fun i => vltSegments.getD i [] where
  provided := rfl
  nonempty := by decide
  status := by
    intro i hi
    rcases below_three hi with rfl | rfl | rfl <;> rfl
  length := by
    intro i hi
    rcases below_three hi with rfl | rfl | rfl <;> exact ⟨rfl, by decide⟩
  bytes := by
    intro i hi
    rcases below_three hi with rfl | rfl | rfl <;> decide +kernel
  ended := by
    intro n hn
    obtain rfl := Option.some.inj hn
    rfl

/-- On the suite's HAL the device computes the suite's fingerprint. -/
theorem fingerprint_commits_suite :
    ((vlComputeFingerprint (sha256Crypto (Vector.replicate 64 0) fun _ _ _ => false)
        (some (fixHal 0).mask) (some (Vector.replicate 32 0))).run (fixHal 0).handler ()).val =
      (.ok, some FIX_FINGERPRINT) := by
  have hhash : sha256 (VL_FP_DOMAIN ++ prefixed (firstSegments (some 3) fun i =>
      vltSegments.getD i [])) = FIX_FINGERPRINT := by decide +kernel
  rw [← hhash]
  exact ((fingerprint_commits (Vector.replicate 64 0) fun _ _ _ => false).1 (fixHal 0) () (some 3)
    _ (Vector.replicate 32 0) fixHal_yields).1

end VectiLicense.L7
