import VectiLicense.L1Codec.Base32Round
import VectiLicense.L3Verify.Accept

/-!
# One licence, many spellings

`vl_verify` looks at its string in one place, the decode; two strings that
decode to the same bytes are the same argument. Among them is the canonical
spelling, which is what a `License` keeps and stores.

* `DecodesTo.canon`: the canonical spelling decodes to the same bytes.
* `vlVerify_spelling`: the same program, so the same verdict, licence and
  callbacks on any HAL.
-/
namespace VectiLicense.L3

open VectiLicense.Core VectiLicense.L0 VectiLicense.L1.Base32

/-- Grouping dropped, case and aliases folded. -/
def canon (str : CStr) : CStr := ⟨norm str.bytes, norm_nonul str.nonul⟩

theorem canon_canon (str : CStr) : canon (canon str) = canon str :=
  CStr.ext_bytes (norm_norm str.bytes)

variable [Target]

theorem DecodesTo.length_norm {str : CStr} {b : List UInt8} (h : DecodesTo str b) :
    (norm str.bytes).length = 160 := by
  have hok := (decode_ok_iff (by decide)).mp (Option.isSome_iff_exists.mpr ⟨_, h.2.1⟩)
  rw [L1.Base32.norm, List.length_map]
  exact hok.2.count

theorem DecodesTo.canon {str : CStr} {b : List UInt8} (h : DecodesTo str b) :
    DecodesTo (canon str) b := by
  obtain ⟨s, -, -, henc, hdec⟩ := encode_decode b 161 (by rw [h.1]; decide) (by rw [h.1]; decide)
    (by rw [h.1])
  have hround := decode_encode (by decide) (by decide) h.2.1 h.2.2 (show 161 ≤ 161 by decide)
  rw [henc] at hround
  have hbytes := seqWrites_inj (EncodeResult.mk.inj hround).2
  have hs : s = L3.canon str := CStr.ext_bytes (List.append_cancel_right hbytes)
  rw [← hs]
  have hback := hdec 100 (by rw [h.1])
  rw [h.1] at hback
  exact ⟨h.1, hback⟩

/-- Another string with the same symbols in the same order. -/
theorem DecodesTo.of_norm {s t : CStr} {b : List UInt8} (h : DecodesTo s b)
    (hshort : t.bytes.length ≤ 1024) (halpha : ∀ c ∈ t.bytes, IsGrouping c ∨ IsSymbol c)
    (hsig : sigChars t.bytes = sigChars s.bytes) : DecodesTo t b := by
  obtain ⟨-, g⟩ := (decode_ok_iff (by decide)).mp (Option.isSome_iff_exists.mpr ⟨_, h.2.1⟩)
  have hbits : charBits t.bytes = charBits s.bytes := by rw [charBits, hsig, charBits]
  have hsome := (decode_ok_iff (s := t) (n := 100) (by decide)).mpr
    ⟨Nat.le_refl 100, hshort, halpha, by rw [hsig]; exact g.count, by rw [hbits]; exact g.pad⟩
  obtain ⟨m, hret⟩ := Option.isSome_iff_exists.mp hsome
  obtain ⟨rfl, d, hlen, hw, -⟩ := decode_ok_bytes (by decide) hret
  have hnorm : norm s.bytes = norm t.bytes := by rw [L1.Base32.norm, L1.Base32.norm, hsig]
  obtain rfl := (decode_eq_iff_norm (by decide) h.2.1 h.2.2 hret hw).mpr hnorm
  exact ⟨hlen, hret, hw⟩

theorem DecodesTo.exists {s : CStr}
    (h : (vlBase32Decode (some s) .buf VL_BLOB_BIN_LEN VL_BLOB_BIN_LEN).ret =
      some VL_BLOB_BIN_LEN) : ∃ b, DecodesTo s b := by
  obtain ⟨-, b, hlen, hw, -⟩ := decode_ok_bytes (by decide) h
  exact ⟨b, hlen, h, hw⟩

theorem decodeBlob_spelling {s t : CStr} {b : List UInt8} (hs : DecodesTo s b)
    (ht : DecodesTo t b) : decodeBlob s = decodeBlob t := by
  rw [decodeBlob_ok_iff.mpr hs, decodeBlob_ok_iff.mpr ht]

/-- **The spelling does not matter.** -/
theorem vlVerify_spelling {s t : CStr} {b : List UInt8} (hs : DecodesTo s b) (ht : DecodesTo t b)
    (cr : Crypto) (cfg : Option VlConfig) (hal : Option HalMask) (out : Option VlLicense) :
    vlVerify cr (some s) cfg hal out = vlVerify cr (some t) cfg hal out := by
  unfold vlVerify
  cases hargs : checkArgs (some s) cfg hal with
  | error rc =>
    cases hargs' : checkArgs (some t) cfg hal with
    | error rc' => rw [checkArgs_error hargs, checkArgs_error hargs']
    | ok a =>
      obtain ⟨str, c, keys, m⟩ := a
      obtain ⟨-, rfl, rfl, hrest⟩ := checkArgs_ok_iff.mp hargs'
      rw [checkArgs_ok_iff.mpr ⟨rfl, rfl, rfl, hrest⟩] at hargs
      cases hargs
  | ok a =>
    obtain ⟨str, c, keys, m⟩ := a
    obtain ⟨hstr, rfl, rfl, hrest⟩ := checkArgs_ok_iff.mp hargs
    obtain rfl := Option.some.inj hstr
    rw [checkArgs_ok_iff.mpr ⟨rfl, rfl, rfl, hrest⟩]
    simp only [verifySteps, authenticate, decodeBlob_spelling hs ht]

end VectiLicense.L3
