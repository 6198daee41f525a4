import VectiLicense.L3Ed25519.Verify

/-!
# Accepted signatures

The order of the base point fixes `S` below `ell`, the encoding fixes `R`: of
all the pairs that could stand for one signature a single one is accepted. That
holds for a non-canonical `R` too, which is never equal to the bytes that
`pack` writes.

* `scalar_unique`: one `S` for one `R`.
* `accepted_signatures`: the three facts, over all accepting runs.
-/
namespace VectiLicense.L3.Ed25519

open VectiLicense.Core

/-- What the two runs hash is the same, so their multiples of the base point are. -/
theorem scalar_unique {buffer buffer' : Buf 128} {R S S' pk : Vector UInt8 32}
    {msg msg' : Option (List UInt8)} {msgLen msgLen' : Nat}
    (hmsg : messageOf msg msgLen = messageOf msg' msgLen')
    (h : vlEd25519Verify buffer (some (joinSig R S)) msg msgLen (some pk) = some 1)
    (h' : vlEd25519Verify buffer' (some (joinSig R S')) msg' msgLen' (some pk) = some 1) :
    S = S' := by
  obtain ⟨hS, P, q, d, hP, hd, hR⟩ := vlEd25519Verify_eq_one h
  obtain ⟨hS', P', q', d', hP', hd', hR'⟩ := vlEd25519Verify_eq_one h'
  obtain ⟨c, hc, -⟩ := challenge_spec R pk (messageOf msg msgLen)
  have hdd : d = d' := by
    rw [hc _ _ _ (getD_take msg msgLen)] at hd
    rw [hc _ _ _ ((getD_take msg' msgLen').trans hmsg.symm)] at hd'
    exact Option.some.inj (hd.symm.trans hd')
  have hmul : leVal S • base = leVal S' • base := by
    rw [hR, encode_inj, hP.denotes.unique hP'.denotes, hdd] at hR'
    exact add_left_cancel hR'
  rw [← leVal_inj]
  refine nsmul_injOn_Iio_addOrderOf (x := base) ?_ ?_ hmul
  · rwa [addOrderOf_base]
  · rwa [addOrderOf_base]

/-- **Accepted signatures.** The scalar is the reduced one, which the loop decides
exactly; `R` determines it; and `R` is the encoding of its point. -/
theorem accepted_signatures :
    (∀ s : Vector UInt8 32, scalarIsReduced s.toList = true ↔
      leVal s < 2 ^ 252 + 27742317777372353535851937790883648493) ∧
    (∀ buffer R S msg msgLen pk,
      vlEd25519Verify buffer (some (joinSig R S)) msg msgLen pk = some 1 →
      leVal S < 2 ^ 252 + 27742317777372353535851937790883648493 ∧
      ∃ Q, Denotes R Q ∧ R = encode Q) ∧
    (∀ buffer buffer' R S S' msg msg' msgLen msgLen' pk,
      messageOf msg msgLen = messageOf msg' msgLen' →
      vlEd25519Verify buffer (some (joinSig R S)) msg msgLen pk = some 1 →
      vlEd25519Verify buffer' (some (joinSig R S')) msg' msgLen' pk = some 1 → S = S') ∧
    (∀ buffer buffer' R R' S S' msg msg' msgLen msgLen' pk Q,
      messageOf msg msgLen = messageOf msg' msgLen' →
      vlEd25519Verify buffer (some (joinSig R S)) msg msgLen pk = some 1 →
      vlEd25519Verify buffer' (some (joinSig R' S')) msg' msgLen' pk = some 1 →
      Denotes R Q → Denotes R' Q → joinSig R S = joinSig R' S') := by
  refine ⟨fun s => scalarIsReduced_iff (by simp), ?_, ?_, ?_⟩
  · intro buffer R S msg msgLen pk h
    obtain ⟨k, rfl⟩ := vlEd25519Verify_key h
    obtain ⟨hS, P, q, d, -, -, hR⟩ := vlEd25519Verify_eq_one h
    exact ⟨hS, _, hR ▸ denotes_encode _, hR⟩
  · intro buffer buffer' R S S' msg msg' msgLen msgLen' pk hmsg h h'
    obtain ⟨k, rfl⟩ := vlEd25519Verify_key h
    exact scalar_unique hmsg h h'
  · intro buffer buffer' R R' S S' msg msg' msgLen msgLen' pk Q hmsg h h' hQ hQ'
    obtain ⟨k, rfl⟩ := vlEd25519Verify_key h
    obtain ⟨-, P, q, d, -, -, hR⟩ := vlEd25519Verify_eq_one h
    obtain ⟨-, P', q', d', -, -, hR'⟩ := vlEd25519Verify_eq_one h'
    -- both `R`s are the encoding of the one point
    have hRQ := (hR ▸ denotes_encode _ : Denotes R _).unique hQ
    have hRQ' := (hR' ▸ denotes_encode _ : Denotes R' _).unique hQ'
    rw [hRQ] at hR
    rw [hRQ', ← hR] at hR'
    subst hR'
    rw [scalar_unique hmsg h h']

/-- The empty message's key, `R` and `S` in `RFC8032[0]` of `tests/test_vl_core.c`. -/
def rfcKey : Vector UInt8 32 :=
  ⟨(beBytes 32 0xd75a980182b10ab7d54bfed3c964073a0ee172f3daa62325af021a68f707511a).toArray,
    by simp⟩

def rfcR : Vector UInt8 32 :=
  ⟨(beBytes 32 0xe5564300c360ac729086e2cc806e828a84877f1eb8e5d974d873e06522490155).toArray,
    by simp⟩

def rfcS : Vector UInt8 32 :=
  ⟨(beBytes 32 0x5fb8821590a33bacc61e39701cf9b46bd25bf5f0595bbe24655141438e7a100b).toArray,
    by simp⟩

/-- That signature is accepted, with the group order added to its scalar it is not. -/
theorem accepted_signatures_rfc8032 :
    (leVal rfcS < 2 ^ 252 + 27742317777372353535851937790883648493 ∧
      ∃ Q, Denotes rfcR Q ∧ rfcR = encode Q) ∧
    vlEd25519Verify (Vector.replicate 128 0)
      (some (joinSig rfcR ⟨(leBytes 32 (leVal rfcS + ell)).toArray, by simp⟩)) none 0
      (some rfcKey) ≠ some 1 := by
  have haccept : vlEd25519Verify (Vector.replicate 128 0) (some (joinSig rfcR rfcS)) none 0
      (some rfcKey) = some 1 := by decide +kernel
  refine ⟨accepted_signatures.2.1 _ _ _ _ _ _ haccept, fun h => ?_⟩
  have hsame := accepted_signatures.2.2.1 _ _ _ _ _ _ _ _ _ _ rfl haccept h
  exact absurd hsame (by decide +kernel)

end VectiLicense.L3.Ed25519
