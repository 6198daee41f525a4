import VectiLicense.L1Hash.Sha512

/-!
# The hashes do not see where their input is cut

A message reaches `init`, `update` and `final` in pieces: any pieces, the
empty ones among them with a NULL pointer or with another one. `MdPadded` is
the padding of FIPS 180-4, said without the code's arithmetic.

* `update_pieces`: no update runs past the buffer, and the context has read
  the pieces put together.
* `mdPadded_iff`: there is one padded message, and `mdPad` computes it.
* `hashes_streamed`: both digests, for every split.
-/
namespace VectiLicense.L1.Hash

open VectiLicense.Core

/-- What the pieces come to; a NULL one is empty. -/
def joined (pieces : List (Option (List UInt8))) : List UInt8 := pieces.flatMap fun p => p.getD []

/-- `p` is `m`, the end marker, as few zeros as make it whole blocks of `B`
bytes, and the number of bits of `m` in `lenBytes` bytes, big-endian. -/
structure MdPadded (B lenBytes : Nat) (m p : List UInt8) : Prop where
  shape : ∃ zeros field, p = m ++ 0x80 :: (List.replicate zeros 0 ++ field) ∧
    field.length = lenBytes ∧ leNat field.reverse = 8 * m.length ∧
    (∀ k, B ∣ m.length + 1 + k + lenBytes → zeros ≤ k)
  blocks : B ∣ p.length

/-- The padding of the standard, and no other. -/
theorem mdPadded_iff {B lenAt lenBytes : Nat} {m p : List UInt8} (hlenAt : lenAt < B)
    (hfield : lenAt + lenBytes = B) (hbits : 8 * m.length < 2 ^ (8 * lenBytes)) :
    MdPadded B lenBytes m p ↔
      p = m ++ mdPad B lenAt m.length (beBytes lenBytes (8 * m.length)) := by
  have hdvd := @dvd_length_mdPad B lenAt m (beBytes lenBytes (8 * m.length)) hlenAt (by simpa)
  have hwhole : B ∣ m.length + 1 + padZeros B lenAt m.length + lenBytes := by
    simp only [mdPad, List.length_append, List.length_cons, List.length_replicate,
      length_beBytes] at hdvd
    rwa [show m.length + (padZeros B lenAt m.length + lenBytes + 1) =
      m.length + 1 + padZeros B lenAt m.length + lenBytes by omega] at hdvd
  have hnat : leNat (beBytes lenBytes (8 * m.length)).reverse = 8 * m.length := by
    rw [beBytes, List.reverse_reverse, leNat_leBytes, Nat.mod_eq_of_lt hbits]
  refine ⟨?_, ?_⟩
  · intro h
    obtain ⟨zeros, field, rfl, hlen, hval, hmin⟩ := h.shape
    have hzeros : zeros = padZeros B lenAt m.length := by
      have hle := hmin _ hwhole
      have hlt := padZeros_lt (by omega : 0 < B) lenAt m.length
      have hblocks := h.blocks
      simp only [List.length_append, List.length_cons, List.length_replicate, hlen] at hblocks
      have hdiff := Nat.dvd_sub hwhole hblocks
      have hzero := Nat.eq_zero_of_dvd_of_lt hdiff (by omega)
      omega
    have hsame : field.reverse = (beBytes lenBytes (8 * m.length)).reverse :=
      leNat_inj (by simpa using hlen) (hval.trans hnat.symm)
    rw [mdPad, hzeros, List.reverse_injective hsame]
  · intro h
    subst h
    refine ⟨⟨_, _, rfl, length_beBytes _ _, hnat, fun k hk => ?_⟩, hdvd⟩
    by_contra hlt
    have hlt' := padZeros_lt (by omega : 0 < B) lenAt m.length
    have hdiff := Nat.dvd_sub hwhole hk
    have hzero := Nat.eq_zero_of_dvd_of_lt hdiff (by omega)
    omega

theorem update_pieces {σ : Type} {B : Nat} {compress : σ → List UInt8 → σ} {iv : σ}
    {unit : UInt64} (pieces : List (Option (List UInt8))) : ∀ {m : List UInt8} {ctx : HashCtx σ B},
    Streamed compress iv unit m ctx →
      ∃ ctx', pieces.foldlM (hashUpdate compress unit) ctx = some ctx' ∧
        Streamed compress iv unit (m ++ joined pieces) ctx' := by
  induction pieces with
  | nil =>
    intro m ctx h
    exact ⟨ctx, rfl, by rwa [joined, List.flatMap_nil, List.append_nil]⟩
  | cons p pieces ih =>
    intro m ctx h
    obtain ⟨ctx₁, hp, h₁⟩ := hashUpdate_spec h p
    obtain ⟨ctx', hrest, h'⟩ := ih h₁
    refine ⟨ctx', ?_, ?_⟩
    · rw [List.foldlM_cons, hp]
      exact hrest
    · rwa [joined, List.flatMap_cons, ← List.append_assoc]

/-- **However a message is cut**, the calls return the digest of its padding,
a buffer that is not full is left between them, and no copy or store runs
past one. -/
theorem hashes_streamed (pieces : List (Option (List UInt8))) :
    (∀ buffer : Buf 64, ∃ ctx, pieces.foldlM vlSha256Update (vlSha256Init buffer) = some ctx ∧
      ctx.bufferLen < 64 ∧ ((joined pieces).length < 2 ^ 61 →
        ∃ p, MdPadded 64 8 (joined pieces) p ∧
          vlSha256Final ctx = some (digestBytes (absorb 64 sha256Compress SHA256_IV p)))) ∧
    (∀ buffer : Buf 128, ∃ ctx, pieces.foldlM vlSha512Update (vlSha512Init buffer) = some ctx ∧
      ctx.bufferLen < 128 ∧ ((joined pieces).length < 2 ^ 64 →
        ∃ p, MdPadded 128 16 (joined pieces) p ∧
          vlSha512Final ctx = some (digestBytes64 (absorb 128 sha512Compress SHA512_IV p)))) := by
  refine ⟨fun buffer => ?_, fun buffer => ?_⟩
  · obtain ⟨ctx, hrun, hread⟩ := update_pieces pieces (vlSha256Init_spec buffer)
    refine ⟨ctx, hrun, hread.len, fun hlen => ⟨_, (@mdPadded_iff 64 56 8 _ _ (by decide) rfl ?_).mpr rfl, ?_⟩⟩
    · omega
    · rw [vlSha256Final_spec hread]
      rfl
  · obtain ⟨ctx, hrun, hread⟩ := update_pieces pieces (vlSha512Init_spec buffer)
    refine ⟨ctx, hrun, hread.len, fun hlen => ⟨_, (@mdPadded_iff 128 112 16 _ _ (by decide) rfl ?_).mpr rfl, ?_⟩⟩
    · omega
    · rw [vlSha512Final_spec hread hlen]
      rfl

/-- `abc` in three pieces, one of them empty, behind a NULL one: the standard's
first examples. -/
theorem hashes_streamed_abc :
    (∃ ctx p digest, [none, some [0x61], some [], some [0x62, 0x63]].foldlM vlSha256Update
        (vlSha256Init (Vector.replicate 64 0)) = some ctx ∧
      MdPadded 64 8 [0x61, 0x62, 0x63] p ∧ vlSha256Final ctx = some digest ∧
      digest.toList = (absorb 64 sha256Compress SHA256_IV p).toList.flatMap
        (fun w => beBytes 4 w.toNat) ∧
      digest.toList = [
        0xba, 0x78, 0x16, 0xbf, 0x8f, 0x01, 0xcf, 0xea, 0x41, 0x41, 0x40, 0xde, 0x5d, 0xae, 0x22, 0x23,
        0xb0, 0x03, 0x61, 0xa3, 0x96, 0x17, 0x7a, 0x9c, 0xb4, 0x10, 0xff, 0x61, 0xf2, 0x00, 0x15, 0xad]) ∧
    ∃ ctx p digest, [none, some [0x61], some [], some [0x62, 0x63]].foldlM vlSha512Update
        (vlSha512Init (Vector.replicate 128 0)) = some ctx ∧
      MdPadded 128 16 [0x61, 0x62, 0x63] p ∧ vlSha512Final ctx = some digest ∧
      digest.toList = (absorb 128 sha512Compress SHA512_IV p).toList.flatMap
        (fun w => beBytes 8 w.toNat) ∧
      digest.toList = [
        0xdd, 0xaf, 0x35, 0xa1, 0x93, 0x61, 0x7a, 0xba, 0xcc, 0x41, 0x73, 0x49, 0xae, 0x20, 0x41, 0x31,
        0x12, 0xe6, 0xfa, 0x4e, 0x89, 0xa9, 0x7e, 0xa2, 0x0a, 0x9e, 0xee, 0xe6, 0x4b, 0x55, 0xd3, 0x9a,
        0x21, 0x92, 0x99, 0x2a, 0x27, 0x4f, 0xc1, 0xa8, 0x36, 0xba, 0x3c, 0x23, 0xa3, 0xfe, 0xeb, 0xbd,
        0x45, 0x4d, 0x44, 0x23, 0x64, 0x3c, 0xe8, 0x0e, 0x2a, 0x9a, 0xc9, 0x4f, 0xa5, 0x4c, 0xa4, 0x9f] := by
  have h := hashes_streamed [none, some [0x61], some [], some [0x62, 0x63]]
  constructor
  · obtain ⟨ctx, hrun, -, hfinal⟩ := h.1 (Vector.replicate 64 0)
    obtain ⟨p, hp, hdigest⟩ := hfinal (by decide)
    refine ⟨ctx, p, _, hrun, hp, hdigest, digestBytes_toList _, Option.some.inj ?_⟩
    calc some _ = (([none, some [0x61], some [], some [0x62, 0x63]].foldlM vlSha256Update
          (vlSha256Init (Vector.replicate 64 0))).bind vlSha256Final).map Vector.toList := by
          rw [hrun, Option.bind_some, hdigest, Option.map_some]
      _ = some _ := by decide +kernel
  · obtain ⟨ctx, hrun, -, hfinal⟩ := h.2 (Vector.replicate 128 0)
    obtain ⟨p, hp, hdigest⟩ := hfinal (by decide)
    refine ⟨ctx, p, _, hrun, hp, hdigest, digestBytes64_toList _, Option.some.inj ?_⟩
    calc some _ = (([none, some [0x61], some [], some [0x62, 0x63]].foldlM vlSha512Update
          (vlSha512Init (Vector.replicate 128 0))).bind vlSha512Final).map Vector.toList := by
          rw [hrun, Option.bind_some, hdigest, Option.map_some]
      _ = some _ := by decide +kernel

end VectiLicense.L1.Hash
