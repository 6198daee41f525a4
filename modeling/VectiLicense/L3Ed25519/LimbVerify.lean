import VectiLicense.L3Ed25519.Exact
import VectiLicense.L3Ed25519.LimbGroup
import VectiLicense.L3Ed25519.LimbReduce

/-!
# `vl_ed25519_verify` on `int64_t`

The routines put together. `none` is an overflow, or a hash whose buffer is
overrun; there is neither, whatever the arguments and whatever the stack held,
so the answer is the one that `Verify` computes in the field, and accepted are
exactly the signatures that satisfy the group equation.

* `verify_refines`, `verify_answers`: the call is that of `Verify`, for all arguments.
* `ladder`, `residue`, `key_unpacked`: what the parts compute.
* `signature_accepted`: the call decides the group equation.
* `signed_accepted`: what RFC 8032 signs is accepted.
-/
namespace VectiLicense.L3.Ed25519.Limbs

open VectiLicense.Core Function L1.Hash

/-- `y` is what the stack held in `q[1]`, `m` what it held wherever `pack25519`
is called, `buffer` what it held in `sh`.
mirrors core/vl_ed25519.c:445-483 -/
def vlEd25519Verify (y m : Words) (buffer : Buf 128) (sig : Option (Vector UInt8 64))
    (msg : Option (List UInt8)) (msgLen : Nat) (pk : Option (Vector UInt8 32)) : Option UInt32 :=
  match sig, pk with
  | some sig, some pk =>
    if msg = none ∧ msgLen ≠ 0 then some 0
    else if scalarIsReduced (sig.toList.drop 32) = false then some 0
    else do
      match ← unpackneg y m pk with
      | none => some 0
      | some q =>
        let h ← challenge buffer sig (msg.map (·.take msgLen)) pk
        let h ← reduce h
        let p ← scalarmult q h
        let q ← scalarbase (sig.toList.drop 32)
        let p ← add p q
        let t ← pack m p
        return vlCtEq (some sig.toList) (some t.toList) 32
  | _, _ => some 0

/-- **The call is that of `Verify`**, for all arguments and whatever the stack held. -/
theorem verify_refines (y m : Words) (buffer : Buf 128) (sig : Option (Vector UInt8 64))
    (msg : Option (List UInt8)) (msgLen : Nat) (pk : Option (Vector UInt8 32)) :
    vlEd25519Verify y m buffer sig msg msgLen pk =
      Ed25519.vlEd25519Verify buffer sig msg msgLen pk := by
  cases sig with
  | none => cases pk <;> rfl
  | some sig =>
    cases pk with
    | none => rfl
    | some pk =>
      rw [vlEd25519Verify, Ed25519.vlEd25519Verify]
      split
      · rfl
      split
      · rfl
      obtain ⟨r, hr, hagree⟩ := unpackneg_spec y m pk
      rw [hr, Option.bind_eq_bind, Option.bind_some]
      generalize Ed25519.unpackneg pk = s at hagree ⊢
      cases r with
      | none =>
        cases s with
        | none => rfl
        | some s => exact absurd hagree id
      | some q =>
        cases s with
        | none => exact absurd hagree id
        | some s =>
          have hq : Stands q s := hagree
          dsimp only
          cases challenge buffer sig (msg.map (·.take msgLen)) pk with
          | none => rfl
          | some h =>
            obtain ⟨p, hp, hpP⟩ := scalarmult_spec hq (Ed25519.reduce h)
            obtain ⟨b, hb, hbB⟩ := scalarbase_spec (sig.toList.drop 32)
            obtain ⟨t, ht, htT⟩ := add_spec hpP hbB
            simp only [reduce_eq, hp, hb, ht, pack_eq htT, Option.bind_eq_bind, Option.bind_some]
            rfl

/-! ## The parts -/

/-- **The hash is reduced exactly**, without overflow: the residue modulo the group
order in 32 bytes, and 32 zeros. -/
theorem residue (r : Vector UInt8 64) :
    reduce r = some (leBytes 32 (leVal r % ell) ++ List.replicate 32 0) := by
  rw [reduce_eq, reduce_exact]

/-- **The ladder** on coordinates of a point: no overflow, limbs of at most `2 ^ 17` in
all four coordinates, and what it leaves packs into the encoding of the multiple. -/
theorem ladder (q : Extended Words) (c : Ge) (Q : curve.Point) (hq : Stands q c)
    (hQ : Represents c Q) (s : List UInt8) (m : Words) :
    ∃ p, scalarmult q s = some p ∧
      (∀ o ∈ [p.x, p.y, p.z, p.t], ∀ i, -2 ^ 17 ≤ (o i).toInt ∧ (o i).toInt ≤ 2 ^ 17) ∧
      pack m p = some (encode ((leNat s % 2 ^ 256) • Q)) := by
  obtain ⟨p, hp, hpc⟩ := scalarmult_spec hq s
  have hrep := scalarmult_represents hQ s
  refine ⟨p, hp, fun o ho i => ?_, ?_⟩
  · rw [← ints_val]
    simp only [List.mem_cons, List.not_mem_nil, or_false] at ho
    rcases ho with rfl | rfl | rfl | rfl
    · exact hpc.x.within i.val
    · exact hpc.y.within i.val
    · exact hpc.z.within i.val
    · exact hpc.t.within i.val
  · rw [pack_eq hpc, pack_represents hrep]

/-- Twice the base point. -/
theorem ladder_base : ∃ t p, M X Y = some t ∧ scalarmult ⟨X, Y, gf1, t⟩ [2] = some p ∧
    (∀ o ∈ [p.x, p.y, p.z, p.t], ∀ i, -2 ^ 17 ≤ (o i).toInt ∧ (o i).toInt ≤ 2 ^ 17) ∧
    pack gf0 p = some (encode (2 • base)) := by
  obtain ⟨t, ht, hXY⟩ := M_spec (holds_X.mono (by omega)) (holds_Y.mono (by omega))
  obtain ⟨p, hp, hlimbs, hpack⟩ := ladder ⟨X, Y, gf1, t⟩ ⟨Ed25519.X, Ed25519.Y, 1, Ed25519.X * Ed25519.Y⟩
    base ⟨holds_X, holds_Y, holds_gf1, hXY⟩
    ⟨one_ne_zero, (mul_one _).symm, (mul_one _).symm, (mul_one _).symm⟩ [2] gf0
  exact ⟨t, p, ht, hp, hlimbs, hpack⟩

/-- **The keys.** Unpacking never overflows; it refuses what is not the encoding of a
point outside the small subgroup, and of the others it makes the negative. -/
theorem key_unpacked (y m : Words) (p : Vector UInt8 32) :
    ∃ r, unpackneg y m p = some r ∧
      (r = none ↔ ∀ P : curve.Point, p = encode P → 8 • P = 0) ∧
      ∀ q, r = some q → ∃ P : curve.Point, 8 • P ≠ 0 ∧ p = encode P ∧
        Stands q ⟨-P.x, P.y, 1, -P.x * P.y⟩ := by
  obtain ⟨r, hr, hagree⟩ := unpackneg_spec y m p
  refine ⟨r, hr, ?_, ?_⟩
  · cases r with
    | none =>
      cases hs : Ed25519.unpackneg p with
      | none =>
        refine ⟨fun _ P hP => ?_, fun _ => rfl⟩
        by_contra horder
        rw [hP, unpackneg_encode horder] at hs
        cases hs
      | some s =>
        rw [hs] at hagree
        exact absurd hagree id
    | some q =>
      cases hs : Ed25519.unpackneg p with
      | none =>
        rw [hs] at hagree
        exact absurd hagree id
      | some s =>
        obtain ⟨P, horder, hP, -⟩ := (unpackneg_iff p s).mp hs
        exact ⟨fun h => absurd h (Option.some_ne_none q), fun h => absurd (h P hP) horder⟩
  · rintro q rfl
    cases hs : Ed25519.unpackneg p with
    | none =>
      rw [hs] at hagree
      exact absurd hagree id
    | some s =>
      obtain ⟨P, horder, hP, rfl⟩ := (unpackneg_iff p s).mp hs
      rw [hs] at hagree
      exact ⟨P, horder, hP, hagree⟩

/-! ## The answer -/

theorem exists_joinSig (sig : Vector UInt8 64) : ∃ R S, sig = joinSig R S := by
  refine ⟨⟨(sig.toList.take 32).toArray, by simp⟩, ⟨(sig.toList.drop 32).toArray, by simp⟩, ?_⟩
  rw [← Vector.toList_inj, toList_joinSig]
  exact (List.take_append_drop 32 sig.toList).symm

theorem verify_total (buffer : Buf 128) (sig : Option (Vector UInt8 64))
    (msg : Option (List UInt8)) (msgLen : Nat) (pk : Option (Vector UInt8 32)) :
    Returns (Ed25519.vlEd25519Verify buffer sig msg msgLen pk) fun v => v = 0 ∨ v = 1 := by
  have hzero : Returns (some (0 : UInt32)) fun v => v = 0 ∨ v = 1 := .ret (.inl rfl)
  cases sig with
  | none => cases pk <;> exact hzero
  | some sig =>
    cases pk with
    | none => exact hzero
    | some pk =>
      obtain ⟨R, S, rfl⟩ := exists_joinSig sig
      obtain ⟨h, hhash, -⟩ := challenge_spec R pk (messageOf msg msgLen)
      rw [Ed25519.vlEd25519Verify]
      split
      · exact hzero
      split
      · exact hzero
      split
      · exact hzero
      rw [hhash buffer S _ (getD_take msg msgLen)]
      dsimp only
      rw [vlCtEq_eq R _ _ (take_joinSig R S) (by simp)]
      refine .ret ?_
      split
      · exact .inr rfl
      · exact .inl rfl

/-- **No overflow, and an answer**, for all arguments, null pointers included; it is
the one that the field computes. -/
theorem verify_answers (y m : Words) (buffer : Buf 128) (sig : Option (Vector UInt8 64))
    (msg : Option (List UInt8)) (msgLen : Nat) (pk : Option (Vector UInt8 32)) :
    ∃ v, vlEd25519Verify y m buffer sig msg msgLen pk = some v ∧ (v = 0 ∨ v = 1) ∧
      Ed25519.vlEd25519Verify buffer sig msg msgLen pk = some v := by
  obtain ⟨v, hv, hbit⟩ := verify_total buffer sig msg msgLen pk
  exact ⟨v, (verify_refines ..).trans hv, hbit, hv⟩

/-- **The call decides the group equation**: one for the signatures that satisfy it,
zero for all others. -/
theorem signature_accepted (y m : Words) (buffer : Buf 128) (R S pk : Vector UInt8 32)
    (msg : Option (List UInt8)) (msgLen : Nat) (hlen : (messageOf msg msgLen).length + 64 < 2 ^ 64) :
    ∃ v, vlEd25519Verify y m buffer (some (joinSig R S)) msg msgLen (some pk) = some v ∧
      (v = 1 ↔ (msg = none → msgLen = 0) ∧ ∃ P, Signs R S pk (messageOf msg msgLen) P) ∧
      (v ≠ 1 → v = 0) := by
  obtain ⟨hone, -⟩ := verify_exact buffer R S pk msg msgLen hlen
  obtain ⟨v, hv, hbit⟩ := verify_total buffer (some (joinSig R S)) msg msgLen (some pk)
  rw [hv, Option.some_inj] at hone
  exact ⟨v, (verify_refines ..).trans hv, hone, hbit.resolve_right⟩

/-- The seed 1, 2, ..., 32. -/
def countingSeed : Vector UInt8 32 := Vector.ofFn fun i => UInt8.ofNat (i.val + 1)

/-- What that seed makes of the three bytes `abc` satisfies the equation. -/
theorem signature_accepted_abc : ∃ P,
    Signs (commitment countingSeed [0x61, 0x62, 0x63]) (response countingSeed [0x61, 0x62, 0x63])
      (publicKey countingSeed) [0x61, 0x62, 0x63] P := by
  obtain ⟨v, hv, hone, -⟩ := signature_accepted gf0 gf0 (Vector.replicate 128 0)
    (commitment countingSeed [0x61, 0x62, 0x63]) (response countingSeed [0x61, 0x62, 0x63])
    (publicKey countingSeed) (some [0x61, 0x62, 0x63]) 3 (by decide)
  have haccept := (verify_refines gf0 gf0 ..).trans
    (sign_accepted (Vector.replicate 128 0) countingSeed [0x61, 0x62, 0x63] (by decide))
  exact (hone.mp (Option.some_inj.mp (hv.symm.trans haccept))).2

/-- **Every signature that is made is accepted**, by the code on limbs. -/
theorem signed_accepted (y m : Words) (buffer : Buf 128) (seed : Vector UInt8 32)
    (msg : List UInt8) (hlen : msg.length + 64 < 2 ^ 64) :
    vlEd25519Verify y m buffer (some (sign seed msg)) (some msg) msg.length
      (some (publicKey seed)) = some 1 := by
  rw [verify_refines]
  exact sign_accepted buffer seed msg hlen

/-- The signature of `abc`. -/
theorem signed_accepted_abc : vlEd25519Verify gf0 gf0 (Vector.replicate 128 0)
    (some (sign countingSeed [0x61, 0x62, 0x63])) (some [0x61, 0x62, 0x63]) 3
      (some (publicKey countingSeed)) = some 1 :=
  signed_accepted gf0 gf0 _ countingSeed [0x61, 0x62, 0x63] (by decide)

end VectiLicense.L3.Ed25519.Limbs
