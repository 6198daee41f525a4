import Mathlib.Data.Int.Bitwise
import VectiLicense.L1Hash.Sha512
import VectiLicense.L3Ed25519.Group

/-!
# `vl_ed25519_verify` of `core/vl_ed25519.c`

The key is unpacked into the negative of its point, or refused: an encoding
that is not canonical, a `y` without an `x`, a point of low order. Then `S`
times the base point plus `h` times that negative must pack into the bytes of
`R`, where `h` is the hash of `R`, the key and the message.

* `canonicalKey_iff`: the first test is `y < 2^255 - 19`.
* `scalarIsReduced_iff`: the bytewise comparison is `S < ell`.
* `unpackneg_spec`: what an accepted key is, and what is made of it.
* `vlEd25519Verify_eq_one`: what an accepted signature has passed.
-/
namespace VectiLicense.L3.Ed25519

open VectiLicense.Core L1.Hash

/-! ## The key -/

/-- mirrors core/vl_ed25519.c:366-369 -/
def identity : Vector UInt8 32 := (Vector.replicate 32 0).set 0 1

/-- mirrors core/vl_ed25519.c:364-381 -/
def isLowOrder (p : Ge) : Bool :=
  let t := add p p
  let t := add t t
  let t := add t t
  vlCtEq (some (pack t).toList) (some identity.toList) 32 ≠ 0

/-- Packing what was unpacked gives the key back, its top bit put aside.
mirrors core/vl_ed25519.c:390-395 -/
def canonicalKey (p : Vector UInt8 32) : Bool :=
  let canon := pack25519 (unpack25519 p)
  let canon := setTop canon (top canon ||| (top p &&& 0x80))
  vlCtEq (some canon.toList) (some p.toList) 32 ≠ 0

/-- An `x` with `den x² = num`, if `y` has one.
mirrors core/vl_ed25519.c:397-418 -/
def recoverX (y : Gf) : Option Gf :=
  let num := y * y
  let den := num * D
  let num := num - 1
  let den := 1 + den
  let den2 := den * den
  let den4 := den2 * den2
  let den6 := den4 * den2
  let t := den6 * num * den
  let t := pow2523 t * num * den * den
  let x := t * den
  let chk := x * x * den
  let x := if neq25519 chk num then x * I else x
  let chk := x * x * den
  if neq25519 chk num then none else some x

/-- The sign that is not `p`'s, `T`, and the last test.
mirrors core/vl_ed25519.c:422-427 -/
def finishKey (p : Vector UInt8 32) (x y : Gf) : Option Ge :=
  let x := if par25519 x = top p >>> 7 then 0 - x else x
  let r : Ge := { x, y, z := 1, t := x * y }
  if isLowOrder r then none else some r

/-- `none` is `return -1`.
mirrors core/vl_ed25519.c:383-428 -/
def unpackneg (p : Vector UInt8 32) : Option Ge :=
  if canonicalKey p then
    match recoverX (unpack25519 p) with
    | none => none
    | some x => finishKey p x (unpack25519 p)
  else none

/-! ## The scalars -/

/-- mirrors core/vl_ed25519.c:107-112 -/
def L : List Int := [
  0xed, 0xd3, 0xf5, 0x5c, 0x1a, 0x63, 0x12, 0x58, 0xd6, 0x9c, 0xf7, 0xa2, 0xde, 0xf9, 0xde, 0x14,
  0, 0, 0, 0, 0, 0, 0, 0, 0, 0, 0, 0, 0, 0, 0, 0x10]

/-- `for (i = n - 1; i >= 0; --i)`. -/
def scalarLoop (s : List UInt8) : (n : Nat) → Bool
  | 0 => false
  | i + 1 =>
    if ((s.getD i 0).toNat : Int) < L.getD i 0 then true
    else if ((s.getD i 0).toNat : Int) > L.getD i 0 then false
    else scalarLoop s i

/-- mirrors core/vl_ed25519.c:433-441 -/
def scalarIsReduced (s : List UInt8) : Bool := scalarLoop s 32

/-- The turn of the first loop for one `i`.
mirrors core/vl_ed25519.c:321-334 -/
def modLTurn (x : List Int) (i : Nat) : List Int :=
  let (x, carry) := (List.range' (i - 32) 20).foldl (fun (x, carry) j =>
    let v := x.getD j 0 + (carry - 16 * x.getD i 0 * L.getD (j - (i - 32)) 0)
    let carry := (v + 128) >>> 8
    (x.set j (v - carry * 256), carry)) (x, (0 : Int))
  let x := x.set (i - 12) (x.getD (i - 12) 0 + carry)
  x.set i 0

/-- What is stored through `r`.
mirrors core/vl_ed25519.c:316-346 -/
def modL (x : List Int) : List UInt8 :=
  let x := (List.range 32).foldl (fun x k => modLTurn x (63 - k)) x
  let (x, carry) := (List.range 32).foldl (fun (x, carry) j =>
    let v := x.getD j 0 + (carry - (x.getD 31 0 >>> 4) * L.getD j 0)
    (x.set j (v % 256), v >>> 8)) (x, (0 : Int))
  let x := (List.range 32).foldl (fun x j => x.set j (x.getD j 0 - carry * L.getD j 0)) x
  let (_, r) := (List.range 32).foldl (fun (x, r) i =>
    let x := x.set (i + 1) (x.getD (i + 1) 0 + (x.getD i 0 >>> 8))
    (x, r ++ [UInt8.ofNat (x.getD i 0 % 256).toNat])) (x, [])
  r

/-- The 64 bytes of `r` afterwards.
mirrors core/vl_ed25519.c:348-356 -/
def reduce (r : Vector UInt8 64) : List UInt8 :=
  modL (r.toList.map fun b => (b.toNat : Int)) ++ List.replicate 32 0

/-! ## The call -/

/-- `h` before `reduce`; `buffer` is what the stack held in `sh`.
mirrors core/vl_ed25519.c:463-467 -/
def challenge (buffer : Buf 128) (sig : Vector UInt8 64) (msg : Option (List UInt8))
    (pk : Vector UInt8 32) : Option (Vector UInt8 64) := do
  let sh ← vlSha512Update (vlSha512Init buffer) (some (sig.toList.take 32))
  let sh ← vlSha512Update sh (some pk.toList)
  let sh ← vlSha512Update sh msg
  vlSha512Final sh

/-- `none` is a NULL pointer; `msg` points to `msgLen` bytes at least.
mirrors core/vl_ed25519.c:445-483 -/
def vlEd25519Verify (buffer : Buf 128) (sig : Option (Vector UInt8 64))
    (msg : Option (List UInt8)) (msgLen : Nat) (pk : Option (Vector UInt8 32)) : Option UInt32 :=
  match sig, pk with
  | some sig, some pk =>
    if msg = none ∧ msgLen ≠ 0 then some 0
    else if scalarIsReduced (sig.toList.drop 32) = false then some 0
    else
      match unpackneg pk with
      | none => some 0
      | some q =>
        match challenge buffer sig (msg.map (·.take msgLen)) pk with
        | none => none
        | some h =>
          let p := scalarmult q (reduce h)
          let q := scalarbase (sig.toList.drop 32)
          let t := pack (add p q)
          some (vlCtEq (some sig.toList) (some t.toList) 32)
  | _, _ => some 0

/-! ## What the tests say -/

theorem or_top {b c : UInt8} (hb : b.toNat < 128) :
    (b ||| (c &&& 0x80)).toNat = b.toNat + 128 * (c.toNat / 128) := by
  have hc : (c &&& 0x80).toNat = 2 ^ 7 * (c.toNat / 128) := by
    refine L1.Base32.forall_byte (P := fun c => (c &&& 0x80).toNat = 2 ^ 7 * (c.toNat / 128)) ?_ c
    decide +kernel
  rw [UInt8.toNat_or, hc, Nat.or_comm, ← Nat.two_pow_add_eq_or_of_lt hb]
  omega

theorem canonicalKey_iff (p : Vector UInt8 32) :
    canonicalKey p = true ↔ leVal p % 2 ^ 255 < 2 ^ 255 - 19 := by
  have hval : (unpack25519 p).val = leVal p % 2 ^ 255 % (2 ^ 255 - 19) := by
    rw [unpack25519, ZMod.val_natCast]
  have hlt := val_lt (unpack25519 p)
  have htop := top_toNat (pack25519 (unpack25519 p))
  have hp := leVal_lt p
  rw [leVal_pack25519] at htop
  rw [canonicalKey, decide_eq_true_eq, vlCtEq_ne_zero, ← leVal_inj, leVal_setTop,
    leVal_pack25519, or_top (by omega), htop, top_toNat, hval]
  have hdiv : leVal p / 2 ^ 248 / 128 = leVal p / 2 ^ 255 := by omega
  have hsplit := Nat.mod_add_div (leVal p) (2 ^ 255)
  rw [hdiv]
  refine ⟨fun h => ?_, fun h => ?_⟩
  · have hmod : leVal p % 2 ^ 255 % (2 ^ 255 - 19) = leVal p % 2 ^ 255 := by
      generalize leVal p % 2 ^ 255 % (2 ^ 255 - 19) = m at h
      omega
    rw [← hmod]
    exact Nat.mod_lt _ (by decide)
  · rw [Nat.mod_eq_of_lt h]
    omega

/-- The more significant digit decides. -/
theorem digit_lt {P a b x y : Nat} (ha : a < P) (hb : b < P) :
    a + P * x < b + P * y ↔ x < y ∨ x = y ∧ a < b := by
  rcases Nat.lt_trichotomy x y with h | h | h
  · have hle : P * (x + 1) ≤ P * y := Nat.mul_le_mul_left P h
    rw [Nat.mul_succ] at hle
    omega
  · subst h
    omega
  · have hle : P * (y + 1) ≤ P * x := Nat.mul_le_mul_left P h
    rw [Nat.mul_succ] at hle
    omega

theorem scalarLoop_iff (s : List UInt8) {n : Nat} (hn : n ≤ 32) :
    scalarLoop s n = true ↔ leNat s % 2 ^ (8 * n) < ell % 2 ^ (8 * n) := by
  have hL : ∀ i < 32, L.getD i 0 = ((ell / 2 ^ (8 * i) % 2 ^ 8 : Nat) : Int) := by decide +kernel
  induction n with
  | zero => simp [scalarLoop, Nat.mod_one]
  | succ i ih =>
    have hpos : 0 < 2 ^ (8 * i) := Nat.two_pow_pos _
    have hrest : leNat s % 2 ^ (8 * i) < ell % 2 ^ (8 * i) ↔ scalarLoop s i = true :=
      (ih (Nat.le_of_succ_le hn)).symm
    rw [Nat.mul_succ, Nat.pow_add, Nat.mod_mul, Nat.mod_mul,
      digit_lt (Nat.mod_lt _ hpos) (Nat.mod_lt _ hpos), ← getD_leNat, hrest, scalarLoop,
      hL i hn]
    generalize ell / 2 ^ (8 * i) % 2 ^ 8 = y
    generalize (s.getD i 0).toNat = x
    split
    · simp only [true_iff]
      omega
    split
    · simp only [Bool.false_eq_true, false_iff]
      omega
    · have hxy : x = y := by omega
      simp [hxy]

theorem scalarIsReduced_iff {s : List UInt8} (hs : s.length = 32) :
    scalarIsReduced s = true ↔ leNat s < ell := by
  have hlt := leNat_lt s
  rw [hs] at hlt
  rw [scalarIsReduced, scalarLoop_iff s (Nat.le_refl 32), Nat.mod_eq_of_lt hlt]
  rfl

theorem recoverX_spec {x y : Gf} (h : recoverX y = some x) : x * x * (1 + y * y * D) = y * y - 1 := by
  unfold recoverX at h
  extract_lets y2 dy2 num den den2 den4 den6 t t' x₀ chk₀ x' chk at h
  by_cases hchk : neq25519 chk num = true
  · rw [if_pos hchk] at h
    cases h
  · rw [if_neg hchk] at h
    rw [neq25519_iff, not_not] at hchk
    rw [← Option.some.inj h]
    exact hchk

theorem isLowOrder_iff {r : Ge} {P : curve.Point} (h : Represents r P) :
    isLowOrder r = true ↔ 8 • P = 0 := by
  have hzero : encode 0 = identity := by
    rw [← leVal_inj, leVal_encode]
    decide +kernel
  have h₂ := add_represents h h
  have h₄ := add_represents h₂ h₂
  have h₈ := add_represents h₄ h₄
  have height : P + P + (P + P) + (P + P + (P + P)) = 8 • P := by abel
  rw [height] at h₈
  rw [isLowOrder, decide_eq_true_eq, vlCtEq_ne_zero, pack_represents h₈, ← hzero, encode_inj]

theorem vlCtEq_eq_one {a b : List UInt8} {n : Nat} (hn : n ≠ 0) (ha : n ≤ a.length)
    (hb : n ≤ b.length) : vlCtEq (some a) (some b) n = 1 ↔ a.take n = b.take n := by
  have hbit : ∀ d : UInt8, ((d.toUInt32 - 1) >>> 8) &&& 1 = 1 ↔
      ((d.toUInt32 - 1) >>> 8) &&& 1 ≠ 0 := by
    refine L1.Base32.forall_byte ?_
    decide +kernel
  rw [← vlCtEq_ne_zero_iff hn ha hb, vlCtEq, if_neg hn]
  exact hbit _

/-! ## What is accepted -/

/-- An accepted key, its point, and what `unpackneg` makes of it. -/
structure Unpacked (p : Vector UInt8 32) (P : curve.Point) (r : Ge) : Prop where
  denotes : Denotes p P
  canonical : leVal p % 2 ^ 255 < 2 ^ 255 - 19
  sign : P.x.val % 2 = leVal p / 2 ^ 255
  order : 8 • P ≠ 0
  coords : r = { x := -P.x, y := P.y, z := 1, t := -P.x * P.y }

theorem Unpacked.represents {p : Vector UInt8 32} {P : curve.Point} {r : Ge}
    (h : Unpacked p P r) : Represents r (-P) := by
  rw [h.coords]
  exact ⟨one_ne_zero, by simp, by simp, by simp⟩

theorem sign_iff (p : Vector UInt8 32) (x : Gf) :
    par25519 x = top p >>> 7 ↔ x.val % 2 = leVal p / 2 ^ 255 := by
  have hbit : (top p >>> 7).toNat = (top p).toNat / 2 ^ 7 :=
    (UInt8.toNat_shiftRight ..).trans (Nat.shiftRight_eq_div_pow ..)
  rw [← UInt8.toNat_inj, par25519_toNat, hbit, top_toNat, Nat.div_div_eq_div_mul, ← Nat.pow_add]

/-- The sign that is chosen is the other one. -/
theorem sign_chosen (p : Vector UInt8 32) {x x' : Gf}
    (hx' : x' = if par25519 x = top p >>> 7 then 0 - x else x) (hne : x' ≠ 0) :
    (-x').val % 2 = leVal p / 2 ^ 255 := by
  have hp := leVal_lt p
  simp only [sign_iff, zero_sub] at hx'
  split at hx'
  · rename_i hsame
    rw [hx', neg_neg, hsame]
  · rename_i hother
    rw [hx'] at hne ⊢
    have hflip := neg_parity hne
    omega

theorem finishKey_some {p : Vector UInt8 32} {x y : Gf} {r : Ge} (h : finishKey p x y = some r) :
    ∃ x', x' = (if par25519 x = top p >>> 7 then 0 - x else x) ∧
      r = ⟨x', y, 1, x' * y⟩ ∧ isLowOrder r = false := by
  unfold finishKey at h
  extract_lets x' r' at h
  cases hlow : isLowOrder r' with
  | true =>
    rw [hlow, if_pos rfl] at h
    exact absurd h.symm (Option.some_ne_none r)
  | false =>
    rw [hlow, if_neg Bool.false_ne_true] at h
    have hr : r' = r := Option.some.inj h
    rw [hr] at hlow
    exact ⟨x', rfl, hr.symm, hlow⟩

theorem unpackneg_some {p : Vector UInt8 32} {r : Ge} (h : unpackneg p = some r) :
    canonicalKey p = true ∧ ∃ x, recoverX (unpack25519 p) = some x ∧
      finishKey p x (unpack25519 p) = some r := by
  unfold unpackneg at h
  cases hcanon : canonicalKey p with
  | false =>
    rw [hcanon, if_neg Bool.false_ne_true] at h
    exact absurd h.symm (Option.some_ne_none r)
  | true =>
    rw [hcanon, if_pos rfl] at h
    cases hroot : recoverX (unpack25519 p) with
    | none =>
      rw [hroot] at h
      exact absurd h.symm (Option.some_ne_none r)
    | some x =>
      rw [hroot] at h
      exact ⟨rfl, x, rfl, h⟩

/-- With `x = 0` a point has order two at most. -/
theorem x_ne_zero {P : curve.Point} (horder : 8 • P ≠ 0) : P.x ≠ 0 := by
  intro h0
  refine horder ?_
  rw [show 8 = 2 * 4 by rfl, mul_nsmul, two_nsmul, Edwards.Point.add_self_of_x h0, nsmul_zero]

theorem unpackneg_spec {p : Vector UInt8 32} {r : Ge} (h : unpackneg p = some r) :
    ∃ P, Unpacked p P r := by
  obtain ⟨hcanon, x, hroot, hfinish⟩ := unpackneg_some h
  obtain ⟨x', hx', hr, hlow⟩ := finishKey_some hfinish
  have hsq : x' * x' = x * x := by
    rw [hx']
    split
    · ring
    · rfl
  have hon : curve.On x' (unpack25519 p) := by
    have hspec := recoverX_spec hroot
    rw [← hsq] at hspec
    change -x' ^ 2 + unpack25519 p ^ 2 = 1 + D * x' ^ 2 * unpack25519 p ^ 2
    linear_combination -hspec
  -- `r` stands for the negative of the key's point
  obtain ⟨Q, hQx, hQy⟩ : ∃ Q : curve.Point, Q.x = x' ∧ Q.y = unpack25519 p :=
    ⟨⟨x', unpack25519 p, hon⟩, rfl, rfl⟩
  have hrep : Represents r Q := by
    rw [hr]
    exact ⟨one_ne_zero, by rw [hQx, mul_one], by rw [hQy, mul_one], by rw [hQx, hQy, mul_one]⟩
  have horder : 8 • Q ≠ 0 := by
    rw [ne_eq, ← isLowOrder_iff hrep, hlow]
    exact Bool.false_ne_true
  have hne : x' ≠ 0 := hQx ▸ x_ne_zero horder
  have hsign := sign_chosen p hx' hne
  rw [← hQx] at hsign
  refine ⟨-Q, ⟨hQy, fun _ => hsign⟩, (canonicalKey_iff p).mp hcanon, hsign, ?_, ?_⟩
  · rwa [smul_neg, ne_eq, neg_eq_zero]
  · rw [hr, Edwards.Point.neg_x, Edwards.Point.neg_y, neg_neg, hQx, hQy]

/-- `R` and `S`. -/
def joinSig (R S : Vector UInt8 32) : Vector UInt8 64 := R ++ S

theorem toList_joinSig (R S : Vector UInt8 32) : (joinSig R S).toList = R.toList ++ S.toList :=
  Vector.toList_append

theorem take_joinSig (R S : Vector UInt8 32) : (joinSig R S).toList.take 32 = R.toList := by
  rw [toList_joinSig, List.take_left' (by simp)]

theorem drop_joinSig (R S : Vector UInt8 32) : (joinSig R S).toList.drop 32 = S.toList := by
  rw [toList_joinSig, List.drop_left' (by simp)]

/-- Neither the stack nor `S` is in the hash, which is SHA-512 of the three. -/
theorem challenge_spec (R pk : Vector UInt8 32) (m : List UInt8) :
    ∃ h, (∀ buffer S msg, msg.getD [] = m → challenge buffer (joinSig R S) msg pk = some h) ∧
      ((R.toList ++ pk.toList ++ m).length < 2 ^ 64 → h = sha512 (R.toList ++ pk.toList ++ m)) := by
  obtain ⟨h, hfinal, hsha⟩ := vlSha512Final_total (R.toList ++ pk.toList ++ m)
  refine ⟨h, fun buffer S msg hmsg => ?_, hsha⟩
  obtain ⟨sh₁, he₁, hr₁⟩ := vlSha512Update_spec (vlSha512Init_spec buffer) (some R.toList)
  obtain ⟨sh₂, he₂, hr₂⟩ := vlSha512Update_spec hr₁ (some pk.toList)
  obtain ⟨sh₃, he₃, hr₃⟩ := vlSha512Update_spec hr₂ msg
  rw [hmsg] at hr₃
  rw [challenge, take_joinSig, he₁, Option.bind_eq_bind, Option.bind_some, he₂,
    Option.bind_some, he₃]
  exact hfinal sh₃ hr₃

/-- The message that the two arguments pass. -/
def messageOf (msg : Option (List UInt8)) (msgLen : Nat) : List UInt8 := (msg.getD []).take msgLen

theorem getD_take (msg : Option (List UInt8)) (msgLen : Nat) :
    (msg.map (·.take msgLen)).getD [] = messageOf msg msgLen := by
  cases msg with
  | none => exact List.take_nil.symm
  | some m => rfl

theorem vlEd25519Verify_of_refused {pk : Vector UInt8 32} (h : unpackneg pk = none)
    (buffer : Buf 128) (sig : Option (Vector UInt8 64)) (msg : Option (List UInt8)) (msgLen : Nat) :
    vlEd25519Verify buffer sig msg msgLen (some pk) = some 0 := by
  cases sig with
  | none => rfl
  | some sig =>
    rw [vlEd25519Verify, h]
    split
    · rfl
    split
    · rfl
    · rfl

/-- A signature is accepted under a key only. -/
theorem vlEd25519Verify_key {buffer : Buf 128} {sig : Option (Vector UInt8 64)}
    {msg : Option (List UInt8)} {msgLen : Nat} {pk : Option (Vector UInt8 32)}
    (h : vlEd25519Verify buffer sig msg msgLen pk = some 1) : ∃ k, pk = some k := by
  cases pk with
  | none =>
    cases sig with
    | none => cases h
    | some sig => cases h
  | some k => exact ⟨k, rfl⟩

/-- **What an accepted signature has passed.** -/
theorem vlEd25519Verify_eq_one {buffer : Buf 128} {R S pk : Vector UInt8 32}
    {msg : Option (List UInt8)} {msgLen : Nat}
    (hone : vlEd25519Verify buffer (some (joinSig R S)) msg msgLen (some pk) = some 1) :
    leVal S < ell ∧ ∃ P q h, Unpacked pk P q ∧
      challenge buffer (joinSig R S) (msg.map (·.take msgLen)) pk = some h ∧
      R = encode ((leNat (reduce h) % 2 ^ 256) • -P + leVal S • base) := by
  obtain ⟨h, hhash, -⟩ := challenge_spec R pk (messageOf msg msgLen)
  have hzero : (some 0 : Option UInt32) ≠ some 1 := by decide
  have hd := hhash buffer S _ (getD_take msg msgLen)
  rw [vlEd25519Verify, drop_joinSig, hd] at hone
  split at hone
  · exact absurd hone hzero
  cases hred : scalarIsReduced S.toList with
  | false =>
    rw [hred, if_pos rfl] at hone
    exact absurd hone hzero
  | true =>
    rw [hred, if_neg Bool.true_eq_false_eq_False] at hone
    have hS : leVal S < ell := (scalarIsReduced_iff (by simp)).mp hred
    have hmod : leNat S.toList % 2 ^ 256 = leVal S := Nat.mod_eq_of_lt (leVal_lt S)
    cases hkey : unpackneg pk with
    | none =>
      rw [hkey] at hone
      exact absurd hone hzero
    | some q =>
      rw [hkey] at hone
      obtain ⟨P, hP⟩ := unpackneg_spec hkey
      have hsum := add_represents (scalarmult_represents hP.represents (reduce h))
        (scalarbase_represents S.toList)
      rw [hmod] at hsum
      have heq : (joinSig R S).toList.take 32 =
          (pack (add (scalarmult q (reduce h)) (scalarbase S.toList))).toList.take 32 :=
        (vlCtEq_eq_one (by decide) (by simp) (by simp)).mp (Option.some.inj hone)
      rw [take_joinSig, pack_represents hsum, List.take_of_length_le (by simp),
        Vector.toList_inj] at heq
      exact ⟨hS, P, q, h, hP, hd, heq⟩

end VectiLicense.L3.Ed25519
