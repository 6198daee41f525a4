import VectiLicense.L3Ed25519.Limbs

/-!
# Packing limbs, and the canonical key

After the carries `pack25519` subtracts the modulus twice where it can, and
writes the digits out as bytes; the number below the modulus that is left is
the residue. What `unpack25519` reads from 32 bytes is within the bounds of a
pass, so the comparison in `unpackneg` is with the one spelling of `y`.

* `subTurn_spec`: one conditional subtraction.
* `pack25519_spec`, `unpack25519_spec`: on limbs, what `Field` has.
* `canonicalKey_eq`: the test on limbs is the test of `Verify`.
-/
namespace VectiLicense.L3.Ed25519.Limbs

open VectiLicense.Core Function

/-! ## The conditional subtraction -/

/-- The modulus' digits, as the code has them. -/
def modulusDigit (j : Nat) : Int := if j = 0 then 0xffed else if j = 15 then 0x7fff else 0xffff

theorem radixSum_modulus : radixSum 16 modulusDigit 16 = 2 ^ 255 - 19 := by decide +kernel

theorem toInt_borrow (v : Int64) : ((v >>> 16) &&& 1).toInt = v.toInt / 2 ^ 16 % 2 := by
  rw [toInt_mask _ (k := 1) (by decide) (by decide), toInt_sar v (k := 16) (by decide) (by decide),
    pow_one]

/-- A borrow is taken from a negative limb, and makes it a digit. -/
theorem borrow_cases {v : Int} (h : -2 ^ 16 ≤ v ∧ v < 2 ^ 16) :
    (0 ≤ v ∧ v / 2 ^ 16 % 2 = 0 ∨ v < 0 ∧ v / 2 ^ 16 % 2 = 1) ∧
      v % 2 ^ 16 = v + 2 ^ 16 * (v / 2 ^ 16 % 2) := by
  omega

/-- After `n` turns: digits, but for the last limb written, of the difference so far. -/
def Borrowed (t : Words) (n : Nat) (m : Words) : Prop :=
  Digits 16 (ints m) n ∧ (-2 ^ 16 ≤ ints m n ∧ ints m n < 2 ^ 16) ∧
    radixSum 16 (ints m) (n + 1) = radixSum 16 (fun j => ints t j - modulusDigit j) (n + 1)

/-- What storing the next limb and reducing the last one does to the difference. -/
theorem borrow_step {f : Nat → Int} {n : Nat} {d : Int}
    (hd : Digits 16 f n) (hv : -2 ^ 16 ≤ f n ∧ f n < 2 ^ 16) :
    Digits 16 (update (update f (n + 1) d) n (f n % 2 ^ 16)) (n + 1) ∧
      radixSum 16 (update (update f (n + 1) d) n (f n % 2 ^ 16)) (n + 2) =
        radixSum 16 f (n + 1) + 2 ^ (16 * (n + 1)) * (d + f n / 2 ^ 16 % 2) := by
  obtain ⟨-, hmod⟩ := borrow_cases hv
  have hpow : (2 : Int) ^ (16 * (n + 1)) = 2 ^ (16 * n) * 2 ^ 16 := by rw [Nat.mul_succ, pow_add]
  refine ⟨fun j hj => ?_, ?_⟩
  · rcases Nat.lt_succ_iff_lt_or_eq.mp hj with hlt | rfl
    · rw [update_of_ne (by omega), update_of_ne (by omega)]
      exact hd j hlt
    · rw [update_self]
      omega
  · rw [radixSum_update (by omega), update_of_ne (by omega), radixSum,
      radixSum_update_ge (Nat.le_refl _), update_self, hmod, hpow]
    ring

theorem borrowTurn_spec {t m : Words} (ht : Digits 16 (ints t) 16) {k : Fin 14}
    (h : Borrowed t k.val m) : Returns (borrowTurn t m k) (Borrowed t (k.val + 1)) := by
  obtain ⟨hd, hv, hsum⟩ := h
  have hti := ht (k.val + 1) (by omega)
  obtain ⟨hb, -⟩ := borrow_cases hv
  obtain ⟨i, hi⟩ : ∃ i : Fin 16, i = ⟨k.val + 1, by omega⟩ := ⟨_, rfl⟩
  obtain ⟨i₁, hi₁⟩ : ∃ i : Fin 16, i = ⟨k.val, by omega⟩ := ⟨_, rfl⟩
  have hiv : i.val = k.val + 1 := by rw [hi]
  have hiv₁ : i₁.val = k.val := by rw [hi₁]
  have hne : i₁ ≠ i := fun h => by
    rw [← h] at hiv
    omega
  have hmi : ints m k.val = (m i₁).toInt := by rw [← hiv₁, ints_val]
  have hti' : ints t (k.val + 1) = (t i).toInt := by rw [← hiv, ints_val]
  unfold borrowTurn
  simp only [← hi, ← hi₁]
  refine (subI64?_spec (y := 65535) hti'.symm rfl (by omega)).bind fun d₁ hd₁ => ?_
  refine (subI64?_spec hd₁ ((toInt_borrow _).trans (by rw [← hmi])) (by omega)).bind fun d hd' =>
    .ret ?_
  have hints : ints (update (update m i d) i₁ (update m i d i₁ &&& 0xffff)) =
      update (update (ints m) (k.val + 1) d.toInt) k.val (ints m k.val % 2 ^ 16) := by
    rw [ints_update, ints_update, update_of_ne hne, hiv, hiv₁,
      toInt_mask _ (k := 16) (by decide) (by decide), hmi]
  obtain ⟨hdigits, hstep⟩ := borrow_step (d := d.toInt) hd hv
  unfold Borrowed
  rw [hints]
  refine ⟨hdigits, ?_, ?_⟩
  · rw [update_of_ne (by omega), update_self]
    omega
  · have hq : modulusDigit (k.val + 1) = 0xffff := by
      unfold modulusDigit
      rw [if_neg (by omega), if_neg (by omega)]
    rw [hstep, hsum, radixSum_succ _ _ (k.val + 1), hd', hq]
    ring

theorem sel25519_one (p q : Words) : sel25519 p q 1 = some (q, p) := by
  have hsub : subI64? 1 1 = some 0 := by decide +kernel
  have hswap : ∀ a b : Int64, a ^^^ (~~~0 &&& (a ^^^ b)) = b := fun a b => by
    rw [Int64.not_zero, Int64.neg_one_and, ← Int64.xor_assoc, Int64.xor_self, Int64.zero_xor]
  have hswap' : ∀ a b : Int64, b ^^^ (~~~0 &&& (a ^^^ b)) = a := fun a b => by
    rw [Int64.xor_comm a b, hswap]
  rw [sel25519, hsub]
  simp only [Option.bind_eq_bind, Option.bind_some, hswap, hswap']
  rfl

theorem sel25519_zero (p q : Words) : sel25519 p q 0 = some (p, q) := by
  have hsub : subI64? 0 1 = some (-1) := by decide +kernel
  rw [sel25519, hsub]
  simp

/-- The subtracted number is taken unless its last limb is negative. -/
theorem sel25519_sign {v : Int} (hv : -2 ^ 16 ≤ v ∧ v < 2 ^ 16) {b : Int64}
    (hb : b.toInt = 1 - v / 2 ^ 16 % 2) (p q : Words) :
    sel25519 p q b = some (if 0 ≤ v then (q, p) else (p, q)) := by
  obtain ⟨⟨hsign, hborrow⟩ | ⟨hsign, hborrow⟩, -⟩ := borrow_cases hv
  · have hone : b = 1 := by
      rw [hborrow] at hb
      exact Int64.toInt_inj.mp hb
    rw [if_pos hsign, hone, sel25519_one]
  · have hzero : b = 0 := by
      rw [hborrow] at hb
      exact Int64.toInt_inj.mp hb
    rw [if_neg (by omega), hzero, sel25519_zero]

/-- The first limb, before any borrow. -/
theorem borrowed_zero {t m : Words} (ht : Digits 16 (ints t) 16) {d : Int64}
    (hd : d.toInt = ints t 0 - 65517) : Borrowed t 0 (update m 0 d) := by
  have ht0 := ht 0 (by omega)
  have hm : ints (update m 0 d) 0 = ints t 0 - 65517 := by
    rw [ints_update, ← hd]
    rfl
  refine ⟨fun j hj => by omega, by omega, ?_⟩
  rw [radixSum, radixSum, hm]
  rfl

/-- After the last limb: the difference, all of it digits but the last limb, which
has the sign of the whole. -/
theorem Borrowed.last {t m M : Words} (h : Borrowed t 14 m) {d : Int64}
    (hd : d.toInt = ints t 15 - 32767 - ints m 14 / 2 ^ 16 % 2)
    (hM : update (update m 15 d) 14 (update m 15 d 14 &&& 0xffff) = M) :
    value M = value t - (2 ^ 255 - 19) ∧ Digits 16 (ints M) 15 ∧ ints M 15 = d.toInt := by
  obtain ⟨hdigits, hv, hsum⟩ := h
  have h14 : ints m 14 = (m 14).toInt := ints_val m 14
  have hints : ints M = update (update (ints m) 15 d.toInt) 14 (ints m 14 % 2 ^ 16) := by
    rw [← hM, ints_update, ints_update, update_of_ne (by decide),
      toInt_mask _ (k := 16) (by decide) (by decide), h14]
    rfl
  obtain ⟨hdigits', hstep⟩ := borrow_step (d := d.toInt) hdigits hv
  rw [← hints] at hdigits' hstep
  refine ⟨?_, hdigits', ?_⟩
  · have hq : modulusDigit 15 = 32767 := rfl
    rw [value, hstep, hsum, hd, value, ← radixSum_modulus, ← radixSum_sub, radixSum_succ _ _ 15, hq]
    ring
  · rw [hints]
    rfl

theorem subTurn_spec {t m : Words} (ht : Digits 16 (ints t) 16) :
    Returns (subTurn (t, m)) fun s => Digits 16 (ints s.1) 16 ∧
      value s.1 = if 2 ^ 255 - 19 ≤ value t then value t - (2 ^ 255 - 19) else value t := by
  have ht0 := ht 0 (by omega)
  have ht15 := ht 15 (by omega)
  have h0 : ints t 0 = (t 0).toInt := ints_val t 0
  have h15 : ints t 15 = (t 15).toInt := ints_val t 15
  unfold subTurn
  refine (subI64?_spec (y := 65517) h0.symm rfl (by omega)).bind fun d₀ hd₀ => ?_
  refine (Returns.finRange (borrowed_zero ht hd₀) fun k s hs => borrowTurn_spec ht hs).bind
    fun m hm => ?_
  have h14 : ints m 14 = (m 14).toInt := ints_val m 14
  obtain ⟨hb, -⟩ := borrow_cases hm.2.1
  refine (subI64?_spec (y := 32767) h15.symm rfl (by omega)).bind fun d₁ hd₁ => ?_
  refine (subI64?_spec hd₁ ((toInt_borrow _).trans (by rw [← h14])) (by omega)).bind
    fun d hd => ?_
  obtain ⟨M, hM⟩ : ∃ M, update (update m 15 d) 14 (update m 15 d 14 &&& 0xffff) = M := ⟨_, rfl⟩
  obtain ⟨hdiff, hdigits, htop⟩ := hm.last hd hM
  have hfit : -2 ^ 16 ≤ d.toInt ∧ d.toInt < 2 ^ 16 := by omega
  obtain ⟨hb, -⟩ := borrow_cases hfit
  simp only [update_self, hM]
  refine (subI64?_spec (x := 1) rfl (toInt_borrow d) (by omega)).bind fun nb hnb => ?_
  have hlow : 0 ≤ radixSum 16 (ints M) 15 ∧ radixSum 16 (ints M) 15 < 2 ^ (16 * 15) :=
    hdigits.sum_bounds
  have hsplit : value M = radixSum 16 (ints M) 15 + 2 ^ (16 * 15) * d.toInt := by
    rw [← htop]
    rfl
  rw [sel25519_sign hfit hnb]
  refine .ret ?_
  split
  · refine ⟨fun j hj => ?_, ?_⟩
    · rcases Nat.lt_succ_iff_lt_or_eq.mp hj with hlt | rfl
      · exact hdigits j hlt
      · rw [htop]
        omega
    · rw [if_pos (by omega)]
      exact hdiff
  · refine ⟨ht, ?_⟩
    rw [if_neg (by omega)]

/-! ## Packing -/

/-- The number that is left is the residue. -/
theorem packLimbs_spec {n : Words} (h : Bounded n) (m : Words) :
    Returns (packLimbs m n) fun t =>
      Digits 16 (ints t) 16 ∧ value t = value n % (2 ^ 255 - 19) := by
  rw [packLimbs, ← bind_assoc, ← bind_assoc]
  refine (carried h).bind fun t ⟨hd, hmod⟩ => ?_
  have hfit : 0 ≤ value t ∧ value t < 2 ^ (16 * 16) := hd.sum_bounds
  refine (subTurn_spec hd).bind fun s₁ ⟨hd₁, hv₁⟩ => ?_
  refine (subTurn_spec hd₁).bind fun s₂ ⟨hd₂, hv₂⟩ => .ret ⟨hd₂, ?_⟩
  rw [← hmod, hv₂, hv₁]
  -- the number is below `2 (2^255 - 19) + 38`
  split
  · split
    · omega
    · omega
  · omega

theorem toU8_toNat {v : Int64} (h : 0 ≤ v.toInt ∧ v.toInt < 2 ^ 8) :
    ((toU8 v).toNat : Int) = v.toInt := by
  have hle : (0 : Int64) ≤ v := Int64.le_iff_toInt_le.mpr h.1
  have hnat : v.toUInt64.toNat = v.toInt.toNat := by
    rw [Int64.toNat_toUInt64_of_le hle, Int64.toNat_toInt]
  rw [toU8, UInt64.toNat_toUInt8, hnat]
  omega

theorem narrow_fits {t : Words} (ht : Digits 16 (ints t) 16) (i : Fin 16) :
    ((t i &&& 0xff).toInt = ints t i.val % 2 ^ 8 ∧
      ((toU8 (t i &&& 0xff)).toNat : Int) = (t i &&& 0xff).toInt) ∧
    ((t i >>> 8).toInt = ints t i.val / 2 ^ 8 ∧
      ((toU8 (t i >>> 8)).toNat : Int) = (t i >>> 8).toInt) := by
  have hti := ht i.val i.isLt
  rw [ints_val] at hti ⊢
  have hmask := toInt_mask (t i) (m := 0xff) (k := 8) (by decide) (by decide)
  have hsar := toInt_sar (t i) (b := 8) (k := 8) (by decide) (by decide)
  exact ⟨⟨hmask, toU8_toNat (by omega)⟩, hsar, toU8_toNat (by omega)⟩

theorem storeLimbs_get {t : Words} (ht : Digits 16 (ints t) 16) (j : Fin 32) :
    (((storeLimbs t).get j).toNat : Int) = value t / 2 ^ (8 * j.val) % 2 ^ 8 := by
  obtain ⟨i, hi⟩ : ∃ i : Fin 16, i = ⟨j.val / 2, by omega⟩ := ⟨_, rfl⟩
  have hiv : i.val = j.val / 2 := by rw [hi]
  obtain ⟨⟨heven, hevenU8⟩, hodd, hoddU8⟩ := narrow_fits ht i
  have hdigit := ht.digit_eq i.isLt
  have hget : (storeLimbs t).get j =
      if j.val % 2 = 0 then toU8 (t i &&& 0xff) else toU8 (t i >>> 8) := by
    change (storeLimbs t)[j.val] = _
    rw [storeLimbs, Vector.getElem_ofFn, hi]
  rw [hget]
  split
  · have hj : 8 * j.val = 16 * i.val := by omega
    rw [hevenU8, heven, hdigit, hj]
    unfold value
    omega
  · have hj : 8 * j.val = 16 * i.val + 8 := by omega
    have hdiv : value t / 2 ^ (16 * i.val + 8) = value t / 2 ^ (16 * i.val) / 2 ^ 8 := by
      rw [pow_add, Int.ediv_ediv_of_nonneg (by positivity)]
    rw [hoddU8, hodd, hdigit, hj, hdiv]
    unfold value
    omega

/-- Digits are stored as the bytes of their number. -/
theorem storeLimbs_eq {t : Words} (ht : Digits 16 (ints t) 16) {a : Gf}
    (ha : (a.val : Int) = value t) : storeLimbs t = Ed25519.pack25519 a := by
  refine Vector.ext fun j hj => ?_
  have hget := storeLimbs_get ht ⟨j, hj⟩
  have hfield := get_toNat (Ed25519.pack25519 a) ⟨j, hj⟩
  rw [leVal_pack25519] at hfield
  have hcast : (((storeLimbs t).get ⟨j, hj⟩).toNat : Int) =
      ((Ed25519.pack25519 a).get ⟨j, hj⟩).toNat := by
    rw [hget, hfield, ← ha]
    norm_cast
  exact UInt8.toNat_inj.mp (Int.ofNat_inj.mp hcast)

/-- **Packing**: the bytes that `Field` has for the residue of the number. -/
theorem pack25519_spec {n : Words} (h : Bounded n) (m : Words) :
    Returns (packLimbs m n) (fun t => Digits 16 (ints t) 16) ∧
      pack25519 m n = some (Ed25519.pack25519 (value n : Int)) := by
  obtain ⟨t, ht, hd, hv⟩ := packLimbs_spec h m
  refine ⟨⟨t, ht, hd⟩, ?_⟩
  have hval : (((value n : Int) : Gf).val : Int) = value t := by
    rw [ZMod.val_intCast, hv]
    rfl
  rw [pack25519, ht, ← storeLimbs_eq hd hval]
  rfl

/-! ## Unpacking -/

theorem unpackTurn_spec (n : Vector UInt8 32) (o : Words) (i : Fin 16) :
    Returns (unpackTurn n o i) fun o' =>
      ints o' = update (ints o) i.val ((leVal n / 2 ^ (16 * i.val) % 2 ^ 16 : Nat) : Int) := by
  obtain ⟨lo, hlo⟩ : ∃ b, n.get ⟨2 * i.val, by omega⟩ = b := ⟨_, rfl⟩
  obtain ⟨hi, hhi⟩ : ∃ b, n.get ⟨2 * i.val + 1, by omega⟩ = b := ⟨_, rfl⟩
  have hlow := get_toNat n ⟨2 * i.val, by omega⟩
  have hhigh := get_toNat n ⟨2 * i.val + 1, by omega⟩
  rw [hlo] at hlow
  rw [hhi] at hhigh
  have hbyte : ∀ b : UInt8, (Int64.ofNat b.toNat).toInt = b.toNat := fun b => by
    have hb := b.toNat_lt
    exact Int64.toInt_ofNat_of_lt (by omega)
  have hlt := lo.toNat_lt
  have hlt' := hi.toNat_lt
  unfold unpackTurn
  rw [hlo, hhi]
  refine (shlI64?_spec (hbyte hi) (by omega) (by omega)).bind fun s hs => ?_
  refine (addI64?_spec (hbyte lo) hs (by omega)).bind fun v hv => .ret ?_
  have hnext : leVal n / 2 ^ (8 * (2 * i.val + 1)) = leVal n / 2 ^ (16 * i.val) / 2 ^ 8 := by
    rw [Nat.div_div_eq_div_mul, ← Nat.pow_add]
    congr 2
    omega
  have hexp : 8 * (2 * i.val) = 16 * i.val := by omega
  dsimp only at hlow hhigh
  rw [hexp] at hlow
  rw [hnext] at hhigh
  have hdigit : v.toInt = ((leVal n / 2 ^ (16 * i.val) % 2 ^ 16 : Nat) : Int) := by
    rw [hv, hlow, hhigh]
    omega
  rw [ints_update, hdigit]

theorem low_digit (N : Nat) {j : Nat} (hj : j < 15) :
    N % 2 ^ 255 / 2 ^ (16 * j) % 2 ^ 16 = N / 2 ^ (16 * j) % 2 ^ 16 := by
  have hpow : (2 : Nat) ^ 255 = 2 ^ (16 * j) * (2 ^ 16 * 2 ^ (239 - 16 * j)) := by
    rw [← Nat.pow_add, ← Nat.pow_add]
    congr 1
    omega
  rw [hpow, Nat.mod_mul_right_div_self, Nat.mod_mul_right_mod]

/-- **Unpacking**: the digits of the low 255 bits. -/
theorem unpack25519_spec (o : Words) (p : Vector UInt8 32) :
    Returns (unpack25519 o p) fun n => Bounded n ∧ value n = (leVal p % 2 ^ 255 : Nat) := by
  have hp := leVal_lt p
  obtain ⟨y, hy⟩ : ∃ y : Int, ((leVal p % 2 ^ 255 : Nat) : Int) = y := ⟨_, rfl⟩
  unfold unpack25519
  refine (Returns.finRange (I := fun k o => ∀ j < k,
    ints o j = ((leVal p / 2 ^ (16 * j) % 2 ^ 16 : Nat) : Int)) (fun j hj => by omega) ?_).bind ?_
  · intro i o h
    refine (unpackTurn_spec p o i).mono fun o' ho' j hj => ?_
    rw [ho']
    rcases Nat.lt_succ_iff_lt_or_eq.mp hj with hlt | rfl
    · rw [update_of_ne (by omega)]
      exact h j hlt
    · rw [update_self]
  · intro o ho
    refine .ret ?_
    have hdigit : ∀ j < 16, ints (update o 15 (o 15 &&& 0x7fff)) j = y / 2 ^ (16 * j) % 2 ^ 16 := by
      intro j hj
      rw [← hy, ints_update]
      rcases Nat.lt_succ_iff_lt_or_eq.mp hj with hlt | rfl
      · have hlow := low_digit (leVal p) hlt
        rw [update_of_ne (by exact Nat.ne_of_lt hlt), ho j hj, ← hlow]
        norm_cast
      · have h15 : (o 15).toInt = ((leVal p / 2 ^ 240 % 2 ^ 16 : Nat) : Int) := ho 15 hj
        change update (ints o) 15 (o 15 &&& 0x7fff).toInt 15 =
          ((leVal p % 2 ^ 255 : Nat) : Int) / 2 ^ 240 % 2 ^ 16
        rw [update_self, toInt_mask _ (k := 15) (by decide) (by decide), h15]
        omega
    refine ⟨fun j => ?_, ?_⟩
    · by_cases hj : j < 16
      · rw [hdigit j hj]
        omega
      · rw [ints, dif_neg hj]
        omega
    · rw [value, radixSum_congr hdigit, radixSum_digits, hy, Int.emod_eq_of_lt]
      · omega
      · omega

/-! ## The canonical key -/

/-- What is unpacked is the number modulo `2^255`. -/
theorem unpacked {o n : Words} {p : Vector UInt8 32} (h : unpack25519 o p = some n) :
    Bounded n ∧ ((value n : Int) : Gf) = Ed25519.unpack25519 p := by
  obtain ⟨n', hn', hb, hv⟩ := unpack25519_spec o p
  obtain rfl : n = n' := Option.some_inj.mp (h.symm.trans hn')
  refine ⟨hb, ?_⟩
  rw [hv, Ed25519.unpack25519, Int.cast_natCast]

theorem canonicalKey_eq (y m : Words) (p : Vector UInt8 32) :
    canonicalKey y m p = some (Ed25519.canonicalKey p) := by
  obtain ⟨n, hn, -⟩ := unpack25519_spec y p
  obtain ⟨hb, hval⟩ := unpacked hn
  obtain ⟨-, hpack⟩ := pack25519_spec hb m
  rw [canonicalKey, hn, Option.bind_eq_bind, Option.bind_some, hpack, hval]
  rfl

/-- **The canonical test is exact**, whatever the memory held: unpacking and
packing never overflow, every limb is narrowed without loss, the bytes are those
of `y mod (2^255 - 19)`, and the comparison succeeds for `y` below the modulus. -/
theorem canonical_exact (o m : Words) (p : Vector UInt8 32) :
    (∃ n t, unpack25519 o p = some n ∧ packLimbs m n = some t ∧
      ∀ i, ((toU8 (t i &&& 0xff)).toNat : Int) = (t i &&& 0xff).toInt ∧
        ((toU8 (t i >>> 8)).toNat : Int) = (t i >>> 8).toInt) ∧
    (unpack25519 o p >>= pack25519 m).map Vector.toList =
      some (leBytes 32 (leVal p % 2 ^ 255 % (2 ^ 255 - 19))) ∧
    canonicalKey o m p = some (decide (leVal p % 2 ^ 255 < 2 ^ 255 - 19)) := by
  obtain ⟨n, hn, -⟩ := unpack25519_spec o p
  obtain ⟨hb, hval⟩ := unpacked hn
  obtain ⟨⟨t, ht, hd⟩, hpack⟩ := pack25519_spec hb m
  refine ⟨⟨n, t, hn, ht, fun i => ?_⟩, ?_, ?_⟩
  · obtain ⟨⟨-, hlow⟩, -, hhigh⟩ := narrow_fits hd i
    exact ⟨hlow, hhigh⟩
  · have hres : (Ed25519.unpack25519 p).val = leVal p % 2 ^ 255 % (2 ^ 255 - 19) := by
      rw [Ed25519.unpack25519, ZMod.val_natCast]
    rw [hn, Option.bind_eq_bind, Option.bind_some, hpack, hval, Option.map_some,
      Ed25519.pack25519, Vector.toList_mk, hres]
  · rw [canonicalKey_eq, Option.some_inj, Bool.eq_iff_iff, decide_eq_true_eq]
    exact Ed25519.canonicalKey_iff p

end VectiLicense.L3.Ed25519.Limbs
