import VectiLicense.L3Ed25519.Packing

/-!
# The field routines on limbs

`A` and `Z` add and subtract place by place and carry nothing, so limbs grow;
`M` brings them back below `2^17`. It holds for operands below `2^20`: each of
the 256 products is below `2^40`, and a column of the product is a sum of them.

* `A_spec`, `Z_spec`: the bounds add.
* `mulTurns`, `foldTurns`: the columns spell the product, and folding the upper
  fifteen onto the lower keeps it modulo `2^255 - 19`.
* `M_spec`: the product, with limbs below `2^17` again.
* `inv25519_spec`, `pow2523_spec`: the chains of squarings.
-/
namespace VectiLicense.L3.Ed25519.Limbs

open VectiLicense.Core Function

/-! ## The routines -/

/-- `FOR(i, 16) o[i] = f(i);`: what `o` held is overwritten, and where `o` is an
operand too, `f(i)` reads the place that is written next. -/
def each (f : Fin 16 → Option Int64) : Option Words :=
  (List.finRange 16).foldlM (fun o i => do
    let v ← f i
    return update o i v) fun _ => 0

/-- mirrors core/vl_ed25519.c:194-198 -/
def A (a b : Words) : Option Words := each fun i => addI64? (a i) (b i)

/-- mirrors core/vl_ed25519.c:200-204 -/
def Z (a b : Words) : Option Words := each fun i => subI64? (a i) (b i)

/-- The body of the double loop.
mirrors core/vl_ed25519.c:211 -/
def mulTurn (a b : Words) (i : Fin 16) (t : Fin 31 → Int64) (j : Fin 16) :
    Option (Fin 31 → Int64) := do
  let k : Fin 31 := ⟨i.val + j.val, by omega⟩
  let p ← mulI64? (a i) (b j)
  let v ← addI64? (t k) p
  return update t k v

/-- mirrors core/vl_ed25519.c:212 -/
def foldTurn (t : Fin 31 → Int64) (k : Fin 15) : Option (Fin 31 → Int64) := do
  let i : Fin 31 := ⟨k.val, by omega⟩
  let p ← mulI64? 38 (t ⟨k.val + 16, by omega⟩)
  let v ← addI64? (t i) p
  return update t i v

/-- mirrors core/vl_ed25519.c:206-216 -/
def M (a b : Words) : Option Words := do
  let t ← (List.finRange 16).foldlM (fun t i => (List.finRange 16).foldlM (mulTurn a b i) t)
    fun _ => 0
  let t ← (List.finRange 15).foldlM foldTurn t
  let o ← car25519 fun i => t ⟨i.val, by omega⟩
  car25519 o

/-- mirrors core/vl_ed25519.c:218-221 -/
def S (a : Words) : Option Words := M a a

/-- `for (a = n - 1; a >= 0; a--)`, multiplying unless `skip a`. -/
def powLoop (skip : Nat → Bool) (i : Words) : (n : Nat) → Words → Option Words
  | 0, c => some c
  | a + 1, c => do
    let c ← S c
    let c ← if skip a then some c else M c i
    powLoop skip i a c

/-- mirrors core/vl_ed25519.c:223-233 -/
def inv25519 (i : Words) : Option Words := powLoop (fun a => a = 2 ∨ a = 4) i 254 i

/-- mirrors core/vl_ed25519.c:235-245 -/
def pow2523 (i : Words) : Option Words := powLoop (fun a => a = 1) i 251 i

/-- `m` is what the stack held, for `c` and for `d`.
mirrors core/vl_ed25519.c:170-178 -/
def neq25519 (m a b : Words) : Option Bool := do
  let c ← pack25519 m a
  let d ← pack25519 m b
  return vlCtEq (some c.toList) (some d.toList) 32 = 0

/-- mirrors core/vl_ed25519.c:180-185 -/
def par25519 (m a : Words) : Option UInt8 := do
  let d ← pack25519 m a
  return d.toList.getD 0 0 &&& 1

/-! ## Bounds -/

/-- The limbs stand for `a`, none with a magnitude above `B`. -/
structure Holds (B : Int) (o : Words) (a : Gf) : Prop where
  within : ∀ j, -B ≤ ints o j ∧ ints o j ≤ B
  value : ((value o : Int) : Gf) = a

section
variable {B B' : Int} {a b o : Words} {x y : Gf}

theorem Holds.mono (h : Holds B o x) (hB : B ≤ B') : Holds B' o x := by
  refine ⟨fun j => ?_, h.value⟩
  have hj := h.within j
  omega

theorem Holds.bounded (h : Holds B o x) (hB : B ≤ 2 ^ 62) : Bounded o := by
  intro j
  have hj := h.within j
  omega

theorem ints_of_ge (o : Words) {j : Nat} (hj : 16 ≤ j) : ints o j = 0 := i64s_of_ge o hj

/-! ## Sums -/

theorem each_spec {f : Fin 16 → Option Int64} {g : Nat → Int}
    (h : ∀ i, Returns (f i) fun v => v.toInt = g i.val) :
    Returns (each f) fun o => ∀ j < 16, ints o j = g j := by
  refine Returns.finRange (I := fun k o => ∀ j < k, ints o j = g j) (fun j hj => by omega) ?_
  intro i o ho
  refine (h i).bind fun v hv => .ret fun j hj => ?_
  rw [ints_update, hv]
  rcases Nat.lt_succ_iff_lt_or_eq.mp hj with hlt | rfl
  · rw [update_of_ne (by omega)]
    exact ho j hlt
  · rw [update_self]

theorem A_spec (ha : Holds B a x) (hb : Holds B' b y) (hfit : B + B' < 2 ^ 63) :
    Returns (A a b) fun o => Holds (B + B') o (x + y) := by
  have hplace : ∀ i : Fin 16, Returns (addI64? (a i) (b i)) fun v =>
      v.toInt = ints a i.val + ints b i.val := by
    intro i
    have hai := ha.within i.val
    have hbi := hb.within i.val
    exact addI64?_spec (ints_val a i).symm (ints_val b i).symm (by omega)
  refine (each_spec (g := fun j => ints a j + ints b j) hplace).mono fun o ho => ⟨fun j => ?_, ?_⟩
  · have haj := ha.within j
    have hbj := hb.within j
    by_cases hj : j < 16
    · rw [ho j hj]
      omega
    · rw [ints_of_ge o (by omega)]
      omega
  · rw [Limbs.value, radixSum_congr ho, radixSum_add, Int.cast_add, ← ha.value, ← hb.value]
    rfl

theorem Z_spec (ha : Holds B a x) (hb : Holds B' b y) (hfit : B + B' < 2 ^ 63) :
    Returns (Z a b) fun o => Holds (B + B') o (x - y) := by
  have hplace : ∀ i : Fin 16, Returns (subI64? (a i) (b i)) fun v =>
      v.toInt = ints a i.val - ints b i.val := by
    intro i
    have hai := ha.within i.val
    have hbi := hb.within i.val
    exact subI64?_spec (ints_val a i).symm (ints_val b i).symm (by omega)
  refine (each_spec (g := fun j => ints a j - ints b j) hplace).mono fun o ho => ⟨fun j => ?_, ?_⟩
  · have haj := ha.within j
    have hbj := hb.within j
    by_cases hj : j < 16
    · rw [ho j hj]
      omega
    · rw [ints_of_ge o (by omega)]
      omega
  · rw [Limbs.value, radixSum_congr ho, radixSum_sub, Int.cast_sub, ← ha.value, ← hb.value]
    rfl

/-! ## Products -/

theorem mulTurn_spec {i j : Fin 16} {t : Fin 31 → Int64}
    (ha : -2 ^ 20 ≤ ints a i.val ∧ ints a i.val ≤ 2 ^ 20)
    (hb : -2 ^ 20 ≤ ints b j.val ∧ ints b j.val ≤ 2 ^ 20)
    (ht : -2 ^ 60 ≤ i64s t (i.val + j.val) ∧ i64s t (i.val + j.val) ≤ 2 ^ 60) :
    (-2 ^ 40 ≤ ints a i.val * ints b j.val ∧ ints a i.val * ints b j.val ≤ 2 ^ 40) ∧
    Returns (mulTurn a b i t j) fun t' => i64s t' = update (i64s t) (i.val + j.val)
      (i64s t (i.val + j.val) + ints a i.val * ints b j.val) := by
  have hp : -2 ^ 40 ≤ ints a i.val * ints b j.val ∧ ints a i.val * ints b j.val ≤ 2 ^ 40 := by
    constructor
    · nlinarith
    · nlinarith
  refine ⟨hp, ?_⟩
  obtain ⟨k, hk⟩ : ∃ k : Fin 31, k = ⟨i.val + j.val, by omega⟩ := ⟨_, rfl⟩
  have hkv : k.val = i.val + j.val := by rw [hk]
  unfold mulTurn
  simp only [← hk]
  rw [← hkv] at ht ⊢
  refine (mulI64?_spec (ints_val a i).symm (ints_val b j).symm (by omega)).bind fun p hpv => ?_
  refine (addI64?_spec (i64s_val t k).symm hpv (by omega)).bind fun v hv => .ret ?_
  rw [i64s_update, hv]

/-- After `n` turns of the inner loop for `i`: no column exceeds what the products
so far can make, and the columns spell their sum. -/
structure Columns (a b : Words) (i n : Nat) (t : Fin 31 → Int64) : Prop where
  within : ∀ j, -(2 ^ 40 * (16 * i + n : Nat) : Int) ≤ i64s t j ∧
    i64s t j ≤ 2 ^ 40 * (16 * i + n : Nat)
  sum : radixSum 16 (i64s t) 31 = radixSum 16 (ints a) i * value b +
    2 ^ (16 * i) * ints a i * radixSum 16 (ints b) n

theorem mulTurn_columns (ha : Holds (2 ^ 20) a x) (hb : Holds (2 ^ 20) b y) {i j : Fin 16}
    {t : Fin 31 → Int64} (h : Columns a b i.val j.val t) :
    Returns (mulTurn a b i t j) (Columns a b i.val (j.val + 1)) := by
  obtain ⟨hp, hturn⟩ := mulTurn_spec (ha.within i.val) (hb.within j.val) (t := t)
    (by have hk := h.within (i.val + j.val); omega)
  refine hturn.mono fun t' ht' => ⟨fun k => ?_, ?_⟩
  · have hk := h.within k
    have hij := h.within (i.val + j.val)
    rw [ht']
    by_cases hkij : k = i.val + j.val
    · rw [hkij, update_self]
      omega
    · rw [update_of_ne hkij]
      omega
  · have hpow : (2 : Int) ^ (16 * (i.val + j.val)) = 2 ^ (16 * i.val) * 2 ^ (16 * j.val) := by
      rw [Nat.mul_add, pow_add]
    rw [ht', radixSum_update (by omega), h.sum, radixSum_succ 16 (ints b), hpow]
    ring

/-- **The double loop**: the columns of the product. -/
theorem mulTurns (ha : Holds (2 ^ 20) a x) (hb : Holds (2 ^ 20) b y) :
    Returns ((List.finRange 16).foldlM (fun t i => (List.finRange 16).foldlM (mulTurn a b i) t)
      fun _ => 0) fun t => (∀ j, -2 ^ 48 ≤ i64s t j ∧ i64s t j ≤ 2 ^ 48) ∧
        radixSum 16 (i64s t) 31 = value a * value b := by
  have hzero : ∀ j, i64s (fun _ : Fin 31 => 0) j = 0 := by
    intro j
    unfold i64s
    split <;> rfl
  have hstart : Columns a b 0 0 fun _ => 0 := by
    refine ⟨fun j => by rw [hzero]; simp, ?_⟩
    rw [radixSum_zeros (Nat.zero_le 31) fun j _ _ => hzero j]
    simp only [radixSum_zero, zero_mul, mul_zero, add_zero]
  refine (Returns.finRange (I := fun i => Columns a b i 0) hstart fun i t ht => ?_).mono
    fun t ht => ⟨fun j => ?_, ?_⟩
  · refine (Returns.finRange ht fun j t ht => mulTurn_columns ha hb ht).mono fun t ht => ⟨?_, ?_⟩
    · have h := ht.within
      rwa [show 16 * i.val + 16 = 16 * (i.val + 1) + 0 by omega] at h
    · rw [ht.sum, radixSum_succ 16 (ints a), radixSum_zero, value]
      ring
  · have hj := ht.within j
    omega
  · rw [ht.sum, radixSum_zero, mul_zero, add_zero]
    rfl

/-- What folding the upper columns leaves in the lower ones. -/
theorem foldTurns {t : Fin 31 → Int64} (h : ∀ j, -2 ^ 48 ≤ i64s t j ∧ i64s t j ≤ 2 ^ 48) :
    Returns ((List.finRange 15).foldlM foldTurn t) fun t' => ∀ j,
      i64s t' j = if j < 15 then i64s t j + 38 * i64s t (j + 16) else i64s t j := by
  refine Returns.finRange (I := fun n t' => ∀ j,
    i64s t' j = if j < n then i64s t j + 38 * i64s t (j + 16) else i64s t j) (fun j => rfl) ?_
  intro k t' ht'
  obtain ⟨i, hi⟩ : ∃ i : Fin 31, i = ⟨k.val, by omega⟩ := ⟨_, rfl⟩
  obtain ⟨u, hu⟩ : ∃ u : Fin 31, u = ⟨k.val + 16, by omega⟩ := ⟨_, rfl⟩
  have hiv : i.val = k.val := by rw [hi]
  have huv : u.val = k.val + 16 := by rw [hu]
  have hlow := h k.val
  have hhigh := h (k.val + 16)
  have hti : (t' i).toInt = i64s t k.val := by
    rw [← i64s_val, hiv, ht', if_neg (Nat.lt_irrefl _)]
  have htu : (t' u).toInt = i64s t (k.val + 16) := by
    rw [← i64s_val, huv, ht', if_neg (by omega)]
  unfold foldTurn
  simp only [← hi, ← hu]
  refine (mulI64?_spec (x := 38) rfl htu (by omega)).bind fun p hp => ?_
  refine (addI64?_spec hti hp (by omega)).bind fun v hv => .ret fun j => ?_
  rw [i64s_update, hv, hiv]
  by_cases hj : j = k.val
  · rw [hj, update_self, if_pos (Nat.lt_succ_self _)]
  · rw [update_of_ne hj, ht']
    by_cases hlt : j < k.val
    · rw [if_pos hlt, if_pos (by omega)]
    · rw [if_neg hlt, if_neg (by omega)]

theorem car25519_carried (h : Bounded o) : Returns (car25519 o) (Carried (ints o) 16) := by
  have hstart : Carried (ints o) 0 o := by
    refine ⟨ints o, 0, fun j hj => by omega, fun _ _ => rfl, by omega, by omega, by omega, ?_⟩
    rw [if_pos (by omega), add_zero, update_eq_self]
  exact Returns.finRange hstart fun i s hs => carTurn_carried h hs

/-- **Two passes** leave limbs below `2^17`: the second has at most one to pass on. -/
theorem carried_twice (h : Bounded o) :
    Returns (car25519 o >>= car25519) fun o' => Holds (2 ^ 17) o' (Limbs.value o : Int) := by
  refine (car25519_spec h).bind fun o₁ ⟨hb₁, r₁, k₁, hr₁, hr₁', hv₁, hw₁, hk₁, hk₁', _⟩ => ?_
  refine (car25519_carried hb₁).mono fun o₂ ⟨d, k₂, hd, _, hsum, _, _, ho₂⟩ => ?_
  rw [if_neg (by omega)] at ho₂
  have hfit : 0 ≤ radixSum 16 d 16 ∧ radixSum 16 d 16 < 2 ^ 256 := hd.sum_bounds
  have hv₂ : radixSum 16 d 16 + 2 ^ 256 * k₂ = value o₁ := hsum
  have hk₂ : -1 ≤ k₂ ∧ k₂ ≤ 1 := by omega
  have hw₂ : value o₂ = radixSum 16 d 16 + 38 * k₂ := by
    rw [value, ho₂, radixSum_update (by omega)]
    ring
  refine ⟨fun j => ?_, ?_⟩
  · by_cases hj : j < 16
    · have hdj := hd j hj
      have hd0 := hd 0 (by omega)
      rw [ho₂]
      by_cases h0 : j = 0
      · rw [h0, update_self]
        omega
      · rw [update_of_ne h0]
        omega
    · rw [ints_of_ge o₂ (by omega)]
      omega
  · have hdiff : value o = value o₂ + (2 ^ 255 - 19 : Nat) * (2 * (k₁ + k₂)) := by
      rw [hw₂]
      push_cast
      linarith
    rw [hdiff, Int.cast_add, Int.cast_mul, Int.cast_natCast, ZMod.natCast_self, zero_mul, add_zero]

theorem M_spec (ha : Holds (2 ^ 20) a x) (hb : Holds (2 ^ 20) b y) :
    Returns (M a b) fun o => Holds (2 ^ 17) o (x * y) := by
  unfold M
  refine (mulTurns ha hb).bind fun t ⟨hwithin, hsum⟩ => ?_
  refine (foldTurns hwithin).bind fun t' ht' => ?_
  obtain ⟨o, ho⟩ : ∃ o : Words, (fun i => t' ⟨i.val, by omega⟩) = o := ⟨_, rfl⟩
  have hints : ∀ j < 16, ints o j = i64s t j + 38 * i64s t (j + 16) := by
    intro j hj
    have hplace : ints o j = i64s t' j := by
      rw [i64s_mk t' (by omega), ← ho]
      exact ints_val _ ⟨j, hj⟩
    rw [hplace, ht']
    split
    · rfl
    · rw [i64s_of_ge t (show 31 ≤ j + 16 by omega), mul_zero, add_zero]
  have hbounded : Bounded o := by
    intro j
    by_cases hj : j < 16
    · have hlow := hwithin j
      have hhigh := hwithin (j + 16)
      rw [hints j hj]
      omega
    · rw [ints_of_ge o (by omega)]
      omega
  have hval : value o = radixSum 16 (i64s t) 16 + 38 * radixSum 16 (fun j => i64s t (16 + j)) 15 := by
    have hupper : radixSum 16 (fun j => i64s t (j + 16)) 16 =
        radixSum 16 (fun j => i64s t (16 + j)) 15 := by
      rw [radixSum_succ, i64s_of_ge t (by omega), mul_zero, add_zero]
      exact radixSum_congr fun j _ => by rw [Nat.add_comm]
    rw [value, radixSum_congr hints, radixSum_add 16 (i64s t), radixSum_mul, hupper]
  have hsplit := radixSum_split 16 (i64s t) 16 15
  rw [hsum] at hsplit
  have hdiff : value a * value b = value o +
      (2 ^ 255 - 19 : Nat) * (2 * radixSum 16 (fun j => i64s t (16 + j)) 15) := by
    rw [hval, hsplit]
    push_cast
    ring
  simp only [ho]
  refine (carried_twice hbounded).mono fun o' ho' => ⟨ho'.within, ?_⟩
  rw [ho'.value, ← ha.value, ← hb.value, ← Int.cast_mul, hdiff, Int.cast_add, Int.cast_mul,
    Int.cast_natCast, ZMod.natCast_self, zero_mul, add_zero]

theorem S_spec (ha : Holds (2 ^ 20) a x) : Returns (S a) fun o => Holds (2 ^ 17) o (x * x) :=
  M_spec ha ha

/-- **The product is exact**, for all operands whose limbs are below `2^20`: nothing
overflows on the way, and the limbs of the result are below `2^17`. -/
theorem field_product (a b : Words)
    (ha : ∀ i, -2 ^ 20 ≤ (a i).toInt ∧ (a i).toInt ≤ 2 ^ 20)
    (hb : ∀ i, -2 ^ 20 ≤ (b i).toInt ∧ (b i).toInt ≤ 2 ^ 20) :
    ∃ o, M a b = some o ∧ (∀ i, -2 ^ 17 ≤ (o i).toInt ∧ (o i).toInt ≤ 2 ^ 17) ∧
      value o % (2 ^ 255 - 19) = value a * value b % (2 ^ 255 - 19) := by
  have holds : ∀ o : Words, (∀ i, -2 ^ 20 ≤ (o i).toInt ∧ (o i).toInt ≤ 2 ^ 20) →
      Holds (2 ^ 20) o (value o : Int) := by
    intro o ho
    refine ⟨fun j => ?_, rfl⟩
    by_cases hj : j < 16
    · rw [show ints o j = (o ⟨j, hj⟩).toInt from ints_val o ⟨j, hj⟩]
      exact ho ⟨j, hj⟩
    · rw [ints_of_ge o (by omega)]
      omega
  obtain ⟨o, ho, hwithin, hvalue⟩ := M_spec (holds a ha) (holds b hb)
  refine ⟨o, ho, fun i => ?_, ?_⟩
  · rw [← ints_val]
    exact hwithin i.val
  · rw [← Int.cast_mul, ZMod.intCast_eq_intCast_iff] at hvalue
    exact hvalue

/-- The largest limbs, of either sign. -/
theorem field_product_extreme : ∃ o, M (fun _ => 2 ^ 20) (fun _ => -2 ^ 20) = some o ∧
    ∀ i, -2 ^ 17 ≤ (o i).toInt ∧ (o i).toInt ≤ 2 ^ 17 := by
  obtain ⟨o, ho, hwithin, -⟩ := field_product (fun _ => 2 ^ 20) (fun _ => -2 ^ 20)
    (by decide +kernel) (by decide +kernel)
  exact ⟨o, ho, hwithin⟩

/-! ## Powers -/

theorem powLoop_spec (skip : Nat → Bool) {c : Words} (n : Nat) {z : Gf}
    (ha : Holds (2 ^ 17) a x) (hc : Holds (2 ^ 17) c z) :
    Returns (powLoop skip a n c) fun o => Holds (2 ^ 17) o (Ed25519.powLoop skip x n z) := by
  induction n generalizing c z with
  | zero => exact .ret hc
  | succ n ih =>
    rw [powLoop, Ed25519.powLoop]
    refine (S_spec (hc.mono (by omega))).bind fun s hs => ?_
    split
    · exact ih hs
    · refine (M_spec (hs.mono (by omega)) (ha.mono (by omega))).bind fun m hm => ?_
      exact ih hm

theorem inv25519_spec (ha : Holds (2 ^ 17) a x) :
    Returns (inv25519 a) fun o => Holds (2 ^ 17) o (Ed25519.inv25519 x) :=
  powLoop_spec _ 254 ha ha

theorem pow2523_spec (ha : Holds (2 ^ 17) a x) :
    Returns (pow2523 a) fun o => Holds (2 ^ 17) o (Ed25519.pow2523 x) :=
  powLoop_spec _ 251 ha ha

/-! ## Comparisons -/

theorem Holds.pack (h : Holds (2 ^ 62) a x) (m : Words) :
    pack25519 m a = some (Ed25519.pack25519 x) := by
  rw [(pack25519_spec (h.bounded (Int.le_refl _)) m).2, h.value]

theorem neq25519_eq (ha : Holds (2 ^ 62) a x) (hb : Holds (2 ^ 62) b y) (m : Words) :
    neq25519 m a b = some (Ed25519.neq25519 x y) := by
  rw [neq25519, ha.pack, hb.pack]
  rfl

theorem par25519_eq (ha : Holds (2 ^ 62) a x) (m : Words) :
    par25519 m a = some (Ed25519.par25519 x) := by
  rw [par25519, ha.pack]
  rfl

end

end VectiLicense.L3.Ed25519.Limbs
