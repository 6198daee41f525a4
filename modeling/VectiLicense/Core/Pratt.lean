import Mathlib.NumberTheory.LucasPrimality

/-!
# Certificates of primality

A number is prime if some residue has the order `p - 1`, and that is checked
with the prime factors of `p - 1` alone. A certificate is a chain: each number
comes with a residue and with the factors, which are primes found by trial
division or stand earlier in the chain.

* `powMod_eq`: powers by repeated squaring.
* `chain_prime`: every number of a chain that passes `chainOk` is prime.
-/
namespace VectiLicense.Core

/-- `a ^ e` modulo `n`, for an exponent of at most `fuel` bits. -/
def powMod (n : Nat) : (fuel a e : Nat) → Nat
  | 0, _, _ => 1 % n
  | fuel + 1, a, e =>
    let r := powMod n fuel (a * a % n) (e / 2)
    if e % 2 = 1 then a * r % n else r

theorem powMod_eq (n : Nat) : ∀ (fuel a e : Nat), e < 2 ^ fuel → powMod n fuel a e = a ^ e % n := by
  intro fuel
  induction fuel with
  | zero =>
    intro a e he
    rw [Nat.lt_one_iff.mp he]
    rfl
  | succ fuel ih =>
    intro a e he
    have hhalf : powMod n fuel (a * a % n) (e / 2) = a ^ (2 * (e / 2)) % n := by
      rw [ih _ _ (by omega), ← Nat.pow_mod, ← Nat.pow_two, ← Nat.pow_mul]
    rw [powMod, hhalf]
    split
    · rename_i hodd
      have hsucc : e = 2 * (e / 2) + 1 := by omega
      conv => rhs; rw [hsucc, Nat.pow_succ, Nat.mul_comm]
      rw [Nat.mul_mod, Nat.mod_mod, ← Nat.mul_mod]
    · rename_i heven
      have hdouble : e = 2 * (e / 2) := by omega
      conv => rhs; rw [hdouble]

/-! ## Small primes -/

/-- No divisor from `m` up to the root of `p`; gives up after `fuel` candidates. -/
def noDivisor (p : Nat) : (fuel m : Nat) → Bool
  | 0, _ => false
  | fuel + 1, m => if p < m * m then true else if p % m = 0 then false else noDivisor p fuel (m + 1)

theorem noDivisor_spec {p : Nat} : ∀ {fuel m : Nat}, noDivisor p fuel m = true →
    ∀ j, m ≤ j → j * j ≤ p → ¬ j ∣ p := by
  intro fuel
  induction fuel with
  | zero =>
    intro m h
    cases h
  | succ fuel ih =>
    intro m h j hmj hjp
    rw [noDivisor] at h
    split at h
    · rename_i hroot
      have hle := Nat.mul_le_mul hmj hmj
      omega
    split at h
    · cases h
    · rename_i hno
      rcases Nat.eq_or_lt_of_le hmj with rfl | hlt
      · exact fun hdvd => hno (Nat.mod_eq_zero_of_dvd hdvd)
      · exact ih h j hlt hjp

def isSmallPrime (p : Nat) : Bool := decide (2 ≤ p) && noDivisor p 1024 2

theorem prime_of_small {p : Nat} (h : isSmallPrime p = true) : p.Prime := by
  rw [isSmallPrime, Bool.and_eq_true, decide_eq_true_eq] at h
  exact Nat.prime_def_le_sqrt.mpr
    ⟨h.1, fun m h2 hroot => noDivisor_spec h.2 m h2 (Nat.le_sqrt.mp hroot)⟩

/-! ## Chains -/

/-- `a` has order `p - 1` modulo `p`, and `p - 1` is the product of `factors`. -/
structure PrattStep where
  p : Nat
  a : Nat
  factors : List Nat

/-- The check, when `known` are primes. -/
def PrattStep.ok (known : List Nat) (c : PrattStep) : Bool :=
  (c.factors.all fun q => known.contains q || isSmallPrime q) &&
  decide (c.p = c.factors.prod + 1) && decide (c.p < 2 ^ 256) &&
  decide (powMod c.p 256 c.a (c.p - 1) = 1) &&
  c.factors.all fun q => decide (powMod c.p 256 c.a ((c.p - 1) / q) ≠ 1)

def chainOk (known : List Nat) : List PrattStep → Bool
  | [] => true
  | c :: cs => c.ok known && chainOk (c.p :: known) cs

theorem PrattStep.prime {known : List Nat} {c : PrattStep} (hknown : ∀ p ∈ known, p.Prime)
    (h : c.ok known = true) : c.p.Prime := by
  simp only [PrattStep.ok, Bool.and_eq_true, List.all_eq_true, Bool.or_eq_true,
    List.contains_iff_mem, decide_eq_true_eq] at h
  obtain ⟨⟨⟨⟨hprimes, hprod⟩, hsize⟩, hone⟩, hroots⟩ := h
  have hfactor : ∀ q ∈ c.factors, q.Prime := fun q hq =>
    (hprimes q hq).elim (hknown q) prime_of_small
  have hpow : ∀ e ≤ c.p - 1, (powMod c.p 256 c.a e = 1 ↔ (c.a : ZMod c.p) ^ e = 1) := by
    intro e he
    have hp : 1 < c.p := by
      have hpos := Nat.pos_of_ne_zero (List.prod_ne_zero fun h0 => Nat.not_prime_zero (hfactor 0 h0))
      omega
    rw [powMod_eq _ _ _ _ (by omega), ← Nat.cast_pow, ← Nat.cast_one (R := ZMod c.p),
      ZMod.natCast_eq_natCast_iff, Nat.ModEq, Nat.mod_eq_of_lt hp]
  refine lucas_primality c.p c.a ((hpow _ (Nat.le_refl _)).mp hone) fun q hq hdvd hroot => ?_
  rw [hprod, Nat.add_sub_cancel] at hdvd
  obtain ⟨r, hr, hqr⟩ := (Prime.dvd_prod_iff hq.prime).mp hdvd
  rw [(Nat.prime_dvd_prime_iff_eq hq (hfactor r hr)).mp hqr] at hroot
  exact hroots r hr ((hpow _ (Nat.div_le_self _ _)).mpr hroot)

/-- **A chain that passes the check holds primes.** -/
theorem chain_prime {cs : List PrattStep} : ∀ {known : List Nat}, (∀ p ∈ known, p.Prime) →
    chainOk known cs = true → ∀ c ∈ cs, c.p.Prime := by
  induction cs with
  | nil =>
    intro known _ _ c hc
    cases hc
  | cons c cs ih =>
    intro known hknown h
    rw [chainOk, Bool.and_eq_true] at h
    have hp := c.prime hknown h.1
    refine List.forall_mem_cons.mpr ⟨hp, ih (List.forall_mem_cons.mpr ⟨hp, hknown⟩) h.2⟩

end VectiLicense.Core
