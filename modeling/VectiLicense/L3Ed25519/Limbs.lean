import VectiLicense.Core.Digits
import VectiLicense.Core.I64
import VectiLicense.L3Ed25519.Verify

/-!
# The limbs of `core/vl_ed25519.c`

`Field` takes a `gf` for the number it stands for; here it is what the code
has, sixteen `int64_t`, and every sum, difference and product is the checked
one, so that a result says there was no overflow. Limbs may have any sign
between two carries, and a magnitude up to `2^62`.

* `carTurn_spec`, `car25519_spec`: a pass of carries, the last one times 38.
* `carried`: three passes leave digits of 16 bits.
-/
namespace VectiLicense.L3.Ed25519.Limbs

open VectiLicense.Core Function

/-- mirrors core/vl_ed25519.c:87 -/
abbrev Words := Fin 16 → Int64

/-- The turn of `car25519` for one `i`.
mirrors core/vl_ed25519.c:127-130 -/
def carTurn (o : Words) (i : Fin 16) : Option Words := do
  let oi ← addI64? (o i) 65536
  let o := update o i oi
  let c := o i >>> 16
  let c1 ← subI64? c 1
  let j : Fin 16 := if i.val < 15 then i + 1 else 0
  let d ← mulI64? 37 c1
  let d ← mulI64? d (if i.val = 15 then 1 else 0)
  let d ← addI64? c1 d
  let oj ← addI64? (o j) d
  let o := update o j oj
  let s ← mulI64? c 65536
  let oi ← subI64? (o i) s
  return update o i oi

/-- mirrors core/vl_ed25519.c:122-132 -/
def car25519 (o : Words) : Option Words := (List.finRange 16).foldlM carTurn o

/-- mirrors core/vl_ed25519.c:134-143 -/
def sel25519 (p q : Words) (b : Int64) : Option (Words × Words) := do
  let b1 ← subI64? b 1
  let c := ~~~b1
  return (fun i => p i ^^^ (c &&& (p i ^^^ q i)), fun i => q i ^^^ (c &&& (p i ^^^ q i)))

/-- The turn for `i = k + 1` of the loop that borrows.
mirrors core/vl_ed25519.c:155-156 -/
def borrowTurn (t m : Words) (k : Fin 14) : Option Words := do
  let i : Fin 16 := ⟨k.val + 1, by omega⟩
  let i1 : Fin 16 := ⟨k.val, by omega⟩
  let d ← subI64? (t i) 0xffff
  let d ← subI64? d ((m i1 >>> 16) &&& 1)
  let m := update m i d
  return update m i1 (m i1 &&& 0xffff)

/-- The body of `FOR(j, 2)`; the state is `t` and `m`.
mirrors core/vl_ed25519.c:153-161 -/
def subTurn (s : Words × Words) : Option (Words × Words) := do
  let (t, m) := s
  let d ← subI64? (t 0) 0xffed
  let m := update m 0 d
  let m ← (List.finRange 14).foldlM (borrowTurn t) m
  let d ← subI64? (t 15) 0x7fff
  let d ← subI64? d ((m 14 >>> 16) &&& 1)
  let m := update m 15 d
  let b := (m 15 >>> 16) &&& 1
  let m := update m 14 (m 14 &&& 0xffff)
  let nb ← subI64? 1 b
  sel25519 t m nb

/-- `t` before it is stored; `m` is what the stack held.
mirrors core/vl_ed25519.c:147-162 -/
def packLimbs (m n : Words) : Option Words := do
  let t ← car25519 n
  let t ← car25519 t
  let t ← car25519 t
  let s ← subTurn (t, m)
  let s ← subTurn s
  return s.1

/-- `(u8)v`. -/
def toU8 (v : Int64) : UInt8 := v.toUInt64.toUInt8

/-- The bytes `2 * i` and `2 * i + 1`.
mirrors core/vl_ed25519.c:164-167 -/
def storeLimbs (t : Words) : Vector UInt8 32 := Vector.ofFn fun j =>
  let i : Fin 16 := ⟨j.val / 2, by omega⟩
  if j.val % 2 = 0 then toU8 (t i &&& 0xff) else toU8 (t i >>> 8)

/-- mirrors core/vl_ed25519.c:145-168 -/
def pack25519 (m n : Words) : Option (Vector UInt8 32) := do
  let t ← packLimbs m n
  return storeLimbs t

/-- The turn of `unpack25519` for one `i`.
mirrors core/vl_ed25519.c:190 -/
def unpackTurn (n : Vector UInt8 32) (o : Words) (i : Fin 16) : Option Words := do
  let hi ← shlI64? (Int64.ofNat (n.get ⟨2 * i.val + 1, by omega⟩).toNat) 8
  let v ← addI64? (Int64.ofNat (n.get ⟨2 * i.val, by omega⟩).toNat) hi
  return update o i v

/-- `o` is what the memory held.
mirrors core/vl_ed25519.c:187-192 -/
def unpack25519 (o : Words) (n : Vector UInt8 32) : Option Words := do
  let o ← (List.finRange 16).foldlM (unpackTurn n) o
  return update o 15 (o 15 &&& 0x7fff)

/-- The first test of `unpackneg`; `y` and `m` are what the memory held.
mirrors core/vl_ed25519.c:388-395 -/
def canonicalKey (y m : Words) (p : Vector UInt8 32) : Option Bool := do
  let y ← unpack25519 y p
  let canon ← pack25519 m y
  let canon := setTop canon (top canon ||| (top p &&& 0x80))
  return vlCtEq (some canon.toList) (some p.toList) 32 ≠ 0

/-! ## Carrying -/

/-- The limbs as integers. -/
def ints (o : Words) (j : Nat) : Int := if h : j < 16 then (o ⟨j, h⟩).toInt else 0

theorem ints_val (o : Words) (i : Fin 16) : ints o i.val = (o i).toInt := by
  rw [ints, dif_pos i.isLt]

theorem ints_update (o : Words) (i : Fin 16) (v : Int64) :
    ints (update o i v) = update (ints o) i.val v.toInt := by
  funext j
  unfold ints
  by_cases hj : j < 16
  · rw [dif_pos hj]
    by_cases hji : j = i.val
    · subst hji
      rw [update_self, update_self]
    · rw [update_of_ne hji, dif_pos hj, update_of_ne fun h => hji (congrArg Fin.val h)]
  · have hji : j ≠ i.val := fun h => hj (h ▸ i.isLt)
    rw [dif_neg hj, update_of_ne hji, dif_neg hj]

/-- What an intermediate limb may be. -/
def Wide (v : Int) : Prop := -2 ^ 62 - 2 ^ 48 ≤ v ∧ v ≤ 2 ^ 62 + 2 ^ 48

/-- One turn: the limb keeps its digit and passes on the rest. -/
theorem carTurn_spec {o : Words} {i j : Fin 16} (hj : j = if i.val < 15 then i + 1 else 0)
    (hwi : Wide (ints o i.val)) (hwj : Wide (ints o j.val)) :
    Returns (carTurn o i) fun o' =>
      ints o' = update (update (ints o) j.val
        (ints o j.val + (if i.val = 15 then 38 else 1) * (ints o i.val / 2 ^ 16)))
        i.val (ints o i.val % 2 ^ 16) := by
  have hnext : ∀ i : Fin 16, (if i.val < 15 then i + 1 else 0) ≠ i := by decide
  have hij : j ≠ i := hj ▸ hnext i
  rw [ints_val] at hwi hwj
  unfold Wide at hwi hwj
  rw [ints_val, ints_val]
  obtain ⟨x, hx⟩ : ∃ x, (o i).toInt = x := ⟨_, rfl⟩
  obtain ⟨y, hy⟩ : ∃ y, (o j).toInt = y := ⟨_, rfl⟩
  obtain ⟨k, hk⟩ : ∃ k, x / 2 ^ 16 = k := ⟨_, rfl⟩
  rw [hx] at hwi
  rw [hy] at hwj
  rw [hx, hy, hk]
  unfold carTurn
  simp only [← hj, update_self, update_of_ne hij]
  refine (addI64?_spec (y := 65536) hx rfl (by omega)).bind fun oi hoi => ?_
  have hc : (oi >>> 16).toInt = k + 1 := by
    rw [toInt_sar oi (k := 16) (by decide) (by decide), hoi]
    omega
  refine (subI64?_spec (y := 1) hc rfl (by omega)).bind fun c1 hc1 => ?_
  refine (mulI64?_spec (x := 37) rfl hc1 (by omega)).bind fun d hd => ?_
  have hlast : (if i.val = 15 then 1 else 0 : Int64).toInt = if i.val = 15 then 1 else 0 := by
    split <;> rfl
  obtain ⟨e, he⟩ : ∃ e : Int, (if i.val = 15 then 1 else 0) = e := ⟨_, rfl⟩
  have he01 : e = 0 ∨ e = 1 := by omega
  refine (mulI64?_spec hd (hlast.trans he) (by rcases he01 with rfl | rfl <;> omega)).bind
    fun d' hd' => ?_
  refine (addI64?_spec hc1 hd' (by rcases he01 with rfl | rfl <;> omega)).bind fun s hs => ?_
  refine (addI64?_spec hy hs (by rcases he01 with rfl | rfl <;> omega)).bind fun oj hoj => ?_
  refine (mulI64?_spec (y := 65536) hc rfl (by omega)).bind fun m hm => ?_
  rw [update_of_ne hij.symm, update_self]
  refine (subI64?_spec hoi hm (by omega)).bind fun oi' hoi' => .ret ?_
  have hdigit : oi'.toInt = x % 2 ^ 16 := by
    rw [hoi']
    omega
  have hnext : oj.toInt = y + (if i.val = 15 then 38 else 1) * k := by
    rw [hoj]
    split at he
    · rename_i hi
      rw [← he, if_pos hi]
      ring
    · rename_i hi
      rw [← he, if_neg hi]
      ring
  have hne : i.val ≠ j.val := fun h => hij (Fin.ext h.symm)
  rw [ints_update, ints_update, ints_update, hdigit, hnext, update_comm hne, update_idem]

/-! ## A pass -/

/-- After `n` turns: `d` has the digits so far and the limbs not yet looked at,
and `k` has been added to the next limb, or 38 times to the first one. -/
def Carried (f : Nat → Int) (n : Nat) (o : Words) : Prop :=
  ∃ d k, Digits 16 d n ∧ (∀ j, n ≤ j → d j = f j) ∧
    radixSum 16 d 16 + 2 ^ (16 * n) * k = radixSum 16 f 16 ∧ -2 ^ 47 ≤ k ∧ k ≤ 2 ^ 47 ∧
    ints o = if n < 16 then update d n (d n + k) else update d 0 (d 0 + 38 * k)

/-- No limb has a magnitude above `2 ^ 62`. -/
def Bounded (o : Words) : Prop := ∀ j, -2 ^ 62 ≤ ints o j ∧ ints o j ≤ 2 ^ 62

theorem carTurn_carried {f : Nat → Int} (hf : ∀ j, -2 ^ 62 ≤ f j ∧ f j ≤ 2 ^ 62) {o : Words}
    {i : Fin 16} (h : Carried f i.val o) : Returns (carTurn o i) (Carried f (i.val + 1)) := by
  obtain ⟨d, k, hd, hrest, hsum, hlow, hhigh, ho⟩ := h
  rw [if_pos i.isLt] at ho
  obtain ⟨s, hs⟩ : ∃ s, d i.val + k = s := ⟨_, rfl⟩
  obtain ⟨j, hj⟩ : ∃ j : Fin 16, j = if i.val < 15 then i + 1 else 0 := ⟨_, rfl⟩
  have hnext : ∀ i : Fin 16, (if i.val < 15 then i + 1 else 0 : Fin 16).val =
      if i.val = 15 then 0 else i.val + 1 := by decide
  have hjv : j.val = if i.val = 15 then 0 else i.val + 1 := hj ▸ hnext i
  have hji : j.val ≠ i.val := by
    rw [hjv]
    split <;> omega
  have hfi := hf i.val
  have hdi := hrest i.val (Nat.le_refl _)
  have hoi : ints o i.val = s := by rw [ho, update_self, hs]
  have hoj : ints o j.val = d j.val := by rw [ho, update_of_ne hji]
  -- the next limb is a digit already, or not yet looked at
  have hdj : Wide (d j.val) := by
    unfold Wide
    rw [hjv]
    split
    · have h0 := hd 0 (by omega)
      omega
    · have hfj := hf (i.val + 1)
      rw [hrest (i.val + 1) (by omega)]
      omega
  have hdiv := Int.emod_add_mul_ediv s (2 ^ 16)
  refine (carTurn_spec hj (by unfold Wide; omega) (hoj ▸ hdj)).mono fun o' ho' => ?_
  rw [ho, hs, update_self, update_of_ne hji, update_comm hji.symm, update_idem] at ho'
  refine ⟨update d i.val (s % 2 ^ 16), s / 2 ^ 16, ?_, ?_, ?_, by omega, by omega, ?_⟩
  · intro m hm
    rcases Nat.lt_succ_iff_lt_or_eq.mp hm with hlt | rfl
    · rw [update_of_ne (by omega)]
      exact hd m hlt
    · rw [update_self]
      omega
  · intro m hm
    rw [update_of_ne (by omega)]
    exact hrest m (by omega)
  · have hpow : (2 : Int) ^ (16 * (i.val + 1)) = 2 ^ (16 * i.val) * 2 ^ 16 := by
      rw [Nat.mul_succ, pow_add]
    rw [radixSum_update i.isLt, hpow]
    linear_combination hsum + 2 ^ (16 * i.val) * hdiv - 2 ^ (16 * i.val) * hs
  · rw [ho']
    by_cases hlast : i.val = 15
    · rw [if_pos hlast] at hjv ⊢
      rw [if_neg (by omega), hjv, update_comm (by omega), update_of_ne (by omega)]
    · rw [if_neg hlast] at hjv ⊢
      rw [if_pos (by omega), hjv, update_comm (by omega), update_of_ne (by omega), one_mul]

/-- The number that the limbs stand for. -/
def value (o : Words) : Int := radixSum 16 (ints o) 16

/-- **A pass of carries**: the number modulo `2^256`, and 38 times the rest. With
no rest the limbs are digits. -/
theorem car25519_spec {o : Words} (h : Bounded o) :
    Returns (car25519 o) fun o' => Bounded o' ∧ ∃ r k, 0 ≤ r ∧ r < 2 ^ 256 ∧
      r + 2 ^ 256 * k = value o ∧ value o' = r + 38 * k ∧ -2 ^ 47 ≤ k ∧ k ≤ 2 ^ 47 ∧
      (k = 0 → Digits 16 (ints o') 16) := by
  have hstart : Carried (ints o) 0 o := by
    refine ⟨ints o, 0, fun j hj => by omega, fun _ _ => rfl, by omega, by omega, by omega, ?_⟩
    rw [if_pos (by omega), add_zero, update_eq_self]
  refine (Returns.finRange hstart fun i s hs => carTurn_carried h hs).mono ?_
  rintro o' ⟨d, k, hd, -, hsum, hlow, hhigh, ho'⟩
  rw [if_neg (by omega)] at ho'
  refine ⟨fun j => ?_, radixSum 16 d 16, k, hd.sum_bounds.1, hd.sum_bounds.2, hsum, ?_, hlow, hhigh,
    fun hk => ?_⟩
  · by_cases hj : j < 16
    · have hdj := hd j hj
      rw [ho']
      by_cases h0 : j = 0
      · rw [h0, update_self]
        rw [h0] at hdj
        omega
      · rw [update_of_ne h0]
        omega
    · rw [ints, dif_neg hj]
      omega
  · rw [value, ho', radixSum_update (by omega)]
    ring
  · rw [ho', hk, mul_zero, add_zero, update_eq_self]
    exact hd

/-- **Three passes** leave digits, of a number that is equal modulo `2^255 - 19`:
the second has at most one to pass on, the third has nothing. -/
theorem carried {n : Words} (h : Bounded n) :
    Returns (car25519 n >>= car25519 >>= car25519) fun t =>
      Digits 16 (ints t) 16 ∧ value t % (2 ^ 255 - 19) = value n % (2 ^ 255 - 19) := by
  rw [bind_assoc]
  refine (car25519_spec h).bind fun t₁ ⟨hb₁, r₁, k₁, hr₁, hr₁', hv₁, hw₁, hk₁, hk₁', _⟩ => ?_
  refine (car25519_spec hb₁).bind fun t₂ ⟨hb₂, r₂, k₂, hr₂, hr₂', hv₂, hw₂, _, _, _⟩ => ?_
  have hk₂ : -1 ≤ k₂ ∧ k₂ ≤ 1 := by omega
  have hfit : 0 ≤ value t₂ ∧ value t₂ < 2 ^ 256 := by omega
  refine (car25519_spec hb₂).mono fun t₃ ⟨_, r₃, k₃, hr₃, hr₃', hv₃, hw₃, _, _, hd⟩ => ?_
  have hk₃ : k₃ = 0 := by omega
  refine ⟨hd hk₃, ?_⟩
  have hdiff : value n = value t₃ + (2 ^ 255 - 19) * (2 * (k₁ + k₂)) := by
    rw [hw₃, hk₃]
    linarith
  rw [hdiff, Int.add_mul_emod_self_left]

end VectiLicense.L3.Ed25519.Limbs
