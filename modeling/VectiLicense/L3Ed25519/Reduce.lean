import VectiLicense.Core.Digits
import VectiLicense.L3Ed25519.Verify

/-!
# `reduce` of `core/vl_ed25519.c` computes the residue

The 64 places start as bytes. Each turn of `modL`'s first loop takes sixteen
times a multiple of the group order off at one place, which is then zero, and
balances the places below it; the four zero bytes of `L` keep the carry that
leaves the window within one. What is left is less than one group order away
from the multiple that the top place names.

* `modLTurn_balanced`, `modLTurns`: the first loop keeps the number modulo `ell`
  and the places small.
* `quotTurns`, `backTurns`, `storeTurns`: the other three loops, as quotient and
  remainder.
* `reduce_exact`: what is stored is the residue, for every hash.
-/
namespace VectiLicense.L3.Ed25519

open VectiLicense.Core Function

/-! ## Places -/

/-- `x[j]`. -/
def word (x : List Int) (j : Nat) : Int := x.getD j 0

theorem word_set {x : List Int} {j : Nat} (hj : j < x.length) (v : Int) :
    word (x.set j v) = update (word x) j v := by
  funext k
  unfold word
  by_cases hk : k = j
  · subst hk
    rw [update_self]
    simp [hj]
  · rw [update_of_ne hk]
    simp [List.getD_eq_getElem?_getD, List.getElem?_set_ne (Ne.symm hk)]

theorem word_L {j : Nat} (hj : j < 20) :
    0 ≤ word L j ∧ word L j ≤ 255 ∧ (16 ≤ j → word L j = 0) := by
  revert j
  decide +kernel

theorem shr_eq (v : Int) (k : Nat) : v >>> (k : Int) = v / 2 ^ k := by
  rw [Int.shiftRight_natCast_right, Int.shiftRight_eq_div_pow]
  norm_cast

theorem ell_eq : (ell : Int) = radixSum 8 (word L) 20 + 2 ^ 252 := by decide +kernel

/-! ## The window -/

/-- One turn of the inner loop. -/
def windowTurn (i : Nat) (s : List Int × Int) (j : Nat) : List Int × Int :=
  let v := word s.1 j + (s.2 - 16 * word s.1 i * word L (j - (i - 32)))
  let carry := (v + 128) >>> 8
  (s.1.set j (v - carry * 256), carry)

/-- Its first `k` turns. -/
def window (x : List Int) (i k : Nat) : List Int × Int :=
  (List.range' (i - 32) k).foldl (windowTurn i) (x, 0)

theorem window_succ (x : List Int) (i k : Nat) :
    window x i (k + 1) = windowTurn i (window x i k) (i - 32 + k) := by
  rw [window, List.range'_1_concat, List.foldl_append]
  rfl

theorem modLTurn_eq (x : List Int) (i : Nat) :
    modLTurn x i = ((window x i 20).1.set (i - 12)
      (word (window x i 20).1 (i - 12) + (window x i 20).2)).set i 0 := by
  unfold modLTurn
  generalize hs : List.foldl _ (x, (0 : Int)) _ = s
  have hwindow : window x i 20 = s := by
    rw [← hs]
    rfl
  rw [hwindow]
  rfl

/-- What a carry can be after `k` turns: `L` has four zero bytes before the last. -/
def carryMax (k : Nat) : Int := if k ≤ 16 then 2 ^ 14 else if k = 17 then 66 else 1

theorem carryMax_succ {k : Nat} {c w p : Int} (hc : -carryMax k ≤ c ∧ c ≤ carryMax k)
    (hw : -128 ≤ w ∧ w ≤ 255) (hp : -32895 ≤ p ∧ p ≤ 65280) (hzero : 16 ≤ k → p = 0) :
    -carryMax (k + 1) ≤ (w + (c - 16 * p) + 128) / 2 ^ 8 ∧
      (w + (c - 16 * p) + 128) / 2 ^ 8 ≤ carryMax (k + 1) := by
  unfold carryMax at hc ⊢
  by_cases h16 : 16 ≤ k
  · have hp0 := hzero h16
    split at hc
    all_goals split
    all_goals omega
  · rw [if_pos (by omega)] at hc ⊢
    omega

/-- After `k` turns. -/
structure Windowed (x : List Int) (i k : Nat) (s : List Int × Int) : Prop where
  length : s.1.length = 64
  outside : ∀ j, j < i - 32 ∨ i - 32 + k ≤ j → word s.1 j = word x j
  inside : ∀ j, i - 32 ≤ j → j < i - 32 + k → -128 ≤ word s.1 j ∧ word s.1 j ≤ 127
  carry : -carryMax k ≤ s.2 ∧ s.2 ≤ carryMax k
  sum : radixSum 8 (word s.1) 64 + 2 ^ (8 * (i - 32 + k)) * s.2 =
    radixSum 8 (word x) 64 - 16 * word x i * 2 ^ (8 * (i - 32)) * radixSum 8 (word L) k

theorem windowTurn_windowed {x : List Int} {i k : Nat} (hi : 32 ≤ i ∧ i < 64) (hk : k < 20)
    (hx : ∀ j < i - 12, -128 ≤ word x j ∧ word x j ≤ 255)
    (hm : -129 ≤ word x i ∧ word x i ≤ 256) {s : List Int × Int} (h : Windowed x i k s) :
    Windowed x i (k + 1) (windowTurn i s (i - 32 + k)) := by
  obtain ⟨hlength, hout, hin, hcarry, hsum⟩ := h
  obtain ⟨y, c⟩ := s
  dsimp only at hlength hout hin hcarry hsum
  obtain ⟨j, hj⟩ : ∃ j, i - 32 + k = j := ⟨_, rfl⟩
  have hyj : word y j = word x j := hout j (.inr (by omega))
  have hyi : word y i = word x i := hout i (.inr (by omega))
  have hxj := hx j (by omega)
  have hjL : j - (i - 32) = k := by omega
  obtain ⟨hL0, hL255, hLzero⟩ := word_L hk
  obtain ⟨p, hp⟩ : ∃ p, word x i * word L k = p := ⟨_, rfl⟩
  have hpb : -32895 ≤ p ∧ p ≤ 65280 := by
    rw [← hp]
    constructor
    · nlinarith
    · nlinarith
  have hpzero : 16 ≤ k → p = 0 := fun h16 => by rw [← hp, hLzero h16, mul_zero]
  obtain ⟨v, hv⟩ : ∃ v, word x j + (c - 16 * word x i * word L k) = v := ⟨_, rfl⟩
  have hvp : v = word x j + (c - 16 * p) := by
    rw [← hv, ← hp]
    ring
  have hturn : windowTurn i (y, c) j = (y.set j (v - (v + 128) / 2 ^ 8 * 256), (v + 128) / 2 ^ 8) := by
    have hshr : (v + 128) >>> (8 : Int) = (v + 128) / 2 ^ 8 := shr_eq _ 8
    simp only [windowTurn, hyj, hyi, hjL, hv, hshr]
  rw [hj, hturn]
  have hset := word_set (x := y) (j := j) (by omega)
  have hrange : -carryMax (k + 1) ≤ (v + 128) / 2 ^ 8 ∧ (v + 128) / 2 ^ 8 ≤ carryMax (k + 1) := by
    rw [hvp]
    exact carryMax_succ hcarry hxj hpb hpzero
  refine ⟨by simp [hlength], fun m hm => ?_, fun m hm hm' => ?_, hrange, ?_⟩
  · dsimp only
    rw [hset, update_of_ne (by omega)]
    exact hout m (by omega)
  · dsimp only
    rw [hset]
    by_cases hmj : m = j
    · rw [hmj, update_self]
      omega
    · rw [update_of_ne hmj]
      exact hin m hm (by omega)
  · have hpow : (2 : Int) ^ (8 * (i - 32 + (k + 1))) = 2 ^ (8 * j) * 2 ^ 8 := by
      rw [← pow_add]
      congr 1
      omega
    have hpow' : (2 : Int) ^ (8 * j) = 2 ^ (8 * (i - 32)) * 2 ^ (8 * k) := by
      rw [← pow_add]
      congr 1
      omega
    dsimp only
    rw [hset, radixSum_update (by omega), hyj, radixSum_succ 8 (word L) k, hpow]
    rw [hj] at hsum
    linear_combination hsum - 2 ^ (8 * j) * hv - 16 * word x i * word L k * hpow'

theorem window_windowed {x : List Int} {i : Nat} (hi : 32 ≤ i ∧ i < 64) (hlength : x.length = 64)
    (hx : ∀ j < i - 12, -128 ≤ word x j ∧ word x j ≤ 255)
    (hm : -129 ≤ word x i ∧ word x i ≤ 256) {k : Nat} (hk : k ≤ 20) :
    Windowed x i k (window x i k) := by
  induction k with
  | zero =>
    refine ⟨hlength, fun _ _ => rfl, fun j hj hj' => by omega, ?_, ?_⟩
    · change -carryMax 0 ≤ 0 ∧ 0 ≤ carryMax 0
      decide
    · change radixSum 8 (word x) 64 + 2 ^ (8 * (i - 32 + 0)) * 0 =
        radixSum 8 (word x) 64 - 16 * word x i * 2 ^ (8 * (i - 32)) * 0
      ring
  | succ k ih =>
    rw [window_succ]
    exact windowTurn_windowed hi hk hx hm (ih (Nat.le_of_succ_le hk))

/-! ## The first loop -/

/-- The first `n` places are left: those a carry was added to last are out of the
window by then, and of the lower half those the window has passed are balanced. -/
structure Balanced (n : Nat) (x : List Int) : Prop where
  length : x.length = 64
  zero : ∀ j, n ≤ j → word x j = 0
  low : ∀ j, -128 - (if n ≤ j + 12 then 1 else 0) ≤ word x j
  high : ∀ j, word x j ≤
    (if j < 32 ∧ n ≤ j + 32 then 127 else 255) + (if n ≤ j + 12 then 1 else 0)

/-- **One turn** takes off a multiple of the group order. -/
theorem modLTurn_balanced {x : List Int} {i : Nat} (hi : 32 ≤ i ∧ i < 64)
    (h : Balanced (i + 1) x) : Balanced i (modLTurn x i) ∧
      radixSum 8 (word (modLTurn x i)) 64 =
        radixSum 8 (word x) 64 - 16 * word x i * 2 ^ (8 * (i - 32)) * ell := by
  have hm : -129 ≤ word x i ∧ word x i ≤ 256 := by
    have hlow := h.low i
    have hhigh := h.high i
    omega
  have hx : ∀ j < i - 12, -128 ≤ word x j ∧ word x j ≤ 255 := by
    intro j hj
    have hlow := h.low j
    have hhigh := h.high j
    omega
  obtain ⟨hlength, hout, hin, hcarry, hsum⟩ := window_windowed hi h.length hx hm (Nat.le_refl 20)
  rw [modLTurn_eq]
  generalize window x i 20 = s at *
  obtain ⟨y, c⟩ := s
  dsimp only at *
  have hc : -1 ≤ c ∧ c ≤ 1 := hcarry
  have hyc : word y (i - 12) = word x (i - 12) := hout _ (.inr (by omega))
  have hyi : word y i = word x i := hout _ (.inr (by omega))
  rw [hyc]
  have hword : word ((y.set (i - 12) (word x (i - 12) + c)).set i 0) =
      update (update (word y) (i - 12) (word x (i - 12) + c)) i 0 := by
    rw [word_set (by simp; omega), word_set (by omega)]
  -- a place is `i`, or the next above the window, or in it, or out of reach
  have hplace : ∀ j, update (update (word y) (i - 12) (word x (i - 12) + c)) i 0 j =
      if j = i then 0 else if j = i - 12 then word x j + c else word y j := by
    intro j
    by_cases hji : j = i
    · rw [hji, update_self, if_pos rfl]
    rw [update_of_ne hji, if_neg hji]
    by_cases hjc : j = i - 12
    · rw [hjc, update_self, if_pos rfl]
    · rw [update_of_ne hjc, if_neg hjc]
  have hyx : ∀ j, (j < i - 32 ∨ i - 12 ≤ j) ∧ word y j = word x j ∨
      i - 32 ≤ j ∧ j < i - 12 ∧ -128 ≤ word y j ∧ word y j ≤ 127 := by
    intro j
    by_cases hj : j < i - 32 ∨ i - 32 + 20 ≤ j
    · exact .inl ⟨by omega, hout j hj⟩
    · exact .inr ⟨by omega, by omega, hin j (by omega) (by omega)⟩
  refine ⟨⟨by simp [hlength], fun j hj => ?_, fun j => ?_, fun j => ?_⟩, ?_⟩
  · rw [hword, hplace]
    split
    · rfl
    rw [if_neg (by omega), hout j (.inr (by omega))]
    exact h.zero j (by omega)
  · have hlow := h.low j
    have hyxj := hyx j
    rw [hword, hplace]
    omega
  · have hhigh := h.high j
    have hyxj := hyx j
    rw [hword, hplace]
    omega
  · have hcarry' : (2 : Int) ^ (8 * (i - 32 + 20)) = 2 ^ (8 * (i - 12)) := by
      congr 1
      omega
    have htop : (2 : Int) ^ (8 * i) = 2 ^ (8 * (i - 32)) * 2 ^ 256 := by
      rw [← pow_add]
      congr 1
      omega
    rw [hcarry'] at hsum
    rw [hword, radixSum_update (by omega), update_of_ne (by omega), radixSum_update (by omega), hyc,
      hyi, ell_eq, htop]
    linear_combination hsum

/-- The number modulo the group order stays. -/
theorem modLTurns {x : List Int} (h : Balanced 64 x) {n : Nat} (hn : n ≤ 32) :
    Balanced (64 - n) ((List.range n).foldl (fun x k => modLTurn x (63 - k)) x) ∧
      radixSum 8 (word ((List.range n).foldl (fun x k => modLTurn x (63 - k)) x)) 64 % ell =
        radixSum 8 (word x) 64 % ell := by
  induction n with
  | zero => exact ⟨h, rfl⟩
  | succ n ih =>
    obtain ⟨hbal, hmod⟩ := ih (Nat.le_of_succ_le hn)
    rw [List.range_succ, List.foldl_append, List.foldl_cons, List.foldl_nil]
    generalize (List.range n).foldl (fun x k => modLTurn x (63 - k)) x = y at hbal hmod ⊢
    rw [show 64 - n = 63 - n + 1 by omega] at hbal
    obtain ⟨hbal', hsum⟩ := modLTurn_balanced (by omega) hbal
    rw [show 64 - (n + 1) = 63 - n by omega]
    refine ⟨hbal', ?_⟩
    rw [hsum, ← hmod, sub_eq_add_neg, ← neg_mul, Int.add_mul_emod_self_right]

/-! ## The last bits -/

/-- One turn of the loop that takes off the quotient's multiple. -/
def quotTurn (s : List Int × Int) (j : Nat) : List Int × Int :=
  let v := word s.1 j + (s.2 - (word s.1 31 >>> 4) * word L j)
  (s.1.set j (v % 256), v >>> 8)

/-- One turn of the loop that puts it back. -/
def backTurn (carry : Int) (x : List Int) (j : Nat) : List Int :=
  x.set j (word x j - carry * word L j)

/-- One turn of the loop that stores. -/
def storeTurn (s : List Int × List UInt8) (i : Nat) : List Int × List UInt8 :=
  let x := s.1.set (i + 1) (word s.1 (i + 1) + (word s.1 i >>> 8))
  (x, s.2 ++ [UInt8.ofNat (word x i % 256).toNat])

theorem modL_eq (x : List Int) : modL x =
    let s := (List.range 32).foldl quotTurn
      ((List.range 32).foldl (fun x k => modLTurn x (63 - k)) x, 0)
    ((List.range 32).foldl storeTurn ((List.range 32).foldl (backTurn s.2) s.1, [])).2 := by
  unfold modL
  dsimp only
  generalize List.foldl (fun x k => modLTurn x (63 - k)) x _ = y
  generalize hquot : List.foldl quotTurn (y, 0) _ = s
  generalize hs : List.foldl _ (y, (0 : Int)) _ = t
  obtain rfl : t = s := by
    rw [← hs, ← hquot]
    rfl
  rfl

/-- After `n` turns the low places are digits of the difference. -/
structure Quotient (x : List Int) (n : Nat) (s : List Int × Int) : Prop where
  length : s.1.length = 64
  low : ∀ j < n, word s.1 j = ((word x j - word x 31 / 2 ^ 4 * word L j) +
    radixSum 8 (fun j => word x j - word x 31 / 2 ^ 4 * word L j) j / 2 ^ (8 * j)) % 2 ^ 8
  high : ∀ j, n ≤ j → word s.1 j = word x j
  carry : s.2 = radixSum 8 (fun j => word x j - word x 31 / 2 ^ 4 * word L j) n / 2 ^ (8 * n)

theorem quotTurns {x : List Int} (hlength : x.length = 64) {n : Nat} (hn : n ≤ 32) :
    Quotient x n ((List.range n).foldl quotTurn (x, 0)) := by
  induction n with
  | zero => exact ⟨hlength, fun j hj => by omega, fun _ _ => rfl, rfl⟩
  | succ n ih =>
    obtain ⟨hlen, hlow, hhigh, hcarry⟩ := ih (Nat.le_of_succ_le hn)
    rw [List.range_succ, List.foldl_append, List.foldl_cons, List.foldl_nil]
    generalize (List.range n).foldl quotTurn (x, 0) = s at *
    obtain ⟨y, c⟩ := s
    dsimp only at *
    obtain ⟨g, hg⟩ : ∃ g : Nat → Int, (fun j => word x j - word x 31 / 2 ^ 4 * word L j) = g :=
      ⟨_, rfl⟩
    have hgn : word x n - word x 31 / 2 ^ 4 * word L n = g n := by rw [← hg]
    have hv : word y n + (c - (word y 31 >>> (4 : Int)) * word L n) =
        g n + radixSum 8 g n / 2 ^ (8 * n) := by
      have hshr : word y 31 >>> (4 : Int) = word y 31 / 2 ^ 4 := shr_eq _ 4
      rw [hshr, hhigh n (Nat.le_refl n), hhigh 31 (by omega), hcarry, hg, ← hgn]
      ring
    have hshr : (g n + radixSum 8 g n / 2 ^ (8 * n)) >>> (8 : Int) =
        (g n + radixSum 8 g n / 2 ^ (8 * n)) / 2 ^ 8 := shr_eq _ 8
    unfold quotTurn
    dsimp only
    rw [hv, hshr]
    have hset := word_set (x := y) (j := n) (by omega)
    refine ⟨by simp [hlen], fun j hj => ?_, fun j hj => ?_, ?_⟩
    · dsimp only
      rw [hset]
      rcases Nat.lt_succ_iff_lt_or_eq.mp hj with hlt | rfl
      · rw [update_of_ne (by omega)]
        exact hlow j hlt
      · rw [update_self, hgn, hg]
        rfl
    · dsimp only
      rw [hset, update_of_ne (by omega)]
      exact hhigh j (by omega)
    · dsimp only
      rw [hg, radixSum_carry]

theorem backTurns {x : List Int} (hlength : x.length = 64) (c : Int) {n : Nat} (hn : n ≤ 32) :
    ((List.range n).foldl (backTurn c) x).length = 64 ∧ ∀ j,
      word ((List.range n).foldl (backTurn c) x) j =
        if j < n then word x j - c * word L j else word x j := by
  induction n with
  | zero => exact ⟨hlength, fun j => rfl⟩
  | succ n ih =>
    obtain ⟨hlen, hplace⟩ := ih (Nat.le_of_succ_le hn)
    rw [List.range_succ, List.foldl_append, List.foldl_cons, List.foldl_nil]
    generalize (List.range n).foldl (backTurn c) x = y at *
    refine ⟨by simp [backTurn, hlen], fun j => ?_⟩
    rw [backTurn, word_set (by omega)]
    by_cases hj : j = n
    · subst hj
      rw [update_self, if_pos (Nat.lt_succ_self j), hplace, if_neg (Nat.lt_irrefl j)]
    · rw [update_of_ne hj, hplace]
      by_cases hlt : j < n
      · rw [if_pos hlt, if_pos (by omega)]
      · rw [if_neg hlt, if_neg (by omega)]

/-- After `n` turns the bytes are the remainder so far. -/
structure Stored (x : List Int) (n : Nat) (s : List Int × List UInt8) : Prop where
  length : s.1.length = 64
  here : word s.1 n = word x n + radixSum 8 (word x) n / 2 ^ (8 * n)
  high : ∀ j, n < j → word s.1 j = word x j
  bytes : s.2.length = n
  sum : (leNat s.2 : Int) = radixSum 8 (word x) n % 2 ^ (8 * n)

theorem storeTurns {x : List Int} (hlength : x.length = 64) {n : Nat} (hn : n ≤ 32) :
    Stored x n ((List.range n).foldl storeTurn (x, [])) := by
  induction n with
  | zero =>
    refine ⟨hlength, ?_, fun _ _ => rfl, rfl, rfl⟩
    change word x 0 = word x 0 + 0 / 2 ^ (8 * 0)
    rw [Int.zero_ediv, add_zero]
  | succ n ih =>
    obtain ⟨hlen, hhere, hhigh, hbytes, hsum⟩ := ih (Nat.le_of_succ_le hn)
    rw [List.range_succ, List.foldl_append, List.foldl_cons, List.foldl_nil]
    generalize (List.range n).foldl storeTurn (x, []) = s at *
    obtain ⟨y, r⟩ := s
    dsimp only at *
    have hset := word_set (x := y) (j := n + 1) (by omega)
    have hshr : word y n >>> (8 : Int) = word y n / 2 ^ 8 := shr_eq _ 8
    unfold storeTurn
    dsimp only
    rw [hset, update_of_ne (Nat.ne_of_lt (Nat.lt_succ_self n))]
    refine ⟨by simp [hlen], ?_, fun j hj => ?_, by simp [hbytes], ?_⟩
    · dsimp only
      rw [hset, update_self, hshr, hhigh _ (Nat.lt_succ_self n), hhere, radixSum_carry]
    · dsimp only
      rw [hset, update_of_ne (by omega)]
      exact hhigh j (by omega)
    · dsimp only
      have hbyte : ((UInt8.ofNat (word y n % 256).toNat).toNat : Int) = word y n % 2 ^ 8 := by
        rw [UInt8.toNat_ofNat']
        omega
      rw [leNat_concat, hbytes, radixSum_low, ← hhere, ← hsum]
      push_cast
      rw [hbyte]
      rfl

/-! ## The whole -/

/-- The difference after the first loop is small, so the quotient is right up to one. -/
theorem quotient_bounds {x : List Int} (h : Balanced 32 x) :
    -(ell : Int) < radixSum 8 (word x) 32 - word x 31 / 2 ^ 4 * ell ∧
      radixSum 8 (word x) 32 - word x 31 / 2 ^ 4 * ell < ell := by
  have hwords : ∀ j < 31, -129 ≤ word x j ∧ word x j ≤ 128 := by
    intro j hj
    have hlow := h.low j
    have hhigh := h.high j
    omega
  have htop : -129 ≤ word x 31 ∧ word x 31 ≤ 128 := by
    have hlow := h.low 31
    have hhigh := h.high 31
    omega
  have hlow : radixSum 8 (fun _ => -129) 31 ≤ radixSum 8 (word x) 31 :=
    radixSum_mono fun j hj => (hwords j hj).1
  have hhigh : radixSum 8 (word x) 31 ≤ radixSum 8 (fun _ => 128) 31 :=
    radixSum_mono fun j hj => (hwords j hj).2
  have hlow' : -(51 * 2 ^ 248 : Int) ≤ 100 * radixSum 8 (fun _ => -129) 31 := by decide +kernel
  have hhigh' : (100 * radixSum 8 (fun _ => 128) 31 : Int) ≤ 51 * 2 ^ 248 := by decide +kernel
  rw [radixSum_succ 8 (word x) 31]
  unfold ell
  push_cast
  omega

/-- The last carry is zero or minus one, and then the order is added once. -/
theorem settled {V : Int} (hlow : -(ell : Int) < V) (hhigh : V < ell) :
    (V % 2 ^ 256 - V / 2 ^ 256 * ell) % 2 ^ 256 = V % ell ∧ 0 ≤ V % ell ∧ V % ell < 2 ^ 256 := by
  unfold ell at *
  push_cast at *
  by_cases hV : V < 0
  · have hc : V / 115792089237316195423570985008687907853269984665640564039457584007913129639936 =
        -1 := by omega
    rw [hc]
    omega
  · have hc : V / 115792089237316195423570985008687907853269984665640564039457584007913129639936 =
        0 := by omega
    rw [hc]
    omega

/-- **`modL` reduces exactly.** -/
theorem modL_exact {x : List Int} (h : Balanced 64 x) :
    modL x = leBytes 32 (radixSum 8 (word x) 64 % ell).toNat := by
  obtain ⟨hbal, hmod⟩ := modLTurns h (Nat.le_refl 32)
  rw [modL_eq]
  generalize (List.range 32).foldl (fun x k => modLTurn x (63 - k)) x = y at hbal hmod
  have hsum : radixSum 8 (word y) 64 = radixSum 8 (word y) 32 :=
    radixSum_zeros (by omega) fun j hj _ => hbal.zero j hj
  obtain ⟨hlow, hhigh⟩ := quotient_bounds hbal
  have hL : radixSum 8 (word L) 32 = ell := by decide +kernel
  have hdiff : radixSum 8 (fun j => word y j - word y 31 / 2 ^ 4 * word L j) 32 =
      radixSum 8 (word y) 32 - word y 31 / 2 ^ 4 * ell := by
    rw [radixSum_sub 8 (word y), radixSum_mul, hL]
  obtain ⟨hlen, hdigits, -, hcarry⟩ := quotTurns hbal.length (Nat.le_refl 32)
  generalize (List.range 32).foldl quotTurn (y, 0) = s at hlen hdigits hcarry
  obtain ⟨z, c⟩ := s
  dsimp only at *
  obtain ⟨hlen', hback⟩ := backTurns hlen c (Nat.le_refl 32)
  generalize (List.range 32).foldl (backTurn c) z = u at hlen' hback
  obtain ⟨-, -, -, hbytes, hstored⟩ := storeTurns hlen' (Nat.le_refl 32)
  generalize ((List.range 32).foldl storeTurn (u, [])).2 = r at hbytes hstored
  have hu : radixSum 8 (word u) 32 = radixSum 8 (word z) 32 - c * ell := by
    rw [← hL, ← radixSum_mul, ← radixSum_sub]
    refine radixSum_congr fun j hj => ?_
    rw [hback, if_pos hj]
  have hz := radixSum_carried 8 (fun j => word y j - word y 31 / 2 ^ 4 * word L j) 32
  rw [← radixSum_congr hdigits, hdiff] at hz
  rw [hdiff] at hcarry
  rw [hu, hz] at hstored
  have hres : radixSum 8 (word x) 64 % ell =
      (radixSum 8 (word y) 32 - word y 31 / 2 ^ 4 * ell) % ell := by
    rw [← hmod, hsum, sub_eq_add_neg, ← neg_mul, Int.add_mul_emod_self_right]
  refine leNat_inj (by rw [hbytes, length_leBytes]) ?_
  rw [hres, leNat_leBytes]
  generalize radixSum 8 (word y) 32 - word y 31 / 2 ^ 4 * ell = V at *
  obtain ⟨hsettled, hnonneg, hfit⟩ := settled hlow hhigh
  have hcast : (leNat r : Int) = V % ell := by
    rw [hstored, hcarry]
    exact hsettled
  omega

theorem word_bytes (bs : List UInt8) (j : Nat) :
    word (bs.map fun b => (b.toNat : Int)) j = ((leNat bs / 2 ^ (8 * j) % 2 ^ 8 : Nat) : Int) := by
  rw [← getD_leNat, word]
  simp only [List.getD_eq_getElem?_getD, List.getElem?_map]
  cases bs[j]? <;> rfl

theorem balanced_bytes {bs : List UInt8} (h : bs.length = 64) :
    Balanced 64 (bs.map fun b => (b.toNat : Int)) ∧
      radixSum 8 (word (bs.map fun b => (b.toNat : Int))) 64 = leNat bs := by
  have hlt := leNat_lt bs
  have hword := word_bytes bs
  have hbyte : ∀ j, 0 ≤ word (bs.map fun b => (b.toNat : Int)) j ∧
      word (bs.map fun b => (b.toNat : Int)) j ≤ 255 := by
    intro j
    have hmod := Nat.mod_lt (leNat bs / 2 ^ (8 * j)) (show 2 ^ 8 > 0 by decide)
    rw [hword]
    omega
  refine ⟨⟨by rw [List.length_map, h], fun j hj => ?_, fun j => ?_, fun j => ?_⟩, ?_⟩
  · have hpow : leNat bs < 2 ^ (8 * j) :=
      hlt.trans_le (Nat.pow_le_pow_right (by decide) (Nat.mul_le_mul_left 8 (h.trans_le hj)))
    rw [hword, Nat.div_eq_of_lt hpow]
    rfl
  · have hj := hbyte j
    omega
  · have hj := hbyte j
    omega
  · have hdigits : ∀ j < 64, word (bs.map fun b => (b.toNat : Int)) j =
        (leNat bs : Int) / 2 ^ (8 * j) % 2 ^ 8 := by
      intro j _
      rw [hword]
      simp only [Int.natCast_emod, Int.natCast_ediv, Nat.cast_pow, Nat.cast_ofNat]
    rw [h] at hlt
    rw [radixSum_congr hdigits, radixSum_digits, Int.emod_eq_of_lt (Int.natCast_nonneg _)]
    exact_mod_cast hlt

/-- **The hash is reduced exactly.** -/
theorem reduce_exact (r : Vector UInt8 64) :
    reduce r = leBytes 32 (leVal r % ell) ++ List.replicate 32 0 := by
  have hlen : r.toList.length = 64 := by simp
  obtain ⟨hbal, hsum⟩ := balanced_bytes hlen
  rw [reduce, modL_exact hbal, hsum, leVal]
  norm_cast

end VectiLicense.L3.Ed25519
