import VectiLicense.L3Ed25519.Packing
import VectiLicense.L3Ed25519.Reduce

/-!
# `modL` on `int64_t`

`Reduce` follows `modL` over the integers. The bounds that its invariants keep
are far inside 64 bits: a place is below `2^9`, a carry below `2^14`, so each
checked operation has a result, and it is the integer one.

* `windowTurn_spec`, `quotTurn_spec`, `backTurn_spec`, `storeTurn_spec`: one turn
  of each loop.
* `reduce_eq`: the hash is reduced as over the integers.
-/
namespace VectiLicense.L3.Ed25519.Limbs

open VectiLicense.Core Function

/-- mirrors core/vl_ed25519.c:107-112 -/
def L : Fin 32 → Int64 := ![
  0xed, 0xd3, 0xf5, 0x5c, 0x1a, 0x63, 0x12, 0x58, 0xd6, 0x9c, 0xf7, 0xa2, 0xde, 0xf9, 0xde, 0x14,
  0, 0, 0, 0, 0, 0, 0, 0, 0, 0, 0, 0, 0, 0, 0, 0x10]

/-- `i64 x[64]`. -/
abbrev Places := Fin 64 → Int64

/-! ## The loops -/

/-- The turn of the inner loop for `j = i - 32 + k`.
mirrors core/vl_ed25519.c:324-330 -/
def windowTurn (i : Fin 64) (s : Places × Int64) (k : Fin 20) : Option (Places × Int64) := do
  let (x, carry) := s
  let j : Fin 64 := ⟨i.val - 32 + k.val, by omega⟩
  let p ← mulI64? 16 (x i)
  let p ← mulI64? p (L ⟨k.val, by omega⟩)
  let d ← subI64? carry p
  let v ← addI64? (x j) d
  let x := update x j v
  let c ← addI64? (x j) 128
  let carry := c >>> 8
  let c ← mulI64? carry 256
  let v ← subI64? (x j) c
  return (update x j v, carry)

/-- mirrors core/vl_ed25519.c:321-334 -/
def modLTurn (x : Places) (i : Fin 64) : Option Places := do
  let (x, carry) ← (List.finRange 20).foldlM (windowTurn i) (x, 0)
  let j : Fin 64 := ⟨i.val - 12, by omega⟩
  let v ← addI64? (x j) carry
  let x := update x j v
  return update x i 0

/-- mirrors core/vl_ed25519.c:336-340 -/
def quotTurn (s : Places × Int64) (k : Fin 32) : Option (Places × Int64) := do
  let (x, carry) := s
  let j : Fin 64 := ⟨k.val, by omega⟩
  let p ← mulI64? (x 31 >>> 4) (L k)
  let d ← subI64? carry p
  let v ← addI64? (x j) d
  let x := update x j v
  let carry := x j >>> 8
  return (update x j (x j &&& 255), carry)

/-- mirrors core/vl_ed25519.c:341 -/
def backTurn (carry : Int64) (x : Places) (k : Fin 32) : Option Places := do
  let j : Fin 64 := ⟨k.val, by omega⟩
  let p ← mulI64? carry (L k)
  let v ← subI64? (x j) p
  return update x j v

/-- mirrors core/vl_ed25519.c:342-345 -/
def storeTurn (s : Places × List UInt8) (k : Fin 32) : Option (Places × List UInt8) := do
  let (x, r) := s
  let i : Fin 64 := ⟨k.val, by omega⟩
  let i1 : Fin 64 := ⟨k.val + 1, by omega⟩
  let v ← addI64? (x i1) (x i >>> 8)
  let x := update x i1 v
  return (x, r ++ [toU8 (x i &&& 255)])

/-- What is stored through `r`.
mirrors core/vl_ed25519.c:316-346 -/
def modL (x : Places) : Option (List UInt8) := do
  let x ← (List.finRange 32).foldlM (fun x k => modLTurn x ⟨63 - k.val, by omega⟩) x
  let (x, carry) ← (List.finRange 32).foldlM quotTurn (x, 0)
  let x ← (List.finRange 32).foldlM (backTurn carry) x
  let (_, r) ← (List.finRange 32).foldlM storeTurn (x, [])
  return r

/-- The 64 bytes of `r` afterwards.
mirrors core/vl_ed25519.c:348-356 -/
def reduce (r : Vector UInt8 64) : Option (List UInt8) := do
  let h ← modL fun i => Int64.ofNat (r.get i).toNat
  return h ++ List.replicate 32 0

/-! ## One turn -/

theorem toInt_L (k : Fin 32) : (L k).toInt = word Ed25519.L k.val := by
  revert k
  decide +kernel

theorem byte_L (j : Nat) : 0 ≤ word Ed25519.L j ∧ word Ed25519.L j ≤ 255 := by
  by_cases hj : j < 32
  · have hall : ∀ j < 32, 0 ≤ word Ed25519.L j ∧ word Ed25519.L j ≤ 255 := by decide +kernel
    exact hall j hj
  · have hzero : word Ed25519.L j = 0 := List.getD_eq_default _ _ (Nat.le_of_not_lt hj)
    omega

/-- The places are those of the list. -/
structure Sees (x : Places) (y : List Int) : Prop where
  length : y.length = 64
  word : ∀ j, word y j = i64s x j

theorem Sees.set {x : Places} {y : List Int} (h : Sees x y) (j : Fin 64) {v : Int64} {w : Int}
    (hv : v.toInt = w) : Sees (update x j v) (y.set j.val w) := by
  refine ⟨by rw [List.length_set, h.length], fun k => ?_⟩
  have hlt : j.val < y.length := by
    rw [h.length]
    exact j.isLt
  rw [word_set hlt, i64s_update, hv, funext h.word]

theorem Sees.get {x : Places} {y : List Int} (h : Sees x y) (j : Fin 64) :
    (x j).toInt = Ed25519.word y j.val := by
  rw [h.word, i64s_val]

/-- What fits into a place with room to spare. -/
def Small (v : Int) : Prop := -2 ^ 16 ≤ v ∧ v ≤ 2 ^ 16

theorem windowTurn_spec {x : Places} {y : List Int} {c : Int64} {d : Int} {i : Fin 64} {k : Fin 20}
    (h : Sees x y) (hc : c.toInt = d) (hd : Small d) (hi : Small (word y i.val))
    (hj : Small (word y (i.val - 32 + k.val))) :
    Returns (windowTurn i (x, c) k) fun s =>
      Sees s.1 (Ed25519.windowTurn i.val (y, d) (i.val - 32 + k.val)).1 ∧
        s.2.toInt = (Ed25519.windowTurn i.val (y, d) (i.val - 32 + k.val)).2 := by
  obtain ⟨j, hjj⟩ : ∃ j : Fin 64, j = ⟨i.val - 32 + k.val, by omega⟩ := ⟨_, rfl⟩
  have hjv : j.val = i.val - 32 + k.val := by rw [hjj]
  have hk : i.val - 32 + k.val - (i.val - 32) = k.val := by omega
  obtain ⟨hL0, hL255⟩ := byte_L k.val
  have hL := toInt_L ⟨k.val, by omega⟩
  dsimp only at hL
  have hgeti := h.get i
  have hgetj := h.get j
  rw [hjv] at hgetj
  unfold Small at hd hi hj
  unfold windowTurn Ed25519.windowTurn
  simp only [← hjj, update_self, hk]
  generalize word Ed25519.L k.val = l at *
  generalize word y (i.val - 32 + k.val) = u at *
  generalize word y i.val = m at *
  have hp : -2 ^ 28 ≤ 16 * m * l ∧ 16 * m * l ≤ 2 ^ 28 := by
    constructor
    · nlinarith
    · nlinarith
  refine (mulI64?_spec (x := 16) rfl hgeti (by omega)).bind fun p hp₁ => ?_
  refine (mulI64?_spec hp₁ hL (by omega)).bind fun p hp₂ => ?_
  refine (subI64?_spec hc hp₂ (by omega)).bind fun e he => ?_
  refine (addI64?_spec hgetj he (by omega)).bind fun v hv => ?_
  refine (addI64?_spec hv (y := 128) rfl (by omega)).bind fun a ha => ?_
  have hcarry : (a >>> 8).toInt = (u + (d - 16 * m * l) + 128) >>> (8 : Int) := by
    have hshr : (u + (d - 16 * m * l) + 128) >>> (8 : Int) =
      (u + (d - 16 * m * l) + 128) / 2 ^ 8 := shr_eq _ 8
    rw [toInt_sar a (k := 8) (by decide) (by decide), ha, hshr]
  have hsmall : -2 ^ 28 ≤ (a >>> 8).toInt ∧ (a >>> 8).toInt ≤ 2 ^ 28 := by
    rw [toInt_sar a (k := 8) (by decide) (by decide), ha]
    omega
  refine (mulI64?_spec rfl (y := 256) rfl (by omega)).bind fun b hb => ?_
  refine (subI64?_spec hv hb (by omega)).bind fun w hw => .ret ⟨?_, hcarry⟩
  rw [update_idem, ← hjv]
  exact h.set j (by rw [hw, hcarry])

/-! ## The first loop -/

theorem modLTurn_spec {x : Places} {y : List Int} (h : Sees x y) {i : Fin 64} (hi : 32 ≤ i.val)
    (hbal : Balanced (i.val + 1) y) :
    Returns (modLTurn x i) fun x' => Sees x' (Ed25519.modLTurn y i.val) := by
  have hm : -129 ≤ word y i.val ∧ word y i.val ≤ 256 := by
    have hlow := hbal.low i.val
    have hhigh := hbal.high i.val
    omega
  have hplace : ∀ j < i.val - 12, -128 ≤ word y j ∧ word y j ≤ 255 := by
    intro j hj
    have hlow := hbal.low j
    have hhigh := hbal.high j
    omega
  have hwindow : ∀ k ≤ 20, Windowed y i.val k (window y i.val k) := fun k hk =>
    window_windowed ⟨hi, i.isLt⟩ h.length hplace hm hk
  unfold modLTurn
  refine (Returns.finRange (I := fun k s => Sees s.1 (window y i.val k).1 ∧
    s.2.toInt = (window y i.val k).2) ⟨h, rfl⟩ ?_).bind ?_
  · rintro k ⟨x', c⟩ ⟨hx', hc⟩
    obtain ⟨hlength, hout, -, hcarry, -⟩ := hwindow k.val (by omega)
    have hmax : carryMax k.val ≤ 2 ^ 14 := by
      unfold carryMax
      omega
    rw [window_succ]
    generalize window y i.val k.val = s at *
    obtain ⟨z, d⟩ := s
    refine windowTurn_spec hx' hc ?_ ?_ ?_
    · unfold Small
      omega
    · rw [hout _ (.inr (by omega))]
      unfold Small
      omega
    · have hj := hplace (i.val - 32 + k.val) (by omega)
      rw [hout _ (.inr (Nat.le_refl _))]
      unfold Small
      omega
  · rintro ⟨x', c⟩ ⟨hx', hc⟩
    obtain ⟨hlength, hout, -, hcarry, -⟩ := hwindow 20 (Nat.le_refl 20)
    obtain ⟨j, hj⟩ : ∃ j : Fin 64, j = ⟨i.val - 12, by omega⟩ := ⟨_, rfl⟩
    have hjv : j.val = i.val - 12 := by rw [hj]
    have hcb : -1 ≤ (window y i.val 20).2 ∧ (window y i.val 20).2 ≤ 1 := hcarry
    have hget := hx'.get j
    rw [hjv] at hget
    have hlow := hbal.low (i.val - 12)
    have hhigh := hbal.high (i.val - 12)
    rw [hout _ (.inr (by omega))] at hget
    simp only [← hj]
    refine (addI64?_spec hget hc (by omega)).bind fun v hv => .ret ?_
    rw [modLTurn_eq, hout _ (.inr (by omega)), ← hjv]
    exact (hx'.set j (by rw [hv, hjv])).set i rfl

theorem modLTurns_spec {x : Places} {y : List Int} (h : Sees x y) (hbal : Balanced 64 y) :
    Returns ((List.finRange 32).foldlM (fun x k => modLTurn x ⟨63 - k.val, by omega⟩) x)
      fun x' => Sees x' ((List.range 32).foldl (fun y k => Ed25519.modLTurn y (63 - k)) y) := by
  refine Returns.finRange (I := fun n x' =>
    Sees x' ((List.range n).foldl (fun y k => Ed25519.modLTurn y (63 - k)) y)) h ?_
  intro k x' hx'
  obtain ⟨hbal', -⟩ := modLTurns hbal (n := k.val) (by omega)
  rw [List.range_succ, List.foldl_append, List.foldl_cons, List.foldl_nil]
  refine modLTurn_spec hx' (by dsimp only; omega) ?_
  rwa [show 64 - k.val = 63 - k.val + 1 by omega] at hbal'

/-! ## The last bits -/

theorem quotTurn_spec {x : Places} {y : List Int} {c : Int64} {d : Int} {k : Fin 32}
    (h : Sees x y) (hc : c.toInt = d) (hd : Small d) (htop : Small (word y 31))
    (hk : Small (word y k.val)) :
    Returns (quotTurn (x, c) k) fun s => Sees s.1 (Ed25519.quotTurn (y, d) k.val).1 ∧
      s.2.toInt = (Ed25519.quotTurn (y, d) k.val).2 := by
  obtain ⟨j, hj⟩ : ∃ j : Fin 64, j = ⟨k.val, by omega⟩ := ⟨_, rfl⟩
  have hjv : j.val = k.val := by rw [hj]
  have hgetj := h.get j
  rw [hjv] at hgetj
  have hget31 : (x 31).toInt = word y 31 := h.get 31
  have hL := toInt_L k
  have hLb := byte_L k.val
  unfold Small at hd htop hk
  unfold quotTurn Ed25519.quotTurn
  simp only [← hj, update_self]
  have hshr : word y 31 >>> (4 : Int) = word y 31 / 2 ^ 4 := shr_eq _ 4
  have hq : (x 31 >>> 4).toInt = word y 31 >>> (4 : Int) := by
    rw [toInt_sar (x 31) (k := 4) (by decide) (by decide), hget31, hshr]
  have hqb : -2 ^ 12 ≤ word y 31 >>> (4 : Int) ∧ word y 31 >>> (4 : Int) ≤ 2 ^ 12 := by
    rw [hshr]
    omega
  generalize word y 31 >>> (4 : Int) = q at *
  generalize word Ed25519.L k.val = l at *
  have hp : -2 ^ 20 ≤ q * l ∧ q * l ≤ 2 ^ 20 := by
    constructor
    · nlinarith
    · nlinarith
  refine (mulI64?_spec hq hL (by omega)).bind fun p hp' => ?_
  refine (subI64?_spec hc hp' (by omega)).bind fun e he => ?_
  refine (addI64?_spec hgetj he (by omega)).bind fun v hv => .ret ⟨?_, ?_⟩
  · rw [update_idem, ← hjv]
    refine h.set j ?_
    rw [toInt_mask v (k := 8) (by decide) (by decide), hv, hjv]
    rfl
  · have hshr' : (word y k.val + (d - q * l)) >>> (8 : Int) = (word y k.val + (d - q * l)) / 2 ^ 8 :=
      shr_eq _ 8
    rw [toInt_sar v (k := 8) (by decide) (by decide), hv, hshr']

theorem backTurn_spec {x : Places} {y : List Int} {c : Int64} {d : Int} {k : Fin 32}
    (h : Sees x y) (hc : c.toInt = d) (hd : Small d) (hk : Small (word y k.val)) :
    Returns (backTurn c x k) fun x' => Sees x' (Ed25519.backTurn d y k.val) := by
  obtain ⟨j, hj⟩ : ∃ j : Fin 64, j = ⟨k.val, by omega⟩ := ⟨_, rfl⟩
  have hjv : j.val = k.val := by rw [hj]
  have hgetj := h.get j
  rw [hjv] at hgetj
  have hL := toInt_L k
  have hLb := byte_L k.val
  unfold Small at hd hk
  unfold backTurn Ed25519.backTurn
  simp only [← hj]
  generalize word Ed25519.L k.val = l at *
  have hp : -2 ^ 24 ≤ d * l ∧ d * l ≤ 2 ^ 24 := by
    constructor
    · nlinarith
    · nlinarith
  refine (mulI64?_spec hc hL (by omega)).bind fun p hp' => ?_
  refine (subI64?_spec hgetj hp' (by omega)).bind fun v hv => .ret ?_
  rw [← hjv]
  exact h.set j (by rw [hv, hjv])

theorem storeTurn_spec {x : Places} {y : List Int} (r : List UInt8) {k : Fin 32} (h : Sees x y)
    (hk : -2 ^ 32 ≤ word y k.val ∧ word y k.val ≤ 2 ^ 32)
    (hk' : -2 ^ 32 ≤ word y (k.val + 1) ∧ word y (k.val + 1) ≤ 2 ^ 32) :
    Returns (storeTurn (x, r) k) fun s => Sees s.1 (Ed25519.storeTurn (y, r) k.val).1 ∧
      s.2 = (Ed25519.storeTurn (y, r) k.val).2 := by
  obtain ⟨i, hi⟩ : ∃ i : Fin 64, i = ⟨k.val, by omega⟩ := ⟨_, rfl⟩
  obtain ⟨i₁, hi₁⟩ : ∃ i : Fin 64, i = ⟨k.val + 1, by omega⟩ := ⟨_, rfl⟩
  have hiv : i.val = k.val := by rw [hi]
  have hiv₁ : i₁.val = k.val + 1 := by rw [hi₁]
  have hget := h.get i
  have hget₁ := h.get i₁
  rw [hiv] at hget
  rw [hiv₁] at hget₁
  have hshr : word y k.val >>> (8 : Int) = word y k.val / 2 ^ 8 := shr_eq _ 8
  have hc : (x i >>> 8).toInt = word y k.val >>> (8 : Int) := by
    rw [toInt_sar (x i) (k := 8) (by decide) (by decide), hget, hshr]
  unfold storeTurn Ed25519.storeTurn
  simp only [← hi, ← hi₁]
  refine (addI64?_spec hget₁ hc (by omega)).bind fun v hv => ?_
  have hset := h.set i₁ (hv.trans (by rw [← hiv₁]))
  rw [hiv₁] at hset
  refine .ret ⟨hset, ?_⟩
  have hbyte := toInt_mask (update x i₁ v i) (m := 255) (k := 8) (by decide) (by decide)
  have hsame := hset.get i
  rw [hiv] at hsame
  have hnarrow := toU8_toNat (v := update x i₁ v i &&& 255) (by omega)
  dsimp only
  congr 2
  rw [← UInt8.toNat_inj, UInt8.toNat_ofNat']
  rw [← hsame]
  omega

/-! ## The whole -/

/-- What the quotient's multiple is taken from, and what is passed up, is small. -/
theorem quotient_small {y : List Int} (hbal : Balanced 32 y) {n : Nat}
    {s : List Int × Int} (h : Quotient y n s) : Small s.2 ∧ ∀ j, Small (word s.1 j) := by
  have hword : ∀ j, -129 ≤ word y j ∧ word y j ≤ 256 := by
    intro j
    have hlow := hbal.low j
    have hhigh := hbal.high j
    omega
  have hq : -9 ≤ word y 31 / 2 ^ 4 ∧ word y 31 / 2 ^ 4 ≤ 16 := by
    have h31 := hword 31
    omega
  have hdiff : ∀ j < n, -2 ^ 14 ≤ word y j - word y 31 / 2 ^ 4 * word Ed25519.L j ∧
      word y j - word y 31 / 2 ^ 4 * word Ed25519.L j ≤ 2 ^ 14 := by
    intro j hj
    have hL := byte_L j
    have hj := hword j
    generalize word Ed25519.L j = l at *
    generalize word y 31 / 2 ^ 4 = q at *
    constructor
    · nlinarith
    · nlinarith
  unfold Small
  refine ⟨?_, fun j => ?_⟩
  · have hcarry := carry_bounds (w := 8) (by decide) (by decide) hdiff
    rw [h.carry]
    omega
  · by_cases hj : j < n
    · rw [h.low j hj]
      omega
    · have hj' := hword j
      rw [h.high j (by omega)]
      omega

theorem quotTurns_spec {x : Places} {y : List Int} (h : Sees x y) (hbal : Balanced 32 y) :
    Returns ((List.finRange 32).foldlM quotTurn (x, 0)) fun s =>
      Sees s.1 ((List.range 32).foldl Ed25519.quotTurn (y, 0)).1 ∧
        s.2.toInt = ((List.range 32).foldl Ed25519.quotTurn (y, 0)).2 := by
  refine Returns.finRange (I := fun n (s : Places × Int64) =>
    Sees s.1 ((List.range n).foldl Ed25519.quotTurn (y, 0)).1 ∧
      s.2.toInt = ((List.range n).foldl Ed25519.quotTurn (y, 0)).2) ⟨h, rfl⟩ ?_
  rintro k ⟨x', c⟩ ⟨hx', hc⟩
  obtain ⟨hsmall, hplaces⟩ := quotient_small hbal (quotTurns hbal.length (n := k.val) (by omega))
  rw [List.range_succ, List.foldl_append, List.foldl_cons, List.foldl_nil]
  generalize (List.range k.val).foldl Ed25519.quotTurn (y, 0) = s at *
  obtain ⟨z, d⟩ := s
  exact quotTurn_spec hx' hc hsmall (hplaces 31) (hplaces k.val)

theorem backTurns_spec {x : Places} {y : List Int} {c : Int64} {d : Int} (h : Sees x y)
    (hc : c.toInt = d) (hd : Small d) (hsmall : ∀ j, Small (word y j)) :
    Returns ((List.finRange 32).foldlM (backTurn c) x) fun x' =>
      Sees x' ((List.range 32).foldl (Ed25519.backTurn d) y) := by
  refine Returns.finRange (I := fun n x' =>
    Sees x' ((List.range n).foldl (Ed25519.backTurn d) y)) h ?_
  intro k x' hx'
  obtain ⟨-, hplace⟩ := backTurns h.length d (n := k.val) (by omega)
  rw [List.range_succ, List.foldl_append, List.foldl_cons, List.foldl_nil]
  refine backTurn_spec hx' hc hd ?_
  rw [hplace, if_neg (Nat.lt_irrefl _)]
  exact hsmall k.val

theorem storeTurns_spec {x : Places} {y : List Int} (h : Sees x y)
    (hword : ∀ j ≤ 32, -2 ^ 30 ≤ word y j ∧ word y j ≤ 2 ^ 30) :
    Returns ((List.finRange 32).foldlM storeTurn (x, [])) fun s =>
      s.2 = ((List.range 32).foldl Ed25519.storeTurn (y, [])).2 := by
  refine (Returns.finRange (I := fun n s =>
    Sees s.1 ((List.range n).foldl Ed25519.storeTurn (y, [])).1 ∧
      s.2 = ((List.range n).foldl Ed25519.storeTurn (y, [])).2) ⟨h, rfl⟩ ?_).mono fun s hs => hs.2
  rintro k ⟨x', r⟩ ⟨hx', hr⟩
  obtain ⟨-, hhere, hhigh, -, -⟩ := storeTurns h.length (n := k.val) (by omega)
  have hcarry := carry_bounds (w := 8) (n := k.val) (C := 2 ^ 30) (by decide) (by decide)
    fun j hj => hword j (by omega)
  have hk := hword k.val (by omega)
  have hk' := hword (k.val + 1) (by omega)
  have hnext := hhigh (k.val + 1) (Nat.lt_succ_self _)
  rw [List.range_succ, List.foldl_append, List.foldl_cons, List.foldl_nil]
  generalize (List.range k.val).foldl Ed25519.storeTurn (y, []) = s at *
  obtain ⟨z, r'⟩ := s
  dsimp only at hx' hr hhere hnext
  rw [hr]
  refine storeTurn_spec r' hx' ?_ ?_
  · rw [hhere]
    omega
  · rw [hnext]
    omega

/-- **`modL` does not overflow**, from places that are bytes. -/
theorem modL_spec {x : Places} {y : List Int} (h : Sees x y) (hbal : Balanced 64 y) :
    modL x = some (Ed25519.modL y) := by
  suffices hret : Returns (modL x) fun r => r = Ed25519.modL y by
    obtain ⟨r, hr, hry⟩ := hret
    rw [hr, hry]
  obtain ⟨hbal', -⟩ := modLTurns hbal (Nat.le_refl 32)
  rw [modL_eq]
  refine (modLTurns_spec h hbal).bind fun x₁ hx₁ => ?_
  generalize (List.range 32).foldl (fun x k => Ed25519.modLTurn x (63 - k)) y = y₁ at hbal' hx₁ ⊢
  have hquot := quotTurns hbal'.length (Nat.le_refl 32)
  obtain ⟨hd, hsmall⟩ := quotient_small hbal' hquot
  refine (quotTurns_spec hx₁ hbal').bind ?_
  rintro ⟨x₂, c⟩ ⟨hx₂, hc⟩
  generalize (List.range 32).foldl Ed25519.quotTurn (y₁, 0) = s at *
  obtain ⟨y₂, d⟩ := s
  refine (backTurns_spec hx₂ hc hd hsmall).bind fun x₃ hx₃ => ?_
  obtain ⟨-, hback⟩ := backTurns hx₂.length d (Nat.le_refl 32)
  refine (storeTurns_spec hx₃ fun j hj => ?_).bind fun s hs => .ret hs
  have hj' := hsmall j
  obtain ⟨hL0, hL255⟩ := byte_L j
  rw [hback]
  unfold Small at hd hj'
  dsimp only at hd hj' ⊢
  generalize word Ed25519.L j = l at *
  split
  · constructor
    · nlinarith
    · nlinarith
  · omega

/-- **The hash is reduced as over the integers.** -/
theorem reduce_eq (r : Vector UInt8 64) : reduce r = some (Ed25519.reduce r) := by
  have hlen : r.toList.length = 64 := by simp
  obtain ⟨hbal, -⟩ := balanced_bytes hlen
  have hsees : Sees (fun i => Int64.ofNat (r.get i).toNat)
      (r.toList.map fun b => (b.toNat : Int)) := by
    refine ⟨hbal.length, fun j => ?_⟩
    by_cases hj : j < 64
    · have hb := (r.get ⟨j, hj⟩).toNat_lt
      rw [i64s_mk _ hj, Int64.toInt_ofNat_of_lt (by omega)]
      simp [word, List.getD_eq_getElem?_getD, hj, Vector.get]
    · rw [i64s_of_ge _ (by omega)]
      exact hbal.zero j (by omega)
  rw [reduce, modL_spec hsees hbal]
  rfl

end VectiLicense.L3.Ed25519.Limbs
