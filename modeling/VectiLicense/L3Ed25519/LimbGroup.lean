import VectiLicense.L3Ed25519.LimbField

/-!
# The group routines on limbs

Coordinates have limbs below `2^17`, as `M` and `unpack25519` leave them; a sum
or difference of two of them, and one more of those, is still an operand of `M`.
So no routine up to the ladder and the unpacking of a key overflows, and each
computes on limbs what `Group` and `Verify` have in the field.

* `add_spec`, `pack_eq`, `scalarmult_spec`: the group.
* `recoverX_spec`, `unpackneg_spec`: the key.
-/
namespace VectiLicense.L3.Ed25519.Limbs

open VectiLicense.Core Function

/-! ## Constants -/

/-- mirrors core/vl_ed25519.c:92 -/
def gf0 : Words := fun _ => 0

/-- mirrors core/vl_ed25519.c:93 -/
def gf1 : Words := ![1, 0, 0, 0, 0, 0, 0, 0, 0, 0, 0, 0, 0, 0, 0, 0]

/-- mirrors core/vl_ed25519.c:94-95 -/
def D : Words := ![0x78a3, 0x1359, 0x4dca, 0x75eb, 0xd8ab, 0x4141, 0x0a4d, 0x0070,
  0xe898, 0x7779, 0x4079, 0x8cc7, 0xfe73, 0x2b6f, 0x6cee, 0x5203]

/-- mirrors core/vl_ed25519.c:96-97 -/
def D2 : Words := ![0xf159, 0x26b2, 0x9b94, 0xebd6, 0xb156, 0x8283, 0x149a, 0x00e0,
  0xd130, 0xeef3, 0x80f2, 0x198e, 0xfce7, 0x56df, 0xd9dc, 0x2406]

/-- mirrors core/vl_ed25519.c:98-99 -/
def X : Words := ![0xd51a, 0x8f25, 0x2d60, 0xc956, 0xa7b2, 0x9525, 0xc760, 0x692c,
  0xdc5c, 0xfdd6, 0xe231, 0xc0a4, 0x53fe, 0xcd6e, 0x36d3, 0x2169]

/-- mirrors core/vl_ed25519.c:100-101 -/
def Y : Words := ![0x6658, 0x6666, 0x6666, 0x6666, 0x6666, 0x6666, 0x6666, 0x6666,
  0x6666, 0x6666, 0x6666, 0x6666, 0x6666, 0x6666, 0x6666, 0x6666]

/-- mirrors core/vl_ed25519.c:102-103 -/
def I : Words := ![0xa0b0, 0x4a0e, 0x1b27, 0xc4ee, 0xe478, 0xad2f, 0x1806, 0x2f43,
  0xd7a7, 0x3dfb, 0x0099, 0x2b4d, 0xdf0b, 0x4fc1, 0x2480, 0x2b83]

/-! ## Points -/

/-- `q` may be `p`: the four results are stored last.
mirrors core/vl_ed25519.c:249-272 -/
def add (p q : Extended Words) : Option (Extended Words) := do
  let a ← Z p.y p.x
  let t ← Z q.y q.x
  let a ← M a t
  let b ← A p.x p.y
  let t ← A q.x q.y
  let b ← M b t
  let c ← M p.t q.t
  let c ← M c D2
  let d ← M p.z q.z
  let d ← A d d
  let e ← Z b a
  let f ← Z d c
  let g ← A d c
  let h ← A b a
  let x ← M e f
  let y ← M h g
  let z ← M g f
  let t ← M e h
  return { x, y, z, t }

/-- mirrors core/vl_ed25519.c:274-278 -/
def cswap (p q : Extended Words) (b : UInt8) : Option (Extended Words × Extended Words) := do
  let b := Int64.ofNat b.toNat
  let (px, qx) ← sel25519 p.x q.x b
  let (py, qy) ← sel25519 p.y q.y b
  let (pz, qz) ← sel25519 p.z q.z b
  let (pt, qt) ← sel25519 p.t q.t b
  return (⟨px, py, pz, pt⟩, ⟨qx, qy, qz, qt⟩)

/-- `m` is what the stack held wherever `pack25519` is called.
mirrors core/vl_ed25519.c:280-288 -/
def pack (m : Words) (p : Extended Words) : Option (Vector UInt8 32) := do
  let zi ← inv25519 p.z
  let tx ← M p.x zi
  let ty ← M p.y zi
  let r ← pack25519 m ty
  let parity ← par25519 m tx
  return setTop r (top r ^^^ (parity <<< 7))

/-- `for (i = n - 1; i >= 0; --i)`.
mirrors core/vl_ed25519.c:297-303 -/
def scalarmultLoop (s : List UInt8) : (n : Nat) → (p q : Extended Words) → Option (Extended Words)
  | 0, p, _ => some p
  | i + 1, p, q => do
    let b := (s.getD (i / 8) 0 >>> UInt8.ofNat (i % 8)) &&& 1
    let (p, q) ← cswap p q b
    let q ← add q p
    let p ← add p p
    let (p, q) ← cswap p q b
    scalarmultLoop s i p q

/-- mirrors core/vl_ed25519.c:290-304 -/
def scalarmult (q : Extended Words) (s : List UInt8) : Option (Extended Words) :=
  scalarmultLoop s 256 ⟨gf0, gf1, gf1, gf0⟩ q

/-- mirrors core/vl_ed25519.c:306-314 -/
def scalarbase (s : List UInt8) : Option (Extended Words) := do
  let t ← M X Y
  scalarmult ⟨X, Y, gf1, t⟩ s

/-- mirrors core/vl_ed25519.c:364-381 -/
def isLowOrder (m : Words) (p : Extended Words) : Option Bool := do
  let t ← add p p
  let t ← add t t
  let t ← add t t
  let e ← pack m t
  return vlCtEq (some e.toList) (some identity.toList) 32 ≠ 0

/-! ## Keys -/

/-- The inner `none` is `return -1`.
mirrors core/vl_ed25519.c:397-418 -/
def recoverX (m y : Words) : Option (Option Words) := do
  let num ← S y
  let den ← M num D
  let num ← Z num gf1
  let den ← A gf1 den
  let den2 ← S den
  let den4 ← S den2
  let den6 ← M den4 den2
  let t ← M den6 num
  let t ← M t den
  let t ← pow2523 t
  let t ← M t num
  let t ← M t den
  let t ← M t den
  let x ← M t den
  let chk ← S x
  let chk ← M chk den
  let other ← neq25519 m chk num
  let x ← (if other then M x I else some x)
  let chk ← S x
  let chk ← M chk den
  let other ← neq25519 m chk num
  return if other then none else some x

/-- mirrors core/vl_ed25519.c:422-427 -/
def finishKey (m : Words) (p : Vector UInt8 32) (x y : Words) :
    Option (Option (Extended Words)) := do
  let parity ← par25519 m x
  let x ← (if parity = top p >>> 7 then Z gf0 x else some x)
  let t ← M x y
  let r : Extended Words := { x, y, z := gf1, t }
  let low ← isLowOrder m r
  return if low then none else some r

/-- `y` is what the memory held in `r[1]`.
mirrors core/vl_ed25519.c:383-428 -/
def unpackneg (y m : Words) (p : Vector UInt8 32) : Option (Option (Extended Words)) := do
  let y ← unpack25519 y p
  let canon ← pack25519 m y
  let canon := setTop canon (top canon ||| (top p &&& 0x80))
  if vlCtEq (some canon.toList) (some p.toList) 32 ≠ 0 then
    match ← recoverX m y with
    | none => return none
    | some x => finishKey m p x y
  else return none

/-! ## The group -/

/-- The coordinates stand for those of `s`. -/
structure Stands (r : Extended Words) (s : Ge) : Prop where
  x : Holds (2 ^ 17) r.x s.x
  y : Holds (2 ^ 17) r.y s.y
  z : Holds (2 ^ 17) r.z s.z
  t : Holds (2 ^ 17) r.t s.t

/-- A table entry. -/
abbrev Entry (o : Words) (a : Gf) : Prop :=
  (∀ i, 0 ≤ o i ∧ o i < 65536) ∧ ((value o : Int) : Gf) = a

theorem Entry.holds {o : Words} {a : Gf} (h : Entry o a) : Holds (2 ^ 17) o a := by
  obtain ⟨hlimbs, hvalue⟩ := h
  refine ⟨fun j => ?_, hvalue⟩
  by_cases hj : j < 16
  · obtain ⟨hlow, hhigh⟩ := hlimbs ⟨j, hj⟩
    have hlow' := Int64.le_iff_toInt_le.mp hlow
    have hhigh' := Int64.lt_iff_toInt_lt.mp hhigh
    have h0 : (0 : Int64).toInt = 0 := rfl
    have h16 : (65536 : Int64).toInt = 65536 := rfl
    rw [show ints o j = (o ⟨j, hj⟩).toInt from ints_val o ⟨j, hj⟩]
    omega
  · rw [ints_of_ge o (by omega)]
    omega

theorem holds_zero : Holds 0 gf0 0 := by
  have hints : ∀ j, ints gf0 j = 0 := fun j => by
    unfold ints
    split
    · rfl
    · rfl
  refine ⟨fun j => by rw [hints]; omega, ?_⟩
  rw [Limbs.value, radixSum_zeros (Nat.zero_le 16) fun j _ _ => hints j]
  exact Int.cast_zero

theorem holds_gf0 : Holds (2 ^ 17) gf0 0 := holds_zero.mono (by omega)

theorem tables : Entry gf1 1 ∧ Entry D Ed25519.D ∧ Entry D2 Ed25519.D2 ∧ Entry X Ed25519.X ∧
    Entry Y Ed25519.Y ∧ Entry I Ed25519.I := by decide +kernel

theorem holds_gf1 : Holds (2 ^ 17) gf1 1 := tables.1.holds
theorem holds_D : Holds (2 ^ 17) D Ed25519.D := tables.2.1.holds
theorem holds_D2 : Holds (2 ^ 17) D2 Ed25519.D2 := tables.2.2.1.holds
theorem holds_X : Holds (2 ^ 17) X Ed25519.X := tables.2.2.2.1.holds
theorem holds_Y : Holds (2 ^ 17) Y Ed25519.Y := tables.2.2.2.2.1.holds
theorem holds_I : Holds (2 ^ 17) I Ed25519.I := tables.2.2.2.2.2.holds

section
variable {p q : Extended Words} {P Q : Ge}

/-- **The unified addition.** Two sums of coordinates, and three, are operands of `M`. -/
theorem add_spec (hp : Stands p P) (hq : Stands q Q) :
    Returns (add p q) fun r => Stands r (Ed25519.add P Q) := by
  have wide : ∀ {B : Int} {o : Words} {x : Gf}, Holds B o x → B ≤ 2 ^ 20 → Holds (2 ^ 20) o x :=
    fun h hB => h.mono hB
  refine (Z_spec hp.y hp.x (by omega)).bind fun a ha => ?_
  refine (Z_spec hq.y hq.x (by omega)).bind fun t ht => ?_
  refine (M_spec (wide ha (by omega)) (wide ht (by omega))).bind fun a ha => ?_
  refine (A_spec hp.x hp.y (by omega)).bind fun b hb => ?_
  refine (A_spec hq.x hq.y (by omega)).bind fun t ht => ?_
  refine (M_spec (wide hb (by omega)) (wide ht (by omega))).bind fun b hb => ?_
  refine (M_spec (wide hp.t (by omega)) (wide hq.t (by omega))).bind fun c hc => ?_
  refine (M_spec (wide hc (by omega)) (wide holds_D2 (by omega))).bind fun c hc => ?_
  refine (M_spec (wide hp.z (by omega)) (wide hq.z (by omega))).bind fun d hd => ?_
  refine (A_spec hd hd (by omega)).bind fun d hd => ?_
  refine (Z_spec hb ha (by omega)).bind fun e he => ?_
  refine (Z_spec hd hc (by omega)).bind fun f hf => ?_
  refine (A_spec hd hc (by omega)).bind fun g hg => ?_
  refine (A_spec hb ha (by omega)).bind fun h hh => ?_
  have he := wide he (by omega)
  have hf := wide hf (by omega)
  have hg := wide hg (by omega)
  have hh := wide hh (by omega)
  refine (M_spec he hf).bind fun x hx => ?_
  refine (M_spec hh hg).bind fun y hy => ?_
  refine (M_spec hg hf).bind fun z hz => ?_
  refine (M_spec he hh).bind fun t ht => ?_
  exact .ret ⟨hx, hy, hz, ht⟩

theorem bit_cases (c : UInt8) : c &&& 1 = 0 ∨ c &&& 1 = 1 := by
  have hbit : (c &&& 1).toNat = c.toNat % 2 := Nat.and_one_is_mod c.toNat
  rcases Nat.mod_two_eq_zero_or_one c.toNat with h0 | h1
  · exact .inl (UInt8.toNat_inj.mp (hbit.trans h0))
  · exact .inr (UInt8.toNat_inj.mp (hbit.trans h1))

/-- The masks of a bit swap or keep. -/
theorem cswap_eq (p q : Extended Words) {b : UInt8} (hb : b = 0 ∨ b = 1) :
    cswap p q b = some (if b = 1 then (q, p) else (p, q)) := by
  rcases hb with rfl | rfl
  · have h0 : Int64.ofNat (0 : UInt8).toNat = 0 := rfl
    simp only [cswap, h0, sel25519_zero]
    rfl
  · have h1 : Int64.ofNat (1 : UInt8).toNat = 1 := rfl
    simp only [cswap, h1, sel25519_one]
    rfl

theorem pack_eq (hp : Stands p P) (m : Words) : pack m p = some (Ed25519.pack P) := by
  obtain ⟨zi, hzi, hz⟩ := inv25519_spec hp.z
  obtain ⟨tx, htx, hx⟩ := M_spec (hp.x.mono (by omega)) (hz.mono (by omega))
  obtain ⟨ty, hty, hy⟩ := M_spec (hp.y.mono (by omega)) (hz.mono (by omega))
  simp only [pack, hzi, htx, hty, (hy.mono (show 2 ^ 17 ≤ (2 ^ 62 : Int) by omega)).pack,
    par25519_eq (hx.mono (show 2 ^ 17 ≤ (2 ^ 62 : Int) by omega)), Option.bind_eq_bind,
    Option.bind_some]
  rfl

/-- One turn keeps both multiples. -/
theorem scalarmultLoop_spec (s : List UInt8) (n : Nat) (hp : Stands p P) (hq : Stands q Q) :
    Returns (scalarmultLoop s n p q) fun r => Stands r (Ed25519.scalarmultLoop s n P Q) := by
  induction n generalizing p q P Q with
  | zero => exact .ret hp
  | succ i ih =>
    have hb := bit_cases (s.getD (i / 8) 0 >>> UInt8.ofNat (i % 8))
    rw [scalarmultLoop, Ed25519.scalarmultLoop]
    generalize (s.getD (i / 8) 0 >>> UInt8.ofNat (i % 8)) &&& 1 = b at hb ⊢
    simp only [cswap_eq _ _ hb, Option.bind_eq_bind, Option.bind_some, Ed25519.cswap]
    by_cases h1 : b = 1
    · simp only [if_pos h1]
      refine (add_spec hp hq).bind fun q' hq' => ?_
      refine (add_spec hq hq).bind fun p' hp' => ?_
      exact ih hq' hp'
    · simp only [if_neg h1]
      refine (add_spec hq hp).bind fun q' hq' => ?_
      refine (add_spec hp hp).bind fun p' hp' => ?_
      exact ih hp' hq'

theorem scalarmult_spec (hq : Stands q Q) (s : List UInt8) :
    Returns (scalarmult q s) fun r => Stands r (Ed25519.scalarmult Q s) :=
  scalarmultLoop_spec s 256 ⟨holds_gf0, holds_gf1, holds_gf1, holds_gf0⟩ hq

theorem scalarbase_spec (s : List UInt8) :
    Returns (scalarbase s) fun r => Stands r (Ed25519.scalarbase s) := by
  refine (M_spec (holds_X.mono (by omega)) (holds_Y.mono (by omega))).bind fun t ht => ?_
  exact scalarmult_spec ⟨holds_X, holds_Y, holds_gf1, ht⟩ s

theorem isLowOrder_eq (hp : Stands p P) (m : Words) :
    isLowOrder m p = some (Ed25519.isLowOrder P) := by
  obtain ⟨t₂, h₂, ht₂⟩ := add_spec hp hp
  obtain ⟨t₄, h₄, ht₄⟩ := add_spec ht₂ ht₂
  obtain ⟨t₈, h₈, ht₈⟩ := add_spec ht₄ ht₄
  simp only [isLowOrder, h₂, h₄, h₈, pack_eq ht₈, Option.bind_eq_bind, Option.bind_some]
  rfl

end

/-! ## Unpacking -/

/-- There is a result, of the same kind, that stands for `b`. -/
def Agree {α β : Type} (R : α → β → Prop) : Option α → Option β → Prop
  | none, none => True
  | some a, some b => R a b
  | _, _ => False

/-- Each limb is made of two bytes. -/
theorem unpack25519_digits (o : Words) (p : Vector UInt8 32) :
    Returns (unpack25519 o p) fun n => ∀ j < 16, 0 ≤ ints n j ∧ ints n j < 2 ^ 16 := by
  unfold unpack25519
  refine (Returns.finRange (I := fun k o => ∀ j < k, 0 ≤ ints o j ∧ ints o j < 2 ^ 16)
    (fun j hj => by omega) ?_).bind ?_
  · intro i o ho
    refine (unpackTurn_spec p o i).mono fun o' ho' j hj => ?_
    rw [ho']
    rcases Nat.lt_succ_iff_lt_or_eq.mp hj with hlt | rfl
    · rw [update_of_ne (by omega)]
      exact ho j hlt
    · rw [update_self]
      omega
  · intro o ho
    refine .ret fun j hj => ?_
    have hmask := toInt_mask (o 15) (m := 0x7fff) (k := 15) (by decide) (by decide)
    rw [ints_update]
    by_cases hj15 : j = 15
    · rw [hj15]
      change 0 ≤ update (ints o) 15 _ 15 ∧ update (ints o) 15 _ 15 < 2 ^ 16
      rw [update_self, hmask]
      omega
    · rw [update_of_ne (by exact hj15)]
      exact ho j hj

theorem unpack25519_holds (o : Words) (p : Vector UInt8 32) :
    Returns (unpack25519 o p) fun n => Holds (2 ^ 17) n (Ed25519.unpack25519 p) := by
  obtain ⟨n, hn, hdigits⟩ := unpack25519_digits o p
  refine ⟨n, hn, fun j => ?_, (unpacked hn).2⟩
  by_cases hj : j < 16
  · have hlimb := hdigits j hj
    omega
  · rw [ints_of_ge n (by omega)]
    omega

/-- **The root**, or that there is none. -/
theorem recoverX_spec {y : Words} {v : Gf} (hy : Holds (2 ^ 17) y v) (m : Words) :
    Returns (recoverX m y) fun x => Agree (Holds (2 ^ 17)) x (Ed25519.recoverX v) := by
  have wide : ∀ {B : Int} {o : Words} {x : Gf}, Holds B o x → B ≤ 2 ^ 20 → Holds (2 ^ 20) o x :=
    fun h hB => h.mono hB
  have hI := wide holds_I (by omega)
  unfold recoverX Ed25519.recoverX
  extract_lets y2 dy2 vnum vden vden2 vden4 vden6 vt vt' vx₀ vchk₀ vx vchk
  refine (S_spec (wide hy (by omega))).bind fun num hnum => ?_
  refine (M_spec (wide hnum (by omega)) (wide holds_D (by omega))).bind fun den hden => ?_
  refine (Z_spec hnum holds_gf1 (by omega)).bind fun num hnum => ?_
  refine (A_spec holds_gf1 hden (by omega)).bind fun den hden => ?_
  have hnum : Holds (2 ^ 20) num vnum := wide hnum (by omega)
  have hden : Holds (2 ^ 20) den vden := wide hden (by omega)
  have hnum' : Holds (2 ^ 62) num vnum := hnum.mono (by omega)
  refine (S_spec hden).bind fun den2 hden2 => ?_
  refine (S_spec (wide hden2 (by omega))).bind fun den4 hden4 => ?_
  refine (M_spec (wide hden4 (by omega)) (wide hden2 (by omega))).bind fun den6 hden6 => ?_
  refine (M_spec (wide hden6 (by omega)) hnum).bind fun t ht => ?_
  refine (M_spec (wide ht (by omega)) hden).bind fun t ht => ?_
  refine (pow2523_spec ht).bind fun t ht => ?_
  refine (M_spec (wide ht (by omega)) hnum).bind fun t ht => ?_
  refine (M_spec (wide ht (by omega)) hden).bind fun t ht => ?_
  refine (M_spec (wide ht (by omega)) hden).bind fun t ht => ?_
  refine (M_spec (wide ht (by omega)) hden).bind fun x₀ hx₀ => ?_
  refine (S_spec (wide hx₀ (by omega))).bind fun chk hchk => ?_
  refine (M_spec (wide hchk (by omega)) hden).bind fun chk hchk => ?_
  have hx₀ : Holds (2 ^ 17) x₀ vx₀ := hx₀
  have hchk : Holds (2 ^ 62) chk vchk₀ := hchk.mono (by omega)
  rw [neq25519_eq hchk hnum', Option.bind_eq_bind, Option.bind_some]
  have hroot : Returns (if Ed25519.neq25519 vchk₀ vnum = true then M x₀ I else some x₀)
      fun x => Holds (2 ^ 17) x vx := by
    by_cases hne : Ed25519.neq25519 vchk₀ vnum = true
    · rw [if_pos hne, show vx = vx₀ * Ed25519.I from if_pos hne]
      exact M_spec (wide hx₀ (by omega)) hI
    · rw [if_neg hne, show vx = vx₀ from if_neg hne]
      exact .ret hx₀
  refine hroot.bind fun x hx => ?_
  refine (S_spec (wide hx (by omega))).bind fun chk hchk => ?_
  refine (M_spec (wide hchk (by omega)) hden).bind fun chk hchk => ?_
  have hchk : Holds (2 ^ 62) chk vchk := hchk.mono (by omega)
  rw [neq25519_eq hchk hnum', Option.bind_some]
  refine .ret ?_
  split
  · trivial
  · exact hx

theorem finishKey_spec {x y : Words} {u v : Gf} (hx : Holds (2 ^ 17) x u)
    (hy : Holds (2 ^ 17) y v) (m : Words) (p : Vector UInt8 32) :
    Returns (finishKey m p x y) fun r => Agree Stands r (Ed25519.finishKey p u v) := by
  unfold finishKey Ed25519.finishKey
  rw [par25519_eq (hx.mono (by omega)), Option.bind_eq_bind, Option.bind_some]
  extract_lets vx vr
  have hsign : Returns (if Ed25519.par25519 u = top p >>> 7 then Z gf0 x else some x)
      fun x => Holds (2 ^ 17) x vx := by
    by_cases hpar : Ed25519.par25519 u = top p >>> 7
    · rw [if_pos hpar, show vx = 0 - u from if_pos hpar]
      exact Z_spec holds_zero hx (by omega)
    · rw [if_neg hpar, show vx = u from if_neg hpar]
      exact .ret hx
  refine hsign.bind fun x hx => ?_
  refine (M_spec (hx.mono (by omega)) (hy.mono (by omega))).bind fun t ht => ?_
  have hr : Stands ⟨x, y, gf1, t⟩ vr := ⟨hx, hy, holds_gf1, ht⟩
  dsimp only
  rw [isLowOrder_eq hr, Option.bind_eq_bind, Option.bind_some]
  refine .ret ?_
  split
  · trivial
  · exact hr

/-- **The key**, or that it is refused, whatever the memory held. -/
theorem unpackneg_spec (y m : Words) (p : Vector UInt8 32) :
    Returns (unpackneg y m p) fun r => Agree Stands r (Ed25519.unpackneg p) := by
  rw [unpackneg, Ed25519.unpackneg]
  refine (unpack25519_holds y p).bind fun n hn => ?_
  rw [(hn.mono (by omega)).pack, Option.bind_eq_bind, Option.bind_some]
  by_cases hcanon : Ed25519.canonicalKey p = true
  · rw [if_pos hcanon]
    dsimp only
    rw [if_pos (decide_eq_true_eq.mp hcanon)]
    refine (recoverX_spec hn m).bind fun x hx => ?_
    generalize Ed25519.recoverX (Ed25519.unpack25519 p) = v at hx
    cases x with
    | none =>
      cases v with
      | none => exact .ret trivial
      | some v => exact absurd hx id
    | some x =>
      cases v with
      | none => exact absurd hx id
      | some v => exact finishKey_spec hx hn m p
  · rw [if_neg hcanon]
    dsimp only
    rw [if_neg fun h => hcanon (decide_eq_true_eq.mpr h)]
    exact .ret trivial

end VectiLicense.L3.Ed25519.Limbs
