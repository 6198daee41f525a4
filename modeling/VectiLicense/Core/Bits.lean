import Mathlib.Algebra.Group.Nat.Defs
import Mathlib.Data.List.Induction

/-!
# Bit strings, most significant first, and regrouping them

A base-2^w codec reads the digits of one radix as a bit string and cuts the
same string into digits of another. `bitsBE w n` is the `w` low bits of `n`,
most significant first; `symBits w xs` is the string that the `w`-bit digits
`xs` spell.

A streaming codec keeps the string in a shift register: digits are shifted in
at the bottom, complete output digits are taken from the top, and only the
`cnt` low bits of the register mean anything (whatever was taken out, or fell
off the top, is stale). `Regrouped q out acc cnt B` says that the bits `B`
read so far are the output digits `out` followed by the live bits of the
register; `Regrouped.push` and `Regrouped.emit` are the two moves. Both the
register `acc` and its rules are about `Nat`, modulo the live width, so any
machine word wide enough for the live bits can stand in for it
(`shiftIn_mod`, `shiftOut_toNat`).
-/
namespace VectiLicense.Core

/-- The `w` low bits of `n`, most significant first. -/
def bitsBE : Nat → Nat → List Bool
  | 0, _ => []
  | w + 1, n => n.testBit w :: bitsBE w n

/-- The bit string spelt by `w`-bit digits. -/
def symBits (w : Nat) (xs : List Nat) : List Bool := xs.flatMap (bitsBE w)

@[simp] theorem length_bitsBE (w n : Nat) : (bitsBE w n).length = w := by
  induction w with
  | zero => rfl
  | succ w ih => simp [bitsBE, ih]

@[simp] theorem symBits_nil (w : Nat) : symBits w [] = [] := rfl
@[simp] theorem symBits_cons (w x : Nat) (xs : List Nat) :
    symBits w (x :: xs) = bitsBE w x ++ symBits w xs := rfl
@[simp] theorem symBits_append (w : Nat) (xs ys : List Nat) :
    symBits w (xs ++ ys) = symBits w xs ++ symBits w ys := by
  simp [symBits]

@[simp] theorem length_symBits (w : Nat) (xs : List Nat) :
    (symBits w xs).length = w * xs.length := by
  induction xs with
  | nil => rfl
  | cons x xs ih => simp [ih, Nat.mul_succ, Nat.add_comm]

theorem bitsBE_mod {v w : Nat} (h : v ≤ w) (n : Nat) : bitsBE v (n % 2 ^ w) = bitsBE v n := by
  induction v with
  | zero => rfl
  | succ v ih =>
    simp only [bitsBE, Nat.testBit_mod_two_pow, ih (by omega), show v < w by omega, decide_true,
      Bool.true_and]

theorem bitsBE_congr {w n m : Nat} (h : n % 2 ^ w = m % 2 ^ w) : bitsBE w n = bitsBE w m := by
  rw [← bitsBE_mod (Nat.le_refl w) n, h, bitsBE_mod (Nat.le_refl w) m]

theorem bitsBE_add (v w n : Nat) : bitsBE (v + w) n = bitsBE v (n / 2 ^ w) ++ bitsBE w n := by
  induction v with
  | zero => simp [bitsBE]
  | succ v ih =>
    rw [show v + 1 + w = (v + w) + 1 by omega]
    simp only [bitsBE, List.cons_append, ih, Nat.testBit_div_two_pow]

theorem bitsBE_zero (w : Nat) : bitsBE w 0 = List.replicate w false := by
  induction w with
  | zero => rfl
  | succ w ih => simp [bitsBE, ih, List.replicate_succ]

theorem mod_eq_of_bitsBE {w n m : Nat} (h : bitsBE w n = bitsBE w m) : n % 2 ^ w = m % 2 ^ w := by
  induction w with
  | zero => simp [Nat.mod_one]
  | succ w ih =>
    simp only [bitsBE, List.cons.injEq, Nat.testBit_eq_decide_div_mod_eq, decide_eq_decide] at h
    obtain ⟨htop, hlow⟩ := h
    have htop' : n / 2 ^ w % 2 = m / 2 ^ w % 2 := by omega
    rw [Nat.mod_pow_succ, Nat.mod_pow_succ, ih hlow, htop']

theorem bitsBE_inj {w n m : Nat} (hn : n < 2 ^ w) (hm : m < 2 ^ w) (h : bitsBE w n = bitsBE w m) :
    n = m := by
  have := mod_eq_of_bitsBE h
  rwa [Nat.mod_eq_of_lt hn, Nat.mod_eq_of_lt hm] at this

theorem bitsBE_eq_zero_iff {w n : Nat} :
    bitsBE w n = List.replicate w false ↔ n % 2 ^ w = 0 := by
  rw [← bitsBE_zero]
  refine ⟨?_, ?_⟩
  · intro h
    simpa using mod_eq_of_bitsBE h
  · intro h
    exact bitsBE_congr (by simpa using h)

/-- Equally many digits in range, equal strings: equal digits. -/
theorem symBits_inj {w : Nat} {xs ys : List Nat} {r r' : List Bool}
    (hx : ∀ x ∈ xs, x < 2 ^ w) (hy : ∀ y ∈ ys, y < 2 ^ w) (hl : xs.length = ys.length)
    (h : symBits w xs ++ r = symBits w ys ++ r') : xs = ys ∧ r = r' := by
  induction xs generalizing ys with
  | nil =>
    cases ys with
    | nil => exact ⟨rfl, by simpa using h⟩
    | cons y ys => simp at hl
  | cons x xs ih =>
    cases ys with
    | nil => simp at hl
    | cons y ys =>
      simp only [symBits_cons, List.append_assoc] at h
      obtain ⟨h₁, h₂⟩ := List.append_inj h (by simp)
      have hxy := bitsBE_inj (hx x (by simp)) (hy y (by simp)) h₁
      obtain ⟨h₃, h₄⟩ := ih (fun a ha => hx a (by simp [ha])) (fun a ha => hy a (by simp [ha]))
        (by simpa using hl) h₂
      exact ⟨by rw [hxy, h₃], h₄⟩

/-- Bytes are determined by their number and the bits they spell. -/
theorem symBits_bytes_inj {d e : List UInt8} {r r' : List Bool} (hl : d.length = e.length)
    (h : symBits 8 (d.map UInt8.toNat) ++ r = symBits 8 (e.map UInt8.toNat) ++ r') : d = e := by
  have hlt : ∀ l : List UInt8, ∀ x ∈ l.map UInt8.toNat, x < 2 ^ 8 := by
    intro l x hx
    obtain ⟨b, -, rfl⟩ := List.mem_map.mp hx
    exact b.toNat_lt
  have hmap := (symBits_inj (hlt d) (hlt e) (by simpa using hl) h).1
  exact (List.map_inj_right fun _ _ he => UInt8.toNat_inj.mp he).mp hmap

/-! ## Slices -/

/-- The number a bit string spells, as a digit of its width. -/
def ofBits (bits : List Bool) : Nat := bits.foldl (fun n b => 2 * n + b.toNat) 0

theorem ofBits_concat (bits : List Bool) (b : Bool) :
    ofBits (bits ++ [b]) = 2 * ofBits bits + b.toNat := by
  simp [ofBits]

theorem ofBits_spec (bits : List Bool) :
    ofBits bits < 2 ^ bits.length ∧ bitsBE bits.length (ofBits bits) = bits := by
  induction bits using List.reverseRecOn with
  | nil => exact ⟨by decide, rfl⟩
  | append_singleton bits b ih =>
    obtain ⟨hlt, hback⟩ := ih
    have hb : b.toNat < 2 := b.toNat_lt
    have hdiv : (2 * ofBits bits + b.toNat) / 2 ^ 1 = ofBits bits := by omega
    have hlow : bitsBE 1 (2 * ofBits bits + b.toNat) = [b] := by
      cases b <;> simp [bitsBE]
    rw [ofBits_concat, List.length_append, List.length_singleton]
    refine ⟨by rw [Nat.pow_succ]; omega, ?_⟩
    rw [bitsBE_add, hdiv, hback, hlow]

theorem symBits_slices (w m : Nat) (bits : List Bool) (h : w * m ≤ bits.length) :
    symBits w ((List.range m).map fun j => ofBits ((bits.drop (j * w)).take w)) =
      bits.take (w * m) := by
  induction m with
  | zero => simp
  | succ m ih =>
    rw [Nat.mul_succ] at h
    have hlen : ((bits.drop (m * w)).take w).length = w := by
      rw [List.length_take, List.length_drop, Nat.mul_comm m w]
      omega
    have hlast := (ofBits_spec ((bits.drop (m * w)).take w)).2
    rw [hlen] at hlast
    rw [List.range_succ, List.map_append, symBits_append, ih (by omega), List.map_singleton,
      symBits_cons, symBits_nil, List.append_nil, hlast, Nat.mul_comm m w, Nat.mul_succ,
      List.take_add]

theorem ofBits_slice_lt (w i : Nat) (bits : List Bool) :
    ofBits ((bits.drop i).take w) < 2 ^ w :=
  Nat.lt_of_lt_of_le (ofBits_spec _).1 (Nat.pow_le_pow_right (by decide) (List.length_take_le ..))

/-! ## The shift register -/

/-- The bits `B` are the digits `out` followed by the `cnt` live bits of `acc`. -/
def Regrouped (q : Nat) (out : List Nat) (acc cnt : Nat) (B : List Bool) : Prop :=
  B = symBits q out ++ bitsBE cnt acc

theorem Regrouped.init (q : Nat) : Regrouped q [] 0 0 [] := rfl

theorem Regrouped.length {q acc cnt : Nat} {out : List Nat} {B : List Bool}
    (h : Regrouped q out acc cnt B) : B.length = q * out.length + cnt := by
  rw [h]; simp

/-- Shifting a `p`-bit digit in; the register only has to be right on its live bits. -/
theorem Regrouped.push {p q acc acc' cnt x : Nat} {out : List Nat} {B : List Bool}
    (h : Regrouped q out acc cnt B) (hx : x < 2 ^ p)
    (ha : acc' % 2 ^ (cnt + p) = (acc * 2 ^ p + x) % 2 ^ (cnt + p)) :
    Regrouped q out acc' (cnt + p) (B ++ bitsBE p x) := by
  unfold Regrouped at h ⊢
  have hdiv : (acc * 2 ^ p + x) / 2 ^ p = acc := by
    rw [Nat.mul_comm, Nat.mul_add_div (Nat.two_pow_pos p), Nat.div_eq_of_lt hx, Nat.add_zero]
  have hlow : bitsBE p (acc * 2 ^ p + x) = bitsBE p x := by
    apply bitsBE_congr
    rw [Nat.mul_comm, Nat.mul_add_mod]
  rw [bitsBE_congr ha, bitsBE_add, hdiv, hlow, h, List.append_assoc]

/-- Taking a `q`-bit digit from the top of the live bits. -/
theorem Regrouped.emit {q acc cnt : Nat} {out : List Nat} {B : List Bool}
    (h : Regrouped q out acc cnt B) (hq : q ≤ cnt) :
    Regrouped q (out ++ [acc / 2 ^ (cnt - q) % 2 ^ q]) acc (cnt - q) B := by
  unfold Regrouped at h ⊢
  have hc : cnt = q + (cnt - q) := by omega
  rw [h, symBits_append, List.append_assoc]
  congr 1
  rw [symBits_cons, symBits_nil, List.append_nil, bitsBE_mod (Nat.le_refl q), ← bitsBE_add, ← hc]

/-- A 32-bit register shifted left by `p` with a `p`-bit digit or-ed in agrees
with `acc * 2 ^ p + x` on any `k ≤ 32` live bits. -/
theorem shiftIn_mod (acc x : UInt32) (p k : Nat) (hp : p < 32) (hk : k ≤ 32)
    (hx : x.toNat < 2 ^ p) :
    ((acc <<< UInt32.ofNat p) ||| x).toNat % 2 ^ k = (acc.toNat * 2 ^ p + x.toNat) % 2 ^ k := by
  have hpn : (UInt32.ofNat p).toNat = p := by
    rw [UInt32.toNat_ofNat']; exact Nat.mod_eq_of_lt (by omega)
  have hlow : (acc.toNat * 2 ^ p + x.toNat) = (acc.toNat * 2 ^ p) ||| x.toNat := by
    rw [Nat.mul_comm]; exact Nat.two_pow_add_eq_or_of_lt hx _
  rw [hlow, UInt32.toNat_or, UInt32.toNat_shiftLeft, hpn, Nat.mod_eq_of_lt hp, Nat.shiftLeft_eq]
  apply Nat.eq_of_testBit_eq
  intro i
  simp only [Nat.testBit_mod_two_pow, Nat.testBit_or]
  by_cases hi : i < k
  · simp [hi, show i < 32 by omega]
  · simp [hi]

theorem shiftOut_toNat (acc m : UInt32) (c q : Nat) (hc : c < 32) (hm : m.toNat = 2 ^ q - 1) :
    ((acc >>> UInt32.ofNat c) &&& m).toNat = acc.toNat / 2 ^ c % 2 ^ q := by
  have hcn : (UInt32.ofNat c).toNat = c := by
    rw [UInt32.toNat_ofNat']; exact Nat.mod_eq_of_lt (by omega)
  rw [UInt32.toNat_and, UInt32.toNat_shiftRight, hcn, Nat.mod_eq_of_lt hc, hm,
    Nat.and_two_pow_sub_one_eq_mod, Nat.shiftRight_eq_div_pow]

/-! ## Little-endian bytes -/

/-- The number that bytes spell, least significant first. -/
def leNat : List UInt8 → Nat
  | [] => 0
  | b :: bs => b.toNat + 2 ^ 8 * leNat bs

/-- `n` in `k` bytes, least significant first. -/
def leBytes : Nat → Nat → List UInt8
  | 0, _ => []
  | k + 1, n => UInt8.ofNat n :: leBytes k (n / 2 ^ 8)

@[simp] theorem length_leBytes (k n : Nat) : (leBytes k n).length = k := by
  induction k generalizing n with
  | zero => rfl
  | succ k ih => rw [leBytes, List.length_cons, ih]

theorem leNat_leBytes (k n : Nat) : leNat (leBytes k n) = n % 2 ^ (8 * k) := by
  induction k generalizing n with
  | zero => rw [Nat.mul_zero, Nat.pow_zero, Nat.mod_one]; rfl
  | succ k ih =>
    rw [leBytes, leNat, ih, UInt8.toNat_ofNat', Nat.mul_succ, Nat.add_comm (8 * k), Nat.pow_add,
      Nat.mod_mul]

theorem leBytes_mod (k n : Nat) : leBytes k (n % 2 ^ (8 * k)) = leBytes k n := by
  induction k generalizing n with
  | zero => rfl
  | succ k ih =>
    have hbyte : UInt8.ofNat (n % 2 ^ (8 * (k + 1))) = UInt8.ofNat n := by
      apply UInt8.toNat_inj.mp
      rw [UInt8.toNat_ofNat', UInt8.toNat_ofNat']
      exact Nat.mod_mod_of_dvd n (Nat.pow_dvd_pow 2 (by omega))
    have hrest : n % 2 ^ (8 * (k + 1)) / 2 ^ 8 = n / 2 ^ 8 % 2 ^ (8 * k) := by
      rw [Nat.mul_succ, Nat.add_comm, Nat.pow_add, Nat.mod_mul_right_div_self]
    rw [leBytes, leBytes, hbyte, hrest, ih]

/-- `n` in `k` bytes, most significant first. -/
def beBytes (k n : Nat) : List UInt8 := (leBytes k n).reverse

@[simp] theorem length_beBytes (k n : Nat) : (beBytes k n).length = k := by
  rw [beBytes, List.length_reverse, length_leBytes]

theorem leNat_lt (bs : List UInt8) : leNat bs < 2 ^ (8 * bs.length) := by
  induction bs with
  | nil => exact Nat.one_pos
  | cons b bs ih =>
    have hb := b.toNat_lt
    rw [leNat, List.length_cons, Nat.mul_succ, Nat.pow_add]
    omega

theorem leNat_concat (bs : List UInt8) (b : UInt8) :
    leNat (bs ++ [b]) = leNat bs + 2 ^ (8 * bs.length) * b.toNat := by
  induction bs with
  | nil => simp [leNat]
  | cons a bs ih =>
    rw [List.cons_append, leNat, ih, leNat, List.length_cons, Nat.mul_succ, Nat.add_comm (8 * _),
      Nat.pow_add, Nat.mul_add, Nat.add_assoc, Nat.mul_assoc]

theorem leNat_inj {as bs : List UInt8} (hlen : as.length = bs.length) (h : leNat as = leNat bs) :
    as = bs := by
  induction as generalizing bs with
  | nil => exact (List.length_eq_zero_iff.mp hlen.symm).symm
  | cons a as ih =>
    cases bs with
    | nil => cases hlen
    | cons b bs =>
      have ha := a.toNat_lt
      have hb := b.toNat_lt
      rw [leNat, leNat] at h
      have hbyte : a = b := UInt8.toNat_inj.mp (by omega)
      rw [hbyte, ih (Nat.succ.inj hlen) (by omega)]

theorem bit_mod_two_pow {i w : Nat} (h : i < w) (n : Nat) : n % 2 ^ w / 2 ^ i % 2 = n / 2 ^ i % 2 := by
  obtain ⟨k, rfl⟩ : ∃ k, w = i + 1 + k := ⟨w - (i + 1), by omega⟩
  rw [Nat.pow_add, Nat.pow_succ, Nat.mul_assoc, Nat.mod_mul_right_div_self, Nat.mod_mul_right_mod]

theorem getD_leNat (bs : List UInt8) (i : Nat) :
    (bs.getD i 0).toNat = leNat bs / 2 ^ (8 * i) % 2 ^ 8 := by
  induction bs generalizing i with
  | nil => simp [leNat]
  | cons b bs ih =>
    have hb := b.toNat_lt
    cases i with
    | zero =>
      rw [List.getD_cons_zero, leNat]
      omega
    | succ i =>
      have hrest : leNat (b :: bs) / 2 ^ 8 = leNat bs := by
        rw [leNat]
        omega
      rw [List.getD_cons_succ, ih, Nat.mul_succ, Nat.add_comm, Nat.pow_add,
        ← Nat.div_div_eq_div_mul, hrest]

theorem leNat_set {bs : List UInt8} {i : Nat} (hi : i < bs.length) (b : UInt8) :
    leNat (bs.set i b) + 2 ^ (8 * i) * (bs.getD i 0).toNat = leNat bs + 2 ^ (8 * i) * b.toNat := by
  induction bs generalizing i with
  | nil => cases hi
  | cons a bs ih =>
    cases i with
    | zero =>
      rw [List.set_cons_zero, List.getD_cons_zero, leNat, leNat]
      omega
    | succ i =>
      have h := ih (Nat.lt_of_succ_lt_succ hi)
      rw [List.set_cons_succ, List.getD_cons_succ, leNat, leNat, Nat.mul_succ, Nat.add_comm (8 * i),
        Nat.pow_add, Nat.mul_assoc, Nat.mul_assoc]
      omega

theorem leBytes_add (j k n : Nat) :
    leBytes (j + k) n = leBytes j n ++ leBytes k (n / 2 ^ (8 * j)) := by
  induction j generalizing n with
  | zero => simp [leBytes]
  | succ j ih =>
    have hrest : n / 2 ^ 8 / 2 ^ (8 * j) = n / 2 ^ (8 * (j + 1)) := by
      rw [Nat.div_div_eq_div_mul, ← Nat.pow_add, Nat.mul_succ, Nat.add_comm]
    rw [Nat.add_right_comm, leBytes, leBytes, ih, hrest, List.cons_append]

theorem beBytes_add (j k n : Nat) :
    beBytes (j + k) n = beBytes j (n / 2 ^ (8 * k)) ++ beBytes k n := by
  rw [beBytes, Nat.add_comm, leBytes_add, List.reverse_append, beBytes, beBytes]

theorem getElem?_flatMap {α β : Type} {f : α → List β} {k : Nat} (hf : ∀ a, (f a).length = k)
    (hk : 0 < k) (l : List α) (i : Nat) :
    (l.flatMap f)[i]? = l[i / k]?.bind fun a => (f a)[i % k]? := by
  induction l generalizing i with
  | nil => simp
  | cons a l ih =>
    rw [List.flatMap_cons]
    by_cases hi : i < k
    · rw [List.getElem?_append_left (by rw [hf]; exact hi), Nat.div_eq_of_lt hi,
        Nat.mod_eq_of_lt hi]
      rfl
    · have hle : k ≤ i := Nat.not_lt.mp hi
      rw [List.getElem?_append_right (by rw [hf]; exact hle), hf, ih, Nat.div_eq_sub_div hk hle,
        ← Nat.mod_eq_sub_mod hle, List.getElem?_cons_succ]

theorem getElem?_leBytes {j k : Nat} (hj : j < k) (n : Nat) :
    (leBytes k n)[j]? = some (UInt8.ofNat (n >>> (8 * j))) := by
  induction k generalizing n j with
  | zero => omega
  | succ k ih =>
    cases j with
    | zero => rfl
    | succ j =>
      rw [leBytes, List.getElem?_cons_succ, ih (by omega), Nat.shiftRight_eq_div_pow,
        Nat.shiftRight_eq_div_pow, Nat.div_div_eq_div_mul]
      congr 3
      rw [Nat.mul_add, Nat.add_comm, Nat.pow_add]

theorem getElem?_beBytes {j k : Nat} (hj : j < k) (n : Nat) :
    (beBytes k n)[j]? = some (UInt8.ofNat (n >>> (8 * (k - 1 - j)))) := by
  rw [beBytes, List.getElem?_reverse (by rwa [length_leBytes]), length_leBytes,
    getElem?_leBytes (by omega)]

/-- Words stored most significant byte first, one after the other. -/
theorem toList_eq_beBytes {W : Type} {k n m : Nat} (hk : 0 < k) (hm : n * k = m) (val : W → Nat) (ws : Vector W n)
    (out : Vector UInt8 m) (hout : ∀ i (hi : i < m) (hdiv : i / k < n),
      out[i] = UInt8.ofNat (val ws[i / k] >>> (8 * (k - 1 - i % k)))) :
    out.toList = ws.toList.flatMap fun w => beBytes k (val w) := by
  refine List.ext_getElem? fun i => ?_
  rw [getElem?_flatMap (fun w => length_beBytes k (val w)) hk]
  by_cases hi : i < m
  · have hdiv : i / k < n := Nat.div_lt_of_lt_mul (by rwa [Nat.mul_comm, hm])
    rw [List.getElem?_eq_getElem (by rwa [Vector.length_toList]), Vector.getElem_toList,
      hout i hi hdiv, List.getElem?_eq_getElem (by rwa [Vector.length_toList]), Option.bind_some,
      Vector.getElem_toList, getElem?_beBytes (Nat.mod_lt i hk)]
  · have hno : n ≤ i / k := (Nat.le_div_iff_mul_le hk).mpr (by rw [hm]; exact Nat.not_lt.mp hi)
    rw [List.getElem?_eq_none (by rw [Vector.length_toList]; omega),
      List.getElem?_eq_none (by rwa [Vector.length_toList]), Option.bind_none]

/-- Or-ing in a byte above the `k` low bits adds it there. -/
theorem or_shiftLeft_toNat {x : UInt32} {b : UInt8} {k : Nat} (hk : k + 8 ≤ 32)
    (hx : x.toNat < 2 ^ k) :
    (x ||| (b.toUInt32 <<< UInt32.ofNat k)).toNat = x.toNat + 2 ^ k * b.toNat ∧
      (x ||| (b.toUInt32 <<< UInt32.ofNat k)).toNat < 2 ^ (k + 8) := by
  have hkn : (UInt32.ofNat k).toNat = k := by
    rw [UInt32.toNat_ofNat']; exact Nat.mod_eq_of_lt (by omega)
  have hb := b.toNat_lt
  have hbk : 2 ^ k * b.toNat + x.toNat < 2 ^ (k + 8) := by
    rw [Nat.pow_add]
    have : 2 ^ k * (b.toNat + 1) ≤ 2 ^ k * 2 ^ 8 := Nat.mul_le_mul_left _ hb
    rw [Nat.mul_add] at this
    omega
  have hw : 2 ^ (k + 8) ≤ 2 ^ 32 := Nat.pow_le_pow_right (by decide) hk
  have heq : (x ||| (b.toUInt32 <<< UInt32.ofNat k)).toNat = x.toNat + 2 ^ k * b.toNat := by
    rw [UInt32.toNat_or, UInt32.toNat_shiftLeft, hkn, Nat.mod_eq_of_lt (show k < 32 by omega),
      UInt8.toNat_toUInt32, Nat.shiftLeft_eq, Nat.mul_comm b.toNat,
      Nat.mod_eq_of_lt (show 2 ^ k * b.toNat < 2 ^ 32 by omega), Nat.or_comm,
      ← Nat.two_pow_add_eq_or_of_lt hx, Nat.add_comm]
  exact ⟨heq, by omega⟩

end VectiLicense.Core
