import Mathlib.Data.List.Induction
import Mathlib.Data.List.TakeWhile
import Mathlib.Data.Nat.Bitwise

/-!
# C memory: strings, output pointers, write logs, fixed buffers

What a C function does to memory it was handed is recorded, not performed:
a `Writes` log lists every store through an output pointer as
`(index, byte)`, in program order, so that "never writes past the end" is a
statement about the log. `storeAll` performs a log on a buffer. A function
that fills its output front to back produces `seqWrites` of the bytes.

A buffer that belongs to the code's own state is a `Buf n`. `store?`,
`copyIn?` and `read?` are an assignment, a `memcpy` into it and a `memcmp` or
`memcpy` out of it; each is `none` when it would leave the buffer, so code
that runs to a `some` has touched nothing else. `bit` reads a buffer as a
bitmap, eight flags a byte, low bit first. A `CharArray n` is a buffer with a
NUL in it, so that the string in it ends inside.
-/
namespace VectiLicense.Core

/-- A NUL-terminated string: the bytes before the first NUL, which stands at
index `bytes.length`. -/
structure CStr where
  bytes : List UInt8
  nonul : 0 ∉ bytes
  deriving DecidableEq

/-- The string that starts at the beginning of a block of memory. -/
def CStr.ofMem (mem : List UInt8) : CStr where
  bytes := mem.takeWhile (· ≠ 0)
  nonul := fun h => by
    have := List.mem_takeWhile_imp h
    simp at this

theorem CStr.ext_bytes {s t : CStr} (h : s.bytes = t.bytes) : s = t := by
  cases s
  cases t
  cases h
  rfl

theorem takeWhile_append_nul {ds rest : List UInt8} (h : 0 ∉ ds) :
    (ds ++ 0 :: rest).takeWhile (· ≠ 0) = ds := by
  rw [List.takeWhile_append_of_pos, List.takeWhile_cons_of_neg (by simp), List.append_nil]
  intro c hc
  simpa using fun h0 : c = 0 => h (h0 ▸ hc)

theorem CStr.ofMem_append (s : CStr) (rest : List UInt8) : CStr.ofMem (s.bytes ++ 0 :: rest) = s :=
  CStr.ext_bytes (takeWhile_append_nul s.nonul)

/-- An output pointer: NULL, or a buffer whose stores go to the write log. -/
inductive OutPtr where
  | null | buf
  deriving DecidableEq, Repr

abbrev Writes := List (Nat × UInt8)

/-- Perform the stores of a log on a buffer. -/
def storeAll (buf : List UInt8) (ws : Writes) : List UInt8 :=
  ws.foldl (fun b w => b.set w.1 w.2) buf

/-- The log of a function that stores `ds` at indices 0, 1, 2, … -/
def seqWrites (ds : List UInt8) : Writes := ds.zipIdx.map fun p => (p.2, p.1)

theorem seqWrites_concat (ds : List UInt8) (b : UInt8) :
    seqWrites (ds ++ [b]) = seqWrites ds ++ [(ds.length, b)] := by
  simp [seqWrites, List.zipIdx_append]

@[simp] theorem seqWrites_bytes (ds : List UInt8) : (seqWrites ds).map Prod.snd = ds := by
  simp [seqWrites, Function.comp_def]

theorem seqWrites_inj {ds es : List UInt8} (h : seqWrites ds = seqWrites es) : ds = es := by
  rw [← seqWrites_bytes ds, h, seqWrites_bytes]

theorem mem_seqWrites_lt {ds : List UInt8} {w : Nat × UInt8} (h : w ∈ seqWrites ds) :
    w.1 < ds.length := by
  simp only [seqWrites, List.mem_map] at h
  obtain ⟨⟨b, i⟩, hm, rfl⟩ := h
  have := List.mem_zipIdx hm
  simp only
  omega

@[simp] theorem storeAll_append (buf : List UInt8) (u v : Writes) :
    storeAll buf (u ++ v) = storeAll (storeAll buf u) v := by
  simp [storeAll]

/-- Performing the log of a front-to-back fill. -/
theorem storeAll_seqWrites {buf ds : List UInt8} (h : ds.length ≤ buf.length) :
    storeAll buf (seqWrites ds) = ds ++ buf.drop ds.length := by
  induction ds using List.reverseRecOn with
  | nil => rfl
  | append_singleton ds b ih =>
    simp only [List.length_append, List.length_singleton] at h
    have hlt : ds.length < buf.length := by omega
    rw [seqWrites_concat, storeAll_append, ih (by omega)]
    simp only [storeAll, List.foldl_cons, List.foldl_nil, List.length_append,
      List.length_singleton, List.append_assoc, List.singleton_append]
    rw [List.set_append_right _ _ (Nat.le_refl _), Nat.sub_self, List.drop_eq_getElem_cons hlt,
      List.set_cons_zero]

theorem slice_append {α : Type} {pre mid post : List α} {off k : Nat} (hpre : pre.length = off)
    (hmid : mid.length = k) : ((pre ++ mid ++ post).drop off).take k = mid := by
  rw [List.append_assoc, List.drop_left' hpre, List.take_left' hmid]

theorem length_flatMap {α β : Type} {f : α → List β} {k : Nat} (hlen : ∀ a, (f a).length = k)
    (xs : List α) : (xs.flatMap f).length = k * xs.length := by
  induction xs with
  | nil => rfl
  | cons x xs ih => simp [hlen, ih, Nat.mul_add, Nat.add_comm]

theorem flatMap_inj {α β : Type} {f : α → List β} {k : Nat} (hk : 0 < k)
    (hlen : ∀ a, (f a).length = k) (hf : ∀ a b, f a = f b → a = b) {xs ys : List α}
    (h : xs.flatMap f = ys.flatMap f) : xs = ys := by
  have hcount : xs.length = ys.length := by
    have hl := congrArg List.length h
    rw [length_flatMap hlen, length_flatMap hlen] at hl
    exact Nat.eq_of_mul_eq_mul_left hk hl
  induction xs generalizing ys with
  | nil => exact (List.length_eq_zero_iff.mp hcount.symm).symm
  | cons x xs ih =>
    cases ys with
    | nil => cases hcount
    | cons y ys =>
      rw [List.flatMap_cons, List.flatMap_cons] at h
      obtain ⟨hhead, htail⟩ := List.append_inj h (by rw [hlen, hlen])
      rw [hf x y hhead, ih htail (by simpa using hcount)]

/-- The `or` or the `and` of all: with an operation that yields `e` of `e` and `e` alone. -/
theorem foldl_eq_iff {α : Type} {op : α → α → α} {e : α}
    (hop : ∀ a b, op a b = e ↔ a = e ∧ b = e) (xs : List α) :
    ∀ a, xs.foldl op a = e ↔ a = e ∧ ∀ x ∈ xs, x = e := by
  induction xs with
  | nil => simp
  | cons x xs ih =>
    intro a
    rw [List.foldl_cons, ih, hop, List.forall_mem_cons, and_assoc]

/-! ## Fixed buffers -/

/-- `uint8_t p[n]` -/
abbrev Buf (n : Nat) := Vector UInt8 n

namespace Buf

variable {n : Nat}

/-- `p[i] = b` -/
def store? (p : Buf n) (i : Nat) (b : UInt8) : Option (Buf n) :=
  if h : i < n then some (p.set i b) else none

/-- `memcpy(p + off, ds, |ds|)` -/
def copyIn? (p : Buf n) (off : Nat) (ds : List UInt8) : Option (Buf n) :=
  if off + ds.length ≤ n then
    some (Vector.ofFn fun i => if off ≤ i.val then ds.getD (i.val - off) p[i] else p[i])
  else none

/-- The bytes `p[off .. off + len - 1]`. -/
def read? (p : Buf n) (off len : Nat) : Option (List UInt8) :=
  if off + len ≤ n then some ((p.toList.drop off).take len) else none

theorem store?_eq {p : Buf n} {i : Nat} {b : UInt8} (h : i < n) :
    p.store? i b = some (p.set i b) := by
  rw [store?, dif_pos h]

/-- Appending at the end of the used part. -/
theorem take_set_succ {p : Buf n} {len : Nat} (h : len < n) (b : UInt8) :
    (p.set len b).toList.take (len + 1) = p.toList.take len ++ [b] := by
  rw [Vector.toList_set, List.take_add_one, List.getElem?_set_self (by simpa using h),
    List.take_set_of_le (Nat.le_refl _)]
  rfl

theorem read?_eq {p : Buf n} {off len : Nat} (h : off + len ≤ n) :
    p.read? off len = some ((p.toList.drop off).take len) := by
  rw [read?, if_pos h]

theorem copyIn?_eq {p : Buf n} {off : Nat} {ds : List UInt8} (h : off + ds.length ≤ n) :
    ∃ q, p.copyIn? off ds = some q ∧
      q.toList = p.toList.take off ++ ds ++ p.toList.drop (off + ds.length) := by
  refine ⟨_, by rw [copyIn?, if_pos h], ?_⟩
  apply List.ext_getElem
  · simp only [Vector.length_toList, List.length_append, List.length_take, List.length_drop]
    omega
  intro i h₁ h₂
  have hi : i < n := by simpa using h₁
  have htake : (p.toList.take off).length = off := by
    rw [List.length_take, Vector.length_toList]
    omega
  simp only [Vector.getElem_toList, Vector.getElem_ofFn, List.append_assoc]
  by_cases hbefore : i < off
  · rw [if_neg (show ¬ off ≤ i by omega)]
    rw [List.getElem_append_left (by omega)]
    simp
  rw [if_pos (show off ≤ i by omega), List.getElem_append_right (by omega)]
  by_cases hin : i - off < ds.length
  · rw [List.getElem_append_left (by omega)]
    simp [htake, hin]
  · rw [List.getElem_append_right (by omega)]
    simp only [htake, List.getElem_drop, Vector.getElem_toList]
    rw [List.getD_eq_default _ _ (by omega)]
    have hback : off + ds.length + (i - off - ds.length) = i := by omega
    simp only [hback]
    rfl

theorem getElem?_copyIn_outside {p q : Buf n} {off : Nat} {ds : List UInt8}
    (h : p.copyIn? off ds = some q) {i : Nat} (hi : i < off ∨ off + ds.length ≤ i) :
    q[i]? = p[i]? := by
  unfold copyIn? at h
  split at h
  · rw [Option.some.injEq] at h
    subst h
    by_cases hn : i < n
    · rw [Vector.getElem?_eq_getElem hn, Vector.getElem?_eq_getElem hn, Vector.getElem_ofFn]
      dsimp only
      by_cases hoff : off ≤ i
      · rw [if_pos hoff, List.getD_eq_default _ _ (by omega)]
        rfl
      · rw [if_neg hoff]
        rfl
    · have hend := Nat.le_of_not_lt hn
      rw [Vector.getElem?_eq_none hend, Vector.getElem?_eq_none hend]
  · cases h

theorem read?_copyIn {p q : Buf n} {off : Nat} {ds : List UInt8} (h : p.copyIn? off ds = some q) :
    q.read? off ds.length = some ds := by
  unfold copyIn? at h
  split at h
  · rename_i hle
    rw [Option.some.injEq] at h
    subst h
    rw [read?_eq hle, Option.some.injEq]
    apply List.ext_getElem
    · simp; omega
    · intro i h₁ h₂
      simp [h₂]
  · cases h

theorem read?_copyIn_disjoint {p q : Buf n} {off off' len : Nat} {ds : List UInt8}
    (h : p.copyIn? off ds = some q) (hd : off' + len ≤ off ∨ off + ds.length ≤ off') :
    q.read? off' len = p.read? off' len := by
  unfold copyIn? at h
  split at h
  · rw [Option.some.injEq] at h
    subst h
    unfold read?
    split
    · rw [Option.some.injEq]
      apply List.ext_getElem
      · simp
      · intro i h₁ h₂
        simp only [List.length_take, List.length_drop, Vector.length_toList] at h₁ h₂
        have hout : ¬ (off ≤ off' + i) ∨ ds.length ≤ off' + i - off := by omega
        simp only [List.getElem_take, List.getElem_drop, Vector.getElem_toList,
          Vector.getElem_ofFn]
        rcases hout with hout | hout
        · rw [if_neg hout]
          rfl
        · simp [List.getElem?_eq_none hout]
    · rfl
  · cases h

/-! ## Bitmaps -/

/-- Flag `i` of the bitmap `p`. -/
def bit (p : Buf n) (i : Nat) : Bool := (p[i / 8]?.getD 0).toNat.testBit (i % 8)

theorem bit_replicate (i : Nat) : Buf.bit (Vector.replicate n 0) i = false := by
  unfold bit
  rw [Vector.getElem?_replicate]
  split <;> simp

/-- `(uint8_t)(1u << k)` selects bit `k` of a byte. -/
theorem and_mask_ne_zero {b m : UInt8} {k : Nat} (hm : m.toNat = 2 ^ k) :
    b &&& m ≠ 0 ↔ b.toNat.testBit k = true := by
  rw [Ne, ← UInt8.toNat_inj, UInt8.toNat_and, hm, Nat.and_two_pow]
  cases b.toNat.testBit k <;> simp

theorem bit_set {p : Buf n} {i : Nat} {m : UInt8} (hi : i / 8 < n) (hm : m.toNat = 2 ^ (i % 8))
    (j : Nat) :
    Buf.bit (p.set (i / 8) (p[i / 8] ||| m)) j = (p.bit j || decide (j = i)) := by
  unfold bit
  by_cases hb : j / 8 = i / 8
  · have hji : (j = i) ↔ (i % 8 = j % 8) := by omega
    rw [hb, Vector.getElem?_set_self, Vector.getElem?_eq_getElem hi]
    simp only [Option.getD_some, UInt8.toNat_or, hm, Nat.testBit_or, Nat.testBit_two_pow, hji]
  · have hji : ¬ j = i := fun h => hb (by rw [h])
    rw [Vector.getElem?_set_ne _ (Ne.symm hb)]
    simp only [hji, decide_false, Bool.or_false]

/-! ## Copies to the front -/

/-- `memcpy(p, ds, |ds|)` -/
def copyFront (p : Buf n) (ds : List UInt8) (h : ds.length ≤ n) : Buf n :=
  ⟨(ds ++ p.toList.drop ds.length).toArray, by simp; omega⟩

@[simp] theorem copyFront_toList (p : Buf n) (ds : List UInt8) (h : ds.length ≤ n) :
    (p.copyFront ds h).toList = ds ++ p.toList.drop ds.length := rfl

end Buf

/-! ## Character arrays -/

/-- A `char` array that holds a string: reading it stops inside the array. -/
structure CharArray (n : Nat) where
  mem : Buf n
  terminated : 0 ∈ mem.toList
  deriving DecidableEq

namespace CharArray

variable {n : Nat}

/-- `p[i] = '\0'` -/
def terminate (mem : Buf n) (i : Nat) (h : i < n) : CharArray n where
  mem := mem.set i 0
  terminated := by
    rw [Vector.toList_set]
    exact List.mem_set (by rw [Vector.length_toList]; exact h) 0

/-- The string in the array. -/
def str (p : CharArray n) : CStr := CStr.ofMem p.mem.toList

/-- The string behind bytes closed with a NUL. -/
theorem str_terminate {mem : Buf n} {i : Nat} (hi : i < n) (h : 0 ∉ mem.toList.take i) :
    (terminate mem i hi).str.bytes = mem.toList.take i := by
  have hsplit : (mem.set i 0).toList = mem.toList.take i ++ 0 :: mem.toList.drop (i + 1) := by
    rw [Vector.toList_set, List.set_eq_take_append_cons_drop, if_pos (by simpa using hi)]
  simp only [str, terminate, CStr.ofMem, hsplit]
  exact takeWhile_append_nul h

end CharArray

end VectiLicense.Core
