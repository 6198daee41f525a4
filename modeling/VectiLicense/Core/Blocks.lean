import Mathlib.Data.List.Basic
import Mathlib.Data.Nat.Basic

/-!
# Strings in blocks, strings in fields

A Merkle–Damgård hash folds a compression function over the blocks of its
message. A streaming implementation has only seen a prefix: the complete
blocks of it are folded into the state and the rest, shorter than a block,
waits in a buffer. `Absorbed compress iv m s rest` says so of the prefix `m`;
`fill`, `complete` and `finish` are what more input does to it.

* `absorb_append`: behind complete blocks the fold goes on where it stopped.
* `mdPad`: the padding to a whole number of blocks that leaves room for a
  length field (`dvd_length_mdPad`).
* `prefixed_inj`: fields in front of which their length stands can be told
  apart, whatever bytes they hold.
-/
namespace VectiLicense.Core

section
variable {α σ : Type} {B : Nat}

/-- The fold over the complete blocks, front to back; what is left over is ignored. -/
def absorb (B : Nat) (compress : σ → List α → σ) (s : σ) (m : List α) : σ :=
  (List.range (m.length / B)).foldl (fun s i => compress s ((m.drop (i * B)).take B)) s

variable {compress : σ → List α → σ}

theorem absorb_short (s : σ) {m : List α} (h : m.length < B) : absorb B compress s m = s := by
  rw [absorb, Nat.div_eq_of_lt h]
  rfl

theorem absorb_append (hB : 0 < B) (s : σ) {pre : List α} (h : B ∣ pre.length) (m : List α) :
    absorb B compress s (pre ++ m) = absorb B compress (absorb B compress s pre) m := by
  obtain ⟨k, hk⟩ := h
  have hcount : (pre ++ m).length / B = k + m.length / B := by
    rw [List.length_append, hk, Nat.mul_add_div hB]
  have hpre : ∀ i ∈ List.range k, ∀ s, compress s (((pre ++ m).drop (i * B)).take B) =
      compress s ((pre.drop (i * B)).take B) := by
    intro i hi s
    have hroom : i * B + B ≤ pre.length := by
      rw [hk, Nat.mul_comm B k, ← Nat.succ_mul]
      exact Nat.mul_le_mul_right B (List.mem_range.mp hi)
    rw [List.drop_append_of_le_length (by omega),
      List.take_append_of_le_length (by rw [List.length_drop]; omega)]
  have hrest : ∀ i, (pre ++ m).drop ((k + i) * B) = m.drop (i * B) := by
    intro i
    rw [Nat.add_mul, Nat.mul_comm k B, ← hk, List.drop_append, List.drop_of_length_le (by omega),
      List.nil_append, Nat.add_sub_cancel_left]
  rw [absorb, hcount, List.range_add, List.foldl_append, List.foldl_map]
  simp only [hrest]
  rw [absorb, absorb, show pre.length / B = k by rw [hk, Nat.mul_div_cancel_left k hB]]
  congr 1
  exact List.foldl_ext _ _ s fun s i hi => hpre i hi s

theorem absorb_block (hB : 0 < B) (s : σ) {b : List α} (h : b.length = B) :
    absorb B compress s b = compress s b := by
  rw [absorb, h, Nat.div_self hB, List.range_one, List.foldl_cons, List.foldl_nil, Nat.zero_mul,
    List.drop_zero, List.take_of_length_le (Nat.le_of_eq h)]

/-- The prefix `m` of a message has been read. -/
structure Absorbed (B : Nat) (compress : σ → List α → σ) (iv : σ) (m : List α) (s : σ)
    (rest : List α) : Prop where
  split : ∃ pre, m = pre ++ rest ∧ B ∣ pre.length ∧ s = absorb B compress iv pre
  short : rest.length < B

namespace Absorbed

variable {iv s : σ} {m rest : List α}

theorem init (hB : 0 < B) (iv : σ) : Absorbed B compress iv [] iv [] :=
  ⟨⟨[], rfl, Nat.dvd_zero B, (absorb_short iv hB).symm⟩, hB⟩

/-- Input that does not fill the block waits. -/
theorem fill (h : Absorbed B compress iv m s rest) {p : List α} (hp : (rest ++ p).length < B) :
    Absorbed B compress iv (m ++ p) s (rest ++ p) := by
  obtain ⟨pre, rfl, hdvd, hs⟩ := h.split
  exact ⟨⟨pre, List.append_assoc .., hdvd, hs⟩, hp⟩

/-- Input that fills the block lets it be folded in. -/
theorem complete (h : Absorbed B compress iv m s rest) {p : List α} (hp : (rest ++ p).length = B) :
    Absorbed B compress iv (m ++ p) (compress s (rest ++ p)) [] := by
  have hB : 0 < B := Nat.lt_of_le_of_lt (Nat.zero_le _) h.short
  obtain ⟨pre, rfl, hdvd, rfl⟩ := h.split
  refine ⟨⟨pre ++ (rest ++ p), by simp, ?_, ?_⟩, hB⟩
  · rw [List.length_append, hp]
    exact Nat.dvd_add hdvd (Nat.dvd_refl B)
  · rw [absorb_append hB iv hdvd, absorb_block hB _ hp]

/-- The fold over a longer message needs only the state and what waits. -/
theorem finish (h : Absorbed B compress iv m s rest) (e : List α) :
    absorb B compress iv (m ++ e) = absorb B compress s (rest ++ e) := by
  have hB : 0 < B := Nat.lt_of_le_of_lt (Nat.zero_le _) h.short
  obtain ⟨pre, rfl, hdvd, rfl⟩ := h.split
  rw [List.append_assoc, absorb_append hB iv hdvd]

theorem length_mod (h : Absorbed B compress iv m s rest) : m.length % B = rest.length := by
  obtain ⟨pre, rfl, hdvd, -⟩ := h.split
  rw [List.length_append, Nat.add_mod, Nat.mod_eq_zero_of_dvd hdvd, Nat.zero_add, Nat.mod_mod,
    Nat.mod_eq_of_lt h.short]

end Absorbed

/-! ## Padding -/

/-- How many zero bytes stand between the end marker and a length field that
begins `lenAt` bytes into the last block, for a message of `n` bytes. -/
def padZeros (B lenAt n : Nat) : Nat := (B + lenAt - (n + 1) % B) % B

/-- The end marker, zeros, the length field. -/
def mdPad (B lenAt n : Nat) (lenField : List UInt8) : List UInt8 :=
  0x80 :: (List.replicate (padZeros B lenAt n) 0 ++ lenField)

theorem padZeros_lt (hB : 0 < B) (lenAt n : Nat) : padZeros B lenAt n < B := Nat.mod_lt _ hB

/-- The zeros behind `r` bytes of the last block: in this block, or to its end
and in one more. -/
theorem padZeros_eq {lenAt n r : Nat} (hr : n % B = r) (hrB : r < B) (hlen : lenAt < B) :
    padZeros B lenAt n = if r + 1 ≤ lenAt then lenAt - (r + 1) else B - (r + 1) + lenAt := by
  have hmod : (n + 1) % B = (r + 1) % B := by
    rw [Nat.add_mod, hr, Nat.add_mod r 1, Nat.mod_eq_of_lt hrB]
  unfold padZeros
  rw [hmod]
  by_cases hlast : r + 1 = B
  · rw [hlast, Nat.mod_self, if_neg (by omega), Nat.sub_zero, Nat.add_mod_left,
      Nat.mod_eq_of_lt hlen]
    omega
  · rw [Nat.mod_eq_of_lt (by omega : r + 1 < B)]
    split
    · rw [show B + lenAt - (r + 1) = B + (lenAt - (r + 1)) by omega, Nat.add_mod_left,
        Nat.mod_eq_of_lt (by omega)]
    · rw [Nat.mod_eq_of_lt (by omega)]
      omega

theorem dvd_length_mdPad {lenAt : Nat} {m lenField : List UInt8} (hlen : lenAt < B)
    (hfield : lenAt + lenField.length = B) :
    B ∣ (m ++ mdPad B lenAt m.length lenField).length := by
  have hB : 0 < B := by omega
  have hz := padZeros_eq (n := m.length) rfl (Nat.mod_lt _ hB) hlen
  have hdiv := Nat.div_add_mod m.length B
  simp only [mdPad, List.length_append, List.length_cons, List.length_replicate, hz]
  have hr := Nat.mod_lt m.length hB
  split
  · refine ⟨m.length / B + 1, ?_⟩
    rw [Nat.mul_succ]
    omega
  · refine ⟨m.length / B + 2, ?_⟩
    rw [Nat.mul_add]
    omega

end

/-! ## Length-prefixed fields -/

/-- Every field behind one byte that holds its length. -/
def prefixed (fields : List (List UInt8)) : List UInt8 :=
  fields.flatMap fun f => UInt8.ofNat f.length :: f

@[simp] theorem prefixed_nil : prefixed [] = [] := rfl
@[simp] theorem prefixed_cons (f : List UInt8) (fields : List (List UInt8)) :
    prefixed (f :: fields) = UInt8.ofNat f.length :: (f ++ prefixed fields) := rfl

/-- **The fields can be read back.** -/
theorem prefixed_inj {l l' : List (List UInt8)} (hl : ∀ f ∈ l, f.length ≤ 255)
    (hl' : ∀ f ∈ l', f.length ≤ 255) (h : prefixed l = prefixed l') : l = l' := by
  induction l generalizing l' with
  | nil =>
    cases l' with
    | nil => rfl
    | cons f' l' => simp at h
  | cons f l ih =>
    cases l' with
    | nil => simp at h
    | cons f' l' =>
      obtain ⟨hf, hl⟩ := List.forall_mem_cons.mp hl
      obtain ⟨hf', hl'⟩ := List.forall_mem_cons.mp hl'
      rw [prefixed_cons, prefixed_cons, List.cons.injEq] at h
      obtain ⟨hbyte, hrest⟩ := h
      have hlen : f.length = f'.length := by
        have hnat := congrArg UInt8.toNat hbyte
        rwa [UInt8.toNat_ofNat', UInt8.toNat_ofNat', Nat.mod_eq_of_lt (by omega),
          Nat.mod_eq_of_lt (by omega)] at hnat
      obtain ⟨hsame, hrest⟩ := List.append_inj hrest hlen
      rw [hsame, ih hl hl' hrest]

end VectiLicense.Core
