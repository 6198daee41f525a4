import VectiLicense.L1Codec.Base32

/-!
# What `vl_base32_decode` accepts

The decoder is a loop with five ways out in the middle and three tests after
it. `InGrammar s n` is the language it is meant to accept for
`expect_bytes = n`, as a statement about the string alone: at most 1024
bytes, only grouping characters and symbols, `⌈8n/5⌉` symbols, and no bit set
in what their 5-bit values spell beyond the first `8n` bits.

* `decodeChar_spec`: what one character does to the loop's state (`DecInv`);
* `decodeLoop_spec`: what the loop does to a whole string;
* `decode_ok_iff`, `decode_ok_bytes`: with `expect_bytes ≠ 0` the call
  succeeds exactly on `InGrammar`, and stores exactly the string's bits;
* `decode_reads`, `decode_writes`: in every case, also with
  `expect_bytes = 0`, no index past the first NUL or past 1024 is read, and
  the stores go to indices 0, 1, … below `out_capacity`.
-/
namespace VectiLicense.L1.Base32

open VectiLicense.Core

/-- The characters that are not grouping. -/
def sigChars (s : List UInt8) : List UInt8 := s.filter fun c => ¬ IsGrouping c

/-- The bit string the symbols of `s` spell. -/
def charBits (s : List UInt8) : List Bool := symBits 5 ((sigChars s).map symVal)

/-- The strings of `n` bytes. -/
structure InGrammar (s : List UInt8) (n : Nat) : Prop where
  short : s.length ≤ 1024
  alphabet : ∀ c ∈ s, IsGrouping c ∨ IsSymbol c
  count : (sigChars s).length = (8 * n + 4) / 5
  pad : ∀ b ∈ (charBits s).drop (8 * n), b = false

@[simp] theorem sigChars_append (s t : List UInt8) : sigChars (s ++ t) = sigChars s ++ sigChars t := by
  simp [sigChars]

theorem sigChars_grouping {c : UInt8} (h : IsGrouping c) : sigChars [c] = [] := by
  simp [sigChars, h]

theorem sigChars_symbol {c : UInt8} (h : ¬ IsGrouping c) : sigChars [c] = [c] := by
  simp [sigChars, h]

theorem length_sigChars_le (s : List UInt8) : (sigChars s).length ≤ s.length :=
  List.length_filter_le _ _

theorem length_charBits (s : List UInt8) : (charBits s).length = 5 * (sigChars s).length := by
  simp [charBits]

theorem charBits_append (s t : List UInt8) : charBits (s ++ t) = charBits s ++ charBits t := by
  simp [charBits]

/-! ## One character -/

/-- The loop's state once the characters `done` are consumed and the bytes
`ds` stored: the register holds what is left of `done`'s bits. -/
structure DecInv (cap : Nat) (done ds : List UInt8) (st : DecodeSt) : Prop where
  writes : st.writes = seqWrites ds
  outIdx : st.outIdx = ds.length
  chars : st.chars = (sigChars done).length
  bits : st.bits < 8
  room : ds.length ≤ cap
  reg : Regrouped 8 (ds.map UInt8.toNat) st.buffer.toNat st.bits (charBits done)

theorem decInv_init (cap : Nat) : DecInv cap [] [] ⟨0, 0, 0, 0, []⟩ where
  writes := rfl
  outIdx := rfl
  chars := rfl
  bits := by decide
  room := Nat.zero_le _
  reg := Regrouped.init 8

theorem DecInv.count {cap : Nat} {done ds : List UInt8} {st : DecodeSt}
    (h : DecInv cap done ds st) : 5 * (sigChars done).length = 8 * ds.length + st.bits := by
  have := h.reg.length
  rw [length_charBits, List.length_map] at this
  exact this

theorem DecInv.shift {cap : Nat} {done ds : List UInt8} {st : DecodeSt}
    (h : DecInv cap done ds st) {c : UInt8} (hg : ¬ IsGrouping c) (hv : symVal c < 32) :
    Regrouped 8 (ds.map UInt8.toNat) ((st.buffer <<< 5) ||| UInt32.ofNat (symVal c)).toNat
      (st.bits + 5) (charBits (done ++ [c])) := by
  have hb := h.bits
  have hx : (UInt32.ofNat (symVal c)).toNat = symVal c := by
    rw [UInt32.toNat_ofNat']; exact Nat.mod_eq_of_lt (by omega)
  have hm := shiftIn_mod st.buffer (UInt32.ofNat (symVal c)) 5 (st.bits + 5) (by omega) (by omega)
    (by rw [hx]; exact hv)
  rw [hx] at hm
  have := h.reg.push (p := 5) hv hm
  rw [charBits_append]
  simpa [charBits, sigChars_symbol hg] using this

/-- The byte the decoder stores is the top one of the register. -/
theorem topByte_toNat (buffer : UInt32) (bits : Nat) (h : bits < 32) :
    (topByte buffer bits).toNat = buffer.toNat / 2 ^ bits % 2 ^ 8 := by
  rw [topByte, UInt32.toNat_toUInt8, shiftOut_toNat buffer 0xFF bits 8 h rfl]
  exact Nat.mod_mod _ _

/-- **One character**: it is consumed, or the call returns -1 because the
character is outside the alphabet or the output is full. -/
theorem decodeChar_spec {cap : Nat} {done ds : List UInt8} {st : DecodeSt}
    (h : DecInv cap done ds st) (c : UInt8) :
    (∃ st' ds', decodeChar cap st c = .ok st' ∧ (IsGrouping c ∨ IsSymbol c) ∧
      DecInv cap (done ++ [c]) ds' st') ∨
    (∃ st', decodeChar cap st c = .error st' ∧ st'.writes = seqWrites ds ∧
      ((¬ IsGrouping c ∧ ¬ IsSymbol c) ∨ cap < 5 * (sigChars (done ++ [c])).length / 8)) := by
  unfold decodeChar
  rcases b32Val_cases c with ⟨hg, hv⟩ | ⟨hg, hs, hv, hlt⟩ | ⟨hg, hs, hv⟩
  · left
    refine ⟨st, ds, by simp [hv], .inl hg, h.writes, h.outIdx, ?_, h.bits, h.room, ?_⟩
    · rw [h.chars, sigChars_append, sigChars_grouping hg, List.append_nil]
    · rw [charBits_append]
      simpa [charBits, sigChars_grouping hg] using h.reg
  · have hcnt : (sigChars (done ++ [c])).length = (sigChars done).length + 1 := by
      rw [sigChars_append, sigChars_symbol hg]; simp
    have hbits := h.count
    have hb := h.bits
    have hreg := h.shift hg hlt
    have hv2 : ¬ b32Val c = -2 := by omega
    have hv3 : ¬ b32Val c < 0 := by omega
    have hv4 : (b32Val c).toNat = symVal c := rfl
    simp only [hv2, hv3, hv4, if_false]
    by_cases h8 : st.bits + 5 ≥ 8
    · simp only [h8, if_true]
      by_cases hroom : st.outIdx ≥ cap
      · right
        simp only [hroom, if_true]
        refine ⟨_, rfl, h.writes, .inr ?_⟩
        have := h.outIdx
        omega
      · left
        simp only [hroom, if_false]
        have hout := h.outIdx
        refine ⟨_, ds ++ [topByte ((st.buffer <<< 5) ||| UInt32.ofNat (symVal c)) (st.bits + 5 - 8)],
          rfl, .inr hs, ?_, ?_, ?_, ?_, ?_, ?_⟩
        · simp only [h.writes, hout, seqWrites_concat]
        · simp [hout]
        · simp only [h.chars, hcnt]
        · simp only; omega
        · simp only [List.length_append, List.length_singleton]; omega
        · have := hreg.emit (by omega : 8 ≤ st.bits + 5)
          simp only [List.map_append, List.map_cons, List.map_nil]
          rw [topByte_toNat _ _ (by omega)]
          exact this
    · left
      simp only [h8, if_false]
      refine ⟨_, ds, rfl, .inr hs, h.writes, h.outIdx, ?_, ?_, h.room, hreg⟩
      · simp only [h.chars, hcnt]
      · simp only; omega
  · right
    exact ⟨st, by simp [hv], h.writes, .inl ⟨hg, hs⟩⟩

/-! ## The loop -/

theorem decodeLoop_reads (cap : Nat) (rest : List UInt8) :
    ∀ (scanned : Nat) (st : DecodeSt), scanned ≤ 1024 →
      ∀ i ∈ (decodeLoop cap rest scanned st).1, i ≤ scanned + rest.length ∧ i ≤ 1024 := by
  induction rest with
  | nil =>
    intro scanned st hs i hi
    simp only [decodeLoop, List.mem_singleton] at hi
    subst hi; exact ⟨by simp, hs⟩
  | cons c rest ih =>
    intro scanned st hs i hi
    unfold decodeLoop at hi
    split at hi
    · simp only [List.mem_singleton] at hi
      subst hi; exact ⟨by simp, hs⟩
    · rename_i hlt
      unfold VL_BASE32_MAX_INPUT at hlt
      split at hi
      · simp only [List.mem_singleton] at hi
        subst hi; exact ⟨by simp, hs⟩
      · simp only [List.mem_cons] at hi
        rcases hi with rfl | hi
        · exact ⟨by simp, hs⟩
        · have := ih (scanned + 1) _ (by omega) i hi
          simp only [List.length_cons]
          exact ⟨by omega, this.2⟩

/-- **The loop**: it ends at the NUL with every character consumed, or one of
its three rejections explains why it did not. -/
theorem decodeLoop_spec (cap : Nat) (rest : List UInt8) :
    ∀ (scanned : Nat) (done ds : List UInt8) (st : DecodeSt), DecInv cap done ds st →
      scanned ≤ 1024 →
      (∃ st' ds', (decodeLoop cap rest scanned st).2 = .ok st' ∧
        (∀ c ∈ rest, IsGrouping c ∨ IsSymbol c) ∧ scanned + rest.length ≤ 1024 ∧
        DecInv cap (done ++ rest) ds' st') ∨
      (∃ st' ds', (decodeLoop cap rest scanned st).2 = .error st' ∧
        st'.writes = seqWrites ds' ∧ ds'.length ≤ cap ∧
        ((∃ c ∈ rest, ¬ (IsGrouping c ∨ IsSymbol c)) ∨ 1024 < scanned + rest.length ∨
          cap < 5 * (sigChars (done ++ rest)).length / 8)) := by
  induction rest with
  | nil =>
    intro scanned done ds st h hs
    exact .inl ⟨st, ds, rfl, by simp, by simpa using hs, by simpa using h⟩
  | cons c rest ih =>
    intro scanned done ds st h hs
    have happ : done ++ c :: rest = (done ++ [c]) ++ rest := by simp
    unfold decodeLoop
    by_cases hmax : scanned ≥ VL_BASE32_MAX_INPUT
    · right
      rw [if_pos hmax]
      unfold VL_BASE32_MAX_INPUT at hmax
      exact ⟨st, ds, rfl, h.writes, h.room, .inr (.inl (by simp only [List.length_cons]; omega))⟩
    · rw [if_neg hmax]
      unfold VL_BASE32_MAX_INPUT at hmax
      rcases decodeChar_spec h c with ⟨st₁, ds₁, he, hc, h₁⟩ | ⟨st₁, he, hw, hwhy⟩
      · rw [he]
        simp only
        rcases ih (scanned + 1) _ _ _ h₁ (by omega) with
          ⟨st', ds', hr, hall, hlen, hinv⟩ | ⟨st', ds', hr, hw, hroom, hwhy⟩
        · left
          refine ⟨st', ds', hr, ?_, by simp only [List.length_cons]; omega, by rw [happ]; exact hinv⟩
          intro x hx
          rcases List.mem_cons.mp hx with rfl | hx
          · exact hc
          · exact hall x hx
        · right
          refine ⟨st', ds', hr, hw, hroom, ?_⟩
          rcases hwhy with ⟨x, hx, hbad⟩ | hlong | hfull
          · exact .inl ⟨x, by simp [hx], hbad⟩
          · exact .inr (.inl (by simp only [List.length_cons]; omega))
          · exact .inr (.inr (by rw [happ]; exact hfull))
      · right
        rw [he]
        refine ⟨st₁, ds, rfl, hw, h.room, ?_⟩
        rcases hwhy with ⟨hg, hsym⟩ | hfull
        · exact .inl ⟨c, by simp, by simp [hg, hsym]⟩
        · refine .inr (.inr ?_)
          rw [happ, sigChars_append, List.length_append]
          omega

/-! ## The tests after the loop -/

theorem mask_toNat (b : Nat) (h : b < 8) : ((1 <<< UInt32.ofNat b) - 1 : UInt32).toNat = 2 ^ b - 1 := by
  have key : ∀ b : Fin 8, ((1 <<< UInt32.ofNat b) - 1 : UInt32).toNat = 2 ^ (b : Nat) - 1 := by decide
  exact key ⟨b, h⟩

/-- The pad test looks at exactly the live bits of the register. -/
theorem pad_zero_iff {cap : Nat} {done ds : List UInt8} {st : DecodeSt} (h : DecInv cap done ds st) :
    ¬ (st.bits > 0 ∧ st.buffer &&& ((1 <<< UInt32.ofNat st.bits) - 1) ≠ 0) ↔
      ∀ b ∈ (charBits done).drop (8 * ds.length), b = false := by
  have hdrop : (charBits done).drop (8 * ds.length) = bitsBE st.bits st.buffer.toNat := by
    rw [h.reg]; exact List.drop_left' (by simp)
  have hmask : (st.buffer &&& ((1 <<< UInt32.ofNat st.bits) - 1)) = 0 ↔
      st.buffer.toNat % 2 ^ st.bits = 0 := by
    rw [← UInt32.toNat_inj, UInt32.toNat_and, mask_toNat _ h.bits, Nat.and_two_pow_sub_one_eq_mod]
    rfl
  have hall : (∀ b ∈ bitsBE st.bits st.buffer.toNat, b = false) ↔
      st.buffer.toNat % 2 ^ st.bits = 0 := by
    rw [← bitsBE_eq_zero_iff, List.eq_replicate_iff]
    simp
  rw [hdrop, hall, ← hmask]
  refine ⟨?_, ?_⟩
  · intro hn
    by_cases hb : st.bits > 0
    · exact Decidable.not_not.mp fun hne => hn ⟨hb, hne⟩
    · have : st.bits = 0 := by omega
      rw [hmask, this, Nat.pow_zero, Nat.mod_one]
  · rintro h0 ⟨-, hne⟩
    exact hne h0

section
variable [Target]

/-- `VL_BASE32_CHARS` does not wrap on the lengths a string can have. -/
theorem vlBase32Chars_eq {n : Nat} (h : n ≤ 1024) : vlBase32Chars n = (8 * n + 4) / 5 := by
  have hw := Target.sizeBits_ge
  have hp : 2 ^ 16 ≤ 2 ^ Target.sizeBits := Nat.pow_le_pow_right (by decide) hw
  unfold vlBase32Chars
  rw [Nat.mod_eq_of_lt (by omega), Nat.mul_comm]

theorem decodeFinish_isSome_iff {cap n : Nat} {s ds : List UInt8} {st : DecodeSt}
    (h : DecInv cap s ds st) (hlen : s.length ≤ 1024) (hn : n ≠ 0) :
    (decodeFinish n st).isSome ↔ ds.length = n ∧ (sigChars s).length = (8 * n + 4) / 5 ∧
      ∀ b ∈ (charBits s).drop (8 * n), b = false := by
  have hcount := h.count
  have hsig := length_sigChars_le s
  have hpad := pad_zero_iff h
  unfold decodeFinish
  simp only [h.chars, h.outIdx, hn, ne_eq, not_false_eq_true, true_and]
  by_cases hp : st.bits > 0 ∧ ¬ st.buffer &&& ((1 <<< UInt32.ofNat st.bits) - 1) = 0
  · rw [if_pos hp]
    simp only [Option.isSome_none, Bool.false_eq_true, false_iff]
    intro h
    obtain ⟨rfl, -, hz⟩ := h
    exact hpad.mpr hz hp
  · rw [if_neg hp]
    have hz := hpad.mp hp
    by_cases hlast : ds.length = n
    · subst hlast
      rw [vlBase32Chars_eq (by omega)]
      by_cases hc : (sigChars s).length = (8 * ds.length + 4) / 5
      · rw [if_neg (by simpa using hc), if_neg (by simp)]
        exact iff_of_true rfl ⟨rfl, hc, hz⟩
      · rw [if_pos (by simpa using hc)]
        exact iff_of_false (by simp) fun h => hc h.2.1
    · refine iff_of_false ?_ fun h => hlast h.1
      split <;> simp

/-! ## The whole call -/

variable (s : CStr) (cap n : Nat)

theorem decode_eq :
    vlBase32Decode (some s) .buf cap n =
      if n ≠ 0 ∧ cap < n then ⟨none, [], []⟩
      else match decodeLoop cap s.bytes 0 ⟨0, 0, 0, 0, []⟩ with
        | (reads, .error st) => ⟨none, reads, st.writes⟩
        | (reads, .ok st) => ⟨decodeFinish n st, reads, st.writes⟩ := rfl

theorem decode_reads {i : Nat} (h : i ∈ (vlBase32Decode (some s) .buf cap n).reads) :
    i ≤ s.bytes.length ∧ i ≤ 1024 := by
  rw [decode_eq] at h
  split at h
  · simp at h
  · have key := decodeLoop_reads cap s.bytes 0 ⟨0, 0, 0, 0, []⟩ (by decide)
    split at h <;> rename_i hl <;> rw [hl] at key <;> simpa using key i h

/-- Stores go front to back and stay inside `out_capacity`. -/
theorem decode_writes :
    ∃ ds : List UInt8, (vlBase32Decode (some s) .buf cap n).writes = seqWrites ds ∧
      ds.length ≤ cap := by
  rw [decode_eq]
  split
  · exact ⟨[], rfl, Nat.zero_le _⟩
  · rcases decodeLoop_spec cap s.bytes 0 [] [] _ (decInv_init cap) (by decide) with
      ⟨st', ds', hr, -, -, hinv⟩ | ⟨st', ds', hr, hw, hroom, -⟩
    · split <;> rename_i hl <;> rw [hl] at hr <;> cases hr
      exact ⟨ds', hinv.writes, hinv.room⟩
    · split <;> rename_i hl <;> rw [hl] at hr <;> cases hr
      exact ⟨ds', hw, hroom⟩

/-- On success the stored bytes are the string's first `8n` bits. -/
theorem decode_ok_bytes {s : CStr} {cap n m : Nat} (hn : n ≠ 0)
    (h : (vlBase32Decode (some s) .buf cap n).ret = some m) :
    m = n ∧ ∃ ds : List UInt8, ds.length = n ∧
      (vlBase32Decode (some s) .buf cap n).writes = seqWrites ds ∧
      symBits 8 (ds.map UInt8.toNat) = (charBits s.bytes).take (8 * n) := by
  rw [decode_eq] at h ⊢
  split at h
  · cases h
  rename_i hcap
  rw [if_neg hcap]
  rcases decodeLoop_spec cap s.bytes 0 [] [] _ (decInv_init cap) (by decide) with
    ⟨st', ds', hr, -, hlen, hinv⟩ | ⟨st', ds', hr, -, -, -⟩
  · split at h <;> rename_i hl <;> rw [hl] at hr <;> cases hr
    rw [List.nil_append] at hinv
    have hret : decodeFinish n st' = some m := h
    have hsome : (decodeFinish n st').isSome := by rw [hret]; rfl
    obtain ⟨hlast, -, -⟩ := (decodeFinish_isSome_iff hinv (by simpa using hlen) hn).mp hsome
    have hm : m = ds'.length := by
      unfold decodeFinish at hret
      split at hret
      · cases hret
      split at hret
      · cases hret
      split at hret
      · cases hret
      cases hret; exact hinv.outIdx
    refine ⟨hm.trans hlast, ds', hlast, hinv.writes, ?_⟩
    rw [hinv.reg, List.take_left' (by simp [hlast])]
  · split at h <;> rename_i hl <;> rw [hl] at hr <;> cases hr
    cases h

theorem decode_ok_iff {s : CStr} {cap n : Nat} (hn : n ≠ 0) :
    (vlBase32Decode (some s) .buf cap n).ret.isSome ↔ n ≤ cap ∧ InGrammar s.bytes n := by
  rw [decode_eq]
  by_cases hcap : n ≠ 0 ∧ cap < n
  · rw [if_pos hcap]
    simp only [Option.isSome_none, Bool.false_eq_true, false_iff]
    intro h
    obtain ⟨h, -⟩ := h
    omega
  rw [if_neg hcap]
  have hle : n ≤ cap := by omega
  rcases decodeLoop_spec cap s.bytes 0 [] [] _ (decInv_init cap) (by decide) with
    ⟨st', ds', hr, hall, hlen, hinv⟩ | ⟨st', ds', hr, -, -, hwhy⟩
  · rw [List.nil_append] at hinv
    rw [Nat.zero_add] at hlen
    have hfin := decodeFinish_isSome_iff hinv hlen hn
    have hcount := hinv.count
    have hb := hinv.bits
    split <;> rename_i hl <;> rw [hl] at hr <;> cases hr
    rw [hfin]
    refine ⟨?_, ?_⟩
    · intro h
      obtain ⟨-, hc, hz⟩ := h
      exact ⟨hle, hlen, hall, hc, hz⟩
    · intro h
      obtain ⟨-, g⟩ := h
      exact ⟨by have := g.count; omega, g.count, g.pad⟩
  · split <;> rename_i hl <;> rw [hl] at hr <;> cases hr
    simp only [Option.isSome_none, Bool.false_eq_true, false_iff]
    intro h
    obtain ⟨-, g⟩ := h
    rcases hwhy with ⟨c, hc, hbad⟩ | hlong | hfull
    · exact hbad (g.alphabet c hc)
    · have := g.short; omega
    · have := g.count
      rw [List.nil_append] at hfull
      omega

/-- **Acceptance and safety of the decoder.** For every string, capacity and
`expect_bytes`: with `expect_bytes ≥ 1` the call succeeds exactly on
`InGrammar` with room for the bytes, then returns `n` and has stored the
string's first `8n` bits at `out[0..n-1]`; and in every case it reads nothing
past the NUL or past index 1024 and stores nothing at `out_capacity` or
beyond. -/
theorem decode_exact :
    (1 ≤ n →
      ((vlBase32Decode (some s) .buf cap n).ret.isSome ↔ n ≤ cap ∧ InGrammar s.bytes n) ∧
      ∀ m, (vlBase32Decode (some s) .buf cap n).ret = some m →
        m = n ∧ ∃ ds : List UInt8, ds.length = n ∧
          (vlBase32Decode (some s) .buf cap n).writes = seqWrites ds ∧
          symBits 8 (ds.map UInt8.toNat) = (charBits s.bytes).take (8 * n)) ∧
    (∀ i ∈ (vlBase32Decode (some s) .buf cap n).reads, i ≤ s.bytes.length ∧ i ≤ 1024) ∧
    (∀ w ∈ (vlBase32Decode (some s) .buf cap n).writes, w.1 < cap) := by
  refine ⟨fun hn => ?_, fun i hi => decode_reads s cap n hi, fun w hw => ?_⟩
  · have hn' : n ≠ 0 := by omega
    exact ⟨decode_ok_iff hn', fun m hm => decode_ok_bytes hn' hm⟩
  · obtain ⟨ds, he, hle⟩ := decode_writes s cap n
    rw [he] at hw
    exact Nat.lt_of_lt_of_le (mem_seqWrites_lt hw) hle

end

end VectiLicense.L1.Base32
