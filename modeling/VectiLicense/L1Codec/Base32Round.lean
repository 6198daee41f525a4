import VectiLicense.L1Codec.Base32Decode

/-!
# Base32 round trips

The encoder runs the same shift register the other way. `encode_spec` says
what it writes: the alphabet characters of the unique 5-bit digits that spell
the input's bits followed by fewer than five zero bits. With
`Base32Decode.decode_ok_iff` both directions follow by comparing bit strings:

* `encode_decode`: decoding what was encoded gives the input back;
* `decode_encode`: encoding what was decoded gives `norm s`, the string with
  grouping dropped, letters upper-cased and `I`, `L`, `O` folded;
* `decode_eq_iff_norm`: two accepted strings carry the same bytes exactly
  when they have the same `norm`.
-/
namespace VectiLicense.L1.Base32

open VectiLicense.Core

/-- The alphabet character of a 5-bit value. -/
def charOf (v : Nat) : UInt8 := alpha (UInt32.ofNat v)

/-- Grouping dropped, case and aliases folded. -/
def norm (s : List UInt8) : List UInt8 := (sigChars s).map foldChar

theorem norm_append (s t : List UInt8) : norm (s ++ t) = norm s ++ norm t := by
  simp [norm]

theorem length_norm_le (s : List UInt8) : (norm s).length ≤ s.length := by
  rw [norm, List.length_map]
  exact length_sigChars_le s

theorem foldChar_ne_zero {c : UInt8} (h : c ≠ 0) : foldChar c ≠ 0 := by
  revert h
  refine forall_byte (P := fun c => c ≠ 0 → foldChar c ≠ 0) ?_ c
  decide +kernel

theorem norm_nonul {s : List UInt8} (h : 0 ∉ s) : 0 ∉ norm s := by
  intro h0
  simp only [norm, List.mem_map, sigChars, List.mem_filter] at h0
  obtain ⟨c, ⟨hc, -⟩, h0⟩ := h0
  exact foldChar_ne_zero (fun hz => h (hz ▸ hc)) h0

/-- A canonical spelling has no grouping, and is folded. -/
theorem mem_norm {s : List UInt8} {c : UInt8} (h : c ∈ norm s) :
    ¬ IsGrouping c ∧ foldChar c = c := by
  have hfold : ∀ c : UInt8, ¬ IsGrouping c →
      ¬ IsGrouping (foldChar c) ∧ foldChar (foldChar c) = foldChar c := by
    refine forall_byte ?_
    decide +kernel
  simp only [norm, List.mem_map, sigChars, List.mem_filter, decide_eq_true_eq] at h
  obtain ⟨c', ⟨-, hg⟩, rfl⟩ := h
  exact hfold c' hg

theorem norm_norm (s : List UInt8) : norm (norm s) = norm s := by
  have hsig : sigChars (norm s) = norm s := by
    rw [sigChars, List.filter_eq_self]
    intro c hc
    simpa using (mem_norm hc).1
  have hmap : (norm s).map foldChar = (norm s).map id :=
    List.map_congr_left fun c hc => (mem_norm hc).2
  rw [norm, hsig, hmap, List.map_id]

theorem charOf_spec {v : Nat} (h : v < 32) :
    IsSymbol (charOf v) ∧ ¬ IsGrouping (charOf v) ∧ charOf v ≠ 0 ∧ symVal (charOf v) = v :=
  val_alpha v h

theorem charOf_mem {v : Nat} (h : v < 32) : charOf v ∈ ENC_ALPHA := by
  have key : ∀ v : Fin 32, charOf v ∈ ENC_ALPHA := by decide +kernel
  exact key ⟨v, h⟩

theorem norm_eq {s : List UInt8} (h : ∀ c ∈ s, IsGrouping c ∨ IsSymbol c) :
    norm s = ((sigChars s).map symVal).map charOf := by
  rw [norm, List.map_map]
  apply List.map_congr_left
  intro c hc
  simp only [sigChars, List.mem_filter, decide_eq_true_eq] at hc
  have hs : IsSymbol c := (h c hc.1).resolve_left hc.2
  exact (alpha_val c hs).symm

theorem symVal_lt {s : List UInt8} (h : ∀ c ∈ s, IsGrouping c ∨ IsSymbol c) :
    ∀ v ∈ (sigChars s).map symVal, v < 2 ^ 5 := by
  intro v hv
  simp only [List.mem_map, sigChars, List.mem_filter, decide_eq_true_eq] at hv
  obtain ⟨c, ⟨hc, hg⟩, rfl⟩ := hv
  have hs : IsSymbol c := (h c hc).resolve_left hg
  rcases b32Val_cases c with ⟨h', -⟩ | ⟨-, -, -, hlt⟩ | ⟨-, h', -⟩
  · exact absurd h' hg
  · exact hlt
  · exact absurd hs h'

/-- The string of a digit list: all symbols, none dropped, digits back. -/
theorem sigChars_charOf {vs : List Nat} (h : ∀ v ∈ vs, v < 2 ^ 5) :
    sigChars (vs.map charOf) = vs.map charOf ∧ (vs.map charOf).map symVal = vs ∧
      0 ∉ vs.map charOf := by
  refine ⟨?_, ?_, ?_⟩
  · rw [sigChars, List.filter_eq_self]
    intro c hc
    obtain ⟨v, hv, rfl⟩ := List.mem_map.mp hc
    simpa using (charOf_spec (h v hv)).2.1
  · rw [List.map_map]
    calc vs.map (symVal ∘ charOf) = vs.map id :=
          List.map_congr_left fun v hv => (charOf_spec (h v hv)).2.2.2
      _ = vs := List.map_id vs
  · intro h0
    obtain ⟨v, hv, he⟩ := List.mem_map.mp h0
    exact (charOf_spec (h v hv)).2.2.1 he

/-! ## The encoder's register -/

theorem alpha_eq_charOf {x : UInt32} {n : Nat} (h : x.toNat % 2 ^ 5 = n % 2 ^ 5) :
    alpha x = charOf (n % 2 ^ 5) := by
  have h1 : ∀ y : UInt32, (y &&& 0x1F).toNat = y.toNat % 2 ^ 5 := by
    intro y
    rw [UInt32.toNat_and]
    exact Nat.and_two_pow_sub_one_eq_mod y.toNat 5
  unfold charOf alpha
  rw [h1, h1, h, UInt32.toNat_ofNat']
  congr 1
  omega

/-- `while (bits >= 5u)`: takes out all complete digits. -/
theorem encodeDrain_spec (buffer : UInt32) (bits : Nat) (cs : List UInt8) :
    ∀ (vs : List Nat) (B : List Bool), bits < 32 → cs = vs.map charOf → (∀ v ∈ vs, v < 2 ^ 5) →
      Regrouped 5 vs buffer.toNat bits B →
      ∃ vs' bits', encodeDrain buffer bits cs = ⟨buffer, bits', vs'.map charOf⟩ ∧ bits' < 5 ∧
        (∀ v ∈ vs', v < 2 ^ 5) ∧ Regrouped 5 vs' buffer.toNat bits' B := by
  induction bits, cs using encodeDrain.induct buffer with
  | case1 bits cs ih =>
    intro vs B hb hcs hvs hreg
    have hemit := hreg.emit (by omega : 5 ≤ bits + 5)
    have hsub : bits + 5 - 5 = bits := Nat.add_sub_cancel bits 5
    rw [hsub] at hemit
    have hlt : bits < 32 := by omega
    have hdigit : alpha (buffer >>> UInt32.ofNat bits) = charOf (buffer.toNat / 2 ^ bits % 2 ^ 5) := by
      apply alpha_eq_charOf
      have hn : (UInt32.ofNat bits).toNat = bits := by
        rw [UInt32.toNat_ofNat']; exact Nat.mod_eq_of_lt (by omega)
      rw [UInt32.toNat_shiftRight, hn, Nat.mod_eq_of_lt hlt, Nat.shiftRight_eq_div_pow]
    rw [encodeDrain]
    refine ih _ B hlt (by rw [hdigit, hcs, List.map_append]; rfl) ?_ hemit
    intro v hv
    rcases List.mem_append.mp hv with hv | hv
    · exact hvs v hv
    · rw [List.mem_singleton.mp hv]; exact Nat.mod_lt _ (by decide)
  | case2 bits cs hlt =>
    intro vs B hb hcs hvs hreg
    have h5 : bits < 5 := by
      by_cases h : bits < 5
      · exact h
      · exact absurd (show bits = (bits - 5) + 5 by omega) (hlt (bits - 5))
    refine ⟨vs, bits, ?_, h5, hvs, hreg⟩
    rw [hcs]
    unfold encodeDrain
    split
    · omega
    · rfl

/-- The encoder's state after `done`: the digits `vs` written, fewer than five
bits left. -/
structure EncInv (done : List UInt8) (vs : List Nat) (st : EncodeSt) : Prop where
  chars : st.chars = vs.map charOf
  bits : st.bits < 5
  digits : ∀ v ∈ vs, v < 2 ^ 5
  reg : Regrouped 5 vs st.buffer.toNat st.bits (symBits 8 (done.map UInt8.toNat))

theorem encodeByte_spec {done : List UInt8} {vs : List Nat} {st : EncodeSt} (h : EncInv done vs st)
    (b : UInt8) : ∃ vs', EncInv (done ++ [b]) vs' (encodeByte st b) := by
  have hbits := h.bits
  have hm := shiftIn_mod st.buffer b.toUInt32 8 (st.bits + 8) (by omega) (by omega)
    (by rw [UInt8.toNat_toUInt32]; exact b.toNat_lt)
  rw [UInt8.toNat_toUInt32] at hm
  have hpush := h.reg.push (p := 8) b.toNat_lt hm
  obtain ⟨vs', bits', he, hb', hd', hr'⟩ :=
    encodeDrain_spec _ (st.bits + 8) st.chars vs _ (by omega) h.chars h.digits hpush
  refine ⟨vs', ?_⟩
  have he' : encodeByte st b = _ := he
  rw [he']
  exact ⟨rfl, hb', hd', by simpa using hr'⟩

theorem encode_run (d done : List UInt8) :
    ∀ (vs : List Nat) (st : EncodeSt), EncInv done vs st →
      ∃ vs', EncInv (done ++ d) vs' (d.foldl encodeByte st) := by
  induction d generalizing done with
  | nil => intro vs st h; exact ⟨vs, by simpa using h⟩
  | cons b d ih =>
    intro vs st h
    obtain ⟨vs₁, h₁⟩ := encodeByte_spec h b
    obtain ⟨vs', h'⟩ := ih _ vs₁ _ h₁
    exact ⟨vs', by simpa using h'⟩

/-- The digits of `d`: those that spell its bits, padded with zero bits to a
whole number of digits. -/
structure Digits (d : List UInt8) (vs : List Nat) : Prop where
  lt : ∀ v ∈ vs, v < 2 ^ 5
  count : vs.length = (8 * d.length + 4) / 5
  spell : ∃ k, symBits 5 vs = symBits 8 (d.map UInt8.toNat) ++ List.replicate k false

theorem Digits.unique {d : List UInt8} {vs ws : List Nat} (h : Digits d vs) (h' : Digits d ws) :
    vs = ws := by
  obtain ⟨k, hk⟩ := h.spell
  obtain ⟨k', hk'⟩ := h'.spell
  have hl : vs.length = ws.length := h.count.trans h'.count.symm
  have hkk : k = k' := by
    have e1 := congrArg List.length hk
    have e2 := congrArg List.length hk'
    simp only [length_symBits, List.length_append, List.length_replicate] at e1 e2
    omega
  have he : symBits 5 vs ++ [] = symBits 5 ws ++ [] := by rw [hk, hk', hkk]
  exact (symBits_inj h.lt h'.lt hl he).1

/-- What a digit list spells is read off by `bytesOf`: equal digits, equal bytes. -/
theorem Digits.bytes_inj {d e : List UInt8} {vs : List Nat} (h : Digits d vs) (h' : Digits e vs)
    (hl : d.length = e.length) : d = e := by
  obtain ⟨k, hk⟩ := h.spell
  obtain ⟨k', hk'⟩ := h'.spell
  exact symBits_bytes_inj hl (hk.symm.trans hk')

/-- The last, partial digit: `(buffer << (5u - bits)) & 0x1F`. -/
theorem padDigit (buffer : UInt32) (bits : Nat) (h0 : 0 < bits) (h5 : bits < 5) :
    ∃ v, v < 2 ^ 5 ∧ alpha (buffer <<< UInt32.ofNat (5 - bits)) = charOf v ∧
      bitsBE 5 v = bitsBE bits buffer.toNat ++ List.replicate (5 - bits) false := by
  refine ⟨buffer.toNat * 2 ^ (5 - bits) % 2 ^ 5, Nat.mod_lt _ (by decide), ?_, ?_⟩
  · apply alpha_eq_charOf
    have hn : (UInt32.ofNat (5 - bits)).toNat = 5 - bits := by
      rw [UInt32.toNat_ofNat']; exact Nat.mod_eq_of_lt (by omega)
    rw [UInt32.toNat_shiftLeft, hn, Nat.mod_eq_of_lt (show 5 - bits < 32 by omega),
      Nat.shiftLeft_eq]
    exact Nat.mod_mod_of_dvd _ (by decide)
  · have hsum : bitsBE 5 (buffer.toNat * 2 ^ (5 - bits)) =
        bitsBE (bits + (5 - bits)) (buffer.toNat * 2 ^ (5 - bits)) := by
      congr 1; omega
    rw [bitsBE_mod (Nat.le_refl 5), hsum, bitsBE_add, Nat.mul_div_cancel _ (Nat.two_pow_pos _),
      bitsBE_eq_zero_iff.mpr (Nat.mul_mod_left _ _)]

section
variable [Target]

/-- **What the encoder writes.** -/
theorem encode_spec (d : List UInt8) (cap : Nat) (hd : d.length ≤ 512)
    (hcap : (8 * d.length + 4) / 5 + 1 ≤ cap) :
    ∃ vs, Digits d vs ∧
      vlBase32Encode (some d) .buf cap = ⟨some vs.length, seqWrites (vs.map charOf ++ [0])⟩ := by
  have hchars : vlBase32Chars d.length = (8 * d.length + 4) / 5 := vlBase32Chars_eq (by omega)
  obtain ⟨vs, h⟩ := encode_run d [] [] ⟨0, 0, []⟩ ⟨rfl, by decide, by simp, Regrouped.init 5⟩
  rw [List.nil_append] at h
  have hlen := h.reg.length
  simp only [length_symBits, List.length_map] at hlen
  have hbits := h.bits
  unfold vlBase32Encode
  simp only [VL_BASE32_MAX_INPUT, hchars]
  rw [if_neg (by omega), if_neg (by omega)]
  by_cases h0 : (d.foldl encodeByte ⟨0, 0, []⟩).bits > 0
  · obtain ⟨v, hv, hc, hsp⟩ := padDigit (d.foldl encodeByte ⟨0, 0, []⟩).buffer _ h0 hbits
    refine ⟨vs ++ [v], ⟨?_, ?_, ?_⟩, ?_⟩
    · intro x hx
      rcases List.mem_append.mp hx with hx | hx
      · exact h.digits x hx
      · rw [List.mem_singleton.mp hx]; exact hv
    · simp only [List.length_append, List.length_singleton]; omega
    · refine ⟨5 - (d.foldl encodeByte ⟨0, 0, []⟩).bits, ?_⟩
      rw [symBits_append, symBits_cons, symBits_nil, List.append_nil, hsp, h.reg, List.append_assoc]
    · simp only [h0, if_true, h.chars, hc, List.map_append, List.map_cons, List.map_nil,
        List.length_append, List.length_map, List.length_singleton]
  · refine ⟨vs, ⟨h.digits, by omega, 0, ?_⟩, ?_⟩
    · have hz : (d.foldl encodeByte ⟨0, 0, []⟩).bits = 0 := by omega
      have hr := h.reg
      rw [hz] at hr
      rw [hr]
      simp [bitsBE]
    · simp only [h0, if_false, h.chars, List.length_map]

/-- An accepted string's values are the digits of the bytes it decodes to. -/
theorem digits_of_decode {s : CStr} {cap n m : Nat} (hn : n ≠ 0) {d : List UInt8}
    (h : (vlBase32Decode (some s) .buf cap n).ret = some m)
    (hw : (vlBase32Decode (some s) .buf cap n).writes = seqWrites d) :
    d.length = n ∧ Digits d ((sigChars s.bytes).map symVal) ∧
      (∀ c ∈ s.bytes, IsGrouping c ∨ IsSymbol c) := by
  obtain ⟨-, d', hl, hw', hbits⟩ := decode_ok_bytes hn h
  have hdd : d = d' := seqWrites_inj (hw.symm.trans hw')
  subst hdd
  have g := (@decode_ok_iff _ s cap n hn).mp (by rw [h]; rfl)
  refine ⟨hl, ⟨symVal_lt g.2.alphabet, ?_, ?_⟩, g.2.alphabet⟩
  · rw [List.length_map, g.2.count, hl]
  · refine ⟨((charBits s.bytes).drop (8 * n)).length, ?_⟩
    rw [hbits]
    conv => lhs; rw [show symBits 5 ((sigChars s.bytes).map symVal) = charBits s.bytes from rfl,
      ← List.take_append_drop (8 * n) (charBits s.bytes)]
    rw [(List.eq_replicate_iff).mpr ⟨rfl, g.2.pad⟩, List.length_replicate]

/-! ## Both directions -/

theorem encode_decode (d : List UInt8) (cap : Nat) (h1 : 1 ≤ d.length) (hd : d.length ≤ 512)
    (hcap : (8 * d.length + 4) / 5 + 1 ≤ cap) :
    ∃ s : CStr, s.bytes.length = (8 * d.length + 4) / 5 ∧ (∀ c ∈ s.bytes, c ∈ ENC_ALPHA) ∧
      vlBase32Encode (some d) .buf cap =
        ⟨some ((8 * d.length + 4) / 5), seqWrites (s.bytes ++ [0])⟩ ∧
      ∀ outCap, d.length ≤ outCap →
        (vlBase32Decode (some s) .buf outCap d.length).ret = some d.length ∧
        (vlBase32Decode (some s) .buf outCap d.length).writes = seqWrites d := by
  obtain ⟨vs, hdig, he⟩ := encode_spec d cap hd hcap
  obtain ⟨hsig, hval, h0⟩ := sigChars_charOf hdig.lt
  have hcount := hdig.count
  refine ⟨⟨vs.map charOf, h0⟩, by simpa using hcount, ?_, by rw [he, hcount], ?_⟩
  · intro c hc
    obtain ⟨v, hv, rfl⟩ := List.mem_map.mp hc
    exact charOf_mem (hdig.lt v hv)
  intro outCap hout
  have hbits : charBits (vs.map charOf) = symBits 5 vs := by rw [charBits, hsig, hval]
  obtain ⟨k, hk⟩ := hdig.spell
  have hsome : (vlBase32Decode (some ⟨vs.map charOf, h0⟩) .buf outCap d.length).ret.isSome := by
    refine (decode_ok_iff (by omega)).mpr ⟨hout, ?_, ?_, ?_, ?_⟩
    · simp only [List.length_map]; omega
    · intro c hc
      obtain ⟨v, hv, rfl⟩ := List.mem_map.mp hc
      exact .inr (charOf_spec (hdig.lt v hv)).1
    · simp only [hsig, List.length_map, hcount]
    · intro b hb
      rw [hbits, hk, List.drop_left' (by simp)] at hb
      exact (List.mem_replicate.mp hb).2
  obtain ⟨m, hm⟩ := Option.isSome_iff_exists.mp hsome
  obtain ⟨hmn, d', hl, hw, -⟩ := decode_ok_bytes (by omega) hm
  obtain ⟨-, hdig', -⟩ := digits_of_decode (by omega) hm hw
  simp only [hsig, hval] at hdig'
  rw [hdig'.bytes_inj hdig hl] at hw
  exact ⟨by rw [hm, hmn], hw⟩

theorem decode_encode {s : CStr} {outCap n m : Nat} (h1 : 1 ≤ n) (hn : n ≤ 512) {d : List UInt8}
    (h : (vlBase32Decode (some s) .buf outCap n).ret = some m)
    (hw : (vlBase32Decode (some s) .buf outCap n).writes = seqWrites d) {cap : Nat}
    (hcap : (8 * n + 4) / 5 + 1 ≤ cap) :
    vlBase32Encode (some d) .buf cap = ⟨some (norm s.bytes).length, seqWrites (norm s.bytes ++ [0])⟩ := by
  obtain ⟨hl, hdig, hall⟩ := digits_of_decode (by omega) h hw
  obtain ⟨vs, hdig', he⟩ := encode_spec d cap (by omega) (by rw [hl]; exact hcap)
  simp only [he, hdig'.unique hdig, norm_eq hall, List.length_map]

theorem decode_eq_iff_norm {s t : CStr} {cap cap' n m m' : Nat} (h1 : 1 ≤ n) {d e : List UInt8}
    (hs : (vlBase32Decode (some s) .buf cap n).ret = some m)
    (hsw : (vlBase32Decode (some s) .buf cap n).writes = seqWrites d)
    (ht : (vlBase32Decode (some t) .buf cap' n).ret = some m')
    (htw : (vlBase32Decode (some t) .buf cap' n).writes = seqWrites e) :
    d = e ↔ norm s.bytes = norm t.bytes := by
  obtain ⟨hl, hd, hsa⟩ := digits_of_decode (by omega) hs hsw
  obtain ⟨hl', he, hta⟩ := digits_of_decode (by omega) ht htw
  rw [norm_eq hsa, norm_eq hta]
  refine ⟨?_, ?_⟩
  · intro h
    obtain rfl := h
    rw [hd.unique he]
  · intro hnorm
    have hv := congrArg (List.map symVal) hnorm
    rw [(sigChars_charOf hd.lt).2.1, (sigChars_charOf he.lt).2.1] at hv
    rw [hv] at hd
    exact hd.bytes_inj he (hl.trans hl'.symm)

/-- **Encode and decode are mutually inverse up to spelling.** -/
theorem base32_inverse :
    (∀ (d : List UInt8) (cap : Nat), 1 ≤ d.length → d.length ≤ 512 →
      (8 * d.length + 4) / 5 + 1 ≤ cap →
      ∃ s : CStr, s.bytes.length = (8 * d.length + 4) / 5 ∧ (∀ c ∈ s.bytes, c ∈ ENC_ALPHA) ∧
        vlBase32Encode (some d) .buf cap =
          ⟨some ((8 * d.length + 4) / 5), seqWrites (s.bytes ++ [0])⟩ ∧
        ∀ outCap, d.length ≤ outCap →
          (vlBase32Decode (some s) .buf outCap d.length).ret = some d.length ∧
          (vlBase32Decode (some s) .buf outCap d.length).writes = seqWrites d) ∧
    (∀ (s : CStr) (outCap n m : Nat) (d : List UInt8), 1 ≤ n → n ≤ 512 → n ≤ outCap →
      (vlBase32Decode (some s) .buf outCap n).ret = some m →
      (vlBase32Decode (some s) .buf outCap n).writes = seqWrites d →
      ∀ cap, (8 * n + 4) / 5 + 1 ≤ cap →
        vlBase32Encode (some d) .buf cap =
          ⟨some (norm s.bytes).length, seqWrites (norm s.bytes ++ [0])⟩) ∧
    (∀ (s t : CStr) (cap cap' n m m' : Nat) (d e : List UInt8), 1 ≤ n →
      (vlBase32Decode (some s) .buf cap n).ret = some m →
      (vlBase32Decode (some s) .buf cap n).writes = seqWrites d →
      (vlBase32Decode (some t) .buf cap' n).ret = some m' →
      (vlBase32Decode (some t) .buf cap' n).writes = seqWrites e →
      (d = e ↔ norm s.bytes = norm t.bytes)) :=
  ⟨fun d cap h1 hd hcap => encode_decode d cap h1 hd hcap,
   fun _ _ _ _ _ h1 hn _ h hw _ hcap => decode_encode h1 hn h hw hcap,
   fun _ _ _ _ _ _ _ _ _ h1 hs hsw ht htw => decode_eq_iff_norm h1 hs hsw ht htw⟩

end

end VectiLicense.L1.Base32
