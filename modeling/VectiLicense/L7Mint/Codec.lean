import VectiLicense.L1Codec.Base32Round

/-!
# The vendor tool's base32: `tools/vl_mint.py`

The tool that mints licences has a second base32 codec, in Python. `b32`
formats every byte as eight bits, pads the bit string to a multiple of five
and looks the slices up; `b32_decode` filters and folds the whole text first,
counts what is left, and only then cuts the bit string into bytes. There is
no register and no scan bound.

A Python `str` is its list of characters, a slice `bits[i:i+k]` is
`(bits.drop i).take k`, and `raise ValueError` is `Except.error`. `text` is
what the tool sees of a C string. `str.upper` is `Char.toUpper`, which is
Python's on 7-bit text and on no other.

* `b32_digits`: the tool's characters are the digits of the bytes;
* `clean_spec`, `b32Decode_spec`: `b32_decode` accepts exactly `InGrammar`
  and returns the first `n` bytes of what the text spells;
* `b32_round_trip`: both sides read back what either wrote;
* `codecs_agree`: what the tool writes the device writes, and what the tool
  reads or refuses the device reads or refuses.
-/
namespace VectiLicense.L7

open VectiLicense.Core VectiLicense.L1.Base32

/-- mirrors tools/vl_mint.py:41 -/
def ALPHA : List Char := [
  '0', '1', '2', '3', '4', '5', '6', '7', '8', '9',
  'A', 'B', 'C', 'D', 'E', 'F', 'G', 'H', 'J', 'K',
  'M', 'N', 'P', 'Q', 'R', 'S', 'T', 'V', 'W', 'X',
  'Y', 'Z']

/-- `range(0, stop, step)`. -/
def pyRange (stop step : Nat) : List Nat :=
  (List.range ((stop + (step - 1)) / step)).map fun j => j * step

/-- `(-n) % k`, which Python takes in `0..k-1`. -/
def pyNegMod (n k : Nat) : Nat := (-(n : Int) % (k : Int)).toNat

/-- mirrors tools/vl_mint.py:54-57 -/
def b32 (data : List UInt8) : List Char :=
  let bits := data.flatMap fun b => bitsBE 8 b.toNat
  let bits := bits ++ List.replicate (pyNegMod bits.length 5) false
  (pyRange bits.length 5).map fun i => ALPHA.getD (ofBits ((bits.drop i).take 5)) '0'

/-- The three messages of `b32_decode`, with what they print. -/
inductive ValueError where
  /-- `character {ch!r} is not in the base32 alphabet` -/
  | notInAlphabet (ch : Char)
  /-- `expected {want_chars} base32 characters, got {len(cleaned)}` -/
  | wrongCount (want got : Nat)
  /-- `non-canonical encoding (padding bits are not zero)` -/
  | nonCanonical
  deriving DecidableEq, Repr

/-- `{"O": "0", "I": "1", "L": "1"}.get(ch, ch)`. -/
def unalias (ch : Char) : Char :=
  if ch = 'O' then '0' else if ch = 'I' then '1' else if ch = 'L' then '1' else ch

/-- `for ch in text: …; cleaned.append(ch)`, for ASCII text: `str.upper` also
takes a few letters outside it into the alphabet (`ſ` is an `S`).
mirrors tools/vl_mint.py:63-71 -/
def clean : List Char → Except ValueError (List Char)
  | [] => .ok []
  | ch :: text =>
    if ch ∈ ['-', ' ', '\t', '\r', '\n'] then clean text
    else
      let ch := unalias ch.toUpper
      if ch ∉ ALPHA then .error (.notInAlphabet ch)
      else
        match clean text with
        | .error e => .error e
        | .ok cleaned => .ok (ch :: cleaned)

/-- mirrors tools/vl_mint.py:60-81 -/
def b32Decode (text : List Char) (expectBytes : Nat) : Except ValueError (List UInt8) :=
  match clean text with
  | .error e => .error e
  | .ok cleaned =>
    let wantChars := (expectBytes * 8 + 4) / 5
    if cleaned.length ≠ wantChars then .error (.wrongCount wantChars cleaned.length)
    else
      let bits := cleaned.flatMap fun c => bitsBE 5 (ALPHA.idxOf c)
      let out := (pyRange (expectBytes * 8) 8).map fun i =>
        UInt8.ofNat (ofBits ((bits.drop i).take 8))
      if (bits.drop (expectBytes * 8)).any id then .error .nonCanonical
      else .ok out

/-- What the tool sees of a C string. -/
def text (s : CStr) : List Char := s.bytes.map fun c => Char.ofNat c.toNat

/-! ## Encoding -/

theorem pyRange_slices {w : Nat} (hw : 0 < w) (m : Nat) :
    pyRange (w * m) w = (List.range m).map fun j => j * w := by
  unfold pyRange
  rw [Nat.mul_add_div hw, Nat.div_eq_of_lt (by omega), Nat.add_zero]

/-- The padding makes the length a multiple of five, and no longer than it must be. -/
theorem pyNegMod_five (n : Nat) : 5 * ((n + 4) / 5) = n + pyNegMod n 5 := by
  unfold pyNegMod
  omega

/-- The character the tool looks up is the one the device looks up. -/
theorem getD_ALPHA {v : Nat} (h : v < 2 ^ 5) :
    ALPHA.getD v '0' = Char.ofNat (charOf v).toNat := by
  have key : ∀ v : Fin 32, ALPHA.getD v '0' = Char.ofNat (charOf v).toNat := by decide +kernel
  exact key ⟨v, h⟩

theorem b32_digits (d : List UInt8) :
    ∃ vs, Digits d vs ∧ b32 d = (vs.map charOf).map fun c => Char.ofNat c.toNat := by
  have hbits : (d.flatMap fun b => bitsBE 8 b.toNat) = symBits 8 (d.map UInt8.toNat) := by
    rw [symBits, List.flatMap_map]
  have hlen : (symBits 8 (d.map UInt8.toNat)).length = 8 * d.length := by simp
  have hpad := pyNegMod_five (8 * d.length)
  let bits := symBits 8 (d.map UInt8.toNat) ++ List.replicate (pyNegMod (8 * d.length) 5) false
  have htotal : bits.length = 5 * ((8 * d.length + 4) / 5) := by
    simp only [bits, List.length_append, List.length_replicate, hlen]
    omega
  let vs := (List.range ((8 * d.length + 4) / 5)).map fun j => ofBits ((bits.drop (j * 5)).take 5)
  have hlt : ∀ v ∈ vs, v < 2 ^ 5 := by
    intro v hv
    obtain ⟨j, -, rfl⟩ := List.mem_map.mp hv
    exact ofBits_slice_lt 5 (j * 5) bits
  refine ⟨vs, ⟨hlt, by simp [vs], pyNegMod (8 * d.length) 5, ?_⟩, ?_⟩
  · have hcut := symBits_slices 5 ((8 * d.length + 4) / 5) bits (by omega)
    rwa [← htotal, List.take_length] at hcut
  · have hb : b32 d = (pyRange bits.length 5).map
        fun i => ALPHA.getD (ofBits ((bits.drop i).take 5)) '0' := by
      simp only [b32, hbits, hlen, bits]
    rw [hb, htotal, pyRange_slices (by decide), List.map_map, List.map_map, List.map_map]
    apply List.map_congr_left
    intro j _
    exact getD_ALPHA (ofBits_slice_lt 5 (j * 5) bits)

/-! ## Decoding -/

theorem char_spec (c : UInt8) (h : c < 128) :
    (Char.ofNat c.toNat ∈ ['-', ' ', '\t', '\r', '\n'] ↔ IsGrouping c) ∧
    (¬ IsGrouping c → (unalias (Char.ofNat c.toNat).toUpper ∈ ALPHA ↔ IsSymbol c)) ∧
    (IsSymbol c → ALPHA.idxOf (unalias (Char.ofNat c.toNat).toUpper) = symVal c) := by
  revert h
  refine forall_byte (P := fun c => c < 128 →
    (Char.ofNat c.toNat ∈ ['-', ' ', '\t', '\r', '\n'] ↔ IsGrouping c) ∧
    (¬ IsGrouping c → (unalias (Char.ofNat c.toNat).toUpper ∈ ALPHA ↔ IsSymbol c)) ∧
    (IsSymbol c → ALPHA.idxOf (unalias (Char.ofNat c.toNat).toUpper) = symVal c)) ?_ c
  decide +kernel

/-- The first loop: it keeps the symbols, or stops at a character that is
neither a symbol nor grouping. -/
theorem clean_spec (t : List UInt8) (h : ∀ c ∈ t, c < 128) :
    (∃ cs, clean (t.map fun c => Char.ofNat c.toNat) = .ok cs ∧
      (∀ c ∈ t, IsGrouping c ∨ IsSymbol c) ∧ cs.map ALPHA.idxOf = (sigChars t).map symVal) ∨
    (∃ e, clean (t.map fun c => Char.ofNat c.toNat) = .error e ∧
      ∃ c ∈ t, ¬ (IsGrouping c ∨ IsSymbol c)) := by
  induction t with
  | nil => exact .inl ⟨[], rfl, by simp, rfl⟩
  | cons c t ih =>
    obtain ⟨hgroup, hsym, hval⟩ := char_spec c (h c (by simp))
    have ih := ih fun x hx => h x (by simp [hx])
    have hcons : sigChars (c :: t) = sigChars [c] ++ sigChars t := sigChars_append [c] t
    rw [List.map_cons, clean]
    by_cases hg : IsGrouping c
    · rw [if_pos (hgroup.mpr hg), hcons, sigChars_grouping hg, List.nil_append]
      rcases ih with ⟨cs, hok, hall, hcs⟩ | ⟨e, herr, x, hx, hbad⟩
      · exact .inl ⟨cs, hok, by simpa [hg] using hall, hcs⟩
      · exact .inr ⟨e, herr, x, by simp [hx], hbad⟩
    · rw [if_neg (hgroup.not.mpr hg), hcons, sigChars_symbol hg]
      by_cases hs : IsSymbol c
      · rw [if_neg (not_not.mpr ((hsym hg).mpr hs))]
        rcases ih with ⟨cs, hok, hall, hcs⟩ | ⟨e, herr, x, hx, hbad⟩
        · left
          refine ⟨_, by rw [hok], by simpa [hs] using hall, ?_⟩
          rw [List.map_cons, hval hs, hcs, List.singleton_append, List.map_cons]
        · exact .inr ⟨e, by rw [herr], x, by simp [hx], hbad⟩
      · rw [if_pos ((hsym hg).not.mpr hs)]
        exact .inr ⟨_, rfl, c, by simp, by simp [hg, hs]⟩

/-- The bytes a bit string starts with. -/
def bytesOf (n : Nat) (bits : List Bool) : List UInt8 :=
  (List.range n).map fun j => UInt8.ofNat (ofBits ((bits.drop (j * 8)).take 8))

theorem symBits_bytesOf {n : Nat} {bits : List Bool} (h : 8 * n ≤ bits.length) :
    symBits 8 ((bytesOf n bits).map UInt8.toNat) = bits.take (8 * n) := by
  rw [← symBits_slices 8 n bits h, bytesOf, List.map_map]
  congr 1
  apply List.map_congr_left
  intro j _
  have hlt := ofBits_slice_lt 8 (j * 8) bits
  rw [Function.comp_apply, UInt8.toNat_ofNat', Nat.mod_eq_of_lt hlt]

/-- **`b32_decode`**: for a 7-bit text that the device would scan to its end,
it accepts the device's grammar and refuses everything else. -/
theorem b32Decode_spec (t : CStr) (n : Nat) (h7 : ∀ c ∈ t.bytes, c < 128)
    (hlen : t.bytes.length ≤ 1024) :
    (InGrammar t.bytes n ∧ b32Decode (text t) n = .ok (bytesOf n (charBits t.bytes))) ∨
      (¬ InGrammar t.bytes n ∧ ∃ e, b32Decode (text t) n = .error e) := by
  unfold b32Decode text
  rcases clean_spec t.bytes h7 with ⟨cs, hok, hall, hcs⟩ | ⟨e, herr, x, hx, hbad⟩
  · have hcount : cs.length = (sigChars t.bytes).length := by
      simpa using congrArg List.length hcs
    have hbits : (cs.flatMap fun c => bitsBE 5 (ALPHA.idxOf c)) = charBits t.bytes := by
      rw [charBits, ← hcs, symBits, List.flatMap_map]
    rw [hok]
    simp only [hcount, hbits, Nat.mul_comm n 8, pyRange_slices (by decide : 0 < 8), List.map_map]
    by_cases hc : (sigChars t.bytes).length = (8 * n + 4) / 5
    · rw [if_neg (not_not.mpr hc)]
      by_cases hpad : ((charBits t.bytes).drop (8 * n)).any id = true
      · right
        rw [if_pos hpad]
        refine ⟨?_, _, rfl⟩
        intro g
        obtain ⟨b, hb, hset⟩ := List.any_eq_true.mp hpad
        rw [g.pad b hb] at hset
        exact absurd hset (by decide)
      · left
        rw [if_neg hpad]
        refine ⟨⟨hlen, hall, hc, ?_⟩, rfl⟩
        intro b hb
        rw [List.any_eq_true] at hpad
        exact Bool.eq_false_iff.mpr fun hset => hpad ⟨b, hb, hset⟩
    · right
      rw [if_pos hc]
      exact ⟨fun g => hc g.count, _, rfl⟩
  · right
    rw [herr]
    exact ⟨fun g => hbad (g.alphabet x hx), e, rfl⟩

section
variable [Target]

/-- What the device stores on success is what the tool returns. -/
theorem decode_bytesOf {t : CStr} {cap n m : Nat} (hn : n ≠ 0)
    (h : (vlBase32Decode (some t) .buf cap n).ret = some m) :
    m = n ∧ (vlBase32Decode (some t) .buf cap n).writes = seqWrites (bytesOf n (charBits t.bytes)) := by
  obtain ⟨hm, ds, hl, hw, hbits⟩ := decode_ok_bytes hn h
  have g : InGrammar t.bytes n := ((@decode_ok_iff _ t cap n hn).mp (by rw [h]; rfl)).2
  have hroom : 8 * n ≤ (charBits t.bytes).length := by
    rw [length_charBits, g.count]
    omega
  have hspell := symBits_bytesOf hroom
  have hds : ds = bytesOf n (charBits t.bytes) :=
    @symBits_bytes_inj _ _ [] [] (by simp [bytesOf, hl]) (by rw [hbits, hspell])
  exact ⟨hm, by rw [hw, hds]⟩

theorem b32_writes (d : List UInt8) (hd : d.length ≤ 512) :
    ∃ s : CStr, text s = b32 d ∧ s.bytes.length = (8 * d.length + 4) / 5 ∧
      (∀ c ∈ s.bytes, c ∈ ENC_ALPHA) ∧
      ∀ cap, (8 * d.length + 4) / 5 + 1 ≤ cap →
        vlBase32Encode (some d) .buf cap =
          ⟨some s.bytes.length, seqWrites (s.bytes ++ [0])⟩ := by
  obtain ⟨vs, hdig, hb⟩ := b32_digits d
  obtain ⟨-, -, h0⟩ := sigChars_charOf hdig.lt
  refine ⟨⟨vs.map charOf, h0⟩, hb.symm, by rw [List.length_map, hdig.count], ?_, ?_⟩
  · intro c hc
    obtain ⟨v, hv, rfl⟩ := List.mem_map.mp hc
    exact charOf_mem (hdig.lt v hv)
  · intro cap hcap
    obtain ⟨ws, hdig', he⟩ := encode_spec d cap hd hcap
    rw [he, hdig'.unique hdig, List.length_map]

theorem b32Decode_ok_iff {t : CStr} {n cap : Nat} (h7 : ∀ c ∈ t.bytes, c < 128)
    (hlen : t.bytes.length ≤ 1024) (h1 : 1 ≤ n) (hcap : n ≤ cap) {d : List UInt8} :
    b32Decode (text t) n = .ok d ↔ (vlBase32Decode (some t) .buf cap n).ret = some d.length ∧
      (vlBase32Decode (some t) .buf cap n).writes = seqWrites d := by
  have hiff := @decode_ok_iff _ t cap n (by omega)
  rcases b32Decode_spec t n h7 hlen with ⟨g, hok⟩ | ⟨g, e, herr⟩
  · obtain ⟨m, hm⟩ := Option.isSome_iff_exists.mp (hiff.mpr ⟨hcap, g⟩)
    obtain ⟨hmn, hw⟩ := decode_bytesOf (by omega) hm
    have hl : (bytesOf n (charBits t.bytes)).length = n := by simp [bytesOf]
    rw [hok, hm, hw, hmn]
    refine ⟨?_, ?_⟩
    · intro h
      cases h
      exact ⟨by rw [hl], rfl⟩
    · intro h
      rw [seqWrites_inj h.2]
  · rw [herr]
    refine iff_of_false (by simp) ?_
    intro h
    exact g (hiff.mp (by rw [h.1]; rfl)).2

theorem b32Decode_error_iff {t : CStr} {n cap : Nat} (h7 : ∀ c ∈ t.bytes, c < 128)
    (hlen : t.bytes.length ≤ 1024) (h1 : 1 ≤ n) (hcap : n ≤ cap) :
    (∃ e, b32Decode (text t) n = .error e) ↔
      (vlBase32Decode (some t) .buf cap n).ret = none := by
  have hiff := @decode_ok_iff _ t cap n (by omega)
  rw [← Option.not_isSome_iff_eq_none, hiff]
  rcases b32Decode_spec t n h7 hlen with ⟨g, hok⟩ | ⟨g, e, herr⟩
  · rw [hok]
    exact iff_of_false (by simp) (not_not_intro ⟨hcap, g⟩)
  · exact iff_of_true ⟨e, herr⟩ (fun h => g h.2)

/-- Minting side and device, end to end: what the tool encodes the device
decodes, and the tool too. -/
theorem b32_round_trip (d : List UInt8) (h1 : 1 ≤ d.length) (hd : d.length ≤ 512) :
    ∃ s : CStr, text s = b32 d ∧ s.bytes.length = (8 * d.length + 4) / 5 ∧
      (∀ cap, (8 * d.length + 4) / 5 + 1 ≤ cap → vlBase32Encode (some d) .buf cap =
        ⟨some s.bytes.length, seqWrites (s.bytes ++ [0])⟩) ∧
      b32Decode (b32 d) d.length = .ok d ∧
      ∀ cap, d.length ≤ cap → (vlBase32Decode (some s) .buf cap d.length).ret = some d.length ∧
        (vlBase32Decode (some s) .buf cap d.length).writes = seqWrites d := by
  obtain ⟨s, htext, hlen, halpha, hwrites⟩ := b32_writes d hd
  obtain ⟨s', -, -, henc, hdec⟩ := encode_decode d _ h1 hd (Nat.le_refl _)
  have hsame : s = s' := by
    have he := congrArg EncodeResult.writes ((hwrites _ (Nat.le_refl _)).symm.trans henc)
    exact CStr.ext_bytes (List.append_cancel_right (seqWrites_inj he))
  subst hsame
  have h7 : ∀ c ∈ s.bytes, c < 128 := by
    have hall : ∀ c ∈ ENC_ALPHA, c < 128 := by decide +kernel
    exact fun c hc => hall c (halpha c hc)
  refine ⟨s, htext, hlen, hwrites, ?_, hdec⟩
  rw [← htext]
  exact (b32Decode_ok_iff h7 (by omega) h1 (Nat.le_refl _)).mpr (hdec _ (Nat.le_refl _))

/-- **The two codecs are interchangeable.** Encoding: for every byte string of
at most 512 bytes the device writes the tool's characters and a NUL. Decoding:
for every 7-bit string of at most 1024 characters, every `n ≥ 1` and every
buffer that holds `n` bytes, the tool returns `d` exactly when the device
returns `n` with `d` stored, and raises exactly when the device returns -1. -/
theorem codecs_agree :
    (∀ d : List UInt8, d.length ≤ 512 → ∃ s : CStr, text s = b32 d ∧
      ∀ cap, (8 * d.length + 4) / 5 + 1 ≤ cap →
        vlBase32Encode (some d) .buf cap =
          ⟨some s.bytes.length, seqWrites (s.bytes ++ [0])⟩) ∧
    (∀ (t : CStr) (n cap : Nat), (∀ c ∈ t.bytes, c < 128) → t.bytes.length ≤ 1024 →
      1 ≤ n → n ≤ cap →
      (∀ d, b32Decode (text t) n = .ok d ↔
        (vlBase32Decode (some t) .buf cap n).ret = some d.length ∧
          (vlBase32Decode (some t) .buf cap n).writes = seqWrites d) ∧
      ((∃ e, b32Decode (text t) n = .error e) ↔
        (vlBase32Decode (some t) .buf cap n).ret = none)) := by
  refine ⟨?_, ?_⟩
  · intro d hd
    obtain ⟨s, htext, -, -, hwrites⟩ := b32_writes d hd
    exact ⟨s, htext, hwrites⟩
  · intro t n cap h7 hlen h1 hcap
    exact ⟨fun d => b32Decode_ok_iff h7 hlen h1 hcap, b32Decode_error_iff h7 hlen h1 hcap⟩

end

end VectiLicense.L7
