import VectiLicense.L8Examples.Gate

/-!
# Activation over the UART

What a customer of the bare-metal example sees over weeks: an id on the display, a
blob that the vendor issues for it, typed at the terminal, and power cycles.

* `gate_persists`: a power cycle comes back to the last line that verified, whatever
  was typed since.
* `gate_activation`: the id displayed, the blob issued for it and typed, the gate
  open with the features issued, and still so after the next power cycle.
-/
namespace VectiLicense.L8

open VectiLicense.Core VectiLicense.L0 VectiLicense.L1.Base32 VectiLicense.L2.Line VectiLicense.L3
open VectiLicense.L5 VectiLicense.L7
open VectiLicense.L1.Hash (sha256)
open VectiLicense.L3.Ed25519 (sign publicKey)
open VectiLicense.L6 (VL_BLOB_STR_BUF_LEN)

section
variable [Target] {β : Type} {fw : Firmware} {bs : BoardSupport β}

/-! ## What a power cycle comes back to -/

/-- The lines received, from the unfinished line `typed` on. -/
def lines : List UInt8 → List (GateEvent β) → List CStr
  | _, [] => []
  | _, .boot _ :: es => lines [] es
  | typed, .rx _ ch :: es =>
    if isTerm ch = true then (lineOf typed).toList ++ lines [] es else lines (typed ++ [ch]) es
  | typed, .swap _ :: es => lines typed es

/-- Those of them that verify. -/
def acceptedFrom (fw : Firmware) (typed : List UInt8) (es : List (GateEvent β)) : List CStr :=
  (lines typed es).filter fun s => (fw.judge s).1 = .ok

/-- Nobody exchanges the stored blob. -/
def Untouched (es : List (GateEvent β)) : Prop := ∀ e ∈ es, ∀ storage, e ≠ .swap storage

/-- The line that an event closes, if it verifies. -/
def Desk.accepts (fw : Firmware) (d : Desk β) : GateEvent β → Option CStr
  | .rx _ ch =>
    if isTerm ch = true then (lineOf d.typed).filter fun s => (fw.judge s).1 = .ok else none
  | _ => none

theorem acceptedFrom_cons (bs : BoardSupport β) (d : Desk β) (e : GateEvent β) (es : List (GateEvent β)) :
    acceptedFrom fw d.typed (e :: es) =
      (d.accepts fw e).toList ++ acceptedFrom fw (d.step fw bs e).typed es := by
  cases e with
  | boot g => rfl
  | swap storage => rfl
  | rx g ch =>
    by_cases hterm : isTerm ch = true
    · cases hline : lineOf d.typed with
      | none => simp [acceptedFrom, lines, Desk.accepts, Desk.step, hterm, hline]
      | some s =>
        rw [Desk.step_rx_line fw bs g hterm hline]
        by_cases hok : (fw.judge s).1 = .ok <;>
          simp [acceptedFrom, lines, Desk.accepts, Desk.line, Option.filter, hterm, hline, hok]
    · simp [acceptedFrom, lines, Desk.accepts, Desk.step, hterm]

theorem step_storage (d : Desk β) {e : GateEvent β} (htouch : ∀ storage, e ≠ .swap storage) :
    (d.step fw bs e).storage = (d.accepts fw e).elim d.storage (bs.save · d.storage) := by
  cases e with
  | boot g => rfl
  | swap storage => exact absurd rfl (htouch storage)
  | rx g ch =>
    by_cases hterm : isTerm ch = true
    · cases hline : lineOf d.typed with
      | none => simp [Desk.accepts, Desk.step, hterm, hline]
      | some s =>
        rw [Desk.step_rx_line fw bs g hterm hline]
        by_cases hok : (fw.judge s).1 = .ok <;>
          simp [Desk.accepts, Desk.line, Option.filter, hterm, hline, hok]
    · simp [Desk.accepts, Desk.step, hterm]

/-- The storage loads what the last line that verified was. -/
theorem run_loads (hkeeps : bs.Keeps) (es : List (GateEvent β)) : ∀ d : Desk β, Untouched es →
    (∀ s ∈ acceptedFrom fw d.typed es, s.bytes.length < VL_BLOB_STR_BUF_LEN) →
    bs.load VL_BLOB_STR_BUF_LEN (es.foldl (Desk.step fw bs) d).storage =
      (acceptedFrom fw d.typed es).getLast?.or (bs.load VL_BLOB_STR_BUF_LEN d.storage) := by
  induction es with
  | nil => exact fun d _ _ => rfl
  | cons e es ih =>
    intro d htouch hshort
    obtain ⟨hhead, htail⟩ := List.forall_mem_cons.mp htouch
    rw [acceptedFrom_cons bs] at hshort ⊢
    obtain ⟨hnow, hlater⟩ := List.forall_mem_append.mp hshort
    rw [List.foldl_cons, ih _ htail hlater, step_storage d hhead, List.getLast?_append]
    cases haccepts : d.accepts fw e with
    | none => simp
    | some s =>
      have hfits : s.bytes.length < VL_BLOB_STR_BUF_LEN := hnow s (by simp [haccepts])
      rw [Option.elim_some, hkeeps s d.storage hfits, Option.or_assoc]
      rfl

theorem boot_shows (fw : Firmware) (bs : BoardSupport β) {m : Gate β} {d : Desk β} (h : Shows m d)
    (g : Garbage) :
    ∃ m', m.step fw bs (.boot g) = some m' ∧
      (m'.status, m'.license) = bootVerdict fw bs d.storage := by
  obtain ⟨m', hstep, h'⟩ := step_shows fw bs h (.boot g)
  exact ⟨m', hstep, h'.verdict⟩

/-- **A power cycle comes back to the last line that verified**: as long as nobody exchanges
the blob and the lines that verified fit the storage, the verdict after it is the one on the
last of them, or on what was stored at first; lines refused since then, and whatever verdict
they left in force, are forgotten. -/
theorem gate_persists (fw : Firmware) (bs : BoardSupport β) (hkeeps : bs.Keeps) (storage : β)
    (printed : List String) (es : List (GateEvent β)) (htouch : Untouched es)
    (hshort : ∀ s ∈ acceptedFrom fw [] es, s.bytes.length < VL_BLOB_STR_BUF_LEN) (g : Garbage) :
    ∃ m m', (Gate.powerOn storage printed).run fw bs es = some m ∧
      m.step fw bs (.boot g) = some m' ∧
      (m'.status, m'.license) =
        (acceptedFrom fw [] es).getLast?.elim (bootVerdict fw bs storage) fw.judge ∧
      (gateLicensed m' = true ↔
        acceptedFrom fw [] es ≠ [] ∨ (bootVerdict fw bs storage).1 = .ok) := by
  obtain ⟨m, hrun, hshows⟩ := run_shows fw bs es (powerOn_shows storage printed)
  obtain ⟨m', hstep, hverdict⟩ := boot_shows fw bs hshows g
  have hloads := run_loads hkeeps es (Desk.off storage) htouch hshort
  have hall : ∀ s ∈ acceptedFrom fw [] es, (fw.judge s).1 = .ok := by
    intro s hs
    simpa using (List.mem_filter.mp hs).2
  have hcome : (m'.status, m'.license) =
      (acceptedFrom fw [] es).getLast?.elim (bootVerdict fw bs storage) fw.judge := by
    have htyped : (Desk.off storage).typed = [] := rfl
    rw [hverdict, bootVerdict, hloads, htyped]
    cases (acceptedFrom fw [] es).getLast? <;> rfl
  refine ⟨m, m', hrun, hstep, hcome, ?_⟩
  have hstatus := congrArg Prod.fst hcome
  dsimp only at hstatus
  rw [gateLicensed, decide_eq_true_eq, hstatus]
  cases hlast : (acceptedFrom fw [] es).getLast? with
  | none =>
    have hnone : acceptedFrom fw [] es = [] := List.getLast?_eq_none_iff.mp hlast
    simp [hnone]
  | some s =>
    have hmem := List.mem_of_getLast? hlast
    exact iff_of_true (hall s hmem) (.inl (List.ne_nil_of_mem hmem))

/-! ## Typing a line -/

/-- The bytes `bs`, received one after another. -/
def Types (es : List (GateEvent β)) (bytes : List UInt8) : Prop :=
  List.Forall₂ (fun e ch => ∃ g, e = .rx g ch) es bytes

/-- Nothing but the unfinished line changes until a terminator. -/
theorem types_line {es : List (GateEvent β)} {bytes : List UInt8} (h : Types es bytes) :
    ∀ d : Desk β, (∀ ch ∈ bytes, isTerm ch = false) →
      es.foldl (Desk.step fw bs) d = { d with typed := d.typed ++ bytes } := by
  induction h with
  | nil => intro d _; simp
  | @cons e ch es bytes he _ ih =>
    intro d hplain
    obtain ⟨hch, hplain⟩ := List.forall_mem_cons.mp hplain
    obtain ⟨g, rfl⟩ := he
    have hstep : d.step fw bs (.rx g ch) = { d with typed := d.typed ++ [ch] } := by
      simp only [Desk.step, hch]
      rfl
    rw [List.foldl_cons, hstep, ih _ hplain, List.append_assoc, List.singleton_append]

omit [Target] in
/-- The tool's characters are a line as they stand. -/
theorem lineOf_blob {blob : CStr} (hlen : blob.bytes.length = 160)
    (halpha : ∀ ch ∈ blob.bytes, ch ∈ ENC_ALPHA) :
    (∀ ch ∈ blob.bytes, isTerm ch = false) ∧ lineOf blob.bytes = some blob := by
  have hplain : ∀ ch ∈ ENC_ALPHA, isTerm ch = false ∧ isBlank ch = false := by
    decide +kernel
  have hcontent : content blob.bytes = blob.bytes := by
    refine List.filter_eq_self.mpr fun ch hch => ?_
    rw [(hplain ch (halpha ch hch)).2]
    rfl
  refine ⟨fun ch hch => (hplain ch (halpha ch hch)).1, ?_⟩
  have hfits : ¬ (blob.bytes = [] ∨ VL_LINE_MAX_LEN < blob.bytes.length) := by
    rintro (hnil | hlong)
    · rw [hnil] at hlen
      cases hlen
    · rw [hlen] at hlong
      exact absurd hlong (by decide)
  rw [lineOf, hcontent, if_neg hfits, Option.some.injEq]
  refine CStr.ext_bytes (List.takeWhile_eq_self_iff.mpr fun ch hch => ?_)
  simpa using fun h0 : ch = 0 => blob.nonul (h0 ▸ hch)

/-! ## Activation -/

theorem judge_minted {seed : Vector UInt8 32} {terms : Terms} {segs : List (List UInt8)}
    {blob : CStr} {sig : Vector UInt8 64} {k : VlPubkey}
    (hsegs : (Board.baremetal fw.page).segments = some segs) (hfamily : terms.family = 3)
    (hkey : fw.keys.find? (fun k => k.keyId = terms.keyId) = some k) (hpk : k.key = publicKey seed)
    (hcarries : ∀ stack, Carries (deviceCrypto stack) (publicKey seed) terms
      (sha256 (preimage segs)) blob sig) :
    fw.judge blob = (.ok, terms.license (deviceIdOf (sha256 (preimage segs)))
      (VL_CHECKED_SIGNATURE ||| VL_CHECKED_DEVICE)) := by
  have htrust : Trusts fw.cfg (publicKey seed) terms :=
    ⟨⟨fw.keys, k, rfl, hkey, hpk⟩, hfamily.symm, by simp [NotRevoked, Firmware.cfg], rfl⟩
  have hrun := identityRun_genuine zeroStack (board_yields hsegs identityOnly
    (fun _ _ => Vector.replicate 255 0) ())
  rw [segmentsFp_board hsegs] at hrun
  have hval := (hcarries zeroStack).clockless htrust hrun rfl rfl (some VlLicense.zero)
  rw [Firmware.judge, Firmware.verify]
  simp only [Firmware.hal, hval, Option.map_some, Option.getD_some]
  exact congrArg (fun checked => (VlStatus.ok, terms.license _ checked))
    (checkedBits_eq fw ⟨zeroStack, fun _ _ => Vector.replicate 255 0⟩)

/-- **Activation, from the display to the next power cycle.** The id that the gate displays,
given to `issue` with any terms for family 3 under a key compiled in, yields a blob; typed
at the start of a line, after any run whatsoever, it opens the gate with the features issued,
and where the storage keeps it the gate comes up open with the same licence. -/
theorem gate_activation (fw : Firmware) (bs : BoardSupport β) (lib : Ed25519Lib)
    (seed : Vector UInt8 32) (hsign : ∀ msg, lib.sign seed msg = sign seed msg)
    (hpub : lib.pubkeyOf seed = publicKey seed)
    (hself : ∀ msg, lib.verify (publicKey seed) (sign seed msg) msg = true)
    (segs : List (List UInt8)) (hsegs : (Board.baremetal fw.page).segments = some segs)
    (terms : Terms) (hterms : terms.Ordered) (hfamily : terms.family = 3) (k : VlPubkey)
    (hkey : fw.keys.find? (fun k => k.keyId = terms.keyId) = some k)
    (hpk : k.key = publicKey seed) :
    ∃ id : CStr,
      (∀ g cap, 27 ≤ cap → gateDeviceId fw g cap = (.ok, seqWrites (id.bytes ++ [0]))) ∧
      ∀ a : IssueArgs, a.Names (text id) terms →
        ∃ blob : CStr, cmdIssue lib seed a = .ok (text blob) ∧
          ∀ (storage : β) (printed : List String) (es typing : List (GateEvent β)) (g : Garbage)
            (close : UInt8), (es.foldl (Desk.step fw bs) (Desk.off storage)).typed = [] →
            Types typing blob.bytes → isTerm close = true →
            ∃ m, (Gate.powerOn storage printed).run fw bs (es ++ (typing ++ [.rx g close])) = some m ∧
              gateLicensed m = true ∧
              (∀ bit, gateAllows m bit = true ↔
                bit.toNat < 32 ∧ terms.features.toNat.testBit bit.toNat = true) ∧
              (bs.Keeps → ∀ g', ∃ m', m.step fw bs (.boot g') = some m' ∧
                m'.status = .ok ∧ m'.license = m.license) := by
  obtain ⟨id, hid, hshown⟩ := gateDeviceId_eq hsegs
  refine ⟨id, hshown, fun a hnames => ?_⟩
  obtain ⟨blob, hblob, hchars, halpha, sig, hcarries⟩ :=
    exists_minted seed terms (sha256 (preimage segs))
  have hdev : (deviceIdOf (sha256 (preimage segs))).toList.length = 16 := by simp
  rw [← deviceIdOf_toList] at hid
  have hissue := cmdIssue_terms hdev (hid ▸ hnames) hterms fun msg => by
    rw [hpub, hsign]
    exact hself msg
  rw [hsign] at hissue
  refine ⟨blob, hissue.trans (congrArg Except.ok hblob.symm), ?_⟩
  intro storage printed es typing g close hstart htyping hclose
  have hjudge := judge_minted hsegs hfamily hkey hpk hcarries
  obtain ⟨hplain, hline⟩ := lineOf_blob hchars halpha
  obtain ⟨m, hrun, hshows⟩ := run_shows fw bs (es ++ (typing ++ [.rx g close]))
    (powerOn_shows storage printed)
  rw [List.foldl_append, List.foldl_append, types_line htyping _ hplain, hstart, List.nil_append,
    List.foldl_cons, List.foldl_nil, Desk.step_rx_line fw bs g hclose hline] at hshows
  have hverdict : (m.status, m.license) = _ := hshows.verdict.trans hjudge
  obtain ⟨hstatus, hlicense⟩ := Prod.mk.inj hverdict
  refine ⟨m, hrun, by simp [gateLicensed, hstatus], fun bit => ?_, fun hkeeps g' => ?_⟩
  · simp only [gateAllows, hstatus, decide_true, Bool.true_and, decide_eq_true_eq, vlHasFeature_iff,
      hlicense]
    rfl
  · obtain ⟨m', hboot, hverdict'⟩ := boot_shows fw bs hshows g'
    have hstored : bs.load VL_BLOB_STR_BUF_LEN
        (Desk.line fw bs { (es.foldl (Desk.step fw bs) (Desk.off storage)) with
          typed := blob.bytes } blob).storage = some blob := by
      simp only [Desk.line, hjudge, if_true]
      exact hkeeps blob _ (by rw [hchars]; decide)
    rw [bootVerdict, hstored] at hverdict'
    obtain ⟨hstatus', hlicense'⟩ := Prod.mk.inj (hverdict'.trans hjudge)
    exact ⟨m', hboot, hstatus', hlicense'.trans hlicense.symm⟩

/-! ## A board of the suite's vendor -/

/-- A storage of one string. -/
def oneSlot : BoardSupport (Option CStr) where
  load cap st := st.filter fun s => s.bytes.length < cap
  save s _ := some s

omit [Target] in
theorem oneSlot_keeps : oneSlot.Keeps := by
  intro s st h
  simp [oneSlot, h]

def suiteFw : Firmware where
  page :=
    ⟨#v[0x2A, 0x00, 0x31, 0x00, 0x0F, 0x51, 0x38, 0x30, 0x36, 0x39, 0x36, 0x37],
      #v[0x00, 0x00, 0x10, 0x92]⟩
  keys := [⟨7, publicKey FIX_SEED⟩]

/-- Feature 0, for family 3. -/
def suiteTerms : Terms := ⟨7, 3, 1, 1700000000, 1800000000, 1002⟩

def zeroGarbage : Garbage := ⟨zeroStack, fun _ _ => Vector.replicate 255 0⟩

/-- A line feed behind the bytes. -/
def typeLine (bytes : List UInt8) : List (GateEvent (Option CStr)) :=
  bytes.map (.rx zeroGarbage) ++ [.rx zeroGarbage 0x0A]

omit [Target] in
theorem lines_typeLine {bytes : List UInt8} (hplain : ∀ ch ∈ bytes, isTerm ch = false) :
    ∀ typed, lines typed (typeLine bytes) = (lineOf (typed ++ bytes)).toList := by
  induction bytes with
  | nil => intro typed; simp [typeLine, lines, isTerm]
  | cons ch bytes ih =>
    intro typed
    obtain ⟨hch, hplain⟩ := List.forall_mem_cons.mp hplain
    have hrest := ih hplain (typed ++ [ch])
    rw [List.append_assoc, List.singleton_append] at hrest
    rw [typeLine, List.map_cons, List.cons_append, lines, if_neg (by simp [hch])]
    exact hrest

omit [Target] in
theorem types_map (bytes : List UInt8) :
    Types (bytes.map (GateEvent.rx zeroGarbage) : List (GateEvent (Option CStr))) bytes := by
  induction bytes with
  | nil => exact .nil
  | cons ch bytes ih => exact .cons ⟨zeroGarbage, rfl⟩ ih

end

theorem suite_segments : ∃ segs, (Board.baremetal suiteFw.page).segments = some segs := ⟨_, rfl⟩

/-- The board's licence is issued, typed and accepted. -/
theorem gate_activation_suite : ∃ id blob : CStr,
    cmdIssue rfcLib FIX_SEED { windowedArgs with family := 3, deviceId := text id } =
      .ok (text blob) ∧
    ∃ m, @Gate.run host64 _ suiteFw oneSlot (Gate.powerOn none []) (typeLine blob.bytes) = some m ∧
      gateLicensed m = true := by
  let _ : Target := host64
  obtain ⟨segs, hsegs⟩ := suite_segments
  obtain ⟨id, -, hissue⟩ := gate_activation suiteFw oneSlot rfcLib FIX_SEED (fun _ => rfl) rfl
    (fun msg => by simp [rfcLib]) segs hsegs suiteTerms (by decide) rfl ⟨7, publicKey FIX_SEED⟩ rfl rfl
  obtain ⟨blob, hmint, htyped⟩ := hissue { windowedArgs with family := 3, deviceId := text id }
    ⟨rfl, rfl, rfl, rfl, rfl, rfl, parseWhen_epoch _ _, parseWhen_epoch _ _⟩
  obtain ⟨m, hrun, hok, -⟩ := htyped none [] [] _ zeroGarbage 0x0A rfl (types_map blob.bytes) rfl
  exact ⟨id, blob, hmint, m, hrun, hok⟩

/-- A power cycle comes back to that licence. -/
theorem gate_persists_suite : ∃ blob : CStr, ∃ m m',
    @Gate.run host64 _ suiteFw oneSlot (Gate.powerOn none []) (typeLine blob.bytes) = some m ∧
    @Gate.step host64 _ suiteFw oneSlot m (.boot zeroGarbage) = some m' ∧
    (m'.status, m'.license) = @Firmware.judge host64 suiteFw blob ∧ gateLicensed m' = true := by
  let _ : Target := host64
  obtain ⟨segs, hsegs⟩ := suite_segments
  obtain ⟨blob, -, hchars, halpha, sig, hcarries⟩ :=
    exists_minted FIX_SEED suiteTerms (sha256 (preimage segs))
  obtain ⟨hplain, hline⟩ := lineOf_blob hchars halpha
  have hjudge := judge_minted (k := ⟨7, publicKey FIX_SEED⟩) hsegs rfl rfl rfl hcarries
  have haccepted : acceptedFrom suiteFw [] (typeLine blob.bytes) = [blob] := by
    rw [acceptedFrom, lines_typeLine hplain, List.nil_append, hline]
    simp [hjudge]
  have huntouched : Untouched (typeLine blob.bytes) := by
    intro e he storage
    rcases List.mem_append.mp he with he | he
    · obtain ⟨ch, -, rfl⟩ := List.mem_map.mp he
      simp
    · obtain rfl := List.mem_singleton.mp he
      simp
  obtain ⟨m, m', hrun, hboot, hverdict, hok⟩ := gate_persists suiteFw oneSlot oneSlot_keeps none []
    (typeLine blob.bytes) huntouched
    (by rw [haccepted]; simp [hchars, VL_BLOB_STR_BUF_LEN, L6.VL_BLOB_STR_LEN]) zeroGarbage
  rw [haccepted] at hverdict hok
  exact ⟨blob, m, m', hrun, hboot, hverdict, hok.mpr (.inl (by simp))⟩

end VectiLicense.L8
