import VectiLicense.Core.Mem
import VectiLicense.L0Api.Header

/-!
# Line framing: `transport/vl_line.c`

`vlLinePush` takes one received byte. Three fields encode where in a line the
framer stands and are cleared lazily: `ready` on the push after a line was
handed up, `overflow` and `len` at the terminator that ends an overlong line.
Stores into `buf` are checked, so a push that answers has written nothing else.

The reference is a batch: split the stream at every CR and LF
(`List.splitOnP`), drop the blanks of each piece, and answer `reference` for
each piece that a terminator closed.

* `Holds p l` computes what the state must be from the bytes `p` of the
  unfinished line alone; `push_spec` is one push, `pushAll_spec` a stream.
* `push_refines`: from a zeroed or reset state, every stream gets exactly the
  reference's answers.
-/
namespace VectiLicense.L2.Line

open VectiLicense.Core VectiLicense.L0

/-- mirrors transport/vl_line.h:57-59 -/
def VL_LINE_MAX_LEN : Nat := 200

/-- mirrors transport/vl_line.h:61-66 -/
structure VlLine where
  buf : Buf 201
  len : Nat
  ready : UInt8
  overflow : UInt8
  deriving DecidableEq, Repr

/-- A zeroed `vl_line_t`. -/
def VlLine.zero : VlLine := ⟨Vector.replicate 201 0, 0, 0, 0⟩

/-- mirrors transport/vl_line.c:13-20 -/
def vlLineReset : Option VlLine → Option (Option VlLine)
  | none => some none
  | some l => (l.buf.store? 0 0).map fun buf => some { buf, len := 0, ready := 0, overflow := 0 }

/-- `if (l->ready != 0u) { … }`: the byte belongs to the next line.
mirrors transport/vl_line.c:29-33 -/
def handUp (l : VlLine) : Option VlLine :=
  if l.ready ≠ 0 then
    (l.buf.store? 0 0).map fun buf => { l with buf, len := 0, ready := 0 }
  else some l

/-- The rest of `vl_line_push`, on a state with no line in it.
mirrors transport/vl_line.c:35-61 -/
def pushByte (l : VlLine) (u : UInt8) : Option (VlStatus × VlLine) :=
  if u = 0x0A ∨ u = 0x0D then
    if l.overflow ≠ 0 then some (.errBadFormat, { l with overflow := 0, len := 0 })
    else if l.len = 0 then some (.errNotFound, l)
    else (l.buf.store? l.len 0).map fun buf => (.ok, { l with buf, ready := 1 })
  else if u = 0x20 ∨ u = 0x09 ∨ u = 0x0B ∨ u = 0x0C then some (.errNotFound, l)
  else if l.overflow ≠ 0 then some (.errNotFound, l)
  else if l.len ≥ VL_LINE_MAX_LEN then
    (l.buf.store? 0 0).map fun buf => (.errNotFound, { l with buf, overflow := 1, len := 0 })
  else (l.buf.store? l.len u).map fun buf => (.errNotFound, { l with buf, len := l.len + 1 })

/-- `none` is a store outside `l->buf`.
mirrors transport/vl_line.c:22-62 -/
def vlLinePush : Option VlLine → UInt8 → Option (VlStatus × Option VlLine)
  | none, _ => some (.errInvalidArg, none)
  | some l, ch =>
    (handUp l).bind fun l => (pushByte l ch).map fun (st, l) => (st, some l)

/-- A stream, one byte at a time: each push's status and the state after it. -/
def pushAll (l : VlLine) : List UInt8 → Option (List (VlStatus × VlLine))
  | [] => some []
  | ch :: s =>
    match vlLinePush (some l) ch with
    | some (st, some l') => (pushAll l' s).map ((st, l') :: ·)
    | _ => none

/-! ## The reference splitter -/

/-- CR and LF. -/
def isTerm (c : UInt8) : Bool := c = 0x0A ∨ c = 0x0D

/-- Space, tab, VT and FF. -/
def isBlank (c : UInt8) : Bool := c = 0x20 ∨ c = 0x09 ∨ c = 0x0B ∨ c = 0x0C

/-- A piece without its blanks. -/
def content (piece : List UInt8) : List UInt8 := piece.filter fun c => !isBlank c

/-- The pieces of a stream that a terminator has closed. -/
def closedPieces (s : List UInt8) : List (List UInt8) := (s.splitOnP isTerm).dropLast

/-- A status, and with `VL_OK` the line's length and the bytes up to its NUL. -/
abbrev Report := VlStatus × Option (Nat × List UInt8)

/-- What the terminator that closes `piece` has to return. -/
def reference (piece : List UInt8) : Report :=
  if VL_LINE_MAX_LEN < (content piece).length then (.errBadFormat, none)
  else if content piece = [] then (.errNotFound, none)
  else (.ok, some ((content piece).length, content piece ++ [0]))

/-- What the caller of a push sees: with `VL_OK`, `l->len` and `l->buf[0 .. len]`. -/
def observe (o : VlStatus × VlLine) : Report :=
  (o.1, if o.1 = .ok then some (o.2.len, o.2.buf.toList.take (o.2.len + 1)) else none)

/-! ## The state of an unfinished line -/

/-- The state between lines or inside one, after the bytes `p` of the
unfinished line: collecting, or discarding an overlong line. -/
def Open (p : List UInt8) (l : VlLine) : Prop :=
  l.ready = 0 ∧
    (((content p).length ≤ VL_LINE_MAX_LEN ∧ l.overflow = 0 ∧ l.len = (content p).length ∧
        l.buf.toList.take l.len = content p) ∨
      (VL_LINE_MAX_LEN < (content p).length ∧ l.overflow ≠ 0 ∧ l.len = 0))

/-- `Open`, or a line was just handed up and nothing of the next has come. -/
def Holds (p : List UInt8) (l : VlLine) : Prop :=
  Open p l ∨ (p = [] ∧ l.ready ≠ 0 ∧ l.overflow = 0)

theorem content_concat (p : List UInt8) (c : UInt8) :
    content (p ++ [c]) = content p ++ (if isBlank c then [] else [c]) := by
  cases h : isBlank c <;> simp [content, h]

theorem handUp_spec {p : List UInt8} {l : VlLine} (h : Holds p l) :
    ∃ l', handUp l = some l' ∧ Open p l' := by
  unfold handUp
  rcases h with h | ⟨rfl, hr, ho⟩
  · rw [if_neg (by simpa using h.1)]
    exact ⟨l, rfl, h⟩
  · rw [if_pos hr, Buf.store?_eq (by decide)]
    exact ⟨_, rfl, rfl, .inl ⟨Nat.zero_le _, ho, rfl, rfl⟩⟩

theorem open_len {p : List UInt8} {l : VlLine} (h : Open p l) : l.len ≤ VL_LINE_MAX_LEN := by
  obtain ⟨-, ⟨h₁, -, h₂, -⟩ | ⟨-, -, h₂⟩⟩ := h <;> omega

/-- A terminator answers for the line it closes and leaves a fresh state. -/
theorem pushByte_term {p : List UInt8} {l : VlLine} (h : Open p l) {c : UInt8}
    (hc : isTerm c = true) :
    ∃ st l', pushByte l c = some (st, l') ∧ l'.len ≤ VL_LINE_MAX_LEN ∧
      observe (st, l') = reference p ∧ Holds [] l' := by
  have hlen := open_len h
  obtain ⟨hr, ⟨hle, ho, hl, hb⟩ | ⟨hgt, ho, hl⟩⟩ := h
  · have hc' : c = 0x0A ∨ c = 0x0D := by simpa [isTerm] using hc
    have hfit : l.len < 201 := by unfold VL_LINE_MAX_LEN at hle; omega
    unfold pushByte reference
    rw [if_pos hc', if_neg (by simpa using ho), if_neg (show ¬ VL_LINE_MAX_LEN < _ by omega)]
    by_cases h0 : l.len = 0
    · have hnil : content p = [] := List.length_eq_zero_iff.mp (by omega)
      rw [if_pos h0, if_pos hnil]
      refine ⟨_, l, rfl, hlen, rfl, .inl ⟨hr, .inl ⟨Nat.zero_le _, ho, h0, ?_⟩⟩⟩
      rw [h0]
      rfl
    · have hne : content p ≠ [] := fun hn => h0 (by rw [hl, hn]; rfl)
      rw [if_neg h0, if_neg hne, Buf.store?_eq hfit]
      refine ⟨_, _, rfl, hlen, ?_, .inr ⟨rfl, by simp, ho⟩⟩
      have htake : (l.buf.set l.len 0).toList.take (l.len + 1) = _ := Buf.take_set_succ hfit 0
      rw [hb] at htake
      simp only [observe, if_true]
      rw [htake, hl]
  · have hc' : c = 0x0A ∨ c = 0x0D := by simpa [isTerm] using hc
    unfold pushByte reference
    rw [if_pos hc', if_pos ho, if_pos hgt]
    exact ⟨_, _, rfl, Nat.zero_le _, rfl, .inl ⟨hr, .inl ⟨Nat.zero_le _, rfl, rfl, rfl⟩⟩⟩

/-- Any other byte extends the unfinished line. -/
theorem pushByte_other {p : List UInt8} {l : VlLine} (h : Open p l) {c : UInt8}
    (hc : isTerm c = false) :
    ∃ l', pushByte l c = some (.errNotFound, l') ∧ Open (p ++ [c]) l' := by
  have hc' : ¬ (c = 0x0A ∨ c = 0x0D) := by simpa [isTerm] using hc
  unfold pushByte Open
  rw [if_neg hc', content_concat]
  by_cases hb : c = 0x20 ∨ c = 0x09 ∨ c = 0x0B ∨ c = 0x0C
  · have hblank : isBlank c = true := by simpa [isBlank] using hb
    rw [if_pos hb, if_pos hblank, List.append_nil]
    exact ⟨l, rfl, h⟩
  · have hblank : ¬ (isBlank c = true) := by simpa [isBlank] using hb
    rw [if_neg hb, if_neg hblank, List.length_append, List.length_singleton]
    obtain ⟨hr, ⟨hle, ho, hl, hbuf⟩ | ⟨hgt, ho, hl⟩⟩ := h
    · rw [if_neg (by simpa using ho)]
      by_cases hfull : l.len ≥ VL_LINE_MAX_LEN
      · -- the character that makes the line too long drops what was collected
        rw [if_pos hfull, Buf.store?_eq (by decide)]
        exact ⟨_, rfl, hr, .inr ⟨by omega, by simp, rfl⟩⟩
      · have hfit : l.len < 201 := by unfold VL_LINE_MAX_LEN at hle; omega
        rw [if_neg hfull, Buf.store?_eq hfit]
        refine ⟨_, rfl, hr, .inl ⟨by omega, ho, by simp only [hl], ?_⟩⟩
        simp only [Buf.take_set_succ hfit, hbuf]
    · rw [if_pos ho]
      exact ⟨l, rfl, hr, .inr ⟨by omega, ho, hl⟩⟩

theorem push_spec {p : List UInt8} {l : VlLine} (h : Holds p l) (c : UInt8) :
    ∃ st l', vlLinePush (some l) c = some (st, some l') ∧ l'.len ≤ VL_LINE_MAX_LEN ∧
      (isTerm c = true → observe (st, l') = reference p ∧ Holds [] l') ∧
      (isTerm c = false → st = .errNotFound ∧ Holds (p ++ [c]) l') := by
  obtain ⟨l₁, hup, hopen⟩ := handUp_spec h
  cases hc : isTerm c with
  | true =>
    obtain ⟨st, l', hp, hlen, hobs, hh⟩ := pushByte_term hopen hc
    refine ⟨st, l', ?_, hlen, fun _ => ⟨hobs, hh⟩, fun h => by cases h⟩
    simp only [vlLinePush, hup, Option.bind_some, hp, Option.map_some]
  | false =>
    obtain ⟨l', hp, hopen'⟩ := pushByte_other hopen hc
    refine ⟨.errNotFound, l', ?_, open_len hopen', fun h => (by cases h), fun _ =>
      ⟨rfl, .inl hopen'⟩⟩
    simp only [vlLinePush, hup, Option.bind_some, hp, Option.map_some]

/-- No line in progress. -/
def Idle (l : VlLine) : Prop := l.overflow = 0 ∧ (l.ready ≠ 0 ∨ l.len = 0)

theorem holds_nil_iff {l : VlLine} : Holds [] l ↔ Idle l := by
  refine ⟨?_, ?_⟩
  · intro h
    rcases h with ⟨-, ⟨-, ho, hl, -⟩ | ⟨hlong, -⟩⟩ | ⟨-, hr, ho⟩
    · exact ⟨ho, .inr hl⟩
    · cases hlong
    · exact ⟨ho, .inl hr⟩
  · intro h
    obtain ⟨ho, hidle⟩ := h
    by_cases hr : l.ready = 0
    · have hl : l.len = 0 := hidle.resolve_left (not_not_intro hr)
      exact .inl ⟨hr, .inl ⟨Nat.zero_le _, ho, hl, by rw [hl]; rfl⟩⟩
    · exact .inr ⟨rfl, hr, ho⟩

/-! ## Streams -/

/-- A line and its terminator: nothing but the terminator is answered, and no
line is in progress after it. -/
theorem pushAll_line (s : List UInt8) : ∀ (p : List UInt8) (l : VlLine) (c : UInt8), Holds p l →
    (∀ x ∈ s, isTerm x = false) → isTerm c = true →
    ∃ outs st last, pushAll l (s ++ [c]) = some (outs ++ [(st, last)]) ∧
      (∀ o ∈ outs, o.1 = .errNotFound) ∧ observe (st, last) = reference (p ++ s) ∧ Idle last := by
  induction s with
  | nil =>
    intro p l c h _ hc
    obtain ⟨st, last, hp, -, hterm, -⟩ := push_spec h c
    obtain ⟨hobs, hh⟩ := hterm hc
    refine ⟨[], st, last, ?_, by simp, by rw [List.append_nil]; exact hobs, holds_nil_iff.mp hh⟩
    simp only [List.nil_append, pushAll, hp, Option.map_some]
  | cons x s ih =>
    intro p l c h hs hc
    obtain ⟨hx, hs⟩ := List.forall_mem_cons.mp hs
    obtain ⟨st₁, l₁, hp, -, -, hother⟩ := push_spec h x
    obtain ⟨hst, hh⟩ := hother hx
    obtain ⟨outs, st, last, ho, hquiet, hobs, hidle⟩ := ih (p ++ [x]) l₁ c hh hs hc
    rw [List.append_assoc, List.singleton_append] at hobs
    refine ⟨(st₁, l₁) :: outs, st, last, ?_, List.forall_mem_cons.mpr ⟨hst, hquiet⟩, hobs, hidle⟩
    simp only [List.cons_append, pushAll, hp, ho, Option.map_some]

/-- The answers `outs` to the stream `s` are those of the reference for `pieces`. -/
structure Refines (s : List UInt8) (outs : List (VlStatus × VlLine)) (pieces : List (List UInt8)) :
    Prop where
  length : outs.length = s.length
  quiet : ∀ x ∈ s.zip outs, isTerm x.1 = false → x.2.1 = .errNotFound
  bounded : ∀ o ∈ outs, o.2.len ≤ VL_LINE_MAX_LEN
  reports : ((s.zip outs).filter fun x => isTerm x.1).map (fun x => observe x.2) =
    pieces.map reference

theorem pushAll_spec (s : List UInt8) : ∀ (p : List UInt8) (l : VlLine), Holds p l →
    ∃ outs, pushAll l s = some outs ∧
      Refines s outs (List.splitOnPPrepend isTerm s p.reverse).dropLast := by
  induction s with
  | nil => intro p l _; exact ⟨[], rfl, rfl, by simp, by simp, rfl⟩
  | cons c s ih =>
    intro p l h
    obtain ⟨st, l', hp, hlen, hterm, hother⟩ := push_spec h c
    cases hc : isTerm c with
    | true =>
      obtain ⟨hobs, hh⟩ := hterm hc
      obtain ⟨outs, ho, href⟩ := ih [] l' hh
      refine ⟨(st, l') :: outs, by simp only [pushAll, hp, ho, Option.map_some], ?_⟩
      rw [List.splitOnPPrepend_cons_pos hc, List.reverse_reverse,
        List.dropLast_cons_of_ne_nil (List.splitOnP_ne_nil _ _)]
      refine ⟨by simp [href.length], ?_, ?_, ?_⟩
      · intro x hx hx'
        rcases List.mem_cons.mp (List.zip_cons_cons ▸ hx) with rfl | hx
        · exact absurd hc (by simpa using hx')
        · exact href.quiet x hx hx'
      · exact List.forall_mem_cons.mpr ⟨hlen, href.bounded⟩
      · rw [List.zip_cons_cons, List.filter_cons_of_pos (by simpa using hc), List.map_cons,
          List.map_cons, href.reports, hobs]
        rfl
    | false =>
      obtain ⟨hst, hh⟩ := hother hc
      obtain ⟨outs, ho, href⟩ := ih (p ++ [c]) l' hh
      refine ⟨(st, l') :: outs, by simp only [pushAll, hp, ho, Option.map_some], ?_⟩
      rw [List.splitOnPPrepend_cons_neg hc]
      rw [List.reverse_append, List.reverse_singleton, List.singleton_append] at href
      refine ⟨by simp [href.length], ?_, ?_, ?_⟩
      · intro x hx hx'
        rcases List.mem_cons.mp (List.zip_cons_cons ▸ hx) with rfl | hx
        · exact hst
        · exact href.quiet x hx hx'
      · exact List.forall_mem_cons.mpr ⟨hlen, href.bounded⟩
      · rw [List.zip_cons_cons, List.filter_cons_of_neg (by simp [hc]), href.reports]

/-- A zeroed state, or one just reset. -/
def Fresh (l : VlLine) : Prop := l = VlLine.zero ∨ ∃ l₀, vlLineReset (some l₀) = some (some l)

theorem fresh_holds {l : VlLine} (h : Fresh l) : Holds [] l := by
  rcases h with rfl | ⟨l₀, h⟩
  · exact .inl ⟨rfl, .inl ⟨Nat.zero_le _, rfl, rfl, rfl⟩⟩
  · rw [vlLineReset, Buf.store?_eq (by decide), Option.map_some, Option.some.injEq,
      Option.some.injEq] at h
    subst h
    exact .inl ⟨rfl, .inl ⟨Nat.zero_le _, rfl, rfl, rfl⟩⟩

theorem Refines.overlong {s : List UInt8} {outs : List (VlStatus × VlLine)}
    {pieces : List (List UInt8)} (h : Refines s outs pieces) :
    (outs.map Prod.fst).count .errBadFormat =
      pieces.countP fun p => VL_LINE_MAX_LEN < (content p).length := by
  have hbad : ∀ p : List UInt8, ((reference p).1 == VlStatus.errBadFormat) =
      decide (VL_LINE_MAX_LEN < (content p).length) := by
    intro p
    unfold reference
    split
    · simp [*]
    · split <;> simp [*]
  have hsnd : (s.zip outs).map Prod.snd = outs := List.map_snd_zip (Nat.le_of_eq h.length)
  calc (outs.map Prod.fst).count .errBadFormat
      = (s.zip outs).countP (fun x => x.2.1 == .errBadFormat) := by
        rw [List.count, List.countP_map]
        conv => lhs; rw [← hsnd, List.countP_map]
        rfl
    _ = ((s.zip outs).filter fun x => isTerm x.1).countP (fun x => x.2.1 == .errBadFormat) := by
        rw [List.countP_filter]
        refine List.countP_congr fun x hx => ?_
        cases ht : isTerm x.1 with
        | true => simp
        | false => simp [h.quiet x hx ht]
    _ = (((s.zip outs).filter fun x => isTerm x.1).map (fun x => observe x.2)).countP
          (fun r => r.1 == .errBadFormat) := by
        rw [List.countP_map]; rfl
    _ = pieces.countP fun p => VL_LINE_MAX_LEN < (content p).length := by
        rw [h.reports, List.countP_map]
        exact List.countP_congr fun p _ => by rw [← hbad p]; rfl

/-- **The framer refines the reference splitter.** -/
theorem push_refines {l : VlLine} (h : Fresh l) (s : List UInt8) :
    ∃ outs, pushAll l s = some outs ∧ Refines s outs (closedPieces s) ∧
      (outs.map Prod.fst).count .errBadFormat =
        (closedPieces s).countP fun p => VL_LINE_MAX_LEN < (content p).length := by
  obtain ⟨outs, ho, href⟩ := pushAll_spec s [] l (fresh_holds h)
  exact ⟨outs, ho, href, href.overlong⟩

/-- `"A \rB"` into a zeroed state. -/
theorem push_refines_zero :
    Fresh VlLine.zero ∧ ∃ outs, pushAll VlLine.zero [0x41, 0x20, 0x0D, 0x42] = some outs ∧
      Refines [0x41, 0x20, 0x0D, 0x42] outs (closedPieces [0x41, 0x20, 0x0D, 0x42]) ∧
      (outs.map Prod.fst).count .errBadFormat =
        (closedPieces [0x41, 0x20, 0x0D, 0x42]).countP
          fun p => VL_LINE_MAX_LEN < (content p).length :=
  ⟨.inl rfl, push_refines (.inl rfl) [0x41, 0x20, 0x0D, 0x42]⟩

end VectiLicense.L2.Line
