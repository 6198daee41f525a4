import VectiLicense.Core.Run
import VectiLicense.L5Hal.Rp2040

/-!
# Mark and blob on an RP2040 are two registers

One record in one flash page holds both, and every store reads, changes and
rewrites all of it. What the rest of the code may take it for is a pair of
`Registers`: each store replaces one of them, each load reads one of them, and
the pair before the first store is whatever `record_read` makes of the page.

* `registers_step`, `registers_run`: the callbacks refine the pair, from any
  page.
* `hwmStore_same`: storing the current mark reads the page and leaves it alone.
* `registers_independent`: what every load answers after any sequence of stores.
-/
namespace VectiLicense.L5.Rp2040

open VectiLicense.Core VectiLicense.L0 VectiLicense.L1.Base32 VectiLicense.L3
open VlRpRecord (present)

structure Registers where
  mark : UInt32
  blob : List UInt8
  deriving DecidableEq

/-- The mark that a callback stored. -/
def storedMark? : HalEvent → Option UInt32
  | ⟨.hwmStore v, .ok⟩ => some v
  | _ => none

/-- The string that a callback stored. -/
def storedBlob? : HalEvent → Option (List UInt8)
  | ⟨.blobStore b, .ok⟩ => some b
  | _ => none

namespace Registers

/-- What a callback answers. -/
def Answers (g : Registers) : HalEvent → Prop
  | ⟨.hwmLoad, r⟩ => r = (.ok, g.mark)
  | ⟨.hwmStore _, st⟩ => st = .ok
  | ⟨.blobLoad cap, r⟩ => r = if cap = 0 then (.errInvalidArg, [])
      else if g.blob = [] then (.errNotFound, [])
      else if g.blob.length + 1 > cap then (.errBufferTooSmall, [])
      else (.ok, g.blob)
  | ⟨.blobStore b, st⟩ => st = if b.length > VL_BLOB_STR_LEN then .errBufferTooSmall else .ok
  | _ => True

/-- The pair after a callback. -/
def after (g : Registers) (ev : HalEvent) : Registers :=
  ⟨(storedMark? ev).getD g.mark, (storedBlob? ev).getD g.blob⟩

end Registers

/-- The pair that a page stands for. -/
def registers (page : Page) : Registers := ⟨(present page).hwm, (present page).content⟩

/-- One callback on the flash. -/
def FlashStep (s : Page) (ev : HalEvent) (s' : Page) : Prop := flash.lower hal ev.1 s ev.2 s'

theorem registers_step {s s' : Page} {ev : HalEvent} (h : FlashStep s ev s') :
    (registers s).Answers ev ∧ registers s' = (registers s).after ev := by
  obtain ⟨e, r⟩ := ev
  obtain ⟨t, h⟩ := h
  cases e with
  | hwmLoad =>
    obtain ⟨hr, rfl⟩ := exec_hwmLoad h
    exact ⟨hr, rfl⟩
  | hwmStore v =>
    obtain ⟨rfl, hp⟩ := exec_hwmStore h
    refine ⟨rfl, ?_⟩
    rw [registers, hp]
    rfl
  | blobLoad cap =>
    obtain ⟨rfl, hr⟩ := exec_blobLoad h
    exact ⟨hr, rfl⟩
  | blobStore b =>
    rcases exec_blobStore h with ⟨hlong, rfl, rfl⟩ | ⟨rfl, hcontent, hmark⟩
    · exact ⟨(if_pos hlong).symm, rfl⟩
    · refine ⟨?_, ?_⟩
      · have hfits : ¬ b.length > VL_BLOB_STR_LEN := by
          rw [← hcontent, VlRpRecord.content, List.length_take]
          have hlen := (valid_present s').fits
          omega
        exact (if_neg hfits).symm
      · rw [registers, hcontent, hmark]
        rfl
  | _ =>
    obtain ⟨-, hs⟩ := Prog.exec_ask.mp h
    obtain rfl : s' = s := hs
    exact ⟨trivial, rfl⟩

/-- **Any sequence of callbacks.** -/
theorem registers_run {s s' : Page} {evs : List HalEvent} (h : Run FlashStep s evs s') :
    Run (fun g ev g' => g.Answers ev ∧ g' = g.after ev) (registers s) evs (registers s') := by
  induction h with
  | nil s => exact .nil _
  | cons hstep _ ih => exact .cons (registers_step hstep) ih

/-! ## The last store of each kind -/

/-- The mark of the last successful `hwm_store`. -/
def lastMark (evs : List HalEvent) : Option UInt32 := (evs.filterMap storedMark?).getLast?

/-- The string of the last successful `blob_store`. -/
def lastBlob (evs : List HalEvent) : Option (List UInt8) := (evs.filterMap storedBlob?).getLast?

theorem getLast?_filterMap_cons {α β : Type} (f : α → Option β) (a : α) (l : List α) :
    ((a :: l).filterMap f).getLast? = (l.filterMap f).getLast?.or (f a) := by
  cases hfa : f a with
  | none => rw [List.filterMap_cons_none hfa, Option.or_none]
  | some b =>
    rw [List.filterMap_cons_some hfa, List.getLast?_cons]
    cases (l.filterMap f).getLast? <;> rfl

/-- Each register holds the last store of its own kind, or what was presented. -/
theorem registers_last {s s' : Page} {evs : List HalEvent} (h : Run FlashStep s evs s') :
    registers s' =
      ⟨(lastMark evs).getD (registers s).mark, (lastBlob evs).getD (registers s).blob⟩ := by
  induction h with
  | nil s => rfl
  | @cons s s₁ s' ev evs hstep _ ih =>
    rw [ih, (registers_step hstep).2, lastMark, lastMark, lastBlob, lastBlob,
      getLast?_filterMap_cons, getLast?_filterMap_cons, Option.getD_or, Option.getD_or]
    rfl

/-- Storing the current mark reads the page and leaves it alone. -/
theorem hwmStore_same {s s' : Page} {t : List FlashEvent} {st : VlStatus}
    (h : Prog.Exec flash (hwmStore (present s).hwm) s t st s') :
    st = .ok ∧ s' = s ∧ t = [⟨.readMapped, s⟩] := by
  obtain ⟨r, s₁, t₁, t₂, rfl, hread, hrest⟩ := Prog.exec_bind.mp h
  obtain ⟨page, s₂, t₃, t₄, rfl, hmapped, hret⟩ := Prog.exec_bind.mp hread
  obtain ⟨rfl, rfl, rfl⟩ := Prog.exec_ask.mp hmapped
  obtain ⟨rfl, rfl, rfl⟩ := Prog.exec_ret.mp hret
  rw [if_pos rfl] at hrest
  obtain ⟨rfl, rfl, rfl⟩ := Prog.exec_ret.mp hrest
  exact ⟨rfl, rfl, rfl⟩

/-! ## Independence -/

/-- What `blob_load` answers at capacity `cap`. -/
def LoadsBlob (s : Page) (cap : Nat) (r : VlStatus × List UInt8) : Prop :=
  ∃ s', FlashStep s ⟨.blobLoad cap, r⟩ s'

/-- What `hwm_load` answers. -/
def LoadsMark (s : Page) (r : VlStatus × UInt32) : Prop := ∃ s', FlashStep s ⟨.hwmLoad, r⟩ s'

theorem flash_answers (e : HalCall) (s : Page) : ∃ r s', FlashStep s ⟨e, r⟩ s' :=
  Env.lower_total flash_total hal e s

theorem loadsBlob_iff {s : Page} {cap : Nat} {r : VlStatus × List UInt8} :
    LoadsBlob s cap r ↔ (registers s).Answers ⟨.blobLoad cap, r⟩ := by
  refine ⟨fun ⟨s', h⟩ => (registers_step h).1, fun hr => ?_⟩
  obtain ⟨r', s', h⟩ := flash_answers (.blobLoad cap) s
  have hr' : (registers s).Answers ⟨.blobLoad cap, r'⟩ := (registers_step h).1
  obtain rfl : r = r' := Eq.trans hr (Eq.symm hr')
  exact ⟨s', h⟩

theorem loadsMark_iff {s : Page} {r : VlStatus × UInt32} :
    LoadsMark s r ↔ (registers s).Answers ⟨.hwmLoad, r⟩ := by
  refine ⟨fun ⟨s', h⟩ => (registers_step h).1, fun hr => ?_⟩
  obtain ⟨r', s', h⟩ := flash_answers .hwmLoad s
  have hr' : (registers s).Answers ⟨.hwmLoad, r'⟩ := (registers_step h).1
  obtain rfl : r = r' := Eq.trans hr (Eq.symm hr')
  exact ⟨s', h⟩

/-- **Mark and blob are independent**, from any page and after any sequence of
callbacks. -/
theorem registers_independent {s s' : Page} {evs : List HalEvent} (h : Run FlashStep s evs s') :
    -- a load of the mark
    (∀ r, LoadsMark s' r ↔ r = (.ok, (lastMark evs).getD (present s).hwm)) ∧
    -- a load of the blob
    (∀ b cap r, (lastBlob evs).getD (present s).content = b → b.length < cap →
      (LoadsBlob s' cap r ↔ r = if b = [] then (.errNotFound, []) else (.ok, b))) ∧
    -- a store of one leaves the loads of the other
    (∀ v st s₁, FlashStep s' ⟨.hwmStore v, st⟩ s₁ → ∀ cap r, LoadsBlob s₁ cap r ↔ LoadsBlob s' cap r) ∧
    (∀ b st s₁, FlashStep s' ⟨.blobStore b, st⟩ s₁ → ∀ r, LoadsMark s₁ r ↔ LoadsMark s' r) ∧
    -- stores succeed, but for a string that is too long
    (∀ v st s₁, FlashStep s' ⟨.hwmStore v, st⟩ s₁ → st = .ok) ∧
    (∀ b st s₁, b.length ≤ VL_BLOB_STR_LEN → FlashStep s' ⟨.blobStore b, st⟩ s₁ → st = .ok) ∧
    -- what is read is in range
    (∀ t r s₁, Prog.Exec flash recordRead s' t r s₁ → r.blobLen.toNat ≤ VL_BLOB_STR_LEN) ∧
    -- the current mark costs no erase
    ∀ t st s₁, Prog.Exec flash (hwmStore (present s').hwm) s' t st s₁ →
      st = .ok ∧ s₁ = s' ∧ ∀ ev ∈ t, ev.1 ≠ .flashRangeErase := by
  have hlast := registers_last h
  refine ⟨?_, ?_, ?_, ?_, ?_, ?_, ?_, ?_⟩
  · intro r
    rw [loadsMark_iff, hlast]
    rfl
  · intro b cap r hb hcap
    have hpos : cap ≠ 0 := Nat.ne_of_gt (Nat.zero_lt_of_lt hcap)
    have hfit : ¬ b.length + 1 > cap := Nat.not_lt.mpr hcap
    have hblob : (registers s').blob = b := by
      rw [hlast]
      exact hb
    rw [loadsBlob_iff]
    unfold Registers.Answers
    dsimp only
    rw [hblob, if_neg hpos, if_neg hfit]
  · intro v st s₁ hstore cap r
    rw [loadsBlob_iff, loadsBlob_iff, (registers_step hstore).2]
    rfl
  · intro b st s₁ hstore r
    rw [loadsMark_iff, loadsMark_iff, (registers_step hstore).2]
    rfl
  · intro v st s₁ hstore
    exact (registers_step hstore).1
  · intro b st s₁ hfits hstore
    have hst := (registers_step hstore).1
    unfold Registers.Answers at hst
    exact hst.trans (if_neg (Nat.not_lt.mpr hfits))
  · intro t r s₁ hread
    rw [(exec_recordRead hread).1]
    exact (valid_present s').fits
  · intro t st s₁ hstore
    obtain ⟨hst, hs, rfl⟩ := hwmStore_same hstore
    refine ⟨hst, hs, fun ev hev => ?_⟩
    rw [List.mem_singleton] at hev
    rw [hev]
    simp

/-- From an erased page: a mark, then a string. -/
theorem registers_independent_erased :
    ∃ s', Run FlashStep (Vector.replicate FLASH_PAGE_SIZE 0xFF)
        [⟨.hwmStore 7, .ok⟩, ⟨.blobStore [0x41], .ok⟩] s' ∧
      LoadsMark s' (.ok, 7) ∧ LoadsBlob s' 161 (.ok, [0x41]) := by
  obtain ⟨st, s₁, hmark⟩ := flash_answers (.hwmStore 7) (Vector.replicate FLASH_PAGE_SIZE 0xFF)
  obtain rfl : st = .ok := (registers_step hmark).1
  obtain ⟨st, s₂, hblob⟩ := flash_answers (.blobStore [0x41]) s₁
  obtain rfl : st = .ok := (registers_step hblob).1
  have hrun := Run.cons hmark (.cons hblob (.nil s₂))
  obtain ⟨hloadMark, hloadBlob, -⟩ := registers_independent hrun
  exact ⟨s₂, hrun, (hloadMark _).mpr rfl, (hloadBlob [0x41] 161 _ rfl (by decide)).mpr rfl⟩

end VectiLicense.L5.Rp2040
