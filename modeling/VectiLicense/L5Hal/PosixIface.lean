import Mathlib.Data.Int.ConditionallyCompleteOrder
import Mathlib.Data.List.MinMax
import Mathlib.Order.ConditionallyCompleteLattice.Basic
import VectiLicense.L5Hal.PosixBlob

/-!
# Which interface is the primary one: `pick_iface` of `hal/posix/vl_hal_posix.c`

The first identity segment of a Linux host is the address of the interface
that `pick_iface` finds in `/sys/class/net`: of those that are not virtual and
have an address, the one whose name scores best, and of several with the best
score the one that `readdir` lists first. `readdir` lists a directory in no
particular order.

Here the host reads what is on file, and a file that cannot be opened is none:
`NoFault`.

* `yields_pickIface`: the loop is `List.argmax` over the usable names.
* `pick_iface_order`: the choice does not depend on the order if and only if
  the best scored names are one for `pick_iface`; and never on virtual ones.
* `pick_iface_reboot`: `eth0` and `eth1`, listed the other way round.
-/
namespace VectiLicense.L5.Posix

open VectiLicense.Core VectiLicense.L0 VectiLicense.L3

/-! ## Names and addresses -/

/-- An entry of `/sys/class/net`. -/
abbrev Name := List UInt8

/-- mirrors hal/posix/vl_hal_posix.c:64-71 -/
def macIsMeaningful (s : List UInt8) : Bool := s.any fun c => c ≠ 0x30 ∧ c ≠ 0x3A

/-- `"/sys/class/net/%s/address"` -/
def addressPath (iface : Name) : Path :=
  ascii "/sys/class/net/".toList ++ iface ++ ascii "/address".toList

/-- mirrors hal/posix/vl_hal_posix.c:73-79 -/
def readIfaceMac (iface : Name) (cap : Nat) : OsProg (Option (List UInt8)) :=
  if (addressPath iface).length ≥ 256 then return none else readTextFile (addressPath iface) cap

/-- `lo`, `docker*`, `br-*`, `veth*` and `virbr*`.
mirrors hal/posix/vl_hal_posix.c:101-105 -/
def Virtual (n : Name) : Prop :=
  n = ascii ['l', 'o'] ∨ ascii ['d', 'o', 'c', 'k', 'e', 'r'] <+: n ∨ ascii ['b', 'r', '-'] <+: n ∨
    ascii ['v', 'e', 't', 'h'] <+: n ∨ ascii ['v', 'i', 'r', 'b', 'r'] <+: n

instance (n : Name) : Decidable (Virtual n) :=
  inferInstanceAs (Decidable (_ ∨ _ ∨ _ ∨ _ ∨ _))

/-- mirrors hal/posix/vl_hal_posix.c:100-105 -/
def Skipped (n : Name) : Prop := n.head? = some 0x2E ∨ Virtual n

instance (n : Name) : Decidable (Skipped n) := inferInstanceAs (Decidable (_ ∨ _))

/-- mirrors hal/posix/vl_hal_posix.c:111-115 -/
def score (n : Name) : Int :=
  if ascii ['e', 't', 'h'] <+: n then 100
  else if ascii ['e', 'n'] <+: n then 90
  else if ascii ['w', 'l', 'a', 'n'] <+: n then 50
  else if ascii ['w', 'l', 'p'] <+: n then 50
  else 1

/-! ## The loop -/

/-- `best_score` and `best`. -/
structure Best where
  bestScore : Int
  best : Name
  deriving DecidableEq

/-- `strncpy` leaves 63 characters at most.
mirrors hal/posix/vl_hal_posix.c:117-121 -/
def Best.keep (b : Best) (n : Name) : Best :=
  if score n > b.bestScore then ⟨score n, n.take 63⟩ else b

/-- `readdir` is done when the list is.
mirrors hal/posix/vl_hal_posix.c:94-122 -/
def pickLoop : List Name → Best → OsProg Best
  | [], b => return b
  | n :: names, b =>
    if Skipped n then pickLoop names b
    else do
      match ← readIfaceMac n 32 with
      | none => pickLoop names b
      | some mac =>
        if mac.length < 17 then pickLoop names b
        else if macIsMeaningful mac = false then pickLoop names b
        else pickLoop names (b.keep n)

/-- `dir` is what `readdir` lists, or `none` if `opendir` fails; `none` is -1.
mirrors hal/posix/vl_hal_posix.c:84-128 -/
def pickIface (dir : Option (List Name)) (cap : Nat) : OsProg (Option Name) :=
  match dir with
  | none => return none
  | some names => do
    let b ← pickLoop names ⟨-1, []⟩
    if b.bestScore < 0 then return none
    else if b.best.length ≥ cap then return none
    else return some b.best

/-- The context's `iface[64]`. -/
def IFACE_CAP : Nat := 64

/-- The first segment; `iface` is the context's, and returned as it is then.
mirrors hal/posix/vl_hal_posix.c:187-193, 205-208 -/
def readIdSegment0 (dir : Option (List Name)) (iface : Name) (cap : Nat) :
    OsProg (VlStatus × List UInt8 × Name) := do
  let picked ← if iface = [] then pickIface dir IFACE_CAP else .ret (some iface)
  match picked with
  | none => return (.errPlatform, [], iface)
  | some iface =>
    match ← readIfaceMac iface 256 with
    | none => return (.errPlatform, [], iface)
    | some mac =>
      if mac.length = 0 then return (.errPlatform, [], iface)
      else if mac.length > cap then return (.errBufferTooSmall, [], iface)
      else return (.ok, mac, iface)

/-! ## What the loop finds -/

/-- What `read_iface_mac` finds on file. -/
def macOf (s : Fs) (iface : Name) (cap : Nat) : Option (List UInt8) :=
  if (addressPath iface).length ≥ 256 then none
  else (s.file (addressPath iface)).map fun c => trimEnd (c.take cap)

/-- Not skipped, and with an address. -/
def Usable (s : Fs) (n : Name) : Prop :=
  ¬ Skipped n ∧ (macOf s n 32).any (fun mac => 17 ≤ mac.length ∧ macIsMeaningful mac) = true

instance (s : Fs) (n : Name) : Decidable (Usable s n) := inferInstanceAs (Decidable (_ ∧ _))

section
variable {s : Fs}

theorem yields_readTextFile (path : Path) (cap : Nat) :
    Prog.Yields (posixOs.given NoFault) (readTextFile path cap) s
      ((s.file path).map fun c => trimEnd (c.take cap)) := by
  refine ⟨?_, fun _ _ _ h => (exec_readTextFile h).symm⟩
  unfold readTextFile
  cases hfile : s.file path with
  | none =>
    have hmiss : false = (s.file path).isSome := by rw [hfile]; rfl
    exact ⟨[⟨.fopen path .rb, false⟩], .call ⟨⟨rfl, fun h => by cases h⟩, hmiss⟩ (.ret _ _)⟩
  | some c =>
    have hthere : true = (s.file path).isSome := by rw [hfile]; rfl
    refine ⟨[⟨.fopen path .rb, true⟩, ⟨.fread path cap, c.take cap⟩, ⟨.fclose path .rb, true⟩],
      .call ⟨⟨rfl, fun _ => hthere.symm⟩, hthere⟩ ?_⟩
    refine .call ⟨⟨rfl, c, hfile, List.prefix_rfl⟩, fun c' hc' => ?_⟩ ?_
    · rw [hfile, Option.some.injEq] at hc'
      rw [hc']
    · exact .call ⟨rfl, rfl⟩ (.ret _ _)

theorem yields_readIfaceMac (iface : Name) (cap : Nat) :
    Prog.Yields (posixOs.given NoFault) (readIfaceMac iface cap) s (macOf s iface cap) := by
  unfold readIfaceMac macOf
  split
  · exact .ret _
  · exact yields_readTextFile _ _

theorem yields_pickLoop (names : List Name) : ∀ b : Best,
    Prog.Yields (posixOs.given NoFault) (pickLoop names b) s
      ((names.filter fun n => Usable s n).foldl Best.keep b) := by
  induction names with
  | nil => exact fun b => .ret b
  | cons n names ih =>
    intro b
    unfold pickLoop
    rw [List.filter_cons]
    by_cases hskip : Skipped n
    · rw [if_pos hskip, if_neg (by simp [Usable, hskip])]
      exact ih b
    rw [if_neg hskip]
    refine (yields_readIfaceMac n 32).bind ?_
    cases hmac : macOf s n 32 with
    | none =>
      rw [if_neg (by simp [Usable, hmac])]
      exact ih b
    | some mac =>
      dsimp only
      by_cases hlen : mac.length < 17
      · rw [if_pos hlen, if_neg (by simp [Usable, hmac]; omega)]
        exact ih b
      rw [if_neg hlen]
      by_cases hzero : macIsMeaningful mac = false
      · rw [if_pos hzero, if_neg (by simp [Usable, hmac, hzero])]
        exact ih b
      · rw [if_neg hzero, if_pos (by simp [Usable, hmac, hskip] at hzero ⊢; exact ⟨by omega, hzero⟩)]
        exact ih (b.keep n)

/-- The variables, when `o` is the best name so far. -/
def held : Option Name → Best
  | none => ⟨-1, []⟩
  | some n => ⟨score n, n.take 63⟩

theorem score_pos (n : Name) : 0 < score n := by
  unfold score
  split_ifs <;> decide

theorem foldl_keep (names : List Name) :
    names.foldl Best.keep ⟨-1, []⟩ = held (names.argmax score) := by
  have hstep : ∀ (o : Option Name) (n : Name),
      (held o).keep n = held (List.argAux (fun b c => score c < score b) o n) := by
    intro o n
    cases o with
    | none =>
      have hpos := score_pos n
      rw [held, Best.keep, if_pos (show score n > -1 by omega)]
      rfl
    | some m =>
      simp only [held, Best.keep, List.argAux, gt_iff_lt]
      split <;> rfl
  exact @List.foldl_hom _ _ _ held _ _ names none hstep

/-- What is left of a name in `best`, if it fits the caller's buffer. -/
def chosen (cap : Nat) (n : Name) : Option Name :=
  if (n.take 63).length ≥ cap then none else some (n.take 63)

theorem yields_pickIface (names : List Name) (cap : Nat) :
    Prog.Yields (posixOs.given NoFault) (pickIface (some names) cap) s
      (((names.filter fun n => Usable s n).argmax score).bind (chosen cap)) := by
  refine (yields_pickLoop names ⟨-1, []⟩).bind ?_
  rw [foldl_keep]
  cases (names.filter fun n => Usable s n).argmax score with
  | none => exact .ret none
  | some n =>
    have hpos := score_pos n
    have hnonneg : ¬ (held (some n)).bestScore < 0 := show ¬ score n < 0 by omega
    rw [if_neg hnonneg, Option.bind_some, chosen]
    change Prog.Yields _ (if (n.take 63).length ≥ cap then _ else _) s _
    split
    · exact .ret none
    · exact .ret _

theorem yields_segment0 {names : List Name} {o : Option Name} (cap : Nat)
    (h : Prog.Yields (posixOs.given NoFault) (pickIface (some names) IFACE_CAP) s o) :
    Prog.Yields (posixOs.given NoFault) (readIdSegment0 (some names) [] cap) s
      (match o.bind fun n => (macOf s n 256).map fun mac => (n, mac) with
      | none => (.errPlatform, [], o.getD [])
      | some (n, mac) =>
        if mac.length = 0 then (.errPlatform, [], n)
        else if mac.length > cap then (.errBufferTooSmall, [], n)
        else (.ok, mac, n)) := by
  unfold readIdSegment0
  rw [if_pos rfl]
  refine h.bind ?_
  cases o with
  | none => exact .ret _
  | some n =>
    refine (yields_readIfaceMac n 256).bind ?_
    cases hmac : macOf s n 256 with
    | none => simpa [hmac] using Prog.Yields.ret _
    | some mac =>
      simp only [Option.bind_some, hmac, Option.map_some]
      split_ifs
      · exact .ret _
      · exact .ret _
      · exact .ret _

end

/-! ## Orders -/

/-- Two elements of the greatest `f` show the same `g`, or some order of the
list tells them apart. -/
theorem argmax_perm_iff {α β γ : Type} [DecidableEq α] [LinearOrder β] (f : α → β)
    (g : α → Option γ) (p : α → Bool) (l : List α) :
    (∀ l₁ l₂ : List α, l₁.Perm l → l₂.Perm l →
      ((l₁.filter p).argmax f).bind g = ((l₂.filter p).argmax f).bind g) ↔
    ∀ a ∈ l.filter p, ∀ b ∈ l.filter p, (∀ c ∈ l.filter p, f c ≤ f a) →
      (∀ c ∈ l.filter p, f c ≤ f b) → g a = g b := by
  refine ⟨?_, ?_⟩
  · intro h a ha b hb hmaxa hmaxb
    have hfirst : ∀ x ∈ l.filter p, (∀ c ∈ l.filter p, f c ≤ f x) →
        ∃ l' : List α, l'.Perm l ∧ (l'.filter p).argmax f = some x := by
      intro x hx hmax
      obtain ⟨hmem, hpx⟩ := List.mem_filter.mp hx
      have hperm := (List.perm_cons_erase hmem).symm
      refine ⟨x :: l.erase x, hperm, List.argmax_eq_some_iff.mpr ⟨?_, ?_, ?_⟩⟩
      · rw [List.filter_cons, if_pos hpx]
        exact List.mem_cons_self
      · intro c hc
        exact hmax c ((hperm.filter p).mem_iff.mp hc)
      · intro c _ _
        rw [List.filter_cons, if_pos hpx, List.idxOf_cons_self]
        exact Nat.zero_le _
    obtain ⟨la, hla, hba⟩ := hfirst a ha hmaxa
    obtain ⟨lb, hlb, hbb⟩ := hfirst b hb hmaxb
    have hsame := h la lb hla hlb
    rwa [hba, hbb] at hsame
  · intro h l₁ l₂ h₁ h₂
    have hmem : ∀ {l' : List α}, l'.Perm l → ∀ {x}, x ∈ (l'.filter p).argmax f →
        x ∈ l.filter p ∧ ∀ c ∈ l.filter p, f c ≤ f x := fun hl' x hx =>
      ⟨(hl'.filter p).mem_iff.mp (List.argmax_mem hx), fun c hc =>
        List.le_of_mem_argmax ((hl'.filter p).mem_iff.mpr hc) hx⟩
    cases hx : (l₁.filter p).argmax f with
    | none =>
      have hnil := (h₁.filter p).symm
      rw [List.argmax_eq_none.mp hx] at hnil
      have hnil₂ := (h₂.filter p).trans hnil
      rw [List.perm_nil.mp hnil₂, List.argmax_nil]
    | some a =>
      cases hy : (l₂.filter p).argmax f with
      | none =>
        have hnil := (h₂.filter p).symm
        rw [List.argmax_eq_none.mp hy] at hnil
        have hnil₁ := List.perm_nil.mp ((h₁.filter p).trans hnil)
        rw [hnil₁] at hx
        cases hx
      | some b =>
        obtain ⟨ha, hmaxa⟩ := hmem h₁ hx
        obtain ⟨hb, hmaxb⟩ := hmem h₂ hy
        exact h a ha b hb hmaxa hmaxb

/-- Names of which `pick_iface` makes the same choice: alike in what is copied
of them, or both too long for the buffer. -/
def AlikeIn (cap : Nat) (a b : Name) : Prop :=
  a.take 63 = b.take 63 ∨ (cap ≤ (a.take 63).length ∧ cap ≤ (b.take 63).length)

theorem chosen_eq_iff {cap : Nat} {a b : Name} : chosen cap a = chosen cap b ↔ AlikeIn cap a b := by
  unfold chosen AlikeIn
  split_ifs with ha hb hb
  · exact iff_of_true rfl (.inr ⟨ha, hb⟩)
  · exact iff_of_false (by simp) fun h => h.elim (fun heq => hb (heq ▸ ha)) fun h => hb h.2
  · exact iff_of_false (by simp) fun h => h.elim (fun heq => ha (heq ▸ hb)) fun h => ha h.1
  · rw [Option.some.injEq]
    exact ⟨.inl, fun h => h.resolve_right fun h => ha h.1⟩

/-- All usable interfaces with the best score are alike. -/
def OneBest (s : Fs) (cap : Nat) (names : List Name) : Prop :=
  ∀ a ∈ names, ∀ b ∈ names, Usable s a → Usable s b →
    (∀ c ∈ names, Usable s c → score c ≤ score a ∧ score c ≤ score b) → AlikeIn cap a b

theorem oneBest_iff {s : Fs} {cap : Nat} {names : List Name} :
    OneBest s cap names ↔ ∀ l₁ l₂ : List Name, l₁.Perm names → l₂.Perm names →
      ((l₁.filter fun n => Usable s n).argmax score).bind (chosen cap) =
        ((l₂.filter fun n => Usable s n).argmax score).bind (chosen cap) := by
  rw [argmax_perm_iff]
  simp only [List.mem_filter, decide_eq_true_eq, chosen_eq_iff]
  refine ⟨?_, ?_⟩
  · intro h a ha b hb hmaxa hmaxb
    exact h a ha.1 b hb.1 ha.2 hb.2 fun c hc husable =>
      ⟨hmaxa c ⟨hc, husable⟩, hmaxb c ⟨hc, husable⟩⟩
  · intro h a ha b hb husea huseb hmax
    exact h a ⟨ha, husea⟩ b ⟨hb, huseb⟩ (fun c hc => (hmax c hc.1 hc.2).1)
      fun c hc => (hmax c hc.1 hc.2).2

/-- Only the interfaces that are not virtual are looked at. -/
theorem usable_congr {s s' : Fs} {l₁ l₂ : List Name}
    (hlist : (l₁.filter fun n => ¬ Virtual n) = l₂.filter fun n => ¬ Virtual n)
    (hfile : ∀ n ∈ l₁, ¬ Virtual n → s'.file (addressPath n) = s.file (addressPath n)) :
    (l₁.filter fun n => Usable s n) = l₂.filter fun n => Usable s' n := by
  have hreal : ∀ (s : Fs) (l : List Name), (l.filter fun n => Usable s n) =
      (l.filter fun n => ¬ Virtual n).filter fun n => Usable s n := by
    intro s l
    rw [List.filter_filter]
    refine List.filter_congr fun n _ => ?_
    by_cases hv : Virtual n
    · simp [Usable, Skipped, hv]
    · simp [hv]
  rw [hreal s l₁, hreal s' l₂, ← hlist]
  refine List.filter_congr fun n hn => ?_
  obtain ⟨hmem, hv⟩ := List.mem_filter.mp hn
  rw [decide_eq_true_eq] at hv
  have hmac : macOf s' n 32 = macOf s n 32 := by rw [macOf, macOf, hfile n hmem hv]
  exact decide_eq_decide.mpr (by rw [Usable, Usable, hmac])

/-- **When the choice does not depend on the order.** For any directory,
exactly where all usable interfaces with the best score are alike; the first
segment is then the same too. Interfaces named as virtual ones, wherever they
stand and whatever their files hold, never matter. -/
theorem pick_iface_order (s : Fs) (cap : Nat) :
    (∀ names, (∀ l₁ l₂ : List Name, l₁.Perm names → l₂.Perm names → ∀ t₁ r₁ s₁ t₂ r₂ s₂,
      Prog.Exec (posixOs.given NoFault) (pickIface (some l₁) cap) s t₁ r₁ s₁ →
      Prog.Exec (posixOs.given NoFault) (pickIface (some l₂) cap) s t₂ r₂ s₂ → r₁ = r₂) ↔
        OneBest s cap names) ∧
    (∀ names, OneBest s IFACE_CAP names → ∀ l₁ l₂ : List Name, l₁.Perm names → l₂.Perm names →
      ∀ t₁ r₁ s₁ t₂ r₂ s₂,
      Prog.Exec (posixOs.given NoFault) (readIdSegment0 (some l₁) [] cap) s t₁ r₁ s₁ →
      Prog.Exec (posixOs.given NoFault) (readIdSegment0 (some l₂) [] cap) s t₂ r₂ s₂ → r₁ = r₂) ∧
    (∀ (l₁ l₂ : List Name) (s' : Fs), ((l₁.filter fun n => ¬ Virtual n) = l₂.filter fun n => ¬ Virtual n) →
      (∀ n ∈ l₁, ¬ Virtual n → s'.file (addressPath n) = s.file (addressPath n)) →
      ∀ t₁ r₁ s₁ t₂ r₂ s₂,
      Prog.Exec (posixOs.given NoFault) (pickIface (some l₁) cap) s t₁ r₁ s₁ →
      Prog.Exec (posixOs.given NoFault) (pickIface (some l₂) cap) s' t₂ r₂ s₂ → r₁ = r₂) := by
  refine ⟨?_, ?_, ?_⟩
  · intro names
    rw [oneBest_iff]
    refine ⟨?_, ?_⟩
    · intro h l₁ l₂ h₁ h₂
      obtain ⟨t₁, hexec₁⟩ := (yields_pickIface (s := s) l₁ cap).1
      obtain ⟨t₂, hexec₂⟩ := (yields_pickIface (s := s) l₂ cap).1
      exact h l₁ l₂ h₁ h₂ _ _ _ _ _ _ hexec₁ hexec₂
    · intro h l₁ l₂ h₁ h₂ t₁ r₁ s₁ t₂ r₂ s₂ hexec₁ hexec₂
      rw [((yields_pickIface l₁ cap).2 _ _ _ hexec₁).1, ((yields_pickIface l₂ cap).2 _ _ _ hexec₂).1]
      exact h l₁ l₂ h₁ h₂
  · intro names hone l₁ l₂ h₁ h₂ t₁ r₁ s₁ t₂ r₂ s₂ hexec₁ hexec₂
    have hsame := oneBest_iff.mp hone l₁ l₂ h₁ h₂
    have hy := yields_pickIface (s := s) l₂ IFACE_CAP
    rw [← hsame] at hy
    rw [((yields_segment0 cap (yields_pickIface l₁ IFACE_CAP)).2 _ _ _ hexec₁).1,
      ((yields_segment0 cap hy).2 _ _ _ hexec₂).1]
  · intro l₁ l₂ s' hlist hfile t₁ r₁ s₁ t₂ r₂ s₂ hexec₁ hexec₂
    rw [((yields_pickIface l₁ cap).2 _ _ _ hexec₁).1, ((yields_pickIface l₂ cap).2 _ _ _ hexec₂).1,
      usable_congr hlist hfile]

/-! ## A host with two wired interfaces -/

def eth0 : Name := ascii ['e', 't', 'h', '0']
def eth1 : Name := ascii ['e', 't', 'h', '1']

/-- Both have an address. -/
def twoNics : Fs where
  file path :=
    if path = addressPath eth0 then some (ascii "b8:27:eb:12:34:56\n".toList)
    else if path = addressPath eth1 then some (ascii "b8:27:eb:12:34:57\n".toList)
    else none
  accepted := []

/-- One wired interface, and the loopback listed before or behind it. -/
theorem pick_iface_order_single : ∃ t₁ r₁ t₂ r₂,
    Prog.Exec (posixOs.given NoFault) (pickIface (some [eth0, ascii ['l', 'o']]) 64) twoNics t₁ r₁
      twoNics ∧
    Prog.Exec (posixOs.given NoFault) (pickIface (some [ascii ['l', 'o'], eth0]) 64) twoNics t₂ r₂
      twoNics ∧ r₁ = r₂ := by
  have hone : OneBest twoNics 64 [eth0, ascii ['l', 'o']] := by
    have heth : ∀ n ∈ [eth0, ascii ['l', 'o']], Usable twoNics n → n = eth0 := by
      intro n hn husable
      rcases List.mem_cons.mp hn with rfl | hlo
      · rfl
      · obtain rfl := List.mem_singleton.mp hlo
        exact absurd (.inr (.inl rfl)) husable.1
    intro a ha b hb husea huseb _
    rw [heth a ha husea, heth b hb huseb]
    exact .inl rfl
  obtain ⟨t₁, h₁⟩ := (yields_pickIface (s := twoNics) [eth0, ascii ['l', 'o']] 64).1
  obtain ⟨t₂, h₂⟩ := (yields_pickIface (s := twoNics) [ascii ['l', 'o'], eth0] 64).1
  exact ⟨t₁, _, t₂, _, h₁, h₂, ((pick_iface_order twoNics 64).1 _).mpr hone _ _ (.refl _)
    (.swap _ _ _) _ _ _ _ _ _ h₁ h₂⟩

/-- The same two interfaces, listed the other way round after a reboot. -/
theorem pick_iface_reboot : ∃ t₁ t₂,
    Prog.Exec (posixOs.given NoFault) (pickIface (some [eth0, eth1]) 64) twoNics t₁ (some eth0)
      twoNics ∧
    Prog.Exec (posixOs.given NoFault) (pickIface (some [eth1, eth0]) 64) twoNics t₂ (some eth1)
      twoNics := by
  obtain ⟨t₁, h₁⟩ := (yields_pickIface (s := twoNics) [eth0, eth1] 64).1
  obtain ⟨t₂, h₂⟩ := (yields_pickIface (s := twoNics) [eth1, eth0] 64).1
  exact ⟨t₁, t₂, h₁, h₂⟩

end VectiLicense.L5.Posix
