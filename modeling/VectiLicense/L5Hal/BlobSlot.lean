import VectiLicense.L1Codec.Base32
import VectiLicense.L0Api.Header

/-!
# What a blob slot must do

The contract of `blob_load` and `blob_store`, with what differs between the
shipped HALs left open. `content` is what the medium holds, `none` where
nothing was ever stored:

* `BlobSlot`: a store that succeeds replaces the content, and nothing else
  touches it; a load hands a `Storable` content out as it is. What a load
  answers when the content is empty is `blank`, with no characters, and the
  least capacity it accepts is `minCap`.
* `BlobSlot.store_load`: what was stored is loaded.
-/
namespace VectiLicense.L5

open VectiLicense.Core VectiLicense.L0 VectiLicense.L1.Base32

/-- mirrors include/vectilicense/vectilicense.h:87 -/
def VL_BLOB_STR_LEN : Nat := 160

/-- A string that no backend's format changes: a canonical blob is one. -/
structure Storable (b : List UInt8) : Prop where
  nonempty : b ≠ []
  fits : b.length ≤ VL_BLOB_STR_LEN
  nonul : 0 ∉ b
  ungrouped : ∀ c ∈ b, ¬ IsGrouping c

variable {σ : Type}

structure BlobSlot (env : Env HalCall.Resp σ) (content : σ → Option (List UInt8)) (minCap : Nat)
    (blank : VlStatus) : Prop where
  stored : ∀ b s s', b = [] ∨ Storable b → env (.blobStore b) s .ok s' → content s' = some b
  failed : ∀ b s st s', env (.blobStore b) s st s' → st ≠ .ok → content s' = content s
  refused : ∀ cap s r s', cap < minCap → env (.blobLoad cap) s r s' → r.1 = .errInvalidArg
  loaded : ∀ cap b s r s', Storable b → minCap ≤ cap → b.length < cap → content s = some b →
    env (.blobLoad cap) s r s' → r = (.ok, b)
  blank : ∀ cap s r s', minCap ≤ cap → content s = some [] → env (.blobLoad cap) s r s' →
    r = (blank, [])
  others : ∀ e s r s', (∀ b, e ≠ .blobStore b) → env e s r s' → content s' = content s

namespace BlobSlot

variable {env : Env HalCall.Resp σ} {content : σ → Option (List UInt8)} {minCap : Nat}
  {blank : VlStatus}

theorem store_load (hs : BlobSlot env content minCap blank) {b : List UInt8} (hb : Storable b)
    {cap : Nat} (hmin : minCap ≤ cap) (hcap : b.length < cap) {s s₁ s₂ : σ}
    {r : VlStatus × List UInt8} (hstore : env (.blobStore b) s .ok s₁)
    (hload : env (.blobLoad cap) s₁ r s₂) : r = (.ok, b) :=
  hs.loaded _ _ _ _ _ hb hmin hcap (hs.stored _ _ _ (.inr hb) hstore) hload

theorem clear_load (hs : BlobSlot env content minCap blank) {cap : Nat} {s s₁ s₂ : σ}
    {r : VlStatus × List UInt8} (hstore : env (.blobStore []) s .ok s₁)
    (hload : env (.blobLoad cap) s₁ r s₂) :
    r.1 = if cap < minCap then .errInvalidArg else blank := by
  split
  · exact hs.refused _ _ _ _ ‹_› hload
  · rename_i hcap
    rw [hs.blank _ _ _ _ (Nat.le_of_not_lt hcap) (hs.stored _ _ _ (.inl rfl) hstore) hload]

end BlobSlot

end VectiLicense.L5
