import Dalvik.AccessFlags
import Dalvik.Error

/-!
# Hidden API restrictions

A member of a platform class is on one of eight lists, which says who may use
it, and may belong to two domains besides.
-/

namespace Dalvik

/-- The lists of members. -/
inductive Restriction where
  | whitelist
  | greylist
  | blacklist
  | greylistMaxO
  | greylistMaxP
  | greylistMaxQ
  | greylistMaxR
  | greylistMaxS
  deriving DecidableEq, Repr, Hashable, Inhabited

namespace Restriction

/-- All lists, in the order of their codes. -/
def all : List Restriction :=
  [whitelist, greylist, blacklist, greylistMaxO, greylistMaxP, greylistMaxQ, greylistMaxR, greylistMaxS]

/-- The number that stands for a list. -/
def code : Restriction → Nat
  | whitelist => 0
  | greylist => 1
  | blacklist => 2
  | greylistMaxO => 3
  | greylistMaxP => 4
  | greylistMaxQ => 5
  | greylistMaxR => 6
  | greylistMaxS => 7

/-- The list whose number has the same low three bits. -/
def ofLowBits (n : Nat) : Restriction :=
  all[n % 8]?.getD greylistMaxS

/-- The name of a list. -/
def name : Restriction → String
  | whitelist => "Whitelist"
  | greylist => "Greylist"
  | blacklist => "Blacklist"
  | greylistMaxO => "GreylistMaxO"
  | greylistMaxP => "GreylistMaxP"
  | greylistMaxQ => "GreylistMaxQ"
  | greylistMaxR => "GreylistMaxR"
  | greylistMaxS => "GreylistMaxS"

end Restriction

/-- The list that a member is on, and the bits of the domains that it belongs to. -/
structure HiddenApi where
  restriction : Restriction
  domains : UInt32
  deriving DecidableEq, Repr, Hashable

namespace HiddenApi

/-- The restrictions of a member that has none of its own. -/
def unrestricted : HiddenApi :=
  ⟨.whitelist, 0⟩

/-- The bits of the two domains that there are. -/
def domainMask : UInt32 := 0x18

/-- The number that stands for the restrictions. -/
def value (h : HiddenApi) : Nat :=
  h.restriction.code ||| h.domains.toNat

/-- The restrictions that a number stands for: above the three bits of the list it has
no others than those of domains. -/
def ofValue (value : Nat) : Result HiddenApi :=
  if value < 32 then
    .ok ⟨.ofLowBits value, UInt32.ofNat (value / 8 * 8)⟩
  else .fail (.restrictionsUnknown value)

/-- The member belongs to no other domains than there are. -/
def Known (h : HiddenApi) : Prop :=
  h.domains &&& domainMask = h.domains
  deriving Decidable

theorem value_lt (h : HiddenApi) : h.value < UInt32.size := by
  have hcode : h.restriction.code < 2 ^ 32 := by cases h.restriction <;> decide
  exact Nat.or_lt_two_pow hcode h.domains.toNat_lt

theorem exists_ofValue_iff {n : Nat} : (∃ h, ofValue n = .ok h) ↔ n < 32 := by
  refine ⟨fun ⟨h, hn⟩ => ?_, fun hlt => ⟨_, if_pos hlt⟩⟩
  unfold ofValue at hn
  split at hn
  · assumption
  · cases hn

/-- The number that restrictions are read from stands for them. -/
theorem value_of_ofValue {n : Nat} {h : HiddenApi} (hn : ofValue n = .ok h) : h.value = n := by
  have hlt := exists_ofValue_iff.mp ⟨h, hn⟩
  have hall : ∀ n < 32, (Restriction.ofLowBits n).code ||| (UInt32.ofNat (n / 8 * 8)).toNat = n := by decide
  rw [ofValue, if_pos hlt] at hn
  cases hn
  exact hall n hlt

/-- Restrictions that are read belong to no other domains than there are. -/
theorem known_of_ofValue {n : Nat} {h : HiddenApi} (hn : ofValue n = .ok h) : h.Known := by
  have hlt := exists_ofValue_iff.mp ⟨h, hn⟩
  have hall : ∀ n < 32, UInt32.ofNat (n / 8 * 8) &&& domainMask = UInt32.ofNat (n / 8 * 8) := by decide
  rw [ofValue, if_pos hlt] at hn
  cases hn
  exact hall n hlt

theorem Known.ofValue_value {h : HiddenApi} (hknown : h.Known) : ofValue h.value = .ok h := by
  obtain ⟨restriction, domains⟩ := h
  have hbits : domains.toNat &&& 24 = domains.toNat := congrArg UInt32.toNat hknown
  have hle : domains.toNat ≤ 24 := hbits ▸ Nat.and_le_right
  have hall : ∀ bits ≤ 24, bits &&& 24 = bits → restriction.code ||| bits < 32 ∧
      Restriction.ofLowBits (restriction.code ||| bits) = restriction ∧ (restriction.code ||| bits) / 8 * 8 = bits := by
    cases restriction <;> decide
  obtain ⟨hlt, hlist, hdomains⟩ := hall _ hle hbits
  rw [ofValue, value, if_pos hlt, hlist, hdomains, UInt32.ofNat_toNat]

/-- The names of the domains. -/
def domainsText (h : HiddenApi) : String :=
  AccessFlags.showBits [("CORE_PLATFORM_API", 8), ("TEST_API", 16)] h.domains

end HiddenApi

end Dalvik
