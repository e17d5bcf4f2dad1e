import MemberAgent.InMemory.Hub
import MemberAgent.Proofs.Text.Digits

/-! Versions go up. Where a version is a number, its text is read back as that number, so a write
never leaves the version that it found. -/

namespace MemberAgent

namespace Text

/-- The text of a number is read back, below `2 ^ 64`. -/
theorem natural64?_toString (n : Nat) :
    natural64? (toString n) = if n < 0x10000000000000000 then some n else none := by
  have hlist : (toString n).toList = Nat.toDigits 10 n := Nat.toList_repr
  have hdigit : ∀ c ∈ Nat.toDigits 10 n, c.isDigit = true := fun c hc => isDigit_of_mem_toDigits hc
  have hplus : ∀ rest, Nat.toDigits 10 n ≠ '+' :: rest := by
    intro rest he
    have hplus := hdigit '+' (by rw [he]; exact List.mem_cons_self)
    revert hplus
    decide
  unfold natural64?
  rw [hlist]
  split
  · next rest hrest => exact absurd hrest (hplus rest)
  · dsimp only
    rw [if_neg, decimalValue_toDigits]
    rw [List.all_eq_true.2 hdigit, List.isEmpty_eq_false_iff.2 Nat.toDigits_ne_nil]
    decide

theorem natural64?_lt {s : String} {n : Nat} (h : natural64? s = some n) :
    n < 0x10000000000000000 := by
  unfold natural64? at h
  dsimp only at h
  repeat' split at h
  all_goals cases h
  all_goals assumption

end Text

namespace InMemory

/-- A version as a number; what is no number counts as zero. -/
def versionNumber (version : Option String) : Nat := (version.bind Text.natural64?).getD 0

theorem versionNumber_lt (version : Option String) :
    versionNumber version < 0x10000000000000000 := by
  unfold versionNumber
  cases h : version.bind Text.natural64? with
  | none => decide
  | some n =>
      obtain ⟨s, -, hs⟩ := Option.bind_eq_some_iff.1 h
      exact Text.natural64?_lt hs

/-- Versions count writes, and come round after `2 ^ 64` of them. -/
theorem versionNumber_nextVersion (version : Option String) :
    versionNumber (some (nextVersion version)) =
      (versionNumber version + 1) % 0x10000000000000000 := by
  have hlt := versionNumber_lt version
  show (Text.natural64? (toString (versionNumber version + 1))).getD 0 = _
  rw [Text.natural64?_toString]
  split
  · next h => exact (Nat.mod_eq_of_lt h).symm
  · next h =>
      have hlast : versionNumber version + 1 = 0x10000000000000000 := by omega
      rw [hlast]
      rfl

/-- A write makes another version than the one it found. -/
theorem nextVersion_ne (version : Option String) : some (nextVersion version) ≠ version := by
  intro he
  have hlt := versionNumber_lt version
  have hnext := versionNumber_nextVersion version
  rw [he] at hnext
  omega

end InMemory

end MemberAgent
