import MemberAgent.Text.Basic

/-! Numbers in decimal digits, read back. The digits of a number are followed by something else, so a
reader that takes as many digits as there are takes exactly these. -/

namespace MemberAgent.Text

/-- Whether a text does not begin with a character of a class. -/
def Stops (p : Char → Bool) (rest : List Char) : Prop := ∀ c, rest.head? = some c → p c = false

section Front

variable {p : Char → Bool} {c : Char} {cs rest : List Char}

theorem stops_nil : Stops p [] := nofun

theorem stops_cons (h : p c = false) : Stops p (c :: rest) := by
  intro c' he
  cases he
  exact h

theorem Stops.mono {q : Char → Bool} (h : Stops p rest) (himp : ∀ c, q c = true → p c = true) :
    Stops q rest := fun c hc =>
  Bool.eq_false_iff.2 fun hq => Bool.eq_false_iff.1 (h c hc) (himp c hq)

theorem takeWhile_front (hall : ∀ c ∈ cs, p c = true) (hstops : Stops p rest) :
    (cs ++ rest).takeWhile p = cs := by
  rw [List.takeWhile_append_of_pos hall]
  cases rest with
  | nil => exact List.append_nil cs
  | cons c rest => rw [List.takeWhile_cons_of_neg (by simp [hstops c rfl]), List.append_nil]

theorem dropWhile_front (hall : ∀ c ∈ cs, p c = true) (hstops : Stops p rest) :
    (cs ++ rest).dropWhile p = rest := by
  rw [List.dropWhile_append_of_pos hall]
  cases rest with
  | nil => rfl
  | cons c rest => exact List.dropWhile_cons_of_neg (by simp [hstops c rfl])

end Front

theorem isDigit_of_mem_toDigits {n : Nat} {c : Char} (hc : c ∈ Nat.toDigits 10 n) :
    c.isDigit = true :=
  Nat.isDigit_of_mem_toDigits (by decide) (by decide) hc

theorem isBlank_of_isDigit {c : Char} (h : c.isDigit = true) : isBlank c = false := by
  simp only [Char.isDigit, ge_iff_le, Bool.and_eq_true, decide_eq_true_eq,
    UInt32.le_iff_toNat_le] at h
  have hrange : 48 ≤ c.toNat ∧ c.toNat ≤ 57 := h
  simp only [isBlank, Bool.or_eq_false_iff, Bool.and_eq_false_iff, decide_eq_false_iff_not]
  omega

theorem decimalValue_toDigits (n : Nat) : decimalValue (Nat.toDigits 10 n) = n := by
  have hfold : decimalValue (Nat.toDigits 10 n) = Nat.ofDigitChars 10 (Nat.toDigits 10 n) 0 := by
    rw [Nat.ofDigitChars_eq_foldl, decimalValue]
    congr 1
    funext m c
    rw [Nat.mul_comm]
  rw [hfold]
  exact Nat.ofDigitChars_ten_toDigits

/-- A number is written with a zero in front only if it is zero. -/
theorem eq_zero_of_head?_toDigits {n : Nat} (h : (Nat.toDigits 10 n).head? = some '0') : n = 0 := by
  induction n using Nat.strongRecOn with
  | ind n ih =>
      rcases Nat.lt_or_ge n 10 with hlt | hge
      · have hdigit : ∀ n < 10, [Nat.digitChar n].head? = some '0' → n = 0 := by decide
        rw [Nat.toDigits_of_lt_base hlt] at h
        exact hdigit n hlt h
      · have hfirst : (Nat.toDigits 10 n).head? = (Nat.toDigits 10 (n / 10)).head? := by
          rw [Nat.toDigits_of_base_le (by decide) hge, List.head?_append,
            List.head?_eq_some_head Nat.toDigits_ne_nil]
          rfl
        have hzero := ih (n / 10) (by omega) (hfirst.symm.trans h)
        omega

end MemberAgent.Text
