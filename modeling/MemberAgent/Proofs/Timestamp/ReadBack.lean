import MemberAgent.Timestamp.Rfc3339
import MemberAgent.Proofs.Text.Digits
import Mathlib.Algebra.Group.Nat.Defs
import Mathlib.Tactic.SplitIfs

/-! Times read back. The text of a time has every number in digits that a reader takes as a whole, since
what comes after a number is never a digit; so each part is read as it was written. -/

namespace MemberAgent.Timestamp

open Text

/-- A scan of the front of a text answers with a value and leaves the rest. -/
def Scans {α : Type} (p : Scan α) (cs : List Char) (a : α) (rest : List Char) : Prop :=
  p.run cs = .ok (a, rest)

section Scanning

variable {α β : Type} {c : Char} {cs rest : List Char} {n : Nat}

theorem daysInMonth_le (year : Int) (month : Nat) : Calendar.daysInMonth year month ≤ 31 := by
  unfold Calendar.daysInMonth
  split
  · split <;> decide
  all_goals decide

theorem Scans.bind {p : Scan α} {f : α → Scan β} {mid : List Char} {a : α} {b : β}
    (hp : Scans p cs a mid) (hf : Scans (f a) mid b rest) : Scans (p >>= f) cs b rest := by
  rw [Scans, StateT.run_bind, hp]
  exact hf

theorem scans_pure (a : α) (cs : List Char) : Scans (pure a) cs a cs := rfl

theorem scans_get (cs : List Char) : Scans get cs cs cs := rfl

theorem scans_set (cs rest : List Char) : Scans (set rest) cs () rest := rfl

theorem scans_skipBlanks (h : isBlank c = false) : Scans skipBlanks (c :: cs) () (c :: cs) := by
  show Except.ok ((), trimStart (c :: cs)) = _
  rw [trimStart, List.dropWhile_cons_of_neg (by simp [h])]

theorem scans_literal : Scans (literal c) (c :: rest) () rest := by
  show (if c = c then _ else _ : Scan Unit).run _ = _
  rw [if_pos rfl]
  rfl

/-- A mark between two numbers is passed over. -/
theorem Scans.afterMark {p : Scan β} {b : β} {rest' : List Char} (hmark : isBlank c = false)
    (hp : Scans p rest b rest') :
    Scans (skipBlanks >>= fun _ => literal c >>= fun _ => p) (c :: rest) b rest' :=
  Scans.bind (scans_skipBlanks hmark) (Scans.bind scans_literal hp)

theorem scans_digits {width : Nat} (hne : cs ≠ []) (hall : ∀ c ∈ cs, c.isDigit = true)
    (hwidth : cs.length ≤ width) (hrest : Stops Char.isDigit rest) :
    Scans (digits width) (cs ++ rest) cs rest := by
  obtain ⟨d, ds, rfl⟩ := List.exists_cons_of_ne_nil hne
  have hfound : ((d :: ds ++ rest).take width).takeWhile Char.isDigit = d :: ds := by
    -- the digits are within the width, and what is left of it begins like the rest
    rw [List.take_append, List.take_of_length_le hwidth]
    refine takeWhile_front hall fun c hc => hrest c ?_
    rw [List.head?_take] at hc
    split at hc
    · cases hc
    · exact hc
  refine Scans.bind (scans_get _) ?_
  simp only [List.cons_append] at hfound ⊢
  rw [hfound]
  refine Scans.bind (scans_set _ _) ?_
  rw [← List.cons_append, List.drop_left]
  exact scans_pure _ _

/-! ### Numbers with zeros in front -/

theorem isDigit_of_mem_padded {width : Nat} (hc : c ∈ padded width n) : c.isDigit = true := by
  rcases List.mem_append.1 hc with h | h
  · rw [List.eq_of_mem_replicate h]
    rfl
  · exact isDigit_of_mem_toDigits h

theorem padded_ne_nil {width : Nat} : padded width n ≠ [] :=
  List.append_ne_nil_of_right_ne_nil _ Nat.toDigits_ne_nil

theorem length_padded {width : Nat} (hwidth : 0 < width) (hn : n < 10 ^ width) :
    (padded width n).length = width := by
  have hfits := (Nat.length_toDigits_le_iff (b := 10) (n := n) (by decide) hwidth).2 hn
  rw [padded, List.length_append, List.length_replicate]
  omega

theorem digitsValue_padded (width n : Nat) : digitsValue (padded width n) = n := by
  have hzeros : ∀ k cs, digitsValue (List.replicate k '0' ++ cs) = digitsValue cs := by
    intro k cs
    induction k with
    | zero => rfl
    | succ k ih => exact ih
  rw [padded, hzeros]
  exact decimalValue_toDigits n

theorem scans_padded {width : Nat} (hwidth : 0 < width) (hn : n < 10 ^ width)
    (hrest : Stops Char.isDigit rest) :
    Scans (digits width) (padded width n ++ rest) (padded width n) rest :=
  scans_digits padded_ne_nil (fun _ hc => isDigit_of_mem_padded hc)
    (Nat.le_of_eq (length_padded hwidth hn)) hrest

/-- A padded number begins with a digit. -/
theorem padded_eq_cons (width n : Nat) : ∃ d ds, padded width n = d :: ds ∧ d.isDigit = true := by
  cases hpadded : padded width n with
  | nil => exact absurd hpadded padded_ne_nil
  | cons d ds => exact ⟨d, ds, rfl, isDigit_of_mem_padded (hpadded ▸ List.mem_cons_self)⟩

theorem isDigit_of_padded_append {width : Nat} {cs : List Char}
    (h : padded width n ++ rest = c :: cs) : c.isDigit = true := by
  obtain ⟨d, ds, hpadded, hdigit⟩ := padded_eq_cons width n
  rw [hpadded] at h
  cases h
  exact hdigit

theorem scans_skipBlanks_padded {width : Nat} :
    Scans skipBlanks (padded width n ++ rest) () (padded width n ++ rest) := by
  obtain ⟨d, ds, hpadded, hdigit⟩ := padded_eq_cons width n
  rw [hpadded]
  exact scans_skipBlanks (isBlank_of_isDigit hdigit)

theorem scans_twoDigits {low high : Nat} (hlow : low ≤ n) (hhigh : n ≤ high) (hsmall : n < 100)
    (hrest : Stops Char.isDigit rest) :
    Scans (twoDigits low high) (padded 2 n ++ rest) n rest := by
  refine Scans.bind scans_skipBlanks_padded ?_
  refine Scans.bind (scans_padded (by decide) hsmall hrest) ?_
  rw [digitsValue_padded, if_pos (And.intro hlow hhigh)]
  exact scans_pure _ _

theorem scans_yearNumber (year : Int) (hrest : Stops Char.isDigit rest) :
    Scans yearNumber (yearChars year ++ rest) year rest := by
  unfold yearChars
  split
  · next hfour =>
    refine Scans.bind scans_skipBlanks_padded (Scans.bind (scans_get _) ?_)
    split
    -- four digits do not begin with a sign
    · next he => exact absurd (isDigit_of_padded_append he) (by decide)
    · next he => exact absurd (isDigit_of_padded_append he) (by decide)
    · refine Scans.bind (scans_padded (by decide) (by omega) hrest) ?_
      rw [digitsValue_padded, Int.toNat_of_nonneg hfour.1]
      exact scans_pure _ _
  · next hsigned =>
    have hwidth : (padded 4 year.natAbs).length ≤ (padded 4 year.natAbs ++ rest).length :=
      (List.sublist_append_left _ _).length_le
    have hdigits := scans_digits padded_ne_nil (fun _ hc => isDigit_of_mem_padded hc) hwidth hrest
    split
    · next hneg =>
      refine Scans.bind (scans_skipBlanks (by decide)) (Scans.bind (scans_get _) ?_)
      refine Scans.bind (scans_set _ _) (Scans.bind hdigits ?_)
      rw [digitsValue_padded, Int.ofNat_natAbs_of_nonpos (Int.le_of_lt hneg), Int.neg_neg]
      exact scans_pure _ _
    · next hpos =>
      refine Scans.bind (scans_skipBlanks (by decide)) (Scans.bind (scans_get _) ?_)
      refine Scans.bind (scans_set _ _) (Scans.bind hdigits ?_)
      rw [digitsValue_padded, Int.natAbs_of_nonneg (Int.not_lt.1 hpos)]
      exact scans_pure _ _

theorem scans_boundedYear {year : Int} (low : Calendar.earliestYear ≤ year)
    (high : year ≤ Calendar.latestYear) (hrest : Stops Char.isDigit rest) :
    Scans boundedYear (yearChars year ++ rest) year rest := by
  refine Scans.bind (scans_yearNumber year hrest) ?_
  rw [if_pos]
  · exact scans_pure _ _
  · unfold Calendar.earliestYear at low
    unfold Calendar.latestYear at high
    omega

/-! ### Fractions of a second -/

theorem scans_fraction_padded (width n : Nat) (hpos : 0 < width) (hnine : width ≤ 9)
    (hn : n < 10 ^ width) :
    Scans fraction ('.' :: padded width n ++ ['Z']) (n * 10 ^ (9 - width)) ['Z'] := by
  have hlength := length_padded hpos hn
  refine Scans.bind (scans_get _) (Scans.bind (scans_set _ _) ?_)
  refine Scans.bind (scans_digits padded_ne_nil (fun _ hc => isDigit_of_mem_padded hc)
    (Nat.le_trans (Nat.le_of_eq hlength) hnine) (stops_cons (by decide))) ?_
  have hmodify : Scans (modify (List.dropWhile Char.isDigit)) ['Z'] () ['Z'] := rfl
  refine Scans.bind hmodify ?_
  rw [digitsValue_padded, hlength]
  exact scans_pure _ _

theorem scans_fraction {nanosecond : Nat} (h : nanosecond < 1000000000) :
    Scans fraction (fractionChars nanosecond ++ ['Z']) nanosecond ['Z'] := by
  unfold fractionChars
  split_ifs with hzero hmilli hmicro
  · rw [hzero]
    rfl
  · have hread := scans_fraction_padded 3 (nanosecond / 1000000) (by decide) (by decide) (by omega)
    rwa [show nanosecond / 1000000 * 10 ^ (9 - 3) = nanosecond by omega] at hread
  · have hread := scans_fraction_padded 6 (nanosecond / 1000) (by decide) (by decide) (by omega)
    rwa [show nanosecond / 1000 * 10 ^ (9 - 6) = nanosecond by omega] at hread
  · have hread := scans_fraction_padded 9 nanosecond (by decide) (by decide) (by omega)
    rwa [show nanosecond * 10 ^ (9 - 9) = nanosecond by omega] at hread

theorem stops_fractionChars (nanosecond : Nat) :
    Stops Char.isDigit (fractionChars nanosecond ++ ['Z']) := by
  unfold fractionChars
  split_ifs <;> exact stops_cons (by decide)

/-! ### Whole times -/

/-- What the text of a time says of it. -/
def Reading.utc (t : Timestamp) : Reading where
  year := t.year
  month := t.month
  day := t.day
  hour := t.hour
  minute := t.minute
  second := t.second
  nanosecond := t.nanosecond
  offset := 0

theorem scans_reading (t : Timestamp) : Scans reading t.chars (.utc t) [] := by
  obtain ⟨hearliest, hlatest, hmonth, htwelve, hday, hlast⟩ := t.isDate
  obtain ⟨hhour, hminute, hsecond, hnanosecond⟩ := t.isTime
  have hdays : t.day ≤ 31 := Nat.le_trans hlast (daysInMonth_le _ _)
  have hminus : ∀ rest, Stops Char.isDigit ('-' :: rest) := fun rest => stops_cons (by decide)
  have hcolon : ∀ rest, Stops Char.isDigit (':' :: rest) := fun rest => stops_cons (by decide)
  have hchars : t.chars = yearChars t.year ++ '-' :: (padded 2 t.month ++ '-' :: (padded 2 t.day ++
      'T' :: (padded 2 t.hour ++ ':' :: (padded 2 t.minute ++ ':' :: (padded 2 t.second ++
        (fractionChars t.nanosecond ++ ['Z'])))))) := by
    simp [chars, wholeChars]
  rw [hchars]
  refine Scans.bind (scans_boundedYear hearliest hlatest (hminus _)) ?_
  refine Scans.afterMark (by decide) ?_
  refine Scans.bind (scans_twoDigits hmonth htwelve (by omega) (hminus _)) ?_
  refine Scans.afterMark (by decide) ?_
  refine Scans.bind (scans_twoDigits hday hdays (by omega) (stops_cons (by decide))) ?_
  have hseparator : ∀ rest, Scans separator ('T' :: rest) () rest := fun rest => rfl
  refine Scans.bind (hseparator _) ?_
  refine Scans.bind (scans_twoDigits (Nat.zero_le _) (by omega) (by omega) (hcolon _)) ?_
  refine Scans.afterMark (by decide) ?_
  refine Scans.bind (scans_twoDigits (Nat.zero_le _) (by omega) (by omega) (hcolon _)) ?_
  refine Scans.afterMark (by decide) ?_
  refine Scans.bind (scans_twoDigits (Nat.zero_le _) hsecond (by omega) (stops_fractionChars _)) ?_
  refine Scans.bind (scans_fraction hnanosecond) ?_
  refine Scans.bind (scans_skipBlanks (by decide)) ?_
  have hoffset : Scans offset ['Z'] 0 [] := rfl
  exact Scans.bind hoffset (scans_pure _ _)

theorem timestamp?_utc (t : Timestamp) : (Reading.utc t).timestamp? = some t := by
  unfold Reading.timestamp? Reading.utc
  dsimp only
  rw [ofFields?_self, Option.bind_eq_bind, Option.bind_some, if_pos (by decide)]
  exact ofLocal_zero t

/-- Every time is read from its text as itself, a leap second too. -/
theorem ofText_text (t : Timestamp) : ofText t.text = .ok t := by
  have hread : reading.run t.chars = .ok (.utc t, []) := scans_reading t
  rw [text, ofText, String.toList_ofList, ofChars, hread]
  simp only [bind, Except.bind, timestamp?_utc]
  rfl

end Scanning

end MemberAgent.Timestamp
