import MemberAgent.Json.Location
import MemberAgent.Proofs.Http.MergePatch
import MemberAgent.Proofs.Text.Digits
import Mathlib.Tactic.SplitIfs

/-! JSON text read back. A value that nests no deeper than the reader allows, without floating-point
numbers, with whole numbers of 64 bits and with fields in order, is read from its text as itself,
whatever comes after it. -/

namespace MemberAgent.Json

open Text

variable {c : Char} {cs rest : List Char}

theorem skipBlanks_cons (h : isBlank c = false) : skipBlanks (c :: cs) = c :: cs :=
  List.dropWhile_cons_of_neg (by simp [h])

/-! ### Strings -/

/-- What has been read, in front of what is read after it. -/
def prepend {α : Type} (a : α) : Parsed (List α) → Parsed (List α) := fun (as, rest) => (a :: as, rest)

theorem stringTail_plain (hquote : c ≠ '"') (hescape : c ≠ '\\') (hcontrol : ¬c.toNat < 0x20) :
    stringTail (c :: rest) = (stringTail rest).map (prepend c) := by
  rw [stringTail]
  · exact if_neg hcontrol
  all_goals simp_all

theorem stringTail_code {x y : Char} {n : Nat} (hvalue : hexValue4? '0' '0' x y = some n)
    (hn : n < 0xD800) : stringTail ('\\' :: 'u' :: '0' :: '0' :: x :: y :: rest) =
      (stringTail rest).map (prepend (Char.ofNat n)) := by
  have hlow : isLowSurrogate n = false := by simp [isLowSurrogate]; omega
  have hhigh : isHighSurrogate n = false := by simp [isHighSurrogate]; omega
  -- the reader looks ahead for a second code, which the value of the first one makes no use of
  rw [stringTail.eq_def]
  split
  case h_3 he | h_4 he =>
    cases he
    rw [hvalue]
    simp only [hlow, hhigh]
    rfl
  case h_5 hfew he =>
    cases he
    exact absurd rfl (hfew _ _ _ _ _)
  case h_7 hcode he =>
    cases he
    exact absurd rfl hcode
  case h_8 hescape he =>
    cases he
    exact absurd rfl (hescape _ _ rfl)
  case h_1 he | h_2 he | h_6 he => simp at he

/-- A control character is read back from its code. -/
theorem hexValue4?_code (n : Nat) (hn : n < 0x20) :
    hexValue4? '0' '0' (Nat.digitChar (n / 16)) (Nat.digitChar (n % 16)) = some n := by
  have hall : ∀ n < 0x20,
      hexValue4? '0' '0' (Nat.digitChar (n / 16)) (Nat.digitChar (n % 16)) = some n := by decide
  exact hall n hn

theorem stringTail_escapedChar (c : Char) (rest : List Char) :
    stringTail (escapedChar c ++ rest) = (stringTail rest).map (prepend c) := by
  unfold escapedChar
  split_ifs with hquote hescape _ _ _ _ _ hcontrol
  iterate 7 · subst c; rfl
  · have hread : stringTail (['\\', 'u', '0', '0', Nat.digitChar (c.toNat / 16),
        Nat.digitChar (c.toNat % 16)] ++ rest) = _ :=
      stringTail_code (hexValue4?_code c.toNat hcontrol) (by omega)
    rw [hread, Char.ofNat_toNat]
    rfl
  · exact stringTail_plain hquote hescape hcontrol

theorem stringTail_escaped (s : List Char) (rest : List Char) :
    stringTail (s.flatMap escapedChar ++ '"' :: rest) = .ok (s, rest) := by
  induction s with
  | nil => rfl
  | cons c s ih =>
      rw [List.flatMap_cons, List.append_assoc, stringTail_escapedChar, ih]
      rfl

/-! ### Whole numbers -/

/-- The characters that may belong to a number after its first digits. -/
def isNumberChar (c : Char) : Bool := c.isDigit || c = '.' || c = 'e' || c = 'E'

theorem exponentPart_stopped (hrest : Stops isNumberChar rest) :
    exponentPart rest = .ok (none, rest) := by
  cases rest with
  | nil => rfl
  | cons c rest =>
      have hc := hrest c rfl
      simp only [isNumberChar, Bool.or_eq_false_iff, decide_eq_false_iff_not] at hc
      exact if_neg (not_or.2 ⟨hc.1.2, hc.2⟩)

/-- All the digits of a number are taken, and there is no zero too many among them. -/
theorem number_toDigits (negative : Bool) (n : Nat) (hrest : Stops isNumberChar rest) :
    number negative (Nat.toDigits 10 n ++ rest) =
      inRange (wholeNumber negative (Nat.toDigits 10 n)) rest := by
  have hdigits : Stops Char.isDigit rest :=
    hrest.mono fun c hc => by rw [isNumberChar, hc]; rfl
  have hpoint : ∀ rest', rest ≠ '.' :: rest' := by
    rintro rest' rfl
    exact absurd (hrest '.' rfl) (by decide)
  have hall : ∀ c ∈ Nat.toDigits 10 n, c.isDigit = true := fun c hc => isDigit_of_mem_toDigits hc
  have hzero : ∀ d ds, Nat.toDigits 10 n ≠ '0' :: d :: ds := by
    intro d ds he
    obtain rfl := eq_zero_of_head?_toDigits (by rw [he]; rfl)
    cases he
  unfold number
  simp only [takeWhile_front hall hdigits, dropWhile_front hall hdigits]
  split
  · next he => exact absurd he Nat.toDigits_ne_nil
  · next he => exact absurd he (hzero _ _)
  · rw [exponentPart_stopped hrest]
    rfl

theorem foldl_toDigits (n : Nat) :
    (Nat.toDigits 10 n).foldl (fun n d => n * 10 + digitValue d) 0 = n :=
  decimalValue_toDigits n

theorem wholeNumber_natural {n : Nat} (h : n ≤ largestSignificand) :
    wholeNumber false (Nat.toDigits 10 n) = some (.int n) := by
  unfold wholeNumber
  rw [foldl_toDigits]
  exact if_pos h

theorem wholeNumber_negative {n : Nat} (hpos : 0 < n) (h : n ≤ 0x8000000000000000) :
    wholeNumber true (Nat.toDigits 10 n) = some (.int (-n)) := by
  unfold wholeNumber
  rw [foldl_toDigits]
  exact if_pos (And.intro hpos h)

/-! ### Values -/

/-- The values that are read back: no floating-point numbers, whole numbers of 64 bits, the fields of
an object in order, and arrays and objects that nest at most `depth` deep. -/
inductive Readable : Nat → Json → Prop where
  | null {depth : Nat} : Readable depth .null
  | bool {depth : Nat} (b : Bool) : Readable depth (.bool b)
  | int {depth : Nat} {n : Int} (low : -0x8000000000000000 ≤ n) (high : n ≤ largestSignificand) :
      Readable depth (.int n)
  | str {depth : Nat} (s : String) : Readable depth (.str s)
  | arr {depth : Nat} {l : List Json} (items : ∀ x ∈ l, Readable depth x) :
      Readable (depth + 1) (.arr l)
  | obj {depth : Nat} {l : List (String × Json)}
      (sorted : l.Pairwise fun a b => compare a.1 b.1 = .lt)
      (fields : ∀ e ∈ l, Readable depth e.2) : Readable (depth + 1) (.obj l)

/-- What a reader does with the text of a value: it starts, and it stops where the text goes on with
something else. -/
structure ReadsBack (item : List Char → Except SyntaxError (Parsed Json)) (j : Json) : Prop where
  starts : ∃ c cs, j.chars = c :: cs ∧ isBlank c = false ∧ c ≠ ']'
  reads : ∀ rest, Stops isNumberChar rest → item (j.chars ++ rest) = .ok (j, rest)

section Values

variable {depth : Nat} {item : List Char → Except SyntaxError (Parsed Json)}

theorem bind_parsed {α : Type} (a : α) (tail : Except SyntaxError (Parsed (List α))) :
    (tail >>= fun more => .ok (a :: more.1, more.2)) = tail.map (prepend a) := by
  cases tail <;> rfl

theorem isBlank_digit (h : c.isDigit = true) : isBlank c = false := by
  rw [Bool.eq_false_iff]
  intro hblank
  simp only [isBlank, Bool.or_eq_true, decide_eq_true_eq] at hblank
  rcases hblank with ((rfl | rfl) | rfl) | rfl <;> exact absurd h (by decide)

theorem value_digit (h : c.isDigit = true) : value depth (c :: rest) = number false (c :: rest) := by
  rw [value.eq_def, skipBlanks_cons (isBlank_digit h)]
  split
  case h_9 he =>
    cases he
    exact if_pos h
  all_goals next he => cases he <;> exact absurd h (by decide)

theorem value_minus : value depth ('-' :: rest) = number true rest := by
  cases depth <;> rfl

theorem value_quote : value depth ('"' :: rest) =
    (stringTail rest).map fun (s, rest) => (.str (String.ofList s), rest) := by
  cases depth <;> rfl

theorem value_bracket : value (depth + 1) ('[' :: rest) =
    (items (value depth) rest).map fun (xs, rest) => (.arr xs, rest) :=
  rfl

theorem value_brace : value (depth + 1) ('\x7b' :: rest) =
    (objectFields (value depth) rest).map fun (xs, rest) => (ofFields xs, rest) :=
  rfl

theorem readsBack_int {n : Int} (low : -0x8000000000000000 ≤ n) (high : n ≤ largestSignificand) :
    ReadsBack (value depth) (.int n) := by
  by_cases hneg : n < 0
  · have hchars : chars (.int n) = '-' :: Nat.toDigits 10 n.natAbs := if_pos hneg
    refine ⟨⟨_, _, hchars, by decide, by decide⟩, fun rest hrest => ?_⟩
    rw [hchars, List.cons_append, value_minus, number_toDigits _ _ hrest,
      wholeNumber_negative (by omega) (by omega), Int.ofNat_natAbs_of_nonpos (by omega), Int.neg_neg]
    rfl
  · have hchars : chars (.int n) = Nat.toDigits 10 n.natAbs := if_neg hneg
    obtain ⟨c, cs, hdigits⟩ : ∃ c cs, Nat.toDigits 10 n.natAbs = c :: cs :=
      List.exists_cons_of_ne_nil Nat.toDigits_ne_nil
    have hdigit : c.isDigit = true := isDigit_of_mem_toDigits (hdigits ▸ List.mem_cons_self)
    refine ⟨⟨c, cs, hchars.trans hdigits, isBlank_digit hdigit, ?_⟩, fun rest hrest => ?_⟩
    · rintro rfl
      exact absurd hdigit (by decide)
    · rw [hchars, hdigits, List.cons_append, value_digit hdigit, ← List.cons_append, ← hdigits,
        number_toDigits _ _ hrest, wholeNumber_natural (by omega), Int.natAbs_of_nonneg (by omega)]
      rfl

/-! ### Arrays -/

theorem itemsTail_comma {fuel : Nat} {x : Json} (hx : ReadsBack item x)
    (hrest : Stops isNumberChar rest) :
    itemsTail item (fuel + 1) (',' :: x.chars ++ rest) =
      (itemsTail item fuel rest).map (prepend x) := by
  obtain ⟨c, cs, hchars, hblank, hbracket⟩ := hx.starts
  have hread := hx.reads rest hrest
  rw [hchars] at hread ⊢
  have hskip : skipBlanks (',' :: (c :: cs ++ rest)) = ',' :: (c :: cs ++ rest) := rfl
  rw [List.cons_append, itemsTail, hskip]
  simp only [List.cons_append, skipBlanks_cons hblank]
  split
  · next he =>
      cases he
      exact absurd rfl hbracket
  · rw [← List.cons_append, hread]
    exact bind_parsed _ _

theorem stops_moreItems (l : List Json) (rest : List Char) :
    Stops isNumberChar (moreItems l ++ rest) := by
  cases l <;> exact stops_cons (by decide)

theorem itemsTail_moreItems {l : List Json} (hl : ∀ x ∈ l, ReadsBack item x)
    (rest : List Char) {fuel : Nat} (hfuel : l.length < fuel) :
    itemsTail item fuel (moreItems l ++ rest) = .ok (l, rest) := by
  induction l generalizing fuel with
  | nil =>
      cases fuel with
      | zero => cases hfuel
      | succ fuel => rfl
  | cons x l ih =>
      cases fuel with
      | zero => cases hfuel
      | succ fuel =>
          have hx := hl x List.mem_cons_self
          have hnext := ih (fun x hx => hl x (List.mem_cons_of_mem _ hx)) (Nat.lt_of_succ_lt_succ hfuel)
          rw [moreItems, List.append_assoc, itemsTail_comma hx (stops_moreItems l rest), hnext]
          rfl

/-- The reader has as many steps as there are characters left, which is enough. -/
theorem length_lt_moreItems (l : List Json) (rest : List Char) :
    l.length < (moreItems l ++ rest).length := by
  induction l with
  | nil => exact Nat.succ_pos _
  | cons x l ih =>
      rw [moreItems, List.append_assoc, List.length_append, List.length_cons, List.length_cons]
      omega

theorem items_first {x : Json} (hx : ReadsBack item x) (hrest : Stops isNumberChar rest) :
    items item (x.chars ++ rest) = (itemsTail item rest.length rest).map (prepend x) := by
  obtain ⟨c, cs, hchars, hblank, hbracket⟩ := hx.starts
  have hread := hx.reads rest hrest
  rw [hchars] at hread ⊢
  unfold items
  rw [List.cons_append, skipBlanks_cons hblank]
  split
  · next he => cases he
  · next he =>
      cases he
      exact absurd rfl hbracket
  · rw [← List.cons_append, hread]
    exact bind_parsed _ _

theorem readsBack_arr {l : List Json} (hl : ∀ x ∈ l, ReadsBack (value depth) x) :
    ReadsBack (value (depth + 1)) (.arr l) := by
  cases l with
  | nil => exact ⟨⟨_, _, rfl, by decide, by decide⟩, fun rest hrest => rfl⟩
  | cons x l =>
      refine ⟨⟨_, _, rfl, by decide, by decide⟩, fun rest hrest => ?_⟩
      have hitems : items (value depth) (x.chars ++ (moreItems l ++ rest)) = .ok (x :: l, rest) := by
        rw [items_first (hl x List.mem_cons_self) (stops_moreItems l rest),
          itemsTail_moreItems (fun x hx => hl x (List.mem_cons_of_mem _ hx)) rest
            (length_lt_moreItems l rest)]
        rfl
      rw [chars, List.append_assoc, List.cons_append, value_bracket, hitems]
      rfl

/-! ### Objects -/

theorem field_chars (key : String) {x : Json} (hx : ReadsBack item x)
    (hrest : Stops isNumberChar rest) :
    field item (stringChars key ++ ':' :: x.chars ++ rest) = .ok ((key, x), rest) := by
  have hkey : stringChars key ++ ':' :: x.chars ++ rest =
      '"' :: (key.toList.flatMap escapedChar ++ '"' :: ':' :: (x.chars ++ rest)) := by
    simp [stringChars]
  have hvalue : (item (x.chars ++ rest) >>= fun found =>
      .ok ((String.ofList key.toList, found.1), found.2)) = .ok ((key, x), rest) := by
    rw [hx.reads rest hrest, String.ofList_toList]
    rfl
  rw [hkey]
  simp only [field, stringTail_escaped]
  exact hvalue

theorem fieldsTail_comma {fuel : Nat} {key : String} {x : Json} (hx : ReadsBack item x)
    (hrest : Stops isNumberChar rest) :
    fieldsTail item (fuel + 1) (',' :: stringChars key ++ ':' :: x.chars ++ rest) =
      (fieldsTail item fuel rest).map (prepend (key, x)) := by
  have hread : fieldsTail item (fuel + 1) (',' :: stringChars key ++ ':' :: x.chars ++ rest) =
      (field item (stringChars key ++ ':' :: x.chars ++ rest) >>= fun first =>
        fieldsTail item fuel first.2 >>= fun more => .ok (first.1 :: more.1, more.2)) := rfl
  rw [hread, field_chars key hx hrest]
  exact bind_parsed _ _

theorem stops_moreFields (l : List (String × Json)) (rest : List Char) :
    Stops isNumberChar (moreFields l ++ rest) := by
  cases l <;> exact stops_cons (by decide)

theorem fieldsTail_moreFields {l : List (String × Json)} (hl : ∀ e ∈ l, ReadsBack item e.2)
    (rest : List Char) {fuel : Nat} (hfuel : l.length < fuel) :
    fieldsTail item fuel (moreFields l ++ rest) = .ok (l, rest) := by
  induction l generalizing fuel with
  | nil =>
      cases fuel with
      | zero => cases hfuel
      | succ fuel => rfl
  | cons e l ih =>
      cases fuel with
      | zero => cases hfuel
      | succ fuel =>
          have hnext := ih (fun e he => hl e (List.mem_cons_of_mem _ he)) (Nat.lt_of_succ_lt_succ hfuel)
          rw [moreFields, List.append_assoc, fieldsTail_comma (hl e List.mem_cons_self)
            (stops_moreFields l rest), hnext]
          rfl

theorem length_lt_moreFields (l : List (String × Json)) (rest : List Char) :
    l.length < (moreFields l ++ rest).length := by
  induction l with
  | nil => exact Nat.succ_pos _
  | cons e l ih =>
      rw [moreFields, List.append_assoc, List.length_append, List.length_append, List.length_cons,
        List.length_cons]
      omega

theorem objectFields_first {key : String} {x : Json} (hx : ReadsBack item x)
    (hrest : Stops isNumberChar rest) :
    objectFields item (stringChars key ++ ':' :: x.chars ++ rest) =
      (fieldsTail item rest.length rest).map (prepend (key, x)) := by
  have hread : objectFields item (stringChars key ++ ':' :: x.chars ++ rest) =
      (field item (stringChars key ++ ':' :: x.chars ++ rest) >>= fun first =>
        fieldsTail item first.2.length first.2 >>= fun more =>
          .ok (first.1 :: more.1, more.2)) := rfl
  rw [hread, field_chars key hx hrest]
  exact bind_parsed _ _

/-- Fields that are in order keep it. -/
theorem ofFields_of_sorted {l : List (String × Json)}
    (hsorted : l.Pairwise fun a b => compare a.1 b.1 = .lt) : ofFields l = .obj l := by
  let whole : Table String Json := ⟨l, hsorted⟩
  refine congrArg object (?_ : Table.ofList l = whole)
  refine Table.ext_get? fun key => ?_
  exact (get?_ofList_fields (distinct_object whole) key).trans (get?_object whole key)

theorem readsBack_obj {l : List (String × Json)}
    (hsorted : l.Pairwise fun a b => compare a.1 b.1 = .lt)
    (hl : ∀ e ∈ l, ReadsBack (value depth) e.2) : ReadsBack (value (depth + 1)) (.obj l) := by
  cases l with
  | nil => exact ⟨⟨_, _, rfl, by decide, by decide⟩, fun rest hrest => rfl⟩
  | cons e l =>
      refine ⟨⟨_, _, rfl, by decide, by decide⟩, fun rest hrest => ?_⟩
      have hfields : objectFields (value depth)
          (stringChars e.1 ++ ':' :: e.2.chars ++ (moreFields l ++ rest)) = .ok (e :: l, rest) := by
        rw [objectFields_first (hl e List.mem_cons_self) (stops_moreFields l rest),
          fieldsTail_moreFields (fun e he => hl e (List.mem_cons_of_mem _ he)) rest
            (length_lt_moreFields l rest)]
        rfl
      rw [chars, List.append_assoc, List.cons_append, List.cons_append, value_brace, hfields,
        ← ofFields_of_sorted hsorted]
      rfl

/-! ### Whole texts -/

/-- A value is read from its text, whatever follows that is no part of a number. -/
theorem Readable.readsBack {j : Json} (h : Readable depth j) : ReadsBack (value depth) j := by
  induction h with
  | @null depth => exact ⟨⟨_, _, rfl, by decide, by decide⟩, fun rest _ => by cases depth <;> rfl⟩
  | @bool depth b =>
      cases b <;>
        exact ⟨⟨_, _, rfl, by decide, by decide⟩, fun rest _ => by cases depth <;> rfl⟩
  | int low high => exact readsBack_int low high
  | str s =>
      refine ⟨⟨_, _, rfl, by decide, by decide⟩, fun rest _ => ?_⟩
      have hchars : chars (.str s) ++ rest = '"' :: (s.toList.flatMap escapedChar ++ '"' :: rest) := by
        simp [chars, stringChars]
      rw [hchars, value_quote, stringTail_escaped]
      show Except.ok (Json.str (String.ofList s.toList), rest) = _
      rw [String.ofList_toList]
  | arr _ ih => exact readsBack_arr ih
  | obj hsorted _ ih => exact readsBack_obj hsorted ih

theorem ofText_text {j : Json} (h : Readable deepest j) : ofText j.text = .ok j := by
  have hread := h.readsBack.reads [] stops_nil
  rw [List.append_nil] at hread
  unfold ofText ofChars
  rw [text, String.toList_ofList, hread]
  rfl

theorem parse_text {j : Json} (h : Readable deepest j) : parse j.text = .ok j := by
  rw [parse, ofText_text h]

/-- A reader that goes deeper reads all that one reads that does not. -/
theorem Readable.mono {j : Json} {depth' : Nat} (h : Readable depth j) (hle : depth ≤ depth') :
    Readable depth' j := by
  induction h generalizing depth' with
  | null => exact .null
  | bool b => exact .bool b
  | int low high => exact .int low high
  | str s => exact .str s
  | arr _ ih =>
      cases depth' with
      | zero => omega
      | succ deeper => exact .arr fun x hx => ih x hx (Nat.le_of_succ_le_succ hle)
  | obj hsorted _ ih =>
      cases depth' with
      | zero => omega
      | succ deeper => exact .obj hsorted fun e he => ih e he (Nat.le_of_succ_le_succ hle)

/-- Values that are read back if a reader goes deep enough: the numbers in them are whole and have 64
bits, and the fields of an object are in order. -/
inductive Integral : Json → Prop where
  | null : Integral .null
  | bool (b : Bool) : Integral (.bool b)
  | int {n : Int} (low : -0x8000000000000000 ≤ n) (high : n ≤ largestSignificand) :
      Integral (.int n)
  | str (s : String) : Integral (.str s)
  | arr {l : List Json} (items : ∀ x ∈ l, Integral x) : Integral (.arr l)
  | obj {l : List (String × Json)} (sorted : l.Pairwise fun a b => compare a.1 b.1 = .lt)
      (fields : ∀ e ∈ l, Integral e.2) : Integral (.obj l)

/-- What is deep enough for each item of a list is, at its deepest, enough for all. -/
theorem exists_readable_all {l : List Json} (h : ∀ x ∈ l, ∃ depth, Readable depth x) :
    ∃ depth, ∀ x ∈ l, Readable depth x := by
  induction l with
  | nil => exact ⟨0, nofun⟩
  | cons x l ih =>
      obtain ⟨first, hfirst⟩ := h x List.mem_cons_self
      obtain ⟨rest, hrest⟩ := ih fun y hy => h y (List.mem_cons_of_mem _ hy)
      refine ⟨max first rest, fun y hy => ?_⟩
      rcases List.mem_cons.1 hy with rfl | hy
      · exact hfirst.mono (Nat.le_max_left _ _)
      · exact (hrest y hy).mono (Nat.le_max_right _ _)

theorem Integral.exists_readable {j : Json} (h : Integral j) : ∃ depth, Readable depth j := by
  induction h with
  | null => exact ⟨0, .null⟩
  | bool b => exact ⟨0, .bool b⟩
  | int low high => exact ⟨0, .int low high⟩
  | str s => exact ⟨0, .str s⟩
  | arr _ ih =>
      obtain ⟨depth, hitems⟩ := exists_readable_all ih
      exact ⟨depth + 1, .arr hitems⟩
  | @obj l hsorted _ ih =>
      obtain ⟨depth, hvalues⟩ := exists_readable_all (l := l.map Prod.snd) fun x hx => by
        obtain ⟨e, he, rfl⟩ := List.mem_map.1 hx
        exact ih e he
      exact ⟨depth + 1, .obj hsorted fun e he => hvalues _ (List.mem_map_of_mem he)⟩

/-- Values of one text are the same, however deep they nest, since one reader would read both. -/
theorem Readable.text_inj {j j' : Json} {depth' : Nat} (h : Readable depth j)
    (h' : Readable depth' j') : j.text = j'.text ↔ j = j' := by
  refine ⟨fun he => ?_, congrArg text⟩
  have hread := (h.mono (Nat.le_max_left depth depth')).readsBack.reads [] stops_nil
  have hread' := (h'.mono (Nat.le_max_right depth depth')).readsBack.reads [] stops_nil
  have hchars : j.chars = j'.chars := String.ofList_injective he
  rw [hchars, hread'] at hread
  cases hread
  rfl

end Values

end MemberAgent.Json
