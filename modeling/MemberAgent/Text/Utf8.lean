/-! Reading bytes as UTF-8. A malformed input is reported at the first byte of the first sequence
that is no character, with the number of bytes that already rule it out; a sequence that only lacks
its last bytes at the end of the input is reported as incomplete. -/

namespace MemberAgent.Utf8

inductive Defect where
  | invalid (length : Nat)
  | incomplete
  deriving DecidableEq, Repr

structure Error where
  index : Nat
  defect : Defect
  deriving DecidableEq, Repr

def Error.message : Error → String
  | ⟨index, .invalid length⟩ => s!"invalid utf-8 sequence of {length} bytes from index {index}"
  | ⟨index, .incomplete⟩ => s!"incomplete utf-8 byte sequence from index {index}"

/-- What the first byte of a longer sequence announces: how many bytes follow, the range of the
first of them, and the bits it carries itself. -/
structure Lead where
  following : Nat
  low : UInt8
  high : UInt8
  bits : Nat

/-- The narrowed ranges leave out overlong forms, surrogates and what lies beyond the last code
point. -/
def lead? (b : UInt8) : Option Lead :=
  let bits := b.toNat
  if b < 0xC2 then none
  else if b < 0xE0 then some ⟨1, 0x80, 0xBF, bits - 0xC0⟩
  else if b = 0xE0 then some ⟨2, 0xA0, 0xBF, 0⟩
  else if b = 0xED then some ⟨2, 0x80, 0x9F, 13⟩
  else if b < 0xF0 then some ⟨2, 0x80, 0xBF, bits - 0xE0⟩
  else if b = 0xF0 then some ⟨3, 0x90, 0xBF, 0⟩
  else if b < 0xF4 then some ⟨3, 0x80, 0xBF, bits - 0xF0⟩
  else if b = 0xF4 then some ⟨3, 0x80, 0x8F, 4⟩
  else none

/-- Reads `following` continuation bytes after `seen` bytes whose bits are `bits`. Answers the code
point and what follows it. -/
def continuation (seen bits : Nat) (low high : UInt8) :
    Nat → List UInt8 → Except Defect (Nat × List UInt8)
  | 0, rest => .ok (bits, rest)
  | _ + 1, [] => .error .incomplete
  | following + 1, b :: rest =>
    if low ≤ b ∧ b ≤ high then
      continuation (seen + 1) (bits * 64 + (b.toNat - 0x80)) 0x80 0xBF following rest
    else .error (.invalid seen)

/-- One character and what follows it. -/
def next (b : UInt8) (rest : List UInt8) : Except Defect (Char × List UInt8) :=
  if b < 0x80 then .ok (Char.ofNat b.toNat, rest)
  else match lead? b with
    | none => .error (.invalid 1)
    | some l => (continuation 1 l.bits l.low l.high l.following rest).map fun (code, rest) =>
      (Char.ofNat code, rest)

theorem continuation_length {seen bits : Nat} {low high : UInt8} {n code : Nat}
    {bs rest : List UInt8} (h : continuation seen bits low high n bs = .ok (code, rest)) :
    rest.length ≤ bs.length := by
  induction n generalizing seen bits low high bs with
  | zero => cases h; exact Nat.le_refl _
  | succ n ih =>
    cases bs with
    | nil => cases h
    | cons b bs =>
      unfold continuation at h
      split at h
      · exact Nat.le_succ_of_le (ih h)
      · cases h

theorem next_length {b : UInt8} {bs rest : List UInt8} {c : Char} (h : next b bs = .ok (c, rest)) :
    rest.length ≤ bs.length := by
  unfold next at h
  split at h
  · cases h; exact Nat.le_refl _
  · split at h
    · cases h
    · rename_i l _
      cases e : continuation 1 l.bits l.low l.high l.following bs with
      | error d => rw [e] at h; cases h
      | ok r => rw [e] at h; cases h; exact continuation_length e

def decodeFrom (index : Nat) (bs : List UInt8) : Except Error (List Char) :=
  match bs with
  | [] => .ok []
  | b :: rest => match h : next b rest with
    | .error defect => .error ⟨index, defect⟩
    | .ok (c, rest') =>
      (decodeFrom (index + (rest.length + 1 - rest'.length)) rest').map (c :: ·)
termination_by bs.length
decreasing_by exact Nat.lt_succ_of_le (next_length h)

def decode (bs : List UInt8) : Except Error String := (decodeFrom 0 bs).map String.ofList

end MemberAgent.Utf8
