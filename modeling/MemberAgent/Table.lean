/-! Finite maps. The entries stand in strictly increasing key order, so two maps with the same
lookups are the same value (`Table.ext_get?`); `get?_insert`, `get?_erase` and `get?_filter` say
what each operation does to a lookup. And lists in which each key counts once. -/

namespace MemberAgent

open Std

universe u v w

/-- A finite map from `κ` to `ν`. -/
structure Table (κ : Type u) (ν : Type v) [Ord κ] where
  entries : List (κ × ν)
  sorted : entries.Pairwise fun a b => compare a.1 b.1 = .lt

namespace Table

variable {κ : Type u} {ν : Type v} [Ord κ]

theorem eq_of_entries {s t : Table κ ν} (h : s.entries = t.entries) : s = t := by
  cases s; cases t; cases h; rfl

instance [DecidableEq κ] [DecidableEq ν] : DecidableEq (Table κ ν) := fun s t =>
  decidable_of_iff (s.entries = t.entries) ⟨eq_of_entries, fun h => h ▸ rfl⟩

def empty : Table κ ν := ⟨[], .nil⟩

instance : EmptyCollection (Table κ ν) := ⟨empty⟩
instance : Inhabited (Table κ ν) := ⟨empty⟩

def toList (t : Table κ ν) : List (κ × ν) := t.entries
def keys (t : Table κ ν) : List κ := t.entries.map (·.1)
def values (t : Table κ ν) : List ν := t.entries.map (·.2)
def size (t : Table κ ν) : Nat := t.entries.length
def isEmpty (t : Table κ ν) : Bool := t.entries.isEmpty

/-- The value under `k` in a list of entries. -/
def lookup (k : κ) : List (κ × ν) → Option ν
  | [] => none
  | e :: rest => match compare k e.1 with
    | .eq => some e.2
    | _ => lookup k rest

def get? (t : Table κ ν) (k : κ) : Option ν := lookup k t.entries

def contains (t : Table κ ν) (k : κ) : Bool := (t.get? k).isSome

/-- Puts `v` under `k`, in place of what stood there. -/
def insertEntry (k : κ) (v : ν) : List (κ × ν) → List (κ × ν)
  | [] => [(k, v)]
  | e :: rest => match compare k e.1 with
    | .lt => (k, v) :: e :: rest
    | .eq => (k, v) :: rest
    | .gt => e :: insertEntry k v rest

theorem mem_insertEntry {k : κ} {v : ν} {x : κ × ν} {l : List (κ × ν)}
    (h : x ∈ insertEntry k v l) : x = (k, v) ∨ x ∈ l := by
  induction l with
  | nil => simpa [insertEntry] using h
  | cons e rest ih =>
    unfold insertEntry at h
    split at h
    · simpa using h
    · rcases List.mem_cons.1 h with h | h
      · exact .inl h
      · exact .inr (List.mem_cons_of_mem _ h)
    · rcases List.mem_cons.1 h with h | h
      · exact .inr (h ▸ List.mem_cons_self)
      · exact (ih h).imp_right (List.mem_cons_of_mem _)

theorem sorted_insertEntry [TransOrd κ] (k : κ) (v : ν) {l : List (κ × ν)}
    (h : l.Pairwise fun a b => compare a.1 b.1 = .lt) :
    (insertEntry k v l).Pairwise fun a b => compare a.1 b.1 = .lt := by
  induction l with
  | nil => simp [insertEntry]
  | cons e rest ih =>
    obtain ⟨first, tail⟩ := List.pairwise_cons.1 h
    unfold insertEntry
    split
    case h_1 lt =>
      refine List.pairwise_cons.2 ⟨fun x hx => ?_, h⟩
      rcases List.mem_cons.1 hx with rfl | hx
      · exact lt
      · exact TransCmp.lt_trans lt (first x hx)
    case h_2 eq =>
      exact List.pairwise_cons.2 ⟨fun x hx => TransCmp.lt_of_eq_of_lt eq (first x hx), tail⟩
    case h_3 gt =>
      refine List.pairwise_cons.2 ⟨fun x hx => ?_, ih tail⟩
      rcases mem_insertEntry hx with rfl | hx
      · exact OrientedCmp.gt_iff_lt.1 gt
      · exact first x hx

def insert [TransOrd κ] (t : Table κ ν) (k : κ) (v : ν) : Table κ ν :=
  ⟨insertEntry k v t.entries, sorted_insertEntry k v t.sorted⟩

/-- Keeps the entries that `keep` accepts. -/
def filter (keep : κ → ν → Bool) (t : Table κ ν) : Table κ ν :=
  ⟨t.entries.filter fun e => keep e.1 e.2, t.sorted.filter _⟩

def erase (t : Table κ ν) (k : κ) : Table κ ν := t.filter fun key _ => compare k key != .eq

/-- Changes every value and no key. -/
def mapValues {ω : Type w} (f : κ → ν → ω) (t : Table κ ν) : Table κ ω :=
  ⟨t.entries.map fun e => (e.1, f e.1 e.2), by
    rw [List.pairwise_map]; exact t.sorted⟩

/-- Of several values under one key the last one counts. -/
def ofList [TransOrd κ] (l : List (κ × ν)) : Table κ ν :=
  l.foldl (fun t e => t.insert e.1 e.2) ∅

@[simp] theorem get?_empty (k : κ) : (∅ : Table κ ν).get? k = none := rfl

theorem lookup_insertEntry [TransOrd κ] [LawfulEqOrd κ] [DecidableEq κ] (k : κ) (v : ν) (k' : κ)
    {l : List (κ × ν)} (h : l.Pairwise fun a b => compare a.1 b.1 = .lt) :
    lookup k' (insertEntry k v l) = if k = k' then some v else lookup k' l := by
  induction l with
  | nil =>
    by_cases hk : k = k'
    · subst hk; simp [insertEntry, lookup, ReflCmp.compare_self]
    · have ne : compare k' k ≠ .eq := fun e => hk (LawfulEqCmp.eq_of_compare e).symm
      simp [insertEntry, lookup, hk]
  | cons e rest ih =>
    obtain ⟨first, tail⟩ := List.pairwise_cons.1 h
    unfold insertEntry
    by_cases hk : k = k'
    · subst hk
      split <;> simp_all [lookup, ReflCmp.compare_self]
    · have ne : compare k' k ≠ .eq := fun e => hk (LawfulEqCmp.eq_of_compare e).symm
      split
      case h_1 => simp [lookup, hk]
      case h_2 eq =>
        cases LawfulEqCmp.eq_of_compare eq
        simp [lookup, hk]
      case h_3 => simp only [lookup]; split <;> simp_all

@[simp] theorem get?_insert [TransOrd κ] [LawfulEqOrd κ] [DecidableEq κ] (t : Table κ ν) (k : κ)
    (v : ν) (k' : κ) : (t.insert k v).get? k' = if k = k' then some v else t.get? k' :=
  lookup_insertEntry k v k' t.sorted

theorem mem_of_lookup [LawfulEqOrd κ] {k : κ} {v : ν} {l : List (κ × ν)}
    (h : lookup k l = some v) : (k, v) ∈ l := by
  induction l with
  | nil => cases h
  | cons e rest ih =>
    unfold lookup at h
    split at h
    case h_1 eq =>
      cases LawfulEqCmp.eq_of_compare eq
      cases h
      exact List.mem_cons_self
    case h_2 => exact List.mem_cons_of_mem _ (ih h)

theorem lookup_of_mem [TransOrd κ] {k : κ} {v : ν} {l : List (κ × ν)}
    (sorted : l.Pairwise fun a b => compare a.1 b.1 = .lt) (h : (k, v) ∈ l) :
    lookup k l = some v := by
  induction l with
  | nil => cases h
  | cons e rest ih =>
    obtain ⟨first, tail⟩ := List.pairwise_cons.1 sorted
    unfold lookup
    rcases List.mem_cons.1 h with rfl | h
    · simp [ReflCmp.compare_self]
    · have lt : compare k e.1 = .gt := OrientedCmp.gt_iff_lt.2 (first _ h)
      simp [lt, ih tail h]

theorem get?_eq_some_iff [TransOrd κ] [LawfulEqOrd κ] {t : Table κ ν} {k : κ} {v : ν} :
    t.get? k = some v ↔ (k, v) ∈ t.entries :=
  ⟨mem_of_lookup, lookup_of_mem t.sorted⟩

@[simp] theorem get?_filter [TransOrd κ] [LawfulEqOrd κ] (t : Table κ ν) (keep : κ → ν → Bool)
    (k : κ) : (t.filter keep).get? k = (t.get? k).filter (keep k) := by
  apply Option.ext
  intro v
  rw [get?_eq_some_iff, Option.filter_eq_some_iff, get?_eq_some_iff]
  simp [filter]

@[simp] theorem get?_erase [TransOrd κ] [LawfulEqOrd κ] [DecidableEq κ] (t : Table κ ν) (k k' : κ) :
    (t.erase k).get? k' = if k = k' then none else t.get? k' := by
  rw [erase, get?_filter]
  by_cases h : k = k'
  · subst h; cases t.get? k <;> simp [Option.filter, ReflCmp.compare_self]
  · have : compare k k' ≠ .eq := fun e => h (LawfulEqCmp.eq_of_compare e)
    cases t.get? k' <;> simp [Option.filter, h, this]

@[simp] theorem get?_mapValues {ω : Type w} (t : Table κ ν) (f : κ → ν → ω) [LawfulEqOrd κ]
    (k : κ) : (t.mapValues f).get? k = (t.get? k).map (f k) := by
  show lookup k (t.entries.map _) = (lookup k t.entries).map _
  induction t.entries with
  | nil => rfl
  | cons e rest ih =>
    simp only [List.map_cons, lookup]
    split
    case h_1 eq => cases LawfulEqCmp.eq_of_compare eq; rfl
    case h_2 => exact ih

theorem entries_eq_of_mem_iff [TransOrd κ] {l m : List (κ × ν)}
    (hl : l.Pairwise fun a b => compare a.1 b.1 = .lt)
    (hm : m.Pairwise fun a b => compare a.1 b.1 = .lt) (h : ∀ x, x ∈ l ↔ x ∈ m) : l = m := by
  induction l generalizing m with
  | nil =>
    cases m with
    | nil => rfl
    | cons e _ => exact absurd ((h e).2 List.mem_cons_self) (by simp)
  | cons a l ih =>
    cases m with
    | nil => exact absurd ((h a).1 List.mem_cons_self) (by simp)
    | cons b m =>
      obtain ⟨al, tail_l⟩ := List.pairwise_cons.1 hl
      obtain ⟨bm, tail_m⟩ := List.pairwise_cons.1 hm
      have irrefl : ∀ x : κ, compare x x ≠ .lt := fun x e => by
        have same : compare x x = .eq := ReflCmp.compare_self
        rw [same] at e; cases e
      have head : a = b := by
        rcases List.mem_cons.1 ((h a).1 List.mem_cons_self) with e | am
        · exact e
        · rcases List.mem_cons.1 ((h b).2 List.mem_cons_self) with e | bl
          · exact e.symm
          · exact absurd (TransCmp.lt_trans (al _ bl) (bm _ am)) (irrefl _)
      subst head
      refine congrArg _ (ih tail_l tail_m fun x => ⟨fun hx => ?_, fun hx => ?_⟩)
      · rcases List.mem_cons.1 ((h x).1 (List.mem_cons_of_mem _ hx)) with e | hx'
        · exact absurd (e ▸ al x hx) (irrefl _)
        · exact hx'
      · rcases List.mem_cons.1 ((h x).2 (List.mem_cons_of_mem _ hx)) with e | hx'
        · exact absurd (e ▸ bm x hx) (irrefl _)
        · exact hx'

theorem ext_get? [TransOrd κ] [LawfulEqOrd κ] {s t : Table κ ν}
    (h : ∀ k, s.get? k = t.get? k) : s = t := by
  refine eq_of_entries (entries_eq_of_mem_iff s.sorted t.sorted fun x => ?_)
  rw [← get?_eq_some_iff, ← get?_eq_some_iff, h]

end Table

/-- The first element of each key. -/
def firstByKey {α κ : Type} [DecidableEq κ] (key : α → κ) : List α → List α
  | [] => []
  | a :: rest => a :: (firstByKey key rest).filter fun b => key b ≠ key a

end MemberAgent
