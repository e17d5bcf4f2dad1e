import MemberAgent.Proofs.Json.ReadBack

/-! Typed values read back. A record has its keys in order, so each of its fields is found under its
key, absent ones as absent; a list is read item by item. -/

namespace MemberAgent.Json

variable {α : Type} {depth : Nat} {read : Json → Reading α}

/-- A value is written as JSON that goes through its text and from which it is read. -/
structure Writes (depth : Nat) (read : Json → Reading α) (j : Json) (a : α) : Prop where
  readable : Readable depth j
  reads : read j = .ok a

theorem Writes.readText {j : Json} {a : α} (h : Writes deepest read j a) :
    readText read j.text = .ok a := by
  unfold Json.readText
  rw [parse_text h.readable]
  simp only [bind, Except.bind, h.reads]

/-- Values that are read back have one text only if they are the same. -/
theorem Writes.text_inj {json : α → Json} {a b : α} (ha : Writes deepest read (json a) a)
    (hb : Writes deepest read (json b) b) : (json a).text = (json b).text ↔ a = b := by
  refine ⟨fun he => ?_, fun he => by rw [he]⟩
  have hread := ha.readText
  rw [he, hb.readText] at hread
  exact (Except.ok.inj hread).symm

theorem bind_eq_ok {β : Type} {x : Reading α} {f : α → Reading β} {b : β} (h : x >>= f = .ok b) :
    ∃ a, x = .ok a ∧ f a = .ok b := by
  cases x with
  | error e => cases h
  | ok a => exact ⟨a, rfl, h⟩

/-! ### Lists -/

section List

variable {json : α → Json} {l : List α}

theorem readItems_map (h : ∀ a ∈ l, read (json a) = .ok a) (index : Nat) :
    readItems read index (l.map json) = .ok l := by
  induction l generalizing index with
  | nil => rfl
  | cons a l ih =>
      have hrest := ih (fun a ha => h a (List.mem_cons_of_mem _ ha)) (index + 1)
      rw [List.map_cons, readItems, h a List.mem_cons_self, hrest]
      rfl

theorem writes_list (h : ∀ a ∈ l, Writes depth read (json a) a) :
    Writes (depth + 1) (asList read) (.arr (l.map json)) l where
  readable := .arr fun x hx => by
    obtain ⟨a, ha, rfl⟩ := List.mem_map.1 hx
    exact (h a ha).readable
  reads := readItems_map (fun a ha => (h a ha).reads) 0

end List

/-! ### Records -/

section Record

variable {entries : List (String × Option Json)} {key : String}

/-- The keys of a record are in increasing order. -/
def InOrder (entries : List (String × Option Json)) : Prop :=
  (entries.map Prod.fst).Pairwise fun a b => compare a b = .lt

theorem inOrder {keys : List String} (hsorted : keys.Pairwise fun a b => compare a b = .lt)
    (hkeys : entries.map Prod.fst = keys) : InOrder entries := by
  subst hkeys
  exact hsorted

/-- Records with the same keys are the same only if their entries are. -/
theorem record_inj {entries' : List (String × Option Json)}
    (hnodup : (entries.map Prod.fst).Nodup)
    (hkeys : entries.map Prod.fst = entries'.map Prod.fst) :
    record entries = record entries' ↔ entries = entries' := by
  refine ⟨fun h => ?_, congrArg record⟩
  have hall : ∀ l : List (String × Option Json), (l.map Prod.fst).Nodup →
      l = (l.map Prod.fst).map fun key => (key, (record l).get? key) := by
    intro l hl
    rw [List.map_map]
    refine (List.map_id l).symm.trans (List.map_congr_left fun e he => ?_)
    have hlookup : l.lookup e.1 = some e.2 := (lookup_eq_some_iff_mem hl).2 he
    rw [Function.comp_apply, get?_record hl, hlookup]
    rfl
  rw [hall entries hnodup, hall entries' (hkeys ▸ hnodup), hkeys, h]

theorem lookup_record (horder : InOrder entries) {value : Option Json}
    (hvalue : entries.lookup key = some value) : (record entries).fields.lookup key = value :=
  (get?_record (nodup_of_sorted horder) key).trans (congrArg Option.join hvalue)

theorem field?_record (horder : InOrder entries) {j : Json} {a : α}
    (hvalue : entries.lookup key = some (some j)) (hread : read j = .ok a) :
    field? (record entries).fields key read = .ok (some a) := by
  rw [field?, lookup_record horder hvalue]
  show within (.key key) (some <$> read j) = _
  rw [hread]
  rfl

theorem asOption_of_ne_null {j : Json} (hnull : j ≠ .null) :
    asOption read j = some <$> read j := by
  cases j with
  | null => exact absurd rfl hnull
  | _ => rfl

theorem optional_of_lookup {fields : List (String × Json)} {j : Json} {a : α}
    (hlookup : fields.lookup key = some j) (hnull : j ≠ .null) (hread : read j = .ok a) :
    optional fields key read = .ok (some a) := by
  rw [optional, field?, hlookup]
  show Option.join <$> within (.key key) (some <$> asOption read j) = _
  rw [asOption_of_ne_null hnull, hread]
  rfl

theorem optional_record (horder : InOrder entries) {json : α → Json} {value : Option α}
    (hvalue : entries.lookup key = some (value.map json)) (hnull : ∀ a, json a ≠ .null)
    (hread : ∀ a ∈ value, read (json a) = .ok a) :
    optional (record entries).fields key read = .ok value := by
  have hlookup := lookup_record horder hvalue
  cases value with
  | none => rw [optional, field?, hlookup]; rfl
  | some a => exact optional_of_lookup hlookup (hnull a) (hread a rfl)

theorem readable_record (horder : InOrder entries)
    (h : ∀ e ∈ entries, ∀ j ∈ e.2, Readable depth j) : Readable (depth + 1) (record entries) := by
  refine .obj (List.pairwise_map.1 (horder.sublist (keys_record_sublist entries))) fun e he => ?_
  obtain ⟨e', he', hvalue⟩ := List.mem_filterMap.1 he
  obtain ⟨j, hj, rfl⟩ := Option.map_eq_some_iff.1 hvalue
  exact h e' he' j hj

end Record

end MemberAgent.Json
