import MemberAgent.Discovery.Lookup
import Mathlib.Data.List.Induction

/-! What is known about the kinds of a cluster, over any number of lookups and whatever the discoveries
come to. The table that is known is always that of the last discovery that succeeded: a lookup that finds
its kind there costs nothing, any other one costs one discovery, and a discovery that fails takes nothing
away. What answers the lookups here is a mapper whose discoveries come to anything; that a server is asked
over the wire in the same way is shown in `Wired`. -/

namespace MemberAgent.Discovery

/-- What a discovery comes to. -/
abbrev Discovered := Except ClientFault KindTable

/-- The table of the last discovery that succeeded. -/
def lastTable (discovered : List Discovered) : Option KindTable :=
  discovered.reverse.findSome? Except.toOption

theorem lastTable_concat (discovered : List Discovered) (next : Discovered) :
    lastTable (discovered ++ [next]) = next.toOption.or (lastTable discovered) := by
  rw [lastTable, List.reverse_concat, List.findSome?_cons]
  cases next <;> rfl

/-- A mapper between two lookups: the table that it knows, and what the discoveries of its lookups have
come to so far. -/
structure Mapper where
  known : Option KindTable := none
  discovered : List Discovered := []

namespace Mapper

variable {outcome : Nat → Discovered} {m : Mapper} {kind : Kind} {found : ResourceMapping}
  {table : KindTable} {fault : ClientFault}

/-- What is known about a kind. -/
def find? (m : Mapper) (kind : Kind) : Option ResourceMapping := m.known.bind (·.get? kind)

/-- What the next discovery will come to. -/
def next (outcome : Nat → Discovered) (m : Mapper) : Discovered := outcome m.discovered.length

/-- Answers what a lookup needs. -/
def answer (outcome : Nat → Discovered) (m : Mapper) : (c : LookupCall) → c.Reply × Mapper
  | .known => (m.known, m)
  | .discover => (m.next outcome, { m with discovered := m.discovered ++ [m.next outcome] })
  | .remember table => ((), { m with known := some table })

def run {α : Type} (outcome : Nat → Discovered) (m : Mapper) : Program lookupCalls α → α × Mapper
  | .done a => (a, m)
  | .call c next => run outcome (m.answer outcome c).2 (next (m.answer outcome c).1)

/-- One lookup, and the mapper after it. -/
def lookup (outcome : Nat → Discovered) (m : Mapper) (kind : Kind) :
    Except ClientFault (Option ResourceMapping) × Mapper :=
  m.run outcome (Discovery.lookup kind)

/-- The mapper after lookups one after the other. -/
def after (outcome : Nat → Discovered) (kinds : List Kind) : Mapper :=
  kinds.foldl (fun m kind => (m.lookup outcome kind).2) {}

/-! ### One lookup -/

theorem lookup_eq : m.lookup outcome kind = m.run outcome (match m.find? kind with
    | some found => return .ok (some found)
    | none => refresh kind) := rfl

/-- What is known is answered at once. -/
theorem lookup_known (h : m.find? kind = some found) :
    m.lookup outcome kind = (.ok (some found), m) := by
  rw [lookup_eq, h]
  rfl

/-- What is not known costs one discovery. If that fails, all is known that was known before; otherwise
its table is known from then on, and the answer is in it. -/
theorem lookup_unknown (h : m.find? kind = none) : m.lookup outcome kind = match m.next outcome with
    | .ok table => (.ok (table.get? kind), ⟨some table, m.discovered ++ [.ok table]⟩)
    | .error fault => (.error fault, ⟨m.known, m.discovered ++ [.error fault]⟩) := by
  rw [lookup_eq, h]
  simp only [refresh, discover, Program.perform, Program.bind_call, Program.bind_done, run, answer]
  cases m.next outcome <;> rfl

theorem discovered_lookup (h : m.find? kind = none) :
    (m.lookup outcome kind).2.discovered = m.discovered ++ [m.next outcome] := by
  rw [lookup_unknown h]
  cases m.next outcome <;> rfl

/-- What is answered where nothing is known is what the next discovery says. -/
theorem answer_lookup (h : m.find? kind = none) :
    (m.lookup outcome kind).1 = (m.next outcome).map (·.get? kind) := by
  rw [lookup_unknown h]
  cases m.next outcome <;> rfl

theorem lookup_eq_missing :
    (m.lookup outcome kind).1 = .ok none ↔
      m.find? kind = none ∧ ∃ table, m.next outcome = .ok table ∧ table.get? kind = none := by
  cases h : m.find? kind with
  | some found => simp [lookup_known h]
  | none =>
      rw [answer_lookup h]
      cases m.next outcome <;> simp [Except.map]

theorem lookup_eq_error :
    (m.lookup outcome kind).1 = .error fault ↔ m.find? kind = none ∧ m.next outcome = .error fault := by
  cases h : m.find? kind with
  | some found => simp [lookup_known h]
  | none =>
      rw [answer_lookup h]
      cases m.next outcome <;> simp [Except.map]

theorem known_of_error (h : (m.lookup outcome kind).1 = .error fault) :
    (m.lookup outcome kind).2.known = m.known := by
  obtain ⟨hunknown, hnext⟩ := lookup_eq_error.1 h
  rw [lookup_unknown hunknown, hnext]

/-! ### Any number of lookups -/

theorem after_concat (kinds : List Kind) (kind : Kind) :
    after outcome (kinds ++ [kind]) = ((after outcome kinds).lookup outcome kind).2 :=
  List.foldl_append

/-- A mapper that knows the table of the last discovery that succeeded, after as many of them as it has
needed. -/
structure Current (outcome : Nat → Discovered) (m : Mapper) : Prop where
  known : m.known = lastTable m.discovered
  discovered : m.discovered = (List.range m.discovered.length).map outcome

theorem Current.lookup (h : Current outcome m) (kind : Kind) :
    Current outcome (m.lookup outcome kind).2 := by
  cases hfind : m.find? kind with
  | some found => rwa [lookup_known hfind]
  | none =>
      refine ⟨?_, ?_⟩
      · rw [discovered_lookup hfind, lastTable_concat, lookup_unknown hfind, ← h.known]
        cases m.next outcome <;> rfl
      · rw [discovered_lookup hfind, List.length_append, List.length_singleton, List.range_succ,
          List.map_append, ← h.discovered]
        rfl

theorem current_after (outcome : Nat → Discovered) (kinds : List Kind) :
    Current outcome (after outcome kinds) := by
  induction kinds using List.reverseRecOn with
  | nil => exact ⟨rfl, rfl⟩
  | append_singleton kinds kind ih =>
      rw [after_concat]
      exact ih.lookup kind

/-- What can be relied on when a kind is looked up. -/
structure Served (outcome : Nat → Discovered) (m : Mapper) (kind : Kind) : Prop where
  known : ∀ found, m.find? kind = some found → m.lookup outcome kind = (.ok (some found), m)
  /-- What is not known costs one discovery, and no more. -/
  once : m.find? kind = none →
    (m.lookup outcome kind).2.discovered = m.discovered ++ [m.next outcome]
  found : ∀ table, m.find? kind = none → m.next outcome = .ok table →
    (m.lookup outcome kind).1 = .ok (table.get? kind)
  missing : (m.lookup outcome kind).1 = .ok none ↔
    m.find? kind = none ∧ ∃ table, m.next outcome = .ok table ∧ table.get? kind = none
  failed : ∀ fault, (m.lookup outcome kind).1 = .error fault ↔
    m.find? kind = none ∧ m.next outcome = .error fault
  /-- After a failure everything is found that was known before. -/
  kept : ∀ fault, (m.lookup outcome kind).1 = .error fault →
    (m.lookup outcome kind).2.known = m.known ∧ ∀ other found, m.find? other = some found →
      (m.lookup outcome kind).2.lookup outcome other =
        (.ok (some found), (m.lookup outcome kind).2)

theorem served (outcome : Nat → Discovered) (m : Mapper) (kind : Kind) : Served outcome m kind where
  known _ := lookup_known
  once := discovered_lookup
  found table h hnext := by rw [answer_lookup h, hnext, Except.map]
  missing := lookup_eq_missing
  failed _ := lookup_eq_error
  kept fault h := by
    have hknown := known_of_error h
    refine ⟨hknown, fun other found hother => lookup_known ?_⟩
    rw [find?, hknown]
    exact hother

/-- After any number of lookups, and whatever the discoveries come to, the table that is known is that of
the last discovery that succeeded. A kind that is in it is found there; another one is reported missing
only by a discovery made for this lookup, and a discovery that fails costs nothing that was known. -/
theorem known_from_last_discovery (outcome : Nat → Discovered) (kinds : List Kind) (kind : Kind) :
    (after outcome kinds).known = lastTable (after outcome kinds).discovered ∧
      (after outcome kinds).discovered =
        (List.range (after outcome kinds).discovered.length).map outcome ∧
      Served outcome (after outcome kinds) kind :=
  ⟨(current_after outcome kinds).known, (current_after outcome kinds).discovered,
    served outcome (after outcome kinds) kind⟩

end Mapper

/-! ### A kind that is served later -/

namespace Installed

open Mapper

def mapping (kind plural : String) : ResourceMapping := ⟨"", "v1", "v1", kind, plural, true⟩

def tableOf (mappings : List ResourceMapping) : KindTable :=
  Table.ofList (mappings.map fun m => (m.lookedUpAs, m))

def configMap : ResourceMapping := mapping "ConfigMap" "configmaps"

def widget : ResourceMapping := mapping "Widget" "widgets"

/-- The second discovery fails; from then on widgets are served. -/
def outcome : Nat → Discovered
  | 0 => .ok (tableOf [configMap])
  | 1 => .error (.transport "connection refused")
  | _ => .ok (tableOf [configMap, widget])

/-- The first discovery finds no widgets, and the one that fails keeps what is known; the next one finds
them. -/
theorem found_once_served :
    (after outcome [configMap.lookedUpAs, widget.lookedUpAs]).known = some (tableOf [configMap]) ∧
      ((after outcome [configMap.lookedUpAs]).lookup outcome widget.lookedUpAs).1 =
        .error (.transport "connection refused") ∧
      ((after outcome [configMap.lookedUpAs, widget.lookedUpAs]).lookup outcome
        configMap.lookedUpAs).1 = .ok (some configMap) ∧
      ((after outcome [configMap.lookedUpAs, widget.lookedUpAs]).lookup outcome widget.lookedUpAs).1 =
        .ok (some widget) := by
  obtain ⟨-, -, hrefused⟩ :=
    known_from_last_discovery outcome [configMap.lookedUpAs] widget.lookedUpAs
  obtain ⟨hknown, -, hfound⟩ :=
    known_from_last_discovery outcome [configMap.lookedUpAs, widget.lookedUpAs] widget.lookedUpAs
  have hfailed := (hrefused.failed (.transport "connection refused")).2 ⟨rfl, rfl⟩
  obtain ⟨-, hkept⟩ := hrefused.kept _ hfailed
  exact ⟨hknown.trans rfl, hfailed, congrArg Prod.fst (hkept configMap.lookedUpAs configMap rfl),
    hfound.found (tableOf [configMap, widget]) rfl rfl⟩

end Installed

end MemberAgent.Discovery
