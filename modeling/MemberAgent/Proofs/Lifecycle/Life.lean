import MemberAgent.Proofs.InMemory.Fate
import MemberAgent.Proofs.InMemory.Lookups
import MemberAgent.Proofs.Program.Calls

/-! What the life of a Work depends on: its name, whether it has the cleanup finalizer and whether it
is being deleted. Edits and status reports change none of it, and no call but those of the lifecycle
creates or deletes a record. -/

namespace MemberAgent

structure Work.Life where
  name : InMemory.WorkName
  finalizer : Bool
  deleting : Bool
  deriving DecidableEq

def Work.life (w : Work) : Work.Life := ⟨.ofWork w, w.hasFinalizer, w.isDeleting⟩

namespace InMemory

namespace Hub

variable {h h' : Hub} {key : WorkName}

def life? (h : Hub) (key : WorkName) : Option Work.Life := (h.work? key).map Work.life

theorem life?_put (h : Hub) (key : WorkName) (w : Work) (key' : WorkName) :
    (h.put key w).life? key' = if key = key' then some w.life else h.life? key' := by
  unfold life?
  rw [work?_put]
  split <;> rfl

theorem life?_erase (h : Hub) (key key' : WorkName) :
    life? { h with works := h.works.erase key } key' = if key = key' then none else h.life? key' := by
  unfold life?
  rw [work?_erase]
  split <;> rfl

/-- Storing a Work of the same life in the place of another changes no life. -/
theorem life?_put_same {w stored : Work} (hs : h.work? key = some stored)
    (hlife : w.life = stored.life) : (h.put key w).life? = h.life? := by
  funext key'
  rw [life?_put]
  split
  · next e => rw [← e, life?, hs, Option.map_some, hlife]
  · rfl

theorem life?_insert (h : Hub) (w : Work) (key : WorkName) :
    (h.insert w).life? key = if WorkName.ofWork w = key then some w.life else h.life? key :=
  life?_put h _ _ key

theorem life?_updateManifests {manifests : List Json}
    (he : h.updateManifests key manifests = some h') : h'.life? = h.life? := by
  obtain ⟨stored, hs, rfl⟩ := Option.map_eq_some_iff.1 he
  exact life?_put_same hs rfl

/-- A Work with the finalizer is only marked. -/
theorem life?_requestDeletion (h : Hub) (key : WorkName) (now : Timestamp) (key' : WorkName) :
    (h.requestDeletion key now).life? key' = h.life? key' ∨
      key = key' ∧ ∃ l, h.life? key' = some l ∧
        (l.finalizer = false ∧ (h.requestDeletion key now).life? key' = none ∨
          (h.requestDeletion key now).life? key' = some { l with deleting := true }) := by
  unfold requestDeletion
  cases hs : h.work? key with
  | none => exact Or.inl rfl
  | some stored =>
      dsimp only
      by_cases e : key = key'
      · subst e
        refine Or.inr ⟨rfl, stored.life, by rw [life?, hs, Option.map_some], ?_⟩
        split
        · next hempty =>
            refine Or.inl ⟨?_, by rw [life?_erase, if_pos rfl]⟩
            show (stored.metadata.finalizers.getD []).contains cleanupFinalizer = false
            rw [List.isEmpty_iff.1 hempty]
            rfl
        · exact Or.inr (by rw [life?_put, if_pos rfl]; rfl)
      · refine Or.inl ?_
        split
        · rw [life?_erase, if_neg e]
        · rw [life?_put, if_neg e]

/-- A write changes the life of the Work that was seen, as the change has it, and of no other. -/
theorem life?_write {observed : Work} {change : Work → Option Work}
    (he : h.write observed change = .ok h') :
    ∃ stored, h.work? (.ofWork observed) = some stored ∧ ∀ key, h'.life? key =
      if WorkName.ofWork observed = key then (change stored).map Work.life else h.life? key := by
  obtain ⟨stored, hs, -, rfl⟩ := (write_eq_ok_iff h).1 he
  refine ⟨stored, hs, fun key => ?_⟩
  cases change stored with
  | none => exact life?_erase h _ key
  | some w => exact life?_put h _ w key

theorem life?_patchStatus {observed : Work} {status : WorkStatus}
    (he : h.patchStatus observed status = .ok h') : h'.life? = h.life? := by
  obtain ⟨stored, hs, -, rfl⟩ := (write_eq_ok_iff h).1 he
  exact life?_put_same hs rfl

/-- Attaching the finalizer changes nothing else about the life of the Work. -/
theorem life?_addFinalizer {observed : Work}
    (he : h.addFinalizer observed cleanupFinalizer = .ok h') :
    ∃ l, h.life? (.ofWork observed) = some l ∧ ∀ key, h'.life? key =
      if WorkName.ofWork observed = key then some { l with finalizer := true } else h.life? key := by
  obtain ⟨stored, hs, hkeys⟩ := life?_write he
  refine ⟨stored.life, by rw [life?, hs, Option.map_some], fun key => ?_⟩
  rw [hkeys]
  congr 1
  dsimp only
  split
  · next hf =>
      have hf : stored.hasFinalizer = true := hf
      rw [Option.map_some, Work.life, hf]
  · rw [Option.map_some]
    simp [Work.life, Work.hasFinalizer, ObjectMeta.hasFinalizer, Work.isDeleting, bumped,
      ObjectMeta.isDeleting, WorkName.ofWork, Work.namespace, Work.name, ObjectMeta.anyName]

/-- Removing the finalizer changes nothing else about the life of the Work, but may end it. -/
theorem life?_removeFinalizer {observed : Work}
    (he : h.removeFinalizer observed cleanupFinalizer = .ok h') :
    (∀ key, WorkName.ofWork observed ≠ key → h'.life? key = h.life? key) ∧
      ∃ l, h.life? (.ofWork observed) = some l ∧ (h'.life? (.ofWork observed) = none ∨
        h'.life? (.ofWork observed) = some { l with finalizer := false }) := by
  obtain ⟨stored, hs, hkeys⟩ := life?_write he
  refine ⟨fun key hne => by rw [hkeys, if_neg hne], stored.life,
    by rw [life?, hs, Option.map_some], ?_⟩
  rw [hkeys, if_pos rfl]
  dsimp only
  split
  · exact Or.inl rfl
  · refine Or.inr ?_
    rw [Option.map_some]
    cases hf : stored.metadata.finalizers <;>
      simp [Work.life, Work.hasFinalizer, ObjectMeta.hasFinalizer, Work.isDeleting, bumped, hf,
        ObjectMeta.isDeleting, WorkName.ofWork, Work.namespace, Work.name, ObjectMeta.anyName]

end Hub

end InMemory

end MemberAgent
