import MemberAgent.Reconcile.Tracking
import Mathlib.Data.List.Nodup

/-! The difference between what is declared and what is tracked. Its keys are those of the two sides,
each once, and once a record holds what it should, with whatever uids, there is no difference left. -/

namespace MemberAgent

section FirstByKey

variable {α κ : Type} [DecidableEq κ] {key : α → κ} {l : List α} {a : α}

theorem mem_of_mem_firstByKey (h : a ∈ firstByKey key l) : a ∈ l := by
  induction l with
  | nil => cases h
  | cons b rest ih =>
      rcases List.mem_cons.1 h with rfl | h
      · exact List.mem_cons_self
      · exact List.mem_cons_of_mem _ (ih (List.mem_of_mem_filter h))

/-- Every key of a list is there. -/
theorem exists_mem_firstByKey (h : a ∈ l) : ∃ b ∈ firstByKey key l, key b = key a := by
  induction l with
  | nil => cases h
  | cons c rest ih =>
      by_cases hkey : key c = key a
      · exact ⟨c, List.mem_cons_self, hkey⟩
      · rcases List.mem_cons.1 h with rfl | h
        · exact absurd rfl hkey
        · obtain ⟨b, hb, hba⟩ := ih h
          refine ⟨b, List.mem_cons_of_mem _ (List.mem_filter.2 ⟨hb, ?_⟩), hba⟩
          exact decide_eq_true fun e => hkey (e.symm.trans hba)

/-- Every key is there once. -/
theorem nodup_firstByKey : ((firstByKey key l).map key).Nodup := by
  induction l with
  | nil => exact List.nodup_nil
  | cons b rest ih =>
      rw [firstByKey, List.map_cons, List.nodup_cons]
      refine ⟨fun h => ?_, ih.sublist (List.filter_sublist.map key)⟩
      obtain ⟨c, hc, hkey⟩ := List.mem_map.1 h
      exact of_decide_eq_true (List.mem_filter.1 hc).2 hkey

end FirstByKey

namespace Tracking

variable {declared : List ResourceIdentifier} {tracked : List TrackedResource}
  {key : ResourceKey} {r : TrackedResource} {i : ResourceIdentifier}

theorem entryOf_eq_some (h : entryOf key tracked = some r) : r ∈ tracked ∧ r.key = key := by
  rw [entryOf] at h
  have hkey := List.find?_some h
  exact ⟨List.mem_reverse.1 (List.mem_of_find?_eq_some h), of_decide_eq_true hkey⟩

/-- An entry is found by its key, where no other entry has it. -/
theorem entryOf_key (hnodup : (tracked.map TrackedResource.key).Nodup) (hr : r ∈ tracked) :
    entryOf r.key tracked = some r := by
  cases hfound : entryOf r.key tracked with
  | none =>
      have hnot := List.find?_eq_none.1 hfound r (List.mem_reverse.2 hr)
      exact absurd (decide_eq_true rfl) hnot
  | some r' =>
      obtain ⟨hr', hkey⟩ := entryOf_eq_some hfound
      rw [List.inj_on_of_nodup_map hnodup hr' hr hkey]

/-- What is retained for a declared resource. -/
def entryFor (tracked : List TrackedResource) (i : ResourceIdentifier) : TrackedResource :=
  (entryOf i.key tracked).getD (.ofIdentifier i)

@[simp] theorem key_entryFor : (entryFor tracked i).key = i.key := by
  unfold entryFor
  cases h : entryOf i.key tracked with
  | none => rfl
  | some r => exact (entryOf_eq_some h).2

theorem retainedOrNew_eq : (diff declared tracked).retainedOrNew =
    (firstByKey ResourceIdentifier.key declared).map (entryFor tracked) := rfl

/-- What is retained has the keys of what is declared. -/
theorem key_retainedOrNew : (diff declared tracked).retainedOrNew.map TrackedResource.key =
    (firstByKey ResourceIdentifier.key declared).map ResourceIdentifier.key := by
  rw [retainedOrNew_eq, List.map_map]
  exact List.map_congr_left fun i _ => key_entryFor

/-- Each declared resource is retained or new, under its key. -/
theorem exists_mem_retainedOrNew (hi : i ∈ declared) :
    ∃ r ∈ (diff declared tracked).retainedOrNew, r.key = i.key := by
  obtain ⟨j, hj, hkey⟩ : ∃ j ∈ firstByKey ResourceIdentifier.key declared, j.key = i.key :=
    exists_mem_firstByKey hi
  exact ⟨entryFor tracked j, List.mem_map_of_mem hj, key_entryFor.trans hkey⟩

theorem declared_of_mem_retainedOrNew (hr : r ∈ (diff declared tracked).retainedOrNew) :
    ∃ i ∈ declared, r.key = i.key := by
  obtain ⟨i, hi, rfl⟩ := List.mem_map.1 hr
  exact ⟨i, mem_of_mem_firstByKey hi, key_entryFor⟩

theorem tracked_of_mem_stale (hr : r ∈ (diff declared tracked).stale) : r ∈ tracked :=
  List.mem_of_mem_filter (mem_of_mem_firstByKey hr)

theorem key_ne_of_mem_stale (hr : r ∈ (diff declared tracked).stale) :
    ∀ i ∈ declared, i.key ≠ r.key := by
  have hundeclared := (List.mem_filter.1 (mem_of_mem_firstByKey hr)).2
  rw [Bool.not_eq_true', List.any_eq_false] at hundeclared
  exact fun i hi => by simpa using hundeclared i hi

/-- An entry that no declaration has the key of is stale, where each key counts once. -/
theorem mem_stale (hnodup : (tracked.map TrackedResource.key).Nodup) (hr : r ∈ tracked)
    (hnone : ∀ i ∈ declared, i.key ≠ r.key) : r ∈ (diff declared tracked).stale := by
  have hfilter : r ∈ tracked.filter fun r => !declared.any fun i => i.key = r.key := by
    refine List.mem_filter.2 ⟨hr, ?_⟩
    rw [Bool.not_eq_true', List.any_eq_false]
    exact fun i hi => by simpa using hnone i hi
  obtain ⟨r', hr', hkey⟩ : ∃ r' ∈ (diff declared tracked).stale, r'.key = r.key :=
    exists_mem_firstByKey hfilter
  rwa [← List.inj_on_of_nodup_map hnodup (tracked_of_mem_stale hr') hr hkey]

/-- A record that holds an entry for each declared resource is up to date. -/
theorem diff_of_key_eq (hkeys : tracked.map TrackedResource.key =
    (firstByKey ResourceIdentifier.key declared).map ResourceIdentifier.key) :
    diff declared tracked = ⟨tracked, []⟩ := by
  have hnodup : (tracked.map TrackedResource.key).Nodup := hkeys ▸ nodup_firstByKey
  have hretained : (diff declared tracked).retainedOrNew = tracked := by
    rw [retainedOrNew_eq]
    refine List.ext_getElem ?_ fun n hn hn' => ?_
    · have hlength := congrArg List.length hkeys
      rw [List.length_map, List.length_map] at hlength
      rw [List.length_map, hlength]
    · rw [List.length_map] at hn
      have hkey : tracked[n].key = (firstByKey ResourceIdentifier.key declared)[n].key := by
        have hat := congrArg (fun l => l[n]?) hkeys
        simpa [hn, hn'] using hat
      rw [List.getElem_map, entryFor, ← hkey, entryOf_key hnodup (List.getElem_mem hn')]
      rfl
  have hstale : (diff declared tracked).stale = [] := by
    show firstByKey _ (tracked.filter _) = []
    rw [List.filter_eq_nil_iff.2 fun r hr => ?_]
    · rfl
    · obtain ⟨i, hi, hkey⟩ := List.mem_map.1 (hkeys ▸ List.mem_map_of_mem hr)
      have hany : (declared.any fun i => i.key = r.key) = true :=
        List.any_eq_true.2 ⟨i, mem_of_mem_firstByKey hi, decide_eq_true hkey⟩
      rw [hany]
      exact Bool.false_ne_true
  calc diff declared tracked
      = ⟨(diff declared tracked).retainedOrNew, (diff declared tracked).stale⟩ := rfl
    _ = ⟨tracked, []⟩ := by rw [hretained, hstale]

end Tracking

end MemberAgent
