import MemberAgent.Proofs.Tracking.Released

/-! Objects stand under their own namespaces and names. No client call changes that, whatever becomes
of it, and so no program does. -/

namespace MemberAgent

open InMemory

namespace InMemory.Member

variable {m m' : Member}

theorem placed_empty : ({} : Member).Placed := by
  rintro key o ⟨⟩

theorem Placed.put (hm : m.Placed) {key : ObjectKey} {o : ApiObject}
    (hplace : o.metadata.namespace.getD "" = key.namespace ∧ o.metadata.anyName = key.name) :
    (m.put key o).Placed := by
  intro key' o' ho'
  rw [object?_put] at ho'
  split at ho'
  · next e =>
      cases ho'
      exact e ▸ hplace
  · exact hm key' o' ho'

/-- Objects that are left where they were, under their names, are still placed. -/
theorem Placed.of_left (hm : m.Placed)
    (hleft : ∀ key o', m'.object? key = some o' → ∃ o, m.object? key = some o ∧
      o'.metadata.namespace = o.metadata.namespace ∧ o'.metadata.anyName = o.metadata.anyName) :
    m'.Placed := by
  intro key o' ho'
  obtain ⟨o, ho, hnamespace, hname⟩ := hleft key o' ho'
  rw [hnamespace, hname]
  exact hm key o ho

theorem Placed.removeObject (hm : m.Placed) (key : ObjectKey) : (m.removeObject key).Placed := by
  refine hm.of_left fun key' o ho => ?_
  rw [object?_removeObject] at ho
  split at ho
  · cases ho
  · exact ⟨o, ho, rfl, rfl⟩

theorem Placed.deleteApplied (hm : m.Placed) (name : String) : (m.deleteApplied name).Placed := by
  refine hm.of_left fun key o' ho' => ?_
  rw [object?_deleteApplied] at ho'
  cases hrecord : m.recordUid name with
  | none =>
      rw [hrecord] at ho'
      exact ⟨o', ho', rfl, rfl⟩
  | some uid =>
      rw [hrecord] at ho'
      obtain ⟨o, ho, rfl⟩ := Option.map_eq_some_iff.1 ho'
      exact ⟨o, (Option.filter_eq_some_iff.1 ho).1, rfl, rfl⟩

end InMemory.Member

namespace InMemory.World

variable {α : Type} {w w' : World} {c : ClientCall}

theorem placed_perform {value : c.Value} (hplaced : w.member.Placed)
    (he : w.perform c = .ok (value, w')) : w'.member.Placed := by
  cases c with
  | getWork | getAppliedWork | getObject | getTracked | findMapping =>
      cases he
      exact hplaced
  | patchWorkStatus | addFinalizer | removeFinalizer =>
      obtain ⟨hub, -, rfl⟩ := onHub_eq_ok he
      exact hplaced
  | createAppliedWork =>
      obtain ⟨member, hcreate, rfl⟩ := onMember_eq_ok he
      obtain ⟨-, -, rfl⟩ := Member.createApplied_eq_ok hcreate
      exact hplaced
  | deleteAppliedWork name =>
      cases he
      exact hplaced.deleteApplied name
  | updateResources =>
      obtain ⟨member, hupdate, rfl⟩ := onMember_map_eq_ok he
      obtain ⟨_, -, -, rfl⟩ := Member.updateResources_eq_ok_iff.1 hupdate
      exact hplaced
  | createObject =>
      obtain ⟨member, hcreate, rfl⟩ := onMember_eq_ok he
      obtain ⟨-, rfl, rfl⟩ := Member.createObject_eq_ok hcreate
      exact hplaced.put ⟨rfl, rfl⟩
  | replaceObject =>
      obtain ⟨member, hreplace, rfl⟩ := onMember_eq_ok he
      obtain ⟨_, -, -, -, rfl⟩ := Member.write_eq_ok_iff.1 hreplace
      exact hplaced.put ⟨rfl, rfl⟩
  | patchOwners =>
      obtain ⟨member, hpatch, rfl⟩ := onMember_map_eq_ok he
      obtain ⟨_, hwrite⟩ := Member.patchOwners_eq_ok_iff.1 hpatch
      obtain ⟨stored, hstored, -, -, rfl⟩ := Member.write_eq_ok_iff.1 hwrite
      exact hplaced.put (hplaced _ stored hstored)
  | deleteTracked r =>
      obtain ⟨member, hdelete, rfl⟩ := onMember_eq_ok he
      rcases Member.deleteTracked_eq_ok hdelete with rfl | rfl
      · exact hplaced
      · exact hplaced.removeObject (.ofTracked r)

theorem placed_answer (hplaced : w.member.Placed) (c : ClientCall) :
    (w.answer c).2.member.Placed := by
  rcases answer_cases w c with ⟨failure, -, h⟩ | ⟨value, w', hperform, h⟩ <;> rw [h]
  · exact hplaced
  · exact placed_perform hplaced hperform

/-- Whatever becomes of its calls, a program leaves objects where they belong. -/
theorem placed_reaches {possible : Fate → Prop} (hplaced : w.member.Placed)
    (p : Program clientCalls α) : Reaches possible w p fun _ w' => w'.member.Placed := by
  refine Reaches.of_onlyCalls (fun v fate c _ _ hv => ?_) (Program.onlyCalls_any p) hplaced
  rcases meet_world v fate c with h | h <;> rw [h]
  · exact hv
  · exact placed_answer hv c

theorem placed_attempt (hplaced : w.member.Placed) (fates : List Fate)
    (p : Program clientCalls α) : (w.attempt fates p).2.1.member.Placed := by
  have hreaches : Reaches (fun _ => True) w p _ := placed_reaches hplaced p
  exact hreaches fates fun _ _ => trivial

end InMemory.World

end MemberAgent
