import MemberAgent.Proofs.Lifecycle.Life

/-! What the lifecycle of a name goes by, and how it moves. Others than the lifecycle reconcile of
the name let it drift: they bring new Works, without the finalizer, mark Works for deletion and take
away those that have no finalizer, and they leave records where they are. -/

namespace MemberAgent.InMemory

/-- The life of the Work of a name, and whether the name has a record. -/
structure Standing where
  life : Option Work.Life
  recorded : Bool
  deriving DecidableEq

namespace Standing

/-- A Work that has the finalizer and is not being deleted has a record. -/
def Covered (v : Standing) : Prop :=
  ∀ l, v.life = some l → l.finalizer = true → l.deleting = false → v.recorded = true

def Carries (v : Standing) : Prop := ∃ l, v.life = some l ∧ l.finalizer = true

/-- The Work is being deleted and still has the finalizer. -/
def Leaving (v : Standing) : Prop :=
  ∃ l, v.life = some l ∧ l.finalizer = true ∧ l.deleting = true

theorem covered_of_recorded {v : Standing} (h : v.recorded = true) : v.Covered :=
  fun _ _ _ _ => h

theorem Leaving.covered {v : Standing} (h : v.Leaving) : v.Covered := by
  obtain ⟨l, hl, -, hd⟩ := h
  intro l' hl' _ hd'
  rw [hl] at hl'
  cases hl'
  rw [hd] at hd'
  cases hd'

/-- A step keeps a Work covered, and it takes the finalizer away only where no record is. -/
structure Guarded (v v' : Standing) : Prop where
  covered : v'.Covered
  released : v.Carries → ¬v'.Carries → v.recorded = false

theorem Guarded.of_life_eq {v v' : Standing} (hlife : v'.life = v.life) (hv : v'.Covered) :
    Guarded v v' := by
  refine ⟨hv, ?_⟩
  rintro ⟨l, hl, hf⟩ hlost
  exact absurd ⟨l, hlife.trans hl, hf⟩ hlost

inductive Drift : Standing → Standing → Prop where
  | same (v : Standing) : Drift v v
  | arrived (l : Work.Life) (recorded : Bool) (hfree : l.finalizer = false) :
      Drift ⟨none, recorded⟩ ⟨some l, recorded⟩
  | marked (l : Work.Life) (recorded : Bool) :
      Drift ⟨some l, recorded⟩ ⟨some { l with deleting := true }, recorded⟩
  | left (l : Work.Life) (recorded : Bool) (hfree : l.finalizer = false) :
      Drift ⟨some l, recorded⟩ ⟨none, recorded⟩

namespace Drift

variable {v v' : Standing}

theorem recorded_eq (h : Drift v v') : v'.recorded = v.recorded := by
  cases h <;> rfl

theorem covered (h : Drift v v') (hv : v.Covered) : v'.Covered := by
  cases h with
  | same => exact hv
  | arrived l recorded hfree =>
      rintro _ ⟨⟩ hf
      rw [hfree] at hf
      cases hf
  | marked => rintro _ ⟨⟩ _ ⟨⟩
  | left => rintro _ ⟨⟩

theorem carries (h : Drift v v') (hv : v.Carries) : v'.Carries := by
  obtain ⟨l, hl, hf⟩ := hv
  cases h with
  | same => exact ⟨l, hl, hf⟩
  | arrived => cases hl
  | marked => cases hl; exact ⟨_, rfl, hf⟩
  | left _ _ hfree => cases hl; rw [hfree] at hf; cases hf

theorem leaving (h : Drift v v') (hv : v.Leaving) : v'.Leaving := by
  obtain ⟨l, hl, hf, hd⟩ := hv
  cases h with
  | same => exact ⟨l, hl, hf, hd⟩
  | arrived => cases hl
  | marked => cases hl; exact ⟨_, rfl, hf, rfl⟩
  | left _ _ hfree => cases hl; rw [hfree] at hf; cases hf

theorem guarded (h : Drift v v') (hv : v.Covered) : Guarded v v' := by
  refine ⟨h.covered hv, ?_⟩
  intro hcarries hlost
  exact absurd (h.carries hcarries) hlost

end Drift

end Standing

namespace World

variable (w : World) («namespace» name : String)

def standing : Standing :=
  ⟨w.hub.life? ⟨«namespace», name⟩, (w.member.applied? name).isSome⟩

theorem standing_onHub (hub : Hub) : World.standing { w with hub } «namespace» name =
    ⟨hub.life? ⟨«namespace», name⟩, (w.standing «namespace» name).recorded⟩ := rfl

theorem standing_eq_of {w w' : World} (hlife : w'.hub.life? = w.hub.life?)
    (hrecords : ∀ name, (w'.member.applied? name).isSome = (w.member.applied? name).isSome) :
    w'.standing «namespace» name = w.standing «namespace» name := by
  unfold standing
  rw [hlife, hrecords]

end World

/-! ### What is done on the hub -/

namespace Hub

variable {h h' : Hub} {key : WorkName} {recorded : Bool}

theorem drift_insert {w : Work} (habsent : h.work? (.ofWork w) = none)
    (hfree : w.hasFinalizer = false) (key : WorkName) :
    Standing.Drift ⟨h.life? key, recorded⟩ ⟨(h.insert w).life? key, recorded⟩ := by
  rw [life?_insert]
  split
  · next e =>
      have hnone : h.life? key = none := by rw [← e, life?, habsent, Option.map_none]
      rw [hnone]
      exact .arrived w.life recorded hfree
  · exact .same _

theorem drift_requestDeletion (h : Hub) (deleted : WorkName) (now : Timestamp) (key : WorkName) :
    Standing.Drift ⟨h.life? key, recorded⟩ ⟨(h.requestDeletion deleted now).life? key, recorded⟩ := by
  rcases life?_requestDeletion h deleted now key with e | ⟨-, l, hl, ⟨hfree, e⟩ | e⟩ <;> rw [e]
  · exact .same _
  · rw [hl]
    exact .left l recorded hfree
  · rw [hl]
    exact .marked l recorded

/-- A Work that is stored under a name has it. -/
def Named (h : Hub) (key : WorkName) : Prop := ∀ l, h.life? key = some l → l.name = key

theorem Named.of_names (hnamed : h.Named key)
    (hnames : ∀ l', h'.life? key = some l' → ∃ l, h.life? key = some l ∧ l.name = l'.name) :
    h'.Named key := by
  intro l' hl'
  obtain ⟨l, hl, hname⟩ := hnames l' hl'
  rw [← hname]
  exact hnamed l hl

theorem Named.ofWork {w : Work} (hnamed : h.Named key) (hw : h.work? key = some w) :
    WorkName.ofWork w = key :=
  hnamed w.life (Option.map_eq_some_iff.2 ⟨w, hw, rfl⟩)

/-- Works are stored under their own names, all in one namespace. -/
def Placed («namespace» : String) (h : Hub) : Prop :=
  ∀ key l, h.life? key = some l → l.name = key ∧ key.namespace = «namespace»

/-- A change that brings no new Work and renames none keeps Works in their places. -/
theorem Placed.of_names {«namespace» : String} (hplaced : h.Placed «namespace»)
    (hnames : ∀ key l', h'.life? key = some l' → ∃ l, h.life? key = some l ∧ l.name = l'.name) :
    h'.Placed «namespace» := by
  intro key l' hl'
  obtain ⟨l, hl, hname⟩ := hnames key l' hl'
  rw [← hname]
  exact hplaced key l hl

theorem Placed.insert {«namespace» : String} (hplaced : h.Placed «namespace») {w : Work}
    (hnamespace : w.namespace = «namespace») : (h.insert w).Placed «namespace» := by
  intro key l hl
  rw [life?_insert] at hl
  split at hl
  · next e =>
      cases hl
      exact ⟨e, e ▸ hnamespace⟩
  · exact hplaced key l hl

theorem names_requestDeletion (h : Hub) (deleted : WorkName) (now : Timestamp) {l' : Work.Life}
    (hl' : (h.requestDeletion deleted now).life? key = some l') :
    ∃ l, h.life? key = some l ∧ l.name = l'.name := by
  rcases life?_requestDeletion h deleted now key with e | ⟨-, l, hl, ⟨-, e⟩ | e⟩ <;> rw [e] at hl'
  · exact ⟨l', hl', rfl⟩
  · cases hl'
  · cases hl'
    exact ⟨l, hl, rfl⟩

theorem Placed.requestDeletion {«namespace» : String} (hplaced : h.Placed «namespace»)
    (deleted : WorkName) (now : Timestamp) : (h.requestDeletion deleted now).Placed «namespace» :=
  hplaced.of_names fun _ _ hl' => names_requestDeletion h deleted now hl'

theorem names_write {observed : Work} {change : Work → Option Work}
    (hchange : ∀ stored w, change stored = some w → WorkName.ofWork w = .ofWork stored)
    (he : h.write observed change = .ok h') {l' : Work.Life} (hl' : h'.life? key = some l') :
    ∃ l, h.life? key = some l ∧ l.name = l'.name := by
  obtain ⟨stored, hstored, hkeys⟩ := life?_write he
  rw [hkeys] at hl'
  split at hl'
  · next e =>
      obtain ⟨w, hw, rfl⟩ := Option.map_eq_some_iff.1 hl'
      have hlife : h.life? key = some stored.life := by rw [← e, life?, hstored, Option.map_some]
      have hname : WorkName.ofWork w = .ofWork stored := hchange _ _ hw
      exact ⟨stored.life, hlife, hname.symm⟩
  · exact ⟨l', hl', rfl⟩

end Hub

/-! ### Calls -/

/-- The calls that no finalizer, and no record as a whole, is changed by. -/
def QuietCall : ClientCall → Prop
  | .addFinalizer .. | .removeFinalizer .. | .createAppliedWork .. | .deleteAppliedWork .. => False
  | _ => True

namespace World

variable {w w' : World} {c : ClientCall}

theorem standing_perform_of_quiet {value : c.Value} (hc : QuietCall c)
    (he : w.perform c = .ok (value, w')) («namespace» name : String) :
    w'.standing «namespace» name = w.standing «namespace» name := by
  have hrecords : KeepsRecords c → ∀ name,
      (w'.member.applied? name).isSome = (w.member.applied? name).isSome := by
    intro hc name
    rw [Member.applied?, applied_perform hc he]
    rfl
  cases c with
  | getWork | getAppliedWork | getObject | getTracked | findMapping => cases he; rfl
  | addFinalizer | removeFinalizer | createAppliedWork | deleteAppliedWork => exact hc.elim
  | patchWorkStatus =>
      obtain ⟨hub, hpatch, rfl⟩ := onHub_eq_ok he
      exact standing_eq_of _ _ (Hub.life?_patchStatus hpatch) fun _ => rfl
  | updateResources applied =>
      obtain ⟨member, hupdate, rfl⟩ := onMember_map_eq_ok he
      obtain ⟨stored, hstored, -, rfl⟩ := Member.updateResources_eq_ok_iff.1 hupdate
      refine standing_eq_of _ _ rfl fun name => ?_
      rw [Member.applied?_putApplied]
      split
      · next e => rw [← e, hstored]; rfl
      · rfl
  | createObject | replaceObject | deleteTracked =>
      obtain ⟨member, -, rfl⟩ := onMember_eq_ok he
      exact standing_eq_of _ _ rfl (hrecords trivial)
  | patchOwners =>
      obtain ⟨member, -, rfl⟩ := onMember_map_eq_ok he
      exact standing_eq_of _ _ rfl (hrecords trivial)

/-- A call that is quiet keeps every standing, whatever its fate. -/
theorem standing_meet_of_quiet (hc : QuietCall c) (fate : Fate) («namespace» name : String) :
    (w.meet fate c).2.standing «namespace» name = w.standing «namespace» name := by
  rcases meet_world w fate c with h | h <;> rw [h]
  rcases answer_cases w c with ⟨failure, -, h⟩ | ⟨value, w', hperform, h⟩ <;> rw [h]
  exact standing_perform_of_quiet hc hperform _ _

/-! ### The calls of the lifecycle -/

variable (w) («namespace» name : String)

/-- Creating a record leaves one behind, also when there is one already. -/
theorem standing_answer_createAppliedWork (applied : AppliedWork) :
    (w.answer (.createAppliedWork applied)).2.standing «namespace» name =
      if applied.name = name then ⟨(w.standing «namespace» name).life, true⟩
      else w.standing «namespace» name := by
  rcases answer_cases w (.createAppliedWork applied) with ⟨failure, hperform, h⟩ |
      ⟨created, w', hperform, h⟩
  · rw [h]
    split
    · next e =>
        have hrefused : w.member.createApplied applied = .error failure := by
          cases hcreate : w.member.createApplied applied with
          | error => rw [perform, hcreate] at hperform; cases hperform; rfl
          | ok => rw [perform, hcreate] at hperform; cases hperform
        have hthere := Member.createApplied_eq_error hrefused
        rw [e] at hthere
        rw [standing, hthere]
    · rfl
  · rw [h]
    obtain ⟨member, hcreate, rfl⟩ := onMember_eq_ok hperform
    obtain ⟨-, -, rfl⟩ := Member.createApplied_eq_ok hcreate
    have hrecords : ∀ n, Member.applied? { w.member.putApplied applied.name created with
        lastUid := w.member.lastUid + 1 } n = (w.member.putApplied applied.name created).applied? n :=
      fun _ => rfl
    unfold standing
    rw [hrecords, Member.applied?_putApplied]
    split <;> rfl

theorem standing_answer_deleteAppliedWork (deleted : String) :
    (w.answer (.deleteAppliedWork deleted)).2.standing «namespace» name =
      if deleted = name then ⟨(w.standing «namespace» name).life, false⟩
      else w.standing «namespace» name := by
  show Standing.mk _ ((w.member.deleteApplied deleted).applied? name).isSome = _
  rw [Member.applied?_deleteApplied]
  split <;> rfl

/-- Attaching the finalizer changes nothing else. -/
theorem standing_answer_addFinalizer (work : Work) :
    (w.answer (.addFinalizer work cleanupFinalizer)).2.standing «namespace» name =
        w.standing «namespace» name ∨
      WorkName.ofWork work = ⟨«namespace», name⟩ ∧ ∃ l,
        (w.standing «namespace» name).life = some l ∧
        (w.answer (.addFinalizer work cleanupFinalizer)).2.standing «namespace» name =
          ⟨some { l with finalizer := true }, (w.standing «namespace» name).recorded⟩ := by
  rcases answer_cases w (.addFinalizer work cleanupFinalizer) with ⟨failure, -, h⟩ |
      ⟨value, w', hperform, h⟩
  · rw [h]
    exact Or.inl rfl
  · rw [h]
    obtain ⟨hub, hadd, rfl⟩ := onHub_eq_ok hperform
    obtain ⟨l, hl, hkeys⟩ := Hub.life?_addFinalizer hadd
    rw [standing_onHub, hkeys]
    split
    · next e => exact Or.inr ⟨e, l, by rw [← hl, e]; rfl, rfl⟩
    · exact Or.inl rfl

/-- Removing the finalizer changes nothing else, but the Work may go with it. -/
theorem standing_answer_removeFinalizer (work : Work) :
    (w.answer (.removeFinalizer work cleanupFinalizer)).2.standing «namespace» name =
        w.standing «namespace» name ∨
      WorkName.ofWork work = ⟨«namespace», name⟩ ∧ ∃ l,
        (w.standing «namespace» name).life = some l ∧
        ((w.answer (.removeFinalizer work cleanupFinalizer)).2.standing «namespace» name =
            ⟨none, (w.standing «namespace» name).recorded⟩ ∨
          (w.answer (.removeFinalizer work cleanupFinalizer)).2.standing «namespace» name =
            ⟨some { l with finalizer := false }, (w.standing «namespace» name).recorded⟩) := by
  rcases answer_cases w (.removeFinalizer work cleanupFinalizer) with ⟨failure, -, h⟩ |
      ⟨value, w', hperform, h⟩
  · rw [h]
    exact Or.inl rfl
  · rw [h]
    obtain ⟨hub, hremove, rfl⟩ := onHub_eq_ok hperform
    obtain ⟨helse, l, hl, hgone⟩ := Hub.life?_removeFinalizer hremove
    rw [standing_onHub]
    by_cases e : WorkName.ofWork work = ⟨«namespace», name⟩
    · rw [e] at hl hgone
      refine Or.inr ⟨e, l, hl, ?_⟩
      rcases hgone with hgone | hgone <;> rw [hgone]
      · exact Or.inl rfl
      · exact Or.inr rfl
    · rw [helse _ e]
      exact Or.inl rfl

/-- No call brings a Work or renames one. -/
theorem names_meet {w : World} (fate : Fate) (c : ClientCall) {key : WorkName} {l' : Work.Life}
    (hl' : (w.meet fate c).2.hub.life? key = some l') :
    ∃ l, w.hub.life? key = some l ∧ l.name = l'.name := by
  rcases meet_world w fate c with h | h <;> rw [h] at hl'
  · exact ⟨l', hl', rfl⟩
  rcases answer_cases w c with ⟨failure, -, h⟩ | ⟨value, w', hperform, h⟩ <;> rw [h] at hl'
  · exact ⟨l', hl', rfl⟩
  cases c with
  | getWork | getAppliedWork | getObject | getTracked | findMapping | deleteAppliedWork =>
      cases hperform
      exact ⟨l', hl', rfl⟩
  | createAppliedWork | createObject | replaceObject | deleteTracked =>
      obtain ⟨member, -, rfl⟩ := onMember_eq_ok hperform
      exact ⟨l', hl', rfl⟩
  | updateResources | patchOwners =>
      obtain ⟨member, -, rfl⟩ := onMember_map_eq_ok hperform
      exact ⟨l', hl', rfl⟩
  | patchWorkStatus =>
      obtain ⟨hub, hwrite, rfl⟩ := onHub_eq_ok hperform
      exact Hub.names_write (by rintro stored _ ⟨⟩; rfl) hwrite hl'
  | addFinalizer =>
      obtain ⟨hub, hwrite, rfl⟩ := onHub_eq_ok hperform
      refine Hub.names_write (fun stored changed hchange => ?_) hwrite hl'
      dsimp only at hchange
      split at hchange <;> cases hchange <;> rfl
  | removeFinalizer =>
      obtain ⟨hub, hwrite, rfl⟩ := onHub_eq_ok hperform
      refine Hub.names_write (fun stored changed hchange => ?_) hwrite hl'
      dsimp only at hchange
      split at hchange <;> cases hchange
      rfl

theorem placed_meet {w : World} {«namespace» : String} (hplaced : w.hub.Placed «namespace»)
    (fate : Fate) (c : ClientCall) : (w.meet fate c).2.hub.Placed «namespace» :=
  hplaced.of_names fun _ _ hl' => names_meet fate c hl'

end World

end MemberAgent.InMemory
