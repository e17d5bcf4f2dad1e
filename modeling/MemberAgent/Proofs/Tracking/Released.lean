import MemberAgent.Proofs.InMemory.Versions
import MemberAgent.Proofs.Tracking.Attempts

/-! What releasing does to a member cluster. Releasing an entry twice does no more than releasing it
once, and the order of several does not matter, also when they mean the same object. So a list of
entries that is released as a whole absorbs whatever of it was released before. -/

namespace MemberAgent

open InMemory

namespace Tracking

instance (r : TrackedResource) (live : ApiObject) : Decidable (IsReplaced r live) :=
  inferInstanceAs (Decidable (_ ∧ _))

/-- The object without this owner. -/
def withdrawn (owner : String) (live : ApiObject) : ApiObject :=
  { live with
    metadata := bumped { live.metadata with ownerReferences := some (othersThan owner live) } }

/-- What is left of the object of an entry, and in how many writes. -/
def afterRelease (owner : String) (live : ApiObject) : Option ApiObject × Nat :=
  if othersThan owner live = [] then (none, 0)
  else if (othersThan owner live).length = live.metadata.owners.length then (some live, 0)
  else (some (withdrawn owner live), 1)

/-- What releasing an entry leaves of the object under its name. -/
def remainder (owner : String) (r : TrackedResource) (live : ApiObject) : Option ApiObject × Nat :=
  if IsReplaced r live then (some live, 0) else afterRelease owner live

variable {owner : String} {r r' : TrackedResource} {live left : ApiObject}

theorem othersThan_withdrawn : othersThan owner (withdrawn owner live) = othersThan owner live := by
  simp only [othersThan, withdrawn, bumped, ObjectMeta.owners, Option.getD_some, List.filter_filter,
    Bool.and_self]

/-- What is left is left alone by another release. -/
theorem afterRelease_left {n : Nat} (h : afterRelease owner live = (some left, n)) :
    afterRelease owner left = (some left, 0) := by
  unfold afterRelease at h
  split at h
  · cases h
  next hothers =>
  split at h
  · next hnone =>
      cases h
      rw [afterRelease, if_neg hothers, if_pos hnone]
  · cases h
    rw [afterRelease, othersThan_withdrawn, if_neg hothers, if_pos]
    rfl

/-- What is left after two entries, and in how many writes altogether. -/
def remainderOfTwo (owner : String) (r r' : TrackedResource) (live : ApiObject) :
    Option ApiObject × Nat :=
  match remainder owner r live with
  | (none, n) => (none, n)
  | (some left, n) => ((remainder owner r' left).1, n + (remainder owner r' left).2)

/-- Two entries leave the object to itself when neither means it, and release it once otherwise. -/
theorem remainderOfTwo_eq : remainderOfTwo owner r r' live =
    if IsReplaced r live ∧ IsReplaced r' live then (some live, 0) else afterRelease owner live := by
  by_cases hr : IsReplaced r live
  · have hfirst : remainder owner r live = (some live, 0) := if_pos hr
    simp only [remainderOfTwo, hfirst, Nat.zero_add, hr, true_and]
    rfl
  · have hfirst : remainder owner r live = afterRelease owner live := if_neg hr
    rw [if_neg fun h => hr h.1, remainderOfTwo, hfirst]
    rcases ha : afterRelease owner live with ⟨_ | left, n⟩
    · rfl
    · have hsecond : remainder owner r' left = (some left, 0) := by
        rw [remainder, afterRelease_left ha]
        exact ite_self _
      dsimp only
      rw [hsecond]
      rfl

theorem remainderOfTwo_comm : remainderOfTwo owner r r' live = remainderOfTwo owner r' r live := by
  rw [remainderOfTwo_eq, remainderOfTwo_eq]
  by_cases h : IsReplaced r live ∧ IsReplaced r' live
  · rw [if_pos h, if_pos h.symm]
  · rw [if_neg h, if_neg fun h' => h h'.symm]

/-- An entry takes away what another one has left only if it takes away what was there before. -/
theorem remainder_eq_none_of_two (hleft : (remainder owner r live).1.isSome)
    (htwo : (remainderOfTwo owner r r' live).1 = none) : (remainder owner r' live).1 = none := by
  rw [remainderOfTwo_eq] at htwo
  split at htwo
  · cases htwo
  next hnot =>
  by_cases hreplaced : IsReplaced r live
  · rw [remainder, if_neg fun h => hnot ⟨hreplaced, h⟩]
    exact htwo
  · rw [remainder, if_neg hreplaced, htwo] at hleft
    cases hleft

theorem remainderOfTwo_self : remainderOfTwo owner r r live = remainder owner r live := by
  rw [remainderOfTwo_eq]
  simp only [and_self]
  rfl

end Tracking

/-! ### Members -/

namespace InMemory.Member

open Tracking

/-- Members of which no lookup and no count differs are the same. -/
theorem ext_lookups {m m' : Member} (hobjects : ∀ key, m.object? key = m'.object? key)
    (happlied : m.applied = m'.applied) (hfailing : m.failingDeletes = m'.failingDeletes)
    (huid : m.lastUid = m'.lastUid) (hwrites : m.writes = m'.writes) : m = m' := by
  cases m
  cases m'
  cases happlied
  cases hfailing
  cases huid
  cases hwrites
  exact congrArg (Member.mk · _ _ _ _) (Table.ext_get? hobjects)

/-- What stands under a key from now on. -/
def set (m : Member) (key : ObjectKey) : Option ApiObject → Member
  | none => { m with objects := m.objects.erase key }
  | some o => m.put key o

theorem object?_set (m : Member) (key : ObjectKey) (o : Option ApiObject) (key' : ObjectKey) :
    (m.set key o).object? key' = if key = key' then o else m.object? key' := by
  cases o with
  | none => exact Table.get?_erase m.objects key key'
  | some o => exact object?_put m key key' o

@[simp] theorem applied_set (m : Member) (key : ObjectKey) (o : Option ApiObject) :
    (m.set key o).applied = m.applied := by
  cases o <;> rfl

@[simp] theorem failingDeletes_set (m : Member) (key : ObjectKey) (o : Option ApiObject) :
    (m.set key o).failingDeletes = m.failingDeletes := by
  cases o <;> rfl

@[simp] theorem lastUid_set (m : Member) (key : ObjectKey) (o : Option ApiObject) :
    (m.set key o).lastUid = m.lastUid := by
  cases o <;> rfl

/-- What releasing an entry leaves under its key, and in how many writes. -/
def leftUnder (owner : String) (m : Member) (r : TrackedResource) : Option ApiObject × Nat :=
  match m.object? (.ofTracked r) with
  | none => (none, 0)
  | some live => remainder owner r live

/-- Releases an entry. -/
def released (owner : String) (m : Member) (r : TrackedResource) : Member :=
  { m.set (.ofTracked r) (m.leftUnder owner r).1 with
    writes := m.writes + (m.leftUnder owner r).2 }

variable {owner : String} {m : Member} {r r' : TrackedResource}

@[simp] theorem object?_released (key : ObjectKey) : (m.released owner r).object? key =
    if ObjectKey.ofTracked r = key then (m.leftUnder owner r).1 else m.object? key :=
  object?_set m _ _ key

@[simp] theorem writes_released :
    (m.released owner r).writes = m.writes + (m.leftUnder owner r).2 := rfl

@[simp] theorem applied_released : (m.released owner r).applied = m.applied := applied_set ..

@[simp] theorem failingDeletes_released :
    (m.released owner r).failingDeletes = m.failingDeletes := failingDeletes_set ..

@[simp] theorem lastUid_released : (m.released owner r).lastUid = m.lastUid := lastUid_set ..

/-- Releasing changes nothing where it leaves what there is. -/
theorem released_eq_self (h : m.leftUnder owner r = (m.object? (.ofTracked r), 0)) :
    m.released owner r = m := by
  refine ext_lookups (fun key => ?_) applied_released failingDeletes_released lastUid_released ?_
  · rw [object?_released, h]
    split
    · next e => rw [e]
    · rfl
  · rw [writes_released, h, Nat.add_zero]

/-- What two entries leave, when they stand for the same key. -/
theorem leftUnder_released_same (owner : String) (m : Member)
    (hkey : ObjectKey.ofTracked r = .ofTracked r') :
    ((m.released owner r).leftUnder owner r').1 =
        ((m.object? (.ofTracked r)).bind fun live => (remainderOfTwo owner r r' live).1) ∧
      (m.leftUnder owner r).2 + ((m.released owner r).leftUnder owner r').2 =
        ((m.object? (.ofTracked r)).map fun live => (remainderOfTwo owner r r' live).2).getD 0 := by
  have hleft : (m.released owner r).object? (.ofTracked r') = (m.leftUnder owner r).1 := by
    rw [object?_released, if_pos hkey]
  unfold leftUnder at hleft ⊢
  rw [hleft]
  cases m.object? (.ofTracked r) with
  | none => exact ⟨rfl, rfl⟩
  | some live =>
      simp only [Option.bind_some, Option.map_some, Option.getD_some, remainderOfTwo]
      rcases remainder owner r live with ⟨_ | left, n⟩ <;> exact ⟨rfl, rfl⟩

theorem leftUnder_released_other (hkey : ObjectKey.ofTracked r ≠ .ofTracked r') :
    (m.released owner r).leftUnder owner r' = m.leftUnder owner r' := by
  rw [leftUnder, object?_released, if_neg hkey]
  rfl

/-- The order of two releases does not matter. -/
theorem released_comm :
    (m.released owner r).released owner r' = (m.released owner r').released owner r := by
  refine ext_lookups (fun key => ?_) (by simp) (by simp) (by simp) ?_
  · rw [object?_released, object?_released, object?_released, object?_released]
    by_cases hkey : ObjectKey.ofTracked r = .ofTracked r'
    · rw [(leftUnder_released_same owner m hkey).1, (leftUnder_released_same owner m hkey.symm).1, hkey]
      simp only [remainderOfTwo_comm]
      split <;> rfl
    · rw [leftUnder_released_other hkey, leftUnder_released_other (Ne.symm hkey)]
      by_cases e : ObjectKey.ofTracked r = key
      · rw [if_pos e, if_neg fun e' => hkey (e.trans e'.symm), if_pos e]
      · rw [if_neg e, if_neg e]
  · simp only [writes_released, Nat.add_assoc]
    by_cases hkey : ObjectKey.ofTracked r = .ofTracked r'
    · rw [(leftUnder_released_same owner m hkey).2, (leftUnder_released_same owner m hkey.symm).2, hkey]
      simp only [remainderOfTwo_comm]
    · rw [leftUnder_released_other hkey, leftUnder_released_other (Ne.symm hkey),
        Nat.add_comm (m.leftUnder owner r).2]

/-- Releasing an entry again changes nothing. -/
theorem released_idem : (m.released owner r).released owner r = m.released owner r := by
  obtain ⟨hleft, hwrites⟩ := leftUnder_released_same owner m (r := r) rfl
  simp only [remainderOfTwo_self] at hleft hwrites
  have hsame : (m.leftUnder owner r).1 = (m.object? (.ofTracked r)).bind fun live =>
      (remainder owner r live).1 := by
    unfold leftUnder
    cases m.object? (.ofTracked r) <;> rfl
  have hcount : (m.leftUnder owner r).2 = ((m.object? (.ofTracked r)).map fun live =>
      (remainder owner r live).2).getD 0 := by
    unfold leftUnder
    cases m.object? (.ofTracked r) <;> rfl
  refine released_eq_self (Prod.ext ?_ ?_)
  · rw [hleft, object?_released, if_pos rfl, hsame]
  · rw [← hcount] at hwrites
    exact Nat.add_left_cancel (hwrites.trans (Nat.add_zero _).symm)

/-- Releases entries one after another. -/
def releasedAll (owner : String) (m : Member) (l : List TrackedResource) : Member :=
  l.foldl (released owner) m

variable {l stale : List TrackedResource}

theorem releasedAll_released :
    (m.released owner r).releasedAll owner l = (m.releasedAll owner l).released owner r := by
  induction l generalizing m with
  | nil => rfl
  | cons r' rest ih =>
      show ((m.released owner r).released owner r').releasedAll owner rest = _
      rw [released_comm, ih]
      rfl

/-- A list that is released as a whole absorbs what of it was released before. -/
theorem releasedAll_absorbs (hr : r ∈ stale) :
    (m.released owner r).releasedAll owner stale = m.releasedAll owner stale := by
  induction stale generalizing m with
  | nil => cases hr
  | cons r' rest ih =>
      rcases List.mem_cons.1 hr with rfl | hr
      · show ((m.released owner r).released owner r).releasedAll owner rest = _
        rw [released_idem]
        rfl
      · show ((m.released owner r).released owner r').releasedAll owner rest = _
        rw [released_comm]
        exact ih hr

theorem releasedAll_absorbs_all (hl : ∀ r ∈ l, r ∈ stale) :
    (m.releasedAll owner l).releasedAll owner stale = m.releasedAll owner stale := by
  induction l generalizing m with
  | nil => rfl
  | cons r rest ih =>
      show ((m.released owner r).releasedAll owner rest).releasedAll owner stale = _
      rw [ih fun r' hr' => hl r' (List.mem_cons_of_mem _ hr')]
      exact releasedAll_absorbs (hl r List.mem_cons_self)

/-- Once a list is released as a whole, releasing of it changes nothing more. -/
theorem releasedAll_absorbed (hl : ∀ r ∈ l, r ∈ stale) :
    (m.releasedAll owner stale).releasedAll owner l = m.releasedAll owner stale := by
  induction l with
  | nil => rfl
  | cons r rest ih =>
      show ((m.releasedAll owner stale).released owner r).releasedAll owner rest = _
      rw [← releasedAll_released, releasedAll_absorbs (hl r List.mem_cons_self)]
      exact ih fun r' hr' => hl r' (List.mem_cons_of_mem _ hr')

@[simp] theorem applied_releasedAll : (m.releasedAll owner l).applied = m.applied := by
  induction l generalizing m with
  | nil => rfl
  | cons r rest ih => exact ih.trans applied_released

theorem applied?_releasedAll (name : String) :
    (m.releasedAll owner l).applied? name = m.applied? name := by
  rw [applied?, applied_releasedAll]
  rfl

@[simp] theorem failingDeletes_releasedAll :
    (m.releasedAll owner l).failingDeletes = m.failingDeletes := by
  induction l generalizing m with
  | nil => rfl
  | cons r rest ih => exact ih.trans failingDeletes_released

/-- Objects stand under their own namespaces and names. -/
def Placed (m : Member) : Prop :=
  ∀ key o, m.object? key = some o →
    o.metadata.namespace.getD "" = key.namespace ∧ o.metadata.anyName = key.name

/-- An object is written where it was found. -/
theorem Placed.ofObject_eq (hm : m.Placed) {key : ObjectKey} {o : ApiObject}
    {mapping : ResourceMapping} (ho : m.object? key = some o)
    (hresource : mapping.plural = key.resource) : ObjectKey.ofObject mapping o = key := by
  obtain ⟨hnamespace, hname⟩ := hm key o ho
  rw [ObjectKey.ofObject, hnamespace, hname, hresource]

/-- What is left of an object keeps its namespace and its name. -/
theorem remainder_place {live left : ApiObject} {n : Nat}
    (h : remainder owner r live = (some left, n)) :
    left.metadata.namespace = live.metadata.namespace ∧
      left.metadata.anyName = live.metadata.anyName := by
  unfold remainder afterRelease at h
  split at h
  · cases h
    exact ⟨rfl, rfl⟩
  split at h
  · cases h
  split at h
  · cases h
    exact ⟨rfl, rfl⟩
  · cases h
    exact ⟨rfl, rfl⟩

theorem Placed.released (hm : m.Placed) : (m.released owner r).Placed := by
  intro key o ho
  rw [object?_released] at ho
  split at ho
  · next e =>
      rw [leftUnder] at ho
      cases hlive : m.object? (.ofTracked r) with
      | none => rw [hlive] at ho; cases ho
      | some live =>
          rw [hlive] at ho
          obtain ⟨hnamespace, hname⟩ := remainder_place (Prod.ext ho rfl)
          rw [hnamespace, hname, ← e]
          exact hm _ live hlive
  · exact hm key o ho

theorem Placed.releasedAll (hm : m.Placed) : (m.releasedAll owner l).Placed := by
  induction l generalizing m with
  | nil => exact hm
  | cons r rest ih => exact ih hm.released

section Live

variable {live : ApiObject} (hlive : m.object? (.ofTracked r) = some live)

include hlive

theorem released_of_kept (hkept : remainder owner r live = (some live, 0)) :
    m.released owner r = m := by
  refine released_eq_self ?_
  rw [leftUnder, hlive]
  exact hkept

/-- Deleting an object that has no other owner releases it. -/
theorem deleteTracked_eq_released (hmeant : ¬IsReplaced r live) (halone : othersThan owner live = [])
    (hhealthy : ¬m.failingDeletes.contains (ObjectKey.ofTracked r)) :
    m.deleteTracked r = .ok (.deleted live.metadata.uid, m.released owner r) := by
  have hleft : m.leftUnder owner r = (none, 0) := by
    rw [leftUnder, hlive]
    show remainder owner r live = _
    rw [remainder, if_neg hmeant, afterRelease, if_pos halone]
  have hreplaced : ¬(r.uid.isSome ∧ r.uid ≠ live.metadata.uid) := by
    rintro ⟨hseen, hother⟩
    exact hmeant ⟨hseen, Ne.symm hother⟩
  unfold deleteTracked
  dsimp only
  rw [if_neg hhealthy, hlive]
  dsimp only
  rw [if_neg hreplaced, released, hleft]
  rfl

/-- Withdrawing from an object that has other owners releases it. -/
theorem patchOwners_eq_released (hplaced : m.Placed) (hmeant : ¬IsReplaced r live)
    (hothers : othersThan owner live ≠ [])
    (howned : (othersThan owner live).length ≠ live.metadata.owners.length) :
    m.patchOwners (.ofTracked r) live (othersThan owner live) = .ok (m.released owner r) := by
  have hleft : m.leftUnder owner r = (some (withdrawn owner live), 1) := by
    rw [leftUnder, hlive]
    show remainder owner r live = _
    rw [remainder, if_neg hmeant, afterRelease, if_neg hothers, if_neg howned]
  have hkey : ObjectKey.ofObject (.ofTracked r) live = .ofTracked r :=
    hplaced.ofObject_eq hlive rfl
  refine patchOwners_eq_ok_iff.2 ⟨withdrawn owner live, write_eq_ok_iff.2 ⟨live, ?_, rfl, rfl, ?_⟩⟩
  · rw [hkey, hlive]
  · rw [hkey, released, hleft]
    rfl

end Live

/-- Withdrawing with a copy from before another withdrawal is refused. -/
theorem patchOwners_withdrawn {mapping : ResourceMapping} {live : ApiObject}
    (hthere : m.object? (.ofObject mapping live) = some (withdrawn owner live))
    (owners : List OwnerReference) :
    m.patchOwners mapping live owners = .error (outdated "object") := by
  have hversion : (withdrawn owner live).metadata.resourceVersion ≠ live.metadata.resourceVersion :=
    nextVersion_ne _
  rw [patchOwners, write, hthere]
  dsimp only
  rw [if_pos hversion]
  rfl

end InMemory.Member

end MemberAgent
