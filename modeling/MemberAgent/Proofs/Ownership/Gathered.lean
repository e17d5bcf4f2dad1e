import Mathlib.Algebra.Group.Nat.Defs
import MemberAgent.Proofs.InMemory.Crowd
import MemberAgent.Proofs.Ownership.Takeover

/-! One object applied for many owners at once, call by call. Each write follows a look at the object,
maybe an outdated one, and rewrites its owners. The version tells the outdated looks: all writes go to
this one object, so its version moves with the count of writes, and it says nothing else until it comes
round. -/

namespace MemberAgent

open InMemory Relation

/-- A new owner comes after those that are there. -/
theorem prefix_withOwner (existing : List OwnerReference) (owner : OwnerReference) :
    existing <+: withOwner existing owner := by
  rcases withOwner_cases existing owner with ⟨-, hsame⟩ | ⟨-, hadded⟩
  · exact ⟨[], by rw [hsame, List.append_nil]⟩
  · exact ⟨[owner], hadded.symm⟩

theorem nodup_uids_withOwner {existing : List OwnerReference} {owner : OwnerReference}
    (h : (existing.map OwnerReference.uid).Nodup) :
    ((withOwner existing owner).map OwnerReference.uid).Nodup := by
  rcases withOwner_cases existing owner with ⟨-, hsame⟩ | ⟨hnew, hadded⟩
  · rw [hsame]
    exact h
  · rw [hadded, List.map_append, List.map_singleton]
    refine List.nodup_append.2 ⟨h, List.nodup_singleton _, fun uid huid uid' huid' => ?_⟩
    obtain ⟨r, hr, rfl⟩ := List.mem_map.1 huid
    rw [List.mem_singleton.1 huid']
    exact hnew r hr

namespace InMemory.Member

/-- No uid stands twice among the owners of the object under a key. -/
def OwnersOnce (m : Member) (key : ObjectKey) : Prop :=
  ∀ o, m.object? key = some o → (o.metadata.owners.map OwnerReference.uid).Nodup

/-- What writing one object does, again and again and each time with an owner more. It is told of as
long as the count of writes stays below the limit. -/
structure Gathers (key : ObjectKey) (limit : Nat) (m m' : Member) : Prop where
  placed : m.Placed → m'.Placed
  counted : m.writes ≤ m'.writes
  unwritten : m'.writes = m.writes → m'.object? key = m.object? key
  once : m'.writes < limit → m.OwnersOnce key → m'.OwnersOnce key
  kept : m'.writes < limit → ∀ o, m.object? key = some o → ∃ o', m'.object? key = some o' ∧
    o.metadata.owners <+: o'.metadata.owners ∧
    versionNumber o'.metadata.resourceVersion =
      (versionNumber o.metadata.resourceVersion + (m'.writes - m.writes)) % 2 ^ 64

namespace Gathers

variable {key : ObjectKey} {limit : Nat} {m m' m'' : Member} {o o' : ApiObject}

theorem self (m : Member) : Gathers key limit m m where
  placed := id
  counted := Nat.le_refl _
  unwritten _ := rfl
  once _ := id
  kept _ o ho := by
    have hlt := versionNumber_lt o.metadata.resourceVersion
    exact ⟨o, ho, List.prefix_rfl, by omega⟩

theorem trans (h : Gathers key limit m m') (h' : Gathers key limit m' m'') :
    Gathers key limit m m'' where
  placed hm := h'.placed (h.placed hm)
  counted := Nat.le_trans h.counted h'.counted
  unwritten hsame := by
    have hfirst := h.counted
    have hsecond := h'.counted
    exact (h'.unwritten (by omega)).trans (h.unwritten (by omega))
  once hlimit hm := h'.once hlimit (h.once (Nat.lt_of_le_of_lt h'.counted hlimit) hm)
  kept hlimit o ho := by
    have hfirst := h.counted
    have hsecond := h'.counted
    obtain ⟨o', ho', howners, hversion⟩ := h.kept (Nat.lt_of_le_of_lt hsecond hlimit) o ho
    obtain ⟨o'', ho'', howners', hversion'⟩ := h'.kept hlimit o' ho'
    exact ⟨o'', ho'', howners.trans howners', by omega⟩

/-- Below the limit, nobody has written what is still found in the version that was seen. -/
theorem eq_of_version (h : Gathers key limit m m') (hround : limit ≤ m.writes + 2 ^ 64)
    (hlimit : m'.writes < limit) (ho : m.object? key = some o) (ho' : m'.object? key = some o')
    (hversion : o'.metadata.resourceVersion = o.metadata.resourceVersion) : o' = o := by
  obtain ⟨found, hfound, -, hmoved⟩ := h.kept hlimit o ho
  cases ho'.symm.trans hfound
  have hlt := versionNumber_lt o.metadata.resourceVersion
  rw [hversion] at hmoved
  have hunwritten : m'.writes = m.writes := by
    have hcounted := h.counted
    omega
  have hsame := (ho'.symm.trans (h.unwritten hunwritten)).trans ho
  exact Option.some.inj hsame

/-- Who owns the object stays among its owners. -/
theorem holds (h : Gathers key limit m m') (hlimit : m'.writes < limit) {uid : String}
    (ho : m.Holds uid key o) : ∃ o', m'.Holds uid key o' := by
  obtain ⟨o', ho', howners, -⟩ := h.kept hlimit o ho.1
  obtain ⟨r, hr, huid⟩ := ho.2
  exact ⟨o', ho', r, howners.subset hr, huid⟩

/-- One write: it creates the object, or it adds an owner to the one that is there. -/
theorem put {owner : OwnerReference}
    (hplace : o'.metadata.namespace.getD "" = key.namespace ∧ o'.metadata.anyName = key.name)
    (hcreated : m.object? key = none → (o'.metadata.owners.map OwnerReference.uid).Nodup)
    (hkept : m.writes + 1 < limit → ∀ o, m.object? key = some o →
      o'.metadata.owners = withOwner o.metadata.owners owner ∧
        o'.metadata.resourceVersion = some (nextVersion o.metadata.resourceVersion))
    (lastUid : Nat) :
    Gathers key limit m { m.put key o' with lastUid := lastUid, writes := m.writes + 1 } := by
  have hput : (m.put key o').object? key = some o' := (object?_put m key key o').trans (if_pos rfl)
  refine ⟨fun hm => hm.put hplace, Nat.le_succ _, ?_, fun hlimit hm o ho => ?_,
    fun hlimit o ho => ⟨o', hput, ?_, ?_⟩⟩
  · intro hsame
    exact absurd hsame (Nat.succ_ne_self _)
  · cases hput.symm.trans ho
    cases hthere : m.object? key with
    | none => exact hcreated hthere
    | some o =>
        rw [(hkept hlimit o hthere).1]
        exact nodup_uids_withOwner (hm o hthere)
  · rw [(hkept hlimit o ho).1]
    exact prefix_withOwner o.metadata.owners owner
  · rw [(hkept hlimit o ho).2, versionNumber_nextVersion]
    show _ = (_ + (m.writes + 1 - m.writes)) % 2 ^ 64
    omega

end Gathers

end InMemory.Member

namespace InMemory.World

open Member

variable {key : ObjectKey} {limit : Nat}

/-- Worlds in which only this object is written. -/
def Gathering (key : ObjectKey) (limit : Nat) (w w' : World) : Prop :=
  w.member.Gathers key limit w'.member

instance : IsPreorder World (Gathering key limit) where
  refl w := .self w.member
  trans _ _ _ h h' := Gathers.trans h h'

theorem gathering_put {v : World} {o' : ApiObject} {owner : OwnerReference}
    (hplace : o'.metadata.namespace.getD "" = key.namespace ∧ o'.metadata.anyName = key.name)
    (howned : o'.IsOwnedBy owner.uid)
    (hcreated : v.member.object? key = none → (o'.metadata.owners.map OwnerReference.uid).Nodup)
    (hkept : v.member.writes + 1 < limit → ∀ o, v.member.object? key = some o →
      o'.metadata.owners = withOwner o.metadata.owners owner ∧
        o'.metadata.resourceVersion = some (nextVersion o.metadata.resourceVersion))
    (lastUid : Nat) :
    let v' : World := { v with member :=
      { v.member.put key o' with lastUid := lastUid, writes := v.member.writes + 1 } }
    Gathering key limit v v' ∧ ∃ o, v'.member.Holds owner.uid key o :=
  ⟨.put hplace hcreated hkept lastUid, o',
    (object?_put v.member key key o').trans (if_pos rfl), howned⟩

/-! The three writes, by an owner who has seen the object in some earlier world: -/

section

variable {v v' seen : World} {mapping : ResourceMapping} {owner : OwnerReference}
  {live desired created : ApiObject}

theorem gathering_createObject
    (hperform : v.perform (.createObject mapping desired) = .ok (created, v'))
    (hwhere : ObjectKey.ofObject mapping desired = key)
    (howners : desired.metadata.owners = [owner]) :
    Gathering key limit v v' ∧ ∃ o, v'.member.Holds owner.uid key o := by
  obtain ⟨member, hcreate, rfl⟩ := onMember_eq_ok hperform
  obtain ⟨hfree, rfl, rfl⟩ := createObject_eq_ok hcreate
  subst hwhere
  refine gathering_put ⟨rfl, rfl⟩ ⟨owner, ?_, rfl⟩ (fun _ => ?_) (fun _ o ho => ?_) _
  · show owner ∈ desired.metadata.owners
    rw [howners]
    exact List.mem_singleton_self owner
  · show (desired.metadata.owners.map OwnerReference.uid).Nodup
    rw [howners]
    exact List.nodup_singleton owner.uid
  · cases hfree.symm.trans ho

variable (hlive : seen.member.object? key = some live)
  (hround : limit ≤ seen.member.writes + 2 ^ 64) (hseen : Gathering key limit seen v)

include hlive hround hseen

/-- Below the limit, a write over the version that was seen is one over the object that was seen. -/
theorem gathering_write {observed changed : ApiObject} {change : ApiObject → ApiObject}
    {member : Member} (hwrite : v.member.write mapping observed change = .ok (changed, member))
    (hwhere : ObjectKey.ofObject mapping observed = key)
    (hversion : observed.metadata.resourceVersion = live.metadata.resourceVersion)
    (hplace : ∀ stored, v.member.object? key = some stored →
      (change stored).metadata.namespace.getD "" = key.namespace ∧
        (change stored).metadata.anyName = key.name)
    (hchange : ∀ stored,
      (change stored).metadata.owners = withOwner live.metadata.owners owner ∧
        (change stored).metadata.resourceVersion =
          some (nextVersion stored.metadata.resourceVersion)) :
    Gathering key limit v { v with member } ∧ ∃ o, member.Holds owner.uid key o := by
  obtain ⟨stored, hstored, hsame, rfl, rfl⟩ := write_eq_ok_iff.1 hwrite
  rw [hwhere] at hstored ⊢
  refine gathering_put (hplace stored hstored) ?_ (fun hnone => ?_) (fun hlimit o ho => ?_) _
  · rw [ApiObject.IsOwnedBy, (hchange stored).1]
    exact exists_mem_withOwner live.metadata.owners owner
  · cases hnone.symm.trans hstored
  · cases hstored.symm.trans ho
    have hunchanged : stored = live :=
      hseen.eq_of_version hround (Nat.lt_of_succ_lt hlimit) hlive hstored (hsame.trans hversion)
    refine ⟨?_, (hchange stored).2⟩
    rw [(hchange stored).1, hunchanged]

end

/-- Below the limit, the object is there and has this owner. -/
def Gathered (key : ObjectKey) (limit : Nat) (uid : String) (w : World) : Prop :=
  w.member.writes < limit → ∃ o, w.member.Holds uid key o

theorem Gathered.later {uid : String} {w w' : World} (h : Gathering key limit w w')
    (hw : Gathered key limit uid w) : Gathered key limit uid w' := by
  intro hlimit
  obtain ⟨o, ho⟩ := hw (Nat.lt_of_le_of_lt h.counted hlimit)
  exact h.holds hlimit ho

end InMemory.World

namespace Apply

open World

variable {key : ObjectKey} {limit : Nat} {w : World}

/-- A write that goes through gathers, whoever has written meanwhile, and its owner is among the owners
from then on. -/
theorem succeeds_writing {c : ClientCall} {action : ApplyAction} {uid : String}
    (hwrites : ∀ v value v', Gathering key limit w v → v.perform c = .ok (value, v') →
      Gathering key limit v v' ∧ ∃ o, v'.member.Holds uid key o) :
    Succeeds (Gathering key limit) w (do let _ ← request c; return action)
      fun _ v => Gathered key limit uid v := by
  refine Succeeds.request_andThen fun v hv => ?_
  rcases answer_cases v c with ⟨failure, -, h⟩ | ⟨value, v', hperform, h⟩ <;> rw [h]
  · exact ⟨.self v.member, fun _ => nofun⟩
  · obtain ⟨hmoved, hheld⟩ := hwrites v value v' hv hperform
    refine ⟨hmoved, fun _ _ => Succeeds.pure fun v'' hlater => ?_⟩
    exact Gathered.later hlater fun _ => hheld

/-- Applying a manifest beside others that apply theirs to the same object. -/
theorem succeeds_manifest {r : Manifest.Resolved} (owner : OwnerReference)
    (hplaced : w.member.Placed) (hobject : ObjectKey.ofObject r.mapping r.object = key)
    (hidentifier : ObjectKey.ofIdentifier r.identifier = key)
    (hunowned : r.object.metadata.owners = []) (hround : limit ≤ w.member.writes + 2 ^ 64) :
    Succeeds (Gathering key limit) w (manifest r owner)
      fun _ v => Gathered key limit owner.uid v := by
  have hresource : r.mapping.plural = key.resource := congrArg ObjectKey.resource hobject
  have hplace : r.object.metadata.namespace.getD "" = key.namespace ∧
      r.object.metadata.anyName = key.name :=
    ⟨congrArg ObjectKey.namespace hobject, congrArg ObjectKey.name hobject⟩
  refine Succeeds.request_read
    (fun v => answer_getObject v (hobject.trans hidentifier.symm)) fun seen hseen => ?_
  rw [hidentifier]
  have hround : limit ≤ seen.member.writes + 2 ^ 64 :=
    Nat.le_trans hround (Nat.add_le_add_right hseen.counted _)
  cases hlive : seen.member.object? key with
  | none =>
      refine succeeds_writing fun v _ v' _ hperform =>
        gathering_createObject hperform hobject ?_
      show withOwner r.object.metadata.owners owner = [owner]
      rw [hunowned]
      rfl
  | some live =>
      have hwhere : ObjectKey.ofObject r.mapping live = key :=
        (hseen.placed hplaced).ofObject_eq hlive hresource
      dsimp only
      split
      · cases hmerge : mergeOwners live.metadata.owners owner with
        | none =>
            refine Succeeds.pure fun v hv => Gathered.later hv fun _ => ⟨live, hlive, ?_⟩
            exact isOwned_of_mergeOwners hmerge
        | some owners =>
            have howners : owners = withOwner live.metadata.owners owner := by
              rw [withOwner, hmerge]
              rfl
            subst howners
            refine succeeds_writing fun v _ v' hv hperform => ?_
            obtain ⟨member, hpatch, rfl⟩ := onMember_map_eq_ok hperform
            obtain ⟨_, hwrite⟩ := Member.patchOwners_eq_ok_iff.1 hpatch
            exact gathering_write hlive hround hv hwrite hwhere rfl
              (hv.placed (hseen.placed hplaced) key) fun _ => ⟨rfl, rfl⟩
      · refine succeeds_writing fun v _ v' hv hperform => ?_
        obtain ⟨member, hreplace, rfl⟩ := onMember_eq_ok hperform
        exact gathering_write hlive hround hv hreplace hobject rfl (fun _ _ => hplace)
          fun _ => ⟨rfl, rfl⟩

/-- However many applications of one object alternate call by call, it keeps the owners that it has, in
their order, and each application that has succeeded has its owner there; none of them twice, if none
was at the start. Versions are numbers of 64 bits: one that was seen is not made again before as many
writes, and an application makes one at most. A cluster that counts its writes in 64 bits as well never
comes to as many (`Member.writes`), so `hwrites` excludes nothing that happens on it. -/
theorem owners_gathered {ι : Type} [DecidableEq ι] {resolved : ι → Manifest.Resolved}
    {owner : ι → OwnerReference} {s : Crowd ι (Except Failure ApplyAction)}
    (hplaced : w.member.Placed)
    (hobject : ∀ i, ObjectKey.ofObject (resolved i).mapping (resolved i).object = key)
    (hidentifier : ∀ i, ObjectKey.ofIdentifier (resolved i).identifier = key)
    (hunowned : ∀ i, (resolved i).object.metadata.owners = [])
    (hrun : ReflTransGen (Crowd.Step fun fate => fate = .answered)
      ⟨w, fun i => (manifest (resolved i) (owner i)).run⟩ s)
    (hwrites : s.world.member.writes < w.member.writes + 2 ^ 64) :
    (∀ o, w.member.object? key = some o → ∃ o', s.world.member.object? key = some o' ∧
      o.metadata.owners <+: o'.metadata.owners) ∧
    (∀ i action, s.left i = .done (.ok action) →
      ∃ o, s.world.member.Holds (owner i).uid key o) ∧
    (w.member.OwnersOnce key → s.world.member.OwnersOnce key) := by
  have hleft : ∀ i, Succeeds (Gathering key (w.member.writes + 2 ^ 64)) w
      (manifest (resolved i) (owner i)) _ := fun i =>
    succeeds_manifest (owner i) hplaced (hobject i) (hidentifier i) (hunowned i) (Nat.le_refl _)
  have hgathering : w.member.Gathers key (w.member.writes + 2 ^ 64) s.world.member :=
    (Crowd.beside hrun hleft).1
  refine ⟨fun o ho => ?_, fun i action hdone => ?_, hgathering.once hwrites⟩
  · obtain ⟨o', ho', howners, -⟩ := hgathering.kept hwrites o ho
    exact ⟨o', ho', howners⟩
  · exact Crowd.ended hrun hleft hdone action rfl hwrites

end Apply

/-! ### An object applied for two owners at once -/

namespace InMemory.Racing

open Member World

def newOwner : Fin 2 → OwnerReference
  | 0 => Shared.owner "other" "aw-2"
  | 1 => Shared.owner "third" "aw-3"

def applications (w : World) : Crowd (Fin 2) (Except Failure ApplyAction) :=
  ⟨w, fun i => (Apply.manifest resolved (newOwner i)).run⟩

/-- Both look before either of them writes: the second write is refused, and takes no owner away. -/
theorem owners_gathered_after_outdated_look : ∃ s,
    ReflTransGen (Crowd.Step fun fate => fate = .answered)
      (applications (world [Shared.owner "demo" "aw-1"])) s ∧
    s.left 0 = .done (.ok .updated) ∧ s.left 1 = .done (.error (outdated "object")) ∧
    ∃ o, s.world.member.Holds "aw-2" (.ofTracked entry) o ∧ o.IsOwnedBy "aw-1" ∧
      (o.metadata.owners.map OwnerReference.uid).Nodup := by
  have hrun : ∃ s, ReflTransGen (Crowd.Step fun fate => fate = .answered)
      (applications (world [Shared.owner "demo" "aw-1"])) s ∧
      s.left 0 = .done (.ok .updated) ∧ s.left 1 = .done (.error (outdated "object")) ∧
      s.world.member.writes = 1 := by
    have hnext : ∀ {v : World} {left : Fin 2 → Program clientCalls (Except Failure ApplyAction)}
        (i : Fin 2) {c : ClientCall} {next}, left i = .call c next →
        Crowd.Step (fun fate => fate = .answered) ⟨v, left⟩
          ⟨(v.answer c).2, Function.update left i (next (v.answer c).1)⟩ :=
      fun _ _ _ h => .call h .answered rfl
    exact ⟨_, .head (hnext 0 rfl) <| .head (hnext 1 rfl) <| .head (hnext 0 rfl) <|
      .single (hnext 1 rfl), rfl, rfl, rfl⟩
  obtain ⟨s, hsteps, hfirst, hsecond, hcount⟩ := hrun
  have hwrites : s.world.member.writes < 0 + 2 ^ 64 := by omega
  have hobject : ∀ _ : Fin 2, ObjectKey.ofObject resolved.mapping resolved.object =
      .ofTracked entry := fun _ => rfl
  obtain ⟨hkept, hheld, honce⟩ := Apply.owners_gathered (placed_world _) hobject (fun _ => rfl)
    (fun _ => rfl) hsteps hwrites
  obtain ⟨o, ho, howned⟩ := hheld 0 .updated hfirst
  obtain ⟨o', ho', howners⟩ := hkept _ rfl
  cases ho.symm.trans ho'
  refine ⟨s, hsteps, hfirst, hsecond, o, ⟨ho, howned⟩, ?_, honce ?_ o ho⟩
  · exact ⟨Shared.owner "demo" "aw-1", howners.subset List.mem_cons_self, rfl⟩
  · rintro _ ⟨⟩
    exact List.nodup_singleton "aw-1"

end InMemory.Racing

end MemberAgent
