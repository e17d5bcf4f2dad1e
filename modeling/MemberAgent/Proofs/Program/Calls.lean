import MemberAgent.Proofs.Program.Environment
import MemberAgent.Reconcile.Apply
import MemberAgent.Reconcile.Lifecycle
import MemberAgent.Reconcile.Monitor

/-! Which calls a program may come to, whatever is replied. A run keeps what the replies to these
calls keep. Applying and tracking neither attach nor remove a finalizer, and they neither create nor
delete a record. -/

namespace MemberAgent

namespace Program

variable {I : Interface} {α β : Type} {allowed : I.Call → Prop}

/-- Whatever is replied, the program makes allowed calls only. -/
def OnlyCalls (allowed : I.Call → Prop) : Program I α → Prop
  | done _ => True
  | call c next => allowed c ∧ ∀ r, (next r).OnlyCalls allowed

theorem OnlyCalls.mono {wider : I.Call → Prop} (hw : ∀ c, allowed c → wider c) {p : Program I α}
    (hp : p.OnlyCalls allowed) : p.OnlyCalls wider := by
  induction p with
  | done a => trivial
  | call c next ih => exact ⟨hw c hp.1, fun r => ih r (hp.2 r)⟩

theorem OnlyCalls.bind {p : Program I α} {f : α → Program I β} (hp : p.OnlyCalls allowed)
    (hf : ∀ a, (f a).OnlyCalls allowed) : (p >>= f).OnlyCalls allowed := by
  induction p with
  | done a => exact hf a
  | call c next ih => exact ⟨hp.1, fun r => ih r (hp.2 r)⟩

theorem onlyCalls_any (p : Program I α) : p.OnlyCalls fun _ => True := by
  induction p with
  | done a => trivial
  | call c next ih => exact ⟨trivial, ih⟩

/-- Whatever is replied, the program comes to such results only. -/
def Yields (post : α → Prop) : Program I α → Prop
  | done a => post a
  | call _ next => ∀ r, (next r).Yields post

variable {post : α → Prop} {goal : β → Prop}

theorem Yields.bind {p : Program I α} {f : α → Program I β} (hp : p.Yields post)
    (hf : ∀ a, post a → (f a).Yields goal) : (p >>= f).Yields goal := by
  induction p with
  | done a => exact hf a hp
  | call c next ih => exact fun r => ih r (hp r)

theorem yields_any (p : Program I α) : p.Yields fun _ => True := by
  induction p with
  | done a => trivial
  | call c next ih => exact ih

/-- What a program does may depend on what the programs before it come to. -/
theorem OnlyCalls.bind_of_yields {p : Program I α} {f : α → Program I β}
    (hp : p.OnlyCalls allowed) (hyields : p.Yields post)
    (hf : ∀ a, post a → (f a).OnlyCalls allowed) : (p >>= f).OnlyCalls allowed := by
  induction p with
  | done a => exact hf a hyields
  | call c next ih => exact ⟨hp.1, fun r => ih r (hp.2 r) (hyields r)⟩

end Program

namespace Reconcile

variable {α β : Type} {allowed : ClientCall → Prop}

def OnlyCalls (allowed : ClientCall → Prop) (r : Reconcile α) : Prop :=
  Program.OnlyCalls (I := clientCalls) allowed r.run

theorem OnlyCalls.pure (a : α) : OnlyCalls allowed (Pure.pure a : Reconcile α) := trivial

theorem OnlyCalls.throw (e : Failure) :
    OnlyCalls allowed (MonadExcept.throw e : Reconcile α) := trivial

theorem OnlyCalls.request {c : ClientCall} (h : allowed c) :
    OnlyCalls allowed (MemberAgent.request c) := ⟨h, fun _ => trivial⟩

theorem OnlyCalls.bind {x : Reconcile α} {f : α → Reconcile β} (hx : OnlyCalls allowed x)
    (hf : ∀ a, OnlyCalls allowed (f a)) : OnlyCalls allowed (x >>= f) := by
  apply Program.OnlyCalls.bind hx
  rintro (e | a)
  · trivial
  · exact hf a

theorem OnlyCalls.lift {p : Program clientCalls α} (h : p.OnlyCalls allowed) :
    OnlyCalls allowed (ExceptT.lift p) :=
  Program.OnlyCalls.bind h fun _ => trivial

/-- A program that does not fail, and what depends on its result. -/
theorem OnlyCalls.bind_lift {p : Program clientCalls α} {f : α → Reconcile β} {post : α → Prop}
    (hp : p.OnlyCalls allowed) (hyields : p.Yields post)
    (hf : ∀ a, post a → OnlyCalls allowed (f a)) : OnlyCalls allowed (ExceptT.lift p >>= f) := by
  have hlifted : (ExceptT.lift p : Reconcile α).run.Yields
      (I := clientCalls) fun result => ∃ a, result = .ok a ∧ post a :=
    hyields.bind fun a ha => ⟨a, rfl, ha⟩
  refine Program.OnlyCalls.bind_of_yields (OnlyCalls.lift hp) hlifted ?_
  rintro _ ⟨a, rfl, ha⟩
  exact hf a ha

end Reconcile

open Reconcile

namespace Apply

/-- The calls of resolving and applying manifests. -/
def ManifestCall : ClientCall → Prop
  | .findMapping .. | .getObject .. | .createObject .. | .replaceObject .. | .patchOwners .. => True
  | _ => False

theorem ManifestCall.ne_deleteTracked {c : ClientCall} (h : ManifestCall c) (r : TrackedResource) :
    c ≠ .deleteTracked r := by
  rintro rfl
  exact h

/-- The calls of applying a Work. -/
def WorkCall : ClientCall → Prop
  | .getAppliedWork .. | .patchWorkStatus .. => True
  | c => ManifestCall c

theorem manifest_onlyCalls (resolved : Manifest.Resolved) (owner : OwnerReference) :
    OnlyCalls ManifestCall (manifest resolved owner) := by
  refine OnlyCalls.bind (OnlyCalls.request trivial) ?_
  rintro (_ | live)
  · exact OnlyCalls.bind (OnlyCalls.request trivial) fun _ => OnlyCalls.pure _
  · dsimp only
    split
    · cases mergeOwners live.metadata.owners owner with
      | none => exact OnlyCalls.pure _
      | some owners => exact OnlyCalls.bind (OnlyCalls.request trivial) fun _ => OnlyCalls.pure _
    · exact OnlyCalls.bind (OnlyCalls.request trivial) fun _ => OnlyCalls.pure _

section

variable {allowed : ClientCall → Prop} (hfind : ∀ kind, allowed (.findMapping kind))
  (hmanifest : ∀ resolved owner, OnlyCalls allowed (manifest resolved owner))

include hfind

theorem resolve_onlyCalls_of (ordinal : Nat) (document : Json) :
    (Manifest.resolve ordinal document).OnlyCalls (I := clientCalls) allowed := by
  unfold Manifest.resolve
  split
  · trivial
  · refine Program.OnlyCalls.bind (OnlyCalls.request (hfind _)) ?_
    rintro (_ | _ | mapping) <;> trivial

include hmanifest

theorem document_onlyCalls_of (owner : OwnerReference) (ordinal : Nat) (d : Json) :
    (document owner ordinal d).OnlyCalls (I := clientCalls) allowed := by
  refine Program.OnlyCalls.bind (resolve_onlyCalls_of hfind ordinal d) ?_
  rintro (u | resolved)
  · trivial
  · refine Program.OnlyCalls.bind (hmanifest resolved owner) ?_
    rintro (_ | _) <;> trivial

theorem documents_onlyCalls_of (owner : OwnerReference) (ordinal : Nat) (l : List Json) :
    (documents owner ordinal l).OnlyCalls (I := clientCalls) allowed := by
  induction l generalizing ordinal with
  | nil => trivial
  | cons d rest ih =>
      refine Program.OnlyCalls.bind (document_onlyCalls_of hfind hmanifest owner ordinal d)
        fun outcome => ?_
      exact Program.OnlyCalls.bind (ih (ordinal + 1)) fun _ => trivial

/-- Applying a Work makes allowed calls only, if applying its manifests does and the calls about the
Work itself are allowed. -/
theorem reconcile_onlyCalls_of (hrecord : ∀ name, allowed (.getAppliedWork name))
    (hreport : ∀ work status, allowed (.patchWorkStatus work status)) (settings : Settings)
    (clock : Nat → Timestamp) (w : Work) : OnlyCalls allowed (reconcile settings clock w) := by
  have hwork : ∀ owner, (work clock w owner).OnlyCalls (I := clientCalls) allowed := fun owner =>
    Program.OnlyCalls.bind (documents_onlyCalls_of hfind hmanifest owner 0 w.manifests)
      fun _ => trivial
  unfold reconcile owningRecord
  split
  · exact OnlyCalls.pure _
  split
  · exact OnlyCalls.pure _
  refine OnlyCalls.bind (OnlyCalls.bind (OnlyCalls.request (hrecord _)) ?_) fun applied => ?_
  · rintro (_ | applied)
    · exact OnlyCalls.throw _
    · exact OnlyCalls.pure _
  split
  · exact OnlyCalls.pure _
  split
  · exact OnlyCalls.throw _
  refine OnlyCalls.bind (OnlyCalls.lift (hwork _)) ?_
  rintro ⟨outcomes, status⟩
  dsimp only
  split
  · refine OnlyCalls.bind (OnlyCalls.request (hreport _ _)) fun _ => ?_
    split <;> exact OnlyCalls.pure _
  · split <;> exact OnlyCalls.pure _

end

theorem documents_onlyCalls (owner : OwnerReference) (ordinal : Nat) (l : List Json) :
    (documents owner ordinal l).OnlyCalls (I := clientCalls) ManifestCall :=
  documents_onlyCalls_of (fun _ => trivial) manifest_onlyCalls owner ordinal l

theorem reconcile_onlyCalls (settings : Settings) (clock : Nat → Timestamp) (w : Work) :
    OnlyCalls WorkCall (reconcile settings clock w) := by
  have hmanifest : ∀ c, ManifestCall c → WorkCall c := by
    intro c hc
    cases c <;> first | exact hc | trivial
  exact reconcile_onlyCalls_of (fun _ => trivial)
    (fun resolved owner => (manifest_onlyCalls resolved owner).mono hmanifest) (fun _ => trivial)
    (fun _ _ => trivial) settings clock w

end Apply

namespace Tracking

/-- The calls of bringing a record in line. -/
def SyncCall : ClientCall → Prop
  | .getWork .. | .getAppliedWork .. | .getTracked .. | .deleteTracked .. | .patchOwners ..
  | .updateResources .. => True
  | _ => False

/-- The calls of releasing resources. -/
def ReleaseCall : ClientCall → Prop
  | .getTracked .. | .deleteTracked .. | .patchOwners .. => True
  | _ => False

theorem release_onlyCalls (owner : String) (r : TrackedResource) :
    OnlyCalls ReleaseCall (release owner r) := by
  refine OnlyCalls.bind (OnlyCalls.request trivial) ?_
  rintro (_ | live)
  · exact OnlyCalls.pure _
  dsimp only
  split
  · exact OnlyCalls.pure _
  split
  · exact OnlyCalls.bind (OnlyCalls.request trivial) fun _ => OnlyCalls.pure _
  split
  · exact OnlyCalls.pure _
  · exact OnlyCalls.bind (OnlyCalls.request trivial) fun _ => OnlyCalls.pure _

theorem releaseEach_onlyCalls (owner : String) (stale : List TrackedResource) :
    (releaseEach owner stale).OnlyCalls (I := clientCalls) ReleaseCall := by
  induction stale with
  | nil => trivial
  | cons r rest ih =>
      refine Program.OnlyCalls.bind (release_onlyCalls owner r) fun result => ?_
      refine Program.OnlyCalls.bind ih fun failures => ?_
      cases result <;> trivial

theorem refreshUids_onlyCalls (l : List TrackedResource) :
    OnlyCalls (fun c => ∃ r ∈ l, c = .getTracked r) (refreshUids l) := by
  induction l with
  | nil => exact OnlyCalls.pure _
  | cons r rest ih =>
      refine OnlyCalls.bind (OnlyCalls.request ⟨r, List.mem_cons_self, rfl⟩) fun live => ?_
      refine OnlyCalls.bind (Program.OnlyCalls.mono ?_ ih) fun _ => OnlyCalls.pure _
      rintro c ⟨r', hr', rfl⟩
      exact ⟨r', List.mem_cons_of_mem _ hr', rfl⟩

theorem releaseCall_syncCall (c : ClientCall) (hc : ReleaseCall c) : SyncCall c := by
  cases c <;> first | exact hc | trivial

theorem releaseAll_onlyCalls (owner : String) (stale : List TrackedResource) :
    OnlyCalls ReleaseCall (releaseAll owner stale) := by
  refine OnlyCalls.bind (OnlyCalls.lift (releaseEach_onlyCalls _ _)) fun failures => ?_
  cases failures with
  | nil => exact OnlyCalls.pure _
  | cons => exact OnlyCalls.throw _

theorem align_onlyCalls (work : Work) (applied : AppliedWork) :
    OnlyCalls SyncCall (align work applied) := by
  refine OnlyCalls.bind ((releaseAll_onlyCalls _ _).mono releaseCall_syncCall) fun _ => ?_
  refine OnlyCalls.bind ((refreshUids_onlyCalls _).mono ?_) fun resources => ?_
  · rintro c ⟨r, -, rfl⟩
    trivial
  split
  · exact OnlyCalls.request trivial
  · exact OnlyCalls.pure _

theorem givenOr_onlyCalls {α : Type} {allowed : ClientCall → Prop} (given : Option α)
    {read : Reconcile (Option α)} (hread : OnlyCalls allowed read) :
    OnlyCalls allowed (givenOr given read) := by
  cases given with
  | none => exact hread
  | some a => exact OnlyCalls.pure _

theorem sync_onlyCalls («namespace» name : String) (work : Option Work)
    (applied : Option AppliedWork) :
    OnlyCalls SyncCall (sync «namespace» name work applied) := by
  refine OnlyCalls.bind (givenOr_onlyCalls work (OnlyCalls.request trivial)) fun work => ?_
  refine OnlyCalls.bind (givenOr_onlyCalls applied (OnlyCalls.request trivial)) fun applied => ?_
  split
  · exact OnlyCalls.throw _
  · exact OnlyCalls.pure _
  · exact align_onlyCalls _ _

theorem reconcile_onlyCalls (settings : Settings) (w : Work) :
    OnlyCalls SyncCall (reconcile settings w) :=
  OnlyCalls.bind (sync_onlyCalls _ _ _ _) fun _ => OnlyCalls.pure _

end Tracking

namespace Lifecycle

/-- The calls that take a Work up and let it go. -/
def LifeCall : ClientCall → Prop
  | .createAppliedWork .. | .deleteAppliedWork .. | .addFinalizer .. | .removeFinalizer .. => True
  | _ => False

theorem startTracking_onlyCalls (w : Work) : OnlyCalls LifeCall (startTracking w) := by
  have hattach : OnlyCalls LifeCall (request (.addFinalizer w cleanupFinalizer)) :=
    OnlyCalls.request trivial
  refine OnlyCalls.bind (OnlyCalls.lift (OnlyCalls.request trivial)) ?_
  rintro (failure | applied)
  · dsimp only
    split
    · exact OnlyCalls.throw _
    · exact hattach
  · exact hattach

theorem finishTracking_onlyCalls (w : Work) : OnlyCalls LifeCall (finishTracking w) :=
  OnlyCalls.bind (OnlyCalls.request trivial) fun _ => OnlyCalls.request trivial

theorem reconcile_onlyCalls (w : Work) : OnlyCalls LifeCall (reconcile w) := by
  unfold reconcile
  split
  · exact OnlyCalls.bind (startTracking_onlyCalls w) fun _ => OnlyCalls.pure _
  · exact OnlyCalls.bind (finishTracking_onlyCalls w) fun _ => OnlyCalls.pure _
  · exact OnlyCalls.pure _
  · exact OnlyCalls.pure _

end Lifecycle

theorem Monitor.reconcile_onlyCalls (settings : Settings) (applied : AppliedWork) :
    OnlyCalls Tracking.SyncCall (reconcile settings applied) := by
  refine OnlyCalls.bind (OnlyCalls.request trivial) ?_
  rintro (_ | current)
  · exact OnlyCalls.pure _
  · exact OnlyCalls.bind (Tracking.sync_onlyCalls _ _ _ _) fun _ => OnlyCalls.pure _

end MemberAgent
