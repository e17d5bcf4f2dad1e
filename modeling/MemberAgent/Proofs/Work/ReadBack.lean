import MemberAgent.Work.AppliedWork
import MemberAgent.Proofs.Json.Records
import MemberAgent.Proofs.Timestamp.ReadBack

/-! Statuses read back. What a status holds is written to its text without loss: names, the three
statuses of a condition, numbers, times, and what is left out because it is absent. So the status of a
Work, and that of a record, is read from its text as the value that was written. -/

namespace MemberAgent

open Json

/-! ### Conditions -/

theorem asTimestamp_text (t : Timestamp) : asTimestamp (.str t.text) = .ok t := by
  rw [asTimestamp, Timestamp.ofText_text]

theorem ConditionStatus.ofJson_text (s : ConditionStatus) : ofJson (.str s.text) = .ok s := by
  cases s <;> rfl

/-- A generation has 64 bits, one of them for the sign. -/
def Condition.Fits (c : Condition) : Prop :=
  ∀ n ∈ c.observedGeneration, -0x8000000000000000 ≤ n ∧ n ≤ 0x7fffffffffffffff

instance : DecidablePred Condition.Fits := fun _ =>
  inferInstanceAs (Decidable (∀ n ∈ _, _ ∧ _))

theorem Condition.writes {c : Condition} (h : c.Fits) (depth : Nat) :
    Writes (depth + 1) ofJson c.json c := by
  have hsorted : ["lastTransitionTime", "message", "observedGeneration", "reason", "status",
    "type"].Pairwise fun a b => compare a b = .lt := by decide
  have hnumber : ∀ n, c.observedGeneration = some n → Readable depth (.int n) := by
    intro n hn
    obtain ⟨low, high⟩ := h n hn
    exact .int low (Int.le_trans high (by decide))
  have htime : field? c.json.fields "lastTransitionTime" asTimestamp =
      .ok (some c.lastTransitionTime) :=
    field?_record (inOrder hsorted rfl) rfl (asTimestamp_text _)
  have hmessage : field? c.json.fields "message" asText = .ok (some c.message) :=
    field?_record (inOrder hsorted rfl) rfl rfl
  have hgeneration : optional c.json.fields "observedGeneration" asInt64 =
      .ok c.observedGeneration :=
    optional_record (inOrder hsorted rfl) rfl nofun fun n hn => if_pos (h n hn)
  have hreason : field? c.json.fields "reason" asText = .ok (some c.reason) :=
    field?_record (inOrder hsorted rfl) rfl rfl
  have hstatus : field? c.json.fields "status" ConditionStatus.ofJson = .ok (some c.status) :=
    field?_record (inOrder hsorted rfl) rfl (ConditionStatus.ofJson_text _)
  have htype : field? c.json.fields "type" asText = .ok (some c.type) :=
    field?_record (inOrder hsorted rfl) rfl rfl
  refine ⟨readable_record (inOrder hsorted rfl) ?_, ?_⟩
  · simpa [Readable.str] using hnumber
  · show ofFields c.json.fields = _
    rw [ofFields, htime, hmessage, hgeneration, hreason, hstatus, htype]
    rfl

/-! ### Manifests -/

/-- An ordinal has 32 bits. -/
def ResourceIdentifier.Fits (i : ResourceIdentifier) : Prop := i.ordinal ≤ 0xffffffff

instance : DecidablePred ResourceIdentifier.Fits := fun _ => inferInstanceAs (Decidable (_ ≤ _))

theorem asNat32_int {n : Nat} (h : n ≤ 0xffffffff) : asNat32 (.int n) = .ok n := by
  have hread : asInt "u32" 0 0xffffffff (.int n) = .ok (n : Int) := if_pos (by omega)
  show Int.toNat <$> asInt "u32" 0 0xffffffff (.int n) = _
  rw [hread]
  rfl

theorem ResourceIdentifier.writes {i : ResourceIdentifier} (h : i.Fits) (depth : Nat) :
    Writes (depth + 1) ofJson i.json i := by
  have hsorted : ["group", "kind", "name", "namespace", "ordinal", "resource",
    "version"].Pairwise fun a b => compare a b = .lt := by decide
  have hfits : i.ordinal ≤ 0xffffffff := h
  have hnumber : Readable depth (.int i.ordinal) := by
    refine .int (by omega) ?_
    unfold largestSignificand
    omega
  have hgroup : field? i.json.fields "group" asText = .ok (some i.group) :=
    field?_record (inOrder hsorted rfl) rfl rfl
  have hkind : field? i.json.fields "kind" asText = .ok (some i.kind) :=
    field?_record (inOrder hsorted rfl) rfl rfl
  have hname : field? i.json.fields "name" asText = .ok (some i.name) :=
    field?_record (inOrder hsorted rfl) rfl rfl
  have hnamespace : field? i.json.fields "namespace" asText = .ok (some i.namespace) :=
    field?_record (inOrder hsorted rfl) rfl rfl
  have hordinal : field? i.json.fields "ordinal" asNat32 = .ok (some i.ordinal) :=
    field?_record (inOrder hsorted rfl) rfl (asNat32_int h)
  have hresource : field? i.json.fields "resource" asText = .ok (some i.resource) :=
    field?_record (inOrder hsorted rfl) rfl rfl
  have hversion : field? i.json.fields "version" asText = .ok (some i.version) :=
    field?_record (inOrder hsorted rfl) rfl rfl
  refine ⟨readable_record (inOrder hsorted rfl) ?_, ?_⟩
  · simpa [Readable.str] using hnumber
  · show ofFields i.json.fields = _
    rw [ofFields, hgroup, hkind, hname, hnamespace, hordinal, hresource, hversion]
    rfl

/-- Whether all numbers have as many bits as they are given. -/
def ManifestCondition.Fits (m : ManifestCondition) : Prop :=
  m.identifier.Fits ∧ ∀ c ∈ m.conditions, c.Fits

instance : DecidablePred ManifestCondition.Fits := fun _ => inferInstanceAs (Decidable (_ ∧ _))

theorem ManifestCondition.writes {m : ManifestCondition} (h : m.Fits) (depth : Nat) :
    Writes (depth + 3) ofJson m.json m := by
  obtain ⟨hfits, hall⟩ := h
  have hsorted : ["conditions", "identifier"].Pairwise fun a b => compare a b = .lt := by decide
  have hlist := writes_list fun c hc => Condition.writes (hall c hc) depth
  have hidentifier := ResourceIdentifier.writes hfits (depth + 1)
  have hconditions : field? m.json.fields "conditions" (asList Condition.ofJson) =
      .ok (some m.conditions) :=
    field?_record (inOrder hsorted rfl) rfl hlist.reads
  have hfield : field? m.json.fields "identifier" ResourceIdentifier.ofJson =
      .ok (some m.identifier) :=
    field?_record (inOrder hsorted rfl) rfl hidentifier.reads
  refine ⟨readable_record (inOrder hsorted rfl) ?_, ?_⟩
  · simpa using ⟨hlist.readable, hidentifier.readable⟩
  · show ofFields m.json.fields = _
    rw [ofFields, hconditions, hfield]
    rfl

def WorkStatus.Fits (s : WorkStatus) : Prop :=
  (∀ c ∈ s.conditions, c.Fits) ∧ ∀ m ∈ s.manifestConditions, m.Fits

instance : DecidablePred WorkStatus.Fits := fun _ => inferInstanceAs (Decidable (_ ∧ _))

theorem WorkStatus.writes {s : WorkStatus} (h : s.Fits) (depth : Nat) :
    Writes (depth + 5) ofJson s.json s := by
  obtain ⟨hall, hrest⟩ := h
  have hsorted : ["conditions", "manifestConditions"].Pairwise fun a b => compare a b = .lt := by
    decide
  have hwhole := writes_list fun c hc => Condition.writes (hall c hc) (depth + 2)
  have hmanifests := writes_list fun m hm => ManifestCondition.writes (hrest m hm) depth
  have hconditions : field? s.json.fields "conditions" (asList Condition.ofJson) =
      .ok (some s.conditions) :=
    field?_record (inOrder hsorted rfl) rfl hwhole.reads
  have hmanifestConditions : field? s.json.fields "manifestConditions"
      (asList ManifestCondition.ofJson) = .ok (some s.manifestConditions) :=
    field?_record (inOrder hsorted rfl) rfl hmanifests.reads
  refine ⟨readable_record (inOrder hsorted rfl) ?_, ?_⟩
  · simpa using ⟨hwhole.readable, hmanifests.readable⟩
  · show ofFields s.json.fields = _
    rw [ofFields, hconditions, hmanifestConditions]
    rfl

/-! ### Records -/

theorem TrackedResource.writes (r : TrackedResource) (depth : Nat) :
    Writes (depth + 1) ofJson r.json r := by
  have hsorted : ["group", "name", "namespace", "resource", "uid",
    "version"].Pairwise fun a b => compare a b = .lt := by decide
  have hgroup : field? r.json.fields "group" asText = .ok (some r.group) :=
    field?_record (inOrder hsorted rfl) rfl rfl
  have hname : field? r.json.fields "name" asText = .ok (some r.name) :=
    field?_record (inOrder hsorted rfl) rfl rfl
  have hnamespace : field? r.json.fields "namespace" asText = .ok (some r.namespace) :=
    field?_record (inOrder hsorted rfl) rfl rfl
  have hresource : field? r.json.fields "resource" asText = .ok (some r.resource) :=
    field?_record (inOrder hsorted rfl) rfl rfl
  have huid : optional r.json.fields "uid" asText = .ok r.uid :=
    optional_record (inOrder hsorted rfl) rfl nofun fun _ _ => rfl
  have hversion : field? r.json.fields "version" asText = .ok (some r.version) :=
    field?_record (inOrder hsorted rfl) rfl rfl
  refine ⟨readable_record (inOrder hsorted rfl) ?_, ?_⟩
  · simp [Readable.str]
  · show ofFields r.json.fields = _
    rw [ofFields, hgroup, hname, hnamespace, hresource, huid, hversion]
    rfl

theorem AppliedWorkStatus.writes (s : AppliedWorkStatus) (depth : Nat) :
    Writes (depth + 3) ofJson s.json s := by
  have hsorted : ["appliedResources"].Pairwise fun a b => compare a b = .lt := by decide
  have hlist := writes_list fun r (_ : r ∈ s.appliedResources) => r.writes depth
  have hresources : field? s.json.fields "appliedResources" (asList TrackedResource.ofJson) =
      .ok (some s.appliedResources) :=
    field?_record (inOrder hsorted rfl) rfl hlist.reads
  refine ⟨readable_record (inOrder hsorted rfl) ?_, ?_⟩
  · simpa using hlist.readable
  · show ofFields s.json.fields = _
    rw [ofFields, hresources]
    rfl

/-! ### Statuses on the wire -/

/-- A Work has the status that its document says. -/
theorem Work.status_of_ofJson {j : Json} {w : Work} {s : WorkStatus} (hs : s.Fits)
    (hstatus : j.get? "status" = some s.json) (h : ofJson j = .ok w) : w.status = some s := by
  cases j with
  | obj fields =>
      have hread : optional fields "status" WorkStatus.ofJson = .ok (some s) :=
        optional_of_lookup hstatus nofun (WorkStatus.writes hs 0).reads
      obtain ⟨metadata, -, h⟩ := bind_eq_ok h
      obtain ⟨spec, -, h⟩ := bind_eq_ok h
      obtain ⟨status, hfound, h⟩ := bind_eq_ok h
      cases hread.symm.trans hfound
      obtain ⟨_, -, h⟩ := bind_eq_ok h
      obtain ⟨_, -, h⟩ := bind_eq_ok h
      cases h
      rfl
  | _ => cases hstatus

/-- A record has the status that its document says. -/
theorem AppliedWork.status_of_ofJson {j : Json} {a : AppliedWork} {s : AppliedWorkStatus}
    (hstatus : j.get? "status" = some s.json) (h : ofJson j = .ok a) : a.status = some s := by
  cases j with
  | obj fields =>
      have hread : optional fields "status" AppliedWorkStatus.ofJson = .ok (some s) :=
        optional_of_lookup hstatus nofun (s.writes 0).reads
      obtain ⟨metadata, -, h⟩ := bind_eq_ok h
      obtain ⟨spec, -, h⟩ := bind_eq_ok h
      obtain ⟨status, hfound, h⟩ := bind_eq_ok h
      cases hread.symm.trans hfound
      obtain ⟨_, -, h⟩ := bind_eq_ok h
      obtain ⟨_, -, h⟩ := bind_eq_ok h
      cases h
      rfl
  | _ => cases hstatus

/-- A status is read as the value that was written, from its own text and out of the document that
holds it, and two statuses have one text only if they are the same. -/
theorem status_through_text :
    (∀ s : WorkStatus, s.Fits → readText WorkStatus.ofJson s.json.text = .ok s ∧
      (∀ j w, j.get? "status" = some s.json → Work.ofJson j = .ok w → w.status = some s) ∧
      ∀ s' : WorkStatus, s'.Fits → (s.json.text = s'.json.text ↔ s = s')) ∧
    ∀ s : AppliedWorkStatus, readText AppliedWorkStatus.ofJson s.json.text = .ok s ∧
      (∀ j a, j.get? "status" = some s.json → AppliedWork.ofJson j = .ok a → a.status = some s) ∧
      ∀ s' : AppliedWorkStatus, s.json.text = s'.json.text ↔ s = s' := by
  constructor
  · intro s hs
    have hwritten := WorkStatus.writes hs 122
    refine ⟨hwritten.readText, fun j w => Work.status_of_ofJson hs, fun s' hs' => ?_⟩
    exact hwritten.text_inj (WorkStatus.writes hs' 122)
  · intro s
    have hwritten := s.writes 124
    refine ⟨hwritten.readText, fun j a => AppliedWork.status_of_ofJson, fun s' => ?_⟩
    exact hwritten.text_inj (s'.writes 124)

/-- The last seconds of a leap day. -/
def Timestamp.leapDay : Timestamp := ⟨2024, 2, 29, 23, 59, 58, 120000000, by decide, by decide⟩

/-- A status of one manifest, whose message has two lines and quotes. -/
def WorkStatus.unmappable : WorkStatus where
  manifestConditions := [{
    identifier := { ordinal := 0, version := "v1", kind := "ConfigMapp" }
    conditions := [{
      type := appliedCondition
      status := .isFalse
      reason := "UnmappableKind"
      message := "no \"plural\"\nfor the kind"
      observedGeneration := some 7
      lastTransitionTime := .leapDay }] }]

/-- A Work that has been given this status. -/
def Work.unmappable : Work where
  metadata := { name := some "demo", «namespace» := some "cluster1" }
  status := some .unmappable

/-- The status is read from its own text and out of the Work. -/
theorem WorkStatus.unmappable_through_text : unmappable.Fits ∧
    readText ofJson unmappable.json.text = .ok unmappable ∧
    ∃ w, Work.ofJson Work.unmappable.json = .ok w ∧ w.status = some unmappable := by
  have hfits : unmappable.Fits := by decide
  obtain ⟨hread, hdocument, -⟩ := status_through_text.1 unmappable hfits
  have hwork : Work.ofJson Work.unmappable.json = .ok Work.unmappable := rfl
  exact ⟨hfits, hread, _, hwork, hdocument _ _ rfl hwork⟩

end MemberAgent
