import MemberAgent.Object.ContentHash
import MemberAgent.Proofs.Object.Declared

/-! What of an object is hashed. Two manifests give the same text to hash exactly if they want the same:
the same type, the same content but for the status, and the same metadata but for what a cluster fills in
by itself. So no change that matters is missed, and none that does not is taken for one. -/

namespace MemberAgent

open Json ApiObject

/-! ### Wanting the same -/

/-- Whether two objects have the same metadata, but for the uid, the version, the generation, the time of
creation, the managers, the link, the owners and the annotation with the hash. Having no annotations is
having empty ones. -/
structure ObjectMeta.SameDesired (m m' : ObjectMeta) : Prop where
  annotations : ∀ key, key ≠ hashAnnotation →
    (m.annotations.getD ∅).get? key = (m'.annotations.getD ∅).get? key
  deletionGracePeriodSeconds : m.deletionGracePeriodSeconds = m'.deletionGracePeriodSeconds
  deletionTimestamp : m.deletionTimestamp = m'.deletionTimestamp
  finalizers : m.finalizers = m'.finalizers
  generateName : m.generateName = m'.generateName
  labels : m.labels = m'.labels
  name : m.name = m'.name
  «namespace» : m.namespace = m'.namespace

structure ApiObject.SameDesired (o o' : ApiObject) : Prop where
  types : o.types = o'.types
  content : ∀ key, key ≠ "status" → o.content.get? key = o'.content.get? key
  metadata : o.metadata.SameDesired o'.metadata

/-! ### Metadata -/

theorem bind_withoutHash (s : Option (Table String String)) : s.bind withoutHash =
    if ((s.getD ∅).erase hashAnnotation).isEmpty then none
    else some ((s.getD ∅).erase hashAnnotation) := by
  cases s <;> rfl

theorem Table.eq_empty_of_isEmpty {ν : Type} {t : Table String ν} (h : t.isEmpty) : t = ∅ :=
  Table.eq_of_entries (List.isEmpty_iff.1 h)

/-- What is left of annotations tells all of them but the hash. -/
theorem bind_withoutHash_eq_iff {s s' : Option (Table String String)} :
    s.bind withoutHash = s'.bind withoutHash ↔
      ∀ key, key ≠ hashAnnotation → (s.getD ∅).get? key = (s'.getD ∅).get? key := by
  have herased : (s.getD ∅).erase hashAnnotation = (s'.getD ∅).erase hashAnnotation ↔
      ∀ key, key ≠ hashAnnotation → (s.getD ∅).get? key = (s'.getD ∅).get? key := by
    constructor
    · intro h key hkey
      have hget := congrArg (Table.get? · key) h
      simpa [Ne.symm hkey] using hget
    · refine fun h => Table.ext_get? fun key => ?_
      rw [Table.get?_erase, Table.get?_erase]
      split
      · rfl
      · next hkey => exact h key (Ne.symm hkey)
  rw [← herased, bind_withoutHash, bind_withoutHash]
  split <;> split
  · next h h' => simp [Table.eq_empty_of_isEmpty h, Table.eq_empty_of_isEmpty h']
  · next h h' => exact ⟨nofun, fun he => absurd (he ▸ h) h'⟩
  · next h h' => exact ⟨nofun, fun he => absurd (he ▸ h') h⟩
  · exact Option.some_inj

theorem object_injective : Function.Injective Json.object := by
  intro t t' h
  refine Table.ext_get? fun key => ?_
  rw [← get?_object, h, get?_object]

theorem ofStringTable_injective : Function.Injective ofStringTable := by
  intro t t' h
  refine Table.ext_get? fun key => ?_
  have hget := congrArg (Table.get? · key) (object_injective h)
  simp only [Table.get?_mapValues] at hget
  exact Option.map_injective (fun _ _ => Json.str.inj) hget

theorem ofStrings_injective : Function.Injective ofStrings := by
  intro l l' h
  exact List.map_injective_iff.2 (fun _ _ => Json.str.inj) (Json.arr.inj h)

theorem ObjectMeta.json_desired_eq_iff {m m' : ObjectMeta} (h : m.deletionTimestamp = none)
    (h' : m'.deletionTimestamp = none) : m.desired.json = m'.desired.json ↔ m.SameDesired m' := by
  have hstr : Function.Injective Json.str := fun _ _ => Json.str.inj
  have hint : Function.Injective Json.int := fun _ _ => Json.int.inj
  unfold json
  rw [record_inj ?keys ?same]
  case same => rfl
  case keys => simp
  -- the fields that are cleared say nothing, and neither do the times, which are missing in both
  simp only [desired, List.cons.injEq, Prod.mk.injEq, true_and, and_true, h, h', Option.map_none,
    (Option.map_injective hstr).eq_iff, (Option.map_injective hint).eq_iff,
    (Option.map_injective ofStringTable_injective).eq_iff,
    (Option.map_injective ofStrings_injective).eq_iff, bind_withoutHash_eq_iff]
  constructor
  · rintro ⟨hannotations, hgrace, hfinalizers, hgenerate, hlabels, hname, hnamespace⟩
    exact ⟨hannotations, hgrace, h.trans h'.symm, hfinalizers, hgenerate, hlabels, hname, hnamespace⟩
  · rintro ⟨hannotations, hgrace, -, hfinalizers, hgenerate, hlabels, hname, hnamespace⟩
    exact ⟨hannotations, hgrace, hfinalizers, hgenerate, hlabels, hname, hnamespace⟩

/-! ### The text -/

theorem readable_ofStringTable (depth : Nat) (t : Table String String) :
    Readable (depth + 1) (ofStringTable t) := by
  refine .obj (t.mapValues fun _ s => Json.str s).sorted fun e he => ?_
  obtain ⟨e', -, rfl⟩ := List.mem_map.1 he
  exact .str _

theorem readable_ofStrings (depth : Nat) (l : List String) : Readable (depth + 1) (ofStrings l) :=
  .arr fun x hx => by
    obtain ⟨s, -, rfl⟩ := List.mem_map.1 hx
    exact .str s

/-- Metadata that have been read are written without loss, but for fractions of seconds. -/
theorem ObjectMeta.readable_desired {j : Json} {m : ObjectMeta} (hm : j.IsMetadata m) :
    Readable 2 m.desired.json := by
  have hgrace : ∀ n, m.deletionGracePeriodSeconds = some n → Readable 1 (.int n) := by
    intro n hn
    have hgiven := hm.deletionGracePeriodSeconds
    rw [hn, Given.some_iff] at hgiven
    obtain ⟨_, -, -, -, hlow, hhigh⟩ := hgiven
    exact .int hlow (Int.le_trans hhigh (by decide))
  have hsorted : ["annotations", "creationTimestamp", "deletionGracePeriodSeconds",
    "deletionTimestamp", "finalizers", "generateName", "generation", "labels", "managedFields",
    "name", "namespace", "ownerReferences", "resourceVersion", "selfLink",
    "uid"].Pairwise fun a b => compare a b = .lt := by decide
  refine readable_record (inOrder hsorted rfl) ?_
  simpa [-Option.map_bind, desired, Readable.str, readable_ofStringTable, readable_ofStrings]
    using hgrace

namespace ApiObject

/-- An object without what is not desired of it. -/
def desired (o : ApiObject) : ApiObject := { o with metadata := o.metadata.desired }

/-- The fields of an object that are hashed. -/
def hashed (o : ApiObject) : Table String Json := o.desired.fields.erase "status"

theorem get?_hashed (o : ApiObject) {key : String} (hkey : key ≠ "status") :
    o.hashed.get? key = o.desired.fields.get? key :=
  (Table.get?_erase ..).trans (if_neg (Ne.symm hkey))

theorem mem_head_iff {o : ApiObject} {t : TypeMeta} (ht : o.types = some t) {e : String × Json} :
    e ∈ o.head ↔ e = ("metadata", o.metadata.json) ∨ e = ("kind", .str t.kind) ∨
      e = ("apiVersion", .str t.apiVersion) := by
  rw [head, ht, List.mem_cons, List.mem_pair]

end ApiObject

theorem Json.Readable.distinct {depth : Nat} {j : Json} (h : Readable depth j) : j.Distinct := by
  cases h with
  | obj hsorted _ => exact nodup_of_sorted (List.pairwise_map.2 hsorted)
  | _ => exact List.nodup_nil

theorem Json.Readable.of_get? {depth : Nat} {j v : Json} {key : String} (h : Readable depth j)
    (hv : j.get? key = some v) : Readable depth v := by
  have hmem := (get?_eq_some_iff h.distinct).1 hv
  cases h with
  | obj _ hfields => exact (hfields _ hmem).mono (Nat.le_succ _)
  | _ => cases hmem

namespace Json.Declares

variable {d d' : Json} {o o' : ApiObject} {depth : Nat}

theorem readable_content (h : d.Declares o) (hd : Readable depth d) {key : String} {v : Json}
    (hv : o.content.get? key = some v) : Readable depth v := by
  by_cases hkey : key ∈ headKeys
  · rw [h.isPlain key hkey] at hv
    cases hv
  · exact hd.of_get? ((h.get?_content hd.distinct hkey).symm.trans hv)

/-- What is hashed of a manifest of whole numbers is written without loss. -/
theorem readable_hashed (h : d.Declares o) (hd : Readable depth d) :
    Readable (max depth 2 + 1) (object o.hashed) := by
  refine .obj o.hashed.sorted fun e he => ?_
  obtain ⟨t, ht, -⟩ := h.types
  obtain ⟨j, -, hm⟩ := h.metadata
  have hget : o.hashed.get? e.1 = some e.2 := Table.get?_eq_some_iff.2 he
  rw [hashed, Table.get?_erase] at hget
  split at hget
  · cases hget
  rw [get?_fields, Option.or_eq_some_iff] at hget
  rcases hget with hcontent | ⟨-, hhead⟩
  · exact (h.readable_content hd hcontent).mono (Nat.le_max_left _ _)
  · obtain ⟨before, after, hsplit, -⟩ := List.lookup_eq_some_iff.1 hhead
    have hmem : e ∈ o.desired.head := hsplit ▸ List.mem_append_right _ List.mem_cons_self
    rcases (mem_head_iff (o := o.desired) ht).1 hmem with rfl | rfl | rfl
    · exact (ObjectMeta.readable_desired hm).mono (Nat.le_max_right _ _)
    · exact .str _
    · exact .str _

/-- The fields that are hashed tell what an object wants, and nothing else. -/
theorem hashed_eq_iff (h : d.Declares o) (h' : d'.Declares o')
    (hdeletion : o.metadata.deletionTimestamp = none)
    (hdeletion' : o'.metadata.deletionTimestamp = none) :
    o.hashed = o'.hashed ↔ o.SameDesired o' := by
  have hplain : o.desired.IsPlain := h.isPlain
  have hplain' : o'.desired.IsPlain := h'.isPlain
  have hmetadata := ObjectMeta.json_desired_eq_iff hdeletion hdeletion'
  constructor
  · intro he
    have hfields : ∀ key, key ≠ "status" →
        o.desired.fields.get? key = o'.desired.fields.get? key := fun key hkey => by
      rw [← get?_hashed o hkey, ← get?_hashed o' hkey, he]
    refine ⟨?_, fun key hkey => ?_, ?_⟩
    · obtain ⟨t, ht, -⟩ := h.types
      obtain ⟨t', ht', -⟩ := h'.types
      have hversion := hfields "apiVersion" (by decide)
      have hkind := hfields "kind" (by decide)
      rw [hplain.get?_apiVersion, hplain'.get?_apiVersion] at hversion
      rw [hplain.get?_kind, hplain'.get?_kind] at hkind
      simp only [desired, ht, ht', Option.map_some, Option.some.injEq, Json.str.injEq] at hversion hkind
      have hsame : t = t' := by
        cases t
        cases t'
        cases hversion
        cases hkind
        rfl
      rw [ht, ht', hsame]
    · by_cases hhead : key ∈ headKeys
      · rw [h.isPlain key hhead, h'.isPlain key hhead]
      · have hget := hfields key hkey
        rwa [ApiObject.get?_content _ hhead, ApiObject.get?_content _ hhead] at hget
    · have hget := hfields "metadata" (by decide)
      rw [hplain.get?_metadata, hplain'.get?_metadata] at hget
      exact hmetadata.1 (Option.some.inj hget)
  · rintro ⟨htypes, hcontent, hsame⟩
    have hhead : o.desired.head = o'.desired.head := by
      simp only [head, desired, htypes, hmetadata.2 hsame]
    refine Table.ext_get? fun key => ?_
    by_cases hkey : key = "status"
    · rw [hashed, hashed, Table.get?_erase, Table.get?_erase, if_pos hkey.symm, if_pos hkey.symm]
    · rw [get?_hashed o hkey, get?_hashed o' hkey, get?_fields, get?_fields, hhead]
      exact congrArg (Option.or · _) (hcontent key hkey)

end Json.Declares

/-! ### The hashed text -/

/-- The texts that are hashed of two manifests are the same exactly if both want the same. -/
theorem contentText_eq_iff {ordinal ordinal' : Nat} {d d' : Json} {o o' : ApiObject}
    (hd : d.Integral) (hd' : d'.Integral) (h : Manifest.decode ordinal d = .ok o)
    (h' : Manifest.decode ordinal' d' = .ok o') (hdeletion : o.metadata.deletionTimestamp = none)
    (hdeletion' : o'.metadata.deletionTimestamp = none) :
    o.contentText = o'.contentText ↔ o.SameDesired o' := by
  obtain ⟨depth, hread⟩ := hd.exists_readable
  obtain ⟨depth', hread'⟩ := hd'.exists_readable
  have hdeclares := Manifest.decode_eq_ok_iff.1 h
  have hdeclares' := Manifest.decode_eq_ok_iff.1 h'
  calc
    o.contentText = o'.contentText ↔ object o.hashed = object o'.hashed :=
      (hdeclares.readable_hashed hread).text_inj (hdeclares'.readable_hashed hread')
    _ ↔ o.hashed = o'.hashed := object_injective.eq_iff
    _ ↔ o.SameDesired o' := hdeclares.hashed_eq_iff hdeclares' hdeletion hdeletion'

/-! ### A deployment that was exported, and one of another size -/

namespace Deployment

def manifest (metadata : List (String × Json)) (replicas : Int) (rest : List (String × Json)) : Json :=
  .obj (("apiVersion", .str "apps/v1") :: ("kind", .str "Deployment") ::
    ("metadata", .obj metadata) :: ("spec", .obj [("replicas", .int replicas)]) :: rest)

def object (metadata : ObjectMeta) (replicas : Int) (rest : List (String × Json)) : ApiObject where
  types := some ⟨"apps/v1", "Deployment"⟩
  metadata := metadata
  content := Table.ofList (("spec", .obj [("replicas", .int replicas)]) :: rest)

def declared (replicas : Int) : Json := manifest [("name", .str "web")] replicas []

def status : List (String × Json) := [("status", .obj [("replicas", .int 1)])]

/-- The deployment as the cluster gives it out: with a version, a hash and a status. -/
def exported : Json :=
  manifest
    [("annotations", .obj [( hashAnnotation, .str "0123456789abcdef")]), ("name", .str "web"),
      ("resourceVersion", .str "41")]
    2 status

def named : ObjectMeta := { name := some "web" }

def stored : ObjectMeta :=
  { named with
    annotations := some (Table.ofList [( hashAnnotation, "0123456789abcdef")])
    resourceVersion := some "41" }

theorem integral_replicas {n : Int} (hlow : 0 ≤ n) (hhigh : n ≤ 100) :
    Integral (.obj [("replicas", .int n)]) := by
  refine .obj (List.pairwise_singleton _ _) (List.forall_mem_singleton.2 (.int (by omega) ?_))
  exact Int.le_trans hhigh (by decide)

theorem integral_declared {n : Int} (hn : n = 2 ∨ n = 3) : (declared n).Integral := by
  have hname : Integral (.obj [("name", .str "web")]) := .obj (by decide) (by simp [Integral.str])
  have hspec : Integral (.obj [("replicas", .int n)]) := integral_replicas (by omega) (by omega)
  rcases hn with rfl | rfl <;>
    exact .obj (by decide) (by simpa [Integral.str] using ⟨hname, hspec⟩)

theorem integral_exported : exported.Integral := by
  have hannotation : Integral (.obj [( hashAnnotation, .str "0123456789abcdef")]) :=
    .obj (by decide) (by simp [Integral.str])
  have hmetadata : Integral (.obj [("annotations", .obj [( hashAnnotation, .str "0123456789abcdef")]),
      ("name", .str "web"), ("resourceVersion", .str "41")]) :=
    .obj (by decide) (by simpa [Integral.str] using hannotation)
  refine .obj (by decide) ?_
  simpa [Integral.str, status] using ⟨hmetadata, integral_replicas (by decide) (by decide),
    integral_replicas (by decide) (by decide)⟩

/-- The exported deployment has the same text as the one that was declared, and one of another size has
not. -/
theorem exported_hashed_as_declared :
    (declared 2).Integral ∧ exported.Integral ∧ (declared 3).Integral ∧
    Manifest.decode 0 (declared 2) = .ok (object named 2 []) ∧
    Manifest.decode 0 exported = .ok (object stored 2 status) ∧
    Manifest.decode 0 (declared 3) = .ok (object named 3 []) ∧
    (object named 2 []).contentText = (object stored 2 status).contentText ∧
    (object named 2 []).contentText ≠ (object named 3 []).contentText := by
  have hdecode : Manifest.decode 0 (declared 2) = .ok (object named 2 []) := rfl
  have hexported : Manifest.decode 0 exported = .ok (object stored 2 status) := rfl
  have hscaled : Manifest.decode 0 (declared 3) = .ok (object named 3 []) := rfl
  have htwo : (declared 2).Integral := integral_declared (.inl rfl)
  have hthree : (declared 3).Integral := integral_declared (.inr rfl)
  refine ⟨htwo, integral_exported, hthree, hdecode, hexported, hscaled, ?_, ?_⟩
  · refine (contentText_eq_iff htwo integral_exported hdecode hexported rfl rfl).2 ⟨rfl, ?_, ?_⟩
    · intro key hkey
      show (Table.ofList _).get? key = (Table.ofList _).get? key
      rw [get?_ofList, get?_ofList]
      simp [status, List.lookup_cons, beq_eq_false_iff_ne.2 hkey]
    · refine ⟨fun key hkey => ?_, rfl, rfl, rfl, rfl, rfl, rfl, rfl⟩
      exact ((Table.get?_insert ..).trans (if_neg (Ne.symm hkey))).symm
  · intro he
    have hsame := (contentText_eq_iff htwo hthree hdecode hscaled rfl rfl).1 he
    exact absurd (hsame.content "spec" (by decide)) (by decide)

end Deployment

end MemberAgent
