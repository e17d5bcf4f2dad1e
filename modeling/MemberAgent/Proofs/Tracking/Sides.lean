import MemberAgent.Proofs.Tracking.Difference
import Mathlib.Data.List.Perm.Basic

/-! The two sides of the difference, whatever is repeated. Each key that is declared or tracked is on one
side and there once: on the first side if it is declared, on the other one if not. Of several entries of
one key the last one is retained, but the first one is released. -/

namespace MemberAgent

section FirstByKey

variable {α κ : Type} [DecidableEq κ] {key : α → κ} {l m : List α} {a : α}

theorem eraseDups_filter (p : κ → Bool) (keys : List κ) :
    (keys.filter p).eraseDups = keys.eraseDups.filter p := by
  match keys with
  | [] => rfl
  | k :: rest =>
      have ih := eraseDups_filter p (rest.filter fun b => !b == k)
      rw [List.eraseDups_cons]
      by_cases hk : p k = true
      · rw [List.filter_cons_of_pos hk, List.filter_cons_of_pos hk, List.eraseDups_cons, ← ih,
          List.filter_filter, List.filter_filter]
        simp only [Bool.and_comm]
      · -- What is equal to `k` is not let through either.
        have hothers : (rest.filter fun b => !b == k).filter p = rest.filter p := by
          rw [List.filter_filter]
          refine List.filter_congr fun b _ => ?_
          by_cases hb : b = k
          · subst hb
            simp [hk]
          · simp [hb]
        rw [List.filter_cons_of_neg hk, List.filter_cons_of_neg hk, ← ih, hothers]
termination_by keys.length
decreasing_by exact Nat.lt_succ_of_le (List.length_filter_le _ _)

/-- The keys are there in the order in which they come first. -/
theorem map_key_firstByKey : (firstByKey key l).map key = (l.map key).eraseDups := by
  induction l with
  | nil => rfl
  | cons a rest ih =>
      rw [List.map_cons, List.eraseDups_cons, eraseDups_filter, ← ih, firstByKey, List.map_cons,
        List.filter_map]
      refine congrArg (key a :: List.map key ·) (List.filter_congr fun b _ => ?_)
      simp [Bool.beq_eq_decide_eq]

theorem mem_firstByKey : a ∈ firstByKey key l ↔ l.find? (fun b => key b = key a) = some a := by
  induction l with
  | nil => simp [firstByKey]
  | cons b rest ih =>
      rw [firstByKey, List.mem_cons, List.mem_filter, ih, List.find?_cons]
      by_cases hkey : key b = key a
      · simp [hkey, eq_comm]
      · have hne : a ≠ b := fun h => hkey (congrArg key h.symm)
        simp [hkey, Ne.symm hkey, hne]

omit [DecidableEq κ] in
/-- Lists that have the same keys are the same if their elements are by their keys. -/
theorem eq_of_map_key_eq (hkeys : l.map key = m.map key)
    (hsame : ∀ a ∈ l, ∀ b ∈ m, key a = key b → a = b) : l = m := by
  induction l generalizing m with
  | nil => exact (List.map_eq_nil_iff.1 hkeys.symm).symm
  | cons a rest ih =>
      obtain ⟨b, others, rfl, hb, hothers⟩ := List.map_eq_cons_iff.1 hkeys.symm
      have hhead : a = b := hsame a List.mem_cons_self b List.mem_cons_self hb.symm
      rw [hhead, ih hothers.symm fun a' ha' b' hb' =>
        hsame a' (List.mem_cons_of_mem _ ha') b' (List.mem_cons_of_mem _ hb')]

end FirstByKey

namespace TrackedResource

theorem eq_of_key_of_uid {r r' : TrackedResource} (hkey : r.key = r'.key) (huid : r.uid = r'.uid) :
    r = r' := by
  injection hkey with hgroup hversion hresource hnamespace hname
  cases r
  cases r'
  cases hgroup; cases hversion; cases hresource; cases hnamespace; cases hname; cases huid
  rfl

/-- Whether an entry is the first one of its key. -/
def IsFirst (tracked : List TrackedResource) (r : TrackedResource) : Prop :=
  ∃ before after, tracked = before ++ r :: after ∧ ∀ t ∈ before, t.key ≠ r.key

/-- Whether an entry is the last one of its key. -/
def IsLast (tracked : List TrackedResource) (r : TrackedResource) : Prop :=
  ∃ before after, tracked = before ++ r :: after ∧ ∀ t ∈ after, t.key ≠ r.key

variable {tracked : List TrackedResource} {r r' : TrackedResource}

theorem isFirst_iff : IsFirst tracked r ↔ tracked.find? (fun t => t.key = r.key) = some r := by
  rw [List.find?_eq_some_iff_append]
  simp [IsFirst]

theorem isLast_iff : IsLast tracked r ↔ Tracking.entryOf r.key tracked = some r := by
  rw [Tracking.entryOf, List.find?_eq_some_iff_append]
  constructor
  · rintro ⟨before, after, rfl, hafter⟩
    exact ⟨decide_eq_true rfl, after.reverse, before.reverse, by simp, by simpa using hafter⟩
  · rintro ⟨-, after, before, hsplit, hafter⟩
    refine ⟨before.reverse, after.reverse, ?_, by simpa using hafter⟩
    rw [← List.reverse_reverse tracked, hsplit]
    simp

theorem IsLast.mem (h : IsLast tracked r) : r ∈ tracked := by
  obtain ⟨before, after, rfl, -⟩ := h
  exact List.mem_append_right _ List.mem_cons_self

theorem IsFirst.unique (h : IsFirst tracked r) (h' : IsFirst tracked r') (hkey : r.key = r'.key) :
    r = r' := by
  have hfound := isFirst_iff.1 h
  rw [hkey, isFirst_iff.1 h'] at hfound
  exact (Option.some.inj hfound).symm

theorem IsLast.unique (h : IsLast tracked r) (h' : IsLast tracked r') (hkey : r.key = r'.key) :
    r = r' := by
  have hfound := isLast_iff.1 h
  rw [hkey, isLast_iff.1 h'] at hfound
  exact (Option.some.inj hfound).symm

end TrackedResource

namespace Tracking

open TrackedResource

variable {declared declared' : List ResourceIdentifier} {tracked tracked' : List TrackedResource}
  {d d' : Diff} {r r' : TrackedResource} {k : ResourceKey}

/-! ### What a difference consists of -/

/-- The keys of both sides. -/
def Diff.keys (d : Diff) : List ResourceKey := (d.retainedOrNew ++ d.stale).map TrackedResource.key

/-- Whether an entry is what a declared resource keeps: the last entry of its key or, where the key is
not tracked, one of which no object has been seen. -/
def Retains (tracked : List TrackedResource) (r : TrackedResource) : Prop :=
  IsLast tracked r ∨ r.uid = none ∧ ∀ t ∈ tracked, t.key ≠ r.key

/-- What is declared is on one side, one entry for each key in the order of the first declarations. What
is tracked and not declared is on the other one, the first entry of each key in the order of the entries. -/
structure Division (declared : List ResourceIdentifier) (tracked : List TrackedResource) (d : Diff) :
    Prop where
  retained_keys : d.retainedOrNew.map TrackedResource.key =
    (declared.map ResourceIdentifier.key).eraseDups
  retained : ∀ r ∈ d.retainedOrNew, Retains tracked r
  stale_keys : d.stale.map TrackedResource.key =
    (tracked.map TrackedResource.key).eraseDups.filter (· ∉ declared.map ResourceIdentifier.key)
  stale : ∀ r ∈ d.stale, IsFirst tracked r
  /-- No key is on both sides, or twice on one. -/
  once : d.keys.Nodup
  mem_keys : ∀ k, k ∈ d.keys ↔
    k ∈ declared.map ResourceIdentifier.key ∨ k ∈ tracked.map TrackedResource.key

theorem Retains.unique (h : Retains tracked r) (h' : Retains tracked r') (hkey : r.key = r'.key) :
    r = r' := by
  rcases h with h | ⟨huid, hnone⟩ <;> rcases h' with h' | ⟨huid', hnone'⟩
  · exact h.unique h' hkey
  · exact absurd hkey (hnone' r h.mem)
  · exact absurd hkey.symm (hnone r' h'.mem)
  · exact eq_of_key_of_uid hkey (huid.trans huid'.symm)

/-- The orders of the keys, and the entry for each of them, leave no choice. -/
theorem Division.unique (h : Division declared tracked d) (h' : Division declared tracked d') :
    d = d' := by
  have hretained : d.retainedOrNew = d'.retainedOrNew :=
    eq_of_map_key_eq (h.retained_keys.trans h'.retained_keys.symm) fun r hr r' hr' =>
      (h.retained r hr).unique (h'.retained r' hr')
  have hstale : d.stale = d'.stale :=
    eq_of_map_key_eq (h.stale_keys.trans h'.stale_keys.symm) fun r hr r' hr' =>
      (h.stale r hr).unique (h'.stale r' hr')
  cases d
  cases d'
  cases hretained
  cases hstale
  rfl

/-! ### The two sides -/

theorem retains_entryFor (tracked : List TrackedResource) (i : ResourceIdentifier) :
    Retains tracked (entryFor tracked i) := by
  unfold entryFor
  cases hfound : entryOf i.key tracked with
  | some r =>
      obtain ⟨-, hkey⟩ := entryOf_eq_some hfound
      exact Or.inl (isLast_iff.2 (hkey ▸ hfound))
  | none =>
      refine Or.inr ⟨rfl, fun t ht hkey => ?_⟩
      exact List.find?_eq_none.1 hfound t (List.mem_reverse.2 ht) (decide_eq_true hkey)

theorem keys_retainedOrNew : (diff declared tracked).retainedOrNew.map TrackedResource.key =
    (declared.map ResourceIdentifier.key).eraseDups :=
  key_retainedOrNew.trans map_key_firstByKey

theorem stale_eq : (diff declared tracked).stale = firstByKey TrackedResource.key
    (tracked.filter fun r => r.key ∉ declared.map ResourceIdentifier.key) := by
  refine congrArg (firstByKey TrackedResource.key) (List.filter_congr fun r _ => ?_)
  rw [Bool.eq_iff_iff]
  simp

theorem keys_stale : (diff declared tracked).stale.map TrackedResource.key =
    (tracked.map TrackedResource.key).eraseDups.filter (· ∉ declared.map ResourceIdentifier.key) := by
  rw [stale_eq, map_key_firstByKey, ← eraseDups_filter, List.filter_map]
  rfl

/-- The first of the undeclared entries of a key is the first one of all: the others of its key are not
declared either. -/
theorem isFirst_of_mem_stale (hr : r ∈ (diff declared tracked).stale) : IsFirst tracked r := by
  have hundeclared : r.key ∉ declared.map ResourceIdentifier.key := by
    rintro hdeclared
    obtain ⟨i, hi, hkey⟩ := List.mem_map.1 hdeclared
    exact key_ne_of_mem_stale hr i hi hkey
  rw [stale_eq, mem_firstByKey, List.find?_filter] at hr
  rw [isFirst_iff, ← hr]
  refine congrArg (List.find? · tracked) (funext fun t => ?_)
  by_cases hkey : t.key = r.key
  · simpa [hkey] using hundeclared
  · simp [hkey]

theorem division_diff (declared : List ResourceIdentifier) (tracked : List TrackedResource) :
    Division declared tracked (diff declared tracked) where
  retained_keys := keys_retainedOrNew
  retained r hr := by
    obtain ⟨i, -, rfl⟩ := List.mem_map.1 (retainedOrNew_eq ▸ hr)
    exact retains_entryFor tracked i
  stale_keys := keys_stale
  stale r hr := isFirst_of_mem_stale hr
  once := by
    rw [Diff.keys, List.map_append, List.nodup_append', key_retainedOrNew]
    refine ⟨nodup_firstByKey, nodup_firstByKey, fun k hretained hstale => ?_⟩
    obtain ⟨i, hi, rfl⟩ := List.mem_map.1 hretained
    obtain ⟨r, hr, hkey⟩ := List.mem_map.1 hstale
    exact key_ne_of_mem_stale hr i (mem_of_mem_firstByKey hi) hkey.symm
  mem_keys k := by
    rw [Diff.keys, List.map_append, List.mem_append, keys_retainedOrNew, keys_stale, List.mem_filter,
      List.mem_eraseDups, List.mem_eraseDups]
    by_cases hdeclared : k ∈ declared.map ResourceIdentifier.key <;> simp [hdeclared]

/-! ### Ordinals and uids -/

/-- Whether the same resources are declared, apart from their order and their ordinals. -/
def SameDeclared (declared declared' : List ResourceIdentifier) : Prop :=
  (declared.map fun i => { i with ordinal := 0 }).Perm (declared'.map fun i => { i with ordinal := 0 })

/-- Whether the same resources are tracked, apart from their order and their uids. -/
def SameTracked (tracked tracked' : List TrackedResource) : Prop :=
  (tracked.map fun r => { r with uid := none }).Perm (tracked'.map fun r => { r with uid := none })

theorem SameDeclared.mem_keys (h : SameDeclared declared declared') (k : ResourceKey) :
    k ∈ declared.map ResourceIdentifier.key ↔ k ∈ declared'.map ResourceIdentifier.key := by
  have hkeys := (h.map ResourceIdentifier.key).mem_iff (a := k)
  rwa [List.map_map, List.map_map] at hkeys

theorem SameTracked.mem_keys (h : SameTracked tracked tracked') (k : ResourceKey) :
    k ∈ tracked.map TrackedResource.key ↔ k ∈ tracked'.map TrackedResource.key := by
  have hkeys := (h.map TrackedResource.key).mem_iff (a := k)
  rwa [List.map_map, List.map_map] at hkeys

/-- The side on which a key is does not depend on ordinals and uids. -/
theorem side_same (hdeclared : SameDeclared declared declared') (htracked : SameTracked tracked tracked')
    (k : ResourceKey) :
    (k ∈ (diff declared tracked).retainedOrNew.map TrackedResource.key ↔
        k ∈ (diff declared' tracked').retainedOrNew.map TrackedResource.key) ∧
      (k ∈ (diff declared tracked).stale.map TrackedResource.key ↔
        k ∈ (diff declared' tracked').stale.map TrackedResource.key) := by
  simp only [keys_retainedOrNew, keys_stale, List.mem_filter, List.mem_eraseDups,
    hdeclared.mem_keys k, htracked.mem_keys k, and_self]

/-- The difference is the one way to divide what is declared and what is tracked: what is declared keeps
the last entry of its key, or gets one, and what is tracked and not declared is let go of, by the first
entry of its key. Every key is on one side, once, and neither the ordinals of the declarations nor the
uids of the entries, nor the order in which they stand, decide on which. -/
theorem diff_divides (declared : List ResourceIdentifier) (tracked : List TrackedResource) :
    (∀ d, Division declared tracked d ↔ d = diff declared tracked) ∧
      ∀ declared' tracked', SameDeclared declared declared' → SameTracked tracked tracked' → ∀ k,
        (k ∈ (diff declared tracked).retainedOrNew.map TrackedResource.key ↔
          k ∈ (diff declared' tracked').retainedOrNew.map TrackedResource.key) ∧
        (k ∈ (diff declared tracked).stale.map TrackedResource.key ↔
          k ∈ (diff declared' tracked').stale.map TrackedResource.key) := by
  refine ⟨fun d => ⟨fun h => h.unique (division_diff declared tracked), ?_⟩, fun _ _ => side_same⟩
  rintro rfl
  exact division_diff declared tracked

end Tracking

/-! ### What is declared twice, and tracked twice with different uids -/

namespace Repeated

open Tracking

def identifier (ordinal : Nat) (name : String) : ResourceIdentifier where
  ordinal
  version := "v1"
  kind := "ConfigMap"
  resource := "configmaps"
  «namespace» := "default"
  name

def entry (name : String) (uid : Option String) : TrackedResource :=
  { TrackedResource.ofIdentifier (identifier 0 name) with uid }

def declared : List ResourceIdentifier := [identifier 0 "a", identifier 1 "b", identifier 2 "a"]

def tracked : List TrackedResource :=
  [entry "a" "a-1", entry "c" "c-1", entry "a" "a-2", entry "c" "c-2"]

/-- The same manifests in another order. -/
def reordered : List ResourceIdentifier := [identifier 0 "a", identifier 1 "a", identifier 2 "b"]

/-- The same entries before any object has been seen. -/
def unseen : List TrackedResource := [entry "a" none, entry "c" none, entry "c" none, entry "a" none]

/-- The last entry of what is declared is retained, and the first entry of what is not is released; on
which side `c` is does not change with the ordinals and the uids. -/
theorem repeated_divided :
    Division declared tracked ⟨[entry "a" "a-2", entry "b" none], [entry "c" "c-1"]⟩ ∧
      SameDeclared declared reordered ∧ SameTracked tracked unseen ∧
      (identifier 0 "c").key ∈ (diff reordered unseen).stale.map TrackedResource.key := by
  obtain ⟨hdivides, hsame⟩ := diff_divides declared tracked
  have hdeclared : SameDeclared declared reordered := by unfold SameDeclared; decide
  have htracked : SameTracked tracked unseen := by unfold SameTracked; decide
  obtain ⟨-, hside⟩ := hsame reordered unseen hdeclared htracked (identifier 0 "c").key
  exact ⟨(hdivides _).2 (by decide), hdeclared, htracked, hside.1 (by decide)⟩

end Repeated

end MemberAgent
