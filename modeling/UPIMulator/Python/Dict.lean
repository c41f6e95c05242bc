import Mathlib.Data.List.Nodup
import Mathlib.Algebra.BigOperators.Group.List
import Mathlib.Algebra.Order.Ring.Nat

/-!
# Insertion-ordered dictionaries

A Python `dict` keeps its keys in the order they were first inserted.  The
log analyzers fill one from a stream of records, with
`d.setdefault(k, init)` followed by an update of the value, or with
`counter[k] += n`.  Both are `upsert` here: the entry of `k` is updated in
place, or one built from `init` is appended.  A `dict` is a list of entries
with distinct keys.

* `groupFold_append` and `foldl_upsert`: filling a `dict` record by record
  gives the group-by `groupFold`, with one entry per distinct key in order of
  first occurrence, whose value folds that key's records in stream order.
* `firstOccurrences_filter`: keeping only the keys that pass a test keeps
  their entries in the same order.
* `groupFold_sum`: when each record adds a count to its key's entry, the
  entries add up to the total count of the records.
-/

namespace UPIMulator.Python

variable {κ α β : Type} [DecidableEq κ]

/-! ## The distinct keys of a stream -/

/-- The distinct keys of `ks` in order of first occurrence: the keys of a
`dict` filled from `ks`. -/
def firstOccurrences (ks : List κ) : List κ :=
  ks.foldl (fun seen k => if k ∈ seen then seen else seen ++ [k]) []

@[simp] theorem firstOccurrences_nil : firstOccurrences ([] : List κ) = [] := rfl

theorem firstOccurrences_append (ks : List κ) (k : κ) :
    firstOccurrences (ks ++ [k]) =
      if k ∈ firstOccurrences ks then firstOccurrences ks else firstOccurrences ks ++ [k] := by
  simp only [firstOccurrences, List.foldl_append, List.foldl_cons, List.foldl_nil]

@[simp] theorem mem_firstOccurrences {ks : List κ} {k : κ} :
    k ∈ firstOccurrences ks ↔ k ∈ ks := by
  induction ks using List.reverseRecOn generalizing k with
  | nil => simp
  | append_singleton ks k' ih =>
    rw [firstOccurrences_append]
    split_ifs with h
    · rw [ih] at h
      simp only [ih, List.mem_append, List.mem_singleton]
      exact ⟨Or.inl, fun h' => h'.elim id (· ▸ h)⟩
    · simp [ih]

theorem nodup_firstOccurrences (ks : List κ) : (firstOccurrences ks).Nodup := by
  induction ks using List.reverseRecOn with
  | nil => exact List.nodup_nil
  | append_singleton ks k ih =>
    rw [firstOccurrences_append]
    split_ifs with h
    · exact ih
    · exact List.nodup_append.2 ⟨ih, List.nodup_singleton k, List.disjoint_singleton.2 h⟩

theorem firstOccurrences_filter (p : κ → Bool) (ks : List κ) :
    firstOccurrences (ks.filter p) = (firstOccurrences ks).filter p := by
  induction ks using List.reverseRecOn with
  | nil => rfl
  | append_singleton ks k ih =>
    rw [List.filter_append, firstOccurrences_append]
    by_cases hp : p k
    · rw [List.filter_cons_of_pos hp, List.filter_nil, firstOccurrences_append, ih]
      by_cases hk : k ∈ firstOccurrences ks <;> simp [hk, hp, List.filter_append]
    · rw [List.filter_cons_of_neg hp, List.filter_nil, List.append_nil, ih]
      split_ifs <;> simp [List.filter_append, hp]

/-! ## `upsert` -/

/-- `d[k] = f(d.get(k, init))` on an insertion-ordered `dict`: the entry of
`k` is updated in place, or appended when `k` is new. -/
def upsert (k : κ) (init : β) (f : β → β) : List (κ × β) → List (κ × β)
  | [] => [(k, f init)]
  | e :: d => if e.1 = k then (e.1, f e.2) :: d else e :: upsert k init f d

/-- An upsert into a `dict` listed by its keys. -/
theorem upsert_map {ks : List κ} (hks : ks.Nodup) (k : κ) (init : β) (f : β → β)
    (F : κ → β) :
    upsert k init f (ks.map fun k' => (k', F k')) =
      if k ∈ ks then ks.map fun k' => (k', if k' = k then f (F k') else F k')
      else ks.map (fun k' => (k', F k')) ++ [(k, f init)] := by
  induction ks with
  | nil => simp [upsert]
  | cons k₀ ks ih =>
    obtain ⟨hk₀, hks⟩ := List.nodup_cons.1 hks
    by_cases h : k₀ = k
    · subst h
      simp only [List.map_cons, upsert, if_true, List.mem_cons, true_or, List.cons.injEq,
        true_and]
      exact List.map_congr_left fun k' hk' => by rw [if_neg (ne_of_mem_of_not_mem hk' hk₀)]
    · simp only [List.map_cons, upsert, h, if_false, ih hks, List.mem_cons, Ne.symm h,
        false_or]
      split_ifs <;> simp [h]

/-- Adding `v` to one entry adds `v` to the total of the entries. -/
theorem upsert_add_sum (d : List (κ × Nat)) (k : κ) (v : Nat) :
    ((upsert k 0 (· + v) d).map (·.2)).sum = (d.map (·.2)).sum + v := by
  induction d with
  | nil => simp [upsert]
  | cons e d ih =>
    unfold upsert
    split_ifs <;> simp [ih] <;> omega

/-- `d[k] = v`: the entry of `k` is replaced in place, or appended. -/
def setItem (k : κ) (v : β) (d : List (κ × β)) : List (κ × β) := upsert k v (fun _ => v) d

/-- The keys of a `dict` listed once each. -/
def DistinctKeys (d : List (κ × β)) : Prop := (d.map (·.1)).Nodup

instance (d : List (κ × β)) : Decidable (DistinctKeys d) :=
  inferInstanceAs (Decidable (d.map fun kv : κ × β => kv.1).Nodup)

/-- `d[k]` reads the first item. -/
theorem lookup_cons_ite (k : κ) (e : κ × β) (d : List (κ × β)) :
    (e :: d).lookup k = if k = e.1 then some e.2 else d.lookup k := by
  obtain ⟨a, b⟩ := e
  by_cases hk : k = a
  · subst hk; simp
  · simp [List.lookup_cons, beq_false_of_ne hk, hk]

/-- `d[k] = v` then `d[k']`. -/
@[simp] theorem lookup_setItem (k k' : κ) (v : β) (d : List (κ × β)) :
    (setItem k v d).lookup k' = if k' = k then some v else d.lookup k' := by
  induction d with
  | nil => simp [setItem, upsert, lookup_cons_ite]
  | cons e d ih =>
    simp only [setItem, upsert] at ih ⊢
    by_cases he : e.1 = k
    · subst he; by_cases hk : k' = e.1 <;> simp [lookup_cons_ite, hk]
    · by_cases hk : k' = e.1
      · subst hk; simp [lookup_cons_ite, he]
      · simp [lookup_cons_ite, he, hk, ih]

/-- Changing every value changes what `d[k]` reads. -/
theorem lookup_map_snd {γ : Type} (g : β → γ) (d : List (κ × β)) (k : κ) :
    (d.map fun kv => (kv.1, g kv.2)).lookup k = (d.lookup k).map g := by
  induction d with
  | nil => rfl
  | cons e d ih => by_cases h : k = e.1 <;> simp [lookup_cons_ite, h, ih]

omit [DecidableEq κ] in
theorem distinctKeys_append_left {d d' : List (κ × β)} (h : DistinctKeys (d ++ d')) :
    DistinctKeys d := by
  unfold DistinctKeys at h ⊢
  rw [List.map_append] at h
  exact h.of_append_left

theorem lookup_of_not_mem {k : κ} {d : List (κ × β)} (h : k ∉ d.map (·.1)) : d.lookup k = none :=
  List.lookup_eq_none_iff.2 fun p hp => bne_iff_ne.2 fun hk => h (by rw [hk]; exact List.mem_map_of_mem _ hp)

omit [DecidableEq κ] in
theorem not_mem_of_distinct_append {d rest : List (κ × β)} {k : κ} {v : β}
    (h : DistinctKeys (d ++ (k, v) :: rest)) : k ∉ d.map (·.1) := fun hk => by
  unfold DistinctKeys at h
  rw [List.map_append] at h
  exact List.disjoint_of_nodup_append h hk (List.mem_cons_self _ _)

/-- `d[k] = v` of a new key appends the item. -/
theorem setItem_of_not_mem {k : κ} (v : β) {d : List (κ × β)} (h : k ∉ d.map (·.1)) :
    setItem k v d = d ++ [(k, v)] := by
  induction d with
  | nil => rfl
  | cons e d ih =>
    simp only [List.map_cons, List.mem_cons, not_or] at h
    simp only [setItem, upsert] at ih ⊢
    rw [if_neg (Ne.symm h.1), ih h.2, List.cons_append]

/-- `d[k] = v` where `k` is not among the first items changes the rest only. -/
theorem setItem_append {k : κ} (v : β) {d : List (κ × β)} (h : k ∉ d.map (·.1))
    (d' : List (κ × β)) : setItem k v (d ++ d') = d ++ setItem k v d' := by
  induction d with
  | nil => rfl
  | cons e d ih =>
    simp only [List.map_cons, List.mem_cons, not_or] at h
    rw [List.cons_append]
    simp only [setItem, upsert] at ih ⊢
    rw [if_neg (Ne.symm h.1), ih h.2, List.cons_append]

/-- Assigning items of new, distinct keys appends them in order. -/
theorem foldl_setItem_of_distinct {d xs : List (κ × β)} (h : DistinctKeys (d ++ xs)) :
    xs.foldl (fun d kv => setItem kv.1 kv.2 d) d = d ++ xs := by
  induction xs generalizing d with
  | nil => simp
  | cons x xs ih =>
    have h' : (d.map (·.1) ++ (x :: xs).map (·.1)).Nodup := by rw [← List.map_append]; exact h
    have hx : x.1 ∉ d.map (·.1) := fun hx =>
      List.disjoint_of_nodup_append h' hx (List.mem_map_of_mem _ (List.mem_cons_self x xs))
    rw [List.foldl_cons, setItem_of_not_mem _ hx, ih (by rw [List.append_assoc]; exact h)]
    simp

/-- After `for k, v in xs: d[k] = v`, each key of `xs` holds its last value. -/
theorem lookup_foldl_setItem (xs d : List (κ × β)) (k : κ) :
    (xs.foldl (fun d kv => setItem kv.1 kv.2 d) d).lookup k =
      ((xs.filter (·.1 = k)).getLast?.map (·.2)).or (d.lookup k) := by
  induction xs using List.reverseRecOn with
  | nil => simp
  | append_singleton xs x ih =>
    rw [List.foldl_append, List.foldl_cons, List.foldl_nil, lookup_setItem, ih, List.filter_append]
    by_cases hx : x.1 = k
    · simp [hx]
    · simp [hx, Ne.symm hx]

/-- In a `dict` whose keys are listed once, the last item of a key is its only one. -/
theorem getLast?_filter_of_distinct {xs : List (κ × β)} (h : DistinctKeys xs) (k : κ) :
    (xs.filter (·.1 = k)).getLast?.map (·.2) = xs.lookup k := by
  induction xs with
  | nil => rfl
  | cons x xs ih =>
    obtain ⟨hx, hxs⟩ := List.nodup_cons.1 h
    by_cases hk : x.1 = k
    · subst hk
      have hnil : xs.filter (·.1 = x.1) = [] :=
        List.filter_eq_nil_iff.2 fun y hy hyk => hx (List.mem_map.2 ⟨y, hy, of_decide_eq_true hyk⟩)
      simp [hnil, lookup_cons_ite]
    · rw [List.filter_cons_of_neg (by simpa using hk), lookup_cons_ite, if_neg (Ne.symm hk), ih hxs]

/-- A property of every item survives `d[k] = v` when the new item has it. -/
theorem forall_setItem {P : κ × β → Prop} {d : List (κ × β)} (hd : ∀ kv ∈ d, P kv) {k : κ}
    {v : β} (hv : P (k, v)) : ∀ kv ∈ setItem k v d, P kv := by
  induction d with
  | nil => simpa [setItem, upsert] using hv
  | cons e d ih =>
    simp only [List.mem_cons, forall_eq_or_imp] at hd
    simp only [setItem, upsert] at ih ⊢
    split_ifs with he
    · simp only [List.mem_cons, forall_eq_or_imp]
      exact ⟨he ▸ hv, hd.2⟩
    · simp only [List.mem_cons, forall_eq_or_imp]
      exact ⟨hd.1, ih hd.2⟩

/-- A property of every item survives a loop of assignments of items that have it. -/
theorem forall_foldl_setItem {P : κ × β → Prop} {d : List (κ × β)} (hd : ∀ kv ∈ d, P kv)
    {xs : List (κ × β)} (hxs : ∀ kv ∈ xs, P kv) :
    ∀ kv ∈ xs.foldl (fun d kv => setItem kv.1 kv.2 d) d, P kv := by
  induction xs generalizing d with
  | nil => exact hd
  | cons x xs ih =>
    simp only [List.mem_cons, forall_eq_or_imp] at hxs
    exact ih (forall_setItem hd hxs.1) hxs.2

/-- Keeping the items whose key passes `p` commutes with `d[k] = v`. -/
theorem filter_setItem (p : κ → Bool) (k : κ) (v : β) (d : List (κ × β)) :
    (setItem k v d).filter (p ·.1) =
      if p k then setItem k v (d.filter (p ·.1)) else d.filter (p ·.1) := by
  induction d with
  | nil => cases h : p k <;> simp [setItem, upsert, h]
  | cons e d ih =>
    simp only [setItem] at ih ⊢
    by_cases he : e.1 = k
    · subst he
      cases h : p e.1 <;> simp [upsert, List.filter_cons, h]
    · cases h : p e.1 <;> cases h' : p k <;> simp_all [upsert, List.filter_cons]

/-- Keeping the items whose key passes `p` commutes with a loop of assignments. -/
theorem filter_foldl_setItem (p : κ → Bool) (xs d : List (κ × β)) :
    (xs.foldl (fun d kv => setItem kv.1 kv.2 d) d).filter (p ·.1) =
      (xs.filter (p ·.1)).foldl (fun d kv => setItem kv.1 kv.2 d) (d.filter (p ·.1)) := by
  induction xs generalizing d with
  | nil => rfl
  | cons x xs ih =>
    rw [List.foldl_cons, ih, filter_setItem, List.filter_cons]
    split_ifs <;> rfl

/-! ## Filling a `dict` from a stream -/

/-- The `dict` that a stream of records fills, described without the loop:
one entry per distinct key, folding that key's records with `g` from
`init`. -/
def groupFold (key : α → κ) (init : β) (g : β → α → β) (xs : List α) : List (κ × β) :=
  (firstOccurrences (xs.map key)).map fun k => (k, (xs.filter (key · = k)).foldl g init)

theorem keys_groupFold (key : α → κ) (init : β) (g : β → α → β) (xs : List α) :
    (groupFold key init g xs).map (·.1) = firstOccurrences (xs.map key) := by
  rw [groupFold, List.map_map]
  exact List.map_id _

/-- One more record upserts its key's entry. -/
theorem groupFold_append (key : α → κ) (init : β) (g : β → α → β) (xs : List α) (x : α) :
    groupFold key init g (xs ++ [x]) = upsert (key x) init (g · x) (groupFold key init g xs) := by
  rw [groupFold, groupFold, upsert_map (nodup_firstOccurrences _), List.map_append,
    List.map_singleton, firstOccurrences_append]
  simp only [mem_firstOccurrences]
  split_ifs with h
  · refine List.map_congr_left fun k _ => ?_
    by_cases hk : k = key x
    · simp [List.filter_append, hk]
    · simp [List.filter_append, hk, Ne.symm hk]
  · have hnil : xs.filter (key · = key x) = [] :=
      List.filter_eq_nil_iff.2 fun x' hx' hk => h (List.mem_map.2 ⟨x', hx', of_decide_eq_true hk⟩)
    rw [List.map_append]
    congr 1
    · refine List.map_congr_left fun k hk => ?_
      have hne : k ≠ key x := fun hk' => h (hk' ▸ mem_firstOccurrences.1 hk)
      simp [List.filter_append, hne, Ne.symm hne]
    · simp [List.filter_append, hnil]

/-- The loop `for x in xs: d[key(x)] = g(d.get(key(x), init), x)` fills
`groupFold`. -/
theorem foldl_upsert (key : α → κ) (init : β) (g : β → α → β) (xs : List α) :
    xs.foldl (fun d x => upsert (key x) init (g · x) d) [] = groupFold key init g xs := by
  induction xs using List.reverseRecOn with
  | nil => rfl
  | append_singleton xs x ih => rw [List.foldl_append, ih, groupFold_append]; rfl

/-- A `Counter` of weights adds up to the total weight. -/
theorem groupFold_sum (key : α → κ) (w : α → Nat) (xs : List α) :
    ((groupFold key 0 (fun n x => n + w x) xs).map (·.2)).sum = (xs.map w).sum := by
  induction xs using List.reverseRecOn with
  | nil => rfl
  | append_singleton xs x ih => simp [groupFold_append, upsert_add_sum, ih, List.sum_append]

end UPIMulator.Python
