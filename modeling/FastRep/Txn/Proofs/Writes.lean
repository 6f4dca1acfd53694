/-
How lists of writes act on lookups, what a deletion removes, and what a
version that violates nothing satisfies.

A statement's effect is a list of row writes, so a lemma about a statement is
a lemma about such a list: what a later lookup finds
(`find?_applyAll_of_mem`).

A deletion takes a chain of cascades with it. `Db.doomed_subset` bounds what
goes by any set of keys that is closed under the cascading references;
`Db.mem_gone_of_reference` says the other half, that what references a
removed row goes too.
-/
import FastRep.Txn.Program

namespace FastRep.Txn

variable {Row Key Index : Type} [DecidableEq Key] [Schema Row Key Index]

-- ============================================================= lookups

/-- A lookup after a list of writes depends on the lookup before alone. -/
theorem find?_applyAll_congr {d d' : Db Row} {k : Key}
    (h : d.find? k = d'.find? k) (ws : List (Write Row Key)) :
    (applyAll ws d).find? k = (applyAll ws d').find? k := by
  induction ws generalizing d d' with
  | nil => exact h
  | cons w ws ih =>
      refine ih ?_
      by_cases hk : w.target = k
      · subst hk
        cases w with
        | insert r => exact (Db.find?_put_self d r).trans (Db.find?_put_self d' r).symm
        | update r => exact (Db.find?_put_self d r).trans (Db.find?_put_self d' r).symm
        | erase k =>
            exact (Db.find?_erase_self d k).trans (Db.find?_erase_self d' k).symm
      · rw [Write.find?_apply_ne hk, Write.find?_apply_ne hk, h]

/-- Writes of pairwise different rows: a lookup of a row one of them
targets finds the version it left behind. -/
theorem find?_applyAll_of_mem {ws : List (Write Row Key)} {w : Write Row Key}
    (hnd : (ws.map Write.target).Nodup) (hw : w ∈ ws) {d : Db Row} :
    (applyAll ws d).find? w.target = w.row? := by
  induction ws generalizing d with
  | nil => cases hw
  | cons x ws ih =>
      rw [List.map_cons, List.nodup_cons] at hnd
      rw [applyAll_cons]
      rcases List.mem_cons.mp hw with rfl | hw
      · have hne : ∀ y ∈ ws, y.target ≠ w.target := by
          intro y hy he
          exact hnd.1 (he ▸ List.mem_map_of_mem hy)
        rw [find?_applyAll_ne hne]
        cases w with
        | insert r => exact Db.find?_put_self d r
        | update r => exact Db.find?_put_self d r
        | erase k => exact Db.find?_erase_self d k
      · exact ih hnd.2 hw

/-- A row that is removed and not written is gone. -/
theorem find?_applyAll_eq_none {ws : List (Write Row Key)} {k : Key} {d : Db Row}
    (h : ∀ w ∈ ws, ∀ r, w.row? = some r → key r ≠ k)
    (hk : .erase k ∈ ws ∨ d.find? k = none) : (applyAll ws d).find? k = none := by
  induction ws generalizing d with
  | nil =>
      rcases hk with hk | hk
      · cases hk
      · exact hk
  | cons w ws ih =>
      refine ih (fun x hx => h x (List.mem_cons_of_mem _ hx)) ?_
      have hput : ∀ r, w.row? = some r → key r ≠ k := h w List.mem_cons_self
      by_cases hw : w = .erase k
      · rw [hw]
        exact Or.inr (Db.find?_erase_self d k)
      · have htarget : w.target ≠ k := by
          cases w with
          | insert r => exact hput r rfl
          | update r => exact hput r rfl
          | erase k' => exact fun he => hw (congrArg Write.erase he)
        rcases hk with hk | hk
        · exact Or.inl ((List.mem_cons.mp hk).resolve_left fun he => hw he.symm)
        · exact Or.inr ((Write.find?_apply_ne htarget d).trans hk)

-- =========================================================== deletions

theorem Db.mem_doomed_of_mem {d : Db Row} {n : Nat} {ks : List Key} {k : Key}
    (h : k ∈ ks) : k ∈ d.doomed n ks := by
  induction n generalizing ks with
  | zero => exact h
  | succ n ih => exact ih (List.mem_append_left _ h)

/-- What a deletion removes stays inside every set of keys that contains
the listed rows and, with a row, what references it with a cascade. -/
theorem Db.doomed_subset {d : Db Row} {p : Key → Prop}
    (hclosed : ∀ r ∈ d.rows, ∀ ref ∈ Schema.references r, ref.2 = .cascade →
      p ref.1 → p (key r)) {n : Nat} {ks : List Key} (hks : ∀ k ∈ ks, p k) :
    ∀ k ∈ d.doomed n ks, p k := by
  induction n generalizing ks with
  | zero => exact hks
  | succ n ih =>
      refine ih fun k hk => ?_
      rcases List.mem_append.mp hk with hk | hk
      · exact hks k hk
      · obtain ⟨r, hr, rfl⟩ := List.mem_map.mp hk
        obtain ⟨hmem, hcond⟩ := List.mem_filter.mp hr
        simp only [Bool.and_eq_true, List.any_eq_true, decide_eq_true_eq] at hcond
        obtain ⟨-, ref, href, hcasc, hin⟩ := hcond
        exact hclosed r hmem ref href hcasc (hks _ hin)

theorem Db.mem_gone_self {d : Db Row} {ks : List Key} {k : Key} (h : k ∈ ks) :
    k ∈ d.gone ks :=
  Db.mem_doomed_of_mem h

/-- What references a listed row with a cascade is removed. -/
theorem Db.mem_gone_of_reference {d : Db Row} {ks : List Key} {r : Row}
    (hr : r ∈ d.rows) {k : Key} (hk : k ∈ ks)
    (href : (k, OnDelete.cascade) ∈ Schema.references r) : key r ∈ d.gone ks := by
  unfold Db.gone
  cases hlen : d.rows.length with
  | zero =>
      rw [List.length_eq_zero_iff.mp hlen] at hr
      cases hr
  | succ n =>
      show key r ∈ d.doomed n (ks ++ d.dependents ks)
      refine Db.mem_doomed_of_mem ?_
      by_cases hin : key r ∈ ks
      · exact List.mem_append_left _ hin
      · refine List.mem_append_right _ (List.mem_map.mpr ⟨r, ?_, rfl⟩)
        refine List.mem_filter.mpr ⟨hr, ?_⟩
        simp only [Bool.and_eq_true, List.any_eq_true, decide_eq_true_eq]
        exact ⟨hin, _, href, rfl, hk⟩

/-- The writes of a deletion: what goes by the cascades is erased, and what
refers to it otherwise is unlinked. -/
theorem Db.mem_deletion {d : Db Row} {ks : List Key} {w : Write Row Key} :
    w ∈ d.deletion ks ↔
      (∃ r ∈ d.rows, key r ∈ d.gone ks ∧ w = .erase (key r)) ∨
      ∃ r ∈ d.rows, key r ∉ d.gone ks ∧ (∃ ref ∈ Schema.references r,
        ref.2 = .setNull ∧ ref.1 ∈ d.gone ks) ∧
        w = .update (unlinkAll (d.gone ks) r) := by
  simp only [Db.deletion, List.mem_filterMap]
  constructor
  · rintro ⟨r, hr, hw⟩
    split at hw
    next hgone =>
        cases hw
        exact Or.inl ⟨r, hr, hgone, rfl⟩
    next hgone =>
        split at hw
        next href =>
            cases hw
            simp only [List.any_eq_true, Bool.and_eq_true, decide_eq_true_eq] at href
            exact Or.inr ⟨r, hr, hgone, href, rfl⟩
        next => cases hw
  · rintro (⟨r, hr, hgone, rfl⟩ | ⟨r, hr, hgone, href, rfl⟩)
    · exact ⟨r, hr, if_pos hgone⟩
    · refine ⟨r, hr, ?_⟩
      rw [if_neg hgone, if_pos]
      simp only [List.any_eq_true, Bool.and_eq_true, decide_eq_true_eq]
      exact href

/-- Rows that nothing references are deleted alone. -/
theorem Db.deletion_of_unreferenced {d : Db Row} {ks : List Key}
    (h : ∀ r ∈ d.rows, ∀ ref ∈ Schema.references r, ref.1 ∉ ks) :
    d.deletion ks = ((d.rows.map key).filter (· ∈ ks)).map .erase := by
  have hgone : ∀ k ∈ d.gone ks, k ∈ ks :=
    Db.doomed_subset (fun r hr ref href _ hk => absurd hk (h r hr ref href)) fun _ hk => hk
  rw [Db.deletion, List.filter_map, List.map_map, ← List.filterMap_eq_filter,
    ← List.filterMap_eq_map, List.filterMap_filterMap]
  refine List.filterMap_congr fun r hr => ?_
  by_cases hk : key r ∈ ks
  · rw [if_pos (Db.mem_gone_self hk)]
    simp [Option.guard, hk]
  · rw [if_neg fun hg => hk (hgone _ hg), if_neg]
    · simp [Option.guard, hk]
    · simp only [List.any_eq_true, Bool.and_eq_true, decide_eq_true_eq, not_exists, not_and]
      exact fun ref href _ hg => h r hr ref href (hgone _ hg)

/-- A deletion writes each row at most once. -/
theorem Db.deletion_nodup {d : Db Row} {ks : List Key}
    (hkey : ∀ (k : Key) (r : Row), key (Schema.unlink k r) = key r) :
    ((d.deletion ks).map Write.target).Nodup := by
  have hall : ∀ (l : List Key) (r : Row), key (unlinkAll l r) = key r := by
    intro l
    induction l with
    | nil => exact fun r => rfl
    | cons k l ih => exact fun r => (ih _).trans (hkey k r)
  refine d.nodup.sublist ?_
  rw [Db.deletion, List.map_filterMap]
  suffices h : ∀ l : List Row, (l.filterMap fun r =>
      (if key r ∈ d.gone ks then some (Write.erase (key r))
        else if (Schema.references r).any (fun ref =>
          ref.2 = .setNull && ref.1 ∈ d.gone ks) then
          some (.update (unlinkAll (d.gone ks) r))
        else none).map Write.target).Sublist (l.map key) from h d.rows
  intro l
  induction l with
  | nil => exact List.Sublist.refl _
  | cons r l ih =>
      rw [List.filterMap_cons, List.map_cons]
      split
      next => exact ih.cons _
      next k hk =>
          have hkr : k = key r := by
            split at hk
            · cases hk
              rfl
            · split at hk
              · cases hk
                exact hall _ _
              · cases hk
          rw [hkr]
          exact ih.cons_cons _

-- ============================================ statements on listed rows

/-- The rows a statement on listed keys hits. -/
structure Db.Hits (p : Row → Bool) (ks : List Key) (v : Db Row) (hits : List Row) : Prop where
  found : ∀ r ∈ hits, v.find? (key r) = some r ∧ p r = true
  all : ∀ k ∈ ks, ∀ r, v.find? k = some r → p r = true → r ∈ hits
  nodup : ks.Nodup → (hits.map key).Nodup

/-- The rows that still satisfy the condition are hits. -/
theorem Db.hits_filter (p : Row → Bool) (ks : List Key) (v : Db Row) :
    v.Hits p ks ((ks.filterMap v.find?).filter p) where
  found := fun r hr => by
    obtain ⟨hr, hp⟩ := List.mem_filter.mp hr
    obtain ⟨k, -, hk⟩ := List.mem_filterMap.mp hr
    exact ⟨(Db.key_of_find? hk).symm ▸ hk, hp⟩
  all := fun k hk r hr hp => List.mem_filter.mpr ⟨List.mem_filterMap.mpr ⟨k, hk, hr⟩, hp⟩
  nodup := fun hnd => by
    refine List.Nodup.sublist (List.Sublist.map key List.filter_sublist) ?_
    refine List.Nodup.sublist ?_ hnd
    clear hnd
    induction ks with
    | nil => exact List.Sublist.refl _
    | cons k ks ih =>
        cases hk : v.find? k with
        | none =>
            rw [List.filterMap_cons_none hk]
            exact ih.cons _
        | some r =>
            rw [List.filterMap_cons_some hk, List.map_cons, Db.key_of_find? hk]
            exact ih.cons_cons _

omit [DecidableEq Key] in
/-- The keys a condition selects are distinct. -/
theorem Db.nodup_selected (p : Row → Bool) (d : Db Row) : ((d.rows.filter p).map key).Nodup :=
  d.nodup.sublist (List.Sublist.map key List.filter_sublist)

-- ========================================================== violations

section Violations

variable [DecidableEq Index]

/-- A version that violates nothing clashes with no row, passes its check
and references stored rows. -/
theorem Db.violation_eq_none {r : Row} {v : Db Row} (h : v.violation r = none) :
    v.clashes r = [] ∧ Schema.check r = true ∧
      ∀ ref ∈ Schema.references r, (v.find? ref.1).isSome = true := by
  unfold Db.violation at h
  split at h
  next => cases h
  next hclash =>
      split at h
      next => cases h
      next hcheck =>
          split at h
          next => cases h
          next href =>
              refine ⟨not_not.mp hclash, by simpa using hcheck, fun ref hr => ?_⟩
              rw [List.any_eq_true] at href
              by_contra hnone
              exact href ⟨ref, hr, by simpa using hnone⟩

/-- No other row occupies a unique entry of a version that clashes with
none. -/
theorem Db.notMem_indexes_of_clashes {r x : Row} {v : Db Row}
    (h : v.clashes r = []) (hx : x ∈ v.rows) (hk : key x ≠ key r) {i : Index}
    (hi : i ∈ Schema.indexes r) : i ∉ Schema.indexes x := by
  intro hxi
  have hmem : x ∈ v.clashes r := by
    refine List.mem_filter.mpr ⟨hx, ?_⟩
    simp only [Bool.and_eq_true, decide_eq_true_eq, List.any_eq_true]
    exact ⟨hk, i, hxi, hi⟩
  rw [h] at hmem
  cases hmem

end Violations

end FastRep.Txn
