/-
Databases in which every constraint holds, and bodies run at one moment on
them.

`Db.Consistent` is what the constraints of the schema promise of a
committed database: no row violates one. The two ways a row version gets
in keep it: a new row that violates nothing, and a version that occupies
the same unique entries and references the same rows as the one it
replaces.

`Tx.Yields` says what a body run at one moment ends in; its rules
evaluate a body, where those of `TxEnds` only bound what it can do, and
need every statement to succeed. Consistency is what lets them: a statement
fails where its new version violates something, and on a consistent database
an update of columns no constraint is about violates nothing
(`Db.Consistent.violation_of_update`).
-/
import FastRep.Txn.Proofs.Serial
import FastRep.Txn.Proofs.Writes

namespace FastRep.Txn

variable {Row Key Index ε : Type} [DecidableEq Key] [DecidableEq Index]
  [Schema Row Key Index] {d : Db Row} {r x : Row}

-- ========================================================= consistency

/-- Every row satisfies the constraints of its table. -/
def Db.Consistent (d : Db Row) : Prop :=
  ∀ r ∈ d.rows, d.violation r = none

/-- The three things a row can violate: a unique index, its own check, and a
reference. -/
theorem Db.violation_eq_none_iff :
    d.violation r = none ↔
      (∀ x ∈ d.rows, key x ≠ key r → ∀ i ∈ Schema.indexes r, i ∉ Schema.indexes x) ∧
      Schema.check r = true ∧
      ∀ ref ∈ Schema.references r, (d.find? ref.1).isSome = true := by
  constructor
  · intro h
    obtain ⟨hclash, hcheck, href⟩ := Db.violation_eq_none h
    exact ⟨fun x hx hk i hi => Db.notMem_indexes_of_clashes hclash hx hk hi, hcheck, href⟩
  · rintro ⟨hindex, hcheck, href⟩
    have hclash : d.clashes r = [] := by
      refine List.filter_eq_nil_iff.mpr fun x hx => ?_
      simp only [Bool.and_eq_true, decide_eq_true_eq, List.any_eq_true, not_and, not_exists]
      exact fun hk i hi hir => hindex x hx hk i hir hi
    unfold Db.violation
    rw [if_neg (by simp [hclash]), if_neg (by simp [hcheck]), if_neg]
    simp only [List.any_eq_true, not_exists, not_and]
    intro ref hr hnone
    rw [Option.isNone_iff_eq_none] at hnone
    simpa [hnone] using href ref hr

omit [DecidableEq Index] in
/-- A stored row keeps its place in the lookups when a row is put. -/
theorem Db.isSome_find?_put {k : Key} (h : (d.find? k).isSome = true) :
    ((d.put r).find? k).isSome = true := by
  rw [Db.find?_put]
  split
  · rfl
  · exact h

/-- A new row that violates nothing keeps the database consistent. -/
theorem Db.Consistent.insert (hd : d.Consistent) (hviol : d.violation r = none)
    (hnew : d.find? (key r) = none) : (d.put r).Consistent := by
  obtain ⟨hindex, hcheck, href⟩ := Db.violation_eq_none_iff.mp hviol
  intro y hy
  rw [Db.violation_eq_none_iff]
  rcases Db.mem_put.mp hy with rfl | ⟨hyd, hyk⟩
  · refine ⟨fun x hx hk => ?_, hcheck, fun ref hr => Db.isSome_find?_put (href ref hr)⟩
    rcases Db.mem_put.mp hx with rfl | ⟨hxd, -⟩
    · exact absurd rfl hk
    · exact hindex x hxd hk
  · obtain ⟨hyindex, hycheck, hyref⟩ := Db.violation_eq_none_iff.mp (hd y hyd)
    refine ⟨fun x hx hk i hi hix => ?_, hycheck, fun ref hr => Db.isSome_find?_put (hyref ref hr)⟩
    rcases Db.mem_put.mp hx with rfl | ⟨hxd, -⟩
    · exact hindex y hyd hyk i hix hi
    · exact hyindex x hxd hk i hi hix

/-- A version that keeps the unique entries and the references of the row
it replaces violates nothing. -/
theorem Db.Consistent.violation_of_update (hd : d.Consistent) (hx : x ∈ d.rows)
    (hk : key r = key x) (hindex : Schema.indexes r = Schema.indexes x)
    (href : Schema.references r = Schema.references x) (hcheck : Schema.check r = true) :
    d.violation r = none := by
  obtain ⟨hxindex, -, hxref⟩ := Db.violation_eq_none_iff.mp (hd x hx)
  rw [Db.violation_eq_none_iff, hk, hindex, href]
  exact ⟨hxindex, hcheck, hxref⟩

/-- An update that changes no indexed column and no reference keeps the
database consistent. -/
theorem Db.Consistent.update (hd : d.Consistent) (hx : x ∈ d.rows) (hk : key r = key x)
    (hindex : Schema.indexes r = Schema.indexes x)
    (href : Schema.references r = Schema.references x) (hcheck : Schema.check r = true) :
    (d.put r).Consistent := by
  have hviol := hd.violation_of_update hx hk hindex href hcheck
  obtain ⟨hrindex, -, hrref⟩ := Db.violation_eq_none_iff.mp hviol
  intro y hy
  rw [Db.violation_eq_none_iff]
  rcases Db.mem_put.mp hy with rfl | ⟨hyd, hyk⟩
  · refine ⟨fun z hz hzk => ?_, hcheck, fun ref hr => Db.isSome_find?_put (hrref ref hr)⟩
    rcases Db.mem_put.mp hz with rfl | ⟨hzd, -⟩
    · exact absurd rfl hzk
    · exact hrindex z hzd hzk
  · obtain ⟨hyindex, hycheck, hyref⟩ := Db.violation_eq_none_iff.mp (hd y hyd)
    refine ⟨fun z hz hzk i hi hiz => ?_, hycheck, fun ref hr => Db.isSome_find?_put (hyref ref hr)⟩
    rcases Db.mem_put.mp hz with rfl | ⟨hzd, -⟩
    · exact hrindex y hyd hyk i hiz hi
    · exact hyindex z hzd hzk i hi hiz

/-- Without a row that no other references. -/
theorem Db.Consistent.erase {k : Key} (hd : d.Consistent)
    (hfree : ∀ x ∈ d.rows, ∀ ref ∈ Schema.references x, ref.1 ≠ k) : (d.erase k).Consistent := by
  intro y hy
  obtain ⟨hyd, -⟩ := Db.mem_erase.mp hy
  obtain ⟨hindex, hcheck, href⟩ := Db.violation_eq_none_iff.mp (hd y hyd)
  refine Db.violation_eq_none_iff.mpr ⟨fun x hx => hindex x (Db.mem_erase.mp hx).1, hcheck,
    fun ref hr => ?_⟩
  rw [Db.find?_erase_ne (hfree y hyd ref hr).symm]
  exact href ref hr

-- ======================================================= bodies that end

section Yields

variable {β γ : Type} {n : Nat} {b : β} {ws ws' : List (Write Row Key)}

omit [DecidableEq Index] in
/-- A reading of the clock reads the time of the run. -/
theorem Tx.run_clock {g : Nat → Tx Row ε β} : (Tx.clock >>= g).run n d = (g n).run n d := rfl

omit [DecidableEq Index] in
/-- A query reads the database of the run. -/
theorem Tx.run_select {f : Db Row → γ} {g : γ → Tx Row ε β} :
    (select f >>= g).run n d = (g (f d)).run n d := rfl

/-- A body run at one moment succeeds with a value and its writes. -/
structure Tx.Yields (body : Tx Row ε β) (n : Nat) (d : Db Row) (b : β)
    (ws : List (Write Row Key)) : Prop where
  result : (body.run n d).result = .ok b
  writes : (body.run n d).writes = ws

omit [DecidableEq Index]

theorem Tx.Yields.pure : (Pure.pure b : Tx Row ε β).Yields n d b [] := ⟨rfl, rfl⟩

theorem Tx.Yields.clock {g : Nat → Tx Row ε β} (h : (g n).Yields n d b ws) :
    (Tx.clock >>= g).Yields n d b ws := ⟨h.result, h.writes⟩

/-- A query yields nothing of its own. -/
theorem Tx.Yields.select {f : Db Row → γ} {g : γ → Tx Row ε β}
    (h : (g (f d)).Yields n d b ws) : (select f >>= g).Yields n d b ws :=
  ⟨h.result, h.writes⟩

/-- A statement yields its writes before those of the rest. -/
theorem Tx.Yields.stmt {s : Db Row → Reply Row ε γ} {g : γ → Tx Row ε β} {c : γ}
    (hs : (s d).answer = .ok (c, ws)) (h : (g c).Yields n (applyAll ws d) b ws') :
    (Tx.stmt s g).Yields n d b (ws ++ ws') := by
  constructor
  · simp only [Tx.run, hs, h.result]
  · simp only [Tx.run, hs, h.writes]

/-- Two bodies yield their writes one after the other. -/
theorem Tx.Yields.bind {body : Tx Row ε γ} {g : γ → Tx Row ε β} {c : γ}
    (h : body.Yields n d c ws) (hg : (g c).Yields n (applyAll ws d) b ws') :
    (body >>= g).Yields n d b (ws ++ ws') := by
  induction body generalizing d ws with
  | pure a =>
      obtain ⟨hres, hws⟩ := h
      cases hres
      subst hws
      exact hg
  | throw e => cases h.result
  | now k ih =>
      have hk := ih n ⟨h.result, h.writes⟩ hg
      exact ⟨hk.result, hk.writes⟩
  | later _ k ih =>
      have hk := ih _ ⟨h.result, h.writes⟩ hg
      exact ⟨hk.result, hk.writes⟩
  | stmt s k ih =>
      obtain ⟨hres, hws⟩ := h
      simp only [Tx.run] at hres hws
      split at hres
      next => cases hres
      next a added hans =>
          simp only [hans] at hws
          subst hws
          rw [applyAll_append] at hg
          rw [List.append_assoc]
          exact Tx.Yields.stmt hans (ih a ⟨hres, rfl⟩ hg)

variable [DecidableEq Index] [DbErrors ε]

omit [DecidableEq Index] in
/-- A query that finds something goes on with it. -/
theorem Tx.Yields.selectOrThrow {f : Db Row → Option γ} {c : γ} {g : γ → Tx Row ε β}
    (hf : f d = some c) (h : (g c).Yields n d b ws) :
    (selectOrThrow f >>= g).Yields n d b ws := by
  have hread : (FastRep.Txn.selectOrThrow f : Tx Row ε γ).Yields n d c [] := by
    constructor <;> simp only [FastRep.Txn.selectOrThrow, Tx.run, hf, List.append_nil]
  exact hread.bind h

/-- An insert of a new row that violates nothing. -/
theorem Tx.Yields.insertRow {g : Unit → Tx Row ε β} (hnew : d.find? (key r) = none)
    (hviol : d.violation r = none) (h : (g ()).Yields n (d.put r) b ws) :
    (insertRow r >>= g).Yields n d b (.insert r :: ws) := by
  have hafter : (g ()).Yields n (applyAll [.insert r] d) b ws := h
  refine Tx.Yields.stmt ?_ hafter
  simp [hnew, hviol]

/-- An update that finds its row and violates nothing. -/
theorem Tx.Yields.updateRow {k : Key} {p : Row → Bool} {f : Row → Row} {g : Nat → Tx Row ε β}
    (hfind : d.find? k = some x) (hp : p x = true) (hviol : d.violation (f x) = none)
    (h : (g 1).Yields n (d.put (f x)) b ws) :
    (updateRow k p f >>= g).Yields n d b (.update (f x) :: ws) := by
  have hafter : (g 1).Yields n (applyAll [.update (f x)] d) b ws := h
  refine Tx.Yields.stmt ?_ hafter
  simp [hfind, Option.filter_some, hp, hviol]

/-- An upsert of a row that is there, or of a new one. -/
theorem Tx.Yields.upsertRow_update {p : Row → Bool} {f : Row → Row} {g : Row → Tx Row ε β}
    (hfind : d.rows.find? p = some x) (h : (g (f x)).Yields n (d.put (f x)) b ws) :
    (upsertRow p r f >>= g).Yields n d b (.update (f x) :: ws) := by
  have hafter : (g (f x)).Yields n (applyAll [.update (f x)] d) b ws := h
  refine Tx.Yields.stmt ?_ hafter
  simp only [hfind]

/-- An upsert that finds no row inserts one. -/
theorem Tx.Yields.upsertRow_insert {p : Row → Bool} {f : Row → Row} {g : Row → Tx Row ε β}
    (hfind : d.rows.find? p = none) (hnew : d.find? (key r) = none)
    (hviol : d.violation r = none) (h : (g r).Yields n (d.put r) b ws) :
    (upsertRow p r f >>= g).Yields n d b (.insert r :: ws) := by
  have hafter : (g r).Yields n (applyAll [.insert r] d) b ws := h
  refine Tx.Yields.stmt ?_ hafter
  simp only [hfind, hnew, hviol, Option.isSome_none, Bool.false_eq_true, if_false]

/-- A bulk update whose new versions violate nothing. -/
theorem Tx.Yields.updateMany {p : Row → Bool} {f : Row → Row} {g : Nat → Tx Row ε β}
    (hviol : ∀ r ∈ d.rows, p r = true → d.violation (f r) = none)
    (h : ∀ c, (g c).Yields n (applyAll ((d.rows.filter p).map fun r => .update (f r)) d) b ws) :
    (updateMany p f >>= g).Yields n d b
      (((d.rows.filter p).map fun r => .update (f r)) ++ ws) := by
  have hfound : ((d.rows.filter p).map key).filterMap d.find? = d.rows.filter p := by
    rw [List.filterMap_map]
    refine (List.filterMap_congr fun r hr => ?_).trans List.filterMap_some
    exact Db.find?_of_mem (List.mem_filter.mp hr).1
  refine Tx.Yields.select (Tx.Yields.stmt (c := (d.rows.filter p).length) ?_ (h _))
  have hnone : (d.rows.filter p).filterMap (fun r => d.violation (f r)) = [] :=
    List.filterMap_eq_nil_iff.mpr fun r hr => hviol r (List.mem_filter.mp hr).1
      (List.mem_filter.mp hr).2
  simp only [hfound, List.filter_filter, Bool.and_self, hnone, List.head?_nil]

omit [DecidableEq Index] [DbErrors ε] in
/-- A deletion that finds its row. -/
theorem Tx.Yields.deleteRow {k : Key} {p : Row → Bool} {g : Nat → Tx Row ε β}
    (hfind : d.find? k = some x) (hp : p x = true)
    (h : (g 1).Yields n (applyAll (d.deletion [k]) d) b ws) :
    (deleteRow k p >>= g).Yields n d b (d.deletion [k] ++ ws) := by
  refine Tx.Yields.stmt ?_ h
  simp [hfind, Option.filter_some, hp]

end Yields

end FastRep.Txn
