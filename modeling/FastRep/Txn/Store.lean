/-
The relational store the transaction machine runs over: a finite set of
rows addressed by their primary keys, with the unique indexes, foreign
keys and row checks a schema declares.

# The representation

A row type is a sum over the tables of one schema, so a key names a row
of any table and one store holds them all. The rows are a list in
insertion order whose keys are pairwise distinct (`Db.nodup`); a lookup
is by key (`Db.find?`). A schema says, row by row, which unique index
entries the row occupies. A partial unique index is a row that occupies
its entry only while the predicate of the index holds.

# Writes and locks

A statement changes the store through a list of row writes. The locks a
write takes are read off the write alone: the row it changes, the unique
entries its new version occupies, and a key share on every row that
version references. Two locks conflict as PostgreSQL's row locks do:
an update waits for an update or a delete of the same row, a delete waits
for any lock on it, a key share waits for a delete only, and two writers
of one unique entry wait for each other.
-/
import Mathlib.Data.List.Basic
import Mathlib.Data.List.Nodup
import Mathlib.Data.List.Lookmap

namespace FastRep.Txn

-- ============================================================ schemas

/-- What a foreign key does to the referencing row when the referenced
row is deleted. -/
inductive OnDelete where
  | cascade
  | setNull
  deriving DecidableEq, Repr

/-- A schema over a row type: primary keys, unique index entries, foreign
keys and the row check, as the migrations declare them. -/
class Schema (Row : Type) (Key Index : outParam Type) where
  /-- Primary key of a row. -/
  key : Row → Key
  /-- Unique index entries the row occupies. -/
  indexes : Row → List Index
  /-- Rows this row references. -/
  references : Row → List (Key × OnDelete)
  /-- The row with every nullable reference to the key cleared. -/
  unlink : Key → Row → Row
  /-- The `CHECK` constraints of the row's table. -/
  check : Row → Bool

export Schema (key)

variable {Row Key Index : Type} [DecidableEq Key] [Schema Row Key Index]

/-- A database: rows with pairwise distinct keys. -/
structure Db (Row : Type) {Key Index : Type} [Schema Row Key Index] where
  rows : List Row
  nodup : (rows.map (key : Row → Key)).Nodup

/-- The empty database. -/
def Db.empty : Db Row where
  rows := []
  nodup := List.nodup_nil

-- ============================================================= lookups

/-- The row stored under a key. -/
def Db.find? (d : Db Row) (k : Key) : Option Row :=
  d.rows.find? fun r => key r = k

/-- A lookup finds a row of the database that carries the key. -/
theorem Db.find?_eq_some_iff {d : Db Row} {k : Key} {r : Row} :
    d.find? k = some r ↔ r ∈ d.rows ∧ key r = k := by
  constructor
  · intro h
    exact ⟨List.mem_of_find?_eq_some h, by simpa using List.find?_some h⟩
  · rintro ⟨hr, rfl⟩
    have hsome : (d.rows.find? fun x => key x = key r).isSome := by
      rw [List.find?_isSome]
      exact ⟨r, hr, by simp⟩
    obtain ⟨x, hx⟩ := Option.isSome_iff_exists.mp hsome
    have hmem := List.mem_of_find?_eq_some hx
    have hkey : key x = key r := by simpa using List.find?_some hx
    have hxr : x = r := List.inj_on_of_nodup_map d.nodup hmem hr hkey
    rw [Db.find?, hx, hxr]

/-- What is found under a key has that key. -/
theorem Db.key_of_find? {d : Db Row} {k : Key} {r : Row}
    (h : d.find? k = some r) : key r = k :=
  (Db.find?_eq_some_iff.mp h).2

theorem Db.mem_of_find? {d : Db Row} {k : Key} {r : Row}
    (h : d.find? k = some r) : r ∈ d.rows :=
  (Db.find?_eq_some_iff.mp h).1

/-- A row is found under its key, since keys are unique. -/
theorem Db.find?_of_mem {d : Db Row} {r : Row} (h : r ∈ d.rows) :
    d.find? (key r) = some r :=
  Db.find?_eq_some_iff.mpr ⟨h, rfl⟩

/-- Nothing is found under a key that no row has. -/
theorem Db.find?_eq_none_iff {d : Db Row} {k : Key} :
    d.find? k = none ↔ ∀ r ∈ d.rows, key r ≠ k := by
  simp [Db.find?, List.find?_eq_none]

-- ====================================================== put and erase

/-- Store a row under its key: in place of the row that carries the key,
at the end where none does. -/
def Db.put (r : Row) (d : Db Row) : Db Row where
  rows :=
    if d.rows.any (fun x => key x = key r) then
      d.rows.map fun x => if key x = key r then r else x
    else
      d.rows ++ [r]
  nodup := by
    split
    case isTrue h =>
      have hkeys : (d.rows.map fun x => if key x = key r then r else x).map key
          = d.rows.map (key : Row → Key) := by
        rw [List.map_map]
        refine List.map_congr_left fun x _ => ?_
        by_cases hx : key x = key r <;> simp [hx]
      rw [hkeys]
      exact d.nodup
    case isFalse h =>
      rw [List.map_append, List.map_singleton]
      refine List.Nodup.append d.nodup (List.nodup_singleton _) ?_
      intro k hk hk'
      obtain ⟨x, hx, rfl⟩ := List.mem_map.mp hk
      refine h (List.any_eq_true.mpr ⟨x, hx, ?_⟩)
      simpa using hk'

/-- Remove the row stored under a key. -/
def Db.erase (k : Key) (d : Db Row) : Db Row where
  rows := d.rows.filter fun x => key x ≠ k
  nodup := d.nodup.sublist (List.filter_sublist.map key)

/-- The rows after a put: the new one, and those under other keys. -/
theorem Db.mem_put {d : Db Row} {r x : Row} :
    x ∈ (d.put r).rows ↔ x = r ∨ (x ∈ d.rows ∧ key x ≠ key r) := by
  unfold Db.put
  by_cases h : d.rows.any (fun x => key x = key r) = true
  · simp only [h, if_true, List.mem_map]
    constructor
    · rintro ⟨y, hy, rfl⟩
      by_cases hk : key y = key r
      · exact Or.inl (by simp [hk])
      · exact Or.inr (by simpa [hk] using hy)
    · rintro (rfl | ⟨hx, hk⟩)
      · obtain ⟨y, hy, hk⟩ := List.any_eq_true.mp h
        exact ⟨y, hy, by simp [of_decide_eq_true hk]⟩
      · exact ⟨x, hx, by simp [hk]⟩
  · have hne : ∀ y ∈ d.rows, key y ≠ key r := by
      intro y hy hk
      exact h (List.any_eq_true.mpr ⟨y, hy, by simpa using hk⟩)
    simp only [h, Bool.false_eq_true, if_false, List.mem_append,
      List.mem_singleton]
    constructor
    · rintro (hx | hx)
      · exact Or.inr ⟨hx, hne x hx⟩
      · exact Or.inl hx
    · rintro (hx | ⟨hx, -⟩)
      · exact Or.inr hx
      · exact Or.inl hx

/-- The rows after an erase: those under other keys. -/
theorem Db.mem_erase {d : Db Row} {k : Key} {x : Row} :
    x ∈ (d.erase k).rows ↔ x ∈ d.rows ∧ key x ≠ k := by
  simp [Db.erase]

@[simp] theorem Db.find?_put_self (d : Db Row) (r : Row) :
    (d.put r).find? (key r) = some r :=
  Db.find?_eq_some_iff.mpr ⟨Db.mem_put.mpr (Or.inl rfl), rfl⟩

/-- A put changes nothing under other keys. -/
theorem Db.find?_put_ne {d : Db Row} {r : Row} {k : Key} (h : key r ≠ k) :
    (d.put r).find? k = d.find? k := by
  refine Option.ext fun x => ?_
  rw [Db.find?_eq_some_iff, Db.find?_eq_some_iff, Db.mem_put]
  constructor
  · rintro ⟨rfl | ⟨hx, -⟩, hk⟩
    · exact absurd hk h
    · exact ⟨hx, hk⟩
  · rintro ⟨hx, hk⟩
    exact ⟨Or.inr ⟨hx, fun he => h (he ▸ hk)⟩, hk⟩

@[simp] theorem Db.find?_erase_self (d : Db Row) (k : Key) :
    (d.erase k).find? k = none := by
  rw [Db.find?_eq_none_iff]
  intro r hr
  exact (Db.mem_erase.mp hr).2

/-- An erase changes nothing under other keys. -/
theorem Db.find?_erase_ne {d : Db Row} {k k' : Key} (h : k ≠ k') :
    (d.erase k).find? k' = d.find? k' := by
  refine Option.ext fun x => ?_
  rw [Db.find?_eq_some_iff, Db.find?_eq_some_iff, Db.mem_erase]
  constructor
  · rintro ⟨⟨hx, -⟩, hk⟩
    exact ⟨hx, hk⟩
  · rintro ⟨hx, hk⟩
    exact ⟨⟨hx, fun he => h (he ▸ hk)⟩, hk⟩

/-- A lookup after a put, for both cases at once. -/
theorem Db.find?_put (d : Db Row) (r : Row) (k : Key) :
    (d.put r).find? k = if key r = k then some r else d.find? k := by
  split
  next h => rw [← h, Db.find?_put_self]
  next h => exact Db.find?_put_ne h

-- ==================================================== writes and locks

/-- One row change of a statement. -/
inductive Write (Row Key : Type) where
  | insert (r : Row)
  | update (r : Row)
  | erase (k : Key)
  deriving DecidableEq

/-- The row a write changes. -/
def Write.target : Write Row Key → Key
  | .insert r => key r
  | .update r => key r
  | .erase k => k

/-- The version a write leaves behind. -/
def Write.row? : Write Row Key → Option Row
  | .insert r => some r
  | .update r => some r
  | .erase _ => none

def Write.apply (w : Write Row Key) (d : Db Row) : Db Row :=
  match w with
  | .insert r => d.put r
  | .update r => d.put r
  | .erase k => d.erase k

/-- The database after a list of writes, first to last. -/
def applyAll (ws : List (Write Row Key)) (d : Db Row) : Db Row :=
  ws.foldl (fun d w => w.apply d) d

/-- A row or index lock. `update` is `FOR NO KEY UPDATE`, `delete` is
`FOR UPDATE`, `share` is `FOR KEY SHARE`; `index` is the claim a pending
row version has on a unique entry. -/
inductive Lock (Key Index : Type) where
  | update (k : Key)
  | delete (k : Key)
  | share (k : Key)
  | index (i : Index)
  deriving DecidableEq

/-- The conflict table of the row locks. -/
def Lock.conflicts [DecidableEq Index] :
    Lock Key Index → Lock Key Index → Bool
  | .update k, .update k' => k = k'
  | .update k, .delete k' => k = k'
  | .delete k, .update k' => k = k'
  | .delete k, .delete k' => k = k'
  | .delete k, .share k' => k = k'
  | .share k, .delete k' => k = k'
  | .index i, .index i' => i = i'
  | _, _ => false

/-- The locks a write holds until its transaction ends. -/
def Write.locks : Write Row Key → List (Lock Key Index)
  | .insert r => .update (key r) :: ((Schema.indexes r).map .index
      ++ (Schema.references r).map fun ref => .share ref.1)
  | .update r => .update (key r) :: ((Schema.indexes r).map .index
      ++ (Schema.references r).map fun ref => .share ref.1)
  | .erase k => [.delete k]

/-- It does not matter which of two locks was there first. -/
theorem Lock.conflicts_symm [DecidableEq Index] (a b : Lock Key Index) :
    a.conflicts b = b.conflicts a := by
  cases a <;> cases b <;> simp [Lock.conflicts, eq_comm]

-- ======================================================= write algebra

@[simp] theorem applyAll_nil (d : Db Row) : applyAll [] d = d := rfl

@[simp] theorem applyAll_cons (w : Write Row Key) (ws : List (Write Row Key))
    (d : Db Row) : applyAll (w :: ws) d = applyAll ws (w.apply d) := rfl

/-- Two lists of writes are applied one after the other. -/
theorem applyAll_append (ws ws' : List (Write Row Key)) (d : Db Row) :
    applyAll (ws ++ ws') d = applyAll ws' (applyAll ws d) := by
  simp [applyAll, List.foldl_append]

/-- A write changes nothing but its target. -/
theorem Write.find?_apply_ne {w : Write Row Key} {k : Key} (h : w.target ≠ k)
    (d : Db Row) : (w.apply d).find? k = d.find? k := by
  cases w with
  | insert r => exact Db.find?_put_ne h
  | update r => exact Db.find?_put_ne h
  | erase k' => exact Db.find?_erase_ne h

/-- Writes of other rows leave a lookup alone. -/
theorem find?_applyAll_ne {ws : List (Write Row Key)} {k : Key}
    (h : ∀ w ∈ ws, w.target ≠ k) (d : Db Row) :
    (applyAll ws d).find? k = d.find? k := by
  induction ws generalizing d with
  | nil => rfl
  | cons w ws ih =>
      rw [applyAll_cons, ih (fun w' hw' => h w' (List.mem_cons_of_mem _ hw')),
        Write.find?_apply_ne (h w List.mem_cons_self)]

/-- A row after a list of writes is a version some write left behind, or
a row of before that no write is about. -/
theorem mem_applyAll_or_kept {ws : List (Write Row Key)} {d : Db Row} {x : Row}
    (hx : x ∈ (applyAll ws d).rows) :
    (∃ w ∈ ws, w.row? = some x) ∨ x ∈ d.rows ∧ ∀ w ∈ ws, w.target ≠ key x := by
  induction ws generalizing d with
  | nil => exact Or.inr ⟨hx, by simp⟩
  | cons w ws ih =>
      rw [applyAll_cons] at hx
      rcases ih hx with ⟨w', hw', hrow⟩ | ⟨hmem, hws⟩
      · exact Or.inl ⟨w', List.mem_cons_of_mem _ hw', hrow⟩
      · have hkept : x ∈ d.rows ∧ w.target ≠ key x → x ∈ d.rows ∧
            ∀ w' ∈ w :: ws, w'.target ≠ key x := fun h =>
          ⟨h.1, List.forall_mem_cons.mpr ⟨h.2, hws⟩⟩
        cases w with
        | insert r =>
            rcases Db.mem_put.mp hmem with rfl | ⟨hd, hk⟩
            · exact Or.inl ⟨_, List.mem_cons_self, rfl⟩
            · exact Or.inr (hkept ⟨hd, hk.symm⟩)
        | update r =>
            rcases Db.mem_put.mp hmem with rfl | ⟨hd, hk⟩
            · exact Or.inl ⟨_, List.mem_cons_self, rfl⟩
            · exact Or.inr (hkept ⟨hd, hk.symm⟩)
        | erase k =>
            obtain ⟨hd, hk⟩ := Db.mem_erase.mp hmem
            exact Or.inr (hkept ⟨hd, hk.symm⟩)

/-- Every row after some writes was written or was there before. -/
theorem mem_applyAll {ws : List (Write Row Key)} {d : Db Row} {x : Row}
    (hx : x ∈ (applyAll ws d).rows) :
    (∃ w ∈ ws, w.row? = some x) ∨ x ∈ d.rows :=
  (mem_applyAll_or_kept hx).imp_right And.left

/-- A stored row stays stored unless a write removes it. -/
theorem isSome_find?_applyAll {ws : List (Write Row Key)} {k : Key} {d : Db Row}
    (h : ∀ w ∈ ws, w ≠ .erase k) (hk : (d.find? k).isSome = true) :
    ((applyAll ws d).find? k).isSome = true := by
  induction ws generalizing d with
  | nil => exact hk
  | cons w ws ih =>
      refine ih (fun w' hw' => h w' (List.mem_cons_of_mem _ hw')) ?_
      by_cases hw : w.target = k
      · cases w with
        | insert r =>
            subst hw
            exact Option.isSome_iff_exists.mpr ⟨r, Db.find?_put_self d r⟩
        | update r =>
            subst hw
            exact Option.isSome_iff_exists.mpr ⟨r, Db.find?_put_self d r⟩
        | erase k' => exact absurd (congrArg Write.erase hw) (h _ List.mem_cons_self)
      · rwa [Write.find?_apply_ne hw]

/-- A row whose key no write targets survives a list of writes. -/
theorem mem_applyAll_of_ne {ws : List (Write Row Key)} {d : Db Row} {x : Row}
    (h : ∀ w ∈ ws, w.target ≠ key x) (hx : x ∈ d.rows) :
    x ∈ (applyAll ws d).rows := by
  have hfind := find?_applyAll_ne h d
  rw [Db.find?_of_mem hx] at hfind
  exact Db.mem_of_find? hfind

end FastRep.Txn
