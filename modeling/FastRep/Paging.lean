/-
Pages of a fixed size, each cut from a list of its own: when the pages
together are the rows, each once.

The lists are sorted by one key. Rows of equal keys may stand in any order,
and in another one for each page, as a database may answer each query of a
page anew. `Partition` is what a reader of all pages expects, and
`partition_iff` says when it comes of every choice of the lists: where no two
rows of equal keys stand on the two sides of a page boundary (`Untied`).

# The two directions

Without ties across boundaries, the rows before a boundary are the same in
every order (`Orders.take_perm`): they are the rows whose key is larger than
that of the row behind it (`take_eq_filter`). A page is what stands between
two boundaries, so every order has the same page (`Untied.page_perm`), and
the pages of one order partition it (`Orders.partition`).

With a tie across a boundary, the two tied rows may change places
(`Orders.swap`). One of the pages is cut from the order before the change and
the other one from the order after it, so a row is on both, and pages that
partition rows have none in common (`Partition.disjoint`).
-/
import Mathlib.Data.List.Count
import Mathlib.Data.List.Nodup
import Mathlib.Data.List.Perm.Basic
import Mathlib.Data.List.Range
import Mathlib.Order.Lattice

namespace FastRep.Paging

variable {α κ : Type} [LinearOrder κ] {f : α → κ} {rows l l' : List α} {m size k : Nat}

-- ============================================================ vocabulary

/-- The list has the rows in an order of the key, the largest first. -/
structure Orders (f : α → κ) (rows l : List α) : Prop where
  perm : l.Perm rows
  sorted : l.Pairwise fun x y => f y ≤ f x

/-- A page of a list, counted from 0. -/
def page (size k : Nat) (l : List α) : List α := (l.drop (k * size)).take size

/-- The number of pages, rounded up. -/
def pageCount (size total : Nat) : Nat := (total + size - 1) / size

/-- The pages have every row once, all but the last are full, and the pages
beyond are empty. -/
structure Partition (rows : List α) (size : Nat) (pages : Nat → List α) : Prop where
  complete : ((List.range (pageCount size rows.length)).flatMap pages).Perm rows
  full : ∀ k, k + 1 < pageCount size rows.length → (pages k).length = size
  empty : ∀ k, pageCount size rows.length ≤ k → pages k = []

/-- No two rows of equal keys stand on the two sides of a page boundary. -/
def Untied (f : α → κ) (size : Nat) (rows : List α) : Prop :=
  ∀ l, Orders f rows l → ∀ (k : Nat) x y, l[(k + 1) * size - 1]? = some x →
    l[(k + 1) * size]? = some y → f x ≠ f y

-- ======================================================== pages of one list

/-- The pages that there are: those that start before the end. -/
theorem lt_pageCount_iff (hsize : 0 < size) {total : Nat} :
    k < pageCount size total ↔ k * size < total := by
  rw [pageCount, Nat.lt_div_iff_mul_lt hsize]
  omega

/-- Every page is full, except for the last one. -/
theorem length_page : (page size k l).length = min size (l.length - k * size) := by
  rw [page, List.length_take, List.length_drop]

/-- A row of the list is on the page of its number. -/
theorem mem_page {i : Nat} {x : α} (h : l[k * size + i]? = some x) (hi : i < size) :
    x ∈ page size k l := by
  refine List.mem_iff_getElem?.mpr ⟨i, ?_⟩
  rw [page, List.getElem?_take_of_lt hi, List.getElem?_drop, h]

/-- The first pages of a list are its beginning. -/
theorem flatMap_page (n : Nat) :
    ((List.range n).flatMap fun k => page size k l) = l.take (n * size) := by
  induction n with
  | zero => simp
  | succ n ih =>
      rw [List.range_succ, List.flatMap_append, ih, List.flatMap_singleton, page, Nat.succ_mul,
        List.take_add]

-- ========================================================== sorted lists

/-- The rows with a larger key come first. -/
theorem filter_eq_take (h : l.Pairwise fun x y => f y ≤ f x) (t : κ) :
    l.filter (t < f ·) = l.take (l.countP (t < f ·)) := by
  induction l with
  | nil => rfl
  | cons x l ih =>
      obtain ⟨hx, hl⟩ := List.pairwise_cons.mp h
      by_cases ht : t < f x
      · rw [List.filter_cons_of_pos (by simpa using ht),
          List.countP_cons_of_pos (by simpa using ht), List.take_succ_cons, ih hl]
      · have hnone : ∀ y ∈ x :: l, ¬ t < f y := by
          intro y hy
          rcases List.mem_cons.mp hy with rfl | hy
          · exact ht
          · exact not_lt.mpr ((hx y hy).trans (not_lt.mp ht))
        rw [List.filter_eq_nil_iff.mpr fun y hy => by simpa using hnone y hy,
          List.countP_eq_zero.mpr fun y hy => by simpa using hnone y hy, List.take_zero]

/-- A list in order is cut at a boundary between different keys by the key. -/
theorem take_eq_filter (h : l.Pairwise fun x y => f y ≤ f x) (hm : 0 < m) (hlt : m < l.length)
    (hne : f l[m - 1] ≠ f l[m]) : l.take m = l.filter (f l[m] < f ·) := by
  have hbefore : ∀ z ∈ l.take m, f l[m] < f z := by
    intro z hz
    obtain ⟨i, hi, rfl⟩ := List.mem_iff_getElem.mp hz
    rw [List.length_take] at hi
    rw [List.getElem_take]
    have hlast : f l[m] < f l[m - 1] :=
      lt_of_le_of_ne (List.pairwise_iff_getElem.mp h _ _ _ hlt (by omega)) (Ne.symm hne)
    rcases (show i < m - 1 ∨ i = m - 1 by omega) with hi' | rfl
    · exact hlast.trans_le (List.pairwise_iff_getElem.mp h _ _ _ (by omega) hi')
    · exact hlast
  have hafter : ∀ z ∈ l.drop m, ¬ f l[m] < f z := by
    intro z hz
    obtain ⟨i, hi, rfl⟩ := List.mem_iff_getElem.mp hz
    rw [List.length_drop] at hi
    rw [List.getElem_drop]
    rcases Nat.eq_zero_or_pos i with rfl | hi'
    · exact lt_irrefl _
    · exact not_lt.mpr (List.pairwise_iff_getElem.mp h _ _ hlt (by omega) (by omega))
  calc l.take m
      = (l.take m ++ l.drop m).filter (f l[m] < f ·) := by
        rw [List.filter_append, List.filter_eq_self.mpr fun z hz => by simpa using hbefore z hz,
          List.filter_eq_nil_iff.mpr fun z hz => by simpa using hafter z hz, List.append_nil]
    _ = l.filter (f l[m] < f ·) := congrArg _ (List.take_append_drop m l)

/-- The rows before a boundary between different keys are the same in every
order. -/
theorem Orders.take_perm (h : Orders f rows l) (h' : Orders f rows l') (hm : 0 < m)
    (hlt : m < l.length) (hne : f l[m - 1] ≠ f l[m]) : (l.take m).Perm (l'.take m) := by
  have hcut := take_eq_filter h.sorted hm hlt hne
  have hll := h.perm.trans h'.perm.symm
  have hlen : l.countP (f l[m] < f ·) = m := by
    have hl := congrArg List.length hcut
    rw [List.length_take, ← List.countP_eq_length_filter] at hl
    omega
  have hcut' := filter_eq_take h'.sorted (f l[m])
  rw [← hll.countP_eq, hlen] at hcut'
  rw [hcut, ← hcut']
  exact hll.filter _

-- ==================================================== pages of many orders

/-- At a page boundary every order has had the same rows. -/
theorem Untied.take_perm (hu : Untied f size rows) (hsize : 0 < size) (h : Orders f rows l)
    (h' : Orders f rows l') : ∀ k, (l.take (k * size)).Perm (l'.take (k * size))
  | 0 => by rw [Nat.zero_mul, List.take_zero, List.take_zero]
  | k + 1 => by
      have hpos : 0 < (k + 1) * size := Nat.mul_pos k.succ_pos hsize
      rcases lt_or_ge ((k + 1) * size) l.length with hlt | hge
      · exact h.take_perm h' hpos hlt
          (hu l h k _ _ (List.getElem?_eq_getElem (by omega)) (List.getElem?_eq_getElem hlt))
      · have hll := h.perm.trans h'.perm.symm
        rwa [List.take_of_length_le hge, List.take_of_length_le (hll.length_eq ▸ hge)]

/-- Then a page has the same rows in every order. -/
theorem Untied.page_perm (hu : Untied f size rows) (hsize : 0 < size) (h : Orders f rows l)
    (h' : Orders f rows l') (k : Nat) : (page size k l).Perm (page size k l') := by
  have hbefore := hu.take_perm hsize h h' k
  have hafter := hu.take_perm hsize h h' (k + 1)
  rw [Nat.succ_mul, List.take_add, List.take_add] at hafter
  exact (List.perm_append_left_iff _).mp (hafter.trans (hbefore.symm.append_right _))

/-- The pages of one order partition it. -/
theorem Orders.partition (h : Orders f rows l) (hsize : 0 < size) :
    Partition rows size fun k => page size k l where
  complete := by
    rw [flatMap_page, List.take_of_length_le]
    · exact h.perm
    · have := (lt_pageCount_iff (k := pageCount size rows.length) hsize).not.mp (lt_irrefl _)
      rw [h.perm.length_eq]
      omega
  full k hk := by
    have := (lt_pageCount_iff hsize).mp hk
    rw [length_page, h.perm.length_eq]
    rw [Nat.succ_mul] at this
    omega
  empty k hk := by
    have := (lt_pageCount_iff hsize).not.mp (not_lt.mpr hk)
    rw [← List.length_eq_zero_iff, length_page, h.perm.length_eq]
    omega

/-- A partition depends on the rows of each page only. -/
theorem Partition.congr {p q : Nat → List α} (h : Partition rows size p)
    (hpq : ∀ k, (p k).Perm (q k)) : Partition rows size q where
  complete := (List.Perm.flatMap_left _ fun k _ => (hpq k).symm).trans h.complete
  full k hk := (hpq k).length_eq.symm.trans (h.full k hk)
  empty k hk := (h.empty k hk ▸ hpq k).nil_eq.symm

/-- Rows of different keys have no ties. -/
theorem untied_of_nodup (hsize : 0 < size) (h : (rows.map f).Nodup) : Untied f size rows := by
  intro l hl k x y hx hy hxy
  have hkeys : (l.map f).Nodup := (hl.perm.map f).nodup_iff.mpr h
  have hpos : 0 < (k + 1) * size := Nat.mul_pos k.succ_pos hsize
  have hx' : (l.map f)[(k + 1) * size - 1]? = some (f x) := by rw [List.getElem?_map, hx]; rfl
  have hy' : (l.map f)[(k + 1) * size]? = some (f x) := by rw [List.getElem?_map, hy, hxy]; rfl
  have hlt := (List.getElem?_eq_some_iff.mp hx').1
  have heq := (List.getElem?_inj hlt hkeys).mp (hx'.trans hy'.symm)
  omega

-- ======================================================== two tied rows

/-- A list around two neighbours. -/
theorem exists_split {x y : α} (hx : l[m]? = some x) (hy : l[m + 1]? = some y) :
    ∃ a b, l = a ++ x :: y :: b ∧ a.length = m := by
  obtain ⟨hlt, rfl⟩ := List.getElem?_eq_some_iff.mp hx
  obtain ⟨hlt', rfl⟩ := List.getElem?_eq_some_iff.mp hy
  refine ⟨l.take m, l.drop (m + 2), ?_, List.length_take_of_le hlt.le⟩
  rw [← List.drop_eq_getElem_cons hlt', ← List.drop_eq_getElem_cons hlt, List.take_append_drop]

/-- Neighbours of equal keys may change places. -/
theorem Orders.swap {a b : List α} {x y : α} (h : Orders f rows (a ++ x :: y :: b))
    (hxy : f x = f y) : Orders f rows (a ++ y :: x :: b) where
  perm := ((List.Perm.swap x y b).append_left a).trans h.perm
  sorted := by
    have hmap : (a ++ y :: x :: b).map f = (a ++ x :: y :: b).map f := by
      simp only [List.map_append, List.map_cons, hxy]
    have hs := h.sorted
    rw [← List.pairwise_map (R := fun u v => v ≤ u)] at hs ⊢
    rwa [hmap]

/-- Pages that partition rows without repetition have no row in common. -/
theorem Partition.disjoint {p : Nat → List α} (h : Partition rows size p) (hrows : rows.Nodup)
    {i j : Nat} (hij : i < j) (hj : j < pageCount size rows.length) : (p i).Disjoint (p j) := by
  have hpages := (List.nodup_flatMap.mp (h.complete.nodup_iff.mpr hrows)).2
  have := List.pairwise_iff_getElem.mp hpages i j (by simp; omega) (by simp; omega) hij
  simpa using this

/-- The pages partition the rows, whichever order each is cut from, exactly
when no two rows of equal keys stand on the two sides of a page boundary. -/
theorem partition_iff (hsize : 0 < size) (hrows : rows.Nodup) :
    (∀ o : Nat → List α, (∀ k, Orders f rows (o k)) →
      Partition rows size fun k => page size k (o k)) ↔ Untied f size rows := by
  constructor
  · intro h l hl k x y hx hy hxy
    have hpos : 0 < (k + 1) * size := Nat.mul_pos k.succ_pos hsize
    obtain ⟨a, b, rfl, ha⟩ := exists_split hx (by rwa [Nat.sub_add_cancel hpos])
    have hmul : (k + 1) * size = k * size + size := Nat.succ_mul k size
    have hlast : k + 1 < pageCount size rows.length := by
      rw [lt_pageCount_iff hsize, ← hl.perm.length_eq]
      exact (List.getElem?_eq_some_iff.mp hy).1
    -- the page up to the boundary is cut before, the next one after the exchange
    let o : Nat → List α := fun j => if j ≤ k then a ++ x :: y :: b else a ++ y :: x :: b
    have ho : ∀ j, Orders f rows (o j) := by
      intro j
      dsimp only [o]
      split_ifs
      · exact hl
      · exact hl.swap hxy
    have hin : x ∈ page size k (o k) := by
      refine mem_page (i := size - 1) ?_ (by omega)
      rw [show k * size + (size - 1) = (k + 1) * size - 1 by omega]
      simpa only [o, le_refl, if_true] using hx
    have hin' : x ∈ page size (k + 1) (o (k + 1)) := by
      refine mem_page (i := 0) ?_ hsize
      have : (a ++ y :: x :: b)[a.length + 1]? = some x := by simp
      simpa only [o, Nat.not_succ_le_self, if_false, Nat.add_zero,
        show (k + 1) * size = a.length + 1 by omega] using this
    exact (h o ho).disjoint hrows k.lt_succ_self hlast hin hin'
  · intro hu o ho
    exact ((ho 0).partition hsize).congr fun k => hu.page_perm hsize (ho 0) (ho k) k

end FastRep.Paging
