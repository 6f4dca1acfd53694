/-
The pages of a user's reports: when together they list each report once.

Every page is a query of its own, ordered by `createdAt` alone, so reports
of one moment may change places from page to page. `report_pages_partition`
gives the condition under which this does no harm, and
`report_listed_twice` a list where it does.

The general fact is `partition_iff` of `FastRep.Paging`. What is left is that
the call returns such a page (`findAll_ends`, `eq_paginated`) and that every
choice of orders is possible: an arrangement that stores the rows in one order
gives them in that order (`listing_of_orders`). The reports do not change
while the pages are read.
-/
import FastRep.Paging
import FastRep.Reports.ReportsService
import FastRep.Reports.Proofs.Lookups
import FastRep.Reports.Proofs.Reached
import FastRep.Txn.Proofs.Alone

namespace FastRep.Reports

open FastRep.Txn FastRep.Paging

variable {userId limit k : Nat} {o : Arrangement} {R R' : Rest Row Env} {v : Visit Call Choice}
  {i i' : Nat} {rows : List Report} {pages : Nat → PaginatedReports}

-- ============================================================= one page

/-- What `findAll` returns for a page, counted from 0. -/
def paginated (o : Arrangement) (rows : List Report) (limit k : Nat) : PaginatedReports where
  data := page limit k (o.arrange rows)
  page := k + 1
  limit := limit
  total := rows.length
  totalPages := pageCount limit rows.length

theorem findAll_ends : (findAll o userId (k + 1) limit).Ends v i R
    (.ok (paginated o (userReports userId R.db) limit k)) (i + 1) R := by
  have hpage : (reportsPage o userId (k + 1) limit).Yields (v.times i) R.db
      (page limit k (o.arrange (userReports userId R.db)), (userReports userId R.db).length) [] :=
    .select (.select .pure)
  exact Prog.Ends.bind (Prog.Ends.commits hpage) .pure

/-- Whatever the call returns is a page of the user's reports. -/
theorem eq_paginated {p : PaginatedReports}
    (h : (findAll o userId (k + 1) limit).Ends v i R (.ok p) i' R') :
    p = paginated o (userReports userId R.db) limit k := by
  cases findAll_ends.symm.trans h
  rfl

theorem nodup_userReports (d : Db Row) : (userReports userId d).Nodup := by
  have hids : ((reports d).map (·.id)).Nodup :=
    nodup_table (k := Key.report) (fun r x h => by cases r <;> simp_all [key]) d
  exact (List.Nodup.of_map _ hids).filter _

-- ============================================================ all pages

/-- The pages of a user's reports, as requests return them while these
reports do not change. Each request may find its own arrangement, and its
own state of everything else. -/
def Listing (userId limit : Nat) (rows : List Report) (pages : Nat → PaginatedReports) : Prop :=
  ∀ k, ∃ (o : Arrangement) (v : Visit Call Choice) (i i' : Nat) (R R' : Rest Row Env),
    (userReports userId R.db).Perm rows ∧
      (findAll o userId (k + 1) limit).Ends v i R (.ok (pages k)) i' R'

/-- The pages list every report once, as many pages as they say. -/
structure ListsOnce (limit : Nat) (rows : List Report) (pages : Nat → PaginatedReports) :
    Prop where
  partition : Partition rows limit fun k => (pages k).data
  totalPages : ∀ k, (pages k).totalPages = pageCount limit rows.length

/-- The pages of a listing are cut from orders of its rows. -/
theorem Listing.orders (h : Listing userId limit rows pages) : ∃ l : Nat → List Report,
    ∀ k, Orders Report.createdAt rows (l k) ∧ (pages k).data = page limit k (l k) ∧
      (pages k).totalPages = pageCount limit rows.length := by
  have hpage : ∀ k, ∃ l, Orders Report.createdAt rows l ∧ (pages k).data = page limit k l ∧
      (pages k).totalPages = pageCount limit rows.length := by
    intro k
    obtain ⟨o, v, i, i', R, R', hrows, hends⟩ := h k
    refine ⟨o.arrange (userReports userId R.db), ⟨(o.perm _).trans hrows, o.sorted _⟩, ?_, ?_⟩
    · rw [eq_paginated hends, paginated]
    · rw [eq_paginated hends, paginated, hrows.length_eq]
  exact ⟨fun k => (hpage k).choose, fun k => (hpage k).choose_spec⟩

/-- The newest first, in the order they are stored otherwise. -/
def Arrangement.stable : Arrangement where
  arrange l := l.insertionSort fun x y => y.createdAt ≤ x.createdAt
  perm l := List.perm_insertionSort _ l
  sorted l := List.pairwise_insertionSort _ l

/-- An arrangement that gives the rows one order. -/
def Arrangement.of (l : List Report) (h : Orders Report.createdAt rows l) : Arrangement where
  arrange x := if x = rows then l else Arrangement.stable.arrange x
  perm x := by
    split_ifs with hx
    · exact hx ▸ h.perm
    · exact Arrangement.stable.perm x
  sorted x := by
    split_ifs with hx
    · exact h.sorted
    · exact Arrangement.stable.sorted x

/-- Pages cut from any orders of a user's reports are a listing. -/
theorem listing_of_orders {l : Nat → List Report}
    (h : ∀ k, Orders Report.createdAt (userReports userId R.db) (l k)) :
    Listing userId limit (userReports userId R.db) fun k =>
      paginated (Arrangement.of (l k) (h k)) (userReports userId R.db) limit k := fun _ =>
  ⟨_, ⟨fun _ => .done, fun _ => 0, monotone_const⟩, 0, _, R, _, List.Perm.refl _, findAll_ends⟩

/-- The pages list every report of the user once, whatever arrangements the
queries find, exactly when no two reports of one moment stand on the two
sides of a page boundary. -/
theorem report_pages_partition (hlimit : 0 < limit) :
    (∀ pages, Listing userId limit (userReports userId R.db) pages →
      ListsOnce limit (userReports userId R.db) pages) ↔
    Untied Report.createdAt limit (userReports userId R.db) := by
  rw [← partition_iff hlimit (nodup_userReports R.db)]
  constructor
  · intro h l hl
    have hlists := (h _ (listing_of_orders hl)).partition
    simpa only [paginated, Arrangement.of, if_true] using hlists
  · intro h pages hpages
    obtain ⟨l, hl⟩ := hpages.orders
    exact ⟨by simpa only [(hl _).2.1] using h l fun k => (hl k).1, fun k => (hl k).2.2⟩

-- ============================================================ two reports

/-- Two reports of one user, of the given moments. -/
def twoReports (t t' : Time) : Db Row :=
  ((Db.empty.put (.user sampleUser)).put (.report (newReport 10 1 "t" none t))).put
    (.report (newReport 11 1 "t" none t'))

/-- The rest of the state around them. -/
def twoRest (t t' : Time) : Rest Row Env := ⟨twoReports t t', ⟨[], [], []⟩, 12⟩

/-- Reports of two moments are listed once each. -/
theorem report_pages_partition_two : ∃ pages,
    Listing 1 1 (userReports 1 (twoReports 0 5)) pages ∧
      ListsOnce 1 (userReports 1 (twoReports 0 5)) pages := by
  have horders : Orders Report.createdAt (userReports 1 (twoRest 0 5).db)
      (Arrangement.stable.arrange (userReports 1 (twoReports 0 5))) :=
    ⟨Arrangement.stable.perm _, Arrangement.stable.sorted _⟩
  have hlisting : Listing 1 1 _ _ := listing_of_orders fun _ => horders
  exact ⟨_, hlisting, (report_pages_partition (by decide)).mpr
    (untied_of_nodup (by decide) (by decide)) _ hlisting⟩

/-- Two reports of one moment, in the order a page finds them. -/
def exchanged : Nat → List Report
  | 0 => userReports 1 (twoReports 0 0)
  | _ + 1 => (userReports 1 (twoReports 0 0)).reverse

theorem orders_exchanged :
    ∀ k, Orders Report.createdAt (userReports 1 (twoRest 0 0).db) (exchanged k)
  | 0 => ⟨List.Perm.refl _, by decide⟩
  | _ + 1 => ⟨List.reverse_perm _, by
      change (exchanged 1).Pairwise _
      decide⟩

/-- Of two reports of one moment, one is on both pages and one on none. -/
theorem report_listed_twice : ∃ pages,
    Listing 1 1 (userReports 1 (twoReports 0 0)) pages ∧
      (∀ k, (pages k).totalPages = 2) ∧ (pages 0).data = (pages 1).data ∧
      ¬ ListsOnce 1 (userReports 1 (twoReports 0 0)) pages := by
  refine ⟨_, listing_of_orders orders_exchanged, fun _ => rfl, by decide, fun h => ?_⟩
  exact absurd h.partition.complete (by decide)

end FastRep.Reports
