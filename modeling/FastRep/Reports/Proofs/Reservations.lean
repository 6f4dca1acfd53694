/-
Which grant a reservation draws on, and what a user can reserve.

`compareGrants` is a linear order on the grants of a database, so the
candidates come out in one order however the query returned them, and the
first is the usable grant that expires first (`FirstChoice`). One call of
`reserve` takes a credit from it (`reserve_yields`) and leaves a database of
the same kind (`Startable.taken`). A sequence of calls is then a greedy
assignment of times to grants: `Assigns.take` says that none is lost
(`reserves_greedily`), and at one instant the calls that succeed are as
many as `getForUser` counts (`entitlements_agree`).

# The calls

`Startable` is what a sequence of calls needs: distinct generations that are
stored and have no reservation, of any reports of the user, in a database
whose constraints hold. It is kept by a call, so the induction is over the
sequence, with the database general. A call does not look at the status of
its generation, and a user may have any number of them in the queue.

# The order

`null` is after every date for the comparator only because it is taken for
the largest safe integer, so the order needs the expiries to be dates
(`Dated`, `compareGrants_turn`).

# The counts

Each filter of the two services lets the same grants through
(`countedGrants_eq`). A reservation takes one from what is available
(`available_taking`), also where a grant runs out by it.
-/
import FastRep.EarliestClosing
import FastRep.Reports.Credits
import FastRep.Reports.Entitlements
import FastRep.Reports.Proofs.Lookups
import FastRep.Txn.Proofs.Consistency
import Mathlib.Algebra.Order.BigOperators.Group.List
import Mathlib.Algebra.Order.Ring.Int
import Mathlib.Data.ENat.Basic
import Mathlib.Data.Prod.Lex

namespace FastRep.Reports

open FastRep.Txn

variable {d : Db Row} {userId g : Id} {now : Time} {c : GenerationCreditGrant}

-- ============================================================ the order

/-- What `compareGrants` compares, in this order. -/
def GenerationCreditGrant.rank (r : GenerationCreditGrant) : Nat ×ₗ Nat ×ₗ Nat ×ₗ Nat :=
  toLex (r.expiresAt.getD maxSafeInteger,
    toLex (sourcePriority r.source, toLex (r.createdAt, r.id)))

/-- The comparator compares ranks. -/
theorem compareGrants_iff {l r : GenerationCreditGrant} :
    compareGrants l r = true ↔ l.rank ≤ r.rank := by
  simp only [compareGrants, GenerationCreditGrant.rank, Prod.Lex.toLex_le_toLex]
  by_cases hexp : l.expiresAt.getD maxSafeInteger = r.expiresAt.getD maxSafeInteger
  · by_cases hsource : sourcePriority l.source = sourcePriority r.source
    · by_cases hcreated : l.createdAt = r.createdAt
      · simp [hexp, hsource, hcreated]
      · simp [hexp, hsource, hcreated]
    · simp [hexp, hsource]
  · simp [hexp]

instance : Std.Total fun l r : GenerationCreditGrant => compareGrants l r = true where
  total l r := by
    rw [compareGrants_iff, compareGrants_iff]
    exact le_total _ _

instance : IsTrans GenerationCreditGrant fun l r => compareGrants l r = true where
  trans l m r hlm hmr := by
    rw [compareGrants_iff] at *
    exact hlm.trans hmr

/-- The last moment a `Date` can hold. -/
def maxDate : Nat := 8640000000000000

/-- Every expiry of the database is a `Date`. -/
def Dated (d : Db Row) : Prop :=
  ∀ r ∈ grants d, ∀ expiresAt, r.expiresAt = some expiresAt → expiresAt ≤ maxDate

/-- When a grant expires; `null` is never. -/
def GenerationCreditGrant.expiry (r : GenerationCreditGrant) : WithTop Time :=
  match r.expiresAt with
  | some expiresAt => (expiresAt : WithTop Time)
  | none => ⊤

/-- Where grants are tried: by expiry with `null` last, then by source
priority, creation and id. -/
def GenerationCreditGrant.turn (r : GenerationCreditGrant) :
    WithTop Time ×ₗ Nat ×ₗ Time ×ₗ Id :=
  toLex (r.expiry,
    toLex (sourcePriority r.source, toLex (r.createdAt, r.id)))

/-- On dates `MAX_SAFE_INTEGER` is after every expiry. -/
theorem compareGrants_turn {l r : GenerationCreditGrant} (hd : Dated d) (hl : l ∈ grants d)
    (hr : r ∈ grants d) : compareGrants l r = true ↔ l.turn ≤ r.turn := by
  rw [compareGrants_iff]
  simp only [GenerationCreditGrant.rank, GenerationCreditGrant.turn,
    GenerationCreditGrant.expiry, Prod.Lex.toLex_le_toLex]
  have hdl := hd l hl
  have hdr := hd r hr
  have hmax : maxDate < maxSafeInteger := by decide
  cases hle : l.expiresAt with
  | none =>
      cases hre : r.expiresAt with
      | none => simp
      | some y =>
          have hlt : y < maxSafeInteger := (hdr y hre).trans_lt hmax
          simp [hlt.ne', hlt.not_gt]
  | some x =>
      have hlt : x < maxSafeInteger := (hdl x hle).trans_lt hmax
      cases hre : r.expiresAt with
      | none => simp [hlt]
      | some y => simp

-- =========================================================== candidates

/-- The candidates are the usable grants. -/
theorem mem_candidates {r : GenerationCreditGrant} :
    r ∈ candidates userId now d ↔ r ∈ grants d ∧ r.usable userId now = true := by
  simp [candidates, List.mem_filter]

/-- Two grants of a database of equal rank are one. -/
theorem grant_eq_of_rank {l r : GenerationCreditGrant} (hl : l ∈ grants d)
    (hr : r ∈ grants d) (h : l.rank = r.rank) : l = r := by
  have hid : l.id = r.id := by
    simpa [GenerationCreditGrant.rank] using congrArg (fun x => (ofLex (ofLex (ofLex x).2).2).2) h
  rw [mem_grants] at hl hr
  rw [hid, hr] at hl
  exact (Option.some.inj hl).symm

/-- The candidates are sorted, and sorting finds them from any order of the
usable grants. -/
theorem insertionSort_eq_candidates {l : List GenerationCreditGrant}
    (hl : l.Perm ((grants d).filter (·.usable userId now))) :
    l.insertionSort (fun l r => compareGrants l r = true) = candidates userId now d := by
  have hmem : ∀ r ∈ l, r ∈ grants d := fun r hr => (List.mem_filter.mp (hl.mem_iff.mp hr)).1
  refine List.Perm.eq_of_pairwise ?_
    (List.pairwise_insertionSort _ _) (List.pairwise_insertionSort _ _) ?_
  · intro x y hx hy hxy hyx
    rw [compareGrants_iff] at hxy hyx
    rw [List.mem_insertionSort] at hx
    exact grant_eq_of_rank (hmem x hx) (mem_candidates.mp hy).1 (le_antisymm hxy hyx)
  · exact (List.perm_insertionSort _ _).trans (hl.trans
      ((List.perm_insertionSort _ _).trans (List.perm_insertionSort _ _)).symm)

/-- The usable grant whose turn comes first. -/
structure FirstChoice (userId : Id) (now : Time) (d : Db Row) (c : GenerationCreditGrant) :
    Prop where
  mem : c ∈ grants d
  usable : c.usable userId now = true
  first : ∀ r ∈ grants d, r.usable userId now = true → c.turn ≤ r.turn

/-- The first candidate is a first choice. -/
theorem FirstChoice.of_candidates {rest : List GenerationCreditGrant} (hd : Dated d)
    (h : candidates userId now d = c :: rest) : FirstChoice userId now d c := by
  have hc := mem_candidates.mp (h ▸ List.mem_cons_self : c ∈ candidates userId now d)
  refine ⟨hc.1, hc.2, fun r hr hu => ?_⟩
  have hsorted : (candidates userId now d).Pairwise fun l r => compareGrants l r = true :=
    List.pairwise_insertionSort _ _
  rw [← compareGrants_turn hd hc.1 hr]
  have hmem := mem_candidates.mpr ⟨hr, hu⟩
  rw [h] at hsorted hmem
  rcases List.mem_cons.mp hmem with rfl | hmem
  · rw [compareGrants_iff]
  · exact (List.pairwise_cons.mp hsorted).1 r hmem

-- ============================================================= one call

/-- Nothing was ever reserved for the generation, which is stored. -/
structure Unreserved (g : Id) (d : Db Row) : Prop where
  stored : (generation? d g).isSome = true
  unnamed : ∀ l ∈ ledger d, l.generationId ≠ some g
  unkeyed : ledger? d (.generation g .reserve) = none

/-- The RESERVE entry of a credit. -/
def reservation (userId g grantId : Id) (now : Time) : GenerationCreditTransaction where
  userId
  generationId := some g
  grantId := some grantId
  type := .reserve
  amount := 1
  idempotencyKey := .generation g .reserve
  reason := "Report generation credit reservation"
  createdAt := now

/-- A grant with one credit less. -/
def GenerationCreditGrant.spent (r : GenerationCreditGrant) : GenerationCreditGrant :=
  { r with remainingCredits := r.remainingCredits - 1 }

/-- What a reservation writes: a credit off the grant, and its entry. -/
def taking (userId g : Id) (now : Time) (c : GenerationCreditGrant) :
    List (Write Row Key) :=
  [.update (.grant c.spent), .insert (.ledger (reservation userId g c.id now))]

/-- A grant is usable by its user, with credits left, from its start to its
expiry. -/
theorem GenerationCreditGrant.usable_iff {r : GenerationCreditGrant} :
    r.usable userId now = true ↔ r.userId = userId ∧ 0 < r.remainingCredits ∧
      r.validFrom ≤ now ∧ (now : WithTop Time) < r.expiry := by
  unfold GenerationCreditGrant.usable GenerationCreditGrant.expiry
  cases r.expiresAt with
  | none => simp [and_assoc]
  | some expiresAt => simp [and_assoc]

/-- A stored grant passes the check of its table. -/
theorem Db.Consistent.grant_check (hd : d.Consistent) (hc : c ∈ grants d) :
    0 < c.totalCredits ∧ 0 ≤ c.remainingCredits ∧ c.remainingCredits ≤ c.totalCredits := by
  have hrow := Db.mem_of_find? (grant?_eq_some.mp (mem_grants.mp hc))
  have hcheck := (Db.violation_eq_none_iff.mp (hd _ hrow)).2.1
  simpa [Schema.check, and_assoc] using hcheck

/-- A grant of the table is a row. -/
theorem grant_row (hc : c ∈ grants d) : Row.grant c ∈ d.rows :=
  Db.mem_of_find? (grant?_eq_some.mp (mem_grants.mp hc))

/-- Taking a credit off a grant that has one keeps the constraints. -/
theorem consistent_spent (hd : d.Consistent) (hc : c ∈ grants d)
    (hpos : 0 < c.remainingCredits) :
    d.violation (.grant c.spent) = none ∧ (d.put (.grant c.spent)).Consistent := by
  obtain ⟨htotal, -, hle⟩ := Db.Consistent.grant_check hd hc
  have hcheck : Schema.check (Row.grant c.spent) = true := by
    simp only [Schema.check, GenerationCreditGrant.spent, Bool.and_eq_true]
    exact ⟨⟨decide_eq_true htotal, decide_eq_true (by omega)⟩, decide_eq_true (by omega)⟩
  exact ⟨hd.violation_of_update (grant_row hc) rfl rfl rfl hcheck,
    hd.update (grant_row hc) rfl rfl rfl hcheck⟩

/-- The RESERVE entry of an unreserved generation violates nothing. -/
theorem reservation_fits (now : Time) (hd : d.Consistent) (hg : Unreserved g d) (hc : c ∈ grants d) :
    d.find? (key (Row.ledger (reservation c.userId g c.id now))) = none ∧
      d.violation (.ledger (reservation c.userId g c.id now)) = none := by
  refine ⟨ledger?_eq_none.mp hg.unkeyed, Db.violation_eq_none_iff.mpr ⟨?_, rfl, ?_⟩⟩
  · intro x hx _ i hi hix
    -- the only unique entry is the reservation of the generation
    have hi : i = .reserveOf g := by
      simpa [Schema.indexes, GenerationCreditTransaction.indexes, reservation,
        GenerationCreditTransactionType.terminal] using hi
    subst hi
    cases x with
    | ledger l =>
        have hl : l.generationId = some g := by
          simp only [Schema.indexes, GenerationCreditTransaction.indexes] at hix
          split at hix
          · cases hix
          next g' hg' =>
            rw [hg']
            simp only [List.mem_append] at hix
            rcases hix with hix | hix <;> split at hix <;> simp_all
        refine hg.unnamed l ?_ hl
        rw [mem_ledger, ledger?_eq_some]
        exact Db.find?_of_mem hx
    | generation r =>
        simp only [Schema.indexes, ReportGeneration.indexes] at hix
        split at hix <;> simp at hix
    | grant r => simp [Schema.indexes] at hix
    | _ => simp [Schema.indexes] at hix
  · have huser : (d.find? (.user c.userId)).isSome = true :=
      (Db.violation_eq_none_iff.mp (hd _ (grant_row hc))).2.2 (.user c.userId, .cascade)
        List.mem_cons_self
    have hgrant : (d.find? (.grant c.id)).isSome = true := by
      rw [grant?_eq_some.mp (mem_grants.mp hc)]
      rfl
    have hgen : (d.find? (.generation g)).isSome = true := by
      obtain ⟨x, hx⟩ := Option.isSome_iff_exists.mp hg.stored
      rw [generation?_eq_some.mp hx]
      rfl
    intro ref href
    simp only [Schema.references, reservation, Option.toList_some, List.map_cons, List.map_nil,
      List.cons_append, List.nil_append, List.mem_cons, List.not_mem_nil, or_false] at href
    rcases href with rfl | rfl | rfl
    · exact huser
    · exact hgen
    · exact hgrant

/-- A change of a grant leaves a generation unreserved. -/
theorem Unreserved.put_grant (hg : Unreserved g d) : Unreserved g (d.put (.grant c)) where
  stored := by
    rw [generation?_put_of_ne (by simp)]
    exact hg.stored
  unnamed := by
    intro l hl
    rw [mem_ledger, ledger?_put_of_ne (by simp), ← mem_ledger] at hl
    exact hg.unnamed l hl
  unkeyed := by
    rw [ledger?_put_of_ne (by simp)]
    exact hg.unkeyed

/-- A reservation draws on the first candidate. -/
theorem reserve_yields {rest : List GenerationCreditGrant} (hd : d.Consistent)
    (hg : Unreserved g d) (h : candidates userId now d = c :: rest) :
    (reserve userId g).Yields now d () (taking userId g now c) := by
  obtain ⟨hc, husable⟩ := mem_candidates.mp (h ▸ List.mem_cons_self : c ∈ candidates userId now d)
  obtain ⟨huser, hpos, -, -⟩ := GenerationCreditGrant.usable_iff.mp husable
  obtain ⟨hviol, hcons⟩ := consistent_spent hd hc hpos
  have hstored : d.find? (.grant c.id) = some (.grant c) :=
    grant?_eq_some.mp (mem_grants.mp hc)
  have hc' : c.spent ∈ grants (d.put (.grant c.spent)) := by
    rw [mem_grants, grant?_put_grant]
    exact if_pos rfl
  obtain ⟨hnew, hfits⟩ := reservation_fits now hcons hg.put_grant hc'
  have hfrom : (reserveFrom userId g (c :: rest)).Yields now d true (taking userId g now c) := by
    unfold reserveFrom
    refine Tx.Yields.updateRow hstored (by simpa [onGrant] using hpos) hviol ?_
    subst huser
    exact Tx.Yields.clock (Tx.Yields.insertRow hnew hfits Tx.Yields.pure)
  unfold reserve
  refine Tx.Yields.select ?_
  rw [hg.unkeyed]
  refine Tx.Yields.clock (Tx.Yields.select ?_)
  rw [h]
  rw [← List.append_nil (taking userId g now c)]
  exact Tx.Yields.bind hfrom Tx.Yields.pure

/-- Without a candidate a reservation throws. -/
theorem reserve_throws (hg : Unreserved g d) (h : candidates userId now d = []) :
    ∃ e, ((reserve userId g).run now d).result = .error e := by
  unfold reserve
  rw [Tx.run_select, hg.unkeyed]
  simp only [Option.isSome_none, Bool.false_eq_true, if_false]
  rw [Tx.run_clock, Tx.run_select, h]
  -- no grant is tried, and what remains decides between two errors
  show ∃ e, ((select _ >>= fun grantCount => _ : InTransaction Unit).run now d).result = .error e
  rw [Tx.run_select, Tx.run_select]
  split
  · exact ⟨_, rfl⟩
  · exact ⟨_, rfl⟩

/-- What a sequence of calls needs: distinct generations without a
reservation, and a database whose constraints hold. -/
structure Startable (gs : List Id) (d : Db Row) : Prop where
  consistent : d.Consistent
  distinct : gs.Nodup
  unreserved : ∀ g ∈ gs, Unreserved g d

/-- Taking a credit changes the grant it is taken from. -/
@[simp] theorem grant?_taking {i : Id} :
    grant? (applyAll (taking userId g now c) d) i
      = if c.id = i then some c.spent else grant? d i := by
  simp [taking, Write.apply, GenerationCreditGrant.spent]

@[simp] theorem generation?_taking {i : Id} :
    generation? (applyAll (taking userId g now c) d) i = generation? d i := by
  simp [taking, Write.apply]

/-- Taking a credit makes the entry of the reservation. -/
theorem ledger?_taking {k : LedgerKey} :
    ledger? (applyAll (taking userId g now c) d) k
      = if .generation g .reserve = k then some (reservation userId g c.id now)
        else ledger? d k := by
  simp [taking, Write.apply, reservation]

/-- A call leaves the later calls what they need. -/
theorem Startable.taken {gs : List Id} (h : Startable (g :: gs) d) (hc : c ∈ grants d)
    (hpos : 0 < c.remainingCredits) :
    Startable gs (applyAll (taking c.userId g now c) d) := by
  obtain ⟨hd, hdistinct, hunreserved⟩ := h
  obtain ⟨hnotin, hdistinct⟩ := List.nodup_cons.mp hdistinct
  have hg := hunreserved g List.mem_cons_self
  refine ⟨?_, hdistinct, fun g' hg' => ?_⟩
  · have hc' : c.spent ∈ grants (d.put (.grant c.spent)) := by
      rw [mem_grants, grant?_put_grant]
      exact if_pos rfl
    obtain ⟨-, hcons⟩ := consistent_spent hd hc hpos
    obtain ⟨hnew, hfits⟩ := reservation_fits now hcons hg.put_grant hc'
    exact hcons.insert hfits hnew
  · have hne : g ≠ g' := fun h => hnotin (h ▸ hg')
    obtain ⟨hstored, hunnamed, hunkeyed⟩ := hunreserved g' (List.mem_cons_of_mem _ hg')
    refine ⟨by rwa [generation?_taking], fun l hl => ?_, ?_⟩
    · rw [mem_ledger, ledger?_taking] at hl
      split at hl
      · cases Option.some.inj hl
        simpa [reservation] using hne
      · exact hunnamed l (mem_ledger.mpr hl)
    · rw [ledger?_taking, if_neg (by simpa using hne)]
      exact hunkeyed

-- ========================================================== the sequence

/-- Successive calls of `reserve`, each at its time, until one throws. -/
def reserveAll (userId : Id) : List (Time × Id) → Db Row → Except Error (Db Row)
  | [], d => .ok d
  | (now, g) :: rest, d =>
      match ((reserve userId g).run now d).result with
      | .ok _ => reserveAll userId rest (applyAll ((reserve userId g).run now d).writes d)
      | .error e => .error e

/-- After one reservation the others start from what it left. -/
theorem reserveAll_cons {rest : List (Time × Id)} {ws : List (Write Row Key)}
    (h : (reserve userId g).Yields now d () ws) :
    reserveAll userId ((now, g) :: rest) d = reserveAll userId rest (applyAll ws d) := by
  simp only [reserveAll, h.result, h.writes]

/-- A call succeeds exactly where there is a candidate, and draws on the
first. -/
theorem reserve_cases (userId : Id) (now : Time) (hd : d.Consistent) (hg : Unreserved g d) :
    (candidates userId now d = [] ∧
        ∃ e, ((reserve userId g).run now d).result = .error e) ∨
      ∃ c rest, candidates userId now d = c :: rest ∧
        (reserve userId g).Yields now d () (taking userId g now c) ∧
        c ∈ grants d ∧ c.usable userId now = true := by
  cases h : candidates userId now d with
  | nil => exact Or.inl ⟨rfl, reserve_throws hg h⟩
  | cons c rest =>
      have hc := mem_candidates.mp (h ▸ List.mem_cons_self : c ∈ candidates userId now d)
      exact Or.inr ⟨c, rest, rfl, reserve_yields hd hg h, hc.1, hc.2⟩

/-- The first call of a sequence that succeeds draws on a candidate, and
the others succeed after it. -/
theorem reserveAll_cons_ok {rest : List (Time × Id)} {d' : Db Row}
    (h : Startable (((now, g) :: rest).map (·.2)) d)
    (hok : reserveAll userId ((now, g) :: rest) d = .ok d') :
    ∃ c others, candidates userId now d = c :: others ∧
      (reserve userId g).Yields now d () (taking userId g now c) ∧
      c ∈ grants d ∧ c.usable userId now = true ∧
      Startable (rest.map (·.2)) (applyAll (taking userId g now c) d) ∧
      reserveAll userId rest (applyAll (taking userId g now c) d) = .ok d' := by
  rcases reserve_cases userId now h.consistent
    (h.unreserved g List.mem_cons_self) with ⟨-, e, he⟩ | ⟨c, others, hcand, hyields, hc, husable⟩
  · simp only [reserveAll, he] at hok
    cases hok
  · obtain ⟨huser, hpos, -, -⟩ := GenerationCreditGrant.usable_iff.mp husable
    rw [reserveAll_cons hyields] at hok
    refine ⟨c, others, hcand, hyields, hc, husable, ?_, hok⟩
    subst huser
    exact h.taken hc hpos

-- ====================================================== no credit wasted

open EarliestClosing (Windows Assigns use)

/-- When the grants of a database can be drawn on. -/
def windows (d : Db Row) : Windows Id Time where
  opens i := ((grant? d i).map (·.validFrom)).getD 0
  closes i := ((grant? d i).map (·.expiry)).getD ⊤

/-- What a user has left on a grant. -/
def balance (userId : Id) (d : Db Row) (i : Id) : Nat :=
  match grant? d i with
  | some r => if r.userId = userId then r.remainingCredits.toNat else 0
  | none => 0

/-- A window that is open, with credits left, belongs to a usable grant. -/
theorem usable_of_open {i : Id} (hopen : (windows d).Open i now) (hpos : 0 < balance userId d i) :
    ∃ r, grant? d i = some r ∧ r.usable userId now = true := by
  unfold balance at hpos
  cases hr : grant? d i with
  | none => simp [hr] at hpos
  | some r =>
      simp only [hr] at hpos
      split at hpos
      next huser =>
        refine ⟨r, rfl, GenerationCreditGrant.usable_iff.mpr ⟨huser, by omega, ?_, ?_⟩⟩
        · simpa [windows, hr] using hopen.opens
        · simpa [windows, hr] using hopen.closes
      next => cases hpos

theorem open_of_usable (hc : c ∈ grants d) (h : c.usable userId now = true) :
    (windows d).Open c.id now ∧ 0 < balance userId d c.id := by
  obtain ⟨huser, hpos, hfrom, hexp⟩ := GenerationCreditGrant.usable_iff.mp h
  rw [mem_grants] at hc
  refine ⟨⟨by simpa [windows, hc] using hfrom, by simpa [windows, hc] using hexp⟩, ?_⟩
  simp only [balance, hc, huser, if_true]
  omega

theorem windows_taking (hc : c ∈ grants d) :
    windows (applyAll (taking userId g now c) d) = windows d := by
  rw [mem_grants] at hc
  have hsame : ∀ i, (grant? (applyAll (taking userId g now c) d) i).map (·.validFrom)
      = (grant? d i).map (·.validFrom) ∧
      (grant? (applyAll (taking userId g now c) d) i).map (·.expiry)
      = (grant? d i).map (·.expiry) := by
    intro i
    rw [grant?_taking]
    split
    next hi =>
      subst hi
      rw [hc]
      exact ⟨rfl, rfl⟩
    next => exact ⟨rfl, rfl⟩
  simp only [windows, Windows.mk.injEq]
  exact ⟨funext fun i => by rw [(hsame i).1], funext fun i => by rw [(hsame i).2]⟩

/-- Taking a credit is one use of its grant. -/
theorem balance_taking (hc : c ∈ grants d) (huser : c.userId = userId) :
    balance userId (applyAll (taking userId g now c) d) = use (balance userId d) c.id := by
  rw [mem_grants] at hc
  funext i
  by_cases hi : i = c.id
  · subst hi
    rw [EarliestClosing.use_self, balance, balance, grant?_taking, if_pos rfl, hc]
    simp only [GenerationCreditGrant.spent, huser, if_true]
    omega
  · rw [EarliestClosing.use_of_ne _ hi, balance, balance, grant?_taking, if_neg (Ne.symm hi)]

/-- A first choice closes first among the open grants. -/
theorem FirstChoice.closes_first (h : FirstChoice userId now d c) {i : Id}
    (hopen : (windows d).Open i now) (hpos : 0 < balance userId d i) :
    (windows d).closes c.id ≤ (windows d).closes i := by
  obtain ⟨r, hr, husable⟩ := usable_of_open hopen hpos
  have hmem : r ∈ grants d := by
    rw [mem_grants, grant?_id hr]
    exact hr
  have hturn := h.first r hmem husable
  simp only [GenerationCreditGrant.turn, Prod.Lex.toLex_le_toLex] at hturn
  have hexp : c.expiry ≤ r.expiry := by
    rcases hturn with hlt | ⟨heq, -⟩
    · exact hlt.le
    · exact heq.le
  simpa [windows, hr, mem_grants.mp h.mem] using hexp

/-- A grant of each time, valid then, none used beyond its credits. -/
structure Assignable (userId : Id) (times : List Time) (d : Db Row)
    (as : List GenerationCreditGrant) : Prop where
  uses : List.Forall₂ (fun (r : GenerationCreditGrant) now => r ∈ grants d ∧ r.userId = userId ∧
    r.validFrom ≤ now ∧ (now : WithTop Time) < r.expiry) as times
  within : ∀ r ∈ as, (as.count r : Int) ≤ r.remainingCredits

/-- What can be assigned are grants of the user. -/
theorem Assignable.mem_grants {times : List Time} {as : List GenerationCreditGrant}
    (h : Assignable userId times d as) {r : GenerationCreditGrant} (hr : r ∈ as) :
    r ∈ grants d ∧ r.userId = userId := by
  obtain ⟨huses, -⟩ := h
  induction huses with
  | nil => cases hr
  | cons hx _ ih =>
      rcases List.mem_cons.mp hr with rfl | hr
      · exact ⟨hx.1, hx.2.1⟩
      · exact ih hr

/-- An assignment of grants is one of their ids, in the terms of the
exchange argument. -/
theorem Assignable.assigns {times : List Time} {as : List GenerationCreditGrant}
    (h : Assignable userId times d as) :
    Assigns (windows d) (balance userId d) times (as.map (·.id)) := by
  constructor
  · rw [List.forall₂_map_left_iff]
    refine h.uses.imp fun r now hr => ?_
    obtain ⟨hmem, -, hfrom, hexp⟩ := hr
    have hfind := Reports.mem_grants.mp hmem
    exact ⟨by simpa [windows, hfind] using hfrom, by simpa [windows, hfind] using hexp⟩
  · intro i
    by_cases hi : i ∈ as.map (·.id)
    · obtain ⟨r, hr, rfl⟩ := List.mem_map.mp hi
      have hcount : (as.map (·.id)).count r.id = as.count r := by
        rw [List.count_eq_countP, List.countP_map, List.count_eq_countP]
        refine List.countP_congr fun x hx => ?_
        simp only [Function.comp_apply, beq_iff_eq]
        refine ⟨fun hid => ?_, fun heq => heq ▸ rfl⟩
        have hxd := Reports.mem_grants.mp (h.mem_grants hx).1
        rw [hid, Reports.mem_grants.mp (h.mem_grants hr).1] at hxd
        exact (Option.some.inj hxd).symm
      have hwithin := h.within r hr
      obtain ⟨hmem, huser⟩ := h.mem_grants hr
      rw [hcount, balance, Reports.mem_grants.mp hmem]
      simp only [huser, if_true]
      omega
    · rw [List.count_eq_zero_of_not_mem hi]
      exact Nat.zero_le _

theorem Dated.taken (h : Dated d) (hc : c ∈ grants d) :
    Dated (applyAll (taking userId g now c) d) := by
  intro r hr expiresAt hexp
  rw [mem_grants, grant?_taking] at hr
  split at hr
  · cases Option.some.inj hr
    exact h c hc expiresAt hexp
  · exact h r (mem_grants.mpr hr) expiresAt hexp

/-- Where the times of a sequence can be assigned, all its calls succeed. -/
theorem reserveAll_of_assigns {calls : List (Time × Id)} (hdated : Dated d)
    (h : Startable (calls.map (·.2)) d) (hsorted : (calls.map (·.1)).Pairwise (· ≤ ·))
    {as : List Id} (hassign : Assigns (windows d) (balance userId d) (calls.map (·.1)) as) :
    ∃ d', reserveAll userId calls d = .ok d' := by
  induction calls generalizing d as with
  | nil => exact ⟨d, rfl⟩
  | cons call rest ih =>
      obtain ⟨now, g⟩ := call
      rw [List.map_cons, List.pairwise_cons] at hsorted
      rcases reserve_cases userId now h.consistent
        (h.unreserved g List.mem_cons_self)
        with ⟨hnone, -⟩ | ⟨c, others, hcand, hyields, hc, husable⟩
      · -- the assignment has a grant for the first time
        obtain ⟨i, hopen, hpos⟩ := hassign.exists_open
        obtain ⟨r, hr, hru⟩ := usable_of_open hopen hpos
        have hmem : r ∈ candidates userId now d := by
          rw [mem_candidates, mem_grants, grant?_id hr]
          exact ⟨hr, hru⟩
        rw [hnone] at hmem
        cases hmem
      · have hfirst := FirstChoice.of_candidates hdated hcand
        obtain ⟨huser, hpos, -, -⟩ := GenerationCreditGrant.usable_iff.mp husable
        obtain ⟨bs, hbs⟩ := hassign.take hsorted.1 (open_of_usable hc husable).2
          fun i => hfirst.closes_first
        rw [← windows_taking (g := g) hc,
          ← balance_taking (g := g) hc huser] at hbs
        rw [reserveAll_cons hyields]
        refine ih (hdated.taken hc) ?_ hsorted.2 hbs
        subst huser
        exact h.taken hc hpos

/-- Every call of a sequence that succeeds draws on the first choice of its
moment. -/
theorem reserveAll_first {calls : List (Time × Id)} {d' : Db Row} (hdated : Dated d)
    (h : Startable (calls.map (·.2)) d) (hok : reserveAll userId calls d = .ok d')
    {before after : List (Time × Id)} (hsplit : calls = before ++ (now, g) :: after) :
    ∃ d₁ c, reserveAll userId before d = .ok d₁ ∧ FirstChoice userId now d₁ c ∧
      (reserve userId g).Yields now d₁ () (taking userId g now c) ∧
      ∀ l : List GenerationCreditGrant, l.Perm ((grants d₁).filter (·.usable userId now)) →
        (l.insertionSort fun l r => compareGrants l r = true).head? = some c := by
  subst hsplit
  induction before generalizing d with
  | nil =>
      obtain ⟨c, others, hcand, hyields, -⟩ := reserveAll_cons_ok h hok
      refine ⟨d, c, rfl, FirstChoice.of_candidates hdated hcand, hyields, fun l hl => ?_⟩
      rw [insertionSort_eq_candidates hl, hcand, List.head?_cons]
  | cons call before ih =>
      obtain ⟨now', g'⟩ := call
      obtain ⟨c, others, -, hyields, hc, -, hrest, hok⟩ := reserveAll_cons_ok h hok
      rw [reserveAll_cons hyields]
      exact ih (hdated.taken hc) hrest hok

/-- If the times of a sequence of reservations can be assigned to the
user's grants at all, every call succeeds, and each takes its credit from
the usable grant whose turn comes first, in whatever order the query
returned them. -/
theorem reserves_greedily (userId : Id) (calls : List (Time × Id)) (d : Db Row)
    (hdated : Dated d) (h : Startable (calls.map (·.2)) d)
    (hsorted : (calls.map (·.1)).Pairwise (· ≤ ·))
    (hassign : ∃ as, Assignable userId (calls.map (·.1)) d as) :
    (∃ d', reserveAll userId calls d = .ok d') ∧
      ∀ before now g after, calls = before ++ (now, g) :: after →
        ∃ d₁ c, reserveAll userId before d = .ok d₁ ∧ FirstChoice userId now d₁ c ∧
          (reserve userId g).Yields now d₁ () (taking userId g now c) ∧
          ∀ l : List GenerationCreditGrant, l.Perm ((grants d₁).filter (·.usable userId now)) →
            (l.insertionSort fun l r => compareGrants l r = true).head? = some c := by
  obtain ⟨as, has⟩ := hassign
  obtain ⟨d', hok⟩ := reserveAll_of_assigns hdated h hsorted has.assigns
  exact ⟨⟨d', hok⟩, fun before now g after hsplit => reserveAll_first hdated h hok hsplit⟩

/-- A grant of one credit. -/
def creditUntil (id : Id) (expiresAt : Option Time) : GenerationCreditGrant where
  id
  userId := 1
  source := .promotional
  totalCredits := 1
  remainingCredits := 1
  validFrom := 0
  expiresAt
  subscriptionPeriodKey := none
  externalPurchaseId := none
  createdAt := 0

/-- A report of the user that waits for a generation. -/
def queuedReport (id : Id) : Report where
  id
  userId := 1
  title := "t"
  notes := none
  status := .queued
  reportGenerationLockedUntil := none
  reportFailureWindowStartedAt := none
  reportConsecutiveFailureCount := 0
  createdAt := 0

/-- A fresh generation of a report, with nothing reserved for it yet. -/
def freshGeneration (id reportId : Id) : ReportGeneration where
  id
  reportId
  userId := 1
  idempotencyKey := toString id
  status := .queued
  stage := .preparing
  progress := 0
  attemptCount := 0
  errorCode := none
  errorMessage := none
  provider := none
  model := none
  providerRequestId := none
  promptVersion := ""
  inputSnapshot := none
  structuredResult := none
  inputTokens := none
  outputTokens := none
  startedAt := none
  completedAt := none
  cancelledAt := none
  processingToken := none
  processingLeaseExpiresAt := none
  enqueuedAt := none
  priorReportStatus := .draft
  createdAt := 0

/-- Two fresh generations of one user, for two reports; a credit that expires
at 100 and one that never does. -/
def twoCredits : Db Row where
  rows := [
    .user { id := 1, email := "e", language := "en", timezone := none, emailVerifiedAt := none },
    .report (queuedReport 2), .report (queuedReport 7),
    .generation (freshGeneration 3 2), .generation (freshGeneration 4 7),
    .grant (creditUntil 5 none), .grant (creditUntil 6 (some 100))]
  nodup := by decide

/-- Two queued generations of one user, on two reports, with a credit each. -/
theorem twoCredits_startable : Startable [3, 4] twoCredits where
  consistent := by
    show ∀ r ∈ twoCredits.rows, twoCredits.violation r = none
    decide +kernel
  distinct := by decide
  unreserved := by
    intro g hg
    simp only [List.mem_cons, List.not_mem_nil, or_false] at hg
    rcases hg with rfl | rfl <;> exact ⟨by decide, by decide, by decide⟩

/-- At 50 and 60 both credits can be reserved. -/
theorem reserves_greedily_two :
    (∃ d', reserveAll 1 [(50, 3), (60, 4)] twoCredits = .ok d') ∧
      ∀ before now g after, [(50, 3), (60, 4)] = before ++ (now, g) :: after →
        ∃ d₁ c, reserveAll 1 before twoCredits = .ok d₁ ∧ FirstChoice 1 now d₁ c ∧
          (reserve 1 g).Yields now d₁ () (taking 1 g now c) ∧
          ∀ l : List GenerationCreditGrant, l.Perm ((grants d₁).filter (·.usable 1 now)) →
            (l.insertionSort fun l r => compareGrants l r = true).head? = some c := by
  refine reserves_greedily 1 _ twoCredits ?_ twoCredits_startable (by decide)
    ⟨[creditUntil 6 (some 100), creditUntil 5 none], ⟨?_, by decide⟩⟩
  · intro r hr expiresAt hexp
    have hgrants : grants twoCredits = [creditUntil 5 none, creditUntil 6 (some 100)] := rfl
    rw [hgrants] at hr
    simp only [List.mem_cons, List.not_mem_nil, or_false] at hr
    rcases hr with rfl | rfl <;> cases hexp
    decide
  · refine .cons ⟨by decide, rfl, by decide, ?_⟩ (.cons ⟨by decide, rfl, by decide, ?_⟩ .nil)
    · exact WithTop.coe_lt_coe.mpr (by decide)
    · exact WithTop.coe_lt_top _

-- =========================================== what a user can still reserve

/-- The two filters agree. -/
theorem countedGrants_eq : countedGrants userId now d = (grants d).filter (·.usable userId now) := by
  refine List.filter_congr fun r _ => ?_
  unfold GenerationCreditGrant.usable
  cases r.expiresAt with
  | none => simp
  | some expiresAt => simp

/-- The total is the sum of what remains. -/
theorem totalRemaining_eq (l : List GenerationCreditGrant) :
    totalRemaining l = (l.map (·.remainingCredits)).sum := by
  have hfrom : ∀ n : Int, l.foldl (fun total grant => total + grant.remainingCredits) n
      = n + (l.map (·.remainingCredits)).sum := by
    induction l with
    | nil => simp
    | cons r l ih =>
        intro n
        rw [List.foldl_cons, ih, List.map_cons, List.sum_cons]
        omega
  rw [totalRemaining, hfrom]
  omega

/-- What a grant adds to the credits of a user. -/
def GenerationCreditGrant.counts (userId : Id) (now : Time) (r : GenerationCreditGrant) : Int :=
  if r.usable userId now then r.remainingCredits else 0

/-- A part of the grants counts with its own credits. -/
theorem totalRemaining_filter (p : GenerationCreditGrant → Bool) (l : List GenerationCreditGrant) :
    totalRemaining (l.filter p) = (l.map fun r => if p r then r.remainingCredits else 0).sum := by
  rw [totalRemaining_eq]
  induction l with
  | nil => rfl
  | cons r l ih =>
      rw [List.filter_cons, List.map_cons, List.sum_cons]
      split
      · rw [List.map_cons, List.sum_cons, ih]
      · rw [ih]
        omega

/-- The credits `getForUser` reports as available. -/
def available (userId : Id) (now : Time) (d : Db Row) : Int :=
  (getForUser userId now d).generationCredits.available

/-- What is available is the sum of what counts now. -/
theorem available_eq : available userId now d = ((grants d).map (·.counts userId now)).sum := by
  rw [available, getForUser, countedGrants_eq, totalRemaining_filter]
  rfl

theorem counts_nonneg (r : GenerationCreditGrant) : 0 ≤ r.counts userId now := by
  unfold GenerationCreditGrant.counts
  split
  next h => exact (GenerationCreditGrant.usable_iff.mp h).2.1.le
  next => exact le_refl 0

/-- A grant a credit is taken from counts one less, also where it runs
out. -/
theorem counts_spent (h : c.usable userId now = true) :
    c.spent.counts userId now = c.counts userId now - 1 := by
  have hc := GenerationCreditGrant.usable_iff.mp h
  unfold GenerationCreditGrant.counts
  rw [if_pos h]
  by_cases hpos : 0 < c.spent.remainingCredits
  · rw [if_pos (GenerationCreditGrant.usable_iff (r := c.spent).mpr ⟨hc.1, hpos, hc.2.2⟩)]
    rfl
  · rw [if_neg fun hs => hpos (GenerationCreditGrant.usable_iff.mp hs).2.1]
    have hone : c.spent.remainingCredits = c.remainingCredits - 1 := rfl
    omega

/-- Taking a credit changes one grant of the table. -/
theorem grants_taking (hc : c ∈ grants d) :
    grants (applyAll (taking userId g now c) d)
      = (grants d).map fun r => if r.id = c.id then c.spent else r := by
  have hstored : d.rows.any (fun x => decide (key x = key (Row.grant c.spent))) = true :=
    List.any_eq_true.mpr ⟨_, grant_row hc, decide_eq_true rfl⟩
  have hput : (d.put (.grant c.spent)).rows
      = d.rows.map fun x => if key x = key (Row.grant c.spent) then .grant c.spent else x := by
    exact if_pos hstored
  -- the entry goes to another table
  have hentry : ∀ d' : Db Row, grants (d'.put (.ledger (reservation userId g c.id now)))
      = grants d' := by
    intro d'
    unfold grants Db.put
    simp only
    split
    · rw [List.filterMap_map]
      refine List.filterMap_congr fun x _ => ?_
      cases x with
      | ledger l =>
          by_cases hk : key (Row.ledger l) = key (Row.ledger (reservation userId g c.id now))
          · simp [hk]
          · simp [hk]
      | _ => simp [key]
    · rw [List.filterMap_append]
      simp
  show grants ((d.put (.grant c.spent)).put (.ledger (reservation userId g c.id now))) = _
  rw [hentry, grants, hput, grants, List.filterMap_map, List.map_filterMap]
  refine List.filterMap_congr fun x _ => ?_
  cases x with
  | grant r =>
      by_cases hid : r.id = c.id
      · simp [key, hid, GenerationCreditGrant.spent]
      · simp [key, hid, GenerationCreditGrant.spent]
  | _ => simp [key]

/-- Replacing one member of a list with distinct ids moves a sum by the
difference of the two. -/
theorem sum_replaced {f : GenerationCreditGrant → Int} {r : GenerationCreditGrant}
    {l : List GenerationCreditGrant} (hnodup : (l.map (·.id)).Nodup) (hc : c ∈ l) :
    ((l.map fun x => if x.id = c.id then r else x).map f).sum = (l.map f).sum - f c + f r := by
  induction l with
  | nil => cases hc
  | cons x l ih =>
      rw [List.map_cons, List.nodup_cons] at hnodup
      simp only [List.map_cons, List.sum_cons]
      rcases List.mem_cons.mp hc with rfl | hmem
      · -- the others keep their ids
        have hrest : (l.map fun x => if x.id = c.id then r else x) = l := by
          rw [List.map_congr_left (g := id), List.map_id]
          intro y hy
          have hne : y.id ≠ c.id := fun he => hnodup.1 (he ▸ List.mem_map_of_mem hy)
          simp [hne]
        rw [hrest, if_pos rfl]
        omega
      · have hne : x.id ≠ c.id := fun he => hnodup.1 (he ▸ List.mem_map_of_mem hmem)
        rw [if_neg hne, ih hnodup.2 hmem]
        omega

theorem nodup_grants : ((grants d).map (·.id)).Nodup :=
  nodup_table (k := Key.grant) (fun r x h => by
    cases r <;> simp at h
    subst h
    rfl) d

/-- A reservation takes one of the available credits. -/
theorem available_taking (hc : c ∈ grants d) (h : c.usable userId now = true) :
    available userId now (applyAll (taking userId g now c) d) = available userId now d - 1 := by
  rw [available_eq, available_eq, grants_taking hc, sum_replaced nodup_grants hc,
    counts_spent h]
  omega

/-- Credits are available exactly where there is a candidate. -/
theorem candidates_eq_nil_iff : candidates userId now d = [] ↔ available userId now d = 0 := by
  have hnil : candidates userId now d = [] ↔ ∀ r ∈ grants d, r.usable userId now = false := by
    rw [List.eq_nil_iff_forall_not_mem]
    simp [mem_candidates]
  rw [hnil, available_eq]
  have hnonneg : ∀ x ∈ (grants d).map (·.counts userId now), 0 ≤ x := by
    intro x hx
    obtain ⟨r, -, rfl⟩ := List.mem_map.mp hx
    exact counts_nonneg r
  constructor
  · intro h
    have hzero : (grants d).map (·.counts userId now) = (grants d).map fun _ => 0 := by
      refine List.map_congr_left fun r hr => ?_
      rw [GenerationCreditGrant.counts, h r hr]
      rfl
    rw [hzero]
    simp
  · intro hsum r hr
    by_contra hu
    rw [Bool.not_eq_false] at hu
    have hle := List.single_le_sum hnonneg _ (List.mem_map_of_mem hr)
    have hpos := (GenerationCreditGrant.usable_iff.mp hu).2.1
    rw [hsum, GenerationCreditGrant.counts, if_pos hu] at hle
    omega

/-- As many reservations succeed as credits are available, and each takes
one of them. -/
theorem reserveAll_available {gs : List Id} (h : Startable gs d)
    (hle : (gs.length : Int) ≤ available userId now d) :
    ∃ d', reserveAll userId (gs.map fun g => (now, g)) d = .ok d' ∧
      available userId now d' = available userId now d - gs.length ∧ d'.Consistent ∧
      ∀ g, g ∉ gs → Unreserved g d → Unreserved g d' := by
  induction gs generalizing d with
  | nil => exact ⟨d, rfl, by simp, h.consistent, fun _ _ hg => hg⟩
  | cons g gs ih =>
      rw [List.length_cons] at hle
      rcases reserve_cases userId now h.consistent
        (h.unreserved g List.mem_cons_self)
        with ⟨hnone, -⟩ | ⟨c, others, -, hyields, hc, husable⟩
      · rw [candidates_eq_nil_iff] at hnone
        omega
      · obtain ⟨huser, hpos, -, -⟩ := GenerationCreditGrant.usable_iff.mp husable
        subst huser
        have htaken := available_taking (g := g) hc husable
        have hstart : Startable gs (applyAll (taking c.userId g now c) d) := h.taken hc hpos
        obtain ⟨d', hok, hleft, hcons, hothers⟩ := ih hstart (by omega)
        refine ⟨d', ?_, ?_, hcons, fun g' hg' hu => ?_⟩
        · rw [List.map_cons, reserveAll_cons hyields]
          exact hok
        · rw [List.length_cons]
          omega
        · rw [List.mem_cons, not_or] at hg'
          have hpair : Startable [g, g'] d := by
            refine ⟨h.consistent, by simpa using Ne.symm hg'.1, fun i hi => ?_⟩
            rcases List.mem_cons.mp hi with rfl | hi
            · exact h.unreserved _ List.mem_cons_self
            · exact List.mem_singleton.mp hi ▸ hu
          exact hothers g' hg'.2
            ((hpair.taken hc hpos).unreserved g' List.mem_cons_self)

theorem available_nonneg : 0 ≤ available userId now d := by
  rw [available_eq]
  refine List.sum_nonneg fun x hx => ?_
  obtain ⟨r, -, rfl⟩ := List.mem_map.mp hx
  exact counts_nonneg r

/-- A single reservation succeeds exactly where a credit is available. -/
theorem reserve_ok_iff (hd : d.Consistent) (hg : Unreserved g d) :
    ((reserve userId g).run now d).result = .ok () ↔ 0 < available userId now d := by
  have hnonneg : 0 ≤ available userId now d := available_nonneg
  rcases reserve_cases userId now hd hg
    with ⟨hnone, e, he⟩ | ⟨c, others, hcand, hyields, -⟩
  · rw [candidates_eq_nil_iff] at hnone
    rw [he, hnone]
    simp
  · have hne : available userId now d ≠ 0 := by
      rw [Ne, ← candidates_eq_nil_iff, hcand]
      simp
    simp only [hyields.result, true_iff]
    omega

/-- What is shown as monthly and purchased is available. -/
theorem monthly_add_purchased_le :
    (getForUser userId now d).generationCredits.monthly
      + (getForUser userId now d).generationCredits.purchased ≤ available userId now d := by
  simp only [available, getForUser]
  have hpos : ∀ r ∈ countedGrants userId now d, 0 < r.remainingCredits := by
    intro r hr
    rw [countedGrants_eq, List.mem_filter] at hr
    exact (GenerationCreditGrant.usable_iff.mp hr.2).2.1
  rw [totalRemaining_filter, totalRemaining_filter, totalRemaining_eq]
  generalize countedGrants userId now d = l at hpos
  induction l with
  | nil => simp
  | cons r l ih =>
      have hr := hpos r List.mem_cons_self
      have hl := ih fun x hx => hpos x (List.mem_cons_of_mem _ hx)
      simp only [List.map_cons, List.sum_cons, decide_eq_true_eq] at hl ⊢
      -- no grant is of both sources
      cases r.source <;> simp only [reduceCtorEq, if_true, if_false] <;> omega

/-- What `getForUser` reports and what `reserve` does agree: of `n`
available credits exactly `n` can be reserved one after another, the
report counts down with them, and `canGenerate` foretells the next. -/
theorem entitlements_agree (userId : Id) (now : Time) (d : Db Row) (hd : d.Consistent) :
    (∀ gs, Startable gs d → (gs.length : Int) ≤ available userId now d →
      ∃ d', reserveAll userId (gs.map fun g => (now, g)) d = .ok d' ∧
        available userId now d' = available userId now d - gs.length) ∧
    (∀ gs g, Startable (g :: gs) d → (gs.length : Int) = available userId now d →
      ∃ d', reserveAll userId (gs.map fun g => (now, g)) d = .ok d' ∧
        ∃ e, ((reserve userId g).run now d').result = .error e) ∧
    (getForUser userId now d).generationCredits.monthly
      + (getForUser userId now d).generationCredits.purchased ≤ available userId now d ∧
    ∀ g, Unreserved g d → ((getForUser userId now d).canGenerate = true ↔
      ((reserve userId g).run now d).result = .ok ()) := by
  refine ⟨fun gs h hle => ?_, fun gs g h heq => ?_, monthly_add_purchased_le, fun g hg => ?_⟩
  · obtain ⟨d', hok, hleft, -⟩ := reserveAll_available h hle
    exact ⟨d', hok, hleft⟩
  · have hgs : Startable gs d :=
      ⟨hd, (List.nodup_cons.mp h.distinct).2,
        fun i hi => h.unreserved i (List.mem_cons_of_mem _ hi)⟩
    obtain ⟨d', hok, hleft, hcons, hothers⟩ := reserveAll_available hgs heq.le
    have hg := hothers g (List.nodup_cons.mp h.distinct).1 (h.unreserved g List.mem_cons_self)
    refine ⟨d', hok, ?_⟩
    rcases reserve_cases userId now hcons hg
      with ⟨-, hthrows⟩ | ⟨c, others, hcand, -⟩
    · exact hthrows
    · have hnil : candidates userId now d' = [] := by
        rw [candidates_eq_nil_iff]
        omega
      rw [hnil] at hcand
      cases hcand
  · rw [reserve_ok_iff hd hg]
    simp [getForUser, available]

/-- Of two credits two can be reserved, and `getForUser` says so. -/
theorem entitlements_agree_two :
    available 1 50 twoCredits = 2 ∧
    (∀ gs, Startable gs twoCredits → (gs.length : Int) ≤ available 1 50 twoCredits →
      ∃ d', reserveAll 1 (gs.map fun g => (50, g)) twoCredits = .ok d' ∧
        available 1 50 d' = available 1 50 twoCredits - gs.length) ∧
    (∀ gs g, Startable (g :: gs) twoCredits → (gs.length : Int) = available 1 50 twoCredits →
      ∃ d', reserveAll 1 (gs.map fun g => (50, g)) twoCredits = .ok d' ∧
        ∃ e, ((reserve 1 g).run 50 d').result = .error e) ∧
    (getForUser 1 50 twoCredits).generationCredits.monthly
      + (getForUser 1 50 twoCredits).generationCredits.purchased ≤ available 1 50 twoCredits ∧
    ∀ g, Unreserved g twoCredits → ((getForUser 1 50 twoCredits).canGenerate = true ↔
      ((reserve 1 g).run 50 twoCredits).result = .ok ()) :=
  ⟨by decide, entitlements_agree 1 50 twoCredits twoCredits_startable.consistent⟩

end FastRep.Reports
