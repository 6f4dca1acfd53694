/-
Credit accounts with reservations.

An account is opened with a number of credits. A job reserves one credit
of an account, and settles the reservation once: it consumes the credit,
or releases it back to the account it came from. `Books.Step` is one
entry in the books; what is true of all books that were kept this way is
`Balanced`: every credit of an account is in it or held by a reservation
that was not released.

# The books

Accounts and jobs are any types. The books are functions on them, with
`none` for an account that was not opened and a job without a reservation,
so nothing here says how they are stored. A job keeps its reservation and
its settlement for good: the books also are the history of every job.

# The arguments

The balance is a count of jobs, and there may be infinitely many jobs; a
step lemma for each kind of entry therefore says what it does to the set
of jobs that hold a credit (`Books.held`), which stays finite:

- an opening adds an account that no job has reserved from
  (`Balanced.opening`);
- a reservation takes one credit out of the account and adds its job to
  the holders (`Balanced.reserve`);
- a release does the reverse (`Balanced.release`);
- consuming a credit moves nothing (`Balanced.consume`): the job holds it
  for good.

`Books.Kept.balanced` is the induction over the entries. That a settlement is
written once (`Books.Kept.settled_eq`) needs no balance.
-/
import Mathlib.Data.Set.Card
import Mathlib.Logic.Function.Basic
import Mathlib.Logic.Relation

namespace FastRep.Accounts

open Function (update)

inductive Settlement where
  | consumed
  | released
  deriving DecidableEq, Repr

/-- Accounts with their credits, jobs with their reservations. -/
@[ext] structure Books (Account Job : Type) where
  /-- Credits an account was opened with. -/
  total : Account → Option Int
  remaining : Account → Int
  reserved : Job → Option Account
  settled : Job → Option Settlement

variable {Account Job : Type}

/-- No account is open. -/
def Books.empty : Books Account Job where
  total := fun _ => none
  remaining := fun _ => 0
  reserved := fun _ => none
  settled := fun _ => none

section Entries

variable [DecidableEq Account] [DecidableEq Job] (b : Books Account Job) (a : Account) (j : Job)

def Books.opening (n : Int) : Books Account Job :=
  { b with
    total := update b.total a (some n)
    remaining := update b.remaining a n }

def Books.reserve : Books Account Job :=
  { b with
    remaining := update b.remaining a (b.remaining a - 1)
    reserved := update b.reserved j (some a) }

def Books.consume : Books Account Job :=
  { b with settled := update b.settled j (some .consumed) }

def Books.release : Books Account Job :=
  { b with
    remaining := update b.remaining a (b.remaining a + 1)
    settled := update b.settled j (some .released) }

end Entries

/-- One entry in the books. -/
inductive Books.Step [DecidableEq Account] [DecidableEq Job] :
    Books Account Job → Books Account Job → Prop
  | opened {b : Books Account Job} {a : Account} {n : Int} :
      b.total a = none → 0 < n → Step b (b.opening a n)
  | reserved {b : Books Account Job} {a : Account} {j : Job} :
      (b.total a).isSome = true → 0 < b.remaining a → b.reserved j = none →
      b.settled j = none → Step b (b.reserve a j)
  | consumed {b : Books Account Job} {a : Account} {j : Job} :
      b.reserved j = some a → b.settled j = none → Step b (b.consume j)
  | released {b : Books Account Job} {a : Account} {j : Job} :
      b.reserved j = some a → b.settled j = none → Step b (b.release a j)

/-- Books that were kept from one to the other. -/
def Books.Kept [DecidableEq Account] [DecidableEq Job] :
    Books Account Job → Books Account Job → Prop :=
  Relation.ReflTransGen Books.Step

/-- The jobs that hold a credit of the account. -/
def Books.held (b : Books Account Job) (a : Account) : Set Job :=
  {j | b.reserved j = some a ∧ b.settled j ≠ some .released}

/-- Every credit of an account is in it or held by a job. -/
structure Balanced (b : Books Account Job) : Prop where
  finite : {j | b.reserved j ≠ none}.Finite
  opened : ∀ a j, b.reserved j = some a → (b.total a).isSome = true
  settled : ∀ j, b.settled j ≠ none → b.reserved j ≠ none
  balance : ∀ a n, b.total a = some n → b.remaining a + (b.held a).ncard = n
  nonneg : ∀ a n, b.total a = some n → 0 ≤ b.remaining a

-- ============================================================== balances

/-- Only finitely many jobs hold a unit of an account: they all have a
reservation. -/
theorem Balanced.held_finite {b : Books Account Job} (h : Balanced b) (a : Account) :
    (b.held a).Finite := by
  apply h.finite.subset
  intro j hj hnone
  rw [hj.1] at hnone
  cases hnone

/-- The reservations of an account are held, or were released. -/
theorem Balanced.held_add_released {b : Books Account Job} (h : Balanced b) (a : Account) :
    (b.held a).ncard + {j | b.reserved j = some a ∧ b.settled j = some .released}.ncard
      = {j | b.reserved j = some a}.ncard := by
  have hheld : b.held a = {j | b.reserved j = some a} \
      {j | b.reserved j = some a ∧ b.settled j = some .released} := by
    ext j
    simp only [Books.held, Set.mem_ofPred_eq, Set.mem_sdiff]
    tauto
  rw [hheld]
  apply Set.ncard_sdiff_add_ncard_of_subset
  · intro j hj
    exact hj.1
  · apply h.finite.subset
    intro j hj hnone
    rw [show b.reserved j = some a from hj] at hnone
    cases hnone

/-- An account never has more than it was opened with. -/
theorem Balanced.le {b : Books Account Job} (h : Balanced b) {a : Account} {n : Int}
    (ha : b.total a = some n) : b.remaining a ≤ n := by
  have hbalance := h.balance a n ha
  omega

/-- Books in which nothing was ever opened are balanced. -/
theorem Balanced.empty : Balanced (Books.empty : Books Account Job) where
  finite := by simp [Books.empty]
  opened := by simp [Books.empty]
  settled := by simp [Books.empty]
  balance := by simp [Books.empty]
  nonneg := by simp [Books.empty]

variable {b b' : Books Account Job} {a : Account} {j : Job}

/-- A new account starts with all its units remaining. -/
theorem Balanced.opening [DecidableEq Account] (h : Balanced b) {n : Int}
    (hnone : b.total a = none) (hn : 0 < n) : Balanced (b.opening a n) := by
  have hheld : b.held a = ∅ := by
    apply Set.eq_empty_of_forall_notMem
    intro j hj
    have hopened := h.opened a j hj.1
    rw [hnone] at hopened
    cases hopened
  refine ⟨h.finite, ?_, h.settled, ?_, ?_⟩
  · intro a' j hj
    by_cases ha : a' = a
    · simp [Books.opening, ha]
    · simpa [Books.opening, ha] using h.opened a' j hj
  · intro a' n' htotal
    show update b.remaining a n a' + ((b.held a').ncard : Int) = n'
    by_cases ha : a' = a
    · subst ha
      have hn' : n = n' := by simpa [Books.opening] using htotal
      simp [hheld, hn']
    · rw [Function.update_of_ne ha]
      apply h.balance
      simpa [Books.opening, ha] using htotal
  · intro a' n' htotal
    show 0 ≤ update b.remaining a n a'
    by_cases ha : a' = a
    · subst ha
      rw [Function.update_self]
      omega
    · rw [Function.update_of_ne ha]
      apply h.nonneg a' n'
      simpa [Books.opening, ha] using htotal

/-- Consuming moves nothing: the unit stays held for good. -/
theorem Balanced.consume [DecidableEq Job] (h : Balanced b) (hreserved : b.reserved j = some a)
    (hsettled : b.settled j = none) : Balanced (b.consume j) := by
  refine ⟨h.finite, h.opened, ?_, ?_, h.nonneg⟩
  · intro i hi
    by_cases hij : i = j
    · simp [Books.consume, hij, hreserved]
    · exact h.settled i (by simpa [Books.consume, hij] using hi)
  · intro a' n htotal
    have hheld : (b.consume j).held a' = b.held a' := by
      ext i
      by_cases hij : i = j <;> simp [Books.held, Books.consume, hij, hsettled]
    rw [hheld]
    exact h.balance a' n htotal

section Jobs

variable [DecidableEq Account] [DecidableEq Job]

/-- A new reservation of the account adds its job to the jobs that hold a
credit of it. -/
theorem Books.held_reserve (hsettled : b.settled j = none) (a' : Account) :
    (b.reserve a j).held a'
      = if a' = a then insert j (b.held a') else b.held a' \ {j} := by
  ext i
  by_cases hi : i = j <;> by_cases ha : a' = a <;>
    simp [Books.held, Books.reserve, hi, ha, hsettled, eq_comm (a := a)]

/-- A unit moves from the remaining ones to the held ones. -/
theorem Balanced.reserve (h : Balanced b) (hopen : (b.total a).isSome = true)
    (hpos : 0 < b.remaining a) (hreserved : b.reserved j = none) (hsettled : b.settled j = none) :
    Balanced (b.reserve a j) := by
  have hnot : ∀ a', j ∉ b.held a' := by
    intro a' hj
    have hsome := hj.1
    rw [hreserved] at hsome
    cases hsome
  refine ⟨?_, ?_, ?_, ?_, ?_⟩
  · apply (h.finite.insert j).subset
    intro i hi
    by_cases hij : i = j
    · exact Or.inl hij
    · exact Or.inr (by simpa [Books.reserve, hij] using hi)
  · intro a' i hi
    by_cases hij : i = j
    · have ha : a = a' := by simpa [Books.reserve, hij] using hi
      exact ha ▸ hopen
    · exact h.opened a' i (by simpa [Books.reserve, hij] using hi)
  · intro i hi
    by_cases hij : i = j
    · simp [Books.reserve, hij]
    · simpa [Books.reserve, hij] using h.settled i hi
  · intro a' n htotal
    have hbalance := h.balance a' n htotal
    rw [Books.held_reserve hsettled]
    by_cases ha : a' = a
    · subst ha
      rw [if_pos rfl, Set.ncard_insert_of_notMem (hnot a') (h.held_finite a')]
      simp only [Books.reserve, Function.update_self]
      omega
    · rw [if_neg ha, Set.sdiff_singleton_eq_self (hnot a')]
      simpa [Books.reserve, ha] using hbalance
  · intro a' n htotal
    have hnonneg := h.nonneg a' n htotal
    by_cases ha : a' = a
    · subst ha
      simp only [Books.reserve, Function.update_self]
      omega
    · simpa [Books.reserve, ha] using hnonneg

/-- A release takes its job from the jobs that hold a credit. -/
theorem Books.held_release (a' : Account) : (b.release a j).held a' = b.held a' \ {j} := by
  ext i
  by_cases hij : i = j <;> simp [Books.held, Books.release, hij]

/-- A held unit goes back to the remaining ones, and is counted as released.
-/
theorem Balanced.release (h : Balanced b) (hreserved : b.reserved j = some a)
    (hsettled : b.settled j = none) : Balanced (b.release a j) := by
  have hmem : ∀ a', j ∈ b.held a' ↔ a' = a := by
    intro a'
    simp [Books.held, hreserved, hsettled, eq_comm]
  refine ⟨h.finite, h.opened, ?_, ?_, ?_⟩
  · intro i hi
    by_cases hij : i = j
    · simp [Books.release, hij, hreserved]
    · exact h.settled i (by simpa [Books.release, hij] using hi)
  · intro a' n htotal
    have hbalance := h.balance a' n htotal
    rw [Books.held_release]
    by_cases ha : a' = a
    · subst ha
      have hcard := Set.ncard_sdiff_singleton_add_one ((hmem a').mpr rfl) (h.held_finite a')
      simp only [Books.release, Function.update_self]
      omega
    · rw [Set.sdiff_singleton_eq_self fun hj => ha ((hmem a').mp hj)]
      simpa [Books.release, ha] using hbalance
  · intro a' n htotal
    have hnonneg := h.nonneg a' n htotal
    by_cases ha : a' = a
    · subst ha
      simp only [Books.release, Function.update_self]
      omega
    · simpa [Books.release, ha] using hnonneg

/-- An entry keeps the books balanced. -/
theorem Books.Step.balanced (hstep : Books.Step b b') (h : Balanced b) : Balanced b' := by
  cases hstep with
  | opened hnone hn => exact h.opening hnone hn
  | reserved hopen hpos hreserved hsettled => exact h.reserve hopen hpos hreserved hsettled
  | consumed hreserved hsettled => exact h.consume hreserved hsettled
  | released hreserved hsettled => exact h.release hreserved hsettled

/-- Balanced books stay balanced over any sequence of entries. -/
theorem Books.Kept.balanced (hkept : Books.Kept b b') (h : Balanced b) : Balanced b' := by
  induction hkept with
  | refl => exact h
  | tail _ hstep ih => exact hstep.balanced ih

-- ============================================================== histories

/-- A settlement is never changed. -/
theorem Books.Step.settled_eq (hstep : Books.Step b b') {o : Settlement}
    (h : b.settled j = some o) : b'.settled j = some o := by
  cases hstep with
  | opened _ _ => exact h
  | reserved _ _ _ _ => exact h
  | @consumed _ i _ hsettled =>
      have hij : j ≠ i := by
        intro hij
        rw [hij, hsettled] at h
        cases h
      simpa [Books.consume, hij] using h
  | @released _ i _ hsettled =>
      have hij : j ≠ i := by
        intro hij
        rw [hij, hsettled] at h
        cases h
      simpa [Books.release, hij] using h

/-- What settled a reservation is never changed. -/
theorem Books.Kept.settled_eq (hkept : Books.Kept b b') {o : Settlement}
    (h : b.settled j = some o) : b'.settled j = some o := by
  induction hkept with
  | refl => exact h
  | tail _ hstep ih => exact hstep.settled_eq ih

end Jobs

end FastRep.Accounts
