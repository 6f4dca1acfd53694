/-
Serving unit demands in time order from resources with windows: taking the
open resource that closes first never loses an assignment.

A resource opens at a time, closes at a time or never, and has a capacity.
A list of times is assigned when every time gets a resource open at it and
no resource is used beyond its capacity.

# The exchange

`Assigns.take` is the exchange step: after the first time took an open
resource `a` that closes first, the later times can still be assigned from
what is left. Let the given assignment take `b` at the first time. If `b` is
`a` there is nothing to do. If the later times have a use of `a` to spare,
`a` is taken now and one unit of `b` stays over. Otherwise one of the later
uses of `a` becomes a use of `b` (`exists_moved`): `b` is open at the first
time and closes no earlier than `a`, so it is open wherever `a` is used later
(`Windows.Open.later`). Only the first time has to be the earliest one.

Which of several resources that close at one time is taken does not matter
here; a program that breaks the tie by another order is covered.
-/
import Mathlib.Data.List.Count
import Mathlib.Data.List.Forall2
import Mathlib.Order.WithBot

namespace FastRep.EarliestClosing

variable {α τ : Type} [LinearOrder τ]

/-- When each resource can be used. -/
structure Windows (α τ : Type) where
  opens : α → τ
  closes : α → WithTop τ

/-- The resource is open at the time. -/
structure Windows.Open (w : Windows α τ) (a : α) (t : τ) : Prop where
  opens : w.opens a ≤ t
  closes : (t : WithTop τ) < w.closes a

/-- A resource stays open until it closes. -/
theorem Windows.Open.later {w : Windows α τ} {a : α} {t t' : τ} (h : w.Open a t)
    (ht : t ≤ t') (hclose : (t' : WithTop τ) < w.closes a) : w.Open a t' :=
  ⟨h.opens.trans ht, hclose⟩

variable [DecidableEq α]

/-- The resources `as` serve the times `ts` within the capacities. -/
structure Assigns (w : Windows α τ) (cap : α → Nat) (ts : List τ) (as : List α) :
    Prop where
  uses : List.Forall₂ w.Open as ts
  within : ∀ a, as.count a ≤ cap a

/-- The capacities after one use of a resource. -/
def use (cap : α → Nat) (a : α) : α → Nat :=
  fun b => if b = a then cap b - 1 else cap b

/-- A use takes one unit of the resource it uses. -/
@[simp] theorem use_self (cap : α → Nat) (a : α) : use cap a a = cap a - 1 := by
  simp [use]

/-- A use leaves the other resources alone. -/
theorem use_of_ne (cap : α → Nat) {a b : α} (h : b ≠ a) : use cap a b = cap b := by
  simp [use, h]

/-- Later uses of `a` can be moved to `b`, which closes no earlier: one of
them becomes a use of `b`. -/
theorem exists_moved {w : Windows α τ} {a b : α} {t : τ} {as : List α} {ts : List τ}
    (hab : a ≠ b) (hb : w.Open b t) (hclose : w.closes a ≤ w.closes b)
    (hlater : ∀ t' ∈ ts, t ≤ t') (huses : List.Forall₂ w.Open as ts) (ha : a ∈ as) :
    ∃ bs, List.Forall₂ w.Open bs ts ∧ bs.count a + 1 = as.count a ∧
      bs.count b = as.count b + 1 ∧ ∀ c, c ≠ a → c ≠ b → bs.count c = as.count c := by
  induction huses with
  | nil => cases ha
  | @cons x t' as ts hx huses ih =>
      by_cases hxa : x = a
      · -- this use of `a` is the one that moves
        subst hxa
        have hopen : w.Open b t' :=
          hb.later (hlater t' List.mem_cons_self) (hx.closes.trans_le hclose)
        refine ⟨b :: as, .cons hopen huses, ?_, ?_, ?_⟩
        · simp [hab.symm]
        · simp [hab]
        · intro c hca hcb
          simp [Ne.symm hca, Ne.symm hcb]
      · have hmem : a ∈ as := (List.mem_cons.mp ha).resolve_left fun h => hxa h.symm
        obtain ⟨bs, hbs, hcount, hcount', hothers⟩ :=
          ih (fun t'' ht'' => hlater t'' (List.mem_cons_of_mem _ ht'')) hmem
        refine ⟨x :: bs, .cons hx hbs, ?_, ?_, ?_⟩
        · simp only [List.count_cons]
          omega
        · simp only [List.count_cons]
          omega
        · intro c hca hcb
          simp only [List.count_cons, hothers c hca hcb]

/-- Where times can be assigned, some resource with capacity is open at the
first of them. -/
theorem Assigns.exists_open {w : Windows α τ} {cap : α → Nat} {t : τ} {ts : List τ}
    {as : List α} (h : Assigns w cap (t :: ts) as) : ∃ a, w.Open a t ∧ 0 < cap a := by
  obtain ⟨huses, hwithin⟩ := h
  cases huses with
  | @cons a _ as _ ha _ =>
      refine ⟨a, ha, Nat.lt_of_lt_of_le ?_ (hwithin a)⟩
      simp

/-- The exchange step: the first time may take any open resource with
capacity that closes first. -/
theorem Assigns.take {w : Windows α τ} {cap : α → Nat} {t : τ} {ts : List τ} {as : List α}
    {a : α} (h : Assigns w cap (t :: ts) as) (hlater : ∀ t' ∈ ts, t ≤ t') (hcap : 0 < cap a)
    (hfirst : ∀ b, w.Open b t → 0 < cap b → w.closes a ≤ w.closes b) :
    ∃ bs, Assigns w (use cap a) ts bs := by
  obtain ⟨huses, hwithin⟩ := h
  cases huses with
  | @cons b _ as _ hb huses =>
      have hcapb : 0 < cap b := Nat.lt_of_lt_of_le (by simp) (hwithin b)
      have hrest : ∀ c, as.count c + (if b = c then 1 else 0) ≤ cap c := by
        intro c
        have hc := hwithin c
        rw [List.count_cons] at hc
        simpa using hc
      by_cases hab : a = b
      · -- the assignment itself took `a` first
        subst hab
        refine ⟨as, huses, fun c => ?_⟩
        have hc := hrest c
        by_cases hca : c = a
        · subst hca
          rw [use_self]
          simp only [if_true] at hc
          omega
        · rw [use_of_ne cap hca]
          omega
      · by_cases hspare : as.count a < cap a
        · -- `a` has a use to spare
          refine ⟨as, huses, fun c => ?_⟩
          by_cases hca : c = a
          · subst hca
            rw [use_self]
            omega
          · rw [use_of_ne cap hca]
            have hc := hrest c
            omega
        · -- `a` is used up later: one of these uses moves to `b`
          have hmem : a ∈ as := List.count_pos_iff.mp (by omega)
          obtain ⟨bs, hbs, hcount, hcount', hothers⟩ :=
            exists_moved hab hb (hfirst b hb hcapb) hlater huses hmem
          refine ⟨bs, hbs, fun c => ?_⟩
          have hc := hrest c
          by_cases hca : c = a
          · subst hca
            rw [use_self]
            omega
          · rw [use_of_ne cap hca]
            by_cases hcb : c = b
            · subst hcb
              simp only [if_true] at hc
              omega
            · rw [hothers c hca hcb]
              omega

end FastRep.EarliestClosing
