/-
Triples for requests: what a thread knows before a program, after its
return and after its throw.

# What lasts

A thread may rely only on what no other thread and none of its own
ordinary steps can take away. `Known` is such a fact with the proof that it
lasts. It may speak of

- the request the thread serves and still serves (`Known.serving`);
- the ids the thread drew and its commits at marked sites (`Known.drew`);
- what is in the trace (`Known.entry`), which only grows;
- plain facts about no state (`Known.prop`).

Drawing an id and a marked commit or entry are the steps that change what is
known; their rules ask for the new fact.

# What a triple says

`Triple C P p Q E` is safety of the program `p` wherever `P` is known, with
`Q` known of its value and `E` of its error. Its rules never mention the
moves of other threads: `Known.lasts` took care of them. A transaction is
where a triple goes down to the statements, since there the thread counts on
locks and not only on what lasts.
-/
import FastRep.Txn.Contract

namespace FastRep.Txn

variable {Row Key Index ε Site Call Choice Env Req Res : Type}
  [DecidableEq Key] [DecidableEq Index] [Schema Row Key Index]
  [Services Call Choice Env]

/-- Which commits and function entries of a thread count. -/
structure Marking (Site : Type) where
  commits : Site → Bool
  enters : Site → Bool

/-- The marked sites a thread committed at, last first. -/
def Shared.marks (mark : Marking Site) (S : Shared Row ε Site Call Req Res)
    (t : Tid) : List Site :=
  (S.committedBy t).filter mark.commits

/-- The marked functions a thread entered, last first. -/
def Shared.entered (mark : Marking Site) (S : Shared Row ε Site Call Req Res)
    (t : Tid) : List Site :=
  (S.enteredBy t).filter mark.enters

/-- A later state, as a thread sees it that has drawn no id, served no new
request, and committed or entered nothing marked in between. -/
structure Later (mark : Marking Site) (t : Tid)
    (S S' : Shared Row ε Site Call Req Res) : Prop where
  ids : S'.ids t = S.ids t
  asked : S'.asked t = S.asked t
  marks : S'.marks mark t = S.marks mark t
  entered : S'.entered mark t = S.entered mark t
  live : ∀ q, (t, q) ∈ S.live → (t, q) ∈ S'.live
  trace : S.trace <:+ S'.trace
  clock : S.clock ≤ S'.clock

/-- A fact that lasts. -/
structure Known (Row ε Site Call Req Res : Type) {Key Index Choice Env : Type}
    [Schema Row Key Index] [Services Call Choice Env] (mark : Marking Site)
    (t : Tid) where
  holds : Shared Row ε Site Call Req Res → Prop
  lasts : ∀ {S S' : Shared Row ε Site Call Req Res},
    Later mark t S S' → holds S → holds S'

variable {mark : Marking Site} {t : Tid}

/-- Nothing is known. -/
def Known.top : Known Row ε Site Call Req Res mark t where
  holds := fun _ => True
  lasts := fun _ h => h

/-- A fact about no state. -/
def Known.prop (p : Prop) : Known Row ε Site Call Req Res mark t where
  holds := fun _ => p
  lasts := fun _ h => h

/-- Two facts. -/
def Known.and (K L : Known Row ε Site Call Req Res mark t) :
    Known Row ε Site Call Req Res mark t where
  holds := fun S => K.holds S ∧ L.holds S
  lasts := fun h hS => ⟨K.lasts h hS.1, L.lasts h hS.2⟩

/-- The request the thread serves. -/
def Known.serving (q : Req) : Known Row ε Site Call Req Res mark t where
  holds := fun S => S.asked t = [q] ∧ (t, q) ∈ S.live
  lasts := fun h hS => ⟨h.asked.trans hS.1, h.live q hS.2⟩

/-- The ids the thread drew and its commits at marked sites. -/
def Known.drew (ns : List Nat) (ss : List Site) :
    Known Row ε Site Call Req Res mark t where
  holds := fun S => S.ids t = ns ∧ S.marks mark t = ss
  lasts := fun h hS => ⟨h.ids.trans hS.1, h.marks.trans hS.2⟩

/-- An entry of the trace. -/
def Known.entry (p : Entry Row ε Site Call Req Res → Prop) :
    Known Row ε Site Call Req Res mark t where
  holds := fun S => ∃ e ∈ S.trace, p e
  lasts := fun h hS => by
    obtain ⟨e, he, hp⟩ := hS
    exact ⟨e, h.trace.subset he, hp⟩

/-- From what is known before, a program keeps the contract, returns in `Q`
and throws in `E`. -/
structure Triple (C : Contract Row ε Site Call Req Res) {α : Type}
    (P : Known Row ε Site Call Req Res mark t) (p : Prog Row ε Site Call α)
    (Q : α → Known Row ε Site Call Req Res mark t)
    (E : ε → Known Row ε Site Call Req Res mark t) : Prop where
  safe : ∀ S, P.holds S →
    ProgSafe C t (fun a => (Q a).holds) (fun e => (E e).holds) p S

/-- A program that keeps the contract and what is known. -/
def Keeps (C : Contract Row ε Site Call Req Res) {α : Type}
    (P : Known Row ε Site Call Req Res mark t) (p : Prog Row ε Site Call α) :
    Prop :=
  Triple C P p (fun _ => P) (fun _ => P)

end FastRep.Txn
