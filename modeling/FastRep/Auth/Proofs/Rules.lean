/-
The triples of the authentication side's contract.

A request is a straight line of reads, one test, one counted commit and
one mail, so what its thread knows has one shape: the request it serves,
what it drew and counted so far, and the entries of the trace it will need
(`Standing`). Each rule moves this record by one step of a program.

A read adds an entry in which the thread saw a database (`Triple.query`), a
test adds one that says what was compared (`Triple.verifyHash`), a counted
transaction adds its commit (`Triple.marks`, `Triple.attempts`). Entries stay,
so nothing has to be said again when others move. At the end `Ended` says
what was counted, and the contract reads the success off it.
-/
import FastRep.Auth.Proofs.Lookups
import FastRep.Txn.Proofs.Triple

namespace FastRep.Auth

open FastRep.Txn

/-- What a thread of the authentication side knows. -/
abbrev Knows (t : Tid) := Known Row Error Site Call Req Res marking t

/-- How far a request has come: it read the clock at `now`, drew the ids
and counted the commits and steps of the lists. -/
structure Standing (t : Tid) (q : Req) (now : Time) (ns : List Id) (ss es : List Site)
    (fs : List (AEntry → Prop)) (S : AState) : Prop where
  asked : S.asked t = [q]
  live : (t, q) ∈ S.live
  ids : S.ids t = ns
  marks : marks S t = ss
  named : named S t = es
  clock : now ≤ S.clock
  facts : ∀ i ∈ fs, ∃ e ∈ S.trace, i e

def At {t : Tid} (q : Req) (now : Time) (ns : List Id) (ss es : List Site)
    (fs : List (AEntry → Prop)) : Knows t where
  holds := Standing t q now ns ss es fs
  lasts := fun h hS => ⟨h.asked.trans hS.asked, h.live q hS.live, h.ids.trans hS.ids,
    h.marks.trans hS.marks, h.entered.trans hS.named, Nat.le_trans hS.clock h.clock, fun i hi => by
      obtain ⟨e, he, hp⟩ := hS.facts i hi
      exact ⟨e, h.trace.subset he, hp⟩⟩

/-- How a request ends: what its counted commits are. -/
def Ended {t : Tid} (q : Req) (p : List Site → Prop) : Knows t where
  holds := fun S => S.asked t = [q] ∧ p (marks S t)
  lasts := fun h hS => ⟨h.asked.trans hS.1, (congrArg p h.marks).mpr hS.2⟩

/-- A request that ends in any way. -/
abbrev Served (t : Tid) (q : Req) : Knows t := Ended q fun _ => True

/-- An entry in which the thread saw a database, at a statement of the site. -/
def Seeing (t : Tid) (s : Site) (p : Db Row → Prop) (e : AEntry) : Prop :=
  e.tid = t ∧ e.event = .statement s ∧ p e.before.db

/-- An entry in which the thread took a named step. -/
def Entering (t : Tid) (s : Site) (e : AEntry) : Prop := e.tid = t ∧ e.event = .enter s

/-- An entry in which the thread gave a pending registration its code. -/
def Issuing (t : Tid) (pendingId : Id) (codeHash : Hash) (e : AEntry) : Prop :=
  e.tid = t ∧ ∃ s ws, e.event = .commit s ws ∧ s.marked = true ∧ Issues pendingId codeHash ws

/-- An entry in which the thread created a reset request. -/
def IssuingReset (t : Tid) (requestId : Id) (e : AEntry) : Prop :=
  e.tid = t ∧ ∃ u ws y, e.event = .commit (.forgotPassword u) ws ∧
    .insert (.reset y) ∈ ws ∧ y.id = requestId

variable {cfg : Config} {start : AState} {t : Tid} {s : Site} {q : Req} {now : Time} {ns : List Id}
  {ss es : List Site} {fs : List (AEntry → Prop)} {α β : Type} {S S' : AState}

/-- What a thread has committed is known when it ends. -/
theorem Standing.ended {p : List Site → Prop} (h : Standing t q now ns ss es fs S) (hp : p ss) :
    (Ended q p : Knows t).holds S :=
  ⟨h.asked, (congrArg p h.marks).mpr hp⟩

/-- What a query has found is known for as long as the thread runs. -/
theorem Standing.saw {p p' : Db Row → Prop} (h : Standing t q now ns ss es fs S)
    (hmem : Seeing t s p ∈ fs) (hp : ∀ d, p d → p' d) : Saw S t p' := by
  obtain ⟨e, he, ht, -, hd⟩ := h.facts _ hmem
  exact ⟨e, he, ht, hp _ hd⟩

/-- So is the statement that has found it. -/
theorem Standing.looked {p p' : Db Row → Prop} (h : Standing t q now ns ss es fs S)
    (hmem : Seeing t s p ∈ fs) (hp : ∀ d, p d → p' d) : Looked S t s p' := by
  obtain ⟨e, he, ht, hev, hd⟩ := h.facts _ hmem
  exact ⟨e, he, ht, hev, hp _ hd⟩

/-- An event of the thread adds a fact about it. -/
theorem Standing.log {ev : Event Row Error Site Call Req Res}
    {S' : AState} (h : Standing t q now ns ss es fs S) (hl : Later marking t S S')
    (htr : S'.trace = ⟨t, ev, S.toScene⟩ :: S.trace) {i : AEntry → Prop}
    (hi : i ⟨t, ev, S.toScene⟩) : Standing t q now ns ss es (i :: fs) S' := by
  refine ⟨hl.asked.trans h.asked, hl.live q h.live, hl.ids.trans h.ids,
    hl.marks.trans h.marks, hl.entered.trans h.named, Nat.le_trans h.clock hl.clock, fun j hj => ?_⟩
  rcases List.mem_cons.mp hj with rfl | hj
  · exact ⟨_, htr ▸ List.mem_cons_self, hi⟩
  · obtain ⟨e, he, hp⟩ := h.facts j hj
    exact ⟨e, hl.trace.subset he, hp⟩

/-- Entries may be forgotten. -/
theorem Standing.subset {gs : List (AEntry → Prop)} (h : Standing t q now ns ss es fs S)
    (hgs : ∀ i ∈ gs, i ∈ fs) : Standing t q now ns ss es gs S :=
  { h with facts := fun i hi => h.facts i (hgs i hi) }

/-- A thread commits for the request it serves. -/
theorem Standing.ownSite (h : Standing t q now ns ss es fs S) (hs : s.servedBy q = true) :
    OwnSite S t s :=
  ⟨q, h.asked, h.live, hs⟩

-- ============================================================ one step

section Steps

variable {Q : α → Knows t} {E : Error → Knows t}

/-- The clock that is read last is remembered. -/
theorem Triple.reading {R : Nat → Knows t}
    (hR : ∀ n S, (At q n ns ss es fs : Knows t).holds S → (R n).holds S) :
    Triple (contract cfg start) (At q now ns ss es fs) Prog.clock R E :=
  Triple.readsClock fun S hS => hR S.clock S { hS with clock := Nat.le_refl _ }

theorem Triple.drawn {R : Nat → Knows t}
    (hR : ∀ n S, (At q now (n :: ns) ss es fs : Knows t).holds S → (R n).holds S) :
    Triple (contract cfg start) (At q now ns ss es fs) randomUUID R E :=
  Triple.randomUUID fun S _ hS => hR S.nextId _ ⟨by simpa [Shared.asked, Shared.drawn, Shared.log] using hS.asked,
    hS.live, by simpa [Shared.ids, Shared.drawn, Shared.log] using hS.ids,
    by simpa [Shared.marks, Shared.committedBy, Shared.drawn, Shared.log] using hS.marks,
    by simpa [Shared.entered, Shared.enteredBy, Shared.drawn, Shared.log] using hS.named,
    hS.clock,    fun i hi => by
      obtain ⟨e, he, hp⟩ := hS.facts i hi
      exact ⟨e, List.mem_cons_of_mem _ he, hp⟩⟩

/-- A hash takes a salt. -/
theorem Triple.hash {v : Secret} {f : Hash → Async α}
    (h : ∀ salt, Triple (contract cfg start) (At q now (salt :: ns) ss es fs) (f ⟨salt, v⟩) Q E) :
    Triple (contract cfg start) (At q now ns ss es fs) (hash v >>= f) Q E :=
  Triple.bind (p := randomUUID) (R := fun n => At q now (n :: ns) ss es fs)
    (Triple.drawn fun _ _ hS => hS) h

/-- A named step: the entry that took it is remembered. -/
theorem Triple.names {p : Async α} (hs : s.named = true)
    (henter : ∀ S, (At q now ns ss es fs : Knows t).holds S → Enters cfg t s S)
    (h : Triple (contract cfg start) (At q now ns ss (s :: es) (Entering t s :: fs)) p Q E) :
    Triple (contract cfg start) (At q now ns ss es fs) (.enter s p) Q E := by
  refine Triple.enter henter (fun S hS => ?_) h
  refine ⟨by simpa [Shared.asked, Shared.log] using hS.asked, hS.live,
    by simpa [Shared.ids, Shared.log] using hS.ids,
    by simpa [Shared.marks, Shared.committedBy, Shared.log] using hS.marks, ?_, hS.clock,
    fun i hi => ?_⟩
  · have hnamed : S.entered marking t = es := hS.named
    show (S.log t (.enter s)).entered marking t = s :: es
    rw [← hnamed]
    simp [Shared.entered, Shared.enteredBy, Shared.log, show marking.enters s = true from hs]
  · rcases List.mem_cons.mp hi with rfl | hi
    · exact ⟨_, List.mem_cons_self, rfl, rfl⟩
    · obtain ⟨e, he, hp⟩ := hS.facts i hi
      exact ⟨e, List.mem_cons_of_mem _ he, hp⟩

/-- A test goes on with its outcome. -/
theorem Triple.verifyHash {site : Bool → Site} {stored : Hash} {v : Secret} {f : Bool → Async α}
    (hs : (site (stored.accepts v)).named = true)
    (henter : ∀ S, (At q now ns ss es fs : Knows t).holds S →
      Enters cfg t (site (stored.accepts v)) S)
    (h : Triple (contract cfg start)
      (At q now ns ss (site (stored.accepts v) :: es) (Entering t (site (stored.accepts v)) :: fs))
      (f (stored.accepts v)) Q E) :
    Triple (contract cfg start) (At q now ns ss es fs) (verifyHash site stored v >>= f) Q E :=
  Triple.names (p := f (stored.accepts v)) hs henter h

/-- A call of the outside changes nothing that is known. -/
theorem Triple.calls {x : Call} (hE : ∀ e S, Standing t q now ns ss es fs S → (E e).holds S) :
    Triple (contract cfg start) (At q now ns ss es fs) (awaitOk x)
      (fun _ => At q now ns ss es fs) E := by
  refine Triple.bind (R := fun _ => At q now ns ss es fs)
    (Triple.await fun S c r env _ hP _ => ⟨trivial, (At q now ns ss es fs).lasts Later.answered hP⟩)
    fun r => Triple.settle (fun _ _ _ hS => hS) fun e S _ hS => hE e S hS

theorem Triple.generateSixDigitCode
    (hE : ∀ e S, Standing t q now ns ss es fs S → (E e).holds S) :
    Triple (contract cfg start) (At q now ns ss es fs) generateSixDigitCode
      (fun _ => At q now ns ss es fs) E :=
  Triple.bind (Triple.calls hE) fun _ => Triple.pure fun _ hS => hS

end Steps

-- ========================================================== transactions

/-- A committed database the thread saw at a statement of the transaction
it is in. -/
theorem SawInside.of_within {p : Db Row → Prop} {ls : List (Lock Key Index)}
    (hopen : S.toScene.OpenAt t s 0) (hp : p S.db)
    (hW : Within (contract cfg start) t s (S.ran t s ls) S') : SawInside S' t s p := by
  obtain ⟨-, newer, htr, hall⟩ := hW.split hopen.ran
  exact ⟨newer, ⟨t, .statement s, S.toScene⟩, S.trace, htr, rfl, rfl, hp, hall⟩

/-- Deleting a row that nothing references. -/
theorem TxSafe.deleteSingle {F : β → List (Write Row Key) → AState → Prop}
    {ws : List (Write Row Key)} {k : Key} {p : Row → Bool} {g : Nat → InTransaction β}
    (hk : ∀ u, k ≠ .user u)
    (h₀ : ∀ S', Sees (contract cfg start) t S S' →
      TxSafe (contract cfg start) t s F (g 0) ws (S'.ran t s []))
    (h₁ : ∀ S' r, Sees (contract cfg start) t S S' →
      Within (contract cfg start) t s S (S'.ran t s (Write.erase k : Write Row Key).locks) →
      (applyAll ws S'.db).find? k = some r → p r = true →
      TxSafe (contract cfg start) t s F (g 1) (ws ++ [.erase k])
        (S'.ran t s (Write.erase k : Write Row Key).locks)) :
    TxSafe (contract cfg start) t s F (deleteRow k p >>= g) ws S := by
  refine TxSafe.deleteRow (fun S' hS _ _ => h₀ S' hS) fun S' r hS hW hr hp => ?_
  rw [deletion_single hk hr, List.flatMap_singleton] at hW ⊢
  exact h₁ S' r hS hW hr hp

section Transactions

variable {E : Error → Knows t} {body : InTransaction β}

/-- A counted transaction: what its commit entry satisfies is remembered. -/
theorem Triple.marks (gs : β → List (AEntry → Prop)) (hs : s.marked = true)
    (hown : s.servedBy q = true)
    (hbody : ∀ S, Standing t q now ns ss es fs S → S.toScene.OpenAt t s 0 →
      TxSafe (contract cfg start) t s (fun b ws S' => Standing t q now ns ss es fs S' →
        Effect cfg t s ws S' ∧ ∀ i ∈ gs b, i ⟨t, .commit s ws, S'.toScene⟩) body [] S)
    (hE : ∀ e S, Standing t q now ns ss es fs S → (E e).holds S) :
    Triple (contract cfg start) (At q now ns ss es fs) (transaction s body)
      (fun b => At q now ns (s :: ss) es (gs b ++ fs)) E := by
  refine Triple.transaction hbody (fun b ws S hP hF => ?_) fun e S hP =>
    hE e _ ((At q now ns ss es fs).lasts Later.rollback hP)
  obtain ⟨heffect, hgs⟩ := hF hP
  refine ⟨⟨heffect, Standing.ownSite hP hown⟩, ?_⟩
  obtain ⟨hasked, hlive⟩ : (Known.serving q : Knows t).holds (S.commit t s ws) :=
    Known.serving_commit ⟨hP.asked, hP.live⟩
  refine ⟨hasked, hlive, Shared.ids_commit.trans hP.ids, ?_,
    Shared.entered_commit.trans hP.named, hP.clock, fun i hi => ?_⟩
  · exact (Shared.marks_commit hs).trans (congrArg (s :: ·) hP.marks)
  · rcases List.mem_append.mp hi with hi | hi
    · exact ⟨_, List.mem_cons_self, hgs i hi⟩
    · obtain ⟨e, he, hp⟩ := hP.facts i hi
      exact ⟨e, List.mem_cons_of_mem _ he, hp⟩

/-- A counted transaction whose error is handled. -/
theorem Triple.attempts {Q : α → Knows t} {f : Except Error β → Async α}
    (gs : β → List (AEntry → Prop)) (hs : s.marked = true) (hown : s.servedBy q = true)
    (hbody : ∀ S, Standing t q now ns ss es fs S → S.toScene.OpenAt t s 0 →
      TxSafe (contract cfg start) t s (fun b ws S' => Standing t q now ns ss es fs S' →
        Effect cfg t s ws S' ∧ ∀ i ∈ gs b, i ⟨t, .commit s ws, S'.toScene⟩) body [] S)
    (hok : ∀ b, Triple (contract cfg start) (At q now ns (s :: ss) es (gs b ++ fs))
      (f (.ok b)) Q E)
    (herror : ∀ e, Triple (contract cfg start) (At q now ns ss es fs) (f (.error e)) Q E) :
    Triple (contract cfg start) (At q now ns ss es fs) ((transaction s body).attempt >>= f)
      Q E := by
  refine Triple.bind (R := fun r => match r with
    | .ok b => At q now ns (s :: ss) es (gs b ++ fs)
    | .error _ => At q now ns ss es fs)
    (Triple.attempt (Triple.marks gs hs hown hbody fun _ _ hS => hS)) fun r => ?_
  cases r with
  | ok b => exact hok b
  | error e => exact herror e

/-- A transaction that is not counted. -/
theorem Triple.commits (hs : s.marked = false) (hown : s.servedBy q = true)
    (hbody : ∀ S, Standing t q now ns ss es fs S → S.toScene.OpenAt t s 0 →
      TxSafe (contract cfg start) t s (fun _ ws S' => Standing t q now ns ss es fs S' →
        Effect cfg t s ws S') body [] S)
    (hE : ∀ e S, Standing t q now ns ss es fs S → (E e).holds S) :
    Triple (contract cfg start) (At q now ns ss es fs) (transaction s body)
      (fun _ => At q now ns ss es fs) E :=
  Triple.transaction hbody
    (fun _ _ _ hP hF => ⟨⟨hF hP, Standing.ownSite hP hown⟩,
      (At q now ns ss es fs).lasts (Later.commit hs) hP⟩)
    fun e _ hP => hE e _ ((At q now ns ss es fs).lasts Later.rollback hP)

/-- A query: what it returns was seen. -/
theorem Triple.query {f : Db Row → β} (hs : s.marked = false) (hown : s.servedBy q = true)
    (heffect : ∀ S, Effect cfg t s [] S)
    (hE : ∀ e S, Standing t q now ns ss es fs S → (E e).holds S) :
    Triple (contract cfg start) (At q now ns ss es fs) (query s f)
      (fun a => At q now ns ss es (Seeing t s (fun d => f d = a) :: fs)) E := by
  refine Triple.transaction (F := fun b ws S => ws = [] ∧
      Standing t q now ns ss es (Seeing t s (fun d => f d = b) :: fs) S)
    (fun S hP _ => ?_) ?_ fun e S hP => hE e _ ((At q now ns ss es fs).lasts Later.rollback hP)
  · intro S₁ hS₁ b ws ha _ hl S₂ hS₂
    cases ha
    have hP₁ : Standing t q now ns ss es fs S₁ := (At q now ns ss es fs).lasts hS₁.later hP
    have hran : Later marking t S₁ (S₁.ran t s []) :=
      (Within.ran (C := contract cfg start) (by simp)).later
    refine ⟨rfl, (At q now ns ss es _).lasts hS₂.later (hP₁.log hran rfl ⟨rfl, rfl, rfl⟩)⟩
  · rintro b ws S hP ⟨rfl, hS⟩
    exact ⟨⟨heffect S, Standing.ownSite hP hown⟩, (At q now ns ss es _).lasts (Later.commit hs) hS⟩

end Transactions

end FastRep.Auth
