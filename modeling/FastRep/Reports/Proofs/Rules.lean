/-
The triples of the report side's contract.

A thread knows which request it serves. A run of the worker may commit
at its own sites only (`Allows`); no other request is restricted.

The rules are those of `FastRep.Txn.Proofs.Triple` with this contract put in:
a transaction has to have the effect of its site (`Triple.effect`), a query
leaves what it found as a fact of the trace (`Triple.read`), a call has to be
one that may be made (`Triple.call`). `FoundSince` is the finer form of a read:
the row was found after some event, and the thread has committed nothing
counted since; a run that acts on an unfinished transcription needs it.
-/
import FastRep.Reports.Proofs.Removal
import FastRep.Txn.Proofs.Triple

namespace FastRep.Reports

open FastRep.Txn

/-- What a thread of the report side knows. -/
abbrev Knows (t : Tid) := Known Row Error Site Call Req Res marking t

variable {cfg : Config} {start : RState} {t : Tid} {s : Site} {P : Knows t} {α : Type}

/-- What is known lets the thread commit at the site. -/
def Allows (P : Knows t) (s : Site) : Prop :=
  ∀ S, P.holds S → RunSite S t s

/-- A request of a client or an operator. -/
def Req.ofClient : Req → Bool
  | .process _ _ _ | .heartbeat _ _ _ => false
  | _ => true

/-- A publication is work on the generation. -/
theorem Site.working_finalizeSuccess {g tok : Id} (h : s = .finalizeSuccess g tok) :
    s.working = true := by
  rw [h]
  rfl

/-- A request that is not a run may commit wherever no claim is needed. -/
theorem Allows.of_client {q : Req} (hs : s.working = false) (hq : q.ofClient = true)
    (hP : ∀ S, P.holds S → S.asked t = [q] ∧ (t, q) ∈ S.live) : Allows P s := by
  refine fun S hS => ⟨⟨q, (hP S hS).2⟩, fun g a m hask => ?_, fun g tok deadline hask => ?_,
    fun hw => ?_, fun g tok hw => ?_⟩
  · rw [(hP S hS).1] at hask
    cases hask
    cases hq
  · rw [(hP S hS).1] at hask
    cases hask
    cases hq
  · rw [hs] at hw
    cases hw
  · rw [Site.working_finalizeSuccess hw] at hs
    cases hs

/-- The timer of a run may renew its lease. -/
theorem Allows.of_heartbeat {g tok : Id} {deadline : Time}
    (hP : ∀ S, P.holds S → S.asked t = [.heartbeat g tok deadline] ∧
      (t, .heartbeat g tok deadline) ∈ S.live) : Allows P (.renewLease g tok) := by
  refine fun S hS => ⟨⟨_, (hP S hS).2⟩, fun g' a m hask => ?_, fun g' tok' deadline' hask => ?_,
    fun hw => ?_, fun g' tok' hw => ?_⟩
  · rw [(hP S hS).1] at hask
    cases hask
  · rw [(hP S hS).1] at hask
    cases hask
    rfl
  · cases hw
  · cases hw

/-- A run may commit at those of its own sites that need no claim. -/
theorem Allows.of_run {g tok : Id} (hs : s.ofRun g tok = true) (hw : s.working = false)
    (hP : ∀ S, P.holds S → Serves S t g tok) : Allows P s := by
  intro S hS
  obtain ⟨a, m, hasked, hlive⟩ := (hP S hS).asked
  refine ⟨⟨_, hlive⟩, fun g' a' m' hask => ?_, fun g' tok' deadline hask => ?_, fun hw' => ?_,
    fun g tok hw' => ?_⟩
  · rw [hasked] at hask
    cases hask
    exact ⟨tok, (hP S hS).ids, hs⟩
  · rw [hasked] at hask
    cases hask
  · rw [hw] at hw'
    cases hw'
  · rw [Site.working_finalizeSuccess hw'] at hw
    cases hw

/-- With its claim a run may commit at all of its own sites, and publish
while it has not given up. -/
theorem Allows.of_working {g tok : Id} (hs : s.ofRun g tok = true)
    (hP : ∀ S, P.holds S → Working S t g tok)
    (hpublish : ∀ g tok, s = .finalizeSuccess g tok → ∀ S, P.holds S →
      ∀ s ∈ marks S t, s.schedules = false) : Allows P s := by
  intro S hS
  obtain ⟨a, m, hasked, hlive⟩ := (hP S hS).asked
  refine ⟨⟨_, hlive⟩, fun g' a' m' hask => ?_, fun g' tok' deadline hask => ?_,
    fun _ => ⟨g, tok, hs, hP S hS⟩, fun g tok heq => hpublish g tok heq S hS⟩
  · rw [hasked] at hask
    cases hask
    exact ⟨tok, (hP S hS).ids, hs⟩
  · rw [hasked] at hask
    cases hask

-- ========================================================== transactions

/-- A transaction that commits with the effect of its site. -/
theorem Triple.effect {E : Error → Knows t} {body : InTransaction α}
    (hmark : s.marked = false) (hallow : Allows P s)
    (hbody : ∀ S, P.holds S → TxSafe (contract cfg start) t s
      (fun _ ws S' => Effect cfg t s ws S') body [] S)
    (hfail : ∀ e S, P.holds S → (E e).holds (S.rollback t s e)) :
    Triple (contract cfg start) P (transaction s body) (fun _ => P) E :=
  Triple.transaction (fun S hP _ => hbody S hP)
    (fun _ _ S hP hF => ⟨⟨hF, hallow S hP⟩, P.lasts (Later.commit hmark) hP⟩) hfail

/-- A transaction that is not counted keeps what is known, if it commits with
its effect. -/
theorem Keeps.effect {body : InTransaction α} (hmark : s.marked = false)
    (hallow : Allows P s)
    (hbody : ∀ S, P.holds S → TxSafe (contract cfg start) t s
      (fun _ ws S' => Effect cfg t s ws S') body [] S) :
    Keeps (contract cfg start) P (transaction s body) :=
  Triple.effect hmark hallow hbody fun _ _ hP => P.lasts Later.rollback hP

/-- The thread found a row at a statement. -/
def Found (P : Knows t) (s : Site) (p : Db Row → Prop) : Knows t :=
  .entry fun e => e.tid = t ∧ e.event = .statement s ∧ p e.before.db ∧
    ∀ q, (∀ S, P.holds S → (t, q) ∈ S.live) → (t, q) ∈ e.before.live

/-- Nothing a thread commits without losing what it knows is counted. -/
theorem Uncounted.of_later {S S' : RState} (h : Later marking t S S') {newer : List REntry}
    (htr : S'.trace = newer ++ S.trace) : Uncounted t newer := by
  intro e he ht s ws hev
  by_contra hmark
  rw [Bool.not_eq_false] at hmark
  have hmarks := h.marks
  unfold Shared.marks Shared.committedBy at hmarks
  rw [htr, List.filterMap_append, List.filter_append] at hmarks
  have hnone := List.filter_eq_nil_iff.mp (List.append_left_eq_self.mp hmarks)
  refine hnone s (List.mem_filterMap.mpr ⟨e, he, ?_⟩) hmark
  rw [hev]
  exact if_pos ht

/-- Stretches without a counted event in a row. -/
theorem Uncounted.append {newer more : List REntry} (h : Uncounted t newer)
    (h' : Uncounted t more) : Uncounted t (more ++ newer) := by
  intro e he ht s ws hev
  rcases List.mem_append.mp he with he | he
  · exact h' e he ht s ws hev
  · exact h e he ht s ws hev

/-- The thread found a row at a statement, knowing what it knew, and has
committed nothing counted since. -/
def FoundSince (P : Knows t) (s : Site) (p : Db Row → Prop) : Knows t where
  holds := fun S => ∃ newer S₀, S.trace = newer ++ ⟨t, .statement s, S₀.toScene⟩ :: S₀.trace ∧
    P.holds S₀ ∧ p S₀.db ∧ Uncounted t newer
  lasts := fun h ⟨newer, S₀, htr, hP, hp, hquiet⟩ => by
    obtain ⟨more, hmore⟩ := h.trace
    refine ⟨more ++ newer, S₀, ?_, hP, hp, hquiet.append (Uncounted.of_later h hmore.symm)⟩
    rw [← hmore, htr, List.append_assoc]

/-- What was found since some event was found. -/
theorem FoundSince.found {p : Db Row → Prop} {S : RState} (h : (FoundSince P s p).holds S) :
    (Found P s p).holds S := by
  obtain ⟨newer, S₀, htr, hP, hp, -⟩ := h
  refine ⟨⟨t, .statement s, S₀.toScene⟩, ?_, rfl, rfl, hp, fun q hq => hq S₀ hP⟩
  rw [htr]
  exact List.mem_append_right _ List.mem_cons_self

/-- A transaction that only reads: what it returns was found at a
statement. -/
theorem Triple.readsSince {f : Db Row → Reply Row Error α} {p : α → Db Row → Prop}
    {E : Error → Knows t} (hmark : s.marked = false) (hallow : Allows P s)
    (heffect : ∀ S, Effect cfg t s [] S)
    (hf : ∀ d a ws, (f d).answer = .ok (a, ws) → ws = [] ∧ p a d)
    (hfail : ∀ e S, P.holds S → (E e).holds (S.rollback t s e)) :
    Triple (contract cfg start) P (transaction s (.stmt f .pure))
      (fun a => P.and (FoundSince P s (p a))) E := by
  refine Triple.transaction (F := fun b ws S => ws = [] ∧ (FoundSince P s (p b)).holds S)
    (fun S hP _ => ?_) ?_ hfail
  · intro S₁ hS₁ b ws' ha _ hl S₂ hS₂
    obtain ⟨rfl, hp⟩ := hf _ b ws' ha
    refine ⟨rfl, (FoundSince P s (p b)).lasts hS₂.later ?_⟩
    exact ⟨[], S₁, rfl, P.lasts hS₁.later hP, hp, fun _ h => by cases h⟩
  · rintro b ws S hP ⟨rfl, hfound⟩
    exact ⟨⟨heffect S, hallow S hP⟩, P.lasts (Later.commit hmark) hP,
      (FoundSince P s (p b)).lasts (Later.commit hmark) hfound⟩

/-- A transaction of one read: what it finds is known afterwards. -/
theorem Triple.reads {f : Db Row → Reply Row Error α} {p : α → Db Row → Prop}
    {E : Error → Knows t} (hmark : s.marked = false) (hallow : Allows P s)
    (heffect : ∀ S, Effect cfg t s [] S)
    (hf : ∀ d a ws, (f d).answer = .ok (a, ws) → ws = [] ∧ p a d)
    (hfail : ∀ e S, P.holds S → (E e).holds (S.rollback t s e)) :
    Triple (contract cfg start) P (transaction s (.stmt f .pure))
      (fun a => P.and (Found P s (p a))) E :=
  (Triple.readsSince hmark hallow heffect hf hfail).conseq (fun _ h => h)
    (fun _ _ h => ⟨h.1, FoundSince.found h.2⟩) fun _ _ h => h

/-- A query: what it returns was found at a statement of the thread. -/
theorem Triple.read {f : Db Row → α} {E : Error → Knows t} (hmark : s.marked = false)
    (hallow : Allows P s) (heffect : ∀ S, Effect cfg t s [] S)
    (hfail : ∀ e S, P.holds S → (E e).holds (S.rollback t s e)) :
    Triple (contract cfg start) P (query s f)
      (fun a => P.and (Found P s fun d => f d = a)) E :=
  Triple.reads hmark hallow heffect
    (fun _ _ _ ha => by cases ha; exact ⟨rfl, rfl⟩) hfail

/-- A query that must find a row. -/
theorem Triple.readOrThrow {f : Db Row → Option α} {E : Error → Knows t}
    (hmark : s.marked = false) (hallow : Allows P s)
    (heffect : ∀ S, Effect cfg t s [] S)
    (hfail : ∀ e S, P.holds S → (E e).holds (S.rollback t s e)) :
    Triple (contract cfg start) P (transaction s (selectOrThrow f))
      (fun a => P.and (Found P s fun d => f d = some a)) E := by
  refine Triple.reads hmark hallow heffect (fun d a ws ha => ?_) hfail
  simp only at ha
  split at ha
  next c hc =>
      cases ha
      exact ⟨rfl, hc⟩
  next => cases ha

theorem Keeps.read {f : Db Row → α} (hmark : s.marked = false)
    (hallow : Allows P s) (heffect : ∀ S, Effect cfg t s [] S) :
    Keeps (contract cfg start) P (query s f) :=
  (Triple.read hmark hallow heffect fun _ _ hP => P.lasts Later.rollback hP).conseq
    (fun _ hP => hP) (fun _ _ hQ => hQ.1) fun _ _ hE => hE

/-- An error forgets what was known in addition. -/
theorem Triple.forget {C : RContract} {K : Knows t} {p : Async α} {Q : α → Knows t}
    (h : Triple C (P.and K) p Q (fun _ => P.and K)) :
    Triple C (P.and K) p Q (fun _ => P) :=
  h.conseq (fun _ hP => hP) (fun _ _ hQ => hQ) fun _ _ hE => hE.1

/-- A call of the thread was answered with a value. -/
def Answered (P : Knows t) (x : Call) (a : x.Value) : Knows t :=
  .entry fun e => e.tid = t ∧
    (∃ c env, e.event = .call x c ∧
      Services.perform x c e.before.clock e.before.env = some (Except.ok a, env)) ∧
    ∀ q, (∀ S, P.holds S → (t, q) ∈ S.live) → (t, q) ∈ e.before.live

/-- A call that may be made. -/
theorem Triple.call {x : Call} (h : ∀ S, P.holds S → CallOk t x S) :
    Triple (contract cfg start) P (awaitOk x) (fun a => P.and (Answered P x a))
      (fun _ => P) := by
  refine Triple.bind (R := fun r => P.and (match (r : Except Error x.Value) with
    | .ok a => Answered P x a
    | .error _ => .top)) (Triple.await fun S c r env _ hP hperform => ?_) fun r => ?_
  · refine ⟨h S hP, P.lasts Later.answered hP, ?_⟩
    cases r with
    | ok a =>
        exact ⟨⟨t, .call x c, S.toScene⟩, List.mem_cons_self, rfl, ⟨c, env, rfl, hperform⟩,
          fun q hq => hq S hP⟩
    | error _ => trivial
  · refine Triple.settle (fun a S he hS => ?_) fun e S he hS => hS.1
    subst he
    exact hS

theorem Keeps.call {x : Call} (h : ∀ S, P.holds S → CallOk t x S) :
    Keeps (contract cfg start) P (awaitOk x) :=
  (Triple.call h).conseq (fun _ hP => hP) (fun _ _ hQ => hQ.1) fun _ _ hE => hE

end FastRep.Reports
