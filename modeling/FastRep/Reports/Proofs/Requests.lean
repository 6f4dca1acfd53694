/-
Every request keeps the contract of the report side.

A thread is spawned with nothing done, so its program starts with no id
drawn, no counted commit and no counted entry (`Fresh`, `Unmetered`). Each
request is then a triple of the modules before; what is left is that it
ends as the contract says.

A client's request may end in anything but a generation it has not seen
(`Finishes.of_client`, `Answering.finishes`). A run ends with its result
explained and its objects accounted for (`Finishes.of_run`). `main_safe` has a
case for each request, in the order of `Req`.
-/
import FastRep.Reports.Proofs.Duplicating
import FastRep.Reports.Proofs.Publishing
import FastRep.Reports.Proofs.Uploading
import FastRep.Txn.Proofs.Soundness

namespace FastRep.Reports

open FastRep.Txn

variable {cfg : Config} {start : RState} {t : Tid} {S : RState} {q : Req}

-- ================================================================ endings

/-- What a client's request may end with: a generation it can answer
with, anything else freely. -/
theorem Finishes.of_client {r : Except Error Res} (hq : ∀ g a m, q ≠ .process g a m)
    (hasked : S.asked t = [q])
    (hanswer : ∀ userId reportId idempotencyKey x, r = .ok (.generation x) →
      (q = .createGeneration userId reportId idempotencyKey ∨
        ∃ g, q = .retryGeneration userId reportId g idempotencyKey) →
      Answers t userId reportId idempotencyKey x.id S) : Finishes t r S := by
  refine ⟨?_, fun ⟨g, a, m, h⟩ => ?_⟩
  · rw [hasked]
    split
    next h => cases h; exact absurd rfl (hq _ _ _)
    next h => cases h; exact absurd rfl (hq _ _ _)
    next h => cases h; exact hanswer _ _ _ _ rfl (Or.inl rfl)
    next h => cases h; exact hanswer _ _ _ _ rfl (Or.inr ⟨_, rfl⟩)
    next => trivial
  · rw [hasked] at h
    cases h
    exact absurd rfl (hq g a m)

/-- An error ends a client's request freely. -/
theorem Finishes.error {e : Error} (hq : ∀ g a m, q ≠ .process g a m) (hasked : S.asked t = [q]) :
    Finishes t (.error e) S :=
  Finishes.of_client hq hasked fun _ _ _ _ h => by cases h

/-- A program of a client's request, with a result other than a
generation. -/
theorem Triple.finishes {α : Type} {p : Async α} {f : α → Res} {P : Knows t}
    {Q : α → Knows t} (hq : ∀ g a m, q ≠ .process g a m) (h : Triple (contract cfg start) P p Q
      (fun _ => Known.serving q))
    (hQ : ∀ a S, (Q a).holds S → Finishes t (.ok (f a)) S) (hP : P.holds S) :
    ProgSafe (contract cfg start) t (fun a S' => Finishes t (.ok a) S')
      (fun e S' => Finishes t (.error e) S') (p >>= fun a => pure (f a)) S :=
  ((h.safe S hP).mono (fun _ _ hQ => hQ) fun _ _ hE => Finishes.error hq hE.1).bind
    fun a _ hS₁ => ProgSafe.pure fun S₂ hS₂ => hQ a S₂ ((Q a).lasts hS₂.later hS₁)

/-- A request whose program keeps what it serves. -/
theorem Keeps.finishes {α : Type} {p : Async α} {f : α → Res} (hq : ∀ g a m, q ≠ .process g a m)
    (h : Triple (contract cfg start) (Fresh q : Knows t) p (fun _ => Known.serving q)
      (fun _ => Known.serving q))
    (hf : (∀ a x, f a ≠ .generation x) ∨ ∃ u r g, q = .cancelGeneration u r g) (hP : (Fresh q : Knows t).holds S) :
    ProgSafe (contract cfg start) t (fun a S' => Finishes t (.ok a) S')
      (fun e S' => Finishes t (.error e) S') (p >>= fun a => pure (f a)) S := by
  refine Triple.finishes hq h (fun a S hS => Finishes.of_client hq hS.1 ?_) hP
  intro u r k x hx hreq
  cases hx' : f a with
  | generation y =>
      rcases hf with hf | hf
      · exact absurd hx' (hf a y)
      · obtain ⟨_, _, _, rfl⟩ := hf
        rcases hreq with hreq | ⟨g, hreq⟩
        · cases hreq
        · cases hreq
  | _ =>
      rw [hx'] at hx
      cases hx

/-- A start or retry ends with its answer. -/
theorem Answering.finishes {userId reportId : Id} {idempotencyKey : String} {x : PublicGeneration}
    (hreq : q = .createGeneration userId reportId idempotencyKey ∨
      ∃ g, q = .retryGeneration userId reportId g idempotencyKey)
    (h : (Answering (t := t) q userId reportId idempotencyKey x.id).holds S) :
    Finishes t (.ok (.generation x)) S := by
  refine Finishes.of_client (q := q) ?_ h.1.1 fun u r k y hy hreq' => ?_
  · rcases hreq with rfl | ⟨g, rfl⟩ <;> simp
  · cases hy
    have hargs : u = userId ∧ r = reportId ∧ k = idempotencyKey := by
      rcases hreq with rfl | ⟨g, rfl⟩ <;> rcases hreq' with h | ⟨g', h⟩ <;> cases h <;>
        exact ⟨rfl, rfl, rfl⟩
    obtain ⟨rfl, rfl, rfl⟩ := hargs
    exact h.2

/-- A run ends with its result explained and its objects accounted for. -/
theorem Finishes.of_run {g a m : Id} {r : GenerationProcessResult}
    (h : (Returned ((Known.serving (.process g a m) : Knows t).and Tidy) g a m r).holds S) :
    Finishes t (.ok (.process r)) S := by
  refine ⟨?_, fun _ k hk => Or.inl (h.1.2 k hk)⟩
  rw [h.1.1.1]
  cases r with
  | completed => exact h.2
  | deferred delay => trivial

-- =============================================================== requests

/-- A spawned thread has done nothing yet. -/
theorem fresh_spawned (h : S.Fresh t) :
    ((Fresh q : Knows t).and Unmetered).holds (S.spawned t q) := by
  have hnone : ∀ {β : Type} (f : REntry → Option β), (∀ e, e.tid ≠ t → f e = none) →
      S.trace.filterMap f = [] :=
    fun f hf => List.filterMap_eq_nil_iff.mpr fun e he => hf e (h e he)
  have hids : S.ids t = [] := hnone _ fun e he => by
    split <;> simp_all
  have hcommits : S.committedBy t = [] := hnone _ fun e he => by
    split <;> simp_all
  have henters : S.enteredBy t = [] := hnone _ fun e he => by
    split <;> simp_all
  have hasked : S.asked t = [] := hnone _ fun e he => by
    split <;> simp_all
  refine ⟨⟨⟨?_, List.mem_cons_self⟩, hids, ?_⟩, ?_⟩
  · simp only [Shared.asked, Shared.spawned, Shared.log, List.filterMap_cons, if_true]
    exact congrArg (q :: ·) hasked
  · exact congrArg (List.filter Site.marked) hcommits
  · exact congrArg (List.filter Site.metered) henters

/-- Every request keeps the contract. -/
theorem main_safe (hstart : Begins start) (hP : ((Fresh q : Knows t).and Unmetered).holds S) :
    ProgSafe (contract cfg start) t (fun a S' => Finishes t (.ok a) S')
      (fun e S' => Finishes t (.error e) S') (main cfg q) S := by
  have hserve : ∀ {α : Type} {p : Async α} {q : Req},
      Keeps (contract cfg start) (Known.serving q : Knows t) p →
      Triple (contract cfg start) (Fresh q : Knows t) p (fun _ => Known.serving q)
        (fun _ => Known.serving q) :=
    fun h => h.conseq (fun _ h => h.1) (fun _ _ h => h) fun _ _ h => h
  have hallow : ∀ {q : Req}, q.ofClient = true → ∀ s : Site, s.working = false →
      Allows (Known.serving q : Knows t) s :=
    fun hq s hs => Allows.serving hs hq
  cases q with
  | createReport userId title notes =>
      exact Keeps.finishes (by simp) (Triple.createReport rfl) (Or.inl fun _ _ h => by cases h) hP.1
  | updateReport userId id title notes =>
      exact Keeps.finishes (by simp) (hserve (Keeps.updateReport (hallow rfl _ rfl) (hallow rfl _ rfl)))
        (Or.inl fun _ _ h => by cases h) hP.1
  | duplicateReport userId id =>
      exact Keeps.finishes (by simp) (Triple.duplicate hstart rfl) (Or.inl fun _ _ h => by cases h) hP.1
  | deleteReport userId id =>
      exact Keeps.finishes (f := fun _ => Res.done) (by simp) (hserve (Triple.deleteReport rfl))
        (Or.inl fun _ _ h => by cases h) hP.1
  | createGeneration userId reportId idempotencyKey =>
      exact Triple.finishes (by simp) (Triple.startGeneration rfl)
        (fun x S hS => Answering.finishes (Or.inl rfl) hS) hP.1
  | retryGeneration userId reportId generationId idempotencyKey =>
      have hfind : Keeps (contract cfg start)
          (Fresh (.retryGeneration userId reportId generationId idempotencyKey) : Knows t)
          (findOne userId reportId generationId) :=
        Keeps.findOne (Allows.drew rfl rfl)
      exact Triple.finishes (by simp) (Triple.bind (hfind.conseq (fun _ h => h) (fun _ _ h => h)
        fun _ _ h => h.1) fun _ => Triple.startGeneration rfl)
        (fun x S hS => Answering.finishes (Or.inr ⟨_, rfl⟩) hS) hP.1
  | cancelGeneration userId reportId generationId =>
      exact Keeps.finishes (by simp) (hserve (Keeps.cancel (hallow rfl _ rfl) (hallow rfl _ rfl)))
        (Or.inr ⟨userId, reportId, generationId, rfl⟩) hP.1
  | process generationId queueAttempt maximumQueueAttempts =>
      refine ((Triple.process hstart.trace).safe S hP |>.mono (fun _ _ h => h) fun e S' hS => ?_).bind
        fun r _ hS₁ => ProgSafe.pure fun S₂ hS₂ =>
          Finishes.of_run ((Returned _ _ _ _ r).lasts hS₂.later hS₁)
      exact ⟨by rw [hS.1.1]; exact hS.2.2,
        fun _ k hk => (hS.2.1 k hk).imp_right fun h => ⟨e, rfl, h⟩⟩
  | heartbeat generationId processingToken deadline =>
      refine Keeps.finishes (f := fun _ => Res.done) (by simp) (hserve ?_)
        (Or.inl fun _ _ h => by cases h) hP.1
      refine Keeps.bind Keeps.clock fun now => ?_
      split
      next => exact Keeps.pure
      next =>
          exact Keeps.bind (Keeps.attempt (Keeps.renewLease (Allows.of_heartbeat fun _ h => h)))
            fun _ => Keeps.pure
  | allocateMonthly userId subscriptionPeriodKey totalCredits validFrom expiresAt =>
      exact Keeps.finishes (f := fun _ => Res.done) (by simp) (Triple.allocateMonthly rfl)
        (Or.inl fun _ _ h => by cases h) hP.1
  | grantGenerationCredits email amount requestKey =>
      exact Keeps.finishes (f := fun _ => Res.done) (by simp) (Triple.grantGenerationCredits rfl)
        (Or.inl fun _ _ h => by cases h) hP.1
  | requestUpload userId reportId type mimeType size fileName =>
      exact Keeps.finishes (by simp) (Triple.requestUpload hstart rfl)
        (Or.inl fun _ _ h => by cases h) hP.1
  | confirmUpload userId reportId assetId =>
      exact Keeps.finishes (by simp) (hserve (Keeps.confirmUpload (hallow rfl) fun S hS => hS.2))
        (Or.inl fun _ _ h => by cases h) hP.1
  | deleteAsset userId reportId assetId =>
      exact Keeps.finishes (f := fun _ => Res.done) (by simp) (hserve (Triple.deleteAsset rfl rfl))
        (Or.inl fun _ _ h => by cases h) hP.1

/-- The report side keeps its contract. -/
theorem app_safe (hstart : Begins start) : (app cfg).Safe (contract cfg start) :=
  fun _ _ _ _ hready _ hfresh => ⟨hready, main_safe hstart (fresh_spawned hfresh)⟩

end FastRep.Reports
