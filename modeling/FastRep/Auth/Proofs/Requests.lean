/-
Every request of the authentication side keeps its contract, so every
reached state ends a run of it.

`app_safe` puts together the triples of the methods. A request starts with
nothing drawn, nothing counted and nothing seen (`Standing.of_fresh`), and
has to end as the contract says of its kind (`Triple.finishes`): a request
that consumes something returns only after the commit that consumed it.
`Reached.runs` is what the results about runs start from.

The last section has a small world and its runs: a user who logs in and
refreshes, a newcomer who registers and verifies.
-/
import FastRep.Auth.Proofs.Recovering
import FastRep.Txn.Proofs.Soundness
import FastRep.Txn.Proofs.History

namespace FastRep.Auth

open FastRep.Txn

variable {cfg : Config} {start : AState} {t : Tid}

/-- A thread that took no step has nothing behind it. -/
theorem Standing.of_fresh {q : Req} {S : AState} (h : S.Fresh t) :
    Standing t q 0 [] [] [] [] (S.spawned t q) := by
  have hnone : ∀ {β : Type} (f : AEntry → Option β), (∀ e, e.tid ≠ t → f e = none) →
      S.trace.filterMap f = [] := fun f hf =>
    List.filterMap_eq_nil_iff.mpr fun e he => hf e (h e he)
  refine ⟨?_, List.mem_cons_self, ?_, ?_, ?_, Nat.zero_le _, by simp⟩
  · simp only [Shared.asked, Shared.spawned, Shared.log, List.filterMap_cons, if_pos]
    rw [hnone]
    intro e he
    split <;> simp [he]
  · simp only [Shared.ids, Shared.spawned, Shared.log, List.filterMap_cons]
    rw [hnone]
    intro e he
    split <;> simp [he]
  · simp only [Shared.marks, Shared.committedBy, Shared.spawned, Shared.log,
      List.filterMap_cons]
    rw [hnone]
    · rfl
    · intro e he
      split <;> simp [he]
  · simp only [Shared.entered, Shared.enteredBy, Shared.spawned, Shared.log,
      List.filterMap_cons]
    rw [hnone]
    · rfl
    · intro e he
      split <;> simp [he]

/-- A program that ends as its request has to. -/
theorem Triple.finishes {α : Type} {q : Req} {p : Async α} {f : α → Res} {Q : α → Knows t}
    {E : Error → Knows t} (h : Triple (contract cfg start) (At q 0 [] [] [] []) p Q E)
    (hQ : ∀ a S, (Q a).holds S → Finishes t (.ok (f a)) S)
    (hE : ∀ e S, (E e).holds S → Finishes t (.error e) S) {S : AState} (hS : S.Fresh t) :
    ProgSafe (contract cfg start) t (fun a S' => Finishes t (.ok a) S')
      (fun e S' => Finishes t (.error e) S') (p >>= fun a => pure (f a)) (S.spawned t q) :=
  ((h.safe _ (Standing.of_fresh hS)).mono (fun _ _ h => h) hE).bind fun a _ hS₁ =>
    ProgSafe.pure fun S₂ hS₂ => hQ a S₂ ((Q a).lasts hS₂.later hS₁)

/-- Most requests may end in any way. -/
theorem Finishes.of_served {q : Req} {r : Except Error Res} {S : AState}
    (h : (Served t q : Knows t).holds S)
    (hq : match q with
      | .verifyRegistration _ _ | .resetPassword _ _ _ | .refresh _ => False
      | _ => True) : Finishes t r S := by
  unfold Finishes
  rw [h.1]
  cases q <;> first | exact hq.elim | (split <;> simp_all)

/-- Every request of the auth side keeps the contract. -/
theorem app_safe : (app cfg).Safe (contract cfg start) := by
  intro t q S _ _ _ hfresh
  refine ⟨trivial, ?_⟩
  cases q with
  | register dto =>
      exact Triple.finishes Triple.register (fun _ _ h => Finishes.of_served h trivial)
        (fun _ _ h => Finishes.of_served h trivial) hfresh
  | verifyRegistration email code =>
      refine Triple.finishes Triple.verifyRegistration (fun a S h => ?_) (fun e S h => ?_) hfresh
      · simp only [Finishes, h.1]
        exact h.2
      · simp only [Finishes, h.1]
        exact h.2
  | resendRegistrationCode email =>
      exact Triple.finishes Triple.resendRegistrationCode
        (fun _ _ h => Finishes.of_served h trivial) (fun _ _ h => Finishes.of_served h trivial)
        hfresh
  | login email password =>
      exact Triple.finishes Triple.login (fun _ _ h => Finishes.of_served h trivial)
        (fun _ _ h => Finishes.of_served h trivial) hfresh
  | refresh refreshToken =>
      refine Triple.finishes Triple.refresh (fun a S h => ?_) (fun e S h => ?_) hfresh
      · obtain ⟨hasked, sub, jti, exp, nextTokenId, rfl, hmarks⟩ := h
        simp only [Finishes, hasked]
        exact ⟨nextTokenId, hmarks⟩
      · simp only [Finishes, h.1]
        exact h.2
  | logout refreshToken =>
      exact Triple.finishes Triple.logout (fun _ _ h => Finishes.of_served h trivial)
        (fun _ _ h => Finishes.of_served h trivial) hfresh
  | forgotPassword email =>
      exact Triple.finishes Triple.forgotPassword (fun _ _ h => Finishes.of_served h trivial)
        (fun _ _ h => Finishes.of_served h trivial) hfresh
  | resetPassword email code newPassword =>
      refine Triple.finishes Triple.resetPassword (fun a S h => ?_) (fun e S h => ?_) hfresh
      · simp only [Finishes, h.1]
        exact h.2
      · simp only [Finishes, h.1]
        exact h.2

-- ============================================================= the runs

/-- A reached state ends a run of the contract. -/
theorem Reached.runs {w : AWorld} (h : Reached cfg w) :
    ∃ start, Begins start ∧ Runs (contract cfg start) w.shared := by
  obtain ⟨db, clock, nextId, hunused, hreach⟩ := h
  exact ⟨_, ⟨hunused, rfl, rfl, rfl, rfl⟩, app_safe.runs rfl hreach⟩

-- ======================================================= a concrete world

/-- The settings of the examples: a code lasts fifteen minutes and two
attempts, and can be sent again after a minute. -/
def sampleConfig : Config where
  registration := ⟨⟨15, by decide⟩, ⟨2, by decide⟩, ⟨60, by decide⟩, ⟨24, by decide⟩⟩
  passwordReset := ⟨⟨15, by decide⟩, ⟨2, by decide⟩, ⟨60, by decide⟩⟩

/-- A user with the password `p`. -/
def sampleUser : User where
  id := 1
  fullName := "Owner"
  email := "owner@example.com"
  passwordHash := ⟨0, .text "p"⟩
  language := "en"
  emailVerifiedAt := some 0
  createdAt := 0

/-- A database of one user. -/
def sampleDb : Db Row where
  rows := [.user sampleUser]
  nodup := List.nodup_singleton _

/-- The world that starts with it. -/
def sampleWorld : AWorld := World.init sampleDb [] 0 10

/-- A list of actions that can be taken leads to a reached state with what
holds at its end. -/
theorem exists_reached {as : List (Action Req Choice)} {p : AWorld → Bool}
    (h : (sampleWorld.runAll (app cfg) as).any p = true) : ∃ w, Reached cfg w ∧ p w = true := by
  obtain ⟨w, hw, hp⟩ := (Option.any_eq_true _ _).mp h
  refine ⟨w, ⟨sampleDb, 0, 10, ⟨fun r hr => ?_, List.nodup_singleton _⟩,
    Reachable.init.runAll as hw⟩, hp⟩
  cases List.mem_singleton.mp hr
  exact ⟨sampleUser, rfl, by decide⟩

/-- So many steps of a thread. -/
def steps (t n : Nat) : List (Action Req Choice) := List.replicate n (.step t)

/-- The user logs in, and its token is rotated. -/
def tokenRotated : List (Action Req Choice) :=
  .spawn 1 (.login "owner@example.com" "p") :: steps 1 16
    ++ .spawn 2 (.refresh (.refresh 1 10 refreshTokenTtlSeconds)) :: steps 2 16

/-- What a newcomer registers with. -/
def newcomer : RegisterDto where
  email := "new@example.com"
  fullName := "New"
  password := "q"
  language := none

/-- A newcomer registers and is sent a code. -/
def newcomerRegistered : List (Action Req Choice) :=
  .spawn 1 (.register newcomer) :: steps 1 5 ++ .answer 1 (.drawn 7) :: steps 1 8
    ++ .answer 1 .done :: steps 1 1

/-- The newcomer verifies with that code. -/
def newcomerVerified : List (Action Req Choice) :=
  newcomerRegistered ++ .spawn 2 (.verifyRegistration "new@example.com" "000007") :: steps 2 19

end FastRep.Auth
