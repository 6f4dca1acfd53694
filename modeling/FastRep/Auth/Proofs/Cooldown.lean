/-
Codes are issued a cooldown apart.

`resendRegistrationCode` replaces a code only where the stored send time is
still the one it read, so the codes of a pending registration are apart in
every order. `forgotPassword` reads the newest request, closes the unused
ones and inserts its own: a request that commits between its read and its
commit is not seen (`cooldown_fails`). Requests of which neither read before
the other committed are apart (`cooldown_iff`).

# The steps

`issuedCodes` and `issuedRequests` read off a commit what it issues. For
pending registrations `SendsApart` is the invariant: the codes issued so far
are apart, and the stored send time is not before any of them; a commit
counts from the stored time (`SendsApart.commit`). For requests of a user
there is no such column. The request that a transaction read as the newest
one is the bound: what was committed before it read is older
(`Runs.new_request`), and what came after is the condition.

# The mails

A mail is sent once, by the thread whose commit issued its code
(`Runs.sent_own`, `Runs.sent_once`): the sending is a named step, a request
takes one, and the code's id is used up by one commit.
-/
import FastRep.Auth.Proofs.Codes

namespace FastRep.Auth

open FastRep.Txn

variable {cfg : Config} {start : AState} {t : Tid} {s : Site} {S S' : AState}
  {ws : List (Write Row Key)} {i j : Id} {email : String} {e : AEntry}

-- ============================================================= the issues

/-- The pending registrations a commit gives a code: those it creates, and
those whose code it replaces. -/
def issuedCodes (e : AEntry) : List PendingRegistration :=
  match e.event with
  | .commit (.register _) ws | .commit (.resendRegistrationCode _) ws => ws.filterMap fun
      | .insert (.pending y) | .update (.pending y) => some y
      | _ => none
  | _ => []

/-- The requests a commit creates. -/
def issuedRequests (e : AEntry) : List PasswordResetRequest :=
  match e.event with
  | .commit (.forgotPassword _) ws => ws.filterMap fun
      | .insert (.reset y) => some y
      | _ => none
  | _ => []

/-- Two codes of one pending registration, the later first, are sent a
cooldown apart. -/
def CodesApart (cfg : Config) (e' e : AEntry) : Prop :=
  ∀ y' ∈ issuedCodes e', ∀ y ∈ issuedCodes e, y.id = y'.id →
    y.lastSentAt + cfg.registration.resendCooldownSeconds * 1000 ≤ y'.lastSentAt

/-- Two requests of one user, the later first, are created a cooldown
apart. -/
def RequestsApart (cfg : Config) (e' e : AEntry) : Prop :=
  ∀ y' ∈ issuedRequests e', ∀ y ∈ issuedRequests e, y.userId = y'.userId →
    y.createdAt + cfg.passwordReset.resendCooldownSeconds * 1000 ≤ y'.createdAt

/-- The transaction of a commit had read when another commit was made. -/
def readBefore (e' e : AEntry) : Bool :=
  match e'.event with
  | .commit s _ => e.before.opens.any fun o => o.tid = e'.tid && o.site = s && 1 ≤ o.done
  | _ => false

instance : DecidableRel (CodesApart cfg) := fun _ _ =>
  inferInstanceAs (Decidable (∀ _ ∈ _, ∀ _ ∈ _, _ → _))

instance : DecidableRel (RequestsApart cfg) := fun _ _ =>
  inferInstanceAs (Decidable (∀ _ ∈ _, ∀ _ ∈ _, _ → _))

/-- The row a code is issued for: a new one, or one that was sent its last
code a cooldown ago. Nothing else is written. -/
theorem Effect.issued_code (hC : Effect cfg t s ws S) {sc : Scene Row Site Req Env}
    {y : PendingRegistration} (hy : y ∈ issuedCodes ⟨t, .commit s ws, sc⟩) :
    (∀ w ∈ ws, ∀ z, w.row? = some (.pending z) → z = y) ∧
    (.insert (.pending y) ∈ ws ∨ .update (.pending y) ∈ ws ∧
      ∃ x, pending? S.db y.id = some x ∧
        x.lastSentAt + cfg.registration.resendCooldownSeconds * 1000 ≤ y.lastSentAt) := by
  cases s with
  | register email =>
      rcases hC with rfl | ⟨dto, pendingId, passwordHash, codeHash, now, drop, -, -, -, -, -, -,
        hdrop, -, -, rfl⟩
      · cases hy
      · have hy' : y = newPending cfg dto pendingId passwordHash codeHash now := by
          rcases hdrop with rfl | ⟨_, -, -, rfl⟩ <;>
            simpa [issuedCodes, List.filterMap_cons] using hy
        subst hy'
        refine ⟨fun w hw z hz => ?_, Or.inl (by simp)⟩
        rcases List.mem_append.mp hw with hw | hw
        · rcases hdrop with rfl | ⟨_, -, -, rfl⟩
          · cases hw
          · cases List.mem_singleton.mp hw
            cases hz
        · cases List.mem_singleton.mp hw
          cases hz
          rfl
  | resendRegistrationCode email =>
      rcases hC with rfl | ⟨_, -, -, rfl⟩ | ⟨x, codeHash, now, hx, -, hcooldown, -, -, -, rfl⟩
      · cases hy
      · simp [issuedCodes] at hy
      · simp only [issuedCodes, List.filterMap_cons, List.filterMap_nil, List.mem_singleton] at hy
        subst hy
        refine ⟨fun w hw z hz => ?_, Or.inr ⟨List.mem_cons_self, x, hx, hcooldown⟩⟩
        cases List.mem_singleton.mp hw
        cases hz
        rfl
  | _ => cases hy

/-- A counted commit issues the codes it writes. -/
theorem Effect.mem_issuedCodes (hC : Effect cfg t s ws S) {sc : Scene Row Site Req Env}
    (hs : s.marked = true) {y : PendingRegistration}
    (hy : .insert (.pending y) ∈ ws ∨ .update (.pending y) ∈ ws) :
    y ∈ issuedCodes ⟨t, .commit s ws, sc⟩ := by
  have hmem : ∀ {s : Site}, (∃ email, s = .register email ∨ s = .resendRegistrationCode email) →
      y ∈ issuedCodes ⟨t, .commit s ws, sc⟩ := by
    rintro s ⟨email, rfl | rfl⟩ <;>
      exact List.mem_filterMap.mpr (hy.elim (fun h => ⟨_, h, rfl⟩) fun h => ⟨_, h, rfl⟩)
  cases s with
  | register email => exact hmem ⟨email, Or.inl rfl⟩
  | resendRegistrationCode email => exact hmem ⟨email, Or.inr rfl⟩
  | verifyRegistration email pendingId codeHash =>
      obtain ⟨u, r, rfl, -⟩ := Verifies.writes hC
      simp at hy
  | createToken userId tokenId =>
      obtain ⟨r, _, rfl, -⟩ := hC
      simp at hy
  | refresh tokenId nextTokenId =>
      obtain ⟨x, r, _, -, -, -, -, -, -, rfl⟩ := hC
      simp at hy
  | forgotPassword userId =>
      obtain ⟨closed, _, _, _, _, -, -, -, -, -, -, -, -, rfl⟩ := hC
      simp at hy
  | resetPassword userId requestId =>
      obtain ⟨_, _, _, x, _, u, _, _, closed, gone, -, -, -, -, -, -, -, -, -, -, -, -, -, rfl⟩ := hC
      simp at hy
  | _ => cases hs

/-- What `forgotPassword` inserts. -/
theorem Effect.issued_request (hC : Effect cfg t s ws S) {sc : Scene Row Site Req Env}
    {y : PasswordResetRequest} (hy : y ∈ issuedRequests ⟨t, .commit s ws, sc⟩) :
    s = .forgotPassword y.userId ∧ .insert (.reset y) ∈ ws ∧
    ∃ now, now ≤ y.createdAt ∧ SawInside S t s (fun d => ∀ x ∈ resets d, x.userId = y.userId →
      x.createdAt + cfg.passwordReset.resendCooldownSeconds * 1000 ≤ now) := by
  cases s with
  | forgotPassword userId =>
      obtain ⟨w, hw, hrow⟩ := List.mem_filterMap.mp (show y ∈ ws.filterMap _ from hy)
      have hw' : w = .insert (.reset y) := by
        revert hrow
        rcases w with (_ | _ | _ | z) | _ | _ <;> simp
      subst hw'
      obtain ⟨closed, requestId, codeHash, now, createdAt, -, -, -, -, -, hnow, -, hsaw, rfl⟩ := hC
      simp only [List.mem_append, List.mem_map, reduceCtorEq, and_false, exists_false, false_or,
        List.mem_singleton] at hw
      cases hw
      exact ⟨rfl, by simp, now, hnow, hsaw⟩
  | _ => cases hy

-- ================================================ pending registrations

/-- A pending registration with a code was created. -/
theorem Runs.used_of_issued (hstart : Begins start) (h : Runs (contract cfg start) S)
    (he : e ∈ S.trace) {y : PendingRegistration} (hy : y ∈ issuedCodes e) :
    S.Used Uses y.id := by
  obtain ⟨S₀, S₁, hpast⟩ := h.since hstart.trace he
  obtain ⟨t, ev, sc⟩ := e
  cases ev with
  | commit s ws =>
      obtain ⟨-, hnew | ⟨-, x, hx, -⟩⟩ := (hpast.commit rfl).1.1.issued_code hy
      · exact ⟨_, he, Uses.of_insert hnew⟩
      · exact ((Runs.persists (lasting_pending hstart y.id) hpast.runs).created x hx).mono
          ((List.suffix_cons _ _).trans hpast.suffix)
  | _ => cases hy

/-- The codes of the run are apart, and none was sent after the last send
time that is stored. -/
structure SendsApart (cfg : Config) (S : AState) : Prop where
  apart : S.trace.Pairwise (CodesApart cfg)
  last : ∀ p x, pending? S.db p = some x → ∀ e ∈ S.trace, ∀ y ∈ issuedCodes e, y.id = p →
    y.lastSentAt ≤ x.lastSentAt

/-- A new pending registration has no code yet. -/
theorem Runs.no_code (hstart : Begins start) (h : Runs (contract cfg start) (S.commit t s ws))
    {y z : PendingRegistration} (hruns : Runs (contract cfg start) S)
    (hnew : .insert (.pending y) ∈ ws) (he : e ∈ S.trace) (hz : z ∈ issuedCodes e)
    (hid : z.id = y.id) : False := by
  obtain ⟨e', he', hused⟩ := Runs.used_of_issued hstart hruns he hz
  have htr : (S.commit t s ws).trace = [] ++ ⟨t, .commit s ws, S.toScene⟩ :: S.trace := rfl
  have hused' : Uses e' y.id := hid ▸ hused
  exact usedOnce.not_before hstart.trace h htr he' (Uses.of_insert hnew) hused'

/-- A commit that sends keeps the sends of an address apart. -/
theorem SendsApart.commit (hstart : Begins start) (hruns : Runs (contract cfg start) S)
    (h : Runs (contract cfg start) (S.commit t s ws)) (hC : Effect cfg t s ws S)
    (hS : SendsApart cfg S) : SendsApart cfg (S.commit t s ws) := by
  refine ⟨List.pairwise_cons.mpr ⟨fun e he y' hy' y hy hid => ?_, hS.apart⟩,
    fun p x hx e he y hy hid => ?_⟩
  · obtain ⟨-, hnew | ⟨-, x, hx, hcooldown⟩⟩ := hC.issued_code hy'
    · exact (Runs.no_code hstart h hruns hnew he hy hid).elim
    · have hlast := hS.last y'.id x hx e he y hy hid
      exact (Nat.add_le_add_right hlast _).trans hcooldown
  · rcases List.mem_cons.mp he with rfl | he
    · -- the row is the one the commit wrote
      obtain ⟨honly, hwritten⟩ := hC.issued_code hy
      rcases pending_after hC.changes hx with ⟨-, hws⟩ | hnew | ⟨hupd, -⟩
      · rcases hwritten with hw | ⟨hw, -⟩ <;> exact absurd (congrArg Key.pending hid) (hws _ hw)
      · rw [honly _ hnew x rfl]
      · rw [honly _ hupd x rfl]
    · rcases pending_after hC.changes hx with ⟨hold, -⟩ | hnew | ⟨hupd, x₀, hx₀, hsame⟩
      · exact hS.last p x hold e he y hy hid
      · exact (Runs.no_code hstart h hruns hnew he hy (hid.trans (pending?_id hx).symm)).elim
      · have hold := hS.last p x₀ hx₀ e he y hy hid
        refine hold.trans ?_
        cases hs : s.marked with
        | true =>
            have hmem : x ∈ issuedCodes ⟨t, .commit s ws, S.toScene⟩ :=
              hC.mem_issuedCodes hs (Or.inr hupd)
            obtain ⟨-, hnew | ⟨-, x₁, hx₁, hcooldown⟩⟩ := hC.issued_code hmem
            · exact (Runs.no_code hstart h hruns hnew he hy
                (hid.trans (pending?_id hx).symm)).elim
            · rw [pending?_id hx, hx₀] at hx₁
              cases hx₁
              exact (Nat.le_add_right _ _).trans hcooldown
        | false =>
            cases hC.changes _ hupd with
            | pending x₁ _ hx₁ hsame₁ _ hkeeps =>
                have hxid : x₁.id = p := hsame₁.id.symm.trans (pending?_id hx)
                rw [hxid, hx₀] at hx₁
                cases hx₁
                exact (hkeeps hs).2.ge

/-- The sends for one pending registration are the cooldown apart, in every
run. -/
theorem Runs.sendsApart (hstart : Begins start) (h : Runs (contract cfg start) S) :
    SendsApart cfg S := by
  refine h.invariant (I := SendsApart cfg) ⟨?_, fun p x hx => ?_⟩ ?_
  · rw [show (contract cfg start).start.trace = [] from hstart.trace]
    exact List.Pairwise.nil
  · have hnone := pending?_eq_none.mpr (hstart.find?_eq_none (k := .pending p) (by simp))
    cases hnone.symm.trans hx
  · intro t S S' hruns ih hm
    rcases hm.commit_or with ⟨s, ws, hC, -, rfl⟩ | ⟨hdb, htr⟩
    · exact SendsApart.commit hstart hruns (hruns.move hm) hC.1 ih
    · rcases htr with htr | ⟨ev, hev, htr⟩
      · exact ⟨htr ▸ ih.apart, by rw [hdb, htr]; exact ih.last⟩
      · have hnone : issuedCodes (⟨t, ev, S.toScene⟩ : AEntry) = [] := by
          cases ev with
          | commit s ws => exact absurd rfl (hev s ws)
          | _ => rfl
        refine ⟨?_, fun p x hx e he y hy hid => ?_⟩
        · rw [htr]
          refine List.pairwise_cons.mpr ⟨fun e _ y' hy' => ?_, ih.apart⟩
          rw [hnone] at hy'
          cases hy'
        · rw [hdb] at hx
          rw [htr] at he
          rcases List.mem_cons.mp he with rfl | he
          · rw [hnone] at hy
            cases hy
          · exact ih.last p x hx e he y hy hid

-- ========================================================= reset requests

/-- A reset request stays. -/
theorem Steps.reset_kept (hstart : Begins start) (hruns : Runs (contract cfg start) S)
    (h : Steps (contract cfg start) S S') {x : PasswordResetRequest}
    (hx : reset? S.db i = some x) : ∃ y, reset? S'.db i = some y ∧ SameReset x y := by
  have hkept := h.lift (I := fun S => (S.db.find? (.reset i)).isSome = true) hruns
    (by rw [reset?_eq_some.mp hx]; rfl) ?_
  · obtain ⟨r, hr⟩ := Option.isSome_iff_exists.mp hkept
    obtain ⟨y, rfl, -⟩ := find?_reset hr
    have hy := reset?_eq_some.mpr hr
    exact ⟨y, hy, Steps.same (lasting_reset hstart i) hruns h hx hy⟩
  · intro j S S' _ ih hm
    rcases hm.commit_or with ⟨s, ws, hC, -, rfl⟩ | ⟨hdb, -⟩
    · refine isSome_find?_applyAll (fun w hw => ?_) ih
      cases hC.1.changes w hw with
      | _ => simp
    · rw [hdb]
      exact ih

/-- The request that was created is stored. -/
theorem Requests.created {userId : Id} (h : Requests cfg t userId ws S)
    {y : PasswordResetRequest} (hnew : .insert (.reset y) ∈ ws) :
    reset? (applyAll ws S.db) y.id = some y := by
  obtain ⟨closed, requestId, codeHash, now, createdAt, -, -, -, -, -, -, -, -, rfl⟩ := h
  simp only [List.mem_append, List.mem_map, reduceCtorEq, and_false, exists_false, false_or,
    List.mem_singleton] at hnew
  cases hnew
  refine reset?_eq_some.mpr ?_
  rw [applyAll_append]
  exact Db.find?_put_self _ _

/-- A request that was created is among the requests ever after. -/
theorem Runs.request_kept (hstart : Begins start) (h : Runs (contract cfg start) S)
    (he : e ∈ S.trace) {y : PasswordResetRequest} (hy : y ∈ issuedRequests e) :
    ∃ z ∈ resets S.db, z.userId = y.userId ∧ z.createdAt = y.createdAt := by
  obtain ⟨S₀, S₁, hpast⟩ := h.since hstart.trace he
  obtain ⟨t, ev, sc⟩ := e
  cases ev with
  | commit s ws =>
      obtain ⟨hC, rfl⟩ := hpast.commit rfl
      obtain ⟨rfl, hnew, -⟩ := hC.1.issued_request hy
      obtain ⟨z, hz, hsame⟩ := Steps.reset_kept hstart (hpast.runs.move hpast.move)
        hpast.steps (Requests.created hC.1 hnew)
      exact ⟨z, mem_resets.mpr (Db.mem_of_find? (reset?_eq_some.mp hz)), hsame.userId,
        hsame.createdAt⟩
  | _ => cases hy

/-- A new request is apart from those it read, and from those that were
committed after it read if these are apart from it. -/
theorem Runs.new_request (hstart : Begins start) (h : Runs (contract cfg start) S)
    (hC : Effect cfg t s ws S) (he : e ∈ S.trace)
    (hread : readBefore ⟨t, .commit s ws, S.toScene⟩ e = true →
      RequestsApart cfg ⟨t, .commit s ws, S.toScene⟩ e) :
    RequestsApart cfg ⟨t, .commit s ws, S.toScene⟩ e := by
  intro y' hy' y hy huser
  obtain ⟨rfl, -, now, hnow, newer, e₁, older, htr, -, hstmt, hall, hopen⟩ :=
    hC.issued_request hy'
  rw [htr] at he
  rcases List.mem_append.mp he with hnewer | he
  · -- committed after the read
    refine hread ?_ y' hy' y hy huser
    obtain ⟨o, ho, hot, hos, hdone⟩ := hopen e hnewer
    exact List.any_eq_true.mpr ⟨o, ho, by simp [hot, hos, hdone]⟩
  · rcases List.mem_cons.mp he with rfl | holder
    · simp [issuedRequests, hstmt] at hy
    · -- committed before the read
      obtain ⟨S₁, S₂, hpast, rfl⟩ := h.at hstart.trace htr
      obtain ⟨z, hz, hzuser, hzcreated⟩ := Runs.request_kept hstart hpast.runs holder hy
      rw [hpast.scene] at hz
      have hapart := hall z hz (hzuser.trans huser)
      rw [hzcreated] at hapart
      exact hapart.trans hnow

/-- So are the requests of a user, where each was read before the next one was
made. -/
theorem Runs.requestsApart (hstart : Begins start) (h : Runs (contract cfg start) S)
    (hread : S.trace.Pairwise fun e' e => readBefore e' e = true → RequestsApart cfg e' e) :
    S.trace.Pairwise (RequestsApart cfg) := by
  refine h.invariant (I := fun S => (S.trace.Pairwise fun e' e => readBefore e' e = true →
    RequestsApart cfg e' e) → S.trace.Pairwise (RequestsApart cfg)) (fun _ => ?_) ?_ hread
  · rw [show (contract cfg start).start.trace = [] from hstart.trace]
    exact List.Pairwise.nil
  · intro t S S' hruns ih hm hread
    rcases hm.commit_or with ⟨s, ws, hC, -, rfl⟩ | ⟨-, htr⟩
    · obtain ⟨hhead, htail⟩ := List.pairwise_cons.mp hread
      exact List.pairwise_cons.mpr
        ⟨fun e he => Runs.new_request hstart hruns hC.1 he (hhead e he), ih htail⟩
    · rcases htr with htr | ⟨ev, hev, htr⟩
      · rw [htr] at hread ⊢
        exact ih hread
      · rw [htr] at hread ⊢
        refine List.pairwise_cons.mpr ⟨fun e _ y' hy' => ?_, ih (List.pairwise_cons.mp hread).2⟩
        cases ev with
        | commit s ws => exact absurd rfl (hev s ws)
        | _ => cases hy'

-- ================================================================ mails

/-- The steps that send a code. -/
def Site.sends : Site → Bool
  | .sendRegistrationCode _ _ | .sendResetCode _ => true
  | _ => false

/-- The id that is used up when the code that is sent is issued. -/
def Site.codeId : Site → Id
  | .sendRegistrationCode _ codeHash => codeHash.salt
  | .sendResetCode requestId => requestId
  | _ => 0

/-- A site that sends names its address. -/
theorem Site.named_of_sends (h : s.sends = true) : s.named = true := by
  cases s with
  | sendRegistrationCode | sendResetCode => rfl
  | _ => cases h

/-- A code is sent by the thread whose commit issued it. -/
theorem Runs.sent_own (hstart : Begins start) (h : Runs (contract cfg start) S)
    (he : e ∈ S.trace) :
    (∀ p c, e.event = .enter (.sendRegistrationCode p c) → ∃ e' ∈ S.trace, e'.tid = e.tid ∧
      ∃ y ∈ issuedCodes e', y.id = p ∧ y.codeHash = c) ∧
    ∀ r, e.event = .enter (.sendResetCode r) → ∃ e' ∈ S.trace, e'.tid = e.tid ∧
      ∃ y ∈ issuedRequests e', y.id = r := by
  obtain ⟨S₀, S₁, hpast⟩ := h.since hstart.trace he
  have hsuffix : S₀.trace <:+ S.trace := (List.suffix_cons _ _).trans hpast.suffix
  have hpromise := hpast.promised
  refine ⟨fun p c hev => ?_, fun r hev => ?_⟩
  · rw [hev] at hpromise
    obtain ⟨-, ⟨t', ev, sc⟩, he', ht, s, ws, rfl, hs, y, hid, hcode, hmem⟩ := hpromise
    obtain ⟨S₂, S₃, hpast'⟩ := hpast.runs.since hstart.trace he'
    exact ⟨_, hsuffix.subset he', ht, y, (hpast'.commit rfl).1.1.mem_issuedCodes hs hmem, hid,
      hcode⟩
  · rw [hev] at hpromise
    obtain ⟨-, ⟨t', ev, sc⟩, he', ht, u, ws, y, rfl, hmem, hid⟩ := hpromise
    exact ⟨_, hsuffix.subset he', ht, y, List.mem_filterMap.mpr ⟨_, hmem, rfl⟩, hid⟩

/-- The commit that issues what a mail carries uses up an id of its own. -/
theorem Runs.sent_uses (hstart : Begins start) (h : Runs (contract cfg start) S)
    (he : e ∈ S.trace) (hev : e.event = .enter s) (hs : s.sends = true) :
    ∃ e' ∈ S.trace, e'.tid = e.tid ∧ Uses e' s.codeId := by
  obtain ⟨S₀, S₁, hpast⟩ := h.since hstart.trace he
  have hsuffix : S₀.trace <:+ S.trace := (List.suffix_cons _ _).trans hpast.suffix
  have hpromise := hpast.promised
  rw [hev] at hpromise
  cases s with
  | sendRegistrationCode p c =>
      obtain ⟨-, e', he', ht, s, ws, hev', hs', hissues⟩ := hpromise
      have hgives : Gives e' p c := ⟨s, ws, hev', hs', hissues⟩
      exact ⟨e', hsuffix.subset he', ht, hgives.uses⟩
  | sendResetCode r =>
      obtain ⟨-, ⟨t', ev, sc⟩, he', ht, u, ws, y, rfl, hmem, rfl⟩ := hpromise
      exact ⟨_, hsuffix.subset he', ht, Uses.of_insert hmem⟩
  | _ => cases hs

/-- A code is sent once. -/
theorem Runs.sent_once (hstart : Begins start) (h : Runs (contract cfg start) S) :
    S.trace.Pairwise fun e' e => ∀ s, s.sends = true → e'.event = .enter s →
      e.event ≠ .enter s := by
  refine h.invariant (I := fun S => S.trace.Pairwise fun e' e => ∀ s, s.sends = true →
    e'.event = .enter s → e.event ≠ .enter s) ?_ ?_
  · rw [show (contract cfg start).start.trace = [] from hstart.trace]
    exact List.Pairwise.nil
  · intro t S S' hruns ih hm
    have hruns' := hruns.move hm
    rcases hm.trace_eq with htr | ⟨ev, htr⟩
    · rwa [htr]
    · rw [htr]
      refine List.pairwise_cons.mpr ⟨fun e he s hs hev hev' => ?_, ih⟩
      have hmem : (⟨t, ev, S.toScene⟩ : AEntry) ∈ S'.trace := by
        rw [htr]
        exact List.mem_cons_self
      obtain ⟨e₀, he₀, ht₀, huse₀⟩ := Runs.sent_uses hstart hruns' hmem hev hs
      obtain ⟨e₁, he₁, ht₁, huse₁⟩ := Runs.sent_uses hstart hruns he hev' hs
      have heq := usedOnce.eq_of_mem hstart.trace hruns' he₀ (hm.trace_suffix.subset he₁)
        huse₀ huse₁
      -- both are steps of the thread that issued the code, which sends once
      have htid : e.tid = t := by
        rw [← ht₁, heq, ht₀]
      have hentered : s ∈ S.entered marking t :=
        htid ▸ Shared.mem_entered he hev' (Site.named_of_sends hs)
      obtain ⟨S₀, S₁, hpast, holder⟩ := hruns'.at hstart.trace
        (show S'.trace = [] ++ ⟨t, ev, S.toScene⟩ :: S.trace from htr)
      have hpromise := hpast.promised
      rw [show (⟨t, ev, S.toScene⟩ : AEntry).event = .enter s from hev] at hpromise
      have hnone : named S₀ t = [] := by
        cases s with
        | sendRegistrationCode | sendResetCode => exact hpromise.1
        | _ => cases hs
      have hsame : named S₀ t = S.entered marking t := by
        simp only [named, Shared.entered, Shared.enteredBy, holder]
      rw [← hsame, hnone] at hentered
      cases hentered

-- ============================================================= the claim

/-- Codes are issued a cooldown apart, and each is sent once at most, by
the thread that issued it. -/
structure CooldownKept (cfg : Config) (S : AState) : Prop where
  codes : S.trace.Pairwise (CodesApart cfg)
  requests : S.trace.Pairwise (RequestsApart cfg)
  codeMails : ∀ e ∈ S.trace, ∀ p c, e.event = .enter (.sendRegistrationCode p c) →
    ∃ e' ∈ S.trace, e'.tid = e.tid ∧ ∃ y ∈ issuedCodes e', y.id = p ∧ y.codeHash = c
  requestMails : ∀ e ∈ S.trace, ∀ r, e.event = .enter (.sendResetCode r) →
    ∃ e' ∈ S.trace, e'.tid = e.tid ∧ ∃ y ∈ issuedRequests e', y.id = r
  mailedOnce : S.trace.Pairwise fun e' e => ∀ s, s.sends = true → e'.event = .enter s →
    e.event ≠ .enter s

/-- The cooldown is kept exactly where it is between requests of which the
later one read before the earlier one was committed. -/
theorem cooldown_iff {w : AWorld} (h : Reached cfg w) :
    CooldownKept cfg w.shared ↔ w.shared.trace.Pairwise fun e' e =>
      readBefore e' e = true → RequestsApart cfg e' e := by
  obtain ⟨start, hstart, hruns⟩ := h.runs
  constructor
  · intro hkept
    refine hkept.requests.imp ?_
    intro e' e hapart _
    exact hapart
  · intro hread
    exact ⟨(Runs.sendsApart hstart hruns).apart, Runs.requestsApart hstart hruns hread,
      fun e he => (Runs.sent_own hstart hruns he).1, fun e he => (Runs.sent_own hstart hruns he).2,
      Runs.sent_once hstart hruns⟩

/-- The owner asks for a code, and again a minute later. -/
def askedTwice : List (Action Req Choice) :=
  .spawn 1 (.forgotPassword "owner@example.com") :: steps 1 4 ++ .answer 1 (.drawn 8) :: steps 1 10
    ++ .answer 1 .done :: steps 1 1 ++ .tick 60000
    :: .spawn 2 (.forgotPassword "owner@example.com") :: steps 2 4
    ++ .answer 2 (.drawn 9) :: steps 2 10 ++ .answer 2 .done :: steps 2 1

/-- The owner asks twice at once: the second call reads before the first
one commits. -/
def askedAtOnce : List (Action Req Choice) :=
  .spawn 1 (.forgotPassword "owner@example.com") :: steps 1 4 ++ .answer 1 (.drawn 8)
    :: .spawn 2 (.forgotPassword "owner@example.com") :: steps 2 4
    ++ .answer 2 (.drawn 9) :: steps 2 4 ++ steps 1 10 ++ .answer 1 .done :: steps 1 1
    ++ steps 2 6 ++ .answer 2 .done :: steps 2 1

/-- Two requests a minute apart. -/
theorem cooldown_kept : ∃ w, Reached sampleConfig w ∧
    (resets w.shared.db).map (·.createdAt) = [0, 60000] ∧ CooldownKept sampleConfig w.shared := by
  have hrun : (sampleWorld.runAll (app sampleConfig) askedTwice).any
      (fun w => (resets w.shared.db).map (·.createdAt) = [0, 60000] ∧
        w.shared.trace.Pairwise fun e' e => readBefore e' e = true →
          RequestsApart sampleConfig e' e) = true := by
    decide +kernel
  obtain ⟨w, hw, hp⟩ := exists_reached hrun
  obtain ⟨hcreated, hread⟩ := of_decide_eq_true hp
  exact ⟨w, hw, hcreated, (cooldown_iff hw).mpr hread⟩

/-- Two requests at one moment, and both are mailed. -/
theorem cooldown_fails : ¬ ∀ w, Reached sampleConfig w → CooldownKept sampleConfig w.shared := by
  intro hclaim
  have hrun : (sampleWorld.runAll (app sampleConfig) askedAtOnce).any
      (fun w => ¬ w.shared.trace.Pairwise (RequestsApart sampleConfig)) = true := by
    decide +kernel
  obtain ⟨w, hw, hp⟩ := exists_reached hrun
  exact of_decide_eq_true hp (hclaim w hw).requests

end FastRep.Auth
