/-
How often a mailed code can be guessed.

A wrong code is counted after it was compared: the call reads the row,
compares, and then raises the count, but only where it is still the one it has
read. Calls that overlap read the same count, and all but one of them compare
for free. The count keeps up as long as every call that compares a code, and
every one that succeeds with it, has read the row after the wrong comparisons
before it were recorded (`Code.recorded`).

# The meter

`Code.meter?` is what a row says of a code that can be used: its count, and
when it runs out. The count of a code never falls, and the times stay until
the count is at the limit (`lasting_meter`). So a recording call that finds
its own count still there raises it (`Runs.recorded_above`).

# The count

By induction on the history, a call that touches a code has read a count that
is at least the number of wrong comparisons of others before it
(`Runs.counted`). A call compares only below the limit.
-/
import FastRep.Auth.Proofs.Codes

namespace FastRep.Auth

open FastRep.Txn

variable {cfg : Config} {start : AState} {t : Tid} {s : Site} {S S' : AState}
  {ws : List (Write Row Key)} {e : AEntry} {w : AWorld}

-- =============================================================== the codes

/-- A mailed code: one hash of a pending registration, or a reset request. -/
inductive Code where
  | registration (pendingId : Id) (codeHash : Hash)
  | reset (requestId : Id)
  deriving DecidableEq

/-- The comparison of a code. -/
def Code.test : Code → Bool → Site
  | .registration pendingId codeHash, ok => .testRegistrationCode pendingId codeHash ok
  | .reset requestId, ok => .testResetCode requestId ok

/-- The entry compares the code. -/
def Code.tests (c : Code) (e : AEntry) : Bool :=
  match e.event with
  | .enter s => s = c.test true || s = c.test false
  | _ => false

/-- The entry compares it with a wrong one. -/
def Code.misses (c : Code) (e : AEntry) : Bool :=
  match e.event with
  | .enter s => s = c.test false
  | _ => false

/-- The transaction that records a wrong code. -/
def Code.record : Code → Site
  | .registration pendingId codeHash => .recordFailedRegistrationAttempt pendingId codeHash
  | .reset requestId => .recordFailedResetAttempt requestId

/-- The entry has recorded a wrong code. -/
def Code.records (c : Code) (e : AEntry) : Bool :=
  match e.event with
  | .commit s _ => s = c.record
  | _ => false

/-- The transaction that uses the code up. -/
def Code.usedAt : Code → Site → Bool
  | .registration pendingId codeHash, .verifyRegistration _ i h => i = pendingId && h = codeHash
  | .reset requestId, .resetPassword _ i => i = requestId
  | _, _ => false

/-- The entry has used the code up. -/
def Code.uses (c : Code) (e : AEntry) : Bool :=
  match e.event with
  | .commit s _ => c.usedAt s
  | _ => false

/-- The statement that reads the row of a code. -/
def Code.readAt : Code → Site → Bool
  | .registration _ _, .findPending _ => true
  | .reset _, .findReset _ => true
  | _, _ => false

/-- The entry reads the row. -/
def Code.reads (c : Code) (e : AEntry) : Bool :=
  match e.event with
  | .statement s => c.readAt s
  | _ => false

def Code.maxAttempts (cfg : Config) : Code → Nat
  | .registration _ _ => cfg.registration.maxAttempts
  | .reset _ => cfg.passwordReset.maxAttempts

-- ============================================================ the condition

/-- Whenever the thread has read the row, the other one had recorded its wrong
code. -/
def Code.behind (c : Code) (t t' : Tid) : List AEntry → Bool
  | [] => true
  | e :: past => (!(e.tid = t && c.reads e) || past.any fun e' => e'.tid = t' && c.records e')
      && c.behind t t' past

/-- The entry compares the code, records a wrong one, or uses it up. -/
def Code.touches (c : Code) (e : AEntry) : Bool :=
  c.tests e || c.records e || c.uses e

/-- Whoever touches the code has read the row after the wrong codes of the
others before were recorded. -/
def Code.recorded (c : Code) : List AEntry → Bool
  | [] => true
  | e :: past => (!c.touches e || past.all fun e' =>
      !(c.misses e' && e'.tid ≠ e.tid) || c.behind e.tid e'.tid past) && c.recorded past

theorem Code.recorded_of_suffix {c : Code} {l l' : List AEntry} (hl : l <:+ l')
    (h : c.recorded l' = true) : c.recorded l = true := by
  induction l' with
  | nil =>
      rw [List.suffix_nil.mp hl]
      rfl
  | cons e past ih =>
      rcases List.suffix_cons_iff.mp hl with rfl | hl
      · exact h
      · exact ih hl ((Bool.and_eq_true _ _).mp h).2

/-- What the thread has read, it has read after the other one had recorded. -/
theorem Code.exists_record {c : Code} {t t' : Tid} {l newer older : List AEntry}
    (h : c.behind t t' l = true) (hl : l = newer ++ e :: older) (ht : e.tid = t)
    (hreads : c.reads e = true) : ∃ e' ∈ older, e'.tid = t' ∧ c.records e' = true := by
  subst hl
  induction newer with
  | nil =>
      have hhead := ((Bool.and_eq_true _ _).mp h).1
      simp only [ht, hreads, decide_true, Bool.and_self, Bool.not_true, Bool.false_or,
        List.any_eq_true, Bool.and_eq_true, decide_eq_true_eq] at hhead
      exact hhead
  | cons e' newer ih => exact ih ((Bool.and_eq_true _ _).mp h).2

/-- A wrong code of another before was recorded before the row was read. -/
theorem Code.behind_of_touches {c : Code} {newer older : List AEntry}
    (h : c.recorded S.trace = true) (htr : S.trace = newer ++ e :: older)
    (htouches : c.touches e = true) {e' : AEntry} (he' : e' ∈ older)
    (hmisses : c.misses e' = true) (ht : e'.tid ≠ e.tid) :
    c.behind e.tid e'.tid older = true := by
  have hsuffix : e :: older <:+ S.trace := ⟨newer, htr.symm⟩
  have hhead := ((Bool.and_eq_true _ _).mp (Code.recorded_of_suffix hsuffix h)).1
  simp only [htouches, Bool.not_true, Bool.false_or, List.all_eq_true] at hhead
  have hentry := hhead e' he'
  simpa [hmisses, ht] using hentry

-- =============================================================== the meter

/-- What a row says of a code that can be used: how often a wrong one was
compared with it, and when it runs out. -/
structure Meter where
  attemptCount : Nat
  expiresAt : Time
  pendingExpiresAt : Time

def PendingRegistration.meter (x : PendingRegistration) : Meter :=
  ⟨x.attemptCount, x.expiresAt, x.pendingExpiresAt⟩

/-- A reset request runs out once. -/
def PasswordResetRequest.meter (x : PasswordResetRequest) : Meter :=
  ⟨x.attemptCount, x.expiresAt, x.expiresAt⟩

def Code.meter? : Code → Db Row → Option Meter
  | .registration pendingId codeHash, d =>
      ((pending? d pendingId).filter (·.codeHash = codeHash)).map (·.meter)
  | .reset requestId, d => ((reset? d requestId).filter (·.usedAt.isNone)).map (·.meter)

/-- The id the code was drawn with. -/
def Code.id : Code → Id
  | .registration _ codeHash => codeHash.salt
  | .reset requestId => requestId

theorem meter?_registration {pendingId : Id} {codeHash : Hash} {d : Db Row} {m : Meter} :
    (Code.registration pendingId codeHash).meter? d = some m ↔
      ∃ x, pending? d pendingId = some x ∧ x.codeHash = codeHash ∧ x.meter = m := by
  simp [Code.meter?, Option.filter_eq_some_iff, and_assoc]

theorem meter?_reset {requestId : Id} {d : Db Row} {m : Meter} :
    (Code.reset requestId).meter? d = some m ↔
      ∃ x, reset? d requestId = some x ∧ x.usedAt = none ∧ x.meter = m := by
  simp [Code.meter?, Option.filter_eq_some_iff, and_assoc]

/-- A later state of the meter: the count has not fallen, and the times are
the same until it is at the limit. -/
def Worn (limit : Nat) (m m' : Meter) : Prop :=
  limit ≤ m'.attemptCount ∨ m.attemptCount ≤ m'.attemptCount ∧ m'.expiresAt = m.expiresAt ∧
    m'.pendingExpiresAt = m.pendingExpiresAt

theorem Worn.refl (limit : Nat) (m : Meter) : Worn limit m m :=
  Or.inr ⟨Nat.le_refl _, rfl, rfl⟩

theorem Worn.trans {limit : Nat} {m m' m'' : Meter} (h : Worn limit m m')
    (h' : Worn limit m' m'') : Worn limit m m'' := by
  rcases h' with hlimit | ⟨hle, hexpires, hpending⟩
  · exact Or.inl hlimit
  · rcases h with hlimit | ⟨hle', hexpires', hpending'⟩
    · exact Or.inl (Nat.le_trans hlimit hle)
    · exact Or.inr ⟨Nat.le_trans hle' hle, hexpires.trans hexpires', hpending.trans hpending'⟩

/-- A commit that gives no code wears the meter of a pending registration. -/
theorem Effect.pending_update (hC : Effect cfg t s ws S) (hs : s.marked = false)
    {y : PendingRegistration} (hy : .update (.pending y) ∈ ws) :
    ∃ x, pending? S.db y.id = some x ∧ y.codeHash = x.codeHash ∧
      Worn cfg.registration.maxAttempts x.meter y.meter := by
  cases s with
  | withdrawRegistrationCode pendingId codeHash =>
      obtain ⟨-, rfl | ⟨x, expiresAt, hx, -, rfl⟩⟩ := hC
      · cases hy
      · cases List.mem_singleton.mp hy
        exact ⟨x, pending?_id hx ▸ hx, rfl, Or.inl (Nat.le_refl _)⟩
  | recordFailedRegistrationAttempt pendingId codeHash =>
      obtain ⟨-, ⟨rfl, -⟩ | ⟨x, z, hx, -, -, hz, hws⟩⟩ := hC
      · cases hy
      · have hx' : pending? S.db x.id = some x := pending?_id hx ▸ hx
        have hcounted : Worn cfg.registration.maxAttempts x.meter
            { x with attemptCount := x.attemptCount + 1 : PendingRegistration }.meter :=
          Or.inr ⟨Nat.le_succ _, rfl, rfl⟩
        have hlast : ∃ x', pending? S.db z.id = some x' ∧ z.codeHash = x'.codeHash ∧
            Worn cfg.registration.maxAttempts x'.meter z.meter := by
          rcases hz with rfl | ⟨expiresAt, rfl, hlimit⟩
          · exact ⟨x, hx', rfl, hcounted⟩
          · exact ⟨x, hx', rfl, Or.inl hlimit⟩
        rcases hws with rfl | rfl
        · cases List.mem_singleton.mp hy
          exact hlast
        · simp only [List.mem_cons, List.not_mem_nil, or_false, Write.update.injEq,
            Row.pending.injEq] at hy
          rcases hy with rfl | rfl
          · exact ⟨x, hx', rfl, hcounted⟩
          · exact hlast
  | dropExpired pendingId =>
      obtain rfl | ⟨-, rfl⟩ := hC
      · cases hy
      · simp at hy
  | logout tokenId =>
      obtain rfl | ⟨_, -, rfl⟩ := hC
      · cases hy
      · simp at hy
  | withdrawReset requestId =>
      obtain ⟨-, rfl | ⟨_, _, -, -, rfl⟩⟩ := hC
      · cases hy
      · simp at hy
  | recordFailedResetAttempt requestId =>
      obtain ⟨-, ⟨rfl, -⟩ | ⟨_, _, -, -, -, -, rfl | rfl⟩⟩ := hC
      · cases hy
      · simp at hy
      · simp at hy
  | _ =>
      first
      | rw [show ws = [] from hC] at hy
        cases hy
      | cases hs

/-- The meter of a code wears, and a code that cannot be used stays so. -/
theorem lasting_meter (hstart : Begins start) (c : Code) :
    Lasting (contract cfg start) marking Uses c.meter? (Worn (c.maxAttempts cfg)) c.id where
  used := usedOnce
  trace := hstart.trace
  none := by
    cases c with
    | registration pendingId codeHash =>
        have hnone : pending? (contract cfg start).start.db pendingId = none :=
          pending?_eq_none.mpr (hstart.find?_eq_none (k := .pending pendingId) (by simp))
        simp [Code.meter?, hnone]
    | reset requestId =>
        have hnone : reset? (contract cfg start).start.db requestId = none :=
          reset?_eq_none.mpr (hstart.find?_eq_none (k := .reset requestId) (by simp))
        simp [Code.meter?, hnone]
  refl := Worn.refl _
  trans := Worn.trans
  same := by
    intro t s ws S m m' hC hfresh hm hm'
    cases c with
    | registration pendingId codeHash =>
        obtain ⟨x, hx, rfl, rfl⟩ := meter?_registration.mp hm
        obtain ⟨y, hy, hcode, rfl⟩ := meter?_registration.mp hm'
        have hmarked : s.marked = true →
            ¬ (.insert (.pending y) ∈ ws ∨ .update (.pending y) ∈ ws) :=
          fun hs hmem => hfresh ⟨s, ws, rfl, Or.inr ⟨hs, y, hmem, congrArg Hash.salt hcode⟩⟩
        rcases pending_after hC.1.changes hy with ⟨hold, -⟩ | hnew | ⟨hnew, -⟩
        · cases hx.symm.trans hold
          exact Worn.refl _ _
        · cases hC.1.changes _ hnew with
          | insert _ _ hs _ _ _ => exact absurd (Or.inl hnew) (hmarked hs)
        · cases hs : s.marked with
          | true => exact absurd (Or.inr hnew) (hmarked hs)
          | false =>
              obtain ⟨z, hz, -, hworn⟩ := hC.1.pending_update hs hnew
              rw [pending?_id hy, hx] at hz
              cases hz
              exact hworn
    | reset requestId =>
        obtain ⟨x, hx, hunused, rfl⟩ := meter?_reset.mp hm
        obtain ⟨y, hy, hopen, rfl⟩ := meter?_reset.mp hm'
        have hsame := (lasting_reset hstart requestId).same hC hfresh hx hy
        exact Or.inr ⟨hsame.attemptCount, hsame.expiresAt, hsame.expiresAt⟩
  new := by
    intro t s ws S m hC hnone hm
    cases c with
    | registration pendingId codeHash =>
        obtain ⟨y, hy, rfl, -⟩ := meter?_registration.mp hm
        have hbefore : ∀ x, pending? S.db pendingId = some x → x.codeHash ≠ y.codeHash :=
          fun x hx hcode => by
            rw [meter?_registration.mpr ⟨x, hx, hcode, rfl⟩] at hnone
            cases hnone
        rcases pending_after hC.1.changes hy with ⟨hold, -⟩ | hnew | ⟨hnew, -⟩
        · exact absurd rfl (hbefore y hold)
        · cases hC.1.changes _ hnew with
          | insert _ _ hs _ _ _ => exact ⟨s, ws, rfl, Or.inr ⟨hs, y, Or.inl hnew, rfl⟩⟩
        · cases hs : s.marked with
          | true => exact ⟨s, ws, rfl, Or.inr ⟨hs, y, Or.inr hnew, rfl⟩⟩
          | false =>
              obtain ⟨x, hx, hcode, -⟩ := hC.1.pending_update hs hnew
              exact absurd hcode.symm (hbefore x (pending?_id hy ▸ hx))
    | reset requestId =>
        obtain ⟨y, hy, hopen, -⟩ := meter?_reset.mp hm
        have hbefore : ∀ x, reset? S.db requestId = some x → x.usedAt ≠ none :=
          fun x hx hunused => by
            rw [meter?_reset.mpr ⟨x, hx, hunused, rfl⟩] at hnone
            cases hnone
        rcases reset_after hC.1.changes hy with ⟨hold, -⟩ | hnew | ⟨-, x, hx, hunused, -⟩
        · exact absurd hopen (hbefore y hold)
        · exact reset?_id hy ▸ Uses.of_insert hnew
        · exact absurd hunused (hbefore x hx)

-- ========================================================= what calls have read

theorem Code.tests_eq {c : Code} (h : c.tests e = true) :
    ∃ ok, e.event = .enter (c.test ok) := by
  unfold Code.tests at h
  split at h
  next hev =>
      simp only [Bool.or_eq_true, decide_eq_true_eq] at h
      rcases h with rfl | rfl
      · exact ⟨true, hev⟩
      · exact ⟨false, hev⟩
  next => cases h

theorem Code.misses_iff {c : Code} : c.misses e = true ↔ e.event = .enter (c.test false) := by
  unfold Code.misses
  split
  next s hev => simp [hev]
  next hev => simpa using hev _

theorem Code.tests_of_event {c : Code} {ok : Bool} (h : e.event = .enter (c.test ok)) :
    c.tests e = true := by
  cases ok <;> simp [Code.tests, h]

theorem Code.named_test (c : Code) (ok : Bool) : (c.test ok).named = true := by
  cases c <;> rfl

/-- A call compares one code, once. -/
theorem Runs.tests_once (hstart : Begins start) (h : Runs (contract cfg start) S)
    {newer older : List AEntry} (htr : S.trace = newer ++ e :: older) {c c' : Code}
    (htests : c.tests e = true) {e' : AEntry} (he' : e' ∈ older) (htests' : c'.tests e' = true) :
    e'.tid ≠ e.tid := by
  intro ht
  obtain ⟨S₀, S₁, hpast, rfl⟩ := h.at hstart.trace htr
  obtain ⟨ok, hev⟩ := Code.tests_eq htests
  obtain ⟨ok', hev'⟩ := Code.tests_eq htests'
  have henters := hpast.promised
  rw [hev] at henters
  have hnamed : named S₀ e.tid = [] := by
    cases c with
    | registration => exact henters.1
    | reset => exact henters.1
  have hmem : c'.test ok' ∈ named S₀ e'.tid :=
    Shared.mem_entered he' hev' (Code.named_test c' ok')
  rw [ht, hnamed] at hmem
  cases hmem

/-- Two comparisons of a call are one. -/
theorem Runs.tests_unique (hstart : Begins start) (h : Runs (contract cfg start) S) {c : Code}
    {e' : AEntry} (he : e ∈ S.trace) (he' : e' ∈ S.trace) (htests : c.tests e = true)
    (htests' : c.tests e' = true) (ht : e'.tid = e.tid) : e' = e := by
  refine eq_of_never_again (P := fun x => x.tid = e.tid ∧ c.tests x = true) ?_ he he'
    ⟨rfl, htests⟩ ⟨ht, htests'⟩
  rintro newer x older htr ⟨hx, hxtests⟩ y hy ⟨hyt, hytests⟩
  obtain ⟨newest, between, rfl⟩ := List.append_of_mem hy
  rw [List.append_assoc] at htr
  exact Runs.tests_once hstart h htr hytests
    (List.mem_append_right between List.mem_cons_self) hxtests (hx.trans hyt.symm)

/-- A call compares a code after it has read a row with attempts left. -/
theorem Runs.tests_read (hstart : Begins start) (h : Runs (contract cfg start) S)
    {newer older : List AEntry} (htr : S.trace = newer ++ e :: older) {c : Code}
    (htests : c.tests e = true) : ∃ r ∈ older, r.tid = e.tid ∧ c.reads r = true ∧
      ∃ m, c.meter? r.before.db = some m ∧ m.attemptCount < c.maxAttempts cfg := by
  obtain ⟨S₀, S₁, hpast, rfl⟩ := h.at hstart.trace htr
  obtain ⟨ok, hev⟩ := Code.tests_eq htests
  have henters := hpast.promised
  rw [hev] at henters
  cases c with
  | registration pendingId codeHash =>
      obtain ⟨-, email, code, read, -, -, ⟨r, hr, ht, hread, hd⟩, hcode, hcount⟩ := henters
      exact ⟨r, hr, ht, by simp [Code.reads, Code.readAt, hread], read.meter,
        meter?_registration.mpr ⟨read, hd, hcode, rfl⟩, hcount⟩
  | reset requestId =>
      obtain ⟨-, email, code, newPassword, userId, read, -, -, ⟨r, hr, ht, hread, hd⟩, hunused,
        hcount⟩ := henters
      exact ⟨r, hr, ht, by simp [Code.reads, Code.readAt, hread], read.meter,
        meter?_reset.mpr ⟨read, hd, hunused, rfl⟩, hcount⟩

/-- A call uses a code up after it has compared it with the right one, and has
read a row with attempts left. -/
theorem Runs.uses_read (hstart : Begins start) (h : Runs (contract cfg start) S)
    {newer older : List AEntry} (htr : S.trace = newer ++ e :: older) {c : Code}
    (huses : c.uses e = true) : (∃ r ∈ older, r.tid = e.tid ∧ c.reads r = true ∧
      ∃ m, c.meter? r.before.db = some m ∧ m.attemptCount < c.maxAttempts cfg) ∧
      ∃ e' ∈ older, e'.tid = e.tid ∧ e'.event = .enter (c.test true) := by
  obtain ⟨S₀, S₁, hpast, rfl⟩ := h.at hstart.trace htr
  unfold Code.uses at huses
  split at huses
  next s ws hev =>
      have hC := (hpast.commit hev).1.1
      unfold Code.usedAt at huses
      split at huses
      next pendingId codeHash email i hash =>
          simp only [Bool.and_eq_true, decide_eq_true_eq] at huses
          obtain ⟨rfl, rfl⟩ := huses
          obtain ⟨_, x, read, _, _, _, _, _, _, -, -, ⟨⟨r, hr, ht, hread, hd, hcode, hcount⟩,
            htested⟩, -⟩ := hC
          exact ⟨⟨r, hr, ht, by simp [Code.reads, Code.readAt, hread], read.meter,
            meter?_registration.mpr ⟨read, hd, hcode, rfl⟩, hcount⟩, htested⟩
      next requestId userId i =>
          obtain rfl := of_decide_eq_true huses
          obtain ⟨_, _, _, x, read, _, _, _, _, _, -, ⟨⟨r, hr, ht, hread, hd, hunused, hcount⟩,
            htested⟩, -⟩ := hC
          exact ⟨⟨r, hr, ht, by simp [Code.reads, Code.readAt, hread], read.meter,
            meter?_reset.mpr ⟨read, hd, hunused, rfl⟩, hcount⟩, htested⟩
      next => cases huses
  next => cases huses

-- ============================================================= what they record

/-- What a call has read of a code is behind what a later one finds, if in
between the code was found with another count. -/
theorem Runs.above_of_miss (hstart : Begins start) (h : Runs (contract cfg start) S) {c : Code}
    {r : AEntry} (hr : r ∈ S.trace) {m m' : Meter} (hm : c.meter? r.before.db = some m)
    (hmiss : ∀ m₁, c.meter? S.db = some m₁ → m₁.expiresAt = m.expiresAt →
      m₁.pendingExpiresAt = m.pendingExpiresAt → m₁.attemptCount ≠ m.attemptCount)
    (hsteps : Steps (contract cfg start) S S') (hm' : c.meter? S'.db = some m') :
    m.attemptCount < m'.attemptCount ∨ c.maxAttempts cfg ≤ m'.attemptCount := by
  have hpersists := Runs.persists (lasting_meter hstart c) h
  cases hfound : c.meter? S.db with
  | none =>
      have hgone := Steps.stays_gone (lasting_meter hstart c) h (hpersists.seen r hr m hm) hfound
        hsteps
      cases hgone.symm.trans hm'
  | some m₁ =>
      rcases Steps.same (lasting_meter hstart c) h hsteps hfound hm' with hlimit | ⟨hle, -, -⟩
      · exact Or.inr hlimit
      · rcases hpersists.same r hr m m₁ hm hfound with hlimit | ⟨hle', hexpires, hpending⟩
        · exact Or.inr (Nat.le_trans hlimit hle)
        · have hne := hmiss m₁ hfound hexpires hpending
          exact Or.inl (by omega)

/-- So is what was counted. -/
theorem Runs.above_of_hit (hstart : Begins start) (h : Runs (contract cfg start) S) {c : Code}
    {r : AEntry} (hr : r ∈ S.trace) {m m' : Meter} (hm : c.meter? r.before.db = some m)
    (hhit : ∀ m₁, c.meter? S.db = some m₁ → m.attemptCount < m₁.attemptCount)
    (hsteps : Steps (contract cfg start) S S') (hm' : c.meter? S'.db = some m') :
    m.attemptCount < m'.attemptCount ∨ c.maxAttempts cfg ≤ m'.attemptCount := by
  have hpersists := Runs.persists (lasting_meter hstart c) h
  cases hfound : c.meter? S.db with
  | none =>
      have hgone := Steps.stays_gone (lasting_meter hstart c) h (hpersists.seen r hr m hm) hfound
        hsteps
      cases hgone.symm.trans hm'
  | some m₁ =>
      rcases Steps.same (lasting_meter hstart c) h hsteps hfound hm' with hlimit | ⟨hle, -, -⟩
      · exact Or.inr hlimit
      · exact Or.inl (Nat.lt_of_lt_of_le (hhit m₁ hfound) hle)

/-- Where recording writes, the row has one attempt more. -/
theorem pending_counted {pendingId : Id} {limit : Nat} {x y z : PendingRegistration}
    (hchanges : ∀ w ∈ ws, Change t s S w) (hx : pending? S.db pendingId = some x)
    (hy : y = { x with attemptCount := x.attemptCount + 1 } ∨ ∃ expiresAt,
      y = { x with attemptCount := x.attemptCount + 1, expiresAt } ∧ limit ≤ x.attemptCount + 1)
    (hws : ws = [.update (.pending y)] ∨
      ws = [.update (.pending { x with attemptCount := x.attemptCount + 1 }),
        .update (.pending y)])
    (hz : pending? (applyAll ws S.db) pendingId = some z) :
    z.attemptCount = x.attemptCount + 1 := by
  have hid : y.id = pendingId ∧ y.attemptCount = x.attemptCount + 1 := by
    have hxid := pending?_id hx
    rcases hy with rfl | ⟨_, rfl, -⟩ <;> exact ⟨hxid, rfl⟩
  have hmem : .update (.pending y) ∈ ws := by
    rcases hws with rfl | rfl <;> simp
  rcases pending_after hchanges hz with ⟨-, hkept⟩ | hnew | ⟨hnew, -⟩
  · exact absurd (congrArg Key.pending hid.1) (hkept _ hmem)
  · rcases hws with rfl | rfl <;> simp at hnew
  · rcases hws with rfl | rfl
    · cases List.mem_singleton.mp hnew
      exact hid.2
    · simp only [List.mem_cons, List.not_mem_nil, or_false, Write.update.injEq,
        Row.pending.injEq] at hnew
      rcases hnew with rfl | rfl
      · rfl
      · exact hid.2

theorem reset_counted {requestId : Id} {limit : Nat} {x y z : PasswordResetRequest}
    (hchanges : ∀ w ∈ ws, Change t s S w) (hx : reset? S.db requestId = some x)
    (hy : y = { x with attemptCount := x.attemptCount + 1 } ∨ ∃ usedAt,
      y = { x with attemptCount := x.attemptCount + 1, usedAt := some usedAt } ∧
        limit ≤ x.attemptCount + 1)
    (hws : ws = [.update (.reset y)] ∨
      ws = [.update (.reset { x with attemptCount := x.attemptCount + 1 }),
        .update (.reset y)])
    (hz : reset? (applyAll ws S.db) requestId = some z) :
    z.attemptCount = x.attemptCount + 1 := by
  have hid : y.id = requestId ∧ y.attemptCount = x.attemptCount + 1 := by
    have hxid := reset?_id hx
    rcases hy with rfl | ⟨_, rfl, -⟩ <;> exact ⟨hxid, rfl⟩
  have hmem : .update (.reset y) ∈ ws := by
    rcases hws with rfl | rfl <;> simp
  rcases reset_after hchanges hz with ⟨-, hkept⟩ | hnew | ⟨hnew, -⟩
  · exact absurd (congrArg Key.reset hid.1) (hkept _ hmem)
  · rcases hws with rfl | rfl <;> simp at hnew
  · rcases hws with rfl | rfl
    · cases List.mem_singleton.mp hnew
      exact hid.2
    · simp only [List.mem_cons, List.not_mem_nil, or_false, Write.update.injEq,
        Row.reset.injEq] at hnew
      rcases hnew with rfl | rfl
      · rfl
      · exact hid.2

/-- Once a call has recorded its wrong code, the count is above the one it has
read. -/
theorem Runs.recorded_above (hstart : Begins start) {S₀ S₁ : AState} {c : Code}
    (hpast : Past (contract cfg start) e S₀ S₁ S) (hrecords : c.records e = true) :
    (∃ e' ∈ S₀.trace, e'.tid = e.tid ∧ e'.event = .enter (c.test false)) ∧
    ∃ r ∈ S₀.trace, r.tid = e.tid ∧ c.reads r = true ∧ ∃ m, c.meter? r.before.db = some m ∧
      ∀ m', c.meter? S.db = some m' →
        m.attemptCount < m'.attemptCount ∨ c.maxAttempts cfg ≤ m'.attemptCount := by
  unfold Code.records at hrecords
  split at hrecords
  next s ws hev =>
      obtain rfl := of_decide_eq_true hrecords
      obtain ⟨hC, hS₁⟩ := hpast.commit hev
      have hall : Steps (contract cfg start) S₀ S :=
        Relation.ReflTransGen.head ⟨_, hpast.move⟩ hpast.steps
      cases c with
      | registration pendingId codeHash =>
          obtain ⟨htested, ⟨rfl, email, read, hcode, newer, d, older, htr, -, hmiss, r, hr, ht,
            hread, hd⟩ | ⟨x, y, hx, hcode, ⟨email, r, hr, ht, hread, read, hd, hreadCode, hcount⟩,
            hy, hws⟩⟩ := hC.1
          · obtain ⟨S₂, S₃, hpast₂, rfl⟩ := hpast.runs.at hstart.trace htr
            have hm : (Code.registration pendingId codeHash).meter? r.before.db = some read.meter :=
              meter?_registration.mpr ⟨read, hd, hcode, rfl⟩
            refine ⟨htested, r, ?_, ht, by simp [Code.reads, Code.readAt, hread], _, hm,
              fun m' hm' => Runs.above_of_miss hstart hpast₂.runs hr hm ?_
                ((Relation.ReflTransGen.head ⟨_, hpast₂.move⟩ hpast₂.steps).trans hall) hm'⟩
            · exact ((List.suffix_cons _ _).trans hpast₂.suffix).subset hr
            · intro m₁ hm₁ hexpires hpending
              obtain ⟨x, hx, hx', rfl⟩ := meter?_registration.mp hm₁
              rw [hpast₂.scene.symm] at hmiss
              exact hmiss x hx hx' hexpires hpending
          · have hm : (Code.registration pendingId codeHash).meter? r.before.db = some read.meter :=
              meter?_registration.mpr ⟨read, hd, hreadCode, rfl⟩
            refine ⟨htested, r, hr, ht, by simp [Code.reads, Code.readAt, hread], _, hm,
              fun m' hm' => Runs.above_of_hit hstart (hpast.runs.move hpast.move)
                (hpast.move.trace_suffix.subset hr) hm ?_ hpast.steps hm'⟩
            intro m₁ hm₁
            obtain ⟨z, hz, -, rfl⟩ := meter?_registration.mp hm₁
            rw [hS₁] at hz
            have hcounted := pending_counted hC.1.changes hx hy hws hz
            simp only [PendingRegistration.meter, hcounted, hcount]
            exact Nat.lt_succ_self _
      | reset requestId =>
          obtain ⟨htested, ⟨rfl, userId, read, hunused, newer, d, older, htr, -, hmiss, r, hr, ht,
            hread, hd⟩ | ⟨x, y, hx, -, ⟨userId, r, hr, ht, hread, read, hd, hunused, hcount⟩,
            hy, hws⟩⟩ := hC.1
          · obtain ⟨S₂, S₃, hpast₂, rfl⟩ := hpast.runs.at hstart.trace htr
            have hm : (Code.reset requestId).meter? r.before.db = some read.meter :=
              meter?_reset.mpr ⟨read, hd, hunused, rfl⟩
            refine ⟨htested, r, ?_, ht, by simp [Code.reads, Code.readAt, hread], _, hm,
              fun m' hm' => Runs.above_of_miss hstart hpast₂.runs hr hm ?_
                ((Relation.ReflTransGen.head ⟨_, hpast₂.move⟩ hpast₂.steps).trans hall) hm'⟩
            · exact ((List.suffix_cons _ _).trans hpast₂.suffix).subset hr
            · intro m₁ hm₁ hexpires _
              obtain ⟨x, hx, hopen, rfl⟩ := meter?_reset.mp hm₁
              rw [hpast₂.scene.symm] at hmiss
              exact hmiss x hx hopen hexpires
          · have hm : (Code.reset requestId).meter? r.before.db = some read.meter :=
              meter?_reset.mpr ⟨read, hd, hunused, rfl⟩
            refine ⟨htested, r, hr, ht, by simp [Code.reads, Code.readAt, hread], _, hm,
              fun m' hm' => Runs.above_of_hit hstart (hpast.runs.move hpast.move)
                (hpast.move.trace_suffix.subset hr) hm ?_ hpast.steps hm'⟩
            intro m₁ hm₁
            obtain ⟨z, hz, -, rfl⟩ := meter?_reset.mp hm₁
            rw [hS₁] at hz
            have hcounted := reset_counted hC.1.changes hx hy hws hz
            simp only [PasswordResetRequest.meter, hcounted, hcount]
            exact Nat.lt_succ_self _
  next => cases hrecords

-- ============================================================== the budget

/-- A wrong code that another call compared. -/
def Code.missedBy (c : Code) (t : Tid) (e : AEntry) : Bool := c.misses e && e.tid ≠ t

/-- Whoever touches a code has read a count that is not below the number of
wrong codes of the others before. -/
theorem Runs.counted (hstart : Begins start) (h : Runs (contract cfg start) S) {c : Code}
    (hrecorded : c.recorded S.trace = true) : ∀ n newer e older, older.length = n →
      S.trace = newer ++ e :: older → c.touches e = true →
      ∀ r ∈ older, r.tid = e.tid → c.reads r = true → ∀ m, c.meter? r.before.db = some m →
        c.maxAttempts cfg ≤ m.attemptCount ∨ older.countP (c.missedBy e.tid) ≤ m.attemptCount := by
  intro n
  induction n using Nat.strong_induction_on with
  | _ n ih =>
  intro newer e older hlength htr htouches r hr hrt hreads m hm
  cases hfind : older.find? (c.missedBy e.tid) with
  | none =>
      refine Or.inr ?_
      rw [List.countP_eq_zero.mpr fun x hx => List.find?_eq_none.mp hfind x hx]
      exact Nat.zero_le _
  | some e' =>
      -- the last wrong code of another, and what was before it
      obtain ⟨hmissed, mid, older', rfl, hmid⟩ := List.find?_eq_some_iff_append.mp hfind
      obtain ⟨hmisses, ht'⟩ : c.misses e' = true ∧ e'.tid ≠ e.tid := by
        simpa [Code.missedBy] using hmissed
      have htests : c.tests e' = true := Code.tests_of_event (Code.misses_iff.mp hmisses)
      have hbehind := Code.behind_of_touches hrecorded htr htouches (by simp) hmisses ht'
      obtain ⟨m₁, past, hsplit⟩ := List.append_of_mem hr
      obtain ⟨b, hb, hbt, hrecords⟩ := Code.exists_record hbehind hsplit hrt hreads
      obtain ⟨k, older_b, rfl⟩ := List.append_of_mem hb
      -- the state in which the row was read, and the recording before it
      have htr_r : S.trace = (newer ++ e :: m₁) ++ r :: (k ++ b :: older_b) := by
        rw [htr, hsplit]
        simp
      obtain ⟨S_r, _, hpast_r, hS_r⟩ := h.at hstart.trace htr_r
      obtain ⟨S_b, _, hpast_b, rfl⟩ := hpast_r.runs.at hstart.trace hS_r
      obtain ⟨⟨e'', he'', he''t, hev''⟩, r', hr', hr't, hreads', m', hm', habove⟩ :=
        Runs.recorded_above hstart hpast_b hrecords
      have htr_b : S.trace = (newer ++ e :: m₁ ++ r :: k) ++ b :: S_b.trace := by
        rw [htr_r]
        simp
      have hshorter : S_b.trace.length < n := by
        rw [← hlength, hsplit]
        simp only [List.length_append, List.length_cons]
        omega
      have hprevious := ih _ hshorter _ b S_b.trace rfl htr_b
        (by simp [Code.touches, hrecords]) r' hr' hr't hreads' m' hm'
      have hgrown := habove m (by rw [hpast_r.scene]; exact hm)
      -- the wrong codes before the last one are before its recording
      have htr' : S.trace = (newer ++ e :: mid) ++ e' :: older' := by
        rw [htr]
        simp
      have hmissed_at : older' <:+ S.trace := (List.suffix_cons e' _).trans ⟨_, htr'.symm⟩
      have hrecorded_at : S_b.trace <:+ S.trace := (List.suffix_cons b _).trans ⟨_, htr_b.symm⟩
      have holder : older' <:+ S_b.trace := by
        rcases List.suffix_or_suffix_of_suffix hmissed_at hrecorded_at with hsuffix | hsuffix
        · exact hsuffix
        · exact absurd (he''t.trans hbt)
            (Runs.tests_once hstart h htr' htests (hsuffix.subset he'')
              (Code.tests_of_event hev''))
      have hcount : older'.countP (c.missedBy e.tid) ≤ S_b.trace.countP (c.missedBy b.tid) := by
        refine Nat.le_trans (List.countP_mono_left fun x hx hmissed => ?_)
          holder.sublist.countP_le
        have hx' : c.misses x = true := ((Bool.and_eq_true _ _).mp hmissed).1
        have hne := Runs.tests_once hstart h htr' htests hx
          (Code.tests_of_event (Code.misses_iff.mp hx'))
        simpa [Code.missedBy, hx', hbt] using hne
      have hzero : mid.countP (c.missedBy e.tid) = 0 :=
        List.countP_eq_zero.mpr fun x hx => by simpa using hmid x hx
      rw [List.countP_append, List.countP_cons, hzero, hmissed]
      simp only [if_true]
      omega

/-- Where a call compares or uses a code, it has read a count that is not below
the number of wrong codes before. -/
theorem Runs.below_limit (hstart : Begins start) (h : Runs (contract cfg start) S) {c : Code}
    (hrecorded : c.recorded S.trace = true) {newer older : List AEntry}
    (htr : S.trace = newer ++ e :: older) (htouches : c.touches e = true)
    (hown : ∀ e' ∈ older, c.misses e' = true → e'.tid ≠ e.tid)
    (hread : ∃ r ∈ older, r.tid = e.tid ∧ c.reads r = true ∧
      ∃ m, c.meter? r.before.db = some m ∧ m.attemptCount < c.maxAttempts cfg) :
    older.countP c.misses < c.maxAttempts cfg := by
  obtain ⟨r, hr, hrt, hreads, m, hm, hlimit⟩ := hread
  have hothers : older.countP c.misses ≤ older.countP (c.missedBy e.tid) :=
    List.countP_mono_left fun x hx hmisses => by
      simpa [Code.missedBy, hmisses] using hown x hx hmisses
  rcases Runs.counted hstart h hrecorded _ newer e older rfl htr htouches r hr hrt hreads m hm
    with hfull | hle
  · omega
  · omega

/-- The budget of a code: so many wrong codes are compared with it at most, and
after that it is not used up any more. -/
structure GuessBudget (cfg : Config) (S : AState) (c : Code) : Prop where
  missed : S.trace.countP c.misses ≤ c.maxAttempts cfg
  closed : ∀ newer e older, S.trace = newer ++ e :: older → c.uses e = true →
    older.countP c.misses < c.maxAttempts cfg

/-- The guesses at a code are limited, as long as every call that compares it
has read its row after the wrong codes before were recorded. -/
theorem guesses_limited (h : Reached cfg w) (c : Code)
    (hrecorded : c.recorded w.shared.trace = true) : GuessBudget cfg w.shared c := by
  obtain ⟨start, hstart, hruns⟩ := h.runs
  refine ⟨?_, fun newer e older htr huses => ?_⟩
  · cases hfind : w.shared.trace.find? c.misses with
    | none =>
        rw [List.countP_eq_zero.mpr fun x hx => List.find?_eq_none.mp hfind x hx]
        exact Nat.zero_le _
    | some e =>
        -- the last wrong code was compared below the limit
        obtain ⟨hmisses, newer, older, htr, hnewer⟩ := List.find?_eq_some_iff_append.mp hfind
        have htests : c.tests e = true := Code.tests_of_event (Code.misses_iff.mp hmisses)
        have hbelow := Runs.below_limit hstart hruns hrecorded htr (by simp [Code.touches, htests])
          (fun e' he' hmisses' => Runs.tests_once hstart hruns htr htests he'
            (Code.tests_of_event (Code.misses_iff.mp hmisses')))
          (Runs.tests_read hstart hruns htr htests)
        have hzero : newer.countP c.misses = 0 :=
          List.countP_eq_zero.mpr fun x hx => by simpa using hnewer x hx
        rw [htr, List.countP_append, List.countP_cons, hzero, hmisses]
        simp only [if_true]
        omega
  · obtain ⟨hread, e', he', ht', hev'⟩ := Runs.uses_read hstart hruns htr huses
    refine Runs.below_limit hstart hruns hrecorded htr (by simp [Code.touches, huses])
      (fun x hx hmisses hxt => ?_) hread
    -- its own comparison was the right one
    have hmem : ∀ {y : AEntry}, y ∈ older → y ∈ w.shared.trace := fun hy => by
      rw [htr]
      exact List.mem_append_right _ (List.mem_cons_of_mem _ hy)
    have hevx := Code.misses_iff.mp hmisses
    have hsame := Runs.tests_unique hstart hruns (hmem he') (hmem hx) (Code.tests_of_event hev')
      (Code.tests_of_event hevx) (hxt.trans ht'.symm)
    rw [hsame, hev', Event.enter.injEq] at hevx
    cases c <;> cases hevx

/-- The code of the newcomer. -/
def newcomerCode : Code := .registration 12 ⟨11, .text "000007"⟩

/-- The newcomer mistypes the code once, and is verified with the right one. -/
theorem guesses_limited_mistyped : ∃ w, Reached sampleConfig w ∧
    w.shared.trace.countP newcomerCode.misses = 1 ∧
    w.shared.trace.any newcomerCode.uses = true ∧
    GuessBudget sampleConfig w.shared newcomerCode := by
  have hrun : (sampleWorld.runAll (app sampleConfig) (newcomerRegistered
      ++ .spawn 2 (.verifyRegistration "new@example.com" "000008") :: steps 2 9
      ++ .spawn 3 (.verifyRegistration "new@example.com" "000007") :: steps 3 19)).any
      (fun w => newcomerCode.recorded w.shared.trace &&
        w.shared.trace.countP newcomerCode.misses == 1 &&
        w.shared.trace.any newcomerCode.uses) = true := by
    decide +kernel
  obtain ⟨w, hw, hp⟩ := exists_reached hrun
  simp only [Bool.and_eq_true, beq_iff_eq] at hp
  obtain ⟨⟨hrecorded, hmissed⟩, huses⟩ := hp
  exact ⟨w, hw, hmissed, huses, guesses_limited hw _ hrecorded⟩

/-- Three calls read the row of the newcomer before any of them compares its
code. -/
def guessedAtOnce : List (Action Req Choice) :=
  newcomerRegistered ++ .spawn 2 (.verifyRegistration "new@example.com" "000001") :: steps 2 4
    ++ .spawn 3 (.verifyRegistration "new@example.com" "000002") :: steps 3 4
    ++ .spawn 4 (.verifyRegistration "new@example.com" "000003") :: steps 4 4
    ++ steps 2 1 ++ steps 3 1 ++ steps 4 1

/-- Three wrong codes are compared, and two are allowed. -/
theorem guesses_exceeded : ∃ cfg w c, Reached cfg w ∧ ¬ GuessBudget cfg w.shared c := by
  have hrun : (sampleWorld.runAll (app sampleConfig) guessedAtOnce).any (fun w =>
      w.shared.trace.countP newcomerCode.misses == 3) = true := by
    decide +kernel
  obtain ⟨w, hw, hp⟩ := exists_reached hrun
  refine ⟨sampleConfig, w, newcomerCode, hw, fun h => ?_⟩
  have hlimit := h.missed
  rw [beq_iff_eq.mp hp] at hlimit
  exact absurd hlimit (by decide)

end FastRep.Auth
