/-
What a password reset does to the sessions of its user.

The reset deletes the refresh tokens that its `deleteMany` finds. A token can
still be inserted by a call that began before: a login that compared the old
password inserts its token afterwards, whatever the stored hash is by then, and
a rotation that commits between the `deleteMany` and the commit of the reset
leaves a token that was not found. Where neither happens (`revoking`), the
sessions are those of logins with the new password.

# The users

A user that is stored is not inserted again (`Runs.user_once`): its id was
there before the first id was drawn, or a verification has used it up. So the
token of a verification is never one of a user who was there, and the stored
hash changes by resets alone (`Effect.sets`).

# The sessions

At the commit of a reset no token of the user is left (`Runs.revoked`). From
there on the stored hash was set by a reset since, and every token stems from
a login that compared such a hash (`Runs.after`): a rotation hands on the
origin of the token it was given, and a login inserts only while the hash it
compared is stored.
-/
import FastRep.Auth.Proofs.Rotation

namespace FastRep.Auth

open FastRep.Txn

variable {cfg : Config} {start : AState} {t : Tid} {s : Site} {S S' : AState}
  {ws : List (Write Row Key)} {userId i : Id} {e : AEntry} {w : AWorld}

-- ============================================================ the sessions

/-- The hash that a password of the user was compared with, and matched. -/
def comparedHash (userId : Id) (e : AEntry) : Option Hash :=
  match e.event with
  | .enter (.testPassword i passwordHash true) => if i = userId then some passwordHash else none
  | _ => none

/-- The entry inserts the token of a login. -/
def logsIn (userId tokenId : Id) (e : AEntry) : Bool :=
  match e.event with
  | .commit (.createToken i j) _ => i = userId && j = tokenId
  | _ => false

/-- The write gives a user its password. -/
def writesHash (userId : Id) (passwordHash : Hash) : Write Row Key → Bool
  | .update (.user u) => u.id = userId && u.passwordHash = passwordHash
  | _ => false

/-- The entry is a reset that gives the user its password. -/
def setsHash (userId : Id) (passwordHash : Hash) (e : AEntry) : Bool :=
  match e.event with
  | .commit (.resetPassword i _) ws => i = userId && ws.any (writesHash userId passwordHash)
  | _ => false

/-- The token stems, by rotations, from a login that compared the password
with a hash that was set by one of the entries. -/
def StemsFrom (S : AState) (entries : List AEntry) (userId tokenId : Id) : Prop :=
  ∃ root, Descends S.trace root tokenId ∧ ∃ e ∈ S.trace, logsIn userId root e = true ∧
    ∃ e' ∈ S.trace, e'.tid = e.tid ∧ ∃ passwordHash, comparedHash userId e' = some passwordHash ∧
      ∃ e'' ∈ entries, setsHash userId passwordHash e'' = true

theorem setsHash_event {passwordHash : Hash} (h : setsHash userId passwordHash e = true) :
    ∃ requestId ws, e.event = .commit (.resetPassword userId requestId) ws := by
  unfold setsHash at h
  split at h
  next requestId ws hev =>
      obtain ⟨rfl, -⟩ : _ = userId ∧ _ := by simpa using h
      exact ⟨requestId, ws, hev⟩
  next => cases h

-- =========================================================== the condition

/-- The password hash of a user. -/
def storedHash (d : Db Row) (userId : Id) : Option Hash := (user? d userId).map (·.passwordHash)

/-- The entry inserts the token of a login that compared a hash which is not
stored any more. -/
def outdated (userId : Id) (e : AEntry) (past : List AEntry) : Bool :=
  match e.event with
  | .commit (.createToken i _) _ => i = userId && past.any fun e' => e'.tid = e.tid &&
      (comparedHash userId e').any fun h => storedHash e.before.db userId ≠ some h
  | _ => false

/-- The write inserts a token of the user. -/
def insertsTokenOf (userId : Id) : Write Row Key → Bool
  | .insert (.token y) => y.userId = userId
  | _ => false

/-- The entry commits a token of the user. -/
def commitsTokenOf (userId : Id) (e : AEntry) : Bool :=
  match e.event with
  | .commit _ ws => ws.any (insertsTokenOf userId)
  | _ => false

/-- The entry is a reset, and a token of the user was committed after its
`deleteMany` had found what to delete. -/
def bypassed (userId : Id) (e : AEntry) (past : List AEntry) : Bool :=
  match e.event with
  | .commit (.resetPassword i r) _ => i = userId && past.any fun e' =>
      commitsTokenOf userId e' && e'.before.opens.any fun o =>
        o.tid = e.tid && o.site = .resetPassword i r && 5 ≤ o.done
  | _ => false

/-- Every login inserts its token while the hash it compared is stored, and no
token is inserted while a reset deletes. -/
def revoking (userId : Id) : List AEntry → Bool
  | [] => true
  | e :: past => !outdated userId e past && !bypassed userId e past && revoking userId past

theorem revoking_of_suffix {l l' : List AEntry} (hl : l <:+ l')
    (h : revoking userId l' = true) : revoking userId l = true := by
  induction l' with
  | nil =>
      rw [List.suffix_nil.mp hl]
      rfl
  | cons e past ih =>
      rcases List.suffix_cons_iff.mp hl with rfl | hl
      · exact h
      · exact ih hl ((Bool.and_eq_true _ _).mp h).2

theorem revoking_cons {past : List AEntry} (h : revoking userId (e :: past) = true) :
    outdated userId e past = false ∧ bypassed userId e past = false := by
  simpa using ((Bool.and_eq_true _ _).mp h).1

-- =============================================================== the users

/-- A user that is stored was there from the start, or a commit has used its
id up. -/
theorem Runs.user_made (hstart : Begins start) (h : Runs (contract cfg start) S) {x : User}
    (hx : user? S.db i = some x) : i < start.nextId ∨ S.Used Uses i := by
  revert x
  refine h.invariant (I := fun S => ∀ {x}, user? S.db i = some x →
    i < start.nextId ∨ S.Used Uses i) (fun {x} hx => Or.inl ?_) ?_
  · obtain ⟨u, hu, hlt⟩ := hstart.unused.rows _ (Db.mem_of_find? (user?_eq_some.mp hx))
    cases hu
    exact user?_id hx ▸ hlt
  · intro j S S' _ ih hm x hx
    rcases hm.commit_or with ⟨s, ws, hC, -, rfl⟩ | ⟨hdb, -⟩
    · have hkeep : ∀ {z}, user? S.db i = some z →
          i < start.nextId ∨ (S.commit j s ws).Used Uses i :=
        fun hz => (ih hz).imp_right fun hused => hused.mono (List.suffix_cons _ _)
      rcases user_after hC.1.changes hx with ⟨hold, -⟩ | hnew | ⟨-, z, hz, -⟩
      · exact hkeep hold
      · exact Or.inr ⟨_, List.mem_cons_self, user?_id hx ▸ Uses.of_insert hnew⟩
      · exact hkeep hz
    · exact (ih (hdb ▸ hx)).imp_right fun hused => hused.mono hm.trace_suffix

/-- A user that is stored is not inserted again. -/
theorem Runs.user_once (hstart : Begins start) (hruns : Runs (contract cfg start) S)
    (h : Runs (contract cfg start) (S.commit t s ws)) (hC : Effect cfg t s ws S) {y : User}
    (hy : .insert (.user y) ∈ ws) : user? S.db y.id = none := by
  cases hx : user? S.db y.id with
  | none => rfl
  | some x =>
      rcases Runs.user_made hstart hruns hx with hlt | ⟨e, he, hi⟩
      · cases hC.changes _ hy with
        | insert _ _ _ _ hid _ =>
            exact absurd (Nat.lt_of_lt_of_le hlt (Runs.le_of_mem_ids hstart.trace hruns hid))
              (Nat.lt_irrefl _)
      · have htr : (S.commit t s ws).trace = [] ++ ⟨t, .commit s ws, S.toScene⟩ :: S.trace := rfl
        exact absurd hi (usedOnce.not_before hstart.trace h htr he (Uses.of_insert hy))

/-- A user that is stored stays. -/
theorem Effect.user_stays (hC : Effect cfg t s ws S) {x : User} (hx : user? S.db i = some x) :
    ∃ y, user? (applyAll ws S.db) i = some y := by
  have hsome : (S.db.find? (.user i)).isSome = true := by
    rw [user?_eq_some.mp hx]
    rfl
  have hafter : ((applyAll ws S.db).find? (.user i)).isSome = true := by
    refine isSome_find?_applyAll (fun w hw => ?_) hsome
    rintro rfl
    cases hC.changes _ hw
  obtain ⟨r, hr⟩ := Option.isSome_iff_exists.mp hafter
  obtain ⟨y, rfl, -⟩ := find?_user hr
  exact ⟨y, user?_eq_some.mpr hr⟩

/-- A password is set by a reset of its user. -/
theorem Effect.sets (hC : Effect cfg t s ws S) {y : User} (hy : .update (.user y) ∈ ws) :
    ∃ requestId, s = .resetPassword y.id requestId := by
  cases hC.changes _ hy with
  | password x passwordHash requestId hx hs => exact ⟨requestId, hs⟩

-- ============================================================== the tokens

/-- What inserts a token: a login that compared the password, a rotation, or the
verification that inserts the user. -/
theorem Effect.token_insert (hC : Effect cfg t s ws S) {y : RefreshToken}
    (hy : .insert (.token y) ∈ ws) :
    (s = .createToken y.userId y.id ∧
      ∃ passwordHash, Tested S t (.testPassword y.userId passwordHash true)) ∨
    (∃ x, token? S.db x.id = some x ∧ x.userId = y.userId ∧ s = .refresh x.id y.id) ∨
    ∃ u : User, u.id = y.userId ∧ .insert (.user u) ∈ ws := by
  cases hC.changes _ hy with
  | insert _ hs _ _ _ _ =>
      cases s with
      | createToken userId tokenId =>
          obtain ⟨r, passwordHash, rfl, rfl, rfl, -, -, htested, -⟩ := hC
          cases List.mem_singleton.mp hy
          exact Or.inl ⟨rfl, passwordHash, htested⟩
      | refresh tokenId nextTokenId =>
          obtain ⟨x, r, exp, hx, rfl, huser, -, -, -, rfl⟩ := hC
          have hxid := token?_id hx
          subst hxid
          have hyr : y = r := by simpa using hy
          subst hyr
          exact Or.inr (Or.inl ⟨x, hx, huser.symm, rfl⟩)
      | verifyRegistration email pendingId codeHash =>
          obtain ⟨_, _, read, newId, now, createdAt, tokenId, tokenHash, expiresAt, -, -, -, -, -,
            -, -, -, -, -, -, rfl⟩ := hC
          have hyt : y = newToken tokenId newId tokenHash expiresAt := by simpa using hy
          subst hyt
          exact Or.inr (Or.inr ⟨verifiedUser newId read email now createdAt, rfl, by simp⟩)
      | _ => cases hs

/-- A token that a statement did not find was inserted since. -/
theorem Runs.token_since (hstart : Begins start) (h : Runs (contract cfg start) S)
    {newer older : List AEntry} (htr : S.trace = newer ++ e :: older)
    (hstmt : e.event = .statement s) (hnone : token? e.before.db i = none) {y : RefreshToken}
    (hy : token? S.db i = some y) :
    ∃ e' ∈ newer, ∃ s' ws', e'.event = .commit s' ws' ∧ .insert (.token y) ∈ ws' := by
  refine Runs.after (I := fun newer S => ∀ y, token? S.db i = some y →
    ∃ e' ∈ newer, ∃ s' ws', e'.event = .commit s' ws' ∧ .insert (.token y) ∈ ws')
    hstart.trace h htr ?_ ?_ y hy
  · intro S₀ S₁ hpast _ y hy
    rw [hpast.db_eq (by rw [hstmt]; simp), hpast.scene, hnone] at hy
    cases hy
  · intro j S S' newer added hruns _ ih hm hadded y hy
    have hold : token? S.db i = some y → ∃ e' ∈ added ++ newer, ∃ s' ws',
        e'.event = .commit s' ws' ∧ .insert (.token y) ∈ ws' := fun hy => by
      obtain ⟨e', he', hrest⟩ := ih y hy
      exact ⟨e', List.mem_append_right _ he', hrest⟩
    rcases hm.commit_or with ⟨s, ws, hC, -, rfl⟩ | ⟨hdb, -⟩
    · rcases token_after hC.1.changes hy with hkept | hnew
      · exact hold hkept
      · have hcons : [⟨j, .commit s ws, S.toScene⟩] ++ S.trace = added ++ S.trace := hadded
        refine ⟨⟨j, .commit s ws, S.toScene⟩, List.mem_append_left _ ?_, s, ws, rfl, hnew⟩
        rw [← List.append_cancel_right hcons]
        exact List.mem_cons_self
    · exact hold (hdb ▸ hy)

/-- After the commit of a reset that was not bypassed, no token of the user is
left. -/
theorem Runs.revoked (hstart : Begins start) (hruns : Runs (contract cfg start) S)
    {requestId : Id}
    (h : Runs (contract cfg start) (S.commit t (.resetPassword userId requestId) ws))
    (hC : Effect cfg t (.resetPassword userId requestId) ws S)
    (hquiet : bypassed userId ⟨t, .commit (.resetPassword userId requestId) ws, S.toScene⟩ S.trace
      = false) {y : RefreshToken}
    (hy : token? (S.commit t (.resetPassword userId requestId) ws).db i = some y) :
    y.userId ≠ userId := by
  intro huser
  have hid := token?_id hy
  subst hid
  have hold : token? S.db y.id = some y := by
    rcases token_after hC.changes hy with hold | hnew
    · exact hold
    · cases hC.changes _ hnew with
      | insert _ hs _ _ _ _ => cases hs
  obtain ⟨_, _, _, x, read, u, passwordHash, now, closed, gone, -, -, -, -, -, -, -, -, -, -, -, -,
    ⟨newer, e, older, htr, ht, hstmt, hopen, hfound⟩, hws⟩ := id hC
  -- a token that the deleteMany did not find was committed behind its back
  have hbefore : ∃ z, token? e.before.db y.id = some z := by
    cases hz : token? e.before.db y.id with
    | some z => exact ⟨z, rfl⟩
    | none =>
        obtain ⟨e', he', s', ws', hev', hnew⟩ :=
          Runs.token_since hstart hruns htr hstmt hz hold
        obtain ⟨o, ho, hot, hos, hdone⟩ := hopen e' he'
        have hmem : e' ∈ S.trace := by
          rw [htr]
          exact List.mem_append_left _ he'
        have hcommits : commitsTokenOf userId e' = true := by
          simp only [commitsTokenOf, hev', List.any_eq_true]
          exact ⟨_, hnew, by simp [insertsTokenOf, huser]⟩
        simp only [bypassed, decide_true, Bool.true_and, List.any_eq_false] at hquiet
        refine absurd ?_ (hquiet e' hmem)
        simp only [hcommits, Bool.true_and, List.any_eq_true]
        exact ⟨o, ho, by simp [hot, hos, hdone]⟩
  obtain ⟨z, hz⟩ := hbefore
  have hpersists := Runs.persists (lasting_token hstart y.id) hruns
  have hmem : e ∈ S.trace := by
    rw [htr]
    exact List.mem_append_right _ List.mem_cons_self
  cases hpersists.same e hmem z y hz hold
  rcases hfound y (mem_tokens.mpr (Db.mem_of_find? (token?_eq_some.mp hz))) huser
    with hgone | ⟨e', he', hother⟩
  · -- what was found is deleted
    have htr' : (S.commit t (.resetPassword userId requestId) ws).trace
        = [] ++ ⟨t, .commit (.resetPassword userId requestId) ws, S.toScene⟩ :: S.trace := rfl
    have hnone := Runs.removed (i := y.id) hstart h htr' rfl (by
      rw [hws]
      exact List.mem_append_right _ (List.mem_map_of_mem hgone))
    cases hnone.symm.trans hy
  · -- what was found is still there when it comes to delete it
    obtain ⟨newest, between, rfl⟩ := List.append_of_mem he'
    rw [List.append_assoc] at htr
    obtain ⟨S₀, S₁, hpast, holder⟩ := hruns.at hstart.trace htr
    cases hz' : token? e'.before.db y.id with
    | none =>
        have hmem₀ : e ∈ S₀.trace := by
          rw [holder]
          exact List.mem_append_right _ List.mem_cons_self
        have hused := (Runs.persists (lasting_token hstart y.id) hpast.runs).seen e hmem₀ y hz
        have hsteps : Steps (contract cfg start) S₀ S :=
          Relation.ReflTransGen.head ⟨_, hpast.move⟩ hpast.steps
        have hgone := Steps.stays_gone (lasting_token hstart y.id) hpast.runs hused
          (hpast.scene ▸ hz') hsteps
        cases hgone.symm.trans hold
    | some z =>
        have hmem' : e' ∈ S.trace := by
          rw [htr]
          exact List.mem_append_right _ List.mem_cons_self
        cases hpersists.same e' hmem' z y hz' hold
        exact hother y hz' huser

-- ============================================================ the invariant

theorem Descends.mono {tr tr' : List AEntry} {root : Id} (h : Descends tr root i)
    (htr : ∀ e ∈ tr, e ∈ tr') : Descends tr' root i := by
  induction h with
  | root => exact .root
  | rotated _ he hev ih => exact .rotated ih (htr _ he) hev

theorem StemsFrom.mono {entries entries' : List AEntry} (h : StemsFrom S entries userId i)
    (htr : S.trace <:+ S'.trace) (hentries : ∀ e ∈ entries, e ∈ entries') :
    StemsFrom S' entries' userId i := by
  obtain ⟨root, hdescends, e, he, hlogin, e', he', ht, passwordHash, hcompared, e'', he'', hset⟩ := h
  exact ⟨root, hdescends.mono fun _ he => htr.subset he, e, htr.subset he, hlogin, e',
    htr.subset he', ht, passwordHash, hcompared, e'', hentries _ he'', hset⟩

/-- The stored hash of the user was set by one of the entries, and so was the
one behind each of its tokens. -/
structure Renewed (entries : List AEntry) (userId : Id) (S : AState) : Prop where
  hash : ∃ u, user? S.db userId = some u ∧ ∃ e ∈ entries, setsHash userId u.passwordHash e = true
  tokens : ∀ i y, token? S.db i = some y → y.userId = userId → StemsFrom S entries userId i

/-- The hash of the user after a commit was stored before, or is set by it. -/
theorem Effect.hash_after (hC : Effect cfg t s ws S)
    (honce : ∀ y : User, .insert (.user y) ∈ ws → user? S.db y.id = none) {x y : User}
    (hx : user? S.db i = some x) (hy : user? (applyAll ws S.db) i = some y) :
    y.passwordHash = x.passwordHash ∨
      setsHash i y.passwordHash ⟨t, .commit s ws, S.toScene⟩ = true := by
  have hid := user?_id hy
  subst hid
  rcases user_after hC.changes hy with ⟨hold, -⟩ | hnew | ⟨hnew, -⟩
  · cases hx.symm.trans hold
    exact Or.inl rfl
  · cases (honce y hnew).symm.trans hx
  · obtain ⟨requestId, rfl⟩ := hC.sets hnew
    refine Or.inr ?_
    simp only [setsHash, decide_true, Bool.true_and, List.any_eq_true]
    exact ⟨_, hnew, by simp [writesHash]⟩

/-- A commit that is not of an outdated login keeps it. -/
theorem Renewed.commit (hstart : Begins start) (hruns : Runs (contract cfg start) S)
    (h : Runs (contract cfg start) (S.commit t s ws)) (hC : Effect cfg t s ws S)
    {entries : List AEntry} (hrenewed : Renewed entries userId S)
    (hquiet : outdated userId ⟨t, .commit s ws, S.toScene⟩ S.trace = false) :
    Renewed (⟨t, .commit s ws, S.toScene⟩ :: entries) userId (S.commit t s ws) := by
  have honce : ∀ y : User, .insert (.user y) ∈ ws → user? S.db y.id = none :=
    fun y hy => Runs.user_once hstart hruns h hC hy
  have hsuffix : S.trace <:+ (S.commit t s ws).trace := List.suffix_cons _ _
  obtain ⟨x, hx, e₀, he₀, hset₀⟩ := hrenewed.hash
  refine ⟨?_, fun i y hy huser => ?_⟩
  · obtain ⟨y, hy⟩ := hC.user_stays hx
    refine ⟨y, hy, ?_⟩
    rcases hC.hash_after honce hx hy with hsame | hset
    · exact ⟨e₀, List.mem_cons_of_mem _ he₀, by rw [hsame]; exact hset₀⟩
    · exact ⟨_, List.mem_cons_self, hset⟩
  · have hold : ∀ j z, token? S.db j = some z → z.userId = userId →
        StemsFrom (S.commit t s ws) (⟨t, .commit s ws, S.toScene⟩ :: entries) userId j :=
      fun j z hz hzuser => (hrenewed.tokens j z hz hzuser).mono hsuffix
        fun _ he => List.mem_cons_of_mem _ he
    rcases token_after hC.changes hy with hkept | hnew
    · exact hold i y hkept huser
    · have hid := token?_id hy
      subst hid
      rcases hC.token_insert hnew with ⟨rfl, passwordHash, e', he', ht, hev⟩ |
        ⟨z, hz, hzuser, rfl⟩ | ⟨u, hu, huws⟩
      · -- a login inserts while the hash it compared is stored
        have hcompared : comparedHash userId e' = some passwordHash := by
          simp [comparedHash, hev, huser]
        have hstored : storedHash S.db userId = some passwordHash := by
          simp only [outdated, huser, decide_true, Bool.true_and, List.any_eq_false] at hquiet
          have hentry := hquiet e' he'
          simpa [ht, hcompared] using hentry
        have hhash : x.passwordHash = passwordHash := by simpa [storedHash, hx] using hstored
        exact ⟨y.id, .root, _, List.mem_cons_self, by simp [logsIn, huser], e',
          List.mem_cons_of_mem _ he', ht, passwordHash, hcompared, e₀,
          List.mem_cons_of_mem _ he₀, hhash ▸ hset₀⟩
      · -- a rotation hands on where its token comes from
        obtain ⟨root, hdescends, hrest⟩ := hold z.id z hz (hzuser.trans huser)
        exact ⟨root, hdescends.rotated List.mem_cons_self rfl, hrest⟩
      · -- a verification inserts another user
        have hnone := honce u huws
        rw [hu, huser] at hnone
        cases hnone.symm.trans hx

/-- So it is when the reset commits. -/
theorem Renewed.of_reset (hstart : Begins start) (hruns : Runs (contract cfg start) S)
    {requestId : Id}
    (h : Runs (contract cfg start) (S.commit t (.resetPassword userId requestId) ws))
    (hC : Effect cfg t (.resetPassword userId requestId) ws S)
    (hquiet : bypassed userId ⟨t, .commit (.resetPassword userId requestId) ws, S.toScene⟩ S.trace
      = false) :
    Renewed [⟨t, .commit (.resetPassword userId requestId) ws, S.toScene⟩] userId
      (S.commit t (.resetPassword userId requestId) ws) := by
  refine ⟨?_, fun i y hy huser => absurd huser (Runs.revoked hstart hruns h hC hquiet hy)⟩
  obtain ⟨_, _, _, x, read, u, passwordHash, now, closed, gone, -, -, -, -, -, -, -, hu, -, -, -,
    -, -, hws⟩ := id hC
  have huid := user?_id hu
  have hmem : Write.update (.user { u with passwordHash }) ∈ ws := by
    rw [hws]
    simp
  obtain ⟨y, hy⟩ := hC.user_stays hu
  refine ⟨y, hy, _, List.mem_singleton_self _, ?_⟩
  rcases user_after hC.changes hy with ⟨-, hkept⟩ | hnew | ⟨hnew, -⟩
  · exact absurd (congrArg Key.user huid) (hkept _ hmem)
  · cases hC.changes _ hnew with
    | insert _ hs _ _ _ _ => cases hs
  · simp only [setsHash, decide_true, Bool.true_and, List.any_eq_true]
    exact ⟨_, hnew, by simp [writesHash, user?_id hy]⟩

/-- The sessions of a user after each reset are those of logins with a password
that was set by it or later. -/
def SessionsRevoked (S : AState) (userId : Id) : Prop :=
  ∀ newer e older requestId ws, S.trace = newer ++ e :: older →
    e.event = .commit (.resetPassword userId requestId) ws →
    ∀ y ∈ tokens S.db, y.userId = userId → StemsFrom S (newer ++ [e]) userId y.id

/-- A reset revokes the older sessions, as long as no login inserts its token
after the hash it compared was replaced, and no token is inserted while a reset
deletes. -/
theorem sessions_revoked (h : Reached cfg w)
    (hquiet : revoking userId w.shared.trace = true) : SessionsRevoked w.shared userId := by
  obtain ⟨start, hstart, hruns⟩ := h.runs
  intro newer e older requestId ws htr hev y hy huser
  have hrenewed : revoking userId w.shared.trace = true →
      Renewed (newer ++ [e]) userId w.shared := by
    refine Runs.after (I := fun newer S => revoking userId S.trace = true →
      Renewed (newer ++ [e]) userId S) hstart.trace hruns htr ?_ ?_
    · intro S₀ S₁ hpast holder hquiet
      obtain ⟨hC, rfl⟩ := hpast.commit hev
      have he : e = ⟨e.tid, .commit (.resetPassword userId requestId) ws, S₀.toScene⟩ :=
        (List.cons.inj hpast.trace).1.symm
      have hhead := revoking_cons hquiet
      have hlast := Renewed.of_reset hstart hpast.runs (hpast.runs.move hpast.move) hC.1 hhead.2
      rw [← he] at hlast
      exact hlast
    · intro j S S' newer added hruns _ ih hm hadded hquiet
      have hbefore := ih (revoking_of_suffix hm.trace_suffix hquiet)
      rcases hm.commit_or with ⟨s, ws, hC, -, rfl⟩ | ⟨hdb, -⟩
      · have hcons : [⟨j, .commit s ws, S.toScene⟩] ++ S.trace = added ++ S.trace := hadded
        rw [← List.append_cancel_right hcons]
        exact hbefore.commit hstart hruns (hruns.move hm) hC.1 (revoking_cons hquiet).1
      · have hkeep : ∀ e' ∈ newer ++ [e], e' ∈ added ++ newer ++ [e] := fun e' he' => by
          rw [List.append_assoc]
          exact List.mem_append_right _ he'
        obtain ⟨u, hu, e', he', hset⟩ := hbefore.hash
        refine ⟨⟨u, hdb ▸ hu, e', hkeep e' he', hset⟩, fun i y hy huser => ?_⟩
        exact (hbefore.tokens i y (hdb ▸ hy) huser).mono hm.trace_suffix hkeep
  exact (hrenewed hquiet).tokens y.id y (token?_of_mem (mem_tokens.mp hy)) huser

/-- The owner asks for a code and resets the password to `q` with it. -/
def passwordReset : List (Action Req Choice) :=
  .spawn 2 (.forgotPassword "owner@example.com") :: steps 2 4 ++ .answer 2 (.drawn 8) :: steps 2 10
    ++ .answer 2 .done :: steps 2 1
    ++ .spawn 3 (.resetPassword "owner@example.com" "000008" "q") :: steps 3 18

/-- A session before the reset, and one after it: the second is left. -/
theorem sessions_revoked_renewed : ∃ w, Reached sampleConfig w ∧
    (w.shared.trace.countP (fun e => (comparedHash 1 e).isSome) = 2 ∧
      (tokens w.shared.db).map (·.userId) = [1]) ∧ SessionsRevoked w.shared 1 := by
  have hrun : (sampleWorld.runAll (app sampleConfig)
      (.spawn 1 (.login "owner@example.com" "p") :: steps 1 16 ++ passwordReset
        ++ .spawn 4 (.login "owner@example.com" "q") :: steps 4 16)).any
      (fun w => revoking 1 w.shared.trace &&
        (w.shared.trace.countP (fun e => (comparedHash 1 e).isSome) = 2 ∧
          (tokens w.shared.db).map (·.userId) = [1])) = true := by
    decide +kernel
  obtain ⟨w, hw, hp⟩ := exists_reached hrun
  obtain ⟨hquiet, hsessions⟩ := (Bool.and_eq_true _ _).mp hp
  exact ⟨w, hw, of_decide_eq_true hsessions, sessions_revoked hw hquiet⟩

/-- A login has compared the old password when the reset begins, and inserts its
token when the reset is over. -/
def loggedInMeanwhile : List (Action Req Choice) :=
  .spawn 1 (.login "owner@example.com" "p") :: steps 1 12 ++ passwordReset ++ steps 1 4

/-- No login compared a hash that a reset has set. -/
def noneRenewed (userId : Id) (tr : List AEntry) : Bool :=
  tr.all fun e => (comparedHash userId e).all fun h => tr.all fun e' => !setsHash userId h e'

/-- A session that was opened with the old password is left by the reset. -/
theorem sessions_revoked_fails : ∃ cfg w userId, Reached cfg w ∧
    ¬ SessionsRevoked w.shared userId := by
  have hrun : (sampleWorld.runAll (app sampleConfig) loggedInMeanwhile).any
      (fun w => noneRenewed 1 w.shared.trace &&
        (w.shared.trace.any (setsHash 1 ⟨14, .text "q"⟩) &&
          (tokens w.shared.db).any fun y => y.userId = 1)) = true := by
    decide +kernel
  obtain ⟨w, hw, hp⟩ := exists_reached hrun
  simp only [Bool.and_eq_true, List.any_eq_true, decide_eq_true_eq] at hp
  obtain ⟨hnone, ⟨e, he, hset⟩, y, hy, huser⟩ := hp
  refine ⟨sampleConfig, w, 1, hw, fun hrevoked => ?_⟩
  obtain ⟨requestId, ws, hev⟩ := setsHash_event hset
  obtain ⟨newer, older, htr⟩ := List.append_of_mem he
  obtain ⟨root, -, -, -, -, e', he', -, passwordHash, hcompared, e'', he'', hset'⟩ :=
    hrevoked newer e older requestId ws htr hev y hy huser
  have hmem : e'' ∈ w.shared.trace := by
    rw [htr]
    rcases List.mem_append.mp he'' with hnewer | hlast
    · exact List.mem_append_left _ hnewer
    · rw [List.mem_singleton.mp hlast]
      exact List.mem_append_right _ List.mem_cons_self
  have hall := List.all_eq_true.mp hnone e' he'
  simp only [hcompared, Option.all_some, List.all_eq_true] at hall
  have hunset := hall e'' hmem
  rw [hset'] at hunset
  cases hunset

end FastRep.Auth
