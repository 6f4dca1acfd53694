/-
The rules of triples, derived from the rules of safety.

The first section is about `Later`: which steps a thread does not notice in
what it knows. Each rule of the second section combines one of these with
the rule of the same name for safety. The rule for a transaction
(`Triple.transaction`) asks for three things: that the body is safe at each
snapshot where the precondition is known, that its commit is in the contract,
and what is known after a rollback; `TxSafe.with_known` hands what is known
down to the commit.

`Keeps` is the triple of a program that keeps what is known, value or error:
the many parts of a request that read, wait and send.
-/
import FastRep.Txn.Triple
import FastRep.Txn.Proofs.Serial

namespace FastRep.Txn

section Lasting

variable {Row Key Index ε Site Call Choice Env Req Res : Type}
  [Schema Row Key Index] [Services Call Choice Env]
  {mark : Marking Site} {t : Tid} {s : Site}
  {S S' S'' : Shared Row ε Site Call Req Res}

-- ================================================================ later

theorem Later.trans (h : Later mark t S S') (h' : Later mark t S' S'') :
    Later mark t S S'' :=
  ⟨h'.ids.trans h.ids, h'.asked.trans h.asked, h'.marks.trans h.marks,
    h'.entered.trans h.entered, fun q hq => h'.live q (h.live q hq), h.trace.trans h'.trace,
    Nat.le_trans h.clock h'.clock⟩

/-- A logged step that draws no id, spawns nothing, finishes nothing, and
commits and enters nothing marked. -/
theorem Later.log {e : Event Row ε Site Call Req Res}
    (hid : ∀ n, e ≠ .uuid n) (hask : ∀ q, e ≠ .spawn q)
    (hmark : ∀ s ws, e = .commit s ws → mark.commits s = false)
    (henter : ∀ s, e = .enter s → mark.enters s = false)
    (hlive : S'.live = S.live) (hclock : S'.clock = S.clock)
    (htr : S'.trace = ⟨t, e, S.toScene⟩ :: S.trace) : Later mark t S S' := by
  refine ⟨?_, ?_, ?_, ?_, fun q hq => hlive ▸ hq, htr ▸ List.suffix_cons _ _,
    hclock ▸ Nat.le_refl _⟩
  · rw [Shared.ids, htr]
    cases e <;> first | rfl | exact absurd rfl (hid _)
  · rw [Shared.asked, htr]
    cases e <;> first | rfl | exact absurd rfl (hask _)
  · rw [Shared.marks, Shared.committedBy, htr]
    cases e with
    | commit s ws => simp [Shared.marks, Shared.committedBy, hmark s ws rfl]
    | _ => rfl
  · rw [Shared.entered, Shared.enteredBy, htr]
    cases e with
    | enter s => simp [Shared.entered, Shared.enteredBy, henter s rfl]
    | _ => rfl

theorem Later.begin : Later mark t S (S.begin t s) :=
  Later.log (e := .begin s) (by simp) (by simp) (by simp) (by simp) rfl rfl rfl

theorem Later.rollback {e : ε} : Later mark t S (S.rollback t s e) :=
  Later.log (e := .rollback s e) (by simp) (by simp) (by simp) (by simp) rfl rfl rfl

theorem Later.answered {x : Call} {c : Choice} {env : Env} :
    Later mark t S (S.answered t x c env) :=
  Later.log (e := .call x c) (by simp) (by simp) (by simp) (by simp) rfl rfl rfl

/-- Entering a function that is not counted counts nothing. -/
theorem Later.entry (h : mark.enters s = false) : Later mark t S (S.log t (.enter s)) := by
  refine Later.log (e := .enter s) (by simp) (by simp) (by simp) ?_ rfl rfl rfl
  rintro s' he
  cases he
  exact h

/-- A thread remembers the id it draws. -/
theorem Known.drew_drawn {q : Req} {ns : List Nat} {ss : List Site}
    (h : ((Known.serving q).and (.drew ns ss) : Known Row ε Site Call Req Res mark t).holds S) :
    ((Known.serving q).and (.drew (S.nextId :: ns) ss) :
      Known Row ε Site Call Req Res mark t).holds (S.drawn t) := by
  obtain ⟨⟨hask, hlive⟩, hids, hmarks⟩ := h
  refine ⟨⟨hask, hlive⟩, ?_, hmarks⟩
  rw [← hids]
  simp [Shared.ids, Shared.drawn, Shared.log]

variable [DecidableEq Key]

theorem Later.commit {ws : List (Write Row Key)} (h : mark.commits s = false) :
    Later mark t S (S.commit t s ws) := by
  refine Later.log (e := .commit s ws) (by simp) (by simp) ?_ (by simp) rfl rfl rfl
  rintro s' ws' he
  cases he
  exact h

/-- A commit at a marked site counts. -/
theorem Shared.marks_commit {ws : List (Write Row Key)} (h : mark.commits s = true) :
    (S.commit t s ws).marks mark t = s :: S.marks mark t := by
  simp [Shared.marks, Shared.committedBy, Shared.commit, Shared.log, h]

/-- A commit leaves alone which request the thread serves. -/
theorem Known.serving_commit {q : Req} {ws : List (Write Row Key)}
    (h : (Known.serving q : Known Row ε Site Call Req Res mark t).holds S) :
    (Known.serving q : Known Row ε Site Call Req Res mark t).holds (S.commit t s ws) :=
  h

theorem Shared.entered_commit {ws : List (Write Row Key)} :
    (S.commit t s ws).entered mark t = S.entered mark t := by
  simp [Shared.entered, Shared.enteredBy, Shared.commit, Shared.log]

theorem Shared.ids_commit {ws : List (Write Row Key)} :
    (S.commit t s ws).ids t = S.ids t := by
  simp [Shared.ids, Shared.commit, Shared.log]

theorem Shared.committedBy_commit {ws : List (Write Row Key)} :
    (S.commit t s ws).committedBy t = s :: S.committedBy t := by
  simp [Shared.committedBy, Shared.commit, Shared.log]

variable [DecidableEq Index] {C : Contract Row ε Site Call Req Res}

/-- What a thread sees next is later. -/
theorem Sees.later (h : Sees C t S S') : Later mark t S S' :=
  ⟨h.rely.ids_eq, h.rely.asked_eq,
    by rw [Shared.marks, h.rely.committedBy_eq]; rfl,
    by rw [Shared.entered, h.rely.enteredBy_eq]; rfl,
    fun _ hq => h.rely.mem_live hq, h.rely.trace_suffix, h.rely.clock_le⟩

/-- What is reached within its transaction is later. -/
theorem Within.later (h : Within C t s S S') : Later mark t S S' :=
  ⟨h.ids_eq, h.asked_eq, by rw [Shared.marks, h.committedBy_eq]; rfl,
    by rw [Shared.entered, h.enteredBy_eq]; rfl,
    fun _ hq => h.mem_live hq, h.trace_suffix, h.clock_le⟩

end Lasting

-- ============================================================ the rules

section Rules

variable {Row Key Index ε Site Call Choice Env Req Res : Type}
  [DecidableEq Key] [DecidableEq Index] [Schema Row Key Index]
  [Services Call Choice Env]
  {C : Contract Row ε Site Call Req Res} {mark : Marking Site} {t : Tid} {s : Site}
  {S S' S'' : Shared Row ε Site Call Req Res}
  {α β γ : Type} {P P' : Known Row ε Site Call Req Res mark t}
  {Q Q' : α → Known Row ε Site Call Req Res mark t}
  {E E' : ε → Known Row ε Site Call Req Res mark t}

/-- The rule of consequence. -/
theorem Triple.conseq {p : Prog Row ε Site Call α} (h : Triple C P p Q E)
    (hP : ∀ S, P'.holds S → P.holds S) (hQ : ∀ a S, (Q a).holds S → (Q' a).holds S)
    (hE : ∀ e S, (E e).holds S → (E' e).holds S) : Triple C P' p Q' E' :=
  ⟨fun S hS => (h.safe S (hP S hS)).mono hQ hE⟩

/-- What is known in the states of a run is enough. -/
theorem Triple.of_known {p : Prog Row ε Site Call α}
    (h : ∀ S, Runs C S → P.holds S → ∃ P' : Known Row ε Site Call Req Res mark t,
      P'.holds S ∧ Triple C P' p Q E) : Triple C P p Q E := by
  refine ⟨fun S hS => ProgSafe.of_sees fun S' hS' => ?_⟩
  obtain ⟨P', hP', hp⟩ := h S' hS'.runs (P.lasts hS'.later hS)
  exact hp.safe S' hP'

/-- A fact about no state is there for the whole program. -/
theorem Triple.of_prop {r : Prop} {p : Prog Row ε Site Call α} (h : r → Triple C P p Q E) :
    Triple C (P.and (.prop r)) p Q E :=
  ⟨fun S hS => (h hS.2).safe S hS.1⟩

/-- A value ends in what held before. -/
theorem Triple.pure {a : α} (h : ∀ S, P.holds S → (Q a).holds S) :
    Triple C P (Pure.pure a) Q E :=
  ⟨fun _ hS => ProgSafe.pure fun S' hS' => h S' (P.lasts hS'.later hS)⟩

/-- An error ends in what held before. -/
theorem Triple.throw {e : ε} (h : ∀ S, P.holds S → (E e).holds S) :
    Triple C P (.throw e) Q E :=
  ⟨fun _ hS => ProgSafe.throw fun S' hS' => h S' (P.lasts hS'.later hS)⟩

/-- The rule of composition. -/
theorem Triple.bind {R : γ → Known Row ε Site Call Req Res mark t}
    {p : Prog Row ε Site Call γ} {f : γ → Prog Row ε Site Call α}
    (h : Triple C P p R E) (hf : ∀ c, Triple C (R c) (f c) Q E) :
    Triple C P (p >>= f) Q E :=
  ⟨fun S hS => (h.safe S hS).bind fun c S' hR => (hf c).safe S' hR⟩

/-- A handler starts from what the error left. -/
theorem Triple.catch {F : ε → Known Row ε Site Call Req Res mark t}
    {p : Prog Row ε Site Call α} {g : ε → Prog Row ε Site Call α}
    (h : Triple C P p Q F) (hg : ∀ e, Triple C (F e) (g e) Q E) :
    Triple C P (p.catch g) Q E :=
  ⟨fun S hS => (h.safe S hS).catch fun e S' hE => (hg e).safe S' hE⟩

/-- An attempt ends in what each result promises. -/
theorem Triple.attempt {R : Except ε α → Known Row ε Site Call Req Res mark t}
    {p : Prog Row ε Site Call α}
    (h : Triple C P p (fun a => R (.ok a)) (fun e => R (.error e))) :
    Triple C P p.attempt R E :=
  ⟨fun S hS => (h.safe S hS).attempt⟩

/-- A stored result ends as it is. -/
theorem Triple.settle {r : Except ε α}
    (hok : ∀ a S, r = .ok a → P.holds S → (Q a).holds S)
    (herr : ∀ e S, r = .error e → P.holds S → (E e).holds S) :
    Triple C P (Prog.settle r) Q E := by
  cases r with
  | ok a => exact Triple.pure fun S hS => hok a S rfl hS
  | error e => exact Triple.throw fun S hS => herr e S rfl hS

/-- The clock shows the time of the state it is read in. -/
theorem Triple.readsClock {R : Nat → Known Row ε Site Call Req Res mark t}
    (h : ∀ S, P.holds S → (R S.clock).holds S) : Triple C P Prog.clock R E :=
  ⟨fun _ hS => fun S' hS' => ProgSafe.pure fun _ hS'' =>
    (R _).lasts hS''.later (h S' (P.lasts hS'.later hS))⟩

theorem Triple.clock {E : ε → Known Row ε Site Call Req Res mark t} :
    Triple C P Prog.clock (fun _ => P) E :=
  Triple.readsClock fun _ hS => hS

/-- A drawn id is known to be the next one. -/
theorem Triple.randomUUID {R : Nat → Known Row ε Site Call Req Res mark t}
    (h : ∀ S, Runs C S → P.holds S → (R S.nextId).holds (S.drawn t)) :
    Triple C P randomUUID R E :=
  ⟨fun _ hS => fun S' hS' => ProgSafe.pure fun _ hS'' =>
    (R _).lasts hS''.later (h S' hS'.runs (P.lasts hS'.later hS))⟩

/-- Entering a function is allowed by the contract, and known afterwards. -/
theorem Triple.enter {K : Known Row ε Site Call Req Res mark t}
    {p : Prog Row ε Site Call α}
    (henter : ∀ S, P.holds S → C.enters t s S)
    (hknow : ∀ S, P.holds S → K.holds (S.log t (.enter s)))
    (h : Triple C K p Q E) : Triple C P (.enter s p) Q E :=
  ⟨fun _ hS => fun S' hS' =>
    ⟨henter S' (P.lasts hS'.later hS), h.safe _ (hknow S' (P.lasts hS'.later hS))⟩⟩

/-- A call is allowed by the contract, and its answer is known afterwards. -/
theorem Triple.await {x : Call}
    {R : Services.Answer x → Known Row ε Site Call Req Res mark t}
    (h : ∀ S c a env, Runs C S → P.holds S →
      Services.perform x c S.clock S.env = some (a, env) →
      C.calls t x c S ∧ (R a).holds (S.answered t x c env)) :
    Triple C P (await x) R E :=
  ⟨fun _ hS => fun S' hS' c a env hp => by
    obtain ⟨hcall, hR⟩ := h S' c a env hS'.runs (P.lasts hS'.later hS) hp
    exact ⟨hcall, ProgSafe.pure fun S'' hS'' => (R a).lasts hS''.later hR⟩⟩

/-- What is known when a body starts is known when it commits. -/
theorem TxSafe.with_known {F : β → List (Write Row Key) →
      Shared Row ε Site Call Req Res → Prop} {body : Tx Row ε β}
    {ws : List (Write Row Key)} (hP : P.holds S) (h : TxSafe C t s F body ws S) :
    TxSafe C t s (fun b ws S' => P.holds S' ∧ F b ws S') body ws S := by
  induction body generalizing ws S with
  | pure b => exact fun S' hS => ⟨P.lasts hS.later hP, h S' hS⟩
  | throw e => trivial
  | now k ih => exact fun S' hS => ih _ (P.lasts hS.later hP) (h S' hS)
  | later _ k ih => exact fun S' hS => ih _ (P.lasts hS.later hP) (h S' hS)
  | stmt f k ih =>
      intro S' hS b ws' ha hw hl
      exact ih _ (P.lasts (hS.later.trans (Within.ran (C := C) hl).later) hP)
        (h S' hS b ws' ha hw hl)

/-- A transaction: its statements under what other threads do meanwhile, its
commit in the contract, and its rollback. -/
theorem Triple.transaction {F : α → List (Write Row Key) →
      Shared Row ε Site Call Req Res → Prop} {body : Tx Row ε α}
    (hbody : ∀ S, P.holds S → S.toScene.OpenAt t s 0 → TxSafe C t s F body [] S)
    (hcommit : ∀ b ws S, P.holds S → F b ws S →
      C.commits t s ws S ∧ (Q b).holds (S.commit t s ws))
    (hfail : ∀ e S, P.holds S → (E e).holds (S.rollback t s e)) :
    Triple C P (transaction s body) Q E := by
  refine ⟨fun S hS => ?_⟩
  refine ProgSafe.transaction (fun S' hS' => ?_) fun e S' S'' hS' hW S₃ hS₃ => ?_
  · have hP : P.holds (S'.begin t s) := P.lasts (hS'.later.trans Later.begin) hS
    have hopen : (S'.begin t s).toScene.OpenAt t s 0 :=
      ⟨⟨t, s, 0⟩, List.mem_cons_self, rfl, rfl, Nat.le_refl 0⟩
    refine ((hbody _ hP hopen).with_known hP).mono fun b ws S'' hF => ?_
    obtain ⟨hcom, hQ⟩ := hcommit b ws S'' hF.1 hF.2
    exact ⟨hcom, fun S₃ hS₃ => (Q b).lasts hS₃.later hQ⟩
  · exact (E e).lasts hS₃.later (hfail e S'' (P.lasts (hS'.later.trans hW.later) hS))

/-- A serializable transaction runs as if at once, on one database. -/
theorem Triple.serializable {body : Tx Row ε α}
    (hbody : ∀ S, P.holds S → TxEnds S.clock S.db (fun b ws =>
      C.commits t s ws S ∧ (Q b).holds (S.commit t s ws)) body [])
    (hfail : ∀ e S, P.holds S → (E e).holds (S.rollback t s e)) :
    Triple C P (serializable s body) Q E := by
  refine ⟨fun S hS => ?_⟩
  refine ProgSafe.serializable (fun S' b ws hS' hb => ?_) fun e S' hS' S₃ hS₃ => ?_
  · obtain ⟨hcom, hQ⟩ := (hbody S' (P.lasts hS'.later hS)).leaves hb
    exact ⟨hcom, fun S₃ hS₃ => (Q b).lasts hS₃.later hQ⟩
  · exact (E e).lasts hS₃.later (hfail e S' (P.lasts hS'.later hS))

-- ======================================= programs that keep what is known

theorem Keeps.pure {a : α} : Keeps C P (Pure.pure a : Prog Row ε Site Call α) :=
  Triple.pure fun _ hS => hS

theorem Keeps.throw {e : ε} : Keeps C P (.throw e : Prog Row ε Site Call α) :=
  Triple.throw fun _ hS => hS

theorem Keeps.settle {r : Except ε α} :
    Keeps C P (Prog.settle r : Prog Row ε Site Call α) :=
  Triple.settle (fun _ _ _ hS => hS) fun _ _ _ hS => hS

/-- What both parts keep, the whole keeps. -/
theorem Keeps.bind {p : Prog Row ε Site Call γ} {f : γ → Prog Row ε Site Call α}
    (h : Keeps C P p) (hf : ∀ c, Keeps C P (f c)) : Keeps C P (p >>= f) :=
  Triple.bind h hf

theorem Keeps.catch {p : Prog Row ε Site Call α} {g : ε → Prog Row ε Site Call α}
    (h : Keeps C P p) (hg : ∀ e, Keeps C P (g e)) : Keeps C P (p.catch g) :=
  Triple.catch h hg

theorem Keeps.attempt {p : Prog Row ε Site Call α} (h : Keeps C P p) :
    Keeps C P p.attempt :=
  Triple.attempt h

theorem Keeps.clock : Keeps C P (Prog.clock : Prog Row ε Site Call Nat) :=
  Triple.clock

/-- A transaction that is not counted keeps what is known of the thread. -/
theorem Keeps.transaction {F : List (Write Row Key) →
      Shared Row ε Site Call Req Res → Prop} {body : Tx Row ε α}
    (hmark : mark.commits s = false) (hbody : ∀ S, P.holds S → TxSafe C t s (fun _ => F) body [] S)
    (hcommit : ∀ ws S, P.holds S → F ws S → C.commits t s ws S) :
    Keeps C P (transaction s body) :=
  Triple.transaction (fun S hP _ => hbody S hP)
    (fun _ ws S hP hF => ⟨hcommit ws S hP hF, P.lasts (Later.commit hmark) hP⟩)
    fun _ _ hP => P.lasts Later.rollback hP

end Rules

end FastRep.Txn
