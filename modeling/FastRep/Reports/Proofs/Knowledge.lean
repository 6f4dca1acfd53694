/-
What a run of the worker knows about itself.

Everything here lasts: the request and the token of the run, its claim,
how many paid calls it made against the attempts it started, and facts
about the trace, which only grows. A paid call is an entry that counts, so
what is known around it is stated once for all programs of a run (`Busy`).

# The facts

- `OnRun`: the thread serves the delivery, under its token.
- `Claimed`: it has claimed the generation and not settled it.
- `Claimant`: and each of its paid calls had an attempt of its own; one more
  attempt than calls is `Paid`, which the next call uses up.
- `Uploads`, `Tidy`: the key it uploaded an object under, and that every such
  object is accounted for.
- `Heard`, `Sourced`, `Screened`, `Moderated`: what it read, stored and had
  moderated, as facts of the trace.

# Programs in the middle of a run

`Busy` and `Transcriber` abstract from what else is known: a fact is busy if
paid calls and transcriptions leave it true in the form it has after them. A
triple of a part of the run is stated for any busy fact, and so can be used
with whatever its caller knows (`Busy.and`).
-/
import FastRep.Reports.Proofs.Rules
import FastRep.Txn.Proofs.History

namespace FastRep.Reports

open FastRep.Txn

variable {t : Tid} {S S' : RState} {P : Knows t} {g tok : Id}

-- ====================================================== facts of the trace

theorem ClaimedBefore.mono {now : Time} (h : ClaimedBefore S t g tok now)
    (htr : S.trace <:+ S'.trace) : ClaimedBefore S' t g tok now := by
  obtain ⟨e, he, hp⟩ := h
  exact ⟨e, htr.subset he, hp⟩

theorem Heard.mono {assetId : Id} {text : String} (h : Heard S t assetId text)
    (htr : S.trace <:+ S'.trace) : Heard S' t assetId text := by
  obtain ⟨e, he, hp⟩ := h
  exact ⟨e, htr.subset he, hp⟩

theorem Sourced.mono {snapshot : GenerationInputSnapshot}
    {transcripts : List (Id × String)} (h : Sourced S t g snapshot transcripts)
    (htr : S.trace <:+ S'.trace) : Sourced S' t g snapshot transcripts :=
  ⟨h.1.mono htr, h.2.1, fun p hp => (h.2.2 p hp).mono htr⟩

theorem Moderated.mono (h : Moderated S t g) (htr : S.trace <:+ S'.trace) :
    Moderated S' t g := by
  obtain ⟨e, he, hp⟩ := h
  exact ⟨e, htr.subset he, hp⟩

theorem Tasked.mono {k : StorageKey} (h : Tasked S k) (htr : S.trace <:+ S'.trace) :
    Tasked S' k := by
  obtain ⟨e, he, hp⟩ := h
  exact ⟨e, htr.subset he, hp⟩

theorem Uploaded.mono {k : StorageKey} (h : Uploaded t k S) (htr : S.trace <:+ S'.trace) :
    Uploaded t k S' := by
  rcases h with ⟨e, he, hp⟩ | h
  · exact Or.inl ⟨e, htr.subset he, hp⟩
  · exact Or.inr (h.mono htr)

/-- What passed in a part of the history passed in the whole. -/
theorem Passed.mono {l l' : List REntry} {m : ModerationInput} (h : Passed l t m)
    (hl : l ⊆ l') : Passed l' t m := by
  obtain ⟨e, he, hp⟩ := h
  exact ⟨e, hl he, hp⟩

theorem Screened.mono {id : AttemptKey} {items : List ModerationInput}
    (h : Screened S t id items) (htr : S.trace <:+ S'.trace) : Screened S' t id items := by
  obtain ⟨newer, e, older, tok, ws, y, htrace, ht, hev, hw, hid, hop, hasset, hitems⟩ := h
  obtain ⟨more, hmore⟩ := htr
  refine ⟨more ++ newer, e, older, tok, ws, y, ?_, ht, hev, hw, hid, hop, hasset, fun m hm => ?_⟩
  · rw [← hmore, htrace, List.append_assoc]
  · exact (hitems m hm).mono (List.subset_append_right _ _)

/-- One more item of a moderation passed. -/
theorem Screened.answered {id : AttemptKey} {items input : List ModerationInput}
    {providerRequestId : Option String} {env : Env} (h : Screened S t id items) :
    Screened (S.answered t (.moderateInput input) (.moderated false providerRequestId) env) t id
      (input ++ items) := by
  obtain ⟨newer, e, older, tok, ws, y, htrace, ht, hev, hw, hid, hop, hasset, hitems⟩ := h
  refine ⟨_ :: newer, e, older, tok, ws, y, congrArg _ htrace, ht, hev, hw, hid, hop, hasset,
    fun m hm => ?_⟩
  rcases List.mem_append.mp hm with hm | hm
  · exact ⟨_, List.mem_cons_self, rfl, input, providerRequestId, rfl, hm⟩
  · exact (hitems m hm).mono (List.subset_cons_self _ _)

/-- What was screened was screened in every part. -/
theorem Screened.subset {id : AttemptKey} {items items' : List ModerationInput}
    (h : Screened S t id items) (hsub : items' ⊆ items) : Screened S t id items' := by
  obtain ⟨newer, e, older, tok, ws, y, htrace, ht, hev, hw, hid, hop, hasset, hitems⟩ := h
  exact ⟨newer, e, older, tok, ws, y, htrace, ht, hev, hw, hid, hop, hasset,
    fun m hm => hitems m (hsub hm)⟩

-- ===================================================== what a run knows

/-- A fact about the trace that stays true as it grows. -/
def Traced (p : RState → Prop) (hp : ∀ S S', S.trace <:+ S'.trace → p S → p S') :
    Knows t where
  holds := p
  lasts := fun h => hp _ _ h.trace

/-- A run under its token. -/
def OnRun (g tok a m : Id) : Knows t where
  holds := fun S => (S.asked t = [.process g a m] ∧ (t, .process g a m) ∈ S.live) ∧
    S.ids t = [tok]
  lasts := fun h ⟨⟨hask, hlive⟩, hids⟩ =>
    ⟨⟨h.asked.trans hask, h.live (.process g a m) hlive⟩, h.ids.trans hids⟩

/-- A thread on a run serves the delivery under its token. -/
theorem OnRun.serves {a m : Id} (h : (OnRun (t := t) g tok a m).holds S) :
    Serves S t g tok :=
  ⟨⟨a, m, h.1⟩, h.2⟩

/-- Its commits do not take that from it. -/
theorem OnRun.commit {a m : Id} {s : Site} {ws : List (Write Row Key)}
    (h : (OnRun (t := t) g tok a m).holds S) :
    (OnRun (t := t) g tok a m).holds (S.commit t s ws) :=
  h

/-- Another attempt of the scope was started than was paid for. -/
def Paid (g tok : Id) (operation : GenerationProviderOperation) (assetId : Option Id) :
    Knows t where
  holds := fun S => (metered S t).count (.provider g operation assetId)
    < (S.committedBy t).count (.startAttempt g tok operation assetId)
  lasts := fun h hS => by
    rw [metered, h.entered]
    exact Nat.lt_of_lt_of_le hS ((h.trace.filterMap _).sublist.count_le _)

/-- The commits that count before a run leaves its try block. -/
def Site.transcribes : Site → Bool
  | .completeTranscription _ _ _ => true
  | _ => false

/-- The commits of a transcription settle nothing. -/
theorem Site.settles_of_transcribes {s : Site} (h : s.transcribes = true) :
    s.settles = false ∧ s.schedules = false := by
  cases s <;> first | exact ⟨rfl, rfl⟩ | cases h

/-- The run has claimed its generation, and neither settled it nor given
its upload up. Each of its paid calls had an attempt. -/
def Claimant (g tok : Id) : Knows t where
  holds := fun S => (∀ s ∈ marks S t, s.transcribes = true) ∧
    (∃ now, ClaimedBefore S t g tok now) ∧
    ∀ operation assetId, (metered S t).count (.provider g operation assetId)
      ≤ (S.committedBy t).count (.startAttempt g tok operation assetId)
  lasts := fun h ⟨hmarks, ⟨now, hclaim⟩, hpaid⟩ => by
    refine ⟨fun s hs => hmarks s ?_, ⟨now, hclaim.mono h.trace⟩, fun operation assetId => ?_⟩
    · rw [marks, ← h.marks]
      exact hs
    · rw [metered, h.entered]
      exact Nat.le_trans (hpaid operation assetId)
        ((h.trace.filterMap _).sublist.count_le _)

/-- The run has claimed its generation and not settled it. -/
def Claimed (g tok : Id) : Knows t where
  holds := fun S => (∀ s ∈ marks S t, s.settles = false) ∧ ∃ now, ClaimedBefore S t g tok now
  lasts := fun h ⟨hmarks, now, hclaim⟩ => by
    refine ⟨fun s hs => hmarks s ?_, now, hclaim.mono h.trace⟩
    rw [marks, ← h.marks]
    exact hs

theorem Claimant.claimed (h : (Claimant (t := t) g tok).holds S) :
    (Claimed (t := t) g tok).holds S :=
  ⟨fun s hs => (Site.settles_of_transcribes (h.1 s hs)).1, h.2.1⟩

/-- The one key the run uploaded an object under, if any. -/
def Uploads (k : Option StorageKey) : Knows t where
  holds := fun S => ∀ k', .uploadObject k' ∈ metered S t → k = some k'
  lasts := fun h hS k' hk' => by
    rw [metered, h.entered] at hk'
    exact hS k' hk'

/-- Every object the run uploaded is accounted for. -/
def Tidy : Knows t where
  holds := fun S => ∀ k, .uploadObject k ∈ metered S t → Uploaded t k S
  lasts := fun h hS k hk => by
    rw [metered, h.entered] at hk
    exact (hS k hk).mono h.trace

/-- The same, but for a cleanup whose scheduling failed with an error. -/
def TidyBut (e : Error) : Knows t where
  holds := fun S => ∀ k, .uploadObject k ∈ metered S t → Uploaded t k S ∨ Unscheduled t k e S
  lasts := fun h hS k hk => by
    rw [metered, h.entered] at hk
    exact (hS k hk).imp (·.mono h.trace) fun ⟨e, he, hp⟩ => ⟨e, h.trace.subset he, hp⟩

/-- A tidy thread is tidy but for any error. -/
theorem Tidy.but {e : Error} (h : (Tidy (t := t)).holds S) : (TidyBut (t := t) e).holds S :=
  fun k hk => Or.inl (h k hk)

theorem Uploads.commit {k : Option StorageKey} {s : Site} {ws : List (Write Row Key)}
    (h : (Uploads (t := t) k).holds S) : (Uploads (t := t) k).holds (S.commit t s ws) := by
  intro k' hk'
  rw [metered, Shared.entered_commit] at hk'
  exact h k' hk'

theorem Tidy.commit {s : Site} {ws : List (Write Row Key)} (h : (Tidy (t := t)).holds S) :
    (Tidy (t := t)).holds (S.commit t s ws) := by
  intro k hk
  rw [metered, Shared.entered_commit] at hk
  exact (h k hk).mono (List.suffix_cons _ _)

-- ========================================================== paid calls

/-- A call that is counted is the last one counted. -/
theorem metered_log {s : Site} (hs : s.metered = true) :
    metered (S.log t (.enter s)) t = s :: metered S t := by
  simp [metered, Shared.entered, Shared.enteredBy, Shared.log, marking, hs]

/-- What a run knows while it works on the generation it has claimed: a
paid call with an attempt of its own leaves it in place. -/
structure Busy (P : Knows t) (g tok : Id) : Prop where
  working : ∀ S, P.holds S → Working S t g tok
  unscheduled : ∀ S, P.holds S → ∀ s ∈ marks S t, s.schedules = false
  budget : ∀ S operation assetId, P.holds S →
    (metered S t).count (.provider g operation assetId)
      ≤ (S.committedBy t).count (.startAttempt g tok operation assetId)
  entered : ∀ S operation assetId, P.holds S → (Paid (t := t) g tok operation assetId).holds S →
    P.holds (S.log t (.enter (.provider g operation assetId)))

/-- So does a completed transcription. -/
structure Transcriber (P : Knows t) (g tok : Id) : Prop extends Busy P g tok where
  transcribed : ∀ S assetId ws, P.holds S →
    P.holds (S.commit t (.completeTranscription g tok assetId) ws)

/-- A run that has claimed is busy with its generation. -/
theorem Busy.base {a m : Id} {k : Option StorageKey} :
    Busy ((OnRun (t := t) g tok a m).and ((Claimant g tok).and (Uploads k))) g tok where
  working := fun S ⟨hrun, hclaim, _⟩ =>
    { OnRun.serves hrun with unsettled := (Claimant.claimed hclaim).1, claimed := hclaim.2.1 }
  unscheduled := fun S ⟨_, hclaim, _⟩ s hs => (Site.settles_of_transcribes (hclaim.1 s hs)).2
  budget := fun S operation assetId hS => hS.2.1.2.2 operation assetId
  entered := by
    rintro S operation assetId ⟨hrun, ⟨hmarks, ⟨now, hclaim⟩, hbudget⟩, hup⟩ hpaid
    refine ⟨hrun, ⟨hmarks, ⟨now, hclaim.mono (List.suffix_cons _ _)⟩, fun op a => ?_⟩,
      fun k' hk' => ?_⟩
    · rw [metered_log rfl, List.count_cons]
      split
      next heq =>
          simp only [beq_iff_eq, Site.provider.injEq, true_and] at heq
          obtain ⟨rfl, rfl⟩ := heq
          exact hpaid
      next => exact hbudget op a
    · rw [metered_log rfl] at hk'
      rcases List.mem_cons.mp hk' with h | h
      · cases h
      · exact hup k' h

theorem Transcriber.base {a m : Id} {k : Option StorageKey} :
    Transcriber ((OnRun (t := t) g tok a m).and ((Claimant g tok).and (Uploads k))) g tok where
  toBusy := Busy.base
  transcribed := by
    rintro S assetId ws ⟨hrun, ⟨hmarks, ⟨now, hclaim⟩, hbudget⟩, hup⟩
    refine ⟨OnRun.commit hrun, ⟨fun s hs => ?_, ⟨now, hclaim.mono (List.suffix_cons _ _)⟩,
      fun operation assetId' => ?_⟩, Uploads.commit hup⟩
    · rw [marks, Shared.marks_commit rfl] at hs
      rcases List.mem_cons.mp hs with rfl | hs
      · rfl
      · exact hmarks s hs
    · rw [metered, Shared.entered_commit, Shared.committedBy_commit,
        List.count_cons_of_ne (by simp)]
      exact hbudget operation assetId'

/-- What else is known does not make it less busy. -/
theorem Busy.and (h : Busy P g tok) {K : Knows t}
    (hK : ∀ S S', S.trace <:+ S'.trace → K.holds S → K.holds S') : Busy (P.and K) g tok where
  working := fun S hS => h.working S hS.1
  unscheduled := fun S hS => h.unscheduled S hS.1
  budget := fun S operation assetId hS => h.budget S operation assetId hS.1
  entered := fun S operation assetId hS hpaid =>
    ⟨h.entered S operation assetId hS.1 hpaid, hK _ _ (List.suffix_cons _ _) hS.2⟩

theorem Transcriber.and (h : Transcriber P g tok) {K : Knows t}
    (hK : ∀ S S', S.trace <:+ S'.trace → K.holds S → K.holds S') :
    Transcriber (P.and K) g tok where
  toBusy := h.toBusy.and hK
  transcribed := fun S assetId ws hS =>
    ⟨h.transcribed S assetId ws hS.1, hK _ _ (List.suffix_cons _ _) hS.2⟩

/-- A busy run may commit at its sites. -/
theorem Busy.allows (h : Busy P g tok) {s : Site} (hs : s.ofRun g tok = true) : Allows P s :=
  Allows.of_working hs h.working fun _ _ _ => h.unscheduled

/-- A paid call on behalf of an attempt just started. -/
theorem Triple.calling {cfg : Config} {start : RState} {α : Type} {p : Async α}
    {operation : GenerationProviderOperation} {assetId : Option Id} {R : α → Knows t}
    {E : Error → Knows t} (hbusy : Busy P g tok) (h : Triple (contract cfg start) P p R E) :
    Triple (contract cfg start) (P.and (Paid g tok operation assetId))
      (Reports.calling g operation assetId p) R E :=
  Triple.enter (fun S hS => ⟨tok, hbusy.working S hS.1, hS.2⟩)
    (fun S hS => hbusy.entered S operation assetId hS.1 hS.2) h

end FastRep.Reports
