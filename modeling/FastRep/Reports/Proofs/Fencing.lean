/-
What a run writes while it works on its generation: provider attempts and
transcriptions (`fenced_writes`).

Neither write looks at the claim in its own statement. A run that has claimed
its generation and not settled it owns it until something takes it away: a
claim of another run once the lease is over, a compensation, or the deletion
of the report (`takes`). The run itself need not be gone by then; it may be
paused, and go on later.

So the condition is on the steps of such a run (`staysAway`): after its
generation was taken it commits nothing more at the four sites that write an
attempt or a transcription (`Site.attempting`). The completion is among them,
though it looks for the owner, since a claim fits between its look and its
commit.

- a run that is not superseded owns its generation (`Runs.holds_claim`), by
  what a commit does to an owned row (`Effect.owned`);
- a report has one generation in progress, so while the thread at an asset
  owns its generation nobody else completes the transcription of this asset
  (`Runs.transcribes_alone`);
- whoever begins or fails a transcription has seen it unfinished, so a
  finished one stays finished (`Runs.completed_kept`).

An empty transcript is the one more way a transcription is begun twice: it is
stored as completed and read as missing (`spokenOnly`).
-/
import FastRep.Reports.Proofs.ResultChanges
import FastRep.Reports.Proofs.Publication
import FastRep.Reports.Proofs.ProviderBudget

namespace FastRep.Reports

open FastRep.Txn

variable {cfg : Config} {start S S' : RState} {t : Tid} {s : Site} {ws : List (Write Row Key)}
  {w : RWorld} {g tok a : Id}

-- ========================================================== taking a claim

/-- The thread drew the token. -/
def drewToken (past : List REntry) (t : Tid) (tok : Id) : Bool :=
  past.any fun e => e.tid = t && match e.event with
    | .uuid n => n = tok
    | _ => false

/-- The generation is PROCESSING under a token of the thread. -/
def heldBy (past : List REntry) (t : Tid) (x : ReportGeneration) : Bool :=
  x.status = .processing && x.processingToken.any (drewToken past t)

/-- The commit takes a generation from the thread: a claim takes it over, or
it is removed. -/
def takes (past : List REntry) (t : Tid) (e : REntry) : Bool :=
  match e.event with
  | .commit (.claim g _) ws | .commit (.compensateQueueFailure g) ws =>
      !ws.isEmpty && (generation? e.before.db g).any (heldBy past t)
  | .commit (.deleteReport i) _ =>
      (generations e.before.db).any fun x => x.reportId = i && heldBy past t x
  | _ => false

/-- A generation was taken from the thread. -/
def superseded : List REntry → Tid → Bool
  | [], _ => false
  | e :: past, t => takes past t e || superseded past t

/-- The sites at which a run writes an attempt or a transcription. -/
def Site.attempting : Site → Bool
  | .startAttempt _ _ _ _ | .beginTranscription _ | .completeTranscription _ _ _
  | .failTranscription _ => true
  | _ => false

/-- The step writes at such a site. -/
def attempting (e : REntry) : Bool :=
  match e.event with
  | .commit s ws => s.attempting && !ws.isEmpty
  | _ => false

/-- A thread from which a generation was taken writes nothing more there. -/
def staysAway : List REntry → Bool
  | [] => true
  | e :: past => !(attempting e && superseded past e.tid) && staysAway past

/-- The provider never answered with an empty transcript. -/
def spokenOnly (entries : List REntry) : Bool :=
  entries.all fun e => match e.event with
    | .call _ (.transcribed r) => r.value.text ≠ ""
    | _ => true

/-- A condition on the whole history holds of its beginning. -/
theorem staysAway_of_suffix {l l' : List REntry} (hl : l <:+ l') (h : staysAway l' = true) :
    staysAway l = true := by
  induction l' with
  | nil =>
      rw [List.suffix_nil.mp hl]
      rfl
  | cons e past ih =>
      rcases List.suffix_cons_iff.mp hl with rfl | hl
      · exact h
      · exact ih hl ((Bool.and_eq_true _ _).mp h).2

/-- A run that is not superseded was not superseded before. -/
theorem superseded_of_suffix {l l' : List REntry} (hl : l <:+ l')
    (h : superseded l' t = false) : superseded l t = false := by
  induction l' with
  | nil =>
      rw [List.suffix_nil.mp hl]
      rfl
  | cons e past ih =>
      rcases List.suffix_cons_iff.mp hl with rfl | hl
      · exact h
      · exact ih hl ((Bool.or_eq_false_iff).mp h).2

/-- Whoever writes at such a site still has its generation. -/
theorem not_superseded_of_attempting {e : REntry} {past : List REntry}
    (haway : staysAway (e :: past) = true) (hev : e.event = .commit s ws)
    (hs : s.attempting = true) (hne : ws ≠ []) : superseded past e.tid = false := by
  have hattempting : attempting e = true := by
    rw [attempting, hev]
    simp [hs, hne]
  have hnot := (Bool.not_eq_true' _).mp ((Bool.and_eq_true _ _).mp haway).1
  rwa [hattempting, Bool.true_and] at hnot

/-- A generation that is owned under a token is held by the thread that drew
it. -/
theorem heldBy_of_owned {past : List REntry} {x : ReportGeneration}
    (howned : x.ownedBy tok = true) {e : REntry} (he : e ∈ past) (hev : e.event = .uuid tok) :
    heldBy past e.tid x = true := by
  obtain ⟨hstatus, htok⟩ := (Bool.and_eq_true _ _).mp howned
  have hdrew : drewToken past e.tid tok = true := by
    refine List.any_eq_true.mpr ⟨e, he, ?_⟩
    rw [hev]
    simp
  rw [heldBy, of_decide_eq_true htok, hstatus]
  exact hdrew

/-- The ids of a thread were drawn by it. -/
theorem mem_ids {n : Nat} (h : n ∈ S.ids t) : ∃ e ∈ S.trace, e.tid = t ∧ e.event = .uuid n := by
  obtain ⟨e, he, hid⟩ := List.mem_filterMap.mp h
  refine ⟨e, he, ?_⟩
  split at hid
  next m hev =>
      obtain ⟨ht, hm⟩ := Option.ite_none_right_eq_some.mp hid
      exact ⟨ht, hev.trans (congrArg _ (Option.some.inj hm))⟩
  next => cases hid

-- ========================================================= holding a claim

/-- Some run holds the generation under the token. -/
def OwnedIn (S : RState) (g tok : Id) : Prop :=
  ∃ x, generation? S.db g = some x ∧ x.ownedBy tok = true

/-- A commit leaves an owned generation owned, unless it takes it from its
owner or the owner settles it. -/
theorem Effect.owned (h : Effect cfg t s ws S) (howned : OwnedIn S g tok) :
    OwnedIn (S.commit t s ws) g tok ∨
      (s.settles = true ∧ s.ofRun g tok = true) ∨
      ((∃ tok', s = .claim g tok') ∧ ws ≠ [] ∨ s = .compensateQueueFailure g ∧ ws ≠ [] ∨
        ∃ x, generation? S.db g = some x ∧ s = .deleteReport x.reportId) := by
  obtain ⟨x, hx, hxtok⟩ := howned
  obtain ⟨hstatus, htok⟩ := (Bool.and_eq_true _ _).mp hxtok
  have hnotQueued : x.status ≠ .queued := by
    rw [of_decide_eq_true hstatus]
    simp
  have hsettled : ∀ {tok'}, x.ownedBy tok' = true → tok' = tok := fun {tok'} hown => by
    have htok' := of_decide_eq_true ((Bool.and_eq_true _ _).mp hown).2
    rw [of_decide_eq_true htok] at htok'
    exact (Option.some.inj htok').symm
  have hne : ¬ (generation? (applyAll ws S.db) g = generation? S.db g) → ws ≠ [] := by
    rintro hchange rfl
    exact hchange rfl
  by_cases hsame : generation? (applyAll ws S.db) g = generation? S.db g
  · exact Or.inl ⟨x, hsame.trans hx, hxtok⟩
  have hws := hne hsame
  have hchange := (h.generation g).resolve_left hsame
  have hcommit : ∀ y, generation? (applyAll ws S.db) g = some y → y.ownedBy tok = true →
      OwnedIn (S.commit t s ws) g tok := fun y hy hown => ⟨y, hy, hown⟩
  rw [hx] at hchange
  generalize hafter : generation? (applyAll ws S.db) g = after at hchange
  cases hchange with
  | enqueued _ _ hqueued => exact absurd hqueued hnotQueued
  | cancelled _ _ hqueued => exact absurd hqueued hnotQueued
  | claimed tok' => exact Or.inr (Or.inr (Or.inl ⟨⟨tok', rfl⟩, hws⟩))
  | fenced _ _ _ y _ _ hcore =>
      refine Or.inl (hcommit y hafter ?_)
      rw [ReportGeneration.ownedBy, hcore.status, hcore.processingToken]
      exact hxtok
  | requeued _ _ _ hown =>
      exact Or.inr (Or.inl ⟨rfl, by simp [Site.ofRun, hsettled hown]⟩)
  | failed _ _ _ _ _ hown =>
      exact Or.inr (Or.inl ⟨rfl, by simp [Site.ofRun, hsettled hown]⟩)
  | completed _ _ _ hown =>
      exact Or.inr (Or.inl ⟨rfl, by simp [Site.ofRun, hsettled hown]⟩)
  | compensated => exact Or.inr (Or.inr (Or.inr (Or.inl ⟨rfl, hws⟩)))
  | removed => exact Or.inr (Or.inr (Or.inr (Or.inr ⟨x, hx, rfl⟩)))

/-- A claim that took effect leaves the generation owned. -/
theorem Claims.owned (h : Claims g tok ws S) (hne : ws ≠ []) :
    OwnedIn (S.commit t s ws) g tok := by
  obtain rfl | ⟨x, now, leaseExpiresAt, follow, hx, -, rfl, hfollow⟩ := h
  · exact absurd rfl hne
  · refine ⟨x.claimed now leaseExpiresAt tok, ?_, ?_⟩
    · show generation? (applyAll ([] ++ _ :: follow) S.db) g = _
      rw [generation?_applyAll (by simp) rfl fun w hw => by rw [hfollow.tables w hw]; simp]
      exact if_pos (show x.id = g from generation?_id hx)
    · simp [ReportGeneration.ownedBy, ReportGeneration.claimed]

/-- A run draws the token it claims under, and serves the generation it
claims. -/
theorem Runs.claimant (hstart : Begins start) {e : REntry} {S₀ S₁ : RState}
    (hpast : Past (contract cfg start) e S₀ S₁ S) (hev : e.event = .commit (.claim g tok) ws) {g' m n : Id}
    (hasked : S.asked e.tid = [.process g' m n]) : g' = g ∧ tok ∈ S₀.ids e.tid := by
  obtain ⟨⟨-, hsite⟩, -⟩ := hpast.commit hev
  obtain ⟨q, hq⟩ := hsite.live
  have hsteps : Steps (contract cfg start) S₀ S :=
    Relation.ReflTransGen.head ⟨_, hpast.move⟩ hpast.steps
  have hasked₀ : S₀.asked e.tid = [.process g' m n] :=
    (hsteps.asked_of_mem (Runs.live_mem hstart.live hpast.runs hq)).symm.trans hasked
  obtain ⟨tok', hids, hrun⟩ := hsite.own g' m n hasked₀
  simp only [Site.ofRun, Bool.and_eq_true, decide_eq_true_eq] at hrun
  obtain ⟨rfl, rfl⟩ := hrun
  exact ⟨rfl, hids ▸ List.mem_singleton.mpr rfl⟩

/-- The commits that settle a generation name it, and the token of the run. -/
theorem Site.of_settles (h : s.settles = true) : ∃ g tok,
    s = .finalizeSuccess g tok ∨ s = .prepareRetry g tok ∨ s = .failGeneration g tok := by
  cases s with
  | finalizeSuccess g tok => exact ⟨g, tok, Or.inl rfl⟩
  | prepareRetry g tok => exact ⟨g, tok, Or.inr (Or.inl rfl)⟩
  | failGeneration g tok => exact ⟨g, tok, Or.inr (Or.inr rfl)⟩
  | _ => cases h

/-- The run that settles a generation has the token of the site. -/
theorem RunSite.settling (h : RunSite S t s) (hs : s.settles = true)
    (hrun : s.ofRun g tok = true) : tok ∈ S.ids t ∧ s.marked = true := by
  have hsite : s.working = true ∧ s.marked = true ∧
      ∀ {g' tok' : Id}, s.ofRun g' tok' = true → tok' = tok := by
    obtain ⟨g₀, tok₀, rfl | rfl | rfl⟩ := Site.of_settles hs <;>
    · refine ⟨rfl, rfl, fun hrun' => ?_⟩
      simp only [Site.ofRun, Bool.and_eq_true, decide_eq_true_eq] at hrun hrun'
      exact hrun'.2.symm.trans hrun.2
  obtain ⟨g', tok', hrun', hworking⟩ := h.working hsite.1
  refine ⟨?_, hsite.2.1⟩
  rw [hworking.ids, hsite.2.2 hrun']
  exact List.mem_singleton.mpr rfl

/-- A worker that has claimed its generation, not settled it, and not lost it
holds it. -/
theorem Runs.holds_claim (hstart : Begins start) (h : Runs (contract cfg start) S)
    {newer older : List REntry} {e : REntry} (htr : S.trace = newer ++ e :: older)
    (hev : e.event = .commit (.claim g tok) ws) (hne : ws ≠ []) {g' m n : Id}
    (hasked : S.asked e.tid = [.process g' m n])
    (hquiet : ∀ s ∈ marks S e.tid, s.settles = false)
    (hkept : superseded S.trace e.tid = false) :
    g' = g ∧ tok ∈ S.ids e.tid ∧ OwnedIn S g tok := by
  obtain ⟨S₀, S₁, hpast, holder⟩ := h.at hstart.trace htr
  obtain ⟨hg, htok⟩ := Runs.claimant hstart hpast hev hasked
  refine ⟨hg, Shared.mem_ids_of_suffix ((List.suffix_cons _ _).trans hpast.suffix) htok, ?_⟩
  refine Runs.after (I := fun _ S => (∀ s ∈ marks S e.tid, s.settles = false) →
    superseded S.trace e.tid = false → OwnedIn S g tok) hstart.trace h htr ?_ ?_ hquiet hkept
  · rintro S₀ S₁ hpast - - -
    obtain ⟨⟨heff, -⟩, rfl⟩ := hpast.commit hev
    exact Claims.owned heff.1 hne
  · intro j S S' newer added hruns htr ih hm hadded hquiet hkept
    have howned := ih (fun s hs => hquiet s (marks_mono hm.trace_suffix hs))
      (superseded_of_suffix hm.trace_suffix hkept)
    rcases hm.commit_or with ⟨s, ws', hC, -, rfl⟩ | ⟨hdb, -⟩
    · rcases hC.1.owned howned with hafter | ⟨hsettles, hrun⟩ | htakes
      · exact hafter
      · -- only the thread with the token settles the generation
        obtain ⟨hown, hmarked⟩ := hC.2.settling hsettles hrun
        have hj : j = e.tid := (hruns.idsDistinct hstart.trace).unique hown
          (Shared.mem_ids_of_suffix ⟨newer ++ [e], by rw [htr, holder]; simp⟩ htok)
        have hmark := hquiet s (hj ▸ Shared.mem_marks (e := ⟨j, .commit s ws', S.toScene⟩)
          List.mem_cons_self rfl hmarked)
        rw [hmark] at hsettles
        cases hsettles
      · -- what takes the generation supersedes the thread
        obtain ⟨x, hx, hxtok⟩ := howned
        obtain ⟨e', he', ht', hid⟩ := mem_ids (S := S) (Shared.mem_ids_of_suffix
          ⟨newer ++ [e], by rw [htr, holder]; simp⟩ htok)
        have hheld : heldBy S.trace e.tid x = true := ht' ▸ heldBy_of_owned hxtok he' hid
        have huntaken : takes S.trace e.tid ⟨j, .commit s ws', S.toScene⟩ = false :=
          (Bool.or_eq_false_iff.mp hkept).1
        have hany : (generation? S.db g).any (heldBy S.trace e.tid) = true := by
          rw [hx]
          exact hheld
        rcases htakes with ⟨⟨tok', rfl⟩, hne'⟩ | ⟨rfl, hne'⟩ | ⟨y, hy, rfl⟩
        · simp [takes, hne', hany] at huntaken
        · simp [takes, hne', hany] at huntaken
        · rw [hx] at hy
          cases hy
          have hmem : x ∈ generations S.db := by
            rw [mem_generations, generation?_id hx]
            exact hx
          simp only [takes, List.any_eq_false] at huntaken
          have hnot := huntaken x hmem
          simp [hheld] at hnot
    · obtain ⟨x, hx, hxtok⟩ := howned
      exact ⟨x, hdb ▸ hx, hxtok⟩

/-- So does one that is allowed to work. -/
theorem Working.owned (hstart : Begins start) (h : Runs (contract cfg start) S)
    (hworking : Working S t g tok) (hkept : superseded S.trace t = false) : OwnedIn S g tok := by
  obtain ⟨now, e, he, rfl, ⟨ws, hev, hne⟩, -⟩ := hworking.claimed
  obtain ⟨newer, older, htr⟩ := List.append_of_mem he
  obtain ⟨m, n, hasked, -⟩ := hworking.asked
  exact (Runs.holds_claim hstart h htr hev hne hasked hworking.unsettled hkept).2.2

-- ================================================== one worker at an asset

/-- Two generations that transcribe one asset are of one report. -/
theorem Runs.same_report (hstart : Begins start) (h : Runs (contract cfg start) S)
    {e : REntry} (he : e ∈ S.trace) {g' : Id} {x x' : ReportGeneration}
    (hx : generation? e.before.db g = some x) (hx' : generation? e.before.db g' = some x')
    (hscope : Scoped S g .transcription (some a)) (hscope' : Scoped S g' .transcription (some a)) :
    x.reportId = x'.reportId := by
  have hseen : ∀ {g : Id} {x : ReportGeneration}, generation? e.before.db g = some x →
      Scoped S g .transcription (some a) →
      ∃ e' ∈ S.trace, ∃ z, asset? e'.before.db a = some z ∧ z.reportId = x.reportId := by
    rintro g x hx ⟨-, e₁, he₁, y, snapshot, hy, hsnapshot, b, hb, rfl⟩
    have hsame : x.inputSnapshot = y.inputSnapshot :=
      Runs.sightings hstart h (lasting_generation hstart g)
        (fun _ _ h => SameOrigin.inputSnapshot h) he he₁ hx hy
    obtain ⟨S₀, S₁, hpast⟩ := Runs.since hstart.trace h he
    rw [← hpast.scene] at hx
    obtain ⟨e₂, he₂, hz⟩ := Runs.snapshot_seen hstart hpast.runs x snapshot hx
      (hsame.trans hsnapshot) b hb
    exact ⟨e₂, ((List.suffix_cons _ _).trans hpast.suffix).subset he₂, hz⟩
  obtain ⟨e₁, he₁, z, hz, hzr⟩ := hseen hx hscope
  obtain ⟨e₂, he₂, z', hz', hzr'⟩ := hseen hx' hscope'
  rw [← hzr, ← hzr']
  exact Runs.sightings hstart h (lasting_asset hstart a)
    (fun _ _ h => SameUpload.reportId h) he₁ he₂ hz hz'

/-- While a worker with a claim is at an asset, nobody else completes its
transcription. -/
theorem Runs.transcribes_alone (hstart : Begins start) (h : Runs (contract cfg start) S)
    (haway : staysAway S.trace = true) {newer older : List REntry} {e : REntry}
    (htr : S.trace = newer ++ e :: older)
    (hclaim : ∃ e' ∈ older, e'.tid = e.tid ∧
      ∃ ws, e'.event = .commit (.claim g tok) ws ∧ ws ≠ []) {m n : Id}
    (hasked : S.asked e.tid = [.process g m n])
    (hquiet : ∀ s ∈ marks S e.tid, s.settles = false)
    (hkept : superseded S.trace e.tid = false)
    (hscope : Scoped S g .transcription (some a)) {e' : REntry} (he' : e' ∈ newer)
    {g' tok' : Id} (hev : e'.event = .commit (.completeTranscription g' tok' a) ws)
    (hne : ws ≠ []) : e'.tid = e.tid := by
  obtain ⟨later, between, rfl⟩ := List.append_of_mem he'
  have htr' : S.trace = later ++ e' :: (between ++ e :: older) := by
    rw [htr, List.append_assoc]
    rfl
  obtain ⟨S₀, S₁, hpast, hbefore⟩ := h.at hstart.trace htr'
  have hsuffix := (List.suffix_cons e' S₀.trace).trans hpast.suffix
  have haway₀ := staysAway_of_suffix hpast.suffix haway
  have hmem : e ∈ S₀.trace := by
    rw [hbefore]
    exact List.mem_append_right _ List.mem_cons_self
  -- the thread of `e` holds its generation at that moment
  obtain ⟨hg, htok, x, hx, hxtok⟩ : g = g ∧ tok ∈ S₀.ids e.tid ∧ OwnedIn S₀ g tok := by
    obtain ⟨e₁, he₁, ht₁, ws₁, hev₁, hne₁⟩ := hclaim
    obtain ⟨more, rest, hmore⟩ := List.append_of_mem he₁
    have hasked₀ : S₀.asked e.tid = [.process g m n] := by
      refine (Steps.asked_of_mem (C := contract cfg start) ?_ ⟨e, hmem, rfl⟩).symm.trans hasked
      exact Relation.ReflTransGen.head ⟨_, hpast.move⟩ hpast.steps
    rw [← ht₁] at hasked₀ hkept hquiet ⊢
    have htr₀ : S₀.trace = (between ++ e :: more) ++ e₁ :: rest := by
      rw [hbefore, hmore, List.append_assoc]
      rfl
    exact Runs.holds_claim hstart hpast.runs htr₀ hev₁ hne₁ hasked₀
      (fun s hs => hquiet s (marks_mono hsuffix hs)) (superseded_of_suffix hsuffix hkept)
  -- and so does the one that completes the transcription
  obtain ⟨⟨heff, hsite⟩, -⟩ := hpast.commit hev
  obtain ⟨g₁, tok₁, hrun, hworking⟩ := hsite.working rfl
  simp only [Site.ofRun, Bool.and_eq_true, decide_eq_true_eq] at hrun
  obtain ⟨rfl, rfl⟩ := hrun
  obtain ⟨x', hx', hxtok'⟩ := Working.owned hstart hpast.runs hworking
    (not_superseded_of_attempting haway₀ hev rfl hne)
  have hreport : x.reportId = x'.reportId := by
    have hscene : ∀ {i y}, generation? S₀.db i = some y → generation? e'.before.db i = some y := by
      intro i y hy
      rw [← hpast.scene]
      exact hy
    have hmem' : e' ∈ S.trace := hpast.suffix.subset List.mem_cons_self
    exact Runs.same_report hstart h hmem' (hscene hx) (hscene hx') hscope
      (Scoped.mono heff.1 hsuffix)
  have hone := Runs.one_active hstart hpast.runs x.reportId g g' x x' hx hx' rfl hreport.symm
    (active_of_owned hxtok) (active_of_owned hxtok')
  subst hone
  rw [hx] at hx'
  cases hx'
  have htoks : tok' = tok := by
    have h₁ := of_decide_eq_true ((Bool.and_eq_true _ _).mp hxtok).2
    have h₂ := of_decide_eq_true ((Bool.and_eq_true _ _).mp hxtok').2
    exact Option.some.inj (h₂.symm.trans h₁)
  refine (hpast.runs.idsDistinct hstart.trace).unique (n := tok) ?_ htok
  rw [hworking.ids, htoks]
  exact List.mem_singleton.mpr rfl

-- ================================================= finished transcriptions

/-- What is completed was completed by a commit. -/
theorem Runs.completed_since (hstart : Begins start) (h : Runs (contract cfg start) S)
    {newer older : List REntry} {e : REntry} (htr : S.trace = newer ++ e :: older)
    (hentry : ∀ S₀ S₁, Past (contract cfg start) e S₀ S₁ S₁ → S₀.trace = older → ∀ x,
      transcription? S₁.db a = some x → x.status ≠ .completed)
    {x : ReportAssetTranscription} (hx : transcription? S.db a = some x)
    (hcompleted : x.status = .completed) :
    ∃ e' ∈ newer, ∃ g tok ws,
      e'.event = .commit (.completeTranscription g tok a) ws ∧ ws ≠ [] := by
  refine Runs.after (I := fun newer S => ∀ x, transcription? S.db a = some x →
    x.status = .completed → ∃ e' ∈ newer, ∃ g tok ws,
      e'.event = .commit (.completeTranscription g tok a) ws ∧ ws ≠ [])
    hstart.trace h htr ?_ ?_ x hx hcompleted
  · intro S₀ S₁ hpast holder x hx hcompleted
    exact absurd hcompleted (hentry S₀ S₁ hpast holder x hx)
  · intro j S S' newer added hruns htr ih hm hadded y hy hcompleted
    have hold : transcription? S.db a = some y → ∃ e' ∈ added ++ newer, ∃ g tok ws,
        e'.event = .commit (.completeTranscription g tok a) ws ∧ ws ≠ [] := fun hy => by
      obtain ⟨e', he', hev⟩ := ih y hy hcompleted
      exact ⟨e', List.mem_append_right _ he', hev⟩
    rcases hm.commit_or with ⟨s, ws, hC, -, rfl⟩ | ⟨hdb, -⟩
    · have hentry : added = [⟨j, .commit s ws, S.toScene⟩] :=
        List.append_cancel_right hadded.symm
      have hafter : transcription? (applyAll ws S.db) a = some y := hy
      by_cases hsame : transcription? (applyAll ws S.db) a = transcription? S.db a
      · exact hold (hsame ▸ hafter)
      · have hne : ws ≠ [] := by
          rintro rfl
          exact hsame rfl
        have hchange := (hC.1.transcription a).resolve_left hsame
        rw [hafter] at hchange
        generalize transcription? S.db a = before at hchange
        cases hchange with
        | begun _ _ hstatus => exact absurd (hstatus.symm.trans hcompleted) (by simp)
        | failed _ _ hstatus => exact absurd (hstatus.symm.trans hcompleted) (by simp)
        | completed g tok =>
            refine ⟨⟨j, .commit _ ws, S.toScene⟩, ?_, g, tok, ws, rfl, hne⟩
            rw [hentry]
            exact List.mem_cons_self
    · exact hold (hdb ▸ hy)

/-- If the provider never answered with an empty transcript, a completed
transcription has a text. -/
theorem Runs.finished (hstart : Begins start) (h : Runs (contract cfg start) S)
    (hspoken : spokenOnly S.trace = true) {x : ReportAssetTranscription}
    (hx : transcription? S.db a = some x) (hcompleted : x.status = .completed) :
    finishedText (some x) ≠ none := by
  have htext : ∃ text, x.text = some text ∧ text ≠ "" := by
    refine h.invariant (I := fun S => spokenOnly S.trace = true → ∀ x,
      transcription? S.db a = some x → x.status = .completed →
        ∃ text, x.text = some text ∧ text ≠ "") ?_ ?_ hspoken x hx hcompleted
    · intro _ x hx
      rw [show (contract cfg start).start.db = start.db from rfl, transcription?_eq_none.mpr
        (hstart.unused.find?_eq_none (by simp [Key.table]) (by simp [Key.table]))] at hx
      cases hx
    · intro j S S' _ ih hm hspoken y hy hcompleted
      have hspoken₀ : spokenOnly S.trace = true := List.all_eq_true.mpr fun e he =>
        List.all_eq_true.mp hspoken e (hm.trace_suffix.subset he)
      rcases hm.commit_or with ⟨s, ws, hC, -, rfl⟩ | ⟨hdb, -⟩
      · have hafter : transcription? (applyAll ws S.db) a = some y := hy
        rcases hC.1.transcription a with hsame | hchange
        · exact ih hspoken₀ y (hsame ▸ hafter) hcompleted
        · rw [hafter] at hchange
          generalize transcription? S.db a = before at hchange
          cases hchange with
          | begun _ _ hstatus => exact absurd (hstatus.symm.trans hcompleted) (by simp)
          | failed _ _ hstatus => exact absurd (hstatus.symm.trans hcompleted) (by simp)
          | completed g tok _ _ k fileName mimeType language r _ hcall htext =>
              obtain ⟨e, he, hev⟩ := hcall
              have hnonempty := List.all_eq_true.mp hspoken₀ e he
              rw [hev] at hnonempty
              exact ⟨_, htext, of_decide_eq_true hnonempty⟩
      · exact ih hspoken₀ y (hdb ▸ hy) hcompleted
  obtain ⟨text, htext, hne⟩ := htext
  simp [finishedText, hcompleted, htext, hne]

/-- A condition on the whole history holds of its beginning. -/
theorem spokenOnly_of_suffix {l l' : List REntry} (hl : l <:+ l') (h : spokenOnly l' = true) :
    spokenOnly l = true :=
  List.all_eq_true.mpr fun e he => List.all_eq_true.mp h e (hl.subset he)

/-- The upsert leaves the transcription unfinished. -/
theorem Effect.begun (h : Effect cfg t (.beginTranscription a) ws S)
    {x : ReportAssetTranscription} (hx : transcription? (applyAll ws S.db) a = some x) :
    x.status ≠ .completed := by
  have hnone : ∀ w ∈ ([] : List (Write Row Key)), w.target.table ≠ .transcription := by simp
  have hwritten : ∀ {w : Write Row Key} {y : ReportAssetTranscription},
      w.row? = some (.transcription y) → y.assetId = a → y.status = .processing → ws = [w] →
      x.status ≠ .completed := by
    rintro w y hw hid hstatus rfl
    have hafter : transcription? (applyAll ([] ++ [w]) S.db) a = some x := hx
    rw [transcription?_of_write hnone hw, if_pos hid] at hafter
    cases hafter
    rw [hstatus]
    simp
  rcases h.1 with ⟨z, y, -, hid, hstatus, hws⟩ | ⟨y, -, hid, hstatus, hws⟩
  · exact hwritten rfl hid hstatus hws
  · exact hwritten rfl hid hstatus hws

/-- The worker that begins or fails a transcription has not seen it
completed, and nobody else completes it meanwhile. -/
theorem Runs.completed_kept (hstart : Begins start) (h : Runs (contract cfg start) S)
    (haway : staysAway S.trace = true) (hspoken : spokenOnly S.trace = true)
    (heff : Effect cfg t s ws S) (hsite : RunSite S t s)
    (hkept : s.attempting = true → ws ≠ [] → superseded S.trace t = false)
    {x y : ReportAssetTranscription}
    (hx : transcription? S.db a = some x) (hcompleted : x.status = .completed)
    (hy : transcription? (applyAll ws S.db) a = some y) : y.status = .completed := by
  by_cases hsame : transcription? (applyAll ws S.db) a = transcription? S.db a
  · rw [hsame, hx] at hy
    cases hy
    exact hcompleted
  · have hne : ws ≠ [] := by
      rintro rfl
      exact hsame rfl
    have hchange := (heff.transcription a).resolve_left hsame
    rw [hx, hy] at hchange
    cases hchange with
    | completed _ _ _ _ _ _ _ _ _ hstatus => exact hstatus
    | begun =>
        obtain ⟨-, g, tok, m, n, hasked, hfound, hscope⟩ := heff
        obtain ⟨newer, e, older, htr, rfl, hev, hnone, hquiet, hclaim⟩ := hfound
        obtain ⟨g₁, tok₁, -, hworking⟩ := hsite.working rfl
        obtain ⟨e', he', g', tok', ws', hev', hne'⟩ := Runs.completed_since hstart h htr (a := a)
          (fun S₀ S₁ hpast holder x hx hdone => by
            rw [hpast.db_eq (by rw [hev]; simp), show S₀.db = e.before.db by rw [← hpast.scene]]
              at hx
            have hbefore : transcription? S₀.db a = some x := by
              rw [show S₀.db = e.before.db by rw [← hpast.scene]]
              exact hx
            have hsuffix : S₀.trace <:+ S.trace := ⟨newer ++ [e], by rw [htr, holder]; simp⟩
            refine Runs.finished hstart hpast.runs (spokenOnly_of_suffix hsuffix hspoken) hbefore
              hdone ?_
            rw [← hx]
            exact hnone) hx hcompleted
        have ht := Runs.transcribes_alone hstart h haway htr hclaim hasked hworking.unsettled
          (hkept rfl hne) hscope he' hev' hne'
        have hmark := hquiet e' he' ht _ _ hev'
        cases hmark
    | failed =>
        obtain ⟨-, newer, e, older, htr, rfl, ⟨ws₀, hev⟩, hquiet⟩ := heff
        obtain ⟨g₁, tok₁, -, hworking⟩ := hsite.working rfl
        obtain ⟨S₀, S₁, hpast, holder⟩ := h.at hstart.trace htr
        obtain ⟨⟨heff₀, hsite₀⟩, -⟩ := hpast.commit hev
        obtain ⟨-, g, -, m, n, hasked, -, hscope⟩ := heff₀
        obtain ⟨g₂, tok, -, hworking₀⟩ := hsite₀.working rfl
        obtain ⟨m₂, n₂, hasked₂, hlive₂⟩ := hworking₀.asked
        cases hasked.symm.trans hasked₂
        obtain ⟨now, e₁, he₁, ht₁, hclaimed, -⟩ := hworking₀.claimed
        have hasked' : S.asked e.tid = [.process g m n] := by
          refine (Steps.asked_of_mem (C := contract cfg start) (S := S₀)
            (Relation.ReflTransGen.head ⟨_, hpast.move⟩ hpast.steps) ?_).trans hasked
          exact Runs.live_mem hstart.live hpast.runs hlive₂
        obtain ⟨e', he', g', tok', ws', hev', hne'⟩ := Runs.completed_since hstart h htr (a := a)
          (fun S₀ S₁ hpast _ x hx => by
            obtain ⟨⟨heff₀, -⟩, rfl⟩ := hpast.commit hev
            exact heff₀.begun hx) hx hcompleted
        have ht := Runs.transcribes_alone hstart h haway htr
          ⟨e₁, holder ▸ he₁, ht₁, hclaimed⟩ hasked' hworking.unsettled (hkept rfl hne)
          (hscope.mono ((List.suffix_cons _ _).trans hpast.suffix)) he' hev' hne'
        have hmark := hquiet e' he' ht _ _ hev'
        cases hmark

-- ========================================================= fenced writes

/-- The write creates a provider attempt, or writes a transcription. -/
def needsClaim : Write Row Key → Bool
  | .insert (.attempt _) | .insert (.transcription _) | .update (.transcription _) => true
  | _ => false

theorem Closes.needsClaim {id : AttemptKey} {status : GenerationProviderAttemptStatus}
    (h : Closes id status ws S) : ∀ w ∈ ws, needsClaim w = false := by
  obtain ⟨x, y, -, -, -, -, -, rfl⟩ := h
  intro w hw
  cases List.mem_singleton.mp hw
  rfl

theorem Discards.needsClaim (h : Discards a ws) : ∀ w ∈ ws, needsClaim w = false := by
  intro w hw
  rcases h.2 w hw with rfl | rfl | ⟨id, -, rfl⟩ <;> rfl

theorem Removes.needsClaim {gone reports : Id → Prop} {d : Db Row}
    (h : Removes gone reports d ws) : ∀ w ∈ ws, needsClaim w = false := by
  intro w hw
  rcases h.writes w hw with ⟨x, -, -, rfl⟩ | ⟨x, -, -, rfl⟩ | ⟨id, -, rfl⟩ | ⟨r, -, rfl⟩ |
    ⟨i, -, rfl⟩ | ⟨o, -, -, rfl⟩ | ⟨l, i, -, -, -, rfl⟩ <;> rfl

/-- What needs a claim is an attempt or a transcription. -/
theorem needsClaim_table {w : Write Row Key} (h : needsClaim w = true) :
    w.target.table = .attempt ∨ w.target.table = .transcription := by
  unfold needsClaim at h
  split at h
  next => exact Or.inl rfl
  next => exact Or.inr rfl
  next => exact Or.inr rfl
  next => cases h

/-- A run that starts or writes something works on its generation. -/
theorem Site.working_of_attempting (h : s.attempting = true) : s.working = true := by
  cases s <;> first | rfl | cases h

/-- Such a write is made at a site of a run that works on its claim, and an
attempt is created for the site's generation and token. -/
theorem Effect.needs_claim (h : Effect cfg t s ws S) {w : Write Row Key} (hw : w ∈ ws)
    (hneeds : needsClaim w = true) : s.attempting = true ∧ ∀ y, w = .insert (.attempt y) →
      ∃ operation assetId,
        s = .startAttempt y.id.generationId y.processingToken operation assetId := by
  have htable := h.tables w hw
  have hnever : needsClaim w = false → s.attempting = true ∧ ∀ y, w = .insert (.attempt y) →
      ∃ operation assetId,
        s = .startAttempt y.id.generationId y.processingToken operation assetId := by
    intro hno
    rw [hno] at hneeds
    cases hneeds
  have hclosed : ∀ {id : AttemptKey} {status : GenerationProviderAttemptStatus}
      {side : List (Write Row Key)}, Closes id status side S → w ∈ side → needsClaim w = false :=
    fun hcloses hw => hcloses.needsClaim w hw
  have hfenced : ∀ {g tok : Id}, Fenced g tok ws S → needsClaim w = false := by
    rintro g tok (rfl | ⟨x, y, side, -, -, -, hside, rfl⟩)
    · cases hw
    · rcases List.mem_append.mp hw with hw | hw
      · rcases hside with rfl | ⟨id, -, hcloses⟩
        · cases hw
        · exact hclosed hcloses hw
      · cases List.mem_singleton.mp hw
        rfl
  cases s with
  | compensateQueueFailure g =>
      obtain rfl | ⟨_, _, _, x, y, credit, follow, removal, -, -, -, -, -, -, rfl, hcred, hfollow,
        -, hremoves⟩ := h
      · cases hw
      · refine hnever ?_
        rcases List.mem_append.mp hw with hw | hw
        · by_contra hneeds
          rw [Bool.not_eq_false] at hneeds
          have hwritten : w.target.table ∈ [Table.grant, .ledger, .report] := by
            rcases List.mem_append.mp hw with hw | hw
            · have hcredit := hcred.tables w hw
              simp only [List.mem_cons, List.not_mem_nil, or_false] at hcredit ⊢
              tauto
            · rcases hfollow with ⟨r, -, -, rfl⟩ | ⟨rfl, -⟩
              · cases List.mem_singleton.mp hw
                simp [Write.target, key, Key.table]
              · cases hw
          rcases needsClaim_table hneeds with he | he <;> rw [he] at hwritten <;>
            simp at hwritten
        · exact hremoves.needsClaim w hw
  | updateProgress g tok => exact hnever (hfenced h)
  | persistReportResult g tok => exact hnever (hfenced h)
  | renewLease g tok => exact hnever (hfenced h)
  | startAttempt g tok operation assetId =>
      obtain ⟨z, rfl, -, -, hid, -, htok, -⟩ := h
      refine ⟨rfl, ?_⟩
      rintro y rfl
      rcases List.mem_append.mp hw with hw | hw
      · obtain ⟨x, -, heq⟩ := List.mem_map.mp hw
        cases heq
      · cases List.mem_singleton.mp hw
        refine ⟨operation, assetId, ?_⟩
        rw [hid, htok]
  | completeOwned g tok =>
      obtain ⟨id, snapshot, transcripts, -, hcloses, -⟩ := h
      exact hnever (hclosed hcloses hw)
  | failAttempt id =>
      obtain rfl | hcloses := h
      · cases hw
      · exact hnever (hclosed hcloses hw)
  | beginTranscription i =>
      refine ⟨rfl, ?_⟩
      rintro y rfl
      simp [Write.target, key, Key.table, Site.tables] at htable
  | completeTranscription g tok i =>
      obtain ⟨-, id, x, z, side, -, hcloses, -, -, -, rfl, -⟩ := h
      refine ⟨rfl, ?_⟩
      rintro y rfl
      rcases List.mem_append.mp hw with hw | hw
      · have hno := hclosed hcloses hw
        cases hno
      · cases List.mem_singleton.mp hw
  | failTranscription i =>
      refine ⟨rfl, ?_⟩
      rintro y rfl
      simp [Write.target, key, Key.table, Site.tables] at htable
  | deleteReport i =>
      obtain ⟨r, side, removal, -, -, -, hside, -, rfl, -, -, -, hremoves⟩ := h
      refine hnever ?_
      rcases List.mem_append.mp hw with hw | hw
      · obtain ⟨k, -, hk⟩ := hside w hw
        obtain ⟨z, -, rfl | rfl⟩ := hk <;> rfl
      · exact hremoves.needsClaim w hw
  | dropPendingAsset i =>
      obtain rfl | ⟨hdiscards, -⟩ := h
      · cases hw
      · exact hnever (hdiscards.needsClaim w hw)
  | deleteAsset i =>
      obtain ⟨x, w', removal, -, htask, rfl, -, -, hremoval⟩ := h
      refine hnever ?_
      rcases List.mem_cons.mp hw with rfl | hw
      · obtain ⟨z, -, rfl | rfl⟩ := htask <;> rfl
      · rcases hremoval with ⟨rfl, -⟩ | ⟨y, -, -, hdiscards⟩
        · cases hw
        · exact hdiscards.needsClaim w hw
  | _ => rcases needsClaim_table hneeds with he | he <;> rw [he] at htable <;>
      simp [Site.tables] at htable

/-- Attempts and transcriptions are written by whoever holds the generation,
and a completed transcription stays completed. -/
structure Fencing (S : RState) : Prop where
  owned : ∀ newer e older s ws w, S.trace = newer ++ e :: older → e.event = .commit s ws →
    w ∈ ws → needsClaim w = true → ∃ g tok, Serves (stateBefore e older) e.tid g tok ∧
      OwnedIn (stateBefore e older) g tok ∧
      ∀ y, w = .insert (.attempt y) → y.id.generationId = g ∧ y.processingToken = tok
  completed : ∀ e ∈ S.trace, ∀ s ws, e.event = .commit s ws → ∀ a x y,
    transcription? e.before.db a = some x → x.status = .completed →
    transcription? (applyAll ws e.before.db) a = some y → y.status = .completed

/-- If a run from which its generation was taken writes no attempt and no
transcription any more, and no transcript is empty, every attempt and every
write of a transcription is made by the holder of the generation, and a
completed transcription stays completed. -/
theorem fenced_writes (h : Reached cfg w) (haway : staysAway w.shared.trace = true)
    (hspoken : spokenOnly w.shared.trace = true) : Fencing w.shared := by
  obtain ⟨start, hstart, hruns⟩ := h.runs
  constructor
  · intro newer e older s ws w htr hev hw hneeds
    obtain ⟨S₀, S₁, hpast, rfl⟩ := hruns.at hstart.trace htr
    have hstate : stateBefore e S₀.trace = S₀ := by
      unfold stateBefore
      rw [← hpast.scene]
    rw [hstate]
    obtain ⟨⟨heff, hsite⟩, -⟩ := hpast.commit hev
    obtain ⟨hattempting, hattempt⟩ := heff.needs_claim hw hneeds
    obtain ⟨g, tok, hrun, hworking⟩ := hsite.working (Site.working_of_attempting hattempting)
    have hkept := not_superseded_of_attempting (staysAway_of_suffix hpast.suffix haway) hev
      hattempting (List.ne_nil_of_mem hw)
    refine ⟨g, tok, hworking.toServes, Working.owned hstart hpast.runs hworking hkept,
      fun y hy => ?_⟩
    obtain ⟨operation, assetId, rfl⟩ := hattempt y hy
    simpa [Site.ofRun] using hrun
  · intro e he s ws hev a x y hx hcompleted hy
    obtain ⟨S₀, S₁, hpast⟩ := Runs.since hstart.trace hruns he
    have hsuffix := (List.suffix_cons e S₀.trace).trans hpast.suffix
    obtain ⟨⟨heff, hsite⟩, -⟩ := hpast.commit hev
    rw [← hpast.scene] at hx hy
    exact Runs.completed_kept hstart hpast.runs (staysAway_of_suffix hsuffix haway)
      (spokenOnly_of_suffix hsuffix hspoken) heff hsite
      (not_superseded_of_attempting (staysAway_of_suffix hpast.suffix haway) hev) hx hcompleted hy

/-- A run waits for its transcript when its lease ends, and another run takes
the generation over and completes the transcription. Then the first one gets
its answer. -/
def answeredLate : List (Action Req Choice) :=
  audioConfirmed ++ .spawn 5 (.createGeneration 1 10 "k") :: steps 5 5
    ++ .answer 5 .done :: steps 5 5
    ++ .spawn 6 (.process 14 1 2) :: steps 6 24 ++ .answer 6 .done :: .step 6
    :: .tick (defaults.reportGenerationJobTimeoutMs + 1) :: .spawn 7 (.process 14 2 2)
    :: steps 7 24 ++ .answer 7 .done :: .step 7
    :: .answer 7 (.transcribed ⟨⟨"x", none, none⟩, none, none, none⟩) :: steps 7 25
    ++ .answer 6 (.transcribed ⟨⟨"y", none, none⟩, none, none, none⟩) :: steps 6 9

/-- A run that was superseded comes back late with an answer of the provider,
and what it has written stays fenced. -/
theorem fenced_writes_transcribed : ∃ w x, Reached defaults w ∧
    superseded w.shared.trace 6 = true ∧ transcription? w.shared.db 12 = some x ∧
    x.status = .completed ∧ x.text = some "x" ∧ Fencing w.shared := by
  have hrun : (sampleWorld.runAll (app defaults) answeredLate).any (fun w =>
      staysAway w.shared.trace && spokenOnly w.shared.trace && superseded w.shared.trace 6 &&
        (transcription? w.shared.db 12).any fun x => x.status = .completed
          && x.text = some "x") = true := by
    decide +kernel
  obtain ⟨w, hw, hp⟩ := exists_reached hrun
  simp only [Bool.and_eq_true, Option.any_eq_true, decide_eq_true_eq] at hp
  obtain ⟨⟨⟨haway, hspoken⟩, hsuperseded⟩, x, hx, hstatus, htext⟩ := hp
  exact ⟨w, x, hw, hsuperseded, hx, hstatus, htext, fenced_writes hw haway hspoken⟩

/-- A commit creates an attempt for a generation its token does not own. -/
def strayAttempt (e : REntry) : Bool :=
  match e.event with
  | .commit _ ws => ws.any fun w => match w with
      | .insert (.attempt y) =>
          !(generation? e.before.db y.id.generationId).any (·.ownedBy y.processingToken)
      | _ => false
  | _ => false

/-- An attempt that was started for a run without the claim is not fenced. -/
theorem strayAttempt_unfenced {e : REntry} (he : e ∈ S.trace) (hstray : strayAttempt e = true) :
    ¬ Fencing S := by
  intro hfencing
  obtain ⟨newer, older, htr⟩ := List.append_of_mem he
  unfold strayAttempt at hstray
  split at hstray
  next s ws hev =>
      obtain ⟨w, hw, hstray⟩ := List.any_eq_true.mp hstray
      split at hstray
      next y =>
          obtain ⟨g, tok, -, ⟨x, hx, hown⟩, hattempt⟩ :=
            hfencing.owned newer e older s ws _ htr hev hw rfl
          obtain ⟨rfl, rfl⟩ := hattempt y rfl
          have hbefore : generation? e.before.db y.id.generationId = some x := hx
          rw [hbefore] at hstray
          simp [hown] at hstray
      next => cases hstray
  next => cases hstray

/-- A run is about to start its moderation when its lease ends and another
run takes the generation over. -/
def takenOver : List (Action Req Choice) :=
  generationStarted ++ .spawn 4 (.process 12 1 2) :: steps 4 26
    ++ .tick (defaults.reportGenerationJobTimeoutMs + 1) :: .spawn 5 (.process 12 2 2)
    :: steps 5 7 ++ [.step 4]

/-- The first run still uses up an attempt. -/
theorem attempt_after_takeover : ∃ cfg w, cfg.accepted = true ∧ Reached cfg w ∧
    ¬ Fencing w.shared := by
  have hrun : (sampleWorld.runAll (app defaults) takenOver).any (fun w =>
      w.shared.trace.any strayAttempt) = true := by
    decide +kernel
  obtain ⟨w, hw, hp⟩ := exists_reached hrun
  obtain ⟨e, he, hstray⟩ := List.any_eq_true.mp hp
  exact ⟨defaults, w, defaults_accepted, hw, strayAttempt_unfenced he hstray⟩

end FastRep.Reports
