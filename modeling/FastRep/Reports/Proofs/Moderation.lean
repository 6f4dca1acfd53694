/-
The moderation gate: nothing is generated from sources that did not pass.

A run that asks for a report found a completed moderation attempt of its
generation, or completed one itself. Either way a commit completed it
(`Runs.moderated`), and the run that made this commit had screened a source
text and every image of the generation's snapshot, which never changes
(`Runs.same_snapshot`). So the images of every request passed. The text passed
as that run had transcribed it: where nothing is transcribed, exactly the text
of the request.

# What may differ

With audio in the snapshot, the text of the request may differ from the one
that was screened: a recording whose stored transcript was empty, or was begun
again, is transcribed anew by a later run, and the completed moderation of
the generation is taken as it is. What is the same is the snapshot the two
texts are made from.
-/
import FastRep.Reports.Proofs.Fencing
import FastRep.Reports.Proofs.Publication

namespace FastRep.Reports

open FastRep.Txn

variable {cfg : Config} {start S : RState} {t : Tid} {w : RWorld} {g : Id}
  {snapshot : GenerationInputSnapshot} {transcripts : List (Id × String)}

-- =============================================================== attempts

/-- A moderation attempt is completed by a commit of its generation. -/
theorem Runs.moderated (hstart : Begins start) (h : Runs (contract cfg start) S)
    {id : AttemptKey} (hop : id.operation = .moderation) :
    ∀ x, attempt? S.db id = some x → x.status = .completed →
      ∃ e ∈ S.trace, ∃ tok ws, e.event = .commit (.completeOwned id.generationId tok) ws := by
  refine h.invariant (I := fun S => ∀ x, attempt? S.db id = some x → x.status = .completed →
    ∃ e ∈ S.trace, ∃ tok ws, e.event = .commit (.completeOwned id.generationId tok) ws) ?_ ?_
  · intro x hx
    have hnone := attempt?_eq_none.mpr (hstart.unused.find?_eq_none (k := .attempt id)
      (by simp [Key.table]) (by simp [Key.table]))
    exact absurd (hx.symm.trans hnone) (by simp)
  · intro j S S' _ ih hm x hx hcompleted
    have hold : attempt? S.db id = some x → ∃ e ∈ S'.trace, ∃ tok ws,
        e.event = .commit (.completeOwned id.generationId tok) ws := by
      intro hx
      obtain ⟨e, he, hev⟩ := ih x hx hcompleted
      exact ⟨e, hm.trace_suffix.subset he, hev⟩
    rcases hm.commit_or with ⟨s, ws, hC, -, rfl⟩ | ⟨hdb, -⟩
    · have hafter : attempt? (applyAll ws S.db) id = some x := hx
      rcases hC.1.attempt id with hsame | hchange
      · exact hold (hsame ▸ hafter)
      · rw [hafter] at hchange
        generalize attempt? S.db id = before at hchange
        cases hchange with
        | started _ _ _ hstatus =>
            rw [hstatus] at hcompleted
            cases hcompleted
        | stale => cases hcompleted
        | closed _ _ _ status _ _ hstatus _ hsite =>
            obtain ⟨tok, rfl⟩ := hsite (hstatus.symm.trans hcompleted) hop
            exact ⟨⟨j, .commit _ ws, S.toScene⟩, List.mem_cons_self, tok, ws, rfl⟩
    · exact hold (hdb ▸ hx)

-- =============================================================== the gate

/-- The entry completed a moderation attempt of the generation in which a
source text and all images of the snapshot were screened. -/
structure Clears (e : REntry) (older : List REntry) (g : Id)
    (snapshot : GenerationInputSnapshot) (transcripts : List (Id × String)) : Prop where
  completed : ∃ tok id ws, e.event = .commit (.completeOwned g tok) ws ∧
    id.generationId = g ∧ Closes id .completed ws (stateBefore e older) ∧
    Screened (stateBefore e older) e.tid id (moderationItems snapshot transcripts)
  sourced : Sourced (stateBefore e older) e.tid g snapshot transcripts

/-- Whatever cleared a text and its images, they passed. -/
theorem Clears.passed {e : REntry} {older : List REntry}
    (h : Clears e older g snapshot transcripts) :
    ∀ m ∈ moderationItems snapshot transcripts, Passed older e.tid m := by
  intro m hm
  obtain ⟨tok, id, ws, -, -, -, newer, e', older', tok', ws', y, htr, -, -, -, -, -, -, hitems⟩ :=
    h.completed
  apply (hitems m hm).mono
  rw [show older = _ from htr]
  exact List.subset_append_left _ _

/-- The snapshot of a generation is the same whenever it is read. -/
theorem Runs.same_snapshot (hstart : Begins start) (h : Runs (contract cfg start) S)
    {s s' : GenerationInputSnapshot}
    (hs : Once S fun d => ∃ x, generation? d g = some x ∧ x.inputSnapshot = some s)
    (hs' : Once S fun d => ∃ x, generation? d g = some x ∧ x.inputSnapshot = some s') :
    s = s' := by
  obtain ⟨e, he, x, hx, hsnapshot⟩ := hs
  obtain ⟨e', he', x', hx', hsnapshot'⟩ := hs'
  have hsame : x.inputSnapshot = x'.inputSnapshot :=
    Runs.sightings hstart h (lasting_generation hstart g)
      (fun _ _ h => SameOrigin.inputSnapshot h) he he' hx hx'
  rw [hsnapshot, hsnapshot'] at hsame
  exact Option.some.inj hsame

/-- A run that found moderation done, or did it, comes after the entry that
completed it. -/
theorem Runs.gated (hstart : Begins start) (h : Runs (contract cfg start) S)
    (hmoderated : Moderated S t g)
    (hs : Once S fun d => ∃ x, generation? d g = some x ∧ x.inputSnapshot = some snapshot) :
    ∃ newer e older transcripts, S.trace = newer ++ e :: older ∧
      Clears e older g snapshot transcripts := by
  obtain ⟨e, he, tok, ws, hev⟩ : ∃ e ∈ S.trace, ∃ tok ws,
      e.event = .commit (.completeOwned g tok) ws := by
    obtain ⟨e, he, -, ⟨-, a, ha, hag, hop, hcompleted⟩ | ⟨tok, ws, hev⟩⟩ := hmoderated
    · obtain ⟨S₀, S₁, hpast⟩ := Runs.since hstart.trace h he
      have ha' : attempt? S₀.db a.id = some a := by
        rw [show S₀.db = e.before.db from congrArg Scene.db hpast.scene]
        exact mem_attempts.mp ha
      obtain ⟨e', he', hev⟩ := Runs.moderated hstart hpast.runs hop a ha' hcompleted
      have hold : e' ∈ S.trace := hpast.suffix.subset (List.mem_cons_of_mem _ he')
      exact ⟨e', hold, hag ▸ hev⟩
    · exact ⟨e, he, tok, ws, hev⟩
  obtain ⟨newer, older, htr⟩ := List.append_of_mem he
  obtain ⟨S₀, S₁, hpast, rfl⟩ := h.at hstart.trace htr
  have hstate : stateBefore e S₀.trace = S₀ := by
    unfold stateBefore
    rw [← hpast.scene]
  obtain ⟨⟨⟨id, s', transcripts, hid, hcloses, hsourced, hscreened⟩, -⟩, -⟩ := hpast.commit hev
  have hsuffix : S₀.trace <:+ S.trace := (List.suffix_cons _ _).trans hpast.suffix
  obtain rfl := Runs.same_snapshot hstart h hs (hsourced.1.mono hsuffix)
  refine ⟨newer, e, S₀.trace, transcripts, htr, ?_, ?_⟩
  · rw [hstate]
    exact ⟨tok, id, ws, hev, hid, hcloses, hscreened⟩
  · rw [hstate]
    exact hsourced

/-- The images of a snapshot are items of its moderation. -/
theorem mem_moderationItems {k : StorageKey} (hk : k ∈ (imageKeys snapshot).map (·.2)) :
    .imageUrl k ∈ moderationItems snapshot transcripts := by
  obtain ⟨image, himage, rfl⟩ := List.mem_map.mp hk
  exact List.mem_cons_of_mem _ (List.mem_map.mpr ⟨image, himage, rfl⟩)

/-- Transcripts are for audio only. -/
theorem Sourced.eq_nil (h : Sourced S t g snapshot transcripts)
    (haudio : ∀ a ∈ snapshot.assets, a.type ≠ .audio) : transcripts = [] := by
  have hnone : snapshot.assets.filter (fun a => a.type = .audio) = [] :=
    List.filter_eq_nil_iff.mpr fun a ha => by simpa using haudio a ha
  have hmap := h.2.1
  rw [hnone] at hmap
  exact List.map_eq_nil_iff.mp hmap

/-- Whenever the provider is asked for a report, a moderation attempt of the
generation was completed before, in which a source text of the same snapshot
and every image of the request passed; and the text of the request itself
where the snapshot has no audio. -/
theorem generated_after_moderation (cfg : Config) (w : RWorld) (h : Reached cfg w) :
    ∀ newer e older r c, w.shared.trace = newer ++ e :: older →
      e.event = .call (.generateReport r) c →
      ∃ g tok snapshot transcripts, Working (stateBefore e older) e.tid g tok ∧
        Sourced (stateBefore e older) e.tid g snapshot transcripts ∧
        r.sourceText = buildSourceText snapshot transcripts ∧
        ∃ newer' e' older' transcripts', older = newer' ++ e' :: older' ∧
          Clears e' older' g snapshot transcripts' ∧
          (∀ i ∈ r.images, Passed older' e'.tid (.imageUrl i.url)) ∧
          Passed older' e'.tid (.text (buildSourceText snapshot transcripts')) ∧
          ((∀ a ∈ snapshot.assets, a.type ≠ .audio) →
            Passed older' e'.tid (.text r.sourceText)) := by
  intro newer e older r c htr hev
  obtain ⟨start, hstart, hruns⟩ := h.runs
  obtain ⟨S₀, S₁, hpast, rfl⟩ := hruns.at hstart.trace htr
  have hstate : stateBefore e S₀.trace = S₀ := by
    unfold stateBefore
    rw [← hpast.scene]
  have hcall := hpast.promised
  rw [hev] at hcall
  obtain ⟨g, tok, snapshot, transcripts, hworking, hsourced, hmoderated, htext, himages⟩ := hcall
  obtain ⟨newer', e', older', transcripts', htr', hclears⟩ :=
    Runs.gated hstart hpast.runs hmoderated hsourced.1
  have hpassed := hclears.passed
  refine ⟨g, tok, snapshot, transcripts, hstate ▸ hworking, hstate ▸ hsourced, htext, newer', e',
    older', transcripts', htr', hclears, ?_, hpassed _ List.mem_cons_self, ?_⟩
  · intro i hi
    apply hpassed
    apply mem_moderationItems
    rw [← himages, List.map_map]
    exact List.mem_map.mpr ⟨i, hi, rfl⟩
  · intro haudio
    rw [htext, hsourced.eq_nil haudio, ← hclears.sourced.eq_nil haudio]
    exact hpassed _ List.mem_cons_self

/-- The entry asks for a report on an image and a recording. -/
def asksReport (e : REntry) : Bool :=
  match e.event with
  | .call (.generateReport r) _ =>
      !r.images.isEmpty && r.sourceText.audioTranscripts = [("audio recording 1", "x")]
  | _ => false

theorem asksReport_eq {e : REntry} (h : asksReport e = true) :
    ∃ r c, e.event = .call (.generateReport r) c ∧ r.images ≠ [] ∧
      r.sourceText.audioTranscripts = [("audio recording 1", "x")] := by
  unfold asksReport at h
  split at h
  next hev =>
      simp only [Bool.and_eq_true, Bool.not_eq_true', List.isEmpty_eq_false_iff,
        decide_eq_true_eq] at h
      exact ⟨_, _, hev, h.1, h.2⟩
  next => cases h

/-- The header of a PNG of one pixel. -/
def pngHeader : Bytes :=
  [0x89, 0x50, 0x4e, 0x47, 0x0d, 0x0a, 0x1a, 0x0a, 0, 0, 0, 13, 0x49, 0x48, 0x44, 0x52, 0, 0, 0, 1,
    0, 0, 0, 1]

/-- The report has an audio asset and an image, and its run generates it. -/
def pictureModerated : List (Action Req Choice) :=
  audioConfirmed ++ .spawn 5 (.requestUpload 1 10 .image "image/png" pngHeader.length "p")
    :: steps 5 13 ++ .answer 5 .done :: .step 5 :: .ambient (.post (.asset 1 10 14 15) pngHeader)
    :: .spawn 6 (.confirmUpload 1 10 14) :: steps 6 7 ++ .answer 6 .done :: .answer 6 .done
    :: steps 6 7 ++ .spawn 7 (.createGeneration 1 10 "k") :: steps 7 5
    ++ .answer 7 .done :: steps 7 5 ++ .spawn 8 (.process 16 1 1) :: steps 8 24
    ++ .answer 8 .done :: .step 8 :: .answer 8 (.transcribed ⟨⟨"x", none, none⟩, none, none, none⟩)
    :: steps 8 19 ++ .answer 8 .done :: steps 8 6 ++ .answer 8 (.moderated false none)
    :: .answer 8 (.moderated false none) :: steps 8 14 ++ .answer 8 .done :: .step 8
    :: [.answer 8 (.reported ⟨sampleResult, none, none, none⟩)]

/-- A report on a recording and an image is asked for after the text and the
image have passed. -/
theorem generated_after_moderation_picture : ∃ w, Reached defaults w ∧
    ∃ newer e older r c, w.shared.trace = newer ++ e :: older ∧
      e.event = .call (.generateReport r) c ∧ r.images ≠ [] ∧
      r.sourceText.audioTranscripts = [("audio recording 1", "x")] ∧
      ∃ newer' e' older' g tok ws, older = newer' ++ e' :: older' ∧
        e'.event = .commit (.completeOwned g tok) ws ∧
        ∀ i ∈ r.images, Passed older' e'.tid (.imageUrl i.url) := by
  have hrun : (sampleWorld.runAll (app defaults) pictureModerated).any (fun w =>
      w.shared.trace.any asksReport) = true := by
    decide +kernel
  obtain ⟨w, hw, hp⟩ := exists_reached hrun
  obtain ⟨e, he, hasks⟩ := List.any_eq_true.mp hp
  obtain ⟨r, c, hev, hpictured, hheard⟩ := asksReport_eq hasks
  obtain ⟨newer, older, htr⟩ := List.append_of_mem he
  obtain ⟨g, _, _, _, _, _, _, newer', e', older', _, htr', hclears, himages, -⟩ :=
    generated_after_moderation defaults w hw newer e older r c htr hev
  obtain ⟨tok, _, ws, hev', -⟩ := hclears.completed
  exact ⟨w, hw, newer, e, older, r, c, htr, hev, hpictured, hheard, newer', e', older', g, tok, ws,
    htr', hev', himages⟩

end FastRep.Reports
