/-
When a finished transcription is reused: a call that finds the stored text
returns it and does nothing else.

A call reads the row once and takes an empty text for none. So a completed
row is reused as long as no empty text was stored in it, and nobody puts it
back. Only a call that read the row before it was completed can put it back
(`overwrites`): what is read from then on is the text (`Runs.text_kept`).

# One call

`getOrCreate_readsOnly` needs no run: on any database, a call is a single
query with the stored text as its answer exactly for a finished
transcription.

# The run

`keepsText` is a condition on the history of an asset: no empty text is
stored, and no call writes to the row that was overtaken by a completion
since it last read. Under it a completion establishes a text that stays while
the asset does (`Texted`), and every later call returns it
(`transcription_reused`). `silentTwice` is a run in which the provider hears
nothing, and is asked again.
-/
import FastRep.Reports.Proofs.ResultChanges
import FastRep.Reports.Proofs.Origins
import FastRep.Reports.Proofs.ProviderBudget

namespace FastRep.Reports

open FastRep.Txn

variable {cfg : Config} {start S S' : RState} {t : Tid} {s : Site} {ws : List (Write Row Key)}
  {w : RWorld} {g tok a : Id}

-- ============================================================= the condition

/-- The entry completes the transcription of the asset. -/
def completes (a : Id) (e : REntry) : Bool :=
  match e.event with
  | .commit (.completeTranscription _ _ assetId) _ => assetId = a
  | _ => false

/-- The entry stores a text for the asset. -/
def Stores (e : REntry) (a : Id) (text : String) : Prop :=
  ∃ g tok ws y, e.event = .commit (.completeTranscription g tok a) ws ∧
    .update (.transcription y) ∈ ws ∧ y.text = some text

/-- It stores an empty one. -/
def storesEmpty (a : Id) (e : REntry) : Bool :=
  match e.event with
  | .commit (.completeTranscription _ _ assetId) ws => assetId = a && ws.any fun w =>
      match w with
      | .update (.transcription y) => y.text = some ""
      | _ => false
  | _ => false

/-- A call of the thread finds no text for the asset. -/
def misses (t : Tid) (a : Id) (e : REntry) : Bool :=
  match e.event with
  | .statement (.findTranscription assetId) => e.tid = t && assetId = a
      && (finishedText (transcription? e.before.db a)).isNone
  | _ => false

/-- Since the thread last found no text, the transcription was completed. -/
def overtaken (t : Tid) (a : Id) : List REntry → Bool
  | [] => false
  | e :: past => !misses t a e
      && (completes a e && past.any (misses t a) || overtaken t a past)

/-- The call that begins the transcription, or records its failure, is
overtaken. -/
def overwrites (a : Id) (e : REntry) (past : List REntry) : Bool :=
  match e.event with
  | .commit (.beginTranscription assetId) _ | .commit (.failTranscription assetId) _ =>
      assetId = a && overtaken e.tid a past
  | _ => false

/-- No empty text is stored for the asset, and no overtaken call writes. -/
def keepsText (a : Id) : List REntry → Bool
  | [] => true
  | e :: past => !storesEmpty a e && !overwrites a e past && keepsText a past

-- ================================================================== reuse

/-- The call is one query, and returns a text on what it finds in the
database. -/
def ReadsOnly (p : Async String) (s : Site) (d : Db Row) (text : String) : Prop :=
  ∃ (β : Type) (body : InTransaction β) (f : Db Row → β) (k : Except Error β → Async String),
    p = .tx .readCommitted s body k ∧ body = select f ∧ k (.ok (f d)) = .pure text

/-- A text is stored for the asset, and every call for it returns this
text. -/
def Reused (cfg : Config) (a : Id) (S : RState) : Prop :=
  ∃ x text, transcription? S.db a = some x ∧ x.status = .completed ∧ x.text = some text ∧
    (∃ e ∈ S.trace, Stores e a text) ∧
    ∀ generationId (asset : GenerationSnapshotAsset) language processingToken leaseExpiresAt,
      asset.id = a → asset.type = .audio → asset.verifiedMimeType ∈ audioMimeTypes →
      ReadsOnly (getOrCreate cfg generationId asset language processingToken leaseExpiresAt)
        (.findTranscription a) S.db text

/-- A call does so exactly for the text of a finished transcription. -/
theorem getOrCreate_readsOnly {asset : GenerationSnapshotAsset} {language : String}
    {leaseExpiresAt : Time} {d : Db Row} {text : String} (haudio : asset.type = .audio)
    (hmime : asset.verifiedMimeType ∈ audioMimeTypes) :
    ReadsOnly (getOrCreate cfg g asset language tok leaseExpiresAt)
      (.findTranscription asset.id) d text ↔
    finishedText (transcription? d asset.id) = some text := by
  unfold getOrCreate
  rw [if_neg (by simp [haudio, hmime])]
  constructor
  · rintro ⟨β, body, f, k, hp, hbody, hk⟩
    cases hp
    have hread : f d = transcription? d asset.id :=
      (Except.ok.inj (congrArg (fun b => (b.run 0 d).result) hbody)).symm
    rw [hread] at hk
    simp only [Prog.settle, Prog.handle] at hk
    split at hk
    next text' hfound =>
        cases hk
        exact hfound
    next => cases hk
  · intro hfound
    refine ⟨_, _, fun d => transcription? d asset.id, _, rfl, rfl, ?_⟩
    simp only [Prog.settle, Prog.handle, hfound]
    rfl

-- ======================================================== overtaken calls

theorem completes_iff {e : REntry} : completes a e = true ↔
    ∃ g tok ws, e.event = .commit (.completeTranscription g tok a) ws := by
  unfold completes
  constructor
  · intro h
    split at h
    next hev => exact ⟨_, _, _, of_decide_eq_true h ▸ hev⟩
    next => cases h
  · rintro ⟨g, tok, ws, hev⟩
    rw [hev]
    exact decide_eq_true rfl

/-- A read that misses found no finished text. -/
theorem finishedText_of_misses {e : REntry} (h : misses t a e = true) :
    finishedText (transcription? e.before.db a) = none := by
  unfold misses at h
  split at h
  next => exact Option.isNone_iff_eq_none.mp ((Bool.and_eq_true _ _).mp h).2
  next => cases h

/-- A thread that found no text before a completion, and has found none
since, is overtaken. -/
theorem overtaken_of_append {newer older : List REntry} {e : REntry}
    (hnewer : ∀ e' ∈ newer, misses t a e' = false) (hcompletes : completes a e = true)
    (hmissed : ∃ e' ∈ older, misses t a e' = true) :
    overtaken t a (newer ++ e :: older) = true := by
  induction newer with
  | nil =>
      obtain ⟨g, tok, ws, hev⟩ := completes_iff.mp hcompletes
      have hnot : misses t a e = false := by simp [misses, hev]
      simp only [List.nil_append, overtaken, hnot, hcompletes, List.any_eq_true.mpr hmissed]
      rfl
  | cons e' newer ih =>
      have hrest := ih fun e'' he'' => hnewer e'' (List.mem_cons_of_mem _ he'')
      simp only [List.cons_append, overtaken, hnewer e' List.mem_cons_self, hrest]
      simp

/-- A condition on the whole history holds of its beginning. -/
theorem keepsText_of_suffix {l l' : List REntry} (hl : l <:+ l') (h : keepsText a l' = true) :
    keepsText a l = true := by
  induction l' with
  | nil =>
      rw [List.suffix_nil.mp hl]
      rfl
  | cons e past ih =>
      rcases List.suffix_cons_iff.mp hl with rfl | hl
      · exact h
      · exact ih hl ((Bool.and_eq_true _ _).mp h).2

/-- The thread of a commit that begins a transcription, or records its
failure, found no text before. -/
theorem Runs.missed (hstart : Begins start) (h : Runs (contract cfg start) S)
    (heff : Effect cfg t s ws S)
    (hs : s = .beginTranscription a ∨ s = .failTranscription a) :
    ∃ e ∈ S.trace, misses t a e = true := by
  have hbegan : ∀ {S : RState} {ws : List (Write Row Key)},
      Effect cfg t (.beginTranscription a) ws S → ∃ e ∈ S.trace, misses t a e = true := by
    rintro S ws ⟨-, g, tok, -, -, -, ⟨newer, e, older, htr, rfl, hev, hnone, -⟩, -⟩
    refine ⟨e, ?_, ?_⟩
    · rw [htr]
      exact List.mem_append_right _ List.mem_cons_self
    · simp [misses, hev, hnone]
  rcases hs with rfl | rfl
  · exact hbegan heff
  · obtain ⟨-, newer, e, older, htr, rfl, ⟨ws₀, hev⟩, -⟩ := heff
    obtain ⟨S₀, S₁, hpast, rfl⟩ := h.at hstart.trace htr
    obtain ⟨e', he', hmissed⟩ := hbegan (hpast.commit hev).1.1
    exact ⟨e', ((List.suffix_cons _ _).trans hpast.suffix).subset he', hmissed⟩

-- ============================================================ the row stays

/-- An asset of a generation was created. -/
theorem Runs.scoped_created (hstart : Begins start) (h : Runs (contract cfg start) S)
    {operation : GenerationProviderOperation} (hscope : Scoped S g operation (some a)) :
    Created S a := by
  obtain ⟨-, e, he, x, snapshot, hx, hsnapshot, b, hb, rfl⟩ := hscope
  obtain ⟨S₀, S₁, hpast⟩ := Runs.since hstart.trace h he
  rw [← hpast.scene] at hx
  exact ((Runs.snapshot_kept hstart hpast.runs g x snapshot hx hsnapshot b hb).1).mono
    ((List.suffix_cons _ _).trans hpast.suffix)

/-- So is one whose transcription is completed. -/
theorem Runs.completed_created (hstart : Begins start) (h : Runs (contract cfg start) S)
    {e : REntry} (he : e ∈ S.trace)
    (hev : e.event = .commit (.completeTranscription g tok a) ws) : Created S a := by
  obtain ⟨S₀, S₁, hpast⟩ := Runs.since hstart.trace h he
  exact (Runs.scoped_created hstart hpast.runs (hpast.commit hev).1.1.1).mono
    ((List.suffix_cons _ _).trans hpast.suffix)

/-- An asset that is stored has been stored since a completion. -/
theorem Runs.stored_since (hstart : Begins start) (h : Runs (contract cfg start) S)
    {newer older : List REntry} {e e' : REntry} (htr : S.trace = newer ++ e :: older)
    (hev : e.event = .commit (.completeTranscription g tok a) ws) (he' : e' ∈ newer)
    (hasset : asset? S.db a ≠ none) : asset? e'.before.db a ≠ none := by
  obtain ⟨later, between, rfl⟩ := List.append_of_mem he'
  rw [List.append_assoc] at htr
  obtain ⟨S₀, S₁, hpast, hbefore⟩ := h.at hstart.trace htr
  have hmem : e ∈ S₀.trace := by
    rw [hbefore]
    exact List.mem_append_right _ List.mem_cons_self
  rw [← hpast.scene]
  exact fun hnone => hasset (Steps.stays_gone (lasting_asset hstart a) hpast.runs
    (Runs.completed_created hstart hpast.runs hmem hev) hnone
    (Relation.ReflTransGen.head ⟨_, hpast.move⟩ hpast.steps))

/-- A transcription is removed only with its asset. -/
theorem Effect.transcription_removed (h : Effect cfg t s ws S) {x : ReportAssetTranscription}
    (hx : transcription? S.db a = some x) (hnone : transcription? (applyAll ws S.db) a = none) :
    asset? (applyAll ws S.db) a = none := by
  rcases h.transcription a with hsame | hchange
  · rw [hsame, hx] at hnone
    cases hnone
  · rw [hx, hnone] at hchange
    cases hchange with
    | removed _ _ hs =>
        rcases hs with ⟨i, rfl⟩ | hs
        · have heff := h
          obtain ⟨r, side, removal, -, -, -, hside, -, rfl, -, -, -, hremoves⟩ := h
          have hbefore : transcription? (applyAll side S.db) a = transcription? S.db a := by
            refine transcription?_congr (find?_applyAll_of_table fun w hw => ?_)
            obtain ⟨k, -, htask⟩ := hside w hw
            rw [htask.table]
            simp [Key.table]
          rw [applyAll_append] at hnone
          rcases hremoves.transcription (d := applyAll side S.db) a with hsame | ⟨-, z, hz, hr⟩
          · rw [hsame, hbefore, hx] at hnone
            cases hnone
          · exact heff.deleted_asset hz hr
        · refine h.discarded hs (k := .transcription a) (by simp [Key.table]) fun hsame => ?_
          rw [transcription?_congr hsame, hx] at hnone
          cases hnone

/-- The transcription is completed, with a text that was stored for it. -/
def Texted (S : RState) (a : Id) : Prop :=
  ∃ x text, transcription? S.db a = some x ∧ x.status = .completed ∧ x.text = some text ∧
    text ≠ "" ∧ ∃ e ∈ S.trace, Stores e a text

/-- A text that was stored stays while its row does. -/
theorem Texted.mono (h : Texted S a) (htr : S.trace <:+ S'.trace)
    (hsame : transcription? S'.db a = transcription? S.db a) : Texted S' a := by
  obtain ⟨x, text, hx, hstatus, htext, hne, e, he, hstores⟩ := h
  exact ⟨x, text, hsame.trans hx, hstatus, htext, hne, e, htr.subset he, hstores⟩

theorem Texted.found (h : Texted S a) : finishedText (transcription? S.db a) ≠ none := by
  obtain ⟨x, text, hx, hstatus, htext, hne, -⟩ := h
  simp [finishedText, hx, hstatus, htext, hne]

/-- A completion stores the text, unless it is empty. -/
theorem Effect.texted (h : Effect cfg t (.completeTranscription g tok a) ws S)
    (hempty : storesEmpty a ⟨t, .commit (.completeTranscription g tok a) ws, S.toScene⟩ = false) :
    Texted (S.commit t (.completeTranscription g tok a) ws) a := by
  obtain ⟨-, id, x, y, side, -, hcloses, hx, hid, hstatus, rfl, e, he, -, k, fileName, mimeType,
    language, r, hev, htext⟩ := h
  have hmem : Write.update (Row.transcription y) ∈ side ++ [.update (.transcription y)] :=
    List.mem_append_right _ (List.mem_singleton_self _)
  refine ⟨y, r.value.text, ?_, hstatus, htext, fun hnil => ?_, _, List.mem_cons_self, g, tok, _, y,
    rfl, hmem, htext⟩
  · refine (transcription?_of_write (fun w hw => ?_) rfl).trans (if_pos hid)
    rw [hcloses.tables w hw]
    simp
  · rw [hnil] at htext
    have hstores : storesEmpty a ⟨t, .commit (.completeTranscription g tok a)
        (side ++ [.update (.transcription y)]), S.toScene⟩ = true := by
      simp [storesEmpty, htext]
    rw [hstores] at hempty
    cases hempty

/-- From a completion on, as long as the asset is stored, so is a text, and
no call has missed it. -/
theorem Runs.text_kept (hstart : Begins start) (h : Runs (contract cfg start) S)
    (hkeeps : keepsText a S.trace = true) {newer older : List REntry} {e : REntry}
    (htr : S.trace = newer ++ e :: older)
    (hev : e.event = .commit (.completeTranscription g tok a) ws) :
    (asset? S.db a ≠ none → Texted S a) ∧
      ∀ e' ∈ newer, asset? e'.before.db a ≠ none →
        finishedText (transcription? e'.before.db a) ≠ none := by
  refine Runs.after (I := fun newer S => keepsText a S.trace = true →
    (asset? S.db a ≠ none → Texted S a) ∧ ∀ e' ∈ newer, asset? e'.before.db a ≠ none →
      finishedText (transcription? e'.before.db a) ≠ none) hstart.trace h htr ?_ ?_ hkeeps
  · rintro S₀ S₁ hpast - hkeeps
    obtain ⟨hC, rfl⟩ := hpast.commit hev
    refine ⟨fun _ => hC.1.texted ?_, by simp⟩
    simp only [keepsText, Shared.commit, Shared.log, Bool.and_eq_true, Bool.not_eq_true'] at hkeeps
    exact hkeeps.1.1
  · intro j S S' newer added hruns htr ih hm hadded hkeeps
    have hmem : e ∈ S.trace := by
      rw [htr]
      exact List.mem_append_right _ List.mem_cons_self
    obtain ⟨htexted, hseen⟩ := ih (keepsText_of_suffix hm.trace_suffix hkeeps)
    have hcreated := Runs.completed_created hstart hruns hmem hev
    refine ⟨fun hasset => ?_, fun e' he' hasset => ?_⟩
    · rcases hm.commit_or with ⟨s, ws', hC, -, rfl⟩ | ⟨hdb, -⟩
      · have hstored : asset? S.db a ≠ none := fun hnone =>
          hasset (Steps.stays_gone (lasting_asset hstart a) hruns hcreated hnone
            (Relation.ReflTransGen.single ⟨j, hm⟩))
        have hold := htexted hstored
        -- whoever begins it, or records its failure, missed the text before the completion
        have hkept : s ≠ .beginTranscription a ∧ s ≠ .failTranscription a := by
          rw [← not_or]
          intro hs
          obtain ⟨e', he', hmissed⟩ := Runs.missed hstart hruns hC.1 hs
          have hnewer : ∀ e' ∈ newer, misses j a e' = false := by
            intro e' he'
            rw [← Bool.not_eq_true]
            exact fun hmissed => hseen e' he' (Runs.stored_since hstart hruns htr hev he' hstored)
              (finishedText_of_misses hmissed)
          have holder : e' ∈ older := by
            rw [htr] at he'
            rcases List.mem_append.mp he' with he' | he'
            · rw [hnewer e' he'] at hmissed
              cases hmissed
            · rcases List.mem_cons.mp he' with rfl | he'
              · simp [misses, hev] at hmissed
              · exact he'
          have hovertaken : overtaken j a S.trace = true := by
            rw [htr]
            exact overtaken_of_append hnewer (completes_iff.mpr ⟨_, _, _, hev⟩)
              ⟨e', holder, hmissed⟩
          rcases hs with rfl | rfl <;>
            simp [keepsText, Shared.commit, Shared.log, overwrites, hovertaken] at hkeeps
        rcases hC.1.transcription a with hsame | hchange
        · exact hold.mono hm.trace_suffix hsame
        · obtain ⟨x, text, hx, -⟩ := hold
          rw [hx] at hchange
          generalize hafter : transcription? (applyAll ws' S.db) a = after at hchange
          cases hchange with
          | begun => exact absurd rfl hkept.1
          | failed => exact absurd rfl hkept.2
          | removed => exact absurd (hC.1.transcription_removed hx hafter) hasset
          | completed g' tok' =>
              refine hC.1.texted ?_
              simp only [keepsText, Shared.commit, Shared.log, Bool.and_eq_true,
                Bool.not_eq_true'] at hkeeps
              exact hkeeps.1.1
      · rw [hdb] at hasset
        exact (htexted hasset).mono hm.trace_suffix (by rw [hdb])
    · rcases List.mem_append.mp he' with he' | he'
      · rw [hm.before_of_added hadded he'] at hasset ⊢
        exact (htexted hasset).found
      · exact hseen e' he' hasset

/-- Once a call has completed the transcription of an asset, every call for
the asset, in whatever generation and state from then on, returns the stored
text after one query, if no empty text was stored and no call that missed
the text before a completion wrote after it. -/
theorem transcription_reused (h : Reached cfg w) (hkeeps : keepsText a w.shared.trace = true)
    {e : REntry} (he : e ∈ w.shared.trace) (hcompletes : completes a e = true)
    (hasset : (asset? w.shared.db a).isSome = true) : Reused cfg a w.shared := by
  obtain ⟨start, hstart, hruns⟩ := h.runs
  obtain ⟨g, tok, ws, hev⟩ := completes_iff.mp hcompletes
  obtain ⟨newer, older, htr⟩ := List.append_of_mem he
  obtain ⟨x, text, hx, hstatus, htext, hne, hstored⟩ :=
    (Runs.text_kept hstart hruns hkeeps htr hev).1 (Option.isSome_iff_ne_none.mp hasset)
  refine ⟨x, text, hx, hstatus, htext, hstored, ?_⟩
  rintro g asset language tok leaseExpiresAt rfl haudio hmime
  refine (getOrCreate_readsOnly haudio hmime).mpr ?_
  simp [finishedText, hx, hstatus, htext, hne]

/-- A recording that was transcribed is not transcribed again. -/
theorem transcription_reused_heard : ∃ w e, Reached defaults w ∧ e ∈ w.shared.trace ∧
    completes 12 e = true ∧ Reused defaults 12 w.shared := by
  have hrun : (sampleWorld.runAll (app defaults) audioTranscribed).any (fun w =>
      keepsText 12 w.shared.trace && w.shared.trace.any (completes 12)
        && (asset? w.shared.db 12).isSome) = true := by
    decide +kernel
  obtain ⟨w, hw, hp⟩ := exists_reached hrun
  simp only [Bool.and_eq_true, List.any_eq_true] at hp
  obtain ⟨⟨hkeeps, e, he, hcompletes⟩, hasset⟩ := hp
  exact ⟨w, e, hw, he, hcompletes, transcription_reused hw hkeeps he hcompletes hasset⟩

/-- An empty text is not reused. -/
theorem Reused.text_ne_empty {x : ReportAssetTranscription} (h : Reused cfg a S)
    (hx : transcription? S.db a = some x) : x.text ≠ some "" := by
  intro hempty
  obtain ⟨y, text, hy, -, -, -, hcalls⟩ := h
  have hreads := hcalls 0 ⟨a, .audio, "audio/mpeg", 0, 0, .asset 0 0 0 0, ""⟩ "en" 0 0 rfl rfl
    (by simp [audioMimeTypes])
  have hfound := (getOrCreate_readsOnly rfl (by simp [audioMimeTypes])).mp hreads
  simp [finishedText, hx, hempty] at hfound

/-- After a completion, the provider is asked again for the asset. -/
def askedAgain (a : Id) : List REntry → Bool
  | [] => false
  | e :: past => (match e.event with
      | .enter (.provider _ .transcription assetId) => assetId = some a && past.any (completes a)
      | _ => false) || askedAgain a past

/-- The provider hears nothing in the recording, and the moderation after it
fails. The next delivery of the job comes to the asset again. -/
def silentTwice : List (Action Req Choice) :=
  audioConfirmed ++ .spawn 5 (.createGeneration 1 10 "k") :: steps 5 5
    ++ .answer 5 .done :: steps 5 5
    ++ .spawn 6 (.process 14 1 3) :: steps 6 24 ++ .answer 6 .done :: .step 6
    :: .answer 6 (.transcribed ⟨⟨"", none, none⟩, none, none, none⟩) :: steps 6 25
    ++ .answer 6 (.failed (aiProviderError "PROVIDER_UNAVAILABLE" true "")) :: steps 6 11
    ++ .spawn 7 (.process 14 2 3) :: steps 7 24 ++ .answer 7 .done :: .step 7
    :: .answer 7 (.transcribed ⟨⟨"", none, none⟩, none, none, none⟩) :: steps 7 5

/-- It is paid for a second time. -/
theorem transcription_paid_again : ∃ cfg w e, cfg.accepted = true ∧ Reached cfg w ∧
    e ∈ w.shared.trace ∧ completes 12 e = true ∧ (asset? w.shared.db 12).isSome = true ∧
    askedAgain 12 w.shared.trace = true ∧ ¬ Reused cfg 12 w.shared := by
  have hrun : (sampleWorld.runAll (app defaults) silentTwice).any (fun w =>
      w.shared.trace.any (completes 12) && (asset? w.shared.db 12).isSome
        && askedAgain 12 w.shared.trace
        && (transcription? w.shared.db 12).any fun x => x.text = some "") = true := by
    decide +kernel
  obtain ⟨w, hw, hp⟩ := exists_reached hrun
  simp only [Bool.and_eq_true, List.any_eq_true, Option.any_eq_true, decide_eq_true_eq] at hp
  obtain ⟨⟨⟨⟨e, he, hcompletes⟩, hasset⟩, hagain⟩, x, hx, hempty⟩ := hp
  exact ⟨defaults, w, e, defaults_accepted, hw, he, hcompletes, hasset, hagain,
    fun hreused => hreused.text_ne_empty hx hempty⟩

end FastRep.Reports
