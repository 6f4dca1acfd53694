/-
A run of the worker up to the moment before its upload keeps the contract.

The programs of a run are stated for any knowledge that survives a paid
call (`Busy`). What is added on the way is what the report request needs:
the snapshot and a transcript of every audio asset in it, and that the
moderation of exactly this text and these images passed.

# The loops

- `Triple.transcribeAll`: a transcript for each asset before the current one
  (`Transcripts`).
- `Triple.moderateBatches`: the items of the batches before the current one
  passed (`Screens`); every image is in a batch (`exists_moderationBatch`).
- `Triple.presignAll`, `Triple.loadImages`, `Triple.uploadDocuments`: what was
  asked for is what came back, one by one.

# Parsing

A stored snapshot, a stored result and the provider's answer go through a
schema. What passes is remembered as parsed (`Parsed`), and that its image
references are those of the snapshot (`References`); the document that is
rendered later is made of exactly this.
-/
import FastRep.Reports.Proofs.Attempting
import FastRep.Reports.Proofs.Cleanup

namespace FastRep.Reports

open FastRep.Txn

variable {cfg : Config} {start : RState} {t : Tid} {S : RState} {P : Knows t}
  {g tok : Id}

-- ======================================================== the run's calls

/-- A look at an object keeps what is known of the run. -/
theorem Keeps.headObject {k : StorageKey} :
    Keeps (contract cfg start) P (headObject k) :=
  Keeps.call fun _ _ => trivial

theorem Keeps.readObjectBytes {k : StorageKey} {maximumBytes : Nat} :
    Keeps (contract cfg start) P (readObjectBytes k maximumBytes) := by
  refine Keeps.bind Keeps.headObject fun metadata => ?_
  cases metadata with
  | none => exact Keeps.throw
  | some size =>
      show Keeps _ _ (if _ then _ else _)
      split
      next => exact Keeps.throw
      next =>
          refine Keeps.bind (Keeps.call fun _ _ => trivial) fun bytes => ?_
          split
          next => exact Keeps.throw
          next => exact Keeps.pure

theorem Keeps.assertBeforeDeadline {deadline : Time} :
    Keeps (contract cfg start) P (assertBeforeDeadline deadline) := by
  refine Keeps.bind Keeps.clock fun now => ?_
  split
  next => exact Keeps.throw
  next => exact Keeps.pure

/-- What the schema lets through was parsed. -/
theorem Triple.parseOrThrow {r : ReportResult} :
    Triple (contract cfg start) P (parseOrThrow r)
      (fun result => P.and (.prop (Parsed result))) (fun _ => P) := by
  unfold Reports.parseOrThrow
  split
  next result hresult => exact Triple.pure fun _ hP => ⟨hP, r, hresult⟩
  next => exact Triple.throw fun _ hP => hP

/-- A snapshot that parses is the stored one. -/
theorem Triple.parseSnapshot {value : Option GenerationInputSnapshot} :
    Triple (contract cfg start) P (parseSnapshot value)
      (fun snapshot => P.and (.prop (value = some snapshot))) (fun _ => P) := by
  unfold Reports.parseSnapshot
  split
  next snapshot hsnapshot =>
      exact Triple.pure fun _ hP => ⟨hP, (Option.filter_eq_some_iff.mp hsnapshot).1⟩
  next => exact Triple.throw fun _ hP => hP

/-- References that pass the check are valid. -/
theorem Triple.validateImageReferences {result : ReportResult}
    {images : List GenerationSnapshotAsset} :
    Triple (contract cfg start) P (validateImageReferences result images)
      (fun _ => P.and (.prop (Reports.validateImageReferences result images = pure ())))
      (fun _ => P) := by
  unfold Reports.validateImageReferences
  split
  next => exact Triple.throw fun _ hP => hP
  next => exact Triple.pure fun _ hP => ⟨hP, rfl⟩

/-- The check of the image types keeps what is known. -/
theorem Keeps.assertSupportedImageMimeTypes {images : List GenerationSnapshotAsset} :
    Keeps (contract cfg start) P (assertSupportedImageMimeTypes images) := by
  unfold Reports.assertSupportedImageMimeTypes
  split
  next => exact Keeps.throw
  next => exact Keeps.pure

/-- A presigned GET reads the object it was asked for. -/
theorem Triple.presignAll (images : List GenerationSnapshotAsset) :
    Triple (contract cfg start) P (presignAll cfg images)
      (fun references => P.and (.prop (references.map (·.1) = images ∧
        ∀ r ∈ references, r.2.url = r.1.storageKey))) (fun _ => P) := by
  induction images with
  | nil => exact Triple.pure fun _ hP => ⟨hP, rfl, by simp⟩
  | cons asset rest ih =>
      refine Triple.bind (Triple.call fun _ _ => trivial) fun reference => ?_
      refine Triple.of_known fun S _ hS => ⟨P, hS.1, ?_⟩
      obtain ⟨-, e, -, -, ⟨c, env, -, hperform⟩, -⟩ := hS
      have hurl : reference.url = asset.storageKey := by
        cases c with
        | done =>
            cases hperform
            rfl
        | _ => simp [Services.perform, Call.throws, Call.losable, Call.serve] at hperform
      refine Triple.bind ih fun references => Triple.pure fun S hS => ?_
      obtain ⟨hP, hmap, hall⟩ := hS
      refine ⟨hP, ?_, ?_⟩
      · rw [List.map_cons, hmap]
      · intro r hr
        rcases List.mem_cons.mp hr with rfl | hr
        · exact hurl
        · exact hall r hr

/-- The images that are loaded have the ids they were asked for. -/
theorem Triple.loadImages (assets : List GenerationSnapshotAsset) :
    Triple (contract cfg start) P (loadImages assets)
      (fun images => P.and (.prop (images.map (·.1) = assets.map (·.id)))) (fun _ => P) := by
  induction assets with
  | nil => exact Triple.pure fun _ hP => ⟨hP, rfl⟩
  | cons image rest ih =>
      refine Triple.bind (R := fun _ => P) Keeps.readObjectBytes fun bytes => ?_
      refine Triple.bind ih fun images => ?_
      exact Triple.pure fun _ hS => ⟨hS.1, congrArg (image.id :: ·) hS.2⟩

/-- The errors of an upload are in the outcome. -/
theorem Triple.uploadDocuments {deadline : Time} {E : Error → Knows t}
    (documents : List GenerationSnapshotAsset) :
    Triple (contract cfg start) P (uploadDocuments deadline documents) (fun _ => P) E := by
  induction documents with
  | nil => exact Triple.pure fun _ hP => hP
  | cons asset rest ih =>
      refine Triple.bind (Triple.attempt (R := fun _ => P) (Keeps.bind
        Keeps.assertBeforeDeadline fun _ => Keeps.bind (Keeps.call fun _ _ => trivial)
        fun _ => Keeps.call fun _ _ => trivial)) fun uploaded => ?_
      cases uploaded with
      | error _ => exact Triple.pure fun _ hP => hP
      | ok _ => exact Triple.bind ih fun _ => Triple.pure fun _ hP => hP

/-- A temporary file that cannot be deleted is left behind. -/
theorem Triple.deleteTemporaryFiles {E : Error → Knows t} (files : List Nat) :
    Triple (contract cfg start) P (deleteTemporaryFiles files) (fun _ => P) E := by
  induction files with
  | nil => exact Triple.pure fun _ hP => hP
  | cons fileId rest ih =>
      exact Triple.bind (Triple.attempt (R := fun _ => P) (Keeps.call fun _ _ => trivial))
        fun _ => ih

-- ============================================================ moderation

/-- The items of a moderation passed so far. -/
def Screens (id : AttemptKey) (items : List ModerationInput) : Knows t :=
  Traced (Screened · t id items) fun _ _ htr h => h.mono htr

/-- A moderation request that is not flagged passes its items. -/
theorem Triple.moderateInput {id : AttemptKey} {items input : List ModerationInput}
    (hscreen : ∀ S, P.holds S → Screened S t id items) :
    Triple (contract cfg start) P (awaitOk (.moderateInput input))
      (fun (r : ProviderResult Bool) => P.and
        (if r.value then .top else Screens id (input ++ items))) (fun _ => P) := by
  refine Triple.bind (R := fun r => P.and (match
      (r : Except Error (ProviderResult Bool)) with
    | .ok r => if r.value then .top else Screens id (input ++ items)
    | .error _ => .top)) (Triple.await fun S c r env _ hP hperform => ?_) fun r => ?_
  · refine ⟨trivial, P.lasts Later.answered hP, ?_⟩
    cases r with
    | error _ => trivial
    | ok r =>
        cases c with
        | moderated flagged rid =>
            cases hperform
            cases flagged with
            | true => trivial
            | false => exact (hscreen S hP).answered
        | _ => simp [Services.perform, Call.throws, Call.losable, Call.serve] at hperform
  · refine Triple.settle (fun a S he hS => ?_) fun e S he hS => hS.1
    subst he
    exact hS

/-- A moderation without a flag has screened the images of its batches. -/
theorem Triple.moderateBatches {id : AttemptKey} {imageUrls : List StorageKey}
    (batches : List Nat) {items : List ModerationInput} {providerRequestId : Option String}
    (hscreen : ∀ S, P.holds S → Screened S t id items) :
    Triple (contract cfg start) P (moderateBatches imageUrls batches providerRequestId)
      (fun r => P.and (if r.value then .top else Screens id
        (items ++ batches.flatMap fun i => (moderationBatch imageUrls i).map .imageUrl)))
      (fun _ => P) := by
  induction batches generalizing P items providerRequestId with
  | nil => exact Triple.pure fun S hP => ⟨hP, by simpa [Screens, Traced] using hscreen S hP⟩
  | cons batchIndex rest ih =>
      refine Triple.bind (Triple.moderateInput hscreen) fun result => ?_
      show Triple _ _ (if result.value = true then _ else _) _ _
      split
      next => exact Triple.pure fun S hS => ⟨hS.1, trivial⟩
      next =>
          refine (ih (P := P.and (Screens id _)) fun S hS => hS.2).conseq (fun _ h => h) (fun r S hS => ⟨hS.1.1, ?_⟩)
            fun _ _ hS => hS.1
          have hlast := hS.2
          split at hlast
          next htrue =>
              rw [if_pos htrue]
              trivial
          next hfalse =>
              rw [if_neg hfalse]
              refine hlast.subset fun m hm => ?_
              simp only [List.flatMap_cons, List.mem_append] at hm ⊢
              tauto

/-- Every image is in one of the batches. -/
theorem exists_moderationBatch {imageUrls : List StorageKey} {url : StorageKey}
    (h : url ∈ imageUrls) :
    ∃ i ∈ List.range (moderationBatchCount imageUrls), url ∈ moderationBatch imageUrls i := by
  obtain ⟨j, hj, rfl⟩ := List.mem_iff_getElem.mp h
  refine ⟨j, List.mem_range.mpr ?_, ?_⟩
  · simp only [moderationBatchCount, moderationMaxImagesPerRequest]
    omega
  · simp only [moderationBatch, moderationMaxImagesPerRequest, Nat.mul_one]
    rw [List.drop_eq_getElem_cons hj]
    exact List.mem_cons_self

/-- A moderation that flags nothing has passed the text and every image. -/
theorem Triple.providerModerate {id : AttemptKey} {text : SourceText}
    {imageUrls : List StorageKey} (hscreen : ∀ S, P.holds S → Screened S t id []) :
    Triple (contract cfg start) P (Provider.moderate text imageUrls)
      (fun r => P.and (if r.value then .top else Screens id
        (.text text :: imageUrls.map .imageUrl))) (fun _ => P) := by
  refine Triple.bind (Triple.moderateInput hscreen) fun result => ?_
  show Triple _ _ (if result.value = true then _ else _) _ _
  split
  next => exact Triple.pure fun S hS => ⟨hS.1, trivial⟩
  next =>
      refine (Triple.moderateBatches (P := P.and (Screens id ([.text text] ++ []))) _
        fun S hS => hS.2).conseq (fun _ h => h) (fun r S hS => ⟨hS.1.1, ?_⟩)
        fun _ _ hS => hS.1
      have hlast := hS.2
      split at hlast
      next htrue =>
          rw [if_pos htrue]
          trivial
      next hfalse =>
          rw [if_neg hfalse]
          refine hlast.subset fun m hm => ?_
          rcases List.mem_cons.mp hm with rfl | hm
          · exact List.mem_append_left _ List.mem_cons_self
          · obtain ⟨url, hurl, rfl⟩ := List.mem_map.mp hm
            obtain ⟨i, hi, hbatch⟩ := exists_moderationBatch hurl
            exact List.mem_append_right _
              (List.mem_flatMap.mpr ⟨i, hi, List.mem_map_of_mem hbatch⟩)

-- ======================================================== transcription

/-- The run has the text of an asset's transcription. -/
def Hears (assetId : Id) (text : String) : Knows t :=
  Traced (Heard · t assetId text) fun _ _ htr h => h.mono htr

/-- A run that has started an attempt is busy as before. -/
theorem Busy.started (hbusy : Busy P g tok) (operation : GenerationProviderOperation)
    (assetId : Option Id) (id : AttemptKey) :
    Busy (P.and (Started g tok operation assetId id)) g tok :=
  hbusy.and fun _ _ htr ⟨hid, e, he, hp⟩ => ⟨hid, e, htr.subset he, hp⟩

/-- Run the body of a paid call with the attempt it was started for. -/
theorem Triple.startThen {α : Type} {operation : GenerationProviderOperation}
    {provider model : String} {leaseExpiresAt : Time} {assetId : Option Id}
    {f : AttemptKey → Async α} {Q : α → Knows t} (hbusy : Busy P g tok)
    (hscope : ∀ S, P.holds S → Scoped S g operation assetId)
    (h : ∀ id : AttemptKey, id.generationId = g → id.operation = operation →
      Triple (contract cfg start)
        ((P.and (Started g tok operation assetId id)).and (Paid g tok operation assetId))
        (f id) Q (fun _ => P)) :
    Triple (contract cfg start) P
      (Reports.startAttempt cfg g operation provider model tok leaseExpiresAt assetId >>= f)
      Q (fun _ => P) := by
  refine Triple.bind (Triple.startAttempt hbusy hscope) fun id => Triple.of_known fun S _ hS => ?_
  refine ⟨_, ?_, h id hS.2.1.1 hS.2.1.2.1⟩
  exact ⟨⟨hS.1.1, hS.2⟩, hS.1.2⟩

/-- Fail the attempt of a paid call and pass an error on. -/
theorem Triple.failThenThrow {α : Type} {K : Knows t} {id : AttemptKey} {errorCode : String}
    {providerRequestId : Option String} {e : Error} {Q : α → Knows t}
    (hbusy : Busy (P.and K) g tok) :
    Triple (contract cfg start) (P.and K)
      (failAttempt id errorCode tok providerRequestId >>= fun _ => .throw e) Q (fun _ => P) :=
  Triple.bind (Triple.forget (Keeps.failAttempt (hbusy.allows rfl))) fun _ =>
    Triple.throw fun _ h => h.1

/-- The provider answered with this transcription. -/
theorem Answered.transcribed {k : StorageKey} {fileName mimeType : String}
    {language : Option String} {r : ProviderResult ProviderTranscription}
    (h : (Answered P (.transcribe k fileName mimeType language) r).holds S) :
    ∃ e ∈ S.trace, e.tid = t ∧ ∃ k fileName mimeType language,
      e.event = .call (.transcribe k fileName mimeType language) (.transcribed r) := by
  obtain ⟨e, he, ht, ⟨c, env, hev, hperform⟩, -⟩ := h
  refine ⟨e, he, ht, k, fileName, mimeType, language, ?_⟩
  cases c with
  | transcribed r' =>
      cases hperform
      exact hev
  | _ => simp [Services.perform, Call.throws, Call.losable, Call.serve] at hperform

/-- What a run knows after it began a transcription survives a paid call. -/
theorem Busy.began (hbusy : Busy P g tok) (assetId : Id) :
    Busy (P.and (Began assetId)) g tok where
  working := fun S hS => hbusy.working S hS.1
  unscheduled := fun S hS => hbusy.unscheduled S hS.1
  budget := fun S operation assetId hS => hbusy.budget S operation assetId hS.1
  entered := by
    rintro S operation i ⟨hP, newer, e, older, htr, ht, hev, hquiet⟩ hpaid
    refine ⟨hbusy.entered S operation i hP hpaid, _ :: newer, e, older, congrArg _ htr, ht, hev, ?_⟩
    intro e' he' ht' s ws hev'
    rcases List.mem_cons.mp he' with rfl | he'
    · cases hev'
    · exact hquiet e' he' ht' s ws hev'

/-- What the run reads before it begins a transcription. -/
theorem FoundSince.unfinished (hbusy : Busy P g tok) {assetId : Id}
    {existing : Option ReportAssetTranscription} (hnone : finishedText existing = none)
    (h : (FoundSince P (.findTranscription assetId)
      fun d => transcription? d assetId = existing).holds S) :
    FoundUnfinished S t g tok assetId := by
  obtain ⟨newer, S₀, htr, hP, hread, hquiet⟩ := h
  obtain ⟨now, e, he, ht, hev, -⟩ := (hbusy.working S₀ hP).claimed
  exact ⟨newer, _, S₀.trace, htr, rfl, rfl, hread ▸ hnone, hquiet, e, he, ht, hev⟩

/-- A transcript was found finished, or was asked for and stored. -/
theorem Triple.getOrCreate (hbusy : Transcriber P g tok) {asset : GenerationSnapshotAsset}
    {language : String} {leaseExpiresAt : Time}
    (hscope : ∀ S, P.holds S → Scoped S g .transcription (some asset.id)) :
    Triple (contract cfg start) P (getOrCreate cfg g asset language tok leaseExpiresAt)
      (fun text => P.and (Hears asset.id text)) (fun _ => P) := by
  unfold Reports.getOrCreate
  split
  next => exact Triple.throw fun _ hP => hP
  next =>
      refine Triple.bind (Triple.readsSince (p := fun existing d =>
          transcription? d asset.id = existing) rfl
        (hbusy.allows (by simp [Site.ofRun])) (fun _ => rfl)
        (fun _ _ _ ha => by cases ha; exact ⟨rfl, rfl⟩)
        fun _ _ hP => P.lasts Later.rollback hP) fun existing => ?_
      split
      next text htext =>
          refine Triple.pure fun S hS => ⟨hS.1, ?_⟩
          obtain ⟨-, hfound⟩ := hS
          obtain ⟨e, he, ht, hev, hread, -⟩ := FoundSince.found hfound
          refine ⟨e, he, ht, Or.inl ⟨hev, ?_⟩⟩
          rw [hread]
          exact htext
      next hnone =>
          refine Triple.bind (R := fun _ => P.and (Began asset.id)) ?_ fun _ => ?_
          · refine (Triple.beginTranscription (P := P.and (FoundSince P
              (.findTranscription asset.id) fun d => transcription? d asset.id = existing))
              (fun S hS => hbusy.allows (by simp [Site.ofRun]) S hS.1)
              fun S hS => ?_).conseq (fun _ h => h) (fun _ _ h => ⟨h.1.1, h.2⟩)
              fun _ _ h => h.1
            obtain ⟨hP, hfound⟩ := hS
            obtain ⟨a, m, hasked, -⟩ := (hbusy.working S hP).asked
            exact ⟨g, tok, a, m, hasked, FoundSince.unfinished hbusy.toBusy hnone hfound,
              hscope S hP⟩
          refine Triple.conseq (P := P.and (Began asset.id))
            (E := fun _ => P.and (Began asset.id)) ?_
            (fun _ h => h) (fun _ _ h => h) fun _ _ h => h.1
          have hbegan := hbusy.toBusy.began asset.id
          refine Triple.startThen hbegan (fun S hS => hscope S hS.1) fun id hid hop => ?_
          have hbusy' := hbegan.started .transcription (some asset.id) id
          refine Triple.catch (F := fun _ => (P.and (Began asset.id)).and
            (Started g tok .transcription _ id)) ?_ fun _ => Triple.forget
              (Triple.failTranscription (hbusy'.allows (by simp [Site.ofRun]))
              (hbusy'.allows (by simp [Site.ofRun])) (hbusy'.allows (by simp [Site.ofRun]))
              fun S hS => hS.1.2)
          have hget : Keeps (contract cfg start) (((P.and (Began asset.id)).and (Started g tok
              .transcription (some asset.id) id)).and (Paid g tok .transcription (some asset.id)))
              (awaitOk (.getObject asset.storageKey none)) :=
            Keeps.call fun _ _ => trivial
          refine Triple.bind (Triple.forget hget) fun _ => ?_
          refine Triple.bind (Triple.calling hbusy' (Triple.call fun _ _ => trivial))
            fun result => ?_
          refine Triple.bind (R := fun _ => P.and (Hears asset.id result.value.text)) (Triple.forget
            (Triple.completeTranscription (R := P)
            (fun S hS => hbusy'.allows (by simp [Site.ofRun]) S hS.1)
            (fun S hS => hscope S hS.1.1.1)
            (fun S ws hS => hbusy.transcribed S asset.id ws hS.1.1.1) hop
            fun S hS => Answered.transcribed hS.2)) fun _ => ?_
          exact Triple.pure fun S hS => hS

/-- The run has a transcript of every listed asset. -/
def Transcripts (assets : List GenerationSnapshotAsset) (transcripts : List (Id × String)) :
    Knows t :=
  Traced (fun S => transcripts.map (·.1) = assets.map (·.id) ∧
      ∀ p ∈ transcripts, Heard S t p.1 p.2)
    fun _ _ htr h => ⟨h.1, fun p hp => (h.2 p hp).mono htr⟩

theorem Triple.transcribeAll {run : Run} {count : Nat} (hbusy : Transcriber P g tok)
    (hg : run.generationId = g) (htok : run.processingToken = tok)
    (assets : List GenerationSnapshotAsset) (index : Nat)
    (hscope : ∀ a ∈ assets, ∀ S, P.holds S → Scoped S g .transcription (some a.id)) :
    Triple (contract cfg start) P (transcribeAll cfg run count index assets)
      (fun transcripts => P.and (Transcripts assets transcripts)) (fun _ => P) := by
  subst hg htok
  induction assets generalizing P index with
  | nil => exact Triple.pure fun _ hP => ⟨hP, rfl, by simp⟩
  | cons asset rest ih =>
      refine Triple.bind (R := fun _ => P) Keeps.assertBeforeDeadline fun _ => ?_
      refine Triple.bind (Triple.getOrCreate hbusy (hscope asset List.mem_cons_self))
        fun text => ?_
      have hheard : Transcriber (P.and (Hears asset.id text)) run.generationId
          run.processingToken :=
        hbusy.and fun _ _ htr h => Heard.mono h htr
      refine Triple.bind (Triple.forget (Keeps.updateProgress
        (hheard.allows (by simp [Site.ofRun])))) fun _ => ?_
      refine Triple.bind (Triple.forget (ih (index + 1) (fun a ha S hS =>
        hscope a (List.mem_cons_of_mem _ ha) S hS.1) hheard)) fun transcripts =>
        Triple.pure fun S hF => ?_
      obtain ⟨hS, hmap, hall⟩ := hF
      refine ⟨hS.1, ?_, fun p hp => ?_⟩
      · rw [List.map_cons, hmap]
        rfl
      · rcases List.mem_cons.mp hp with rfl | hp
        · exact hS.2
        · exact hall p hp

-- ================================================= the moderated source text

/-- The run has a source text of its generation. -/
def Sources (g : Id) (snapshot : GenerationInputSnapshot) (transcripts : List (Id × String)) :
    Knows t :=
  Traced (Sourced · t g snapshot transcripts) fun _ _ htr h => h.mono htr

/-- The run has seen the moderation of its generation completed. -/
def Moderates (g : Id) : Knows t :=
  Traced (Moderated · t g) fun _ _ htr h => h.mono htr

/-- An attempt that was started has screened nothing yet. -/
theorem Started.screened {id : AttemptKey}
    (h : (Started (t := t) g tok .moderation none id).holds S) : Screened S t id [] := by
  obtain ⟨⟨rfl, hop, hasset⟩, e, he, ht, ws, y, hev, hy, hid⟩ := h
  obtain ⟨newer, older, htrace⟩ := List.append_of_mem he
  exact ⟨newer, e, older, tok, ws, y, htrace, ht, hev, hy, hid, hop, hasset, by simp⟩

/-- After the moderation, a moderation attempt of the generation is completed.
-/
theorem Triple.moderate {run : Run} {imageUrls : List StorageKey}
    {snapshot : GenerationInputSnapshot} {transcripts : List (Id × String)}
    (hbusy : Busy P g tok) (hg : run.generationId = g) (htok : run.processingToken = tok)
    (hsource : ∀ S, P.holds S → Sourced S t g snapshot transcripts)
    (hurls : imageUrls = (imageKeys snapshot).map (·.2)) :
    Triple (contract cfg start) P
      (moderate cfg run (buildSourceText snapshot transcripts) imageUrls)
      (fun _ => P.and (Moderates g)) (fun _ => P) := by
  subst hg htok hurls
  refine Triple.bind (Triple.read rfl (hbusy.allows (by simp [Site.ofRun])) (fun _ => rfl)
    fun _ _ hP => P.lasts Later.rollback hP) fun completed => ?_
  split
  next hcompleted =>
      refine Triple.pure fun S hS => ?_
      obtain ⟨hP, e, he, ht, hev, hread, -⟩ := hS
      refine ⟨hP, e, he, ht, Or.inl ⟨hev, ?_⟩⟩
      rw [hcompleted, List.any_eq_true] at hread
      obtain ⟨x, hx, hscope⟩ := hread
      simp only [Bool.and_eq_true, decide_eq_true_eq] at hscope
      exact ⟨x, hx, hscope.1.1.1, hscope.1.1.2, hscope.2⟩
  next =>
      refine Triple.conseq (P := P) ?_ (fun _ h => h.1) (fun _ _ h => h) fun _ _ h => h
      refine Triple.bind (R := fun _ => P) Keeps.assertBeforeDeadline fun _ => ?_
      refine Triple.startThen hbusy (fun _ _ => by simp [Scoped]) fun id hid hop => ?_
      have hbusy' := hbusy.started .moderation none id
      refine Triple.catch (F := fun _ => P.and (Started run.generationId
        run.processingToken .moderation none id)) ?_
        fun error => ?_
      · refine Triple.bind (Triple.calling hbusy' (Triple.providerModerate
          fun S hS => Started.screened hS.2)) fun moderation => ?_
        split
        next => exact Triple.throw fun _ h => h.1
        next =>
            refine (Triple.forget (Triple.completeOwned
              (fun S hS => hbusy'.allows (by simp [Site.ofRun]) S hS.1) hid
              (fun S hS => hsource S hS.1.1) fun S hS => ?_)).conseq (fun _ h => h)
              (fun _ S h => ⟨h.1.1.1, h.2⟩) fun _ _ h => h
            refine Screened.subset hS.2 fun m hm => ?_
            simpa [moderationItems] using hm
      · cases error with
        | provider e => exact Triple.failThenThrow hbusy'
        | _ => exact Triple.failThenThrow hbusy'

/-- The images a list of presigned GETs gives access to. -/
theorem references_keys {snapshot : GenerationInputSnapshot}
    {references : List (GenerationSnapshotAsset × PresignedGet)}
    (hmap : references.map (·.1) = snapshot.assets.filter fun a => a.type = .image)
    (hurl : ∀ r ∈ references, r.2.url = r.1.storageKey) :
    references.map (fun r => (r.1.id, r.2.url)) = imageKeys snapshot := by
  rw [imageKeys, ← hmap, List.map_map]
  refine List.map_congr_left fun r hr => ?_
  rw [hurl r hr]
  rfl

/-- The run loaded this version of its generation. -/
def Loads (x : ReportGeneration) (g : Id) : Knows t :=
  .entry fun e => generation? e.before.db g = some x

/-- What a run knows once its source text is moderated, and a stored result
parsed. -/
def Analyzed (g tok : Id) (r : Run × SourceText × Option ReportResult) : Knows t :=
  (Known.prop (r.1.generationId = g ∧ r.1.processingToken = tok ∧
    ∀ result ∈ r.2.2, Parsed result)).and
    ((Loads r.1.generation g).and (Traced (fun S => ∃ transcripts,
        Sourced S t g r.1.snapshot transcripts ∧
        r.2.1 = buildSourceText r.1.snapshot transcripts ∧ Moderated S t g)
      fun _ _ htr ⟨transcripts, hsource, htext, hmod⟩ =>
        ⟨transcripts, hsource.mono htr, htext, hmod.mono htr⟩))

/-- Having loaded the generation makes a run no less busy. -/
theorem Busy.loads (hbusy : Busy P g tok) {x : ReportGeneration} {i : Id} :
    Busy (P.and (Loads x i)) g tok :=
  hbusy.and fun _ _ htr ⟨e, he, hp⟩ => ⟨e, htr.subset he, hp⟩

theorem Busy.analyzed (hbusy : Busy P g tok) {r : Run × SourceText × Option ReportResult} :
    Busy (P.and (Analyzed g tok r)) g tok :=
  hbusy.and fun _ _ htr ⟨hrun, ⟨e, he, hp⟩, transcripts, hsource, htext, hmod⟩ =>
    ⟨hrun, ⟨e, htr.subset he, hp⟩, transcripts, hsource.mono htr, htext, hmod.mono htr⟩

/-- The source text of a run is put together from its snapshot and its
transcripts, and moderated. -/
theorem Triple.analyze (htranscriber : Transcriber P g tok) {deadline : Time} :
    Triple (contract cfg start) P (analyze cfg g tok deadline)
      (fun r => P.and (Analyzed g tok r)) (fun _ => P) := by
  have hbusy := htranscriber.toBusy
  refine Triple.bind (Triple.readOrThrow rfl (hbusy.allows (by simp [Site.ofRun]))
    (fun _ => rfl) fun _ _ hP => P.lasts Later.rollback hP) fun generation => ?_
  have hload := hbusy.loads (x := generation) (i := g)
  refine Triple.conseq (P := P.and (Loads generation g)) ?_ (fun S hS => ?_)
    (fun _ _ h => h) fun _ _ h => h
  swap
  · obtain ⟨hP, e, he, -, -, hread, -⟩ := hS
    exact ⟨hP, e, he, hread⟩
  refine Triple.bind (Triple.forget (Triple.parseSnapshot.conseq (fun _ h => h)
    (fun _ _ h => h) fun _ _ h => h)) fun snapshot => ?_
  refine Triple.of_known fun S _ hS => ⟨P.and (Loads generation g), hS.1, ?_⟩
  have hsnapshot : generation.inputSnapshot = some snapshot := hS.2
  refine Triple.bind (Triple.forget (Keeps.updateProgress
    (hload.allows (by simp [Site.ofRun])))) fun _ => ?_
  have hloads : Transcriber (P.and (Loads generation g)) g tok :=
    htranscriber.and fun _ _ htr h => h.imp fun _ he => ⟨htr.subset he.1, he.2⟩
  refine Triple.bind (Triple.forget (Triple.transcribeAll hloads rfl rfl _ _
    fun a ha S hS => ?_)) fun transcripts => ?_
  · obtain ⟨-, e, he, hread⟩ := hS
    exact ⟨rfl, e, he, generation, snapshot, hread, hsnapshot, a, (List.mem_filter.mp ha).1, rfl⟩
  -- the snapshot and the transcripts make up the source text
  let K : Knows t := (P.and (Loads generation g)).and (Sources g snapshot transcripts)
  have hbusy' : Busy K g tok := hload.and fun _ _ htr h => Sourced.mono h htr
  refine Triple.conseq (P := K) ?_ (fun S hS => ?_) (fun _ _ h => h) fun _ _ h => h
  swap
  · obtain ⟨⟨hP, e, he, hread⟩, hmap, hall⟩ := hS
    exact ⟨⟨hP, e, he, hread⟩, ⟨e, he, generation, hread, hsnapshot⟩, hmap, hall⟩
  have hkeeps : ∀ {α : Type} {p : Async α}, Keeps (contract cfg start) K p →
      Triple (contract cfg start) K p (fun _ => K) (fun _ => P) :=
    fun h => h.conseq (fun _ h => h) (fun _ _ h => h) fun _ _ h => h.1.1
  refine Triple.bind (hkeeps (Keeps.updateProgress (hbusy'.allows (by simp [Site.ofRun]))))
    fun _ => ?_
  refine Triple.bind (hkeeps Keeps.assertSupportedImageMimeTypes) fun _ => ?_
  refine Triple.bind (hkeeps Keeps.assertBeforeDeadline) fun _ => ?_
  refine Triple.bind ((Triple.presignAll _).conseq (fun _ h => h) (fun _ _ h => h)
    fun _ _ h => h.1.1) fun references => ?_
  refine Triple.of_known fun S _ hS => ⟨K, hS.1, ?_⟩
  obtain ⟨hmap, hurl⟩ := hS.2
  refine Triple.bind ((Triple.moderate hbusy' rfl rfl (fun S hS => hS.2) ?_).conseq
    (fun _ h => h) (fun _ _ h => h) fun _ _ h => h.1.1) fun _ => ?_
  · rw [← references_keys hmap hurl, List.map_map]
    rfl
  refine Triple.bind (((Keeps.updateProgress (hbusy'.and (K := Moderates g)
    (fun _ _ htr h => Moderated.mono h htr) |>.allows (by simp [Site.ofRun]))).conseq
    (fun _ h => h) (fun _ _ h => h) fun _ _ h => h.1.1.1)) fun _ => ?_
  have hdone : ∀ {stored : Option ReportResult}, (∀ result ∈ stored, Parsed result) → ∀ S,
      (K.and (Moderates g)).holds S → (P.and (Analyzed g tok
        (⟨g, tok, deadline, generation, snapshot⟩, buildSourceText snapshot transcripts,
          stored))).holds S := by
    intro stored hstored S hS
    obtain ⟨⟨⟨hP, hload⟩, hsource⟩, hmod⟩ := hS
    exact ⟨hP, ⟨rfl, rfl, hstored⟩, hload, transcripts, hsource, rfl, hmod⟩
  split
  next => exact Triple.pure (hdone fun _ h => by cases h)
  next =>
      refine Triple.bind (Triple.parseOrThrow.conseq (fun _ h => h) (fun _ _ h => h)
        fun _ _ h => h.1.1.1) fun result => ?_
      refine Triple.of_known fun S _ hS => ⟨K.and (Moderates g), hS.1, ?_⟩
      have hparsed : Parsed result := hS.2
      exact Triple.pure (hdone fun _ h => Option.mem_some.mp h ▸ hparsed)

-- ==================================================== the report content

/-- The report is asked for after the moderation, and what is returned was
parsed. -/
theorem Triple.requestReport {r : Run × SourceText × Option ReportResult}
    {documents : List ProviderDocumentInput} (hbusy : Busy P g tok)
    (hanalyzed : ∀ S, P.holds S → (Analyzed (t := t) g tok r).holds S) :
    Triple (contract cfg start) P (requestReport cfg r.1 r.2.1 documents)
      (fun result => P.and (.prop (Parsed result))) (fun _ => P) := by
  refine Triple.of_known fun S _ hS => ⟨P, hS, ?_⟩
  obtain ⟨⟨hg, htok, -⟩, -⟩ := hanalyzed S hS
  unfold Reports.requestReport
  rw [hg, htok]
  refine Triple.startThen hbusy (fun _ _ => by simp [Scoped]) fun id hid hop => ?_
  have hbusy' := hbusy.started .reportGeneration none id
  refine Triple.catch (F := fun _ => P.and (Started g tok .reportGeneration none id)) ?_
    fun error => ?_
  · refine Triple.bind (Triple.forget Keeps.assertBeforeDeadline) fun _ => ?_
    refine Triple.bind (Triple.forget (Triple.presignAll _)) fun references => ?_
    refine Triple.of_known fun S _ hS => ⟨_, hS.1, ?_⟩
    obtain ⟨hmap, hurl⟩ := hS.2
    refine Triple.bind (Triple.calling hbusy' (R := fun _ =>
      P.and (Started g tok .reportGeneration none id)) (Keeps.call fun S hS => ?_))
      fun result => ?_
    · obtain ⟨-, -, transcripts, hsource, htext, hmod⟩ := hanalyzed S hS.1
      refine ⟨g, tok, r.1.snapshot, transcripts, hbusy'.working S hS, hsource, hmod, htext, ?_⟩
      rw [← references_keys hmap hurl, List.map_map]
      rfl
    · refine Triple.bind Triple.parseOrThrow fun structuredResult => ?_
      refine Triple.of_known fun S _ hS => ⟨_, hS.1, ?_⟩
      have hparsed : Parsed structuredResult := hS.2
      refine Triple.bind (R := fun _ => _) (Triple.validateImageReferences.conseq (fun _ h => h)
        (fun _ _ h => h.1) fun _ _ h => h) fun _ => ?_
      refine Triple.bind (R := fun _ => _) (Keeps.persistReportResult hop
        (hbusy'.allows (by simp [Site.ofRun]))) fun _ => ?_
      exact Triple.pure fun _ h => ⟨h.1, hparsed⟩
  · cases error with
    | provider e => exact Triple.failThenThrow hbusy'
    | _ => exact Triple.failThenThrow hbusy'

/-- The content was parsed, whether it was stored or is new. -/
theorem Triple.generateContent {r : Run × SourceText × Option ReportResult}
    {stored : Option ReportResult} {E : Error → Knows t} (hbusy : Busy P g tok)
    (hanalyzed : ∀ S, P.holds S → (Analyzed (t := t) g tok r).holds S)
    (hstored : ∀ result ∈ stored, Parsed result) :
    Triple (contract cfg start) P (generateContent cfg r.1 r.2.1 stored)
      (fun content => P.and (.prop (∀ result, content.2 = .ok result → Parsed result))) E := by
  cases stored with
  | some structuredResult =>
      exact Triple.pure fun _ hP => ⟨hP, fun result h => hstored result (by cases h; rfl)⟩
  | none =>
      refine Triple.bind (Triple.uploadDocuments _) fun documents => ?_
      split
      next => exact Triple.pure fun _ hP => ⟨hP, fun _ h => by cases h⟩
      next =>
          refine Triple.bind (Triple.attempt (R := fun content =>
            P.and (.prop (∀ result, content = .ok result → Parsed result)))
            ((Triple.requestReport hbusy hanalyzed).conseq (fun _ h => h) (fun _ _ h => ?_)
              fun _ _ hP => ⟨hP, fun _ h => by cases h⟩)) fun _ => Triple.pure fun _ hP => hP
          exact ⟨h.1, fun result hresult => by cases hresult; exact h.2⟩

/-- What is rendered was parsed, with the images it refers to. -/
theorem Keeps.renderOutput {run : Run} {structuredResult : ReportResult}
    (hbusy : Busy P g tok) (hg : run.generationId = g) (htok : run.processingToken = tok)
    (hparsed : Parsed structuredResult) :
    Keeps (contract cfg start) P (renderOutput cfg run structuredResult) := by
  subst hg htok
  refine Triple.bind Triple.validateImageReferences fun _ => ?_
  refine Triple.of_known fun S _ hS => ⟨P, hS.1, ?_⟩
  have hvalid : Reports.validateImageReferences structuredResult run.imageAssets = pure () := hS.2
  refine Keeps.bind (Keeps.updateProgress (hbusy.allows (by simp [Site.ofRun]))) fun _ => ?_
  refine Keeps.bind Keeps.assertBeforeDeadline fun _ => ?_
  refine Triple.bind (Triple.loadImages _) fun images => ?_
  refine Triple.of_known fun S _ hS => ⟨P, hS.1, ?_⟩
  have hreferences : References structuredResult images := ⟨run.imageAssets, hvalid, hS.2⟩
  exact Keeps.bind Keeps.clock fun _ =>
    Keeps.bind (Keeps.call fun _ _ => ⟨hparsed, hreferences⟩) fun _ =>
    Keeps.bind (Keeps.assertOwnership (hbusy.allows (by simp [Site.ofRun]))) fun _ =>
    Keeps.bind (Keeps.updateProgress (hbusy.allows (by simp [Site.ofRun]))) fun _ =>
    Keeps.bind Keeps.assertBeforeDeadline fun _ => Keeps.pure

end FastRep.Reports
