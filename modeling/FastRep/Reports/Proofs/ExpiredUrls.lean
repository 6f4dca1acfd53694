/-
A run whose image URLs expire, and when there is none.

The run is the one in which every moderation request takes as long as it
may: a generation of `n` images and nothing else, claimed and moderated
without a hitch. The last image is then moderated `n + 1` requests after its
URL was presigned.

# Running to the moderation

A statement that a run exists has to evaluate the program. The way to the
moderation is walked step by step with `Prog.Ends` (the claim, the progress,
the presigning, the attempt), and what follows is not: `Prog.Comes` finds the
requests of the moderation in the steps of the whole run
(`comes_presigned`, `comes_process`).

# The times

`rampTimes` lets every request take its limit, and everything else no time,
up to the end of the job. So the visit is paced (`paced_slowVisit`), and the
URL of the last image has expired when its request ends
(`exists_expired`), if the images outnumber the timeouts that a URL lasts and
the job lasts longer than it.

# The result

`image_urls_outlive_requests` has both directions; the other one, that the
URLs of every run last where the bound holds, is `ImageUrls.lean`.
-/
import FastRep.Reports.Proofs.ImageUrls

namespace FastRep.Reports

open FastRep.Txn

variable {cfg : Config} {limit n : Nat} {v : Visit Call Choice} {i i' : Nat}
  {R R' : Rest Row Env} {g tok : Id} {s : GenerationInputSnapshot} {d : Db Row}

-- ======================================================= the way to the claim

/-- A generation that waits in the queue, with nothing attempted. -/
structure Waiting (g : Id) (s : GenerationInputSnapshot) (d : Db Row) : Prop where
  consistent : d.Consistent
  row : ∃ x r, generation? d g = some x ∧ x.status = .queued ∧ x.inputSnapshot = some s ∧
    report? d x.reportId = some r ∧ r.status = .queued
  untried : ∀ id, attempt? d id = none

/-- The generation under a lease that lasts beyond the start. -/
structure Underway (g tok : Id) (s : GenerationInputSnapshot) (d : Db Row) : Prop where
  consistent : d.Consistent
  row : ∃ x, generation? d g = some x ∧ x.heldBy tok 0 = true ∧ x.inputSnapshot = some s
  untried : ∀ id, attempt? d id = none

theorem attempts_of_untried (h : ∀ id, attempt? d id = none) : attempts d = [] := by
  refine List.eq_nil_iff_forall_not_mem.mpr fun x hx => ?_
  rw [mem_attempts, h] at hx
  cases hx

/-- A generation is held by a token under a lease that has not expired. -/
theorem heldBy_iff {x : ReportGeneration} {now : Time} : x.heldBy tok now = true ↔
    x.status = .processing ∧ x.processingToken = some tok ∧
      ∃ expiresAt, x.processingLeaseExpiresAt = some expiresAt ∧ now < expiresAt := by
  unfold ReportGeneration.heldBy ReportGeneration.ownedBy ReportGeneration.leasedAfter
  cases x.processingLeaseExpiresAt <;> simp [and_assoc]

/-- An update of a generation that keeps its key, indexes and references. -/
theorem Db.Consistent.updateGeneration (hd : d.Consistent) {x y : ReportGeneration}
    (hx : generation? d g = some x) (hid : y.id = x.id) (hindex : y.indexes = x.indexes)
    (hreport : y.reportId = x.reportId) (huser : y.userId = x.userId) :
    d.violation (.generation y) = none ∧ (d.put (.generation y)).Consistent := by
  have hmem := Db.mem_of_find? (generation?_eq_some.mp hx)
  have hkey : key (Row.generation y) = key (Row.generation x) := by
    simp only [key, Schema.key, hid]
  have href : Schema.references (Row.generation y) = Schema.references (Row.generation x) := by
    simp only [Schema.references, hreport, huser]
  exact ⟨hd.violation_of_update hmem hkey hindex href rfl, hd.update hmem hkey hindex href rfl⟩

/-- Versions of an active generation have the same unique indexes. -/
theorem indexes_of_active {x y : ReportGeneration} (huser : y.userId = x.userId)
    (hreport : y.reportId = x.reportId) (hkey : y.idempotencyKey = x.idempotencyKey)
    (hx : x.status.active = true) (hy : y.status.active = true) : y.indexes = x.indexes := by
  simp only [ReportGeneration.indexes, huser, hreport, hkey, hx, hy]

/-- The claim of a waiting generation. -/
theorem Ends.claim (cfg : Config) (tok : Id) (h : Waiting g s R.db)
    (hjob : 0 < cfg.reportGenerationJobTimeoutMs) :
    ∃ d, (claim cfg g tok).Ends v i R (.ok true) (i + 2) { R with db := d } ∧ Underway g tok s d := by
  obtain ⟨x, r, hx, hqueued, hsnapshot, hr, hreport⟩ := h.row
  let y := x.claimed (v.times i) (v.times i + cfg.reportGenerationJobTimeoutMs) tok
  have hidx := generation?_id hx
  have hactive : y.indexes = x.indexes :=
    indexes_of_active rfl rfl rfl (by rw [hqueued]; rfl) rfl
  obtain ⟨hviol, hput⟩ := Db.Consistent.updateGeneration (y := y) h.consistent hx rfl hactive rfl rfl
  have hfindy : generation? (R.db.put (.generation y)) g = some y :=
    hidx ▸ generation?_eq_some.mpr (Db.find?_put_self R.db (Row.generation y))
  have hfindr : report? (R.db.put (.generation y)) y.reportId = some r :=
    (report?_put_of_ne (by simp)).trans hr
  let r' : Report := { r with status := .processing }
  have hmemr := Db.mem_of_find? (report?_eq_some.mp hfindr)
  have hviolr : (R.db.put (.generation y)).violation (.report r') = none :=
    hput.violation_of_update hmemr rfl rfl rfl rfl
  refine ⟨applyAll [.update (.generation y), .update (.report r')] R.db,
    Prog.Ends.bind Prog.Ends.clock (Prog.Ends.commits ?_), ?_⟩
  · refine Tx.Yields.updateRow (generation?_eq_some.mp hx) ?_ hviol ?_
    · simp [onGeneration, ReportGeneration.claimable, hqueued]
    · rw [if_neg (by simp)]
      refine Tx.Yields.selectOrThrow hfindy ?_
      exact Tx.Yields.updateRow (report?_eq_some.mp hfindr) (by simp [onReport, hreport]) hviolr
        Tx.Yields.pure
  refine ⟨hput.update hmemr rfl rfl rfl rfl, ⟨y, ?_, ?_, hsnapshot⟩, fun id => ?_⟩
  · exact (generation?_put_of_ne (by simp)).trans hfindy
  · exact heldBy_iff.mpr ⟨rfl, rfl, _, rfl, Nat.add_pos_right _ hjob⟩
  · rw [attempt?_congr (find?_applyAll_ne (by simp [Write.target, key, Schema.key]) _)]
    exact h.untried id

-- ================================================== the way to the moderation

/-- A progress update, while the clock stands at the start. -/
theorem Ends.updateProgress (stage : ReportGenerationStage) (progress : Nat)
    (h : Underway g tok s R.db) (hstart : v.times i = 0)
    (hjob : 0 < cfg.reportGenerationJobTimeoutMs) :
    ∃ d, (updateProgress cfg g stage progress tok).Ends v i R (.ok ()) (i + 3) { R with db := d } ∧
      Underway g tok s d := by
  obtain ⟨x, hx, hheld, hsnapshot⟩ := h.row
  obtain ⟨hstatus, htoken, -⟩ := heldBy_iff.mp hheld
  let y : ReportGeneration := { x with
    stage
    progress
    processingLeaseExpiresAt := some (v.times (i + 1) + cfg.reportGenerationJobTimeoutMs) }
  obtain ⟨hviol, hput⟩ := Db.Consistent.updateGeneration (y := y) h.consistent hx rfl rfl rfl rfl
  have hcommit : (transaction (.updateProgress g tok) (updateRow (.generation g)
      (onGeneration (·.heldBy tok (v.times i))) (setGeneration fun r => { r with
        stage
        progress
        processingLeaseExpiresAt :=
          some (v.times (i + 1) + cfg.reportGenerationJobTimeoutMs) })) : Async Nat).Ends v (i + 2) R
      (.ok 1) (i + 3) { R with db := applyAll [.update (.generation y)] R.db } :=
    Prog.Ends.commits (Tx.Yields.updateRow (generation?_eq_some.mp hx)
      (by rw [hstart]; exact hheld) hviol Tx.Yields.pure)
  refine ⟨_, Prog.Ends.bind Prog.Ends.clock (Prog.Ends.bind Prog.Ends.clock
    (Prog.Ends.bind hcommit Prog.Ends.pure)), hput, ⟨y, ?_, ?_, hsnapshot⟩, fun id => ?_⟩
  · exact generation?_id hx ▸ generation?_eq_some.mpr (Db.find?_put_self R.db (Row.generation y))
  · exact heldBy_iff.mpr ⟨hstatus, htoken, _, rfl, Nat.add_pos_right _ hjob⟩
  · rw [attempt?_congr (find?_applyAll_ne (by simp [Write.target, key, Schema.key]) _)]
    exact h.untried id

theorem Ends.assertBeforeDeadline {deadline : Time} (h : v.times i < deadline) :
    (assertBeforeDeadline deadline).Ends v i R (.ok ()) (i + 1) R := by
  refine Prog.Ends.bind Prog.Ends.clock ?_
  rw [if_neg (not_le.mpr h)]
  exact Prog.Ends.pure

/-- Presigning a list of images. -/
theorem Ends.presignAll (hanswer : ∀ k, v.answer (.createPresignedGet k cfg.downloadUrlTtlSeconds)
      = .done) (images : List GenerationSnapshotAsset) :
    ∃ references, (presignAll cfg images).Ends v i R (.ok references) (i + images.length) R := by
  induction images generalizing i with
  | nil => exact ⟨[], rfl⟩
  | cons image rest ih =>
      obtain ⟨references, hrest⟩ := ih (i := i + 1)
      have hfirst : (createPresignedGet cfg image.storageKey).Ends v i R
          (.ok ⟨image.storageKey, v.times i + cfg.downloadUrlTtlSeconds * 1000⟩) (i + 1) R :=
        Ends.awaitOk (hanswer _) rfl
      rw [List.length_cons, Nat.add_comm rest.length, ← Nat.add_assoc]
      exact ⟨_, Prog.Ends.bind hfirst (Prog.Ends.bind hrest Prog.Ends.pure)⟩

theorem Ends.hasCompleted (h : ∀ id, attempt? R.db id = none) :
    (hasCompleted g .moderation none).Ends v i R (.ok false) (i + 1) R := by
  have hquery := Ends.query (v := v) (i := i) (R := R) (s := .hasCompleted g)
    fun d => (attempts d).any fun r => r.id.generationId = g && r.id.operation = .moderation
      && r.id.assetId = none && r.status = .completed
  simp only [attempts_of_untried h, List.any_nil] at hquery
  exact hquery

/-- The first attempt at the moderation. -/
theorem Ends.startModeration (h : Underway g tok s R.db) (leaseExpiresAt : Time)
    (hmaximum : 0 < cfg.aiMaxProviderCallsPerGeneration) :
    ∃ id d, (startAttempt cfg g .moderation "openai" "omni-moderation-latest" tok leaseExpiresAt
      none).Ends v i R (.ok id) (i + 1) { R with db := d } := by
  have hscope : scopeAttempts g .moderation none R.db = [] := by
    unfold scopeAttempts
    rw [attempts_of_untried h.untried]
    rfl
  obtain ⟨x, hx, -, -⟩ := h.row
  let y : GenerationProviderAttempt := {
    id := ⟨g, .moderation, none, 1⟩
    status := .started
    provider := "openai"
    model := "omni-moderation-latest"
    providerRequestId := none
    inputTokens := none
    outputTokens := none
    audioDurationSeconds := none
    errorCode := none
    processingToken := tok
    leaseExpiresAt
    startedAt := v.times i
    completedAt := none }
  have hviol : R.db.violation (.attempt y) = none := by
    refine Db.violation_eq_none_iff.mpr ⟨fun _ _ _ _ hk => ?_, rfl, fun ref href => ?_⟩
    · cases hk
    · obtain rfl := List.mem_singleton.mp href
      exact Option.isSome_iff_exists.mpr ⟨_, generation?_eq_some.mp hx⟩
  refine ⟨y.id, applyAll [.insert (.attempt y)] R.db, Prog.Ends.commits_serializable ?_⟩
  refine Tx.Yields.select (Tx.Yields.clock ?_)
  rw [hscope]
  have hbudget : ¬ maximumAttempts cfg .moderation ≤ 0 := not_le.mpr hmaximum
  show Tx.Yields (if maximumAttempts cfg .moderation ≤ 0 then _ else _) _ _ _ _
  rw [if_neg hbudget]
  exact Tx.Yields.clock (Tx.Yields.insertRow (attempt?_eq_none.mp (h.untried y.id)) hviol
    Tx.Yields.pure)

-- ============================================================ the moderation

section Moderation

variable {urls : List StorageKey}

/-- The moderation requests of the image batches. -/
def batchRequests (urls : List StorageKey) (indices : List Nat) : List (Option Call) :=
  indices.map fun batchIndex =>
    some (.moderateInput ((moderationBatch urls batchIndex).map .imageUrl))

/-- A moderation that flags nothing ends well. -/
theorem Ends.moderateInput {input : List ModerationInput}
    (hanswer : ∀ input, v.answer (.moderateInput input) = .moderated false none) :
    (Reports.awaitOk (.moderateInput input)).Ends v i R
      (.ok (⟨false, none, none, none⟩ : ProviderResult Bool)) (i + 1) R := by
  have hawait : (await (Call.moderateInput input) : Async (Except Error (ProviderResult Bool))).Ends
      v i R (.ok (.ok ⟨false, none, none, none⟩)) (i + 1) R := by
    refine Prog.Ends.await ?_
    rw [hanswer]
    rfl
  exact Prog.Ends.bind hawait Prog.Ends.settle

theorem steps_moderateBatches (indices : List Nat) {providerRequestId : Option String}
    (hanswer : ∀ input, v.answer (.moderateInput input) = .moderated false none) :
    (moderateBatches urls indices providerRequestId).steps v i R = batchRequests urls indices := by
  induction indices generalizing i providerRequestId with
  | nil => rfl
  | cons batchIndex rest ih =>
      refine (Ends.moderateInput hanswer).steps_bind.trans ?_
      rw [steps_awaitOk]
      exact congrArg (_ :: ·) ih

/-- The requests of a moderation that flags nothing. -/
theorem steps_providerModerate {text : SourceText}
    (hanswer : ∀ input, v.answer (.moderateInput input) = .moderated false none) :
    (Provider.moderate text urls).steps v i R = some (.moderateInput [.text text])
      :: batchRequests urls (List.range urls.length) := by
  refine (Ends.moderateInput hanswer).steps_bind.trans ?_
  rw [steps_awaitOk]
  have hcount : moderationBatchCount urls = urls.length := by
    rw [moderationBatchCount, moderationMaxImagesPerRequest, Nat.add_sub_cancel, Nat.div_one]
  exact hcount ▸ congrArg (_ :: ·) (steps_moderateBatches _ hanswer)

/-- The batch of an image is the image. -/
theorem moderationBatch_eq {j : Nat} {url : StorageKey} (h : urls[j]? = some url) :
    moderationBatch urls j = [url] := by
  obtain ⟨hlt, rfl⟩ := List.getElem?_eq_some_iff.mp h
  rw [moderationBatch, moderationMaxImagesPerRequest, Nat.mul_one,
    List.drop_eq_getElem_cons hlt, List.take_succ_cons, List.take_zero]

/-- The start of a moderation: three steps, and then the requests. -/
theorem comes_moderate (run : Run) (text : SourceText) (urls : List StorageKey)
    (h : Underway run.generationId tok s R.db)
    (htoken : run.processingToken = tok) (hbefore : v.times (i + 1) < run.deadline)
    (hmaximum : 0 < cfg.aiMaxProviderCallsPerGeneration)
    (hanswer : ∀ input, v.answer (.moderateInput input) = .moderated false none) :
    (moderate cfg run text urls).Comes v i R (i + 3) (some (.moderateInput [.text text])
      :: batchRequests urls (List.range urls.length)) := by
  subst htoken
  obtain ⟨id, d, hattempt⟩ := Ends.startModeration (v := v) (i := i + 2) h run.deadline hmaximum
  refine Prog.Comes.bind (Ends.hasCompleted h.untried) ?_
  rw [if_neg (by simp)]
  refine Prog.Comes.bind (Ends.assertBeforeDeadline hbefore) (Prog.Comes.bind hattempt ?_)
  refine Prog.Comes.handle (Prog.Comes.first (Prog.Comes.of_steps ?_))
  exact (steps_providerModerate hanswer).symm ▸ List.prefix_rfl

end Moderation

-- ================================================================== the run

/-- A generation with images only, of supported types. -/
structure ImagesOnly (s : GenerationInputSnapshot) : Prop where
  version : s.version = 1
  images : ∀ a ∈ s.assets, a.type = .image ∧ a.verifiedMimeType ∈ supportedImageMimeTypes

/-- A visit in which nothing goes wrong, and nothing takes time up to a
moment. -/
structure Smooth (cfg : Config) (v : Visit Call Choice) (n : Nat) : Prop where
  presigns : ∀ k, v.answer (.createPresignedGet k cfg.downloadUrlTtlSeconds) = .done
  moderates : ∀ input, v.answer (.moderateInput input) = .moderated false none
  start : ∀ i ≤ n, v.times i = 0

/-- Once the images are presigned, they are moderated. -/
theorem comes_presigned (run : Run) (text : SourceText) {images : List GenerationSnapshotAsset}
    (h : Underway run.generationId tok s R.db) (htoken : run.processingToken = tok)
    (himages : run.imageAssets = images) {m : Nat} (hv : Smooth cfg v m)
    (hm : i + images.length + 1 ≤ m) (hdeadline : 0 < run.deadline)
    (hmaximum : 0 < cfg.aiMaxProviderCallsPerGeneration) :
    ∃ between, between.length = 3 ∧ ∀ {α : Type} (f : Unit → Async α),
      (presignAll cfg run.imageAssets >>= fun references =>
        moderate cfg run text (references.map (·.2.url)) >>= f).Comes v i R i
        (presignings cfg images ++ (between ++ some (.moderateInput [.text text])
          :: batchRequests (images.map (·.storageKey)) (List.range images.length))) := by
  subst himages
  obtain ⟨references, hpresign⟩ := Ends.presignAll (R := R) (i := i) hv.presigns run.imageAssets
  obtain ⟨hsteps, hurls, -⟩ := Ends.of_presignAll 0 hpresign
  obtain ⟨between, hlength, hmoderate⟩ := comes_moderate (R := R)
    (i := i + run.imageAssets.length) run text (references.map (·.2.url)) h htoken
    (by rw [hv.start _ hm]; exact hdeadline) hmaximum hv.moderates
  refine ⟨between, by omega, fun f => Prog.Comes.of_steps ?_⟩
  rw [hpresign.steps_bind, hsteps]
  refine (List.prefix_append_right_inj _).mpr (Prog.prefix_bind ?_)
  rw [hurls, List.length_map] at hmoderate
  rw [hurls]
  exact hmoderate

/-- The analysis of a claimed generation: the images are presigned at once,
and moderated after. -/
theorem comes_analyze (h : Underway g tok s R.db) (hs : ImagesOnly s) {m : Nat}
    (hv : Smooth cfg v m) (hm : i + 11 + s.assets.length ≤ m)
    (hjob : 0 < cfg.reportGenerationJobTimeoutMs)
    (hmaximum : 0 < cfg.aiMaxProviderCallsPerGeneration) :
    ∃ text between, between.length = 3 ∧
      (analyze cfg g tok cfg.reportGenerationJobTimeoutMs).Comes v i R (i + 8)
        (presignings cfg s.assets ++ (between ++ some (.moderateInput [.text text])
          :: batchRequests (s.assets.map (·.storageKey)) (List.range s.assets.length))) := by
  obtain ⟨x, hx, -, hsnapshot⟩ := h.row
  have haudio : s.assets.filter (fun a => a.type = .audio) = [] :=
    List.filter_eq_nil_iff.mpr fun a ha => by simp [(hs.images a ha).1]
  have himages : s.assets.filter (fun a => a.type = .image) = s.assets :=
    List.filter_eq_self.mpr fun a ha => by simp [(hs.images a ha).1]
  have hload : (transaction (.loadGeneration g) (selectOrThrow fun d => generation? d g) :
      Async ReportGeneration).Ends v i R (.ok x) (i + 1) R :=
    Prog.Ends.commits (Tx.Yields.selectOrThrow hx Tx.Yields.pure)
  have hparse : (parseSnapshot x.inputSnapshot).Ends v (i + 1) R (.ok s) (i + 1) R := by
    rw [hsnapshot, parseSnapshot, Option.filter_some_pos (by simp [hs.version])]
    exact Prog.Ends.pure
  have hsupported : ∀ {j S}, (assertSupportedImageMimeTypes (s.assets.filter fun a =>
      a.type = .image)).Ends v j S (.ok ()) j S := by
    intro j S
    have hnone : ((s.assets.filter fun a => a.type = .image).any
        fun image => image.verifiedMimeType ∉ supportedImageMimeTypes) = false := by
      rw [himages]
      simpa using fun a ha => (hs.images a ha).2
    unfold assertSupportedImageMimeTypes
    rw [if_neg (by rw [hnone]; simp)]
    exact Prog.Ends.pure
  obtain ⟨d₁, hfirst, hheld₁⟩ := Ends.updateProgress (v := v) (i := i + 1) .transcribing
    (generationProgress .transcribing) h (hv.start _ (by omega)) hjob
  obtain ⟨d₂, hsecond, hheld₂⟩ := Ends.updateProgress (v := v) (i := i + 4)
    (R := { R with db := d₁ }) .analyzing (generationProgress .analyzing) hheld₁
    (hv.start _ (by omega)) hjob
  let run : Run := ⟨g, tok, cfg.reportGenerationJobTimeoutMs, x, s⟩
  obtain ⟨between, hlength, hmoderated⟩ := comes_presigned (R := { R with db := d₂ }) (i := i + 8)
    run (buildSourceText s []) hheld₂ rfl
    himages hv (by omega) hjob hmaximum
  refine ⟨buildSourceText s [], between, hlength, ?_⟩
  refine Prog.Comes.bind hload (Prog.Comes.bind hparse (Prog.Comes.bind hfirst ?_))
  rw [haudio]
  refine Prog.Comes.bind Prog.Ends.pure (Prog.Comes.bind hsecond ?_)
  refine Prog.Comes.bind hsupported ?_
  refine Prog.Comes.bind (Ends.assertBeforeDeadline ?_) (hmoderated _)
  rw [hv.start _ (by omega)]
  exact hjob

/-- The whole run. -/
theorem comes_process (h : Waiting g s R.db) (hs : ImagesOnly s)
    (hv : Smooth cfg v (14 + s.assets.length)) (hjob : 0 < cfg.reportGenerationJobTimeoutMs)
    (hmaximum : 0 < cfg.aiMaxProviderCallsPerGeneration) {a m : Nat} :
    ∃ text between, between.length = 3 ∧
      (process cfg g a m).Comes v 0 R 11
        (presignings cfg s.assets ++ (between ++ some (.moderateInput [.text text])
          :: batchRequests (s.assets.map (·.storageKey)) (List.range s.assets.length))) := by
  obtain ⟨f, hprocess, -, hclaimed⟩ := process_parts cfg g a m
  obtain ⟨q, hq, -⟩ := hclaimed R.nextId
  obtain ⟨d, hclaim, hheld⟩ := Ends.claim (v := v) (i := 0)
    (R := { R with nextId := R.nextId + 1 }) cfg R.nextId h hjob
  obtain ⟨f', htry, -⟩ := tryBlock_parts cfg g R.nextId cfg.reportGenerationJobTimeoutMs
  obtain ⟨text, between, hlength, hanalyze⟩ := comes_analyze (v := v) (i := 3)
    (R := { R with nextId := R.nextId + 1, db := d }) hheld hs hv (by omega) hjob hmaximum
  refine ⟨text, between, hlength, ?_⟩
  rw [hprocess]
  refine Prog.Comes.bind Prog.Ends.uuid (Prog.Comes.bind hclaim ?_)
  rw [hq]
  refine Prog.Comes.bind Prog.Ends.clock ?_
  rw [hv.start 2 (by omega), Nat.zero_add, htry]
  exact Prog.Comes.first (Prog.Comes.first hanalyze.handle)

-- ================================================================ the times

/-- The requests from an index on take as long as they may, all else nothing. -/
def rampTimes (cfg : Config) (limit start count i : Nat) : Time :=
  min (min (i - start) count * limit) cfg.reportGenerationJobTimeoutMs

theorem rampTimes_mono {start count : Nat} : Monotone (rampTimes cfg limit start count) := by
  intro i j hij
  have hsteps : min (i - start) count ≤ min (j - start) count := by omega
  exact le_min ((min_le_left _ _).trans (Nat.mul_le_mul_right _ hsteps)) (min_le_right _ _)

/-- A step takes at most the limit. -/
theorem rampTimes_succ_le {start count i : Nat} :
    rampTimes cfg limit start count (i + 1) ≤ rampTimes cfg limit start count i + limit := by
  have hsteps : min (i + 1 - start) count * limit ≤ min (i - start) count * limit + limit := by
    rw [← Nat.succ_mul]
    exact Nat.mul_le_mul_right _ (by omega)
  unfold rampTimes
  rcases le_total (min (i - start) count * limit) cfg.reportGenerationJobTimeoutMs with h | h
  · rw [min_eq_left h]
    exact (min_le_left _ _).trans hsteps
  · rw [min_eq_right h]
    exact (min_le_right _ _).trans (Nat.le_add_right _ _)

/-- No time passes outside the requests. -/
theorem rampTimes_succ_eq {start count i : Nat} (h : i < start ∨ start + count ≤ i) :
    rampTimes cfg limit start count (i + 1) = rampTimes cfg limit start count i := by
  have hsteps : min (i + 1 - start) count = min (i - start) count := by omega
  rw [rampTimes, hsteps, rampTimes]

/-- The visit of a run whose requests take as long as they may. -/
def slowVisit (cfg : Config) (limit n : Nat) : Visit Call Choice where
  answer
    | .moderateInput _ => .moderated false none
    | _ => .done
  times := rampTimes cfg limit (14 + n) (n + 1)
  mono := rampTimes_mono

/-- A slow visit is one on which every call succeeds. -/
theorem smooth_slowVisit : Smooth cfg (slowVisit cfg limit n) (14 + n) where
  presigns _ := rfl
  moderates _ := rfl
  start i hi := by
    have hnone : i - (14 + n) = 0 := by omega
    show rampTimes cfg limit (14 + n) (n + 1) i = 0
    rw [rampTimes, hnone, Nat.zero_min, Nat.zero_mul, Nat.zero_min]

/-- Every request of a slow visit takes as long as it may. -/
theorem paced_slowVisit {l : List (Option Call)}
    (h : ∀ k < n + 1, ∃ x : Call, l[14 + n + k]? = some (some x) ∧ x.isRequest = true) :
    Paced cfg limit (slowVisit cfg limit n) 0 l := by
  intro j step hj
  rw [Nat.zero_add]
  have hdeadline : (slowVisit cfg limit n).times (j + 1)
      ≤ (slowVisit cfg limit n).times 0 + cfg.reportGenerationJobTimeoutMs :=
    (min_le_right _ _).trans (Nat.le_add_left _ _)
  have hlimit : (slowVisit cfg limit n).times (j + 1)
      ≤ (slowVisit cfg limit n).times j + limit := rampTimes_succ_le
  unfold Takes
  split
  next => exact ⟨hlimit, hdeadline⟩
  next hstep =>
      refine rampTimes_succ_eq (by_contra fun hwithin => hstep ?_)
      obtain ⟨k, hk⟩ := Nat.exists_eq_add_of_le (show 14 + n ≤ j by omega)
      obtain ⟨x, hx, hrequest⟩ := h k (by omega)
      rw [← hk, hj] at hx
      cases hx
      exact hrequest

-- ============================================================= the generation

/-- The images of the generation. -/
def photo (position : Nat) : GenerationSnapshotAsset where
  id := 20 + position
  type := .image
  verifiedMimeType := "image/png"
  verifiedSize := 1
  position
  storageKey := .asset 1 10 (20 + position) 0
  originalFileName := "photo.png"

/-- The snapshot of a report with some images. -/
def pictures (n : Nat) : GenerationInputSnapshot where
  version := 1
  report := ⟨10, "t", none, "en", none⟩
  assets := (List.range n).map photo
  createdAt := 0

/-- A snapshot of pictures has nothing but images. -/
theorem imagesOnly_pictures : ImagesOnly (pictures n) where
  version := rfl
  images a ha := by
    obtain ⟨j, -, rfl⟩ := List.mem_map.mp ha
    exact ⟨rfl, by simp [photo, supportedImageMimeTypes]⟩

/-- The queued report. -/
def picturedReport : Report := { newReport 10 1 "t" none 0 with status := .queued }

/-- Its generation. -/
def picturedGeneration (n : Nat) : ReportGeneration :=
  newGeneration 12 10 1 "k" (pictures n) .draft 0

/-- The generation waits in the queue. -/
def picturedRest (n : Nat) : Rest Row Env where
  db := ((Db.empty.put (.user sampleUser)).put (.report picturedReport)).put
    (.generation (picturedGeneration n))
  env := ⟨[], [], []⟩
  nextId := 14

/-- A generation with the snapshot waits in the queue. -/
theorem waiting_picturedRest : Waiting 12 (pictures n) (picturedRest n).db where
  consistent := by
    refine Db.Consistent.insert (Db.Consistent.insert (Db.Consistent.insert ?_ ?_ ?_) ?_ ?_) ?_ ?_
    · exact fun x hx => absurd hx List.not_mem_nil
    · decide +kernel
    · decide +kernel
    · decide +kernel
    · decide +kernel
    · rfl
    · rfl
  row := ⟨picturedGeneration n, picturedReport, rfl, rfl, rfl, rfl, rfl⟩
  untried _ := rfl

theorem imageCount_picturedRest : imageCount 12 (picturedRest n).db = some n := by
  have hrow : generation? (picturedRest n).db 12 = some (picturedGeneration n) := rfl
  have himages : (pictures n).assets.filter (fun a => a.type = .image) = (pictures n).assets :=
    List.filter_eq_self.mpr fun a ha => by simp [(imagesOnly_pictures.images a ha).1]
  have hcount : imageCount 12 (picturedRest n).db
      = some ((pictures n).assets.filter fun a => a.type = .image).length := by
    rw [imageCount, hrow]
    rfl
  rw [hcount, himages, pictures, List.length_map, List.length_range]

-- ================================================================= the result

section Result

variable {a m : Nat}

/-- An accepted configuration allows a call of the provider. -/
theorem providerCalls_pos (h : cfg.accepted = true) :
    0 < cfg.aiMaxProviderCallsPerGeneration := by
  have hrange : 2 ≤ cfg.aiMaxProviderCallsPerGeneration := by
    simp only [Config.accepted, inRange, Bool.and_eq_true, decide_eq_true_eq] at h
    grind
  omega

/-- An accepted request timeout is at most the lifetime of a URL. -/
theorem limit_le (h : cfg.acceptsRequestTimeout limit = true) :
    limit ≤ cfg.downloadUrlTtlSeconds * 1000 := by
  have hcheck := ((Bool.and_eq_true _ _).mp h).2
  simpa using hcheck

/-- The presigning and the moderation of each image, among the steps. -/
theorem steps_pictures (limit n : Nat) (hcfg : cfg.accepted = true)
    (hjob : 0 < cfg.reportGenerationJobTimeoutMs) {l : List (Option Call)}
    (hl : (process cfg 12 a m).steps (slowVisit cfg limit n) 0 (picturedRest n) = l) :
    (∃ text, l[14 + n]? = some (some (.moderateInput [.text text]))) ∧
      ∀ j < n, l[11 + j]? = some (some (.createPresignedGet (photo j).storageKey
          cfg.downloadUrlTtlSeconds)) ∧
        l[15 + n + j]? = some (some (.moderateInput [.imageUrl (photo j).storageKey])) := by
  have hassets : (pictures n).assets.length = n := by
    rw [pictures, List.length_map, List.length_range]
  obtain ⟨text, between, hlength, hcomes⟩ := comes_process (a := a) (m := m)
    (v := slowVisit cfg limit n) (waiting_picturedRest (n := n)) imagesOnly_pictures
    (by rw [hassets]; exact smooth_slowVisit) hjob (providerCalls_pos hcfg)
  rw [hassets] at hcomes
  have hpresignings : (presignings cfg (pictures n).assets).length = n := by
    rw [presignings, List.length_map, hassets]
  -- behind the presignings and the start of the attempt
  have hlater : ∀ {k : Nat} {step}, (some (.moderateInput [.text text]) :: batchRequests
      ((pictures n).assets.map (·.storageKey)) (List.range n))[k]? = some step →
      l[14 + n + k]? = some step := by
    intro k step hk
    rw [show 14 + n + k = 11 + (n + (3 + k)) by omega, ← hl]
    refine hcomes.getElem? ?_
    rw [List.getElem?_append_right (by omega), hpresignings, Nat.add_sub_cancel_left,
      List.getElem?_append_right (by omega), hlength, Nat.add_sub_cancel_left]
    exact hk
  refine ⟨⟨text, hlater (k := 0) rfl⟩, fun j hj => ⟨?_, ?_⟩⟩
  · rw [← hl]
    refine hcomes.getElem? ?_
    rw [List.getElem?_append_left (by omega), presignings, pictures, List.getElem?_map,
      List.getElem?_map, List.getElem?_range hj]
    rfl
  · have hurl : ((pictures n).assets.map (·.storageKey))[j]? = some (photo j).storageKey := by
      rw [pictures, List.getElem?_map, List.getElem?_map, List.getElem?_range hj]
      rfl
    rw [show 15 + n + j = 14 + n + (j + 1) by omega]
    refine hlater ?_
    rw [List.getElem?_cons_succ, batchRequests, List.getElem?_map, List.getElem?_range hj,
      Option.map_some, moderationBatch_eq hurl]
    rfl

/-- A slow run on the pictures is paced. -/
theorem paced_pictures (limit n : Nat) (hcfg : cfg.accepted = true)
    (hjob : 0 < cfg.reportGenerationJobTimeoutMs) :
    Paced cfg limit (slowVisit cfg limit n) 0
      ((process cfg 12 a m).steps (slowVisit cfg limit n) 0 (picturedRest n)) := by
  obtain ⟨⟨text, htext⟩, hpictures⟩ := steps_pictures limit n (a := a) (m := m) hcfg
    hjob rfl
  refine paced_slowVisit fun k hk => ?_
  cases k with
  | zero => exact ⟨_, htext, rfl⟩
  | succ j =>
      rw [show 14 + n + (j + 1) = 15 + n + j by omega]
      exact ⟨_, (hpictures j (by omega)).2, rfl⟩

/-- Where the images outnumber the timeouts that the URLs last, and the job
lasts longer than they do, a run hands out an expired URL. -/
theorem exists_expired (hcfg : cfg.accepted = true)
    (hlimit : cfg.acceptsRequestTimeout limit = true)
    (hrequests : cfg.downloadUrlTtlSeconds * 1000 < (n + 1) * limit)
    (hjob : cfg.downloadUrlTtlSeconds * 1000 < cfg.reportGenerationJobTimeoutMs) :
    ¬ Unexpired cfg (slowVisit cfg limit n) 0
      ((process cfg 12 a m).steps (slowVisit cfg limit n) 0 (picturedRest n)) := by
  intro hunexpired
  obtain ⟨-, hpictures⟩ := steps_pictures limit n (a := a) (m := m) hcfg
    (Nat.zero_lt_of_lt hjob) rfl
  -- the last image is moderated last
  obtain ⟨j, rfl⟩ : ∃ j, n = j + 1 := by
    refine Nat.exists_eq_add_one.mpr (Nat.pos_of_ne_zero fun hzero => ?_)
    rw [hzero, Nat.zero_add, Nat.one_mul] at hrequests
    exact absurd (limit_le hlimit) (not_le.mpr hrequests)
  obtain ⟨hpresign, hmoderate⟩ := hpictures j (Nat.lt_succ_self j)
  have hlasts := hunexpired.moderation _ _ _ _ hmoderate (List.mem_singleton_self _)
    (by omega) hpresign
  have hbegins : (slowVisit cfg limit (j + 1)).times (0 + (11 + j)) = 0 :=
    smooth_slowVisit.start _ (by omega)
  have hends : (slowVisit cfg limit (j + 1)).times (0 + (15 + (j + 1) + j) + 1)
      = min ((j + 1 + 1) * limit) cfg.reportGenerationJobTimeoutMs := by
    show rampTimes _ _ _ _ _ = _
    rw [rampTimes, show min (0 + (15 + (j + 1) + j) + 1 - (14 + (j + 1))) (j + 1 + 1) = j + 1 + 1
      by omega]
  rw [hbegins, hends, Nat.zero_add] at hlasts
  exact absurd hlasts (not_le.mpr (lt_min hrequests hjob))

/-- The image URLs of every run last as long as the requests that use them
exactly where one request for the text and one for each image fit into the
lifetime of a URL, or the whole job does. -/
theorem image_urls_outlive_requests (hcfg : cfg.accepted = true)
    (hlimit : cfg.acceptsRequestTimeout limit = true) :
    (∀ (v : Visit Call Choice) (R : Rest Row Env) (g : Id) (a m : Nat),
      imageCount g R.db = some n → Paced cfg limit v 0 ((process cfg g a m).steps v 0 R) →
      Unexpired cfg v 0 ((process cfg g a m).steps v 0 R)) ↔
    (n + 1) * limit ≤ cfg.downloadUrlTtlSeconds * 1000 ∨
      cfg.reportGenerationJobTimeoutMs ≤ cfg.downloadUrlTtlSeconds * 1000 := by
  constructor
  · intro hall
    by_contra hbound
    obtain ⟨hrequests, hjob⟩ := not_or.mp hbound
    have hpaced := paced_pictures limit n (a := 1) (m := 1) hcfg
      (Nat.zero_lt_of_lt (not_le.mp hjob))
    exact exists_expired hcfg hlimit (not_le.mp hrequests) (not_le.mp hjob)
      (hall _ _ _ _ _ imageCount_picturedRest hpaced)
  · intro hbound v R g a m hcount hpaced
    exact unexpired_of_covered (covered_process hcount)
      (DatesImages.process (limit_le hlimit) v 0 R hpaced) hpaced hbound

/-- With the defaults, the URLs last for two images, -/
theorem image_urls_outlive_requests_two :
    Unexpired defaults (slowVisit defaults 180000 2) 0
      ((process defaults 12 1 5).steps (slowVisit defaults 180000 2) 0 (picturedRest 2)) :=
  (image_urls_outlive_requests (by decide +kernel) (by decide +kernel)).mpr
    (Or.inl (by decide +kernel)) _ _ _ _ _ imageCount_picturedRest
    (paced_pictures _ _ (by decide +kernel) (by decide +kernel))

/-- and not for three. -/
theorem image_url_expires :
    ∃ (v : Visit Call Choice) (R : Rest Row Env), imageCount 12 R.db = some 3 ∧
      Paced defaults 180000 v 0 ((process defaults 12 1 5).steps v 0 R) ∧
      ¬ Unexpired defaults v 0 ((process defaults 12 1 5).steps v 0 R) :=
  ⟨slowVisit defaults 180000 3, picturedRest 3, imageCount_picturedRest,
    paced_pictures _ _ (by decide +kernel) (by decide +kernel),
    exists_expired (by decide +kernel) (by decide +kernel) (by decide +kernel)
      (by decide +kernel)⟩

end Result

end FastRep.Reports
