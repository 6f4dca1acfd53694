/-
Do the image URLs of a run outlive the requests they are handed to?

The URLs of a moderation are presigned together and handed out one request
after the other, behind the request for the text; so the last of `n` images
waits for `n + 1` requests. The URLs of a report are presigned right before
the one request that gets them.

# Time

Steps take the time of the requests among them (`Paced.le`), and no other
step takes any (`Paced.eq`). So a bound on the requests between two steps is
a bound on the time between them.

# The moderation

`Covered` bounds the requests since an image was presigned: each moderated
image was presigned before, with at most so many requests in between. It is a
property of lists of steps that composes with steps which moderate nothing,
on either side (`Covered.append_off`, `Covered.plain_append`), so it is proved
where the images are presigned and moderated (`covered_analyze`) and carried
to the whole run (`covered_process`).

# The report

`DatesImages` says of a program that the images of its report requests last
to the end of these. It holds of programs that ask for no report, and of the
one that presigns and asks at once (`DatesImages.presigned`), and it composes.

Both properties go through the run by one walk (`Composes`, `process_parts`).
-/
import FastRep.Reports.Proofs.ProcessCalls
import FastRep.Reports.Proofs.Attempting
import FastRep.Reports.Proofs.Confirming

namespace FastRep.Reports

open FastRep.Txn

variable {cfg : Config} {limit : Nat} {v : Visit Call Choice} {i i' : Nat} {R R' : Rest Row Env}
  {g tok : Id} {α β : Type}

-- ================================================================ the pace

section Pace

variable {l l' : List (Option Call)} {step : Option Call}

/-- A request ends within its timeout and before the job's. -/
theorem Takes.of_request {x : Call} {startedAt begins ends : Time}
    (h : Takes cfg limit startedAt (some x) begins ends) (hx : x.isRequest = true) :
    ends ≤ begins + limit ∧ ends ≤ startedAt + cfg.reportGenerationJobTimeoutMs := by
  unfold Takes at h
  rwa [Option.any_some, if_pos hx] at h

/-- A paced run is paced in both parts. -/
theorem Paced.append (h : Paced cfg limit v i (l ++ l')) :
    Paced cfg limit v i l ∧ Paced cfg limit v (i + l.length) l' := by
  constructor
  · intro j step hj
    refine h j step ?_
    rwa [List.getElem?_append_left (List.getElem?_eq_some_iff.mp hj).1]
  · intro j step hj
    have hstep := h (l.length + j) step (by
      rwa [List.getElem?_append_right (Nat.le_add_right _ _), Nat.add_sub_cancel_left])
    rwa [← Nat.add_assoc] at hstep

/-- The first step of a paced run takes its time. -/
theorem Paced.head (h : Paced cfg limit v i (step :: l)) :
    Takes cfg limit (v.times 0) step (v.times i) (v.times (i + 1)) := h 0 step rfl

/-- After its first step a paced run is paced. -/
theorem Paced.tail (h : Paced cfg limit v i (step :: l)) : Paced cfg limit v (i + 1) l :=
  (Paced.append (l := [step]) h).2

/-- The number of requests among some steps. -/
def requests (steps : List (Option Call)) : Nat :=
  steps.countP fun step => step.any Call.isRequest

/-- The requests of two parts are counted together. -/
theorem requests_append : requests (l ++ l') = requests l + requests l' :=
  List.countP_append

/-- A step counts if it is a request to the provider. -/
theorem requests_cons :
    requests (step :: l) = requests l + if step.any Call.isRequest then 1 else 0 :=
  List.countP_cons

/-- Steps take the time of the requests among them. -/
theorem Paced.le (h : Paced cfg limit v i l) :
    v.times (i + l.length) ≤ v.times i + requests l * limit := by
  induction l generalizing i with
  | nil => exact Nat.le_add_right _ _
  | cons step l ih =>
      have htail := ih h.tail
      have hhead := h.head
      have hlength : i + (step :: l).length = i + 1 + l.length := by
        rw [List.length_cons]
        omega
      rw [hlength, requests_cons]
      unfold Takes at hhead
      split at hhead
      next hreq =>
          rw [if_pos hreq, Nat.add_mul, Nat.one_mul]
          calc v.times (i + 1 + l.length) ≤ v.times (i + 1) + requests l * limit := htail
            _ ≤ v.times i + limit + requests l * limit := Nat.add_le_add_right hhead.1 _
            _ = v.times i + (requests l * limit + limit) := by
                rw [Nat.add_assoc, Nat.add_comm limit]
      next hreq =>
          rw [if_neg hreq, Nat.add_zero, ← hhead]
          exact htail

/-- Steps without a request take no time. -/
theorem Paced.eq (h : Paced cfg limit v i l) (hl : requests l = 0) :
    v.times (i + l.length) = v.times i := by
  refine Nat.le_antisymm ?_ (v.mono (Nat.le_add_right _ _))
  have hle := h.le
  rwa [hl, Nat.zero_mul, Nat.add_zero] at hle

end Pace

-- =========================================================== presigned URLs

/-- A presigning ends at once, in a URL that lasts its time. -/
theorem Ends.of_createPresignedGet {k : StorageKey} {r : PresignedGet}
    (h : (createPresignedGet cfg k).Ends v i R (.ok r) i' R') :
    r = ⟨k, v.times i + cfg.downloadUrlTtlSeconds * 1000⟩ ∧ i' = i + 1 := by
  obtain ⟨a, i₁, R₁, hawait, hsettle⟩ := Prog.Ends.of_bind h
  have ha : a = .ok r ∧ i' = i₁ := by
    cases a <;> cases hsettle
    exact ⟨rfl, rfl⟩
  obtain ⟨rfl, rfl⟩ := ha
  simp only [Prog.Ends, await, Prog.alone] at hawait
  split at hawait
  next b env hperform =>
      cases hawait
      refine ⟨?_, rfl⟩
      simp only [Services.perform] at hperform
      split at hperform
      next => simp [Call.throws] at hperform
      next => simp [Call.losable] at hperform
      next hfailed hlost =>
          cases hc : v.answer (.createPresignedGet k cfg.downloadUrlTtlSeconds) with
          | done =>
              rw [hc] at hperform
              cases hperform
              rfl
          | _ => simp [hc, Call.serve] at hperform
  next => cases hawait

/-- The steps of presigning a list of images, one for each. -/
def presignings (cfg : Config) (images : List GenerationSnapshotAsset) : List (Option Call) :=
  images.map fun image => some (.createPresignedGet image.storageKey cfg.downloadUrlTtlSeconds)

/-- Presigning URLs makes no request to the provider. -/
theorem requests_presignings (cfg : Config) (images : List GenerationSnapshotAsset) :
    requests (presignings cfg images) = 0 := by
  refine List.countP_eq_zero.mpr fun step hstep => ?_
  obtain ⟨image, -, rfl⟩ := List.mem_map.mp hstep
  simp [Call.isRequest]

/-- A call that throws its error is one step. -/
theorem steps_awaitOk {x : Call} : (awaitOk x).steps v i R = [some x] := by
  simp only [Reports.awaitOk, await, Bind.bind, Prog.handle, Prog.steps]
  split
  next r env _ => cases r <;> rfl
  next => rfl

/-- The images of a list are presigned at the same time. -/
theorem Ends.of_presignAll (limit : Nat) {images : List GenerationSnapshotAsset}
    {references : List (GenerationSnapshotAsset × PresignedGet)}
    (h : (presignAll cfg images).Ends v i R (.ok references) i' R') :
    (presignAll cfg images).steps v i R = presignings cfg images ∧
      references.map (·.2.url) = images.map (·.storageKey) ∧
      (Paced cfg limit v i (presignings cfg images) → ∀ reference ∈ references,
        reference.2.expiresAt = v.times i + cfg.downloadUrlTtlSeconds * 1000) := by
  induction images generalizing i R references with
  | nil =>
      cases h
      exact ⟨rfl, rfl, fun _ _ h => nomatch h⟩
  | cons image rest ih =>
      obtain ⟨reference, i₁, R₁, hfirst, h₁⟩ := Prog.Ends.of_bind h
      obtain ⟨references', i₂, R₂, hrest, h₂⟩ := Prog.Ends.of_bind h₁
      cases h₂
      obtain ⟨hsteps, hurls, hexpires⟩ := ih hrest
      obtain ⟨rfl, rfl⟩ := Ends.of_createPresignedGet hfirst
      refine ⟨?_, ?_, fun hpaced => ?_⟩
      · refine hfirst.steps_bind.trans ?_
        rw [hrest.steps_bind, hsteps]
        show (Reports.awaitOk _).steps v i R ++ (_ ++ []) = _
        rw [steps_awaitOk, List.append_nil]
        rfl
      · rw [List.map_cons, List.map_cons, hurls]
      · have hnow : v.times (i + 1) = v.times i := hpaced.head
        intro r hr
        rcases List.mem_cons.mp hr with rfl | hr
        · rfl
        · rw [hexpires hpaced.tail r hr, hnow]

-- ======================================================= the report's request

section Report

variable {l l' : List (Option Call)} {p : Async α}

/-- The images of a report's request last till its end. -/
def InTime (v : Visit Call Choice) (i : Nat) (steps : List (Option Call)) : Prop :=
  ∀ (j : Nat) r, steps[j]? = some (some (.generateReport r)) →
    ∀ image ∈ r.images, v.times (i + j + 1) ≤ image.referenceExpiresAt

/-- Calls are in time where they are in both parts. -/
theorem InTime.append (h : InTime v i l) (h' : InTime v (i + l.length) l') :
    InTime v i (l ++ l') := by
  intro j r hj image himage
  by_cases hlt : j < l.length
  · rw [List.getElem?_append_left hlt] at hj
    exact h j r hj image himage
  · rw [List.getElem?_append_right (not_lt.mp hlt)] at hj
    have hlast := h' _ r hj image himage
    rwa [Nat.add_assoc i, Nat.add_sub_cancel' (not_lt.mp hlt)] at hlast

/-- A call that is no report's request. -/
def Call.OffReport (x : Call) : Prop := ∀ r, x ≠ .generateReport r

/-- A plain call neither presigns nor asks for a report. -/
theorem Call.Plain.offReport {x : Call} (h : x.Plain) : x.OffReport := by
  rintro r rfl
  cases h

/-- Where no report is asked for, none is late. -/
theorem InTime.of_offReport (h : ∀ x, some x ∈ l → x.OffReport) : InTime v i l :=
  fun _ r hj => absurd rfl (h _ (List.mem_of_getElem? hj) r)

/-- Wherever the steps of a program take the time they may, the images of its
report requests last. -/
def DatesImages (cfg : Config) (limit : Nat) (p : Async α) : Prop :=
  ∀ v i R, Paced cfg limit v i (p.steps v i R) → InTime v i (p.steps v i R)

/-- A program that does not ask for a report passes no URL to one. -/
theorem DatesImages.of_calls (h : p.Calls Call.OffReport) : DatesImages cfg limit p :=
  fun _ _ _ _ => InTime.of_offReport fun _ hx => h.of_mem hx

/-- A program passes fresh URLs to its reports where its parts do. -/
theorem DatesImages.handle {f : α → Async β} {q : Error → Async β} (h : DatesImages cfg limit p)
    (hf : ∀ a, DatesImages cfg limit (f a)) (hq : ∀ e, DatesImages cfg limit (q e)) :
    DatesImages cfg limit (p.handle f q) := by
  intro v i R
  refine Prog.steps_handle_cases (P := fun l => Paced cfg limit v i l → InTime v i l) (h v i R)
    (fun a i' R' hends hpaced => ?_) fun e i' R' hends hpaced => ?_
  · obtain ⟨hfirst, hrest⟩ := hpaced.append
    rw [← hends.index] at hrest
    exact (h v i R hfirst).append (hends.index ▸ hf a v i' R' hrest)
  · obtain ⟨hfirst, hrest⟩ := hpaced.append
    rw [← hends.index] at hrest
    exact (h v i R hfirst).append (hends.index ▸ hq e v i' R' hrest)

theorem DatesImages.bind {f : α → Async β} (h : DatesImages cfg limit p)
    (hf : ∀ a, DatesImages cfg limit (f a)) : DatesImages cfg limit (p >>= f) :=
  DatesImages.handle h hf fun _ => DatesImages.of_calls Prog.Calls.throw

theorem Calls.presignAll {images : List GenerationSnapshotAsset} {ok : Call → Prop}
    (hok : ∀ k ttl, ok (.createPresignedGet k ttl)) : (presignAll cfg images).Calls ok := by
  induction images with
  | nil => exact Prog.Calls.pure
  | cons image rest ih =>
      exact Prog.Calls.bind (Calls.awaitOk (hok _ _)) fun _ =>
        Prog.Calls.bind ih fun _ => Prog.Calls.pure

/-- A paid call comes first, and what follows it after. -/
theorem steps_calling (g : Id) (operation : GenerationProviderOperation) (assetId : Option Id)
    (x : Call) {f : x.Value → Async β} {ok : Call → Prop} (hf : ∀ a, (f a).Calls ok) :
    ∃ tail, (calling g operation assetId (awaitOk x) >>= f).steps v i R = some x :: tail ∧
      ∀ y, some y ∈ tail → ok y := by
  have hfirst : (calling g operation assetId (awaitOk x)).steps v i R = [some x] := steps_awaitOk
  refine Prog.steps_handle_cases (P := fun l => ∃ tail, l = some x :: tail ∧
    ∀ y, some y ∈ tail → ok y) ⟨[], hfirst, by simp⟩ (fun a i' R' _ => ?_) fun e i' R' _ => ?_
  · exact ⟨_, by rw [hfirst]; rfl, fun y hy => (hf a).of_mem hy⟩
  · exact ⟨[], by rw [hfirst]; rfl, by simp⟩

/-- A request made right after the presigning of its images. -/
theorem DatesImages.presigned (images : List GenerationSnapshotAsset)
    (q : List (GenerationSnapshotAsset × PresignedGet) → ProviderReportRequest)
    {f : ProviderResult ReportResult → Async β}
    (hlimit : limit ≤ cfg.downloadUrlTtlSeconds * 1000)
    (hrequest : ∀ references, (q references).images = references.map fun r =>
      { assetId := r.1.id, url := r.2.url, mimeType := r.1.verifiedMimeType
        referenceExpiresAt := r.2.expiresAt })
    (hf : ∀ a, (f a).Calls Call.OffReport) :
    DatesImages cfg limit (presignAll cfg images >>= fun references =>
      calling g .reportGeneration none (awaitOk (.generateReport (q references)))
        >>= f) := by
  intro v i R
  have hpresign : (presignAll cfg images).Calls Call.OffReport :=
    Calls.presignAll fun _ _ _ => by simp
  refine Prog.steps_handle_cases (P := fun l => Paced cfg limit v i l → InTime v i l)
    (fun _ => InTime.of_offReport fun _ hx => hpresign.of_mem hx)
    (fun references i' R' hends hpaced => ?_) fun e i' R' hends hpaced => ?_
  · obtain ⟨hfirst, hrest⟩ := hpaced.append
    obtain ⟨hsteps, -, hexpires⟩ := Ends.of_presignAll limit hends
    have hdates := hexpires (hsteps ▸ hfirst)
    have hnow : v.times i' = v.times i := by
      rw [hends.index]
      exact hfirst.eq (hsteps ▸ requests_presignings cfg images)
    rw [← hends.index] at hrest
    refine (InTime.of_offReport fun _ hx => hpresign.of_mem hx).append ?_
    rw [← hends.index]
    obtain ⟨tail, htail, hquiet⟩ := steps_calling (v := v) (i := i') (R := R') g .reportGeneration none
      (.generateReport (q references)) hf
    rw [htail] at hrest ⊢
    refine InTime.append (l := [_]) (fun j r hj image himage => ?_) (InTime.of_offReport hquiet)
    obtain ⟨rfl, hr⟩ : j = 0 ∧ q references = r := by
      cases j with
      | zero => exact ⟨rfl, by simpa using hj⟩
      | succ j => simp at hj
    rw [← hr, hrequest] at himage
    obtain ⟨reference, hreference, rfl⟩ := List.mem_map.mp himage
    calc v.times (i' + 0 + 1) ≤ v.times i' + limit := (hrest.head.of_request rfl).1
      _ ≤ v.times i + cfg.downloadUrlTtlSeconds * 1000 := by
          rw [hnow]
          exact Nat.add_le_add_left hlimit _
      _ = reference.2.expiresAt := (hdates reference hreference).symm
  · rw [show (Prog.throw e : Async β).steps v i' R' = [] from rfl, List.append_nil]
    exact InTime.of_offReport fun _ hx => hpresign.of_mem hx

/-- The request for a report passes the URLs that were presigned just before
it. -/
theorem DatesImages.requestReport {run : Run} {sourceText : SourceText}
    {documents : List ProviderDocumentInput} (hlimit : limit ≤ cfg.downloadUrlTtlSeconds * 1000) :
    DatesImages cfg limit (requestReport cfg run sourceText documents) := by
  refine DatesImages.bind (DatesImages.of_calls Prog.Calls.serializable) fun reportAttempt => ?_
  refine DatesImages.handle ?_ (fun _ => DatesImages.of_calls Prog.Calls.pure) fun error =>
    DatesImages.of_calls ?_
  · refine DatesImages.bind (DatesImages.of_calls Calls.assertBeforeDeadline) fun _ => ?_
    refine DatesImages.presigned run.imageAssets (fun references => {
      sourceText
      images := references.map fun r =>
        { assetId := r.1.id, url := r.2.url, mimeType := r.1.verifiedMimeType
          referenceExpiresAt := r.2.expiresAt }
      documents
      safetyIdentifier := run.generation.userId
      maxOutputTokens := cfg.aiMaxOutputTokens }) hlimit (fun _ => rfl) fun result => ?_
    exact Prog.Calls.bind Calls.parseOrThrow fun _ =>
      Prog.Calls.bind Calls.validateImageReferences fun _ =>
        Prog.Calls.bind Prog.Calls.transaction fun _ => Prog.Calls.pure
  · split
    next => exact Prog.Calls.bind Calls.failAttempt fun _ => Prog.Calls.throw
    next => exact Prog.Calls.bind Calls.failAttempt fun _ => Prog.Calls.throw

end Report

-- ========================================================== the moderation

section Moderation

variable {n m : Nat} {l l' : List (Option Call)} {p : Async α} {urls : List StorageKey}

/-- Each moderated image was presigned before, and with at most so many
requests since. -/
def Covered (cfg : Config) (n : Nat) (steps : List (Option Call)) : Prop :=
  ∀ earlier input later k, steps = earlier ++ some (.moderateInput input) :: later →
    .imageUrl k ∈ input →
    some (.createPresignedGet k cfg.downloadUrlTtlSeconds) ∈ earlier ∧
    ∀ first k' ttl between, earlier = first ++ some (.createPresignedGet k' ttl) :: between →
      requests between ≤ n

/-- A call that is no moderation request. -/
def Call.OffModeration (x : Call) : Prop := ∀ input, x ≠ .moderateInput input

theorem Call.Plain.offModeration {x : Call} (h : x.Plain) : x.OffModeration := by
  rintro input rfl
  cases h

/-- Where nothing is moderated, everything is covered. -/
theorem Covered.of_offModeration (h : ∀ x, some x ∈ l → x.OffModeration) : Covered cfg n l :=
  fun _ input _ _ heq _ => absurd rfl (h (.moderateInput input) (by simp [heq]) input)

/-- An element of the second list only. -/
theorem split_right {γ : Type} {l l' b a : List γ} {x : γ} (h : l ++ l' = b ++ x :: a)
    (hx : x ∉ l) : ∃ c, b = l ++ c ∧ l' = c ++ x :: a := by
  rcases List.append_eq_append_iff.mp h with ⟨c, hb, hl'⟩ | ⟨c, hl, ha⟩
  · exact ⟨c, hb, hl'⟩
  · cases c with
    | nil => exact ⟨[], by simpa using hl.symm, by simpa using ha.symm⟩
    | cons y c =>
        cases ha
        exact absurd (by simp [hl]) hx

/-- An element of the first list only. -/
theorem split_left {γ : Type} {l l' b a : List γ} {x : γ} (h : l ++ l' = b ++ x :: a)
    (hx : x ∉ l') : ∃ c, l = b ++ x :: c ∧ a = c ++ l' := by
  rcases List.append_eq_append_iff.mp h with ⟨c, hb, hl'⟩ | ⟨c, hl, ha⟩
  · exact absurd (by simp [hl']) hx
  · cases c with
    | nil => exact absurd (by simp [← (List.nil_append l' ▸ ha)]) hx
    | cons y c =>
        cases ha
        exact ⟨c, hl, rfl⟩

/-- What comes after the moderation need not be covered. -/
theorem Covered.append_off (h : Covered cfg n l) (hoff : ∀ x, some x ∈ l' → x.OffModeration) :
    Covered cfg n (l ++ l') := by
  intro earlier input later k heq hk
  obtain ⟨c, hl, -⟩ := split_left heq fun hmem => hoff _ hmem input rfl
  exact h earlier input c k hl hk

theorem Covered.plain_append (hplain : ∀ x, some x ∈ l → x.Plain) (h : Covered cfg n l') :
    Covered cfg n (l ++ l') := by
  intro earlier input later k heq hk
  obtain ⟨c, rfl, hl'⟩ := split_right heq fun hmem => nomatch hplain _ hmem
  obtain ⟨hpresigned, hbetween⟩ := h c input later k hl' hk
  refine ⟨List.mem_append_right _ hpresigned, fun first k' ttl between hfirst => ?_⟩
  obtain ⟨c', rfl, hc⟩ := split_right hfirst fun hmem => nomatch hplain _ hmem
  exact hbetween c' k' ttl between hc

/-- A call of a moderation of some URLs: no other URL is handed out. -/
structure Call.Moderates (urls : List StorageKey) (x : Call) : Prop where
  presigns : ∀ k ttl, x ≠ .createPresignedGet k ttl
  moderates : ∀ input, x = .moderateInput input → ∀ k, .imageUrl k ∈ input → k ∈ urls
  offReport : x.OffReport

/-- Presignings, and a moderation of the images after them. -/
theorem Covered.moderation {images : List GenerationSnapshotAsset}
    (hcalls : ∀ x, some x ∈ l → x.Moderates (images.map (·.storageKey)))
    (hcount : requests l ≤ n + 1) : Covered cfg n (presignings cfg images ++ l) := by
  have hpresigns : ∀ x, some x ∈ presignings cfg images →
      ∃ k, x = .createPresignedGet k cfg.downloadUrlTtlSeconds := by
    intro x hx
    obtain ⟨image, -, hx⟩ := List.mem_map.mp hx
    exact ⟨_, (Option.some.inj hx).symm⟩
  intro earlier input later k heq hk
  obtain ⟨c, rfl, hl⟩ := split_right heq fun hmem => nomatch hpresigns _ hmem
  refine ⟨List.mem_append_left _ ?_, fun first k' ttl between hfirst => ?_⟩
  · have hkey := (hcalls (.moderateInput input) (by simp [hl])).moderates input rfl k hk
    obtain ⟨image, himage, rfl⟩ := List.mem_map.mp hkey
    exact List.mem_map.mpr ⟨image, himage, rfl⟩
  · have hc : ∀ x, some x ∈ c → x ≠ .createPresignedGet k' ttl := fun x hx =>
      (hcalls x (by simp [hl, hx])).presigns k' ttl
    obtain ⟨c', hpre, rfl⟩ := split_left hfirst fun hmem => hc _ hmem rfl
    have hzero := requests_presignings cfg images
    rw [hpre, requests_append, requests_cons] at hzero
    have hone : (some (Call.moderateInput input)).any Call.isRequest = true := rfl
    rw [hl, requests_append, requests_cons, if_pos hone] at hcount
    rw [requests_append]
    omega

/-- However it runs, a program makes at most so many requests. -/
def AtMost (n : Nat) (p : Async α) : Prop := ∀ v i R, requests (p.steps v i R) ≤ n

/-- A program that makes no request makes at most none. -/
theorem AtMost.of_calls (h : p.Calls fun x => x.isRequest = false) : AtMost 0 p := by
  intro v i R
  refine Nat.le_of_eq (List.countP_eq_zero.mpr fun step hstep => ?_)
  cases step with
  | none => simp
  | some x => simp [h.of_mem hstep]

/-- A call makes at most one request. -/
theorem AtMost.awaitOk {x : Call} : AtMost 1 (awaitOk x) := by
  intro v i R
  rw [steps_awaitOk]
  exact List.countP_le_length

/-- The requests of a program are those of its parts. -/
theorem AtMost.handle {f : α → Async β} {q : Error → Async β} (h : AtMost m p)
    (hf : ∀ a, AtMost n (f a)) (hq : ∀ e, AtMost n (q e)) : AtMost (m + n) (p.handle f q) := by
  intro v i R
  refine Prog.steps_handle_cases (P := fun l => requests l ≤ m + n)
    ((h v i R).trans (Nat.le_add_right m n)) (fun a i' R' _ => ?_) fun e i' R' _ => ?_
  · rw [requests_append]
    exact Nat.add_le_add (h v i R) (hf a v i' R')
  · rw [requests_append]
    exact Nat.add_le_add (h v i R) (hq e v i' R')

theorem AtMost.bind {f : α → Async β} (h : AtMost m p) (hf : ∀ a, AtMost n (f a)) :
    AtMost (m + n) (p >>= f) :=
  AtMost.handle h hf fun _ _ _ _ => Nat.zero_le _

/-- A moderation makes at most one request for each batch. -/
theorem AtMost.moderateBatches {indices : List Nat} {providerRequestId : Option String} :
    AtMost indices.length (moderateBatches urls indices providerRequestId) := by
  induction indices generalizing providerRequestId with
  | nil => exact AtMost.of_calls Prog.Calls.pure
  | cons batchIndex rest ih =>
      rw [List.length_cons, Nat.add_comm]
      refine AtMost.bind AtMost.awaitOk fun result => ?_
      split
      next => exact fun _ _ _ => Nat.zero_le _
      next => exact ih

theorem AtMost.providerModerate {text : SourceText} :
    AtMost (1 + urls.length) (Provider.moderate text urls) := by
  refine AtMost.bind AtMost.awaitOk fun result => ?_
  split
  next => exact fun _ _ _ => Nat.zero_le _
  next =>
      have hcount : (List.range (moderationBatchCount urls)).length = urls.length := by
        rw [List.length_range, moderationBatchCount, moderationMaxImagesPerRequest,
          Nat.add_sub_cancel, Nat.div_one]
      exact hcount ▸ AtMost.moderateBatches

/-- A moderation sends nothing but the images it is given. -/
theorem Calls.moderateBatches {indices : List Nat} {providerRequestId : Option String} :
    (moderateBatches urls indices providerRequestId).Calls (·.Moderates urls) := by
  induction indices generalizing providerRequestId with
  | nil => exact Prog.Calls.pure
  | cons batchIndex rest ih =>
      refine Prog.Calls.bind (Calls.awaitOk ⟨by simp, fun input hinput k hk => ?_,
        fun r => by simp⟩) fun result => ?_
      · cases hinput
        obtain ⟨url, hurl, hk⟩ := List.mem_map.mp hk
        cases hk
        exact List.mem_of_mem_drop (List.mem_of_mem_take hurl)
      · split
        next => exact Prog.Calls.pure
        next => exact ih

theorem Calls.providerModerate {text : SourceText} :
    (Provider.moderate text urls).Calls (·.Moderates urls) := by
  refine Prog.Calls.bind (Calls.awaitOk ⟨by simp, fun input hinput k hk => ?_,
    fun r => by simp⟩) fun result => ?_
  · cases hinput
    simp at hk
  · split
    next => exact Prog.Calls.pure
    next => exact Calls.moderateBatches

/-- A moderation with its attempt: the request for the text and one for each
image, and nothing else that carries a URL. -/
theorem moderate_bounds (cfg : Config) (run : Run) (text : SourceText) (urls : List StorageKey) :
    (moderate cfg run text urls).Calls (·.Moderates urls) ∧
      AtMost (1 + urls.length) (moderate cfg run text urls) := by
  have hfail : ∀ {ok : Call → Prop} (id : AttemptKey) (code : String) (request : Option String)
      (error : Error), (do
        failAttempt id code run.processingToken request
        .throw error : Async Unit).Calls ok := by
    intro ok id code request error
    exact Prog.Calls.bind Calls.failAttempt fun _ => Prog.Calls.throw
  have hafter : ∀ {ok : Call → Prop} (id : AttemptKey) (moderation : ProviderResult Bool),
      (if moderation.value then
        .throw (aiProviderError "CONTENT_NOT_PROCESSABLE" false
          "The supplied content cannot be processed")
      else
        completeOwned run.generationId id run.processingToken
          ⟨moderation.providerRequestId, none, none, none⟩ : Async Unit).Calls ok := by
    intro ok id moderation
    split
    next => exact Prog.Calls.throw
    next => exact Prog.Calls.transaction
  constructor
  · refine Prog.Calls.bind Prog.Calls.transaction fun completed => ?_
    split
    next => exact Prog.Calls.pure
    next =>
        refine Prog.Calls.bind Calls.assertBeforeDeadline fun _ => ?_
        refine Prog.Calls.bind Prog.Calls.serializable fun id => ?_
        refine Prog.Calls.catch ?_ fun error => ?_
        · exact Prog.Calls.bind (Prog.Calls.enter Calls.providerModerate) (hafter id)
        · cases error with
          | provider e => exact hfail id _ _ _
          | _ => exact hfail id _ _ _
  · rw [← Nat.zero_add (1 + urls.length)]
    refine AtMost.bind (AtMost.of_calls Prog.Calls.transaction) fun completed => ?_
    split
    next => exact fun _ _ _ => Nat.zero_le _
    next =>
        rw [← Nat.zero_add (1 + urls.length)]
        refine AtMost.bind (AtMost.of_calls Calls.assertBeforeDeadline) fun _ => ?_
        rw [← Nat.zero_add (1 + urls.length)]
        refine AtMost.bind (AtMost.of_calls Prog.Calls.serializable) fun id => ?_
        rw [← Nat.add_zero (1 + urls.length)]
        refine AtMost.handle ?_ (fun _ => AtMost.of_calls Prog.Calls.pure) fun error => ?_
        · rw [← Nat.add_zero (1 + urls.length)]
          exact AtMost.bind AtMost.providerModerate fun moderation =>
            AtMost.of_calls (hafter id moderation)
        · cases error with
          | provider e => exact AtMost.of_calls (hfail id _ _ _)
          | _ => exact AtMost.of_calls (hfail id _ _ _)

end Moderation

-- ================================================================ the run

section Process

variable {n a m : Nat} {p : Async α}

/-- A claim leaves the snapshot of the generation alone. -/
theorem claim_inputSnapshot {claimed : Bool} (h : (claim cfg g tok).Ends v i R (.ok claimed) i' R')
    {x : ReportGeneration} (hx : generation? R'.db g = some x) :
    ∃ y, generation? R.db g = some y ∧ y.inputSnapshot = x.inputSnapshot := by
  obtain ⟨now, i₁, R₁, hclock, hclaim⟩ := Prog.Ends.of_bind h
  cases hclock
  obtain ⟨hresult, hleft⟩ := Prog.Ends.of_tx hclaim
  rw [hleft, Tx.left_of_ok hresult] at hx
  refine TxEnds.run (Q := fun _ ws => ∀ x, generation? (applyAll ws R.db) g = some x →
    ∃ y, generation? R.db g = some y ∧ y.inputSnapshot = x.inputSnapshot) ?_ hresult x hx
  refine TxEnds.updateRow (fun _ => TxEnds.pure fun x hx => ⟨x, hx, rfl⟩) fun r hr _ _ => ?_
  obtain ⟨y, rfl, hid⟩ := find?_generation hr
  have hkept : ∀ {d : Db Row}, generation? d g = generation? (R.db.put (.generation
      (y.claimed (v.times i) (v.times i + cfg.reportGenerationJobTimeoutMs) tok))) g →
      ∀ x, generation? d g = some x →
      ∃ y, generation? R.db g = some y ∧ y.inputSnapshot = x.inputSnapshot := by
    intro d hd x hx
    have hput := generation?_eq_some.mpr (Db.find?_put_self R.db (Row.generation
      (y.claimed (v.times i) (v.times i + cfg.reportGenerationJobTimeoutMs) tok)))
    have hidy : (y.claimed (v.times i) (v.times i + cfg.reportGenerationJobTimeoutMs) tok).id = g :=
      hid
    rw [hd, ← hidy, hput] at hx
    cases hx
    exact ⟨y, generation?_eq_some.mpr hr, rfl⟩
  refine TxEnds.selectOrThrow fun generation _ => ?_
  refine TxEnds.updateRow (fun _ => TxEnds.pure (hkept rfl)) fun r hr _ _ => TxEnds.pure ?_
  obtain ⟨z, rfl, -⟩ := find?_report hr
  refine hkept ?_
  rw [applyAll_append]
  exact generation?_put_of_ne (by simp [setReport])

theorem Covered.bind_plain {f : α → Async β} (h : p.Calls Call.Plain)
    (hf : ∀ a i' R', p.Ends v i R (.ok a) i' R' → Covered cfg n ((f a).steps v i' R')) :
    Covered cfg n ((p >>= f).steps v i R) := by
  refine Prog.steps_handle_cases (P := Covered cfg n)
    (Covered.of_offModeration fun x hx => (h.of_mem hx).offModeration)
    (fun a i' R' hends => (hf a i' R' hends).plain_append fun x hx => h.of_mem hx)
    fun e i' R' _ => ?_
  rw [show (Prog.throw e : Async β).steps v i' R' = [] from rfl, List.append_nil]
  exact Covered.of_offModeration fun x hx => (h.of_mem hx).offModeration

/-- Handlers without a moderation do not count. -/
theorem Covered.handle_off {f : α → Async β} {q : Error → Async β}
    (h : Covered cfg n (p.steps v i R)) (hf : ∀ a, (f a).Calls Call.OffModeration)
    (hq : ∀ e, (q e).Calls Call.OffModeration) : Covered cfg n ((p.handle f q).steps v i R) :=
  Prog.steps_handle_cases (P := Covered cfg n) h
    (fun a _ _ _ => h.append_off fun _ hx => (hf a).of_mem hx)
    fun e _ _ _ => h.append_off fun _ hx => (hq e).of_mem hx

/-- The request for a report moderates nothing. -/
theorem Calls.requestReport {run : Run} {text : SourceText}
    {documents : List ProviderDocumentInput} :
    (requestReport cfg run text documents).Calls Call.OffModeration := by
  refine Prog.Calls.bind Prog.Calls.serializable fun id => Prog.Calls.catch ?_ fun error => ?_
  · refine Prog.Calls.bind Calls.assertBeforeDeadline fun _ => ?_
    refine Prog.Calls.bind (Calls.presignAll fun _ _ _ => by simp) fun references => ?_
    refine Prog.Calls.bind (Prog.Calls.enter (Calls.awaitOk fun _ => by simp)) fun result => ?_
    exact Prog.Calls.bind Calls.parseOrThrow fun _ =>
      Prog.Calls.bind Calls.validateImageReferences fun _ =>
        Prog.Calls.bind Prog.Calls.transaction fun _ => Prog.Calls.pure
  · split
    next => exact Prog.Calls.bind Calls.failAttempt fun _ => Prog.Calls.throw
    next => exact Prog.Calls.bind Calls.failAttempt fun _ => Prog.Calls.throw

theorem Calls.generateContent {run : Run} {text : SourceText} {stored : Option ReportResult} :
    (generateContent cfg run text stored).Calls Call.OffModeration := by
  cases stored with
  | some structuredResult => exact Prog.Calls.pure
  | none =>
      refine Prog.Calls.bind (Calls.uploadDocuments.mono fun _ => Call.Plain.offModeration)
        fun documents => ?_
      split
      next => exact Prog.Calls.pure
      next => exact Prog.Calls.bind (Prog.Calls.attempt Calls.requestReport) fun _ =>
        Prog.Calls.pure

/-- The moderation of a run is covered: it presigns the images once, and then
makes one request for each batch. -/
theorem covered_analyze {deadline : Time}
    (himages : ∀ x s, generation? R.db g = some x → x.inputSnapshot = some s →
      (s.assets.filter fun a => a.type = .image).length = n) :
    Covered cfg n ((analyze cfg g tok deadline).steps v i R) := by
  refine Covered.bind_plain Prog.Calls.transaction fun generation i₁ R₁ hload => ?_
  have hgeneration : generation? R.db g = some generation := by
    have hresult := (Prog.Ends.of_tx hload).1
    simp only [selectOrThrow, Tx.run] at hresult
    cases hfound : generation? R.db g <;> simp_all
  refine Covered.bind_plain Calls.parseSnapshot fun snapshot i₂ R₂ hparse => ?_
  have hsnapshot : generation.inputSnapshot = some snapshot := by
    unfold parseSnapshot at hparse
    split at hparse
    next s hs =>
        cases hparse
        exact (Option.filter_eq_some_iff.mp hs).1
    next => cases hparse
  refine Covered.bind_plain Calls.updateProgress fun _ i₃ R₃ _ => ?_
  refine Covered.bind_plain Calls.transcribeAll fun transcripts i₄ R₄ _ => ?_
  refine Covered.bind_plain Calls.updateProgress fun _ i₅ R₅ _ => ?_
  refine Covered.bind_plain Calls.assertSupportedImageMimeTypes fun _ i₆ R₆ _ => ?_
  refine Covered.bind_plain Calls.assertBeforeDeadline fun _ i₇ R₇ _ => ?_
  -- the images are presigned, and the moderation comes right after
  let run : Run := ⟨g, tok, deadline, generation, snapshot⟩
  have hlength : run.imageAssets.length = n := himages generation snapshot hgeneration hsnapshot
  have hoff : ∀ x, some x ∈ (presignAll cfg run.imageAssets).steps v i₇ R₇ → x.OffModeration :=
    fun x hx => (Calls.presignAll fun _ _ _ => by simp).of_mem hx
  refine Prog.steps_handle_cases (P := Covered cfg n) (Covered.of_offModeration hoff)
    (fun references i₈ R₈ hpresign => ?_) fun e i₈ R₈ _ => ?_
  · obtain ⟨hsteps, hurls, -⟩ := Ends.of_presignAll 0 hpresign
    obtain ⟨hcalls, hcount⟩ := moderate_bounds cfg run
      (buildSourceText snapshot transcripts) (references.map (·.2.url))
    rw [hurls] at hcalls hcount
    rw [List.length_map, hlength, Nat.add_comm] at hcount
    have hmoderated : Covered cfg n (presignings cfg run.imageAssets ++
        (moderate cfg run (buildSourceText snapshot transcripts)
          (run.imageAssets.map (·.storageKey))).steps v i₈ R₈) :=
      Covered.moderation (fun x hx => hcalls.of_mem hx) (hcount v i₈ R₈)
    rw [hsteps, hurls]
    refine Prog.steps_handle_cases
      (P := fun l => Covered cfg n (presignings cfg run.imageAssets ++ l)) hmoderated
      (fun _ i₉ R₉ _ => ?_) fun e i₉ R₉ _ => ?_
    · rw [← List.append_assoc]
      refine hmoderated.append_off fun x hx => Prog.Calls.of_mem
        (Prog.Calls.bind Calls.updateProgress fun _ => ?_) hx
      split
      next => exact Prog.Calls.pure
      next => exact Prog.Calls.bind Calls.parseOrThrow fun _ => Prog.Calls.pure
    · rw [show (Prog.throw e : Async _).steps v i₉ R₉ = [] from rfl, List.append_nil]
      exact hmoderated
  · rw [show (Prog.throw e : Async _).steps v i₈ R₈ = [] from rfl, List.append_nil]
    exact Covered.of_offModeration hoff

/-- A property of programs that holds where no URL is handed on, and of what
is put together from programs that have it. -/
structure Composes (M : ∀ {α : Type}, Async α → Prop) : Prop where
  plain : ∀ {α : Type} {p : Async α}, p.Calls Call.Plain → M p
  handle : ∀ {α β : Type} {p : Async α} {f : α → Async β} {q : Error → Async β}, M p →
    (∀ a, M (f a)) → (∀ e, M (q e)) → M (p.handle f q)

/-- A property that composes holds of a sequence where it holds of its parts.
-/
theorem Composes.bind {M : ∀ {α : Type}, Async α → Prop} (hM : Composes M) {f : α → Async β}
    (h : M p) (hf : ∀ a, M (f a)) : M (p >>= f) :=
  hM.handle h hf fun _ => hM.plain Prog.Calls.throw

theorem Composes.attempt {M : ∀ {α : Type}, Async α → Prop} (hM : Composes M) (h : M p) :
    M p.attempt :=
  hM.handle h (fun _ => hM.plain Prog.Calls.pure) fun _ => hM.plain Prog.Calls.pure

theorem composes_offModeration : Composes fun p => p.Calls Call.OffModeration where
  plain := fun h => h.mono fun _ => Call.Plain.offModeration
  handle := Prog.Calls.handle

theorem composes_datesImages (cfg : Config) (limit : Nat) : Composes (DatesImages cfg limit) where
  plain := fun h => DatesImages.of_calls (h.mono fun _ => Call.Plain.offReport)
  handle := DatesImages.handle

/-- The try block is the analysis, and then the content and what hands no URL
on. -/
theorem tryBlock_parts (cfg : Config) (g tok : Id) (deadline : Time) :
    ∃ f, tryBlock cfg g tok deadline = (analyze cfg g tok deadline).attempt >>= f ∧
      ∀ {M : ∀ {α : Type}, Async α → Prop}, Composes M →
        (∀ run text stored, M (generateContent cfg run text stored)) →
        ∀ analyzed, M (f analyzed) := by
  refine ⟨_, rfl, fun hM hcontent analyzed => ?_⟩
  split
  next => exact hM.plain Prog.Calls.pure
  next =>
      refine hM.bind (hcontent _ _ _) fun content => hM.plain ?_
      split
      next => exact Prog.Calls.pure
      next =>
          refine Prog.Calls.bind (Prog.Calls.attempt Calls.renderOutput) fun rendered => ?_
          split
          next => exact Prog.Calls.pure
          next =>
              refine Prog.Calls.bind (Prog.Calls.attempt (Prog.Calls.bind Calls.uploadObject
                fun _ => Prog.Calls.transaction)) fun published => ?_
              split
              next => exact Prog.Calls.pure
              next => exact Prog.Calls.pure

/-- A run is its claim, the try block, and what hands no URL on. -/
theorem process_parts (cfg : Config) (g : Id) (a m : Nat) :
    ∃ f : Id → Bool → Async GenerationProcessResult,
      (process cfg g a m = randomUUID >>= fun tok => claim cfg g tok >>= f tok) ∧
      (∀ tok, (f tok false).Calls Call.Plain) ∧
      ∀ tok, ∃ q, (f tok true = Prog.clock >>= fun startedAt =>
          tryBlock cfg g tok (startedAt + cfg.reportGenerationJobTimeoutMs) >>= q) ∧
        ∀ outcome, (q outcome).Calls Call.Plain := by
  refine ⟨_, rfl, fun tok => Calls.resultAfterClaimLoss, fun tok => ⟨_, rfl, fun outcome => ?_⟩⟩
  refine Prog.Calls.bind (Prog.Calls.attempt ?_) fun result =>
    Prog.Calls.bind Calls.deleteTemporaryFiles fun _ => Prog.Calls.settle
  split
  next => exact Prog.Calls.pure
  next => exact Calls.settleError

/-- The images of a whole run are covered. -/
theorem covered_process (h : imageCount g R.db = some n) :
    Covered cfg n ((process cfg g a m).steps v i R) := by
  obtain ⟨x, hx, s, hs, hn⟩ : ∃ x, generation? R.db g = some x ∧ ∃ s, x.inputSnapshot = some s ∧
      (s.assets.filter fun a => a.type = .image).length = n := by
    simpa [imageCount, Option.bind_eq_some_iff] using h
  obtain ⟨f, hprocess, hlost, hclaimed⟩ := process_parts cfg g a m
  rw [hprocess]
  show Covered cfg n ((claim cfg g R.nextId >>= f R.nextId).steps v i
    { R with nextId := R.nextId + 1 })
  refine Covered.bind_plain Calls.claim fun claimed i₁ R₁ hclaim => ?_
  have himages : ∀ y s', generation? R₁.db g = some y → y.inputSnapshot = some s' →
      (s'.assets.filter fun a => a.type = .image).length = n := by
    intro y s' hy hs'
    obtain ⟨z, hz, hsnapshot⟩ := claim_inputSnapshot hclaim hy
    cases hx.symm.trans hz
    cases hs.symm.trans (hsnapshot.trans hs')
    exact hn
  cases claimed with
  | false => exact Covered.of_offModeration fun x hx => ((hlost _).of_mem hx).offModeration
  | true =>
      obtain ⟨q, hq, hafter⟩ := hclaimed R.nextId
      rw [hq]
      refine Covered.bind_plain Prog.Calls.clock fun startedAt i₂ R₂ hclock => ?_
      cases hclock
      obtain ⟨f', htry, hrest⟩ := tryBlock_parts cfg g R.nextId
        (v.times i₁ + cfg.reportGenerationJobTimeoutMs)
      refine Covered.handle_off ?_ (fun outcome => (hafter outcome).mono
        fun _ => Call.Plain.offModeration) fun _ => Prog.Calls.throw
      rw [htry]
      exact Covered.handle_off (Covered.handle_off (covered_analyze himages)
          (fun _ => Prog.Calls.pure) fun _ => Prog.Calls.pure)
        (hrest composes_offModeration fun _ _ _ => Calls.generateContent)
        fun _ => Prog.Calls.throw

theorem Calls.analyze {deadline : Time} :
    (analyze cfg g tok deadline).Calls Call.OffReport := by
  have hplain : ∀ {γ : Type} {p : Async γ}, p.Calls Call.Plain → p.Calls Call.OffReport :=
    fun h => h.mono fun _ => Call.Plain.offReport
  refine Prog.Calls.bind Prog.Calls.transaction fun generation => ?_
  refine Prog.Calls.bind Calls.parseSnapshot fun snapshot => ?_
  refine Prog.Calls.bind Calls.updateProgress fun _ => ?_
  refine Prog.Calls.bind (hplain Calls.transcribeAll) fun transcripts => ?_
  refine Prog.Calls.bind Calls.updateProgress fun _ => ?_
  refine Prog.Calls.bind Calls.assertSupportedImageMimeTypes fun _ => ?_
  refine Prog.Calls.bind Calls.assertBeforeDeadline fun _ => ?_
  refine Prog.Calls.bind (Calls.presignAll fun _ _ _ => by simp) fun references => ?_
  refine Prog.Calls.bind ((moderate_bounds _ _ _ _).1.mono fun _ h => h.offReport) fun _ => ?_
  refine Prog.Calls.bind Calls.updateProgress fun _ => ?_
  split
  next => exact Prog.Calls.pure
  next => exact Prog.Calls.bind Calls.parseOrThrow fun _ => Prog.Calls.pure

/-- The images of a whole run are dated. -/
theorem DatesImages.process (hlimit : limit ≤ cfg.downloadUrlTtlSeconds * 1000) :
    DatesImages cfg limit (process cfg g a m) := by
  have hM := composes_datesImages cfg limit
  obtain ⟨f, hprocess, hlost, hclaimed⟩ := process_parts cfg g a m
  rw [hprocess]
  refine hM.bind (hM.plain (Prog.Calls.uuid fun _ => Prog.Calls.pure)) fun tok => ?_
  refine hM.bind (hM.plain Calls.claim) fun claimed => ?_
  cases claimed with
  | false => exact hM.plain (hlost tok)
  | true =>
      obtain ⟨q, hq, hafter⟩ := hclaimed tok
      rw [hq]
      refine hM.bind (hM.plain Prog.Calls.clock) fun startedAt => ?_
      refine hM.bind ?_ fun outcome => hM.plain (hafter outcome)
      obtain ⟨f', htry, hrest⟩ := tryBlock_parts cfg g tok
        (startedAt + cfg.reportGenerationJobTimeoutMs)
      rw [htry]
      refine hM.bind (hM.attempt (DatesImages.of_calls Calls.analyze))
        (hrest hM fun run text stored => ?_)
      cases stored with
      | some structuredResult => exact hM.plain Prog.Calls.pure
      | none =>
          refine hM.bind (hM.plain Calls.uploadDocuments) fun documents => ?_
          split
          next => exact hM.plain Prog.Calls.pure
          next => exact hM.bind (hM.attempt (DatesImages.requestReport hlimit)) fun _ =>
            hM.plain Prog.Calls.pure

/-- The list around one of its elements. -/
theorem split_at {γ : Type} {l : List γ} {j : Nat} {x : γ} (h : l[j]? = some x) :
    l = l.take j ++ x :: l.drop (j + 1) ∧ (l.take j).length = j := by
  obtain ⟨hlt, rfl⟩ := List.getElem?_eq_some_iff.mp h
  refine ⟨?_, List.length_take_of_le hlt.le⟩
  rw [← List.drop_eq_getElem_cons hlt, List.take_append_drop]

/-- From the presigning of an image to the end of its moderation there are
`n + 1` requests at most, all before the deadline. -/
theorem unexpired_of_covered {l : List (Option Call)} (hcovered : Covered cfg n l)
    (hdated : InTime v i l) (hpaced : Paced cfg limit v i l)
    (hbound : (n + 1) * limit ≤ cfg.downloadUrlTtlSeconds * 1000
      ∨ cfg.reportGenerationJobTimeoutMs ≤ cfg.downloadUrlTtlSeconds * 1000) :
    Unexpired cfg v i l where
  presigned := by
    intro j input k hj hk
    obtain ⟨hl, hlength⟩ := split_at hj
    obtain ⟨j', hj'⟩ := List.mem_iff_getElem?.mp (hcovered _ input _ k hl hk).1
    have hlt := (List.getElem?_eq_some_iff.mp hj').1
    rw [hlength] at hlt
    exact ⟨j', hlt, by rwa [List.getElem?_take_of_lt hlt] at hj'⟩
  moderation := by
    intro j j' input k hj hk hlt hj'
    obtain ⟨hl, hlength⟩ := split_at hj
    obtain ⟨hearlier, hlength'⟩ := split_at
      (show (l.take j)[j']? = _ by rw [List.getElem?_take_of_lt hlt]; exact hj')
    generalize (l.take j).drop (j' + 1) = between at hearlier
    generalize (l.take j).take j' = first at hearlier hlength'
    have hfew := (hcovered _ input _ k hl hk).2 first k _ between hearlier
    rw [hearlier] at hlength
    rw [hl, hearlier, List.append_assoc] at hpaced
    obtain ⟨-, hrest⟩ := hpaced.append
    rw [hlength'] at hrest
    have hpresign : v.times (i + j' + 1) = v.times (i + j') := hrest.head
    obtain ⟨hbetween, hlast⟩ := hrest.tail.append
    have hmoderation := hlast.head.of_request rfl
    have hindex : i + j' + 1 + between.length = i + j := by
      simp only [List.length_append, List.length_cons] at hlength
      omega
    rw [hindex] at hmoderation
    have htime := hbetween.le
    rw [hindex, hpresign] at htime
    rcases hbound with hrequests | hdeadline
    · calc v.times (i + j + 1) ≤ v.times (i + j) + limit := hmoderation.1
        _ ≤ v.times (i + j') + requests between * limit + limit := Nat.add_le_add_right htime _
        _ = v.times (i + j') + (requests between + 1) * limit := by
            rw [Nat.add_mul, Nat.one_mul, Nat.add_assoc]
        _ ≤ v.times (i + j') + (n + 1) * limit :=
            Nat.add_le_add_left (Nat.mul_le_mul_right _ (Nat.succ_le_succ hfew)) _
        _ ≤ v.times (i + j') + cfg.downloadUrlTtlSeconds * 1000 := Nat.add_le_add_left hrequests _
    · calc v.times (i + j + 1) ≤ v.times 0 + cfg.reportGenerationJobTimeoutMs := hmoderation.2
        _ ≤ v.times (i + j') + cfg.downloadUrlTtlSeconds * 1000 :=
            Nat.add_le_add (v.mono (Nat.zero_le _)) hdeadline
  report := hdated

end Process

end FastRep.Reports
