/-
Which images a report shows.

The sections of a result refer to images by id. `loadReferencedImages` loads
the images of the references, `drawReport` goes through the sections in order
and draws, below the text of a section, each of its images that has not been
drawn before.

# What is drawn

`toDraw` is the list of images the loop over the sections gets to: it has each
id at most once (`nodup_toDraw`), and exactly the ids that a section refers to
which is not passed over (`mem_toDraw`). A section whose heading has the
document's own place, such as the summary, is passed over with its images, and
an image that only such sections refer to is lost (`image_lost`).

# The results

* `images_drawn_once`: of a parsed result, with the images loaded for it, the
  document draws each image at most once and none that is not referred to, and
  draws each that is referred to exactly if a section shows it.
* `image_formats_render`: the library opens JPEG and PNG, so a report fails
  exactly if a WebP image is among those the loop gets to.
* `rendered_references`: both are about what runs render. Whatever a run
  renders was parsed, and parsing it again changes nothing, with a stored
  result as with a new one; its images are those of its references.
-/
import FastRep.Reports.PdfReport
import FastRep.Txn.Proofs.Leads
import FastRep.Reports.Proofs.Confirming
import FastRep.Reports.Proofs.Reached
import FastRep.Reports.Proofs.Readers
import FastRep.Reports.Proofs.ReportSchema

namespace FastRep.Reports

open FastRep.Txn

variable {pdf : PdfKit} {settings : PdfSettings} {unicode : Unicode} {raw result : ReportResult}
  {images : List (Id × Bytes)} {assets : List GenerationSnapshotAsset} {title : String}
  {rendered ids : List Id} {id : Id} {R R' : Rest Row Env}

-- ============================================================= references

/-- The ids the sections of a result refer to. -/
def ReportResult.referenced (result : ReportResult) : List Id :=
  result.sections.flatMap (·.imageAssetIds)

/-- A section that is not passed over refers to the image. -/
def Shows (unicode : Unicode) (result : ReportResult) (id : Id) : Prop :=
  ∃ s ∈ result.sections, skipsSection unicode result s = false ∧ id ∈ s.imageAssetIds

/-- A result that is valid refers to assets of the snapshot only. -/
theorem mem_of_validateImageReferences (h : validateImageReferences result assets = pure ()) :
    ∀ id ∈ result.referenced, id ∈ assets.map (·.id) := by
  intro id hid
  unfold validateImageReferences at h
  split at h
  next => cases h
  next hall =>
      simp only [List.any_eq_true, decide_eq_true_eq, not_exists, not_and, not_not] at hall
      exact hall id hid

/-- The images that are loaded have the ids they were asked for. -/
theorem loadImages_ids (h : (loadImages assets).Leads R (.ok images) R') :
    images.map (·.1) = assets.map (·.id) := by
  induction assets generalizing R R' images with
  | nil =>
      cases h.of_pure.1
      rfl
  | cons image assets ih =>
      obtain ⟨bytes, R₁, -, h⟩ := h.of_bind
      obtain ⟨others, R₂, hothers, h⟩ := h.of_bind
      cases h.of_pure.1
      rw [List.map_cons, List.map_cons, ih hothers]

/-- The images that are loaded for a result are those of its references. -/
theorem References.of_loaded (hvalid : validateImageReferences result assets = pure ())
    (h : (loadReferencedImages result assets).Leads R (.ok images) R') :
    References result images :=
  ⟨assets, hvalid, loadImages_ids h⟩

/-- The images of the references are those the result refers to. -/
theorem References.mem (h : References result images) :
    id ∈ images.map (·.1) ↔ id ∈ result.referenced := by
  obtain ⟨assets, hvalid, hids⟩ := h
  rw [hids, List.mem_map]
  constructor
  · rintro ⟨a, ha, rfl⟩
    rw [List.mem_filter, decide_eq_true_eq] at ha
    exact ha.2
  · intro hid
    obtain ⟨a, ha, rfl⟩ := List.mem_map.mp (mem_of_validateImageReferences hvalid id hid)
    exact ⟨a, List.mem_filter.mpr ⟨ha, decide_eq_true hid⟩, rfl⟩

/-- There are bytes for the images that were loaded. -/
theorem isSome_imageBytes? : (imageBytes? images id).isSome = true ↔ id ∈ images.map (·.1) := by
  simp only [imageBytes?, Option.isSome_map, List.find?_isSome, List.mem_reverse,
    decide_eq_true_eq, List.mem_map]

theorem mem_of_imageBytes? {bytes : Bytes} (h : imageBytes? images id = some bytes) :
    (id, bytes) ∈ images := by
  obtain ⟨image, hfind, rfl⟩ := Option.map_eq_some_iff.mp h
  have hid : image.1 = id := by simpa using List.find?_some hfind
  exact hid ▸ List.mem_reverse.mp (List.mem_of_find?_eq_some hfind)

-- ============================================================ the sections

/-- What a section draws: each of its images that is there and has not been
rendered, once. -/
theorem sectionImages_count (x : Id) :
    ((sectionImages images rendered ids).1.map (·.1)).count x
      = if x ∈ ids ∧ x ∉ rendered ∧ x ∈ images.map (·.1) then 1 else 0 := by
  induction ids generalizing rendered with
  | nil => simp [sectionImages]
  | cons a ids ih =>
      rw [sectionImages]
      by_cases hrendered : a ∈ rendered
      · rw [if_pos hrendered, ih]
        congr 1
        rw [List.mem_cons, eq_iff_iff]
        grind
      · rw [if_neg hrendered]
        cases hbytes : imageBytes? images a with
        | none =>
            have ha : a ∉ images.map (·.1) := by
              rw [← isSome_imageBytes?, hbytes]
              simp
            simp only
            rw [ih]
            congr 1
            rw [List.mem_cons, eq_iff_iff]
            grind
        | some bytes =>
            have ha : a ∈ images.map (·.1) := by
              rw [← isSome_imageBytes?, hbytes]
              rfl
            simp only [List.map_cons, List.count_cons, ih, List.mem_cons]
            grind

/-- A section draws those of its images that are there and were not drawn
before. -/
theorem mem_sectionImages_fst {x : Id} :
    x ∈ (sectionImages images rendered ids).1.map (·.1)
      ↔ x ∈ ids ∧ x ∉ rendered ∧ x ∈ images.map (·.1) := by
  rw [← List.count_pos_iff, sectionImages_count]
  split
  next h => exact iff_of_true Nat.one_pos h
  next h => exact iff_of_false (Nat.lt_irrefl 0) h

/-- It draws none of them twice. -/
theorem nodup_sectionImages : ((sectionImages images rendered ids).1.map (·.1)).Nodup := by
  rw [List.nodup_iff_count_le_one]
  intro x
  rw [sectionImages_count]
  split <;> decide

/-- The ids rendered after a section. -/
theorem mem_sectionImages (x : Id) :
    x ∈ (sectionImages images rendered ids).2
      ↔ x ∈ rendered ∨ x ∈ ids ∧ x ∈ images.map (·.1) := by
  induction ids generalizing rendered with
  | nil => simp [sectionImages]
  | cons a ids ih =>
      rw [sectionImages]
      by_cases hrendered : a ∈ rendered
      · rw [if_pos hrendered, ih, List.mem_cons]
        grind
      · rw [if_neg hrendered]
        cases hbytes : imageBytes? images a with
        | none =>
            have ha : a ∉ images.map (·.1) := by
              rw [← isSome_imageBytes?, hbytes]
              simp
            simp only
            rw [ih, List.mem_cons]
            grind
        | some bytes =>
            have ha : a ∈ images.map (·.1) := by
              rw [← isSome_imageBytes?, hbytes]
              rfl
            simp only [ih, List.mem_cons]
            grind

/-- What it draws is one of the images, and one of its own. -/
theorem mem_of_sectionImages {image : Id × Bytes}
    (h : image ∈ (sectionImages images rendered ids).1) : image ∈ images ∧ image.1 ∈ ids := by
  induction ids generalizing rendered with
  | nil => cases h
  | cons a ids ih =>
      rw [sectionImages] at h
      split at h
      next => exact ⟨(ih h).1, List.mem_cons_of_mem _ (ih h).2⟩
      next =>
          split at h
          next => exact ⟨(ih h).1, List.mem_cons_of_mem _ (ih h).2⟩
          next bytes hbytes =>
              rcases List.mem_cons.mp h with rfl | h
              · exact ⟨mem_of_imageBytes? hbytes, List.mem_cons_self⟩
              · exact ⟨(ih h).1, List.mem_cons_of_mem _ (ih h).2⟩

-- ======================================================= a parsed result

/-- A list that is parsed with at least one element has one. -/
theorem exists_cons_of_boundedList {α β : Type} {maximum : Nat} {parse : α → Option β}
    {l : List α} {out : List β} (h : boundedList 1 maximum parse l = some out) :
    ∃ y ys, out = y :: ys ∧ ∃ x, parse x = some y := by
  obtain ⟨hmin, -, hmap⟩ := boundedList_eq_some.mp h
  have hlength := length_mapM hmap
  cases out with
  | nil =>
      rw [List.length_nil] at hlength
      omega
  | cons y ys =>
      obtain ⟨x, -, hx⟩ := mem_mapM hmap y List.mem_cons_self
      exact ⟨y, ys, rfl, x, hx⟩

/-- A parsed section starts with a text. -/
theorem firstBlockText_of_parse {s s' : ReportSection} (h : parseSection s = some s') :
    (firstBlockText s').isSome = true := by
  obtain ⟨-, hblocks, -⟩ := parseSection_eq_some.mp h
  obtain ⟨block, rest, hcons, raw, hblock⟩ := exists_cons_of_boundedList hblocks
  rw [firstBlockText, hcons]
  cases raw with
  | paragraph text =>
      rw [parseBlock] at hblock
      obtain ⟨t, -, rfl⟩ := Option.map_eq_some_iff.mp hblock
      rfl
  | bulletList items =>
      rw [parseBlock] at hblock
      obtain ⟨parsed, hitems, rfl⟩ := Option.map_eq_some_iff.mp hblock
      obtain ⟨item, others, rfl, -⟩ := exists_cons_of_boundedList hitems
      rfl

/-- Every section of a parsed result has a first text. -/
theorem firstBlockText_parsed (h : parseReportResult raw = some result) :
    ∀ s ∈ result.sections, (firstBlockText s).isSome = true := by
  obtain ⟨-, -, -, hsections, -⟩ := parseReportResult_eq_some.mp h
  intro s hs
  obtain ⟨r, -, hr⟩ := mem_mapM (boundedList_eq_some.mp hsections).2.2 s hs
  exact firstBlockText_of_parse hr

-- ================================================================ the loop

/-- The images of a list of sections. -/
def imagesOf (sections : List RenderedSection) : List (Id × Bytes) := sections.flatMap (·.images)

/-- The images the section loop gets to, whether they can be opened or not. -/
def toDraw (unicode : Unicode) (result : ReportResult) (images : List (Id × Bytes)) :
    List Id → List ReportSection → List (Id × Bytes)
  | _, [] => []
  | rendered, s :: rest =>
      if skipsSection unicode result s then toDraw unicode result images rendered rest
      else
        let own := sectionImages images rendered s.imageAssetIds
        own.1 ++ toDraw unicode result images own.2 rest

/-- The loop ends with these images where all of them can be opened, and throws
where one cannot. -/
theorem renderSections_eq (pdf : PdfKit) (unicode : Unicode) (images : List (Id × Bytes))
    (rendered : List Id) {sections : List ReportSection}
    (hblocks : ∀ s ∈ sections, (firstBlockText s).isSome = true) :
    ((toDraw unicode result images rendered sections).all (fun image => pdf.openImage image.2) = true
      ∧ ∃ out, renderSections pdf unicode result images rendered sections = .ok out
        ∧ imagesOf out = toDraw unicode result images rendered sections)
    ∨ ((toDraw unicode result images rendered sections).all (fun image => pdf.openImage image.2)
        = false
      ∧ renderSections pdf unicode result images rendered sections = .error unknownImageFormat) := by
  induction sections generalizing rendered with
  | nil => exact .inl ⟨rfl, [], rfl, rfl⟩
  | cons s sections ih =>
      have hrest := fun rendered => ih rendered fun s hs => hblocks s (List.mem_cons_of_mem _ hs)
      rw [renderSections, toDraw]
      cases hskip : skipsSection unicode result s with
      | true => exact hrest rendered
      | false =>
          obtain ⟨text, htext⟩ := Option.isSome_iff_exists.mp (hblocks s List.mem_cons_self)
          simp only [Bool.false_eq_true, if_false, htext, renderGallery, List.all_append]
          cases hopen : (sectionImages images rendered s.imageAssetIds).1.all
              fun image => pdf.openImage image.2 with
          | false => exact .inr ⟨rfl, rfl⟩
          | true =>
              rcases hrest (sectionImages images rendered s.imageAssetIds).2 with
                ⟨hall, out, hout, himages⟩ | ⟨hall, herror⟩
              · refine .inl ⟨by rw [hall]; rfl, _, by rw [if_pos rfl, hout]; rfl, ?_⟩
                rw [imagesOf, List.flatMap_cons, ← imagesOf, himages]
              · exact .inr ⟨by rw [hall]; rfl, by rw [if_pos rfl, herror]; rfl⟩

/-- The loop gets to an image when it has not been rendered before, is there,
and a section that is not passed over refers to it. -/
theorem mem_toDraw {sections : List ReportSection} {rendered : List Id} (x : Id) :
    x ∈ (toDraw unicode result images rendered sections).map (·.1)
      ↔ x ∉ rendered ∧ x ∈ images.map (·.1) ∧ ∃ s ∈ sections,
          skipsSection unicode result s = false ∧ x ∈ s.imageAssetIds := by
  induction sections generalizing rendered with
  | nil => simp [toDraw]
  | cons s sections ih =>
      rw [toDraw, List.exists_mem_cons_iff]
      cases hskip : skipsSection unicode result s with
      | true =>
          rw [if_pos rfl, ih]
          simp only [Bool.true_eq_false, false_and, false_or]
      | false =>
          rw [if_neg Bool.false_ne_true, List.map_append, List.mem_append, mem_sectionImages_fst,
            ih, mem_sectionImages]
          grind

/-- It gets to each at most once. -/
theorem nodup_toDraw {sections : List ReportSection} :
    ((toDraw unicode result images rendered sections).map (·.1)).Nodup := by
  induction sections generalizing rendered with
  | nil => exact List.nodup_nil
  | cons s sections ih =>
      rw [toDraw]
      split
      · exact ih
      · rw [List.map_append, List.nodup_append']
        refine ⟨nodup_sectionImages, ih, fun x hown hrest => ?_⟩
        rw [mem_sectionImages_fst] at hown
        exact (mem_toDraw x).mp hrest |>.1 ((mem_sectionImages x).mpr (.inr ⟨hown.1, hown.2.2⟩))

/-- Every image the loop gets to is one of the images. -/
theorem mem_of_toDraw {sections : List ReportSection} {image : Id × Bytes}
    (h : image ∈ toDraw unicode result images rendered sections) : image ∈ images ∧
      ∃ s ∈ sections, skipsSection unicode result s = false ∧ image.1 ∈ s.imageAssetIds := by
  induction sections generalizing rendered with
  | nil => cases h
  | cons s sections ih =>
      rw [toDraw] at h
      split at h
      next =>
          obtain ⟨hmem, t, ht, hshown⟩ := ih h
          exact ⟨hmem, t, List.mem_cons_of_mem _ ht, hshown⟩
      next hskip =>
          rcases List.mem_append.mp h with h | h
          · exact ⟨(mem_of_sectionImages h).1, s, List.mem_cons_self, Bool.eq_false_iff.mpr hskip,
              (mem_of_sectionImages h).2⟩
          · obtain ⟨hmem, t, ht, hshown⟩ := ih h
            exact ⟨hmem, t, List.mem_cons_of_mem _ ht, hshown⟩

-- ============================================================ the document

/-- The images the document shows. -/
def PdfContent.drawn (content : PdfContent) : List Id := (imagesOf content.sections).map (·.1)

/-- Every image that is referred to is drawn once, and no other. -/
def DrawsEachOnce (result : ReportResult) (content : PdfContent) : Prop :=
  ∀ id, content.drawn.count id = if id ∈ result.referenced then 1 else 0

/-- Nothing keeps the document from being drawn before its images are opened. -/
structure Drawable (settings : PdfSettings) (images : List (Id × Bytes)) : Prop where
  fonts : settings.fontsFound = true
  fits : (images.map (·.2.length)).sum ≤ settings.maximumImageBytes

/-- A document is drawn with the images the loop gets to, or one of them cannot
be opened. -/
theorem drawReport_eq (pdf : PdfKit) (unicode : Unicode) (title : String)
    (hparsed : parseReportResult raw = some result) (h : Drawable settings images) :
    ((toDraw unicode result images [] result.sections).all
        (fun image => pdf.openImage image.2) = true
      ∧ ∃ content, drawReport pdf settings unicode result images title = .ok content
        ∧ imagesOf content.sections = toDraw unicode result images [] result.sections)
    ∨ ((toDraw unicode result images [] result.sections).all
        (fun image => pdf.openImage image.2) = false
      ∧ drawReport pdf settings unicode result images title = .error unknownImageFormat) := by
  have hdraw : drawReport pdf settings unicode result images title
      = (renderSections pdf unicode result images [] result.sections).bind fun sections => .ok
        { title, subtitle := result.subtitle.filter (· ≠ ""), summary := result.summary, sections
          conclusion := result.conclusion.filter (· ≠ "")
          recommendations := result.recommendations } := by
    rw [drawReport, h.fonts, if_neg (by decide), if_neg (Nat.not_lt.mpr h.fits)]
    rfl
  rw [hdraw]
  rcases renderSections_eq pdf unicode images [] (firstBlockText_parsed hparsed)
    with ⟨hall, out, hout, himages⟩ | ⟨hall, herror⟩
  · exact .inl ⟨hall, _, by rw [hout]; rfl, himages⟩
  · exact .inr ⟨hall, by rw [herror]; rfl⟩

/-- What a document shows of the images it was drawn with: each at most once,
none that is not referred to, and each that is referred to exactly where no
reference stands only in sections that are passed over. -/
def DrawsReferences (unicode : Unicode) (result : ReportResult) (content : PdfContent) : Prop :=
  (DrawsEachOnce result content ↔ ∀ id ∈ result.referenced, Shows unicode result id) ∧
  ∀ id, content.drawn.count id ≤ 1 ∧ (id ∉ result.referenced → content.drawn.count id = 0)

/-- A document that is drawn with the images of its references. -/
theorem References.drawn (himages : References result images)
    (hparsed : parseReportResult raw = some result) (h : Drawable settings images)
    (hopen : ∀ image ∈ images, pdf.openImage image.2 = true) :
    ∃ content, drawReport pdf settings unicode result images title = .ok content ∧
      DrawsReferences unicode result content := by
  obtain ⟨hall, content, hdraw, hcontent⟩ | ⟨hall, -⟩ :=
    drawReport_eq pdf unicode title hparsed h
  · have hmem : ∀ id, id ∈ content.drawn ↔ id ∈ result.referenced ∧ Shows unicode result id := by
      intro id
      rw [PdfContent.drawn, hcontent, mem_toDraw, himages.mem]
      simp only [List.not_mem_nil, not_false_eq_true, true_and, Shows]
    have hnodup : content.drawn.Nodup := by
      rw [PdfContent.drawn, hcontent]
      exact nodup_toDraw
    refine ⟨content, hdraw, ⟨fun hdraws id hid => ?_, fun hshows id => ?_⟩,
      fun id => ⟨List.nodup_iff_count_le_one.mp hnodup id, fun hid => ?_⟩⟩
    · have hpos : 0 < content.drawn.count id := by
        rw [hdraws id, if_pos hid]
        exact Nat.one_pos
      exact ((hmem id).mp (List.count_pos_iff.mp hpos)).2
    · rw [hnodup.count]
      exact if_congr ⟨fun hdrawn => ((hmem id).mp hdrawn).1,
        fun hid => (hmem id).mpr ⟨hid, hshows id hid⟩⟩ rfl rfl
    · exact List.count_eq_zero.mpr fun hdrawn => hid ((hmem id).mp hdrawn).1
  · -- every image can be opened
    have hopened : (toDraw unicode result images [] result.sections).all
        (fun image => pdf.openImage image.2) = true :=
      List.all_eq_true.mpr fun image himage => hopen image (mem_of_toDraw himage).1
    rw [hopened] at hall
    cases hall

/-- The documents that draw each image referred to once: those of results that
refer to each image in a section that is not passed over. Every document draws
each image at most once, and none that is not referred to. -/
theorem images_drawn_once (hparsed : parseReportResult raw = some result)
    (hvalid : validateImageReferences result assets = pure ())
    (hload : (loadReferencedImages result assets).Leads R (.ok images) R')
    (h : Drawable settings images) (hopen : ∀ image ∈ images, pdf.openImage image.2 = true) :
    ∃ content, drawReport pdf settings unicode result images title = .ok content ∧
      (DrawsEachOnce result content ↔ ∀ id ∈ result.referenced, Shows unicode result id) ∧
      ∀ id, content.drawn.count id ≤ 1 ∧ (id ∉ result.referenced → content.drawn.count id = 0) :=
  (References.of_loaded hvalid hload).drawn hparsed h hopen

/-- Whatever a run renders is a result the schema parses as it is, with the
images it refers to; so its document shows them as above. -/
theorem rendered_references {cfg : Config} {w : RWorld} (hreached : Reached cfg w) {e : REntry}
    (he : e ∈ w.shared.trace) {generatedAt : Time} {language timezone : String} {c : Choice}
    (hcall : e.event = .call (.renderPdf result images generatedAt language title timezone) c) :
    parseReportResult result = some result ∧ (Drawable settings images →
      (∀ image ∈ images, pdf.openImage image.2 = true) →
      ∃ content, drawReport pdf settings unicode result images title = .ok content ∧
        DrawsReferences unicode result content) := by
  obtain ⟨start, hstart, hruns⟩ := hreached.runs
  obtain ⟨S₀, S₁, hpast⟩ := hruns.since hstart.trace he
  have hpromise := hpast.promised
  rw [hcall] at hpromise
  obtain ⟨⟨raw, hraw⟩, hreferences⟩ := hpromise
  have hparsed : parseReportResult result = some result := stable_parseReportResult _ _ hraw
  exact ⟨hparsed, fun h hopen => hreferences.drawn hparsed h hopen⟩

-- ============================================================ the formats

/-- What `openImage` of the library opens: JPEG and PNG. -/
def opensJpegAndPng (bytes : Bytes) : Bool :=
  hasPrefix bytes [0xff, 0xd8] || hasPrefix bytes [0x89, 0x50, 0x4e, 0x47, 0x0d, 0x0a, 0x1a, 0x0a]

/-- The bytes are those of an image asset that was confirmed. -/
def AcceptedImage (asset : GenerationSnapshotAsset) (bytes : Bytes) : Prop :=
  ∃ inspection, inspectAssetBytes (bytes.take inspectionRangeBytes) bytes.length = some inspection
    ∧ inspection.type = .image ∧ asset.verifiedMimeType = inspection.mimeType

/-- A text is inspected as a document. -/
theorem inspectText_type {bytes : Bytes} {inspection : AssetInspection}
    (h : inspectText bytes = some inspection) : inspection.type = .document := by
  unfold inspectText at h
  split at h
  · cases h
  · split at h
    · cases h
    · simp only at h
      split at h
      · cases h
      · cases h
        rfl

/-- The bytes of an image decide its type. -/
theorem inspectAssetBytes_image {bytes : Bytes} {objectSize : Nat} {inspection : AssetInspection}
    (h : inspectAssetBytes bytes objectSize = some inspection) (htype : inspection.type = .image) :
    (hasPrefix bytes [0xff, 0xd8, 0xff] = true ∧ inspection.mimeType = "image/jpeg")
      ∨ (hasPrefix bytes [0x89, 0x50, 0x4e, 0x47, 0x0d, 0x0a, 0x1a, 0x0a] = true
        ∧ inspection.mimeType = "image/png")
      ∨ (asciiAt bytes 0 "RIFF" = true ∧ inspection.mimeType = "image/webp") := by
  unfold inspectAssetBytes at h
  split_ifs at h with hjpeg hpng hwebp
  · cases h
    exact .inl ⟨hjpeg, rfl⟩
  · cases h
    exact .inr (.inl ⟨hpng, rfl⟩)
  · cases h
    exact .inr (.inr ⟨(Bool.and_eq_true_iff.mp hwebp).1, rfl⟩)
  all_goals first
    | cases h; cases htype
    | rw [inspectText_type h] at htype; cases htype

/-- The first byte of a prefix. -/
theorem byteAt_of_hasPrefix {bytes : Bytes} {n : Nat} {pre : List Nat}
    (h : hasPrefix bytes (n :: pre) = true) : byteAt bytes 0 = n := by
  have hmap := of_decide_eq_true h
  cases bytes with
  | nil => cases hmap
  | cons b bytes => exact (List.cons.inj hmap).1

/-- A file with a prefix has its beginning as a prefix. -/
theorem hasPrefix_of_longer {bytes : Bytes} (pre rest : List Nat)
    (h : hasPrefix bytes (pre ++ rest) = true) : hasPrefix bytes pre = true := by
  have htake := congrArg (List.take pre.length) (of_decide_eq_true h)
  rw [List.take_left, ← List.map_take, List.take_take, Nat.min_eq_left (by simp)] at htake
  exact decide_eq_true htake

/-- Of the images that are accepted, the library opens those that are no WebP
images. -/
theorem opens_iff {asset : GenerationSnapshotAsset} {bytes : Bytes} (h : AcceptedImage asset bytes) :
    opensJpegAndPng bytes = true ↔ asset.verifiedMimeType ≠ "image/webp" := by
  obtain ⟨inspection, hinspect, htype, hmime⟩ := h
  rw [hmime]
  rcases inspectAssetBytes_image hinspect htype with ⟨hpre, hm⟩ | ⟨hpre, hm⟩ | ⟨hpre, hm⟩
  · rw [hasPrefix_take (by decide)] at hpre
    refine iff_of_true ?_ (by rw [hm]; decide)
    rw [opensJpegAndPng, hasPrefix_of_longer [0xff, 0xd8] [0xff] hpre, Bool.true_or]
  · rw [hasPrefix_take (by decide)] at hpre
    refine iff_of_true ?_ (by rw [hm]; decide)
    rw [opensJpegAndPng, hpre, Bool.or_true]
  · -- the first byte of RIFF starts neither of the formats
    rw [asciiAt_take (by decide)] at hpre
    have hfirst : byteAt bytes 0 = 82 :=
      byteAt_of_hasPrefix (show hasPrefix bytes [82, 73, 70, 70] = true from hpre)
    refine iff_of_false (fun hopens => ?_) (fun hne => hne hm)
    rcases Bool.or_eq_true_iff.mp hopens with hstart | hstart
    · rw [byteAt_of_hasPrefix hstart] at hfirst
      cases hfirst
    · rw [byteAt_of_hasPrefix hstart] at hfirst
      cases hfirst

/-- Writing the document out raises no error about an image. -/
theorem completedBytes_ne {bytes : Bytes} :
    completedBytes settings bytes ≠ .error unknownImageFormat := by
  unfold completedBytes
  split_ifs <;> simp [unknownImageFormat, aiProviderError]

/-- Only the section loop throws the error of a format. -/
theorem generate_eq_unknown :
    generate pdf settings unicode result images title = .error unknownImageFormat
      ↔ drawReport pdf settings unicode result images title = .error unknownImageFormat := by
  rw [generate]
  cases hdraw : drawReport pdf settings unicode result images title with
  | error e =>
      change (Except.error e : Except Error Bytes) = _ ↔ _
      rw [Except.error.injEq, Except.error.injEq]
  | ok content =>
      refine iff_of_false (fun h => ?_) (by simp)
      change (if settings.maximumPages < pdf.pageCount content then _ else _) = _ at h
      split at h
      next =>
          cases hbytes : completedBytes settings (pdf.write content false) with
          | ok bytes =>
              rw [hbytes] at h
              simp [unknownImageFormat, aiProviderError, bind, Except.bind] at h
          | error e =>
              rw [hbytes] at h
              cases h
              exact completedBytes_ne hbytes
      next => exact completedBytes_ne h

/-- The results whose images can be rendered, as far as their formats go: those
that refer to no WebP image in a section that is not passed over. -/
theorem image_formats_render (hparsed : parseReportResult raw = some result)
    (hids : (assets.map (·.id)).Nodup)
    (hvalid : validateImageReferences result assets = pure ())
    (hload : (loadReferencedImages result assets).Leads R (.ok images) R')
    (hbytes : ∀ image ∈ images, ∃ a ∈ assets, a.id = image.1 ∧ AcceptedImage a image.2)
    (h : Drawable settings images) (hopen : ∀ bytes, pdf.openImage bytes = opensJpegAndPng bytes) :
    generate pdf settings unicode result images title ≠ .error unknownImageFormat
      ↔ ∀ a ∈ assets, Shows unicode result a.id → a.verifiedMimeType ≠ "image/webp" := by
  rw [ne_eq, generate_eq_unknown]
  have hopens : ∀ image ∈ images, ∀ a ∈ assets, a.id = image.1 →
      (pdf.openImage image.2 = true ↔ a.verifiedMimeType ≠ "image/webp") := by
    intro image himage a ha hid
    obtain ⟨a', ha', hid', haccepted⟩ := hbytes image himage
    obtain rfl : a = a' := List.inj_on_of_nodup_map hids ha ha' (hid.trans hid'.symm)
    rw [hopen, opens_iff haccepted]
  rcases drawReport_eq pdf unicode title hparsed h with
    ⟨hall, content, hdraw, -⟩ | ⟨hall, herror⟩
  · refine iff_of_true (by rw [hdraw]; simp) fun a ha hshows => ?_
    have hreferenced : a.id ∈ result.referenced := by
      obtain ⟨s, hs, -, hid⟩ := hshows
      exact List.mem_flatMap.mpr ⟨s, hs, hid⟩
    have hdrawn : a.id ∈ (toDraw unicode result images [] result.sections).map (·.1) :=
      (mem_toDraw a.id).mpr ⟨List.not_mem_nil, (References.of_loaded hvalid hload).mem.mpr hreferenced, hshows⟩
    obtain ⟨image, himage, hid⟩ := List.mem_map.mp hdrawn
    exact (hopens image (mem_of_toDraw himage).1 a ha hid.symm).mp (List.all_eq_true.mp hall image himage)
  · refine iff_of_false (fun hne => hne herror) fun hformats => ?_
    obtain ⟨image, himage, hclosed⟩ := List.all_eq_false.mp hall
    obtain ⟨hmem, hshows⟩ := mem_of_toDraw himage
    obtain ⟨a, ha, hid, -⟩ := hbytes image hmem
    exact hclosed ((hopens image hmem a ha hid).mpr (hformats a ha (hid ▸ hshows)))

-- ===================================================== concrete documents

/-- The Unicode functions on ASCII. -/
def asciiUnicode : Unicode where
  nfkc title := title
  toLocaleLowerCase title := String.ofList (title.toList.map Char.toLower)
  isLetterOrNumber c := c.isAlphanum

/-- A library that writes the same document for everything. -/
def sampleKit : PdfKit where
  openImage := opensJpegAndPng
  pageCount _ := 1
  write _ _ := [0x25, 0x50, 0x44, 0x46, 0x2d]

/-- The defaults of the service. -/
def sampleSettings : PdfSettings := ⟨52428800, 100, 52428800, true⟩

/-- A result whose sections all refer to image 11. -/
def pictured (titles : List String) : ReportResult where
  title := "t"
  subtitle := none
  summary := "s"
  sections := titles.map fun title => ⟨title, [.paragraph "b"], [11]⟩
  conclusion := none
  recommendations := []

def pictureKey : StorageKey := .asset 1 10 11 12

/-- Image 11 of a report. -/
def picture (mimeType : String) (bytes : Bytes) : GenerationSnapshotAsset where
  id := 11
  type := .image
  verifiedMimeType := mimeType
  verifiedSize := bytes.length
  storageKey := pictureKey
  originalFileName := "p"
  position := 0

def pictureRest (bytes : Bytes) : Rest Row Env := ⟨Db.empty, ⟨[], [(pictureKey, bytes)], []⟩, 13⟩

/-- A gray JPEG of one pixel: the quantization table, the frame, the two
Huffman tables and the scan. -/
def jpegBytes : Bytes :=
  [0xff, 0xd8, 0xff, 0xdb, 0, 67, 0] ++ List.replicate 64 1
    ++ [0xff, 0xc0, 0, 11, 8, 0, 1, 0, 1, 1, 1, 0x11, 0]
    ++ [0xff, 0xc4, 0, 20, 0, 1] ++ List.replicate 16 0
    ++ [0xff, 0xc4, 0, 20, 0x10, 1] ++ List.replicate 16 0
    ++ [0xff, 0xda, 0, 8, 1, 1, 0, 0, 63, 0, 0x3f, 0xff, 0xd9]

def webpBytes : Bytes :=
  [0x52, 0x49, 0x46, 0x46, 0x04, 0, 0, 0, 0x57, 0x45, 0x42, 0x50]

/-- The picture of the sample is loaded. -/
theorem picture_loaded (title : String) (titles : List String) (mimeType : String)
    (bytes : Bytes) :
    (loadReferencedImages (pictured (title :: titles)) [picture mimeType bytes]).Leads
      (pictureRest bytes) (.ok [(11, bytes)]) (pictureRest bytes) := by
  have hstored : (pictureRest bytes).env.object? pictureKey = some bytes := by
    simp [pictureRest, Env.object?]
  have hhead : (headObject pictureKey).Ends promptVisit 0 (pictureRest bytes)
      (.ok (some bytes.length)) 1 (pictureRest bytes) :=
    Ends.awaitOk rfl (by simp only [Call.serve, hstored]; rfl)
  have hget : (awaitOk (.getObject pictureKey none)).Ends promptVisit 1 (pictureRest bytes)
      (.ok bytes) 2 (pictureRest bytes) :=
    Ends.awaitOk rfl (by simp only [Call.serve, hstored]; rfl)
  have hread : (readObjectBytes pictureKey bytes.length).Ends promptVisit 0 (pictureRest bytes)
      (.ok bytes) 2 (pictureRest bytes) := by
    refine Prog.Ends.bind hhead ?_
    simp only [if_neg (Nat.lt_irrefl bytes.length)]
    refine Prog.Ends.bind hget ?_
    rw [if_neg (Nat.lt_irrefl bytes.length)]
    exact Prog.Ends.pure
  have hreferred : loadReferencedImages (pictured (title :: titles)) [picture mimeType bytes]
      = loadImages [picture mimeType bytes] := by
    rw [loadReferencedImages, List.filter_cons_of_pos]
    · rfl
    · simp [pictured, picture]
  rw [hreferred]
  exact Prog.Ends.leads (Prog.Ends.bind hread (Prog.Ends.bind Prog.Ends.pure Prog.Ends.pure))

/-- The sample's settings allow a picture of that size. -/
theorem drawable_sample {bytes : Bytes} (h : bytes.length ≤ 52428800) :
    Drawable sampleSettings [(11, bytes)] := ⟨rfl, by simpa [sampleSettings] using h⟩

/-- The picture of three sections, one of them passed over. -/
def picturedThrice : ReportResult := pictured ["Findings", "Summary", "Photos"]

/-- A picture that three sections refer to, one of which is passed over, is
drawn once. -/
theorem images_drawn_once_sample : ∃ content,
    drawReport sampleKit sampleSettings asciiUnicode picturedThrice [(11, jpegBytes)] "t"
      = .ok content ∧
    DrawsEachOnce picturedThrice content ∧ ∃ s ∈ picturedThrice.sections,
      skipsSection asciiUnicode picturedThrice s = true ∧ 11 ∈ s.imageAssetIds := by
  have hshows : ∀ id ∈ picturedThrice.referenced, Shows asciiUnicode picturedThrice id :=
    fun id hid => ⟨_, List.mem_cons_self, by decide +kernel,
      by simpa [ReportResult.referenced, picturedThrice, pictured] using hid⟩
  have hdrawn : ∃ content, drawReport sampleKit sampleSettings asciiUnicode picturedThrice
        [(11, jpegBytes)] "t" = .ok content ∧
      (DrawsEachOnce picturedThrice content ↔
        ∀ id ∈ picturedThrice.referenced, Shows asciiUnicode picturedThrice id) ∧
      ∀ id, content.drawn.count id ≤ 1 ∧
        (id ∉ picturedThrice.referenced → content.drawn.count id = 0) :=
    images_drawn_once
      (by decide +kernel : parseReportResult picturedThrice = some picturedThrice) rfl
      (picture_loaded "Findings" ["Summary", "Photos"] "image/jpeg" jpegBytes)
      (drawable_sample (by decide +kernel)) (by decide)
  obtain ⟨content, hdraw, honce, -⟩ := hdrawn
  exact ⟨content, hdraw, honce.mpr hshows, ⟨"Summary", [.paragraph "b"], [11]⟩,
    by decide +kernel, by decide +kernel, List.mem_singleton_self _⟩

/-- A picture that only the section "Summary" refers to is loaded and not drawn. -/
theorem image_lost : parseReportResult (pictured ["Summary"]) = some (pictured ["Summary"]) ∧
    validateImageReferences (pictured ["Summary"]) [picture "image/jpeg" jpegBytes] = pure () ∧
    (loadReferencedImages (pictured ["Summary"]) [picture "image/jpeg" jpegBytes]).Leads
      (pictureRest jpegBytes) (.ok [(11, jpegBytes)]) (pictureRest jpegBytes) ∧
    11 ∈ (pictured ["Summary"]).referenced ∧
    ∃ content, drawReport sampleKit sampleSettings asciiUnicode (pictured ["Summary"])
      [(11, jpegBytes)] "t" = .ok content ∧ content.drawn = [] :=
  ⟨by decide +kernel, rfl, picture_loaded "Summary" [] "image/jpeg" jpegBytes, by decide,
    ⟨"t", none, "s", [], none, []⟩, by decide +kernel, rfl⟩

/-- The sample's picture was accepted as a JPEG. -/
theorem acceptedImage_jpeg : AcceptedImage (picture "image/jpeg" jpegBytes) jpegBytes :=
  ⟨⟨"image/jpeg", .image, some 1, some 1, none⟩, by decide +kernel, rfl, rfl⟩

/-- A JPEG picture can be rendered. -/
theorem image_formats_render_jpeg :
    generate sampleKit sampleSettings asciiUnicode (pictured ["Photos"]) [(11, jpegBytes)] "t"
      ≠ .error unknownImageFormat :=
  (image_formats_render
    (by decide +kernel : parseReportResult (pictured ["Photos"]) = some (pictured ["Photos"]))
    (by decide) rfl
    (picture_loaded "Photos" [] "image/jpeg" jpegBytes)
    (fun image himage => ⟨_, List.mem_singleton_self _, by
      obtain rfl := List.mem_singleton.mp himage
      exact ⟨rfl, acceptedImage_jpeg⟩⟩)
    (drawable_sample (by decide +kernel)) fun _ => rfl).mpr fun a ha _ => by
      obtain rfl := List.mem_singleton.mp ha
      decide

/-- A WebP picture is accepted, supported and referred to, and the report is
not rendered. -/
theorem webp_not_rendered :
    AcceptedImage (picture "image/webp" webpBytes) webpBytes ∧
    assertSupportedImageMimeTypes [picture "image/webp" webpBytes] = pure () ∧
    validateImageReferences (pictured ["Photos"]) [picture "image/webp" webpBytes] = pure () ∧
    parseReportResult (pictured ["Photos"]) = some (pictured ["Photos"]) ∧
    (loadReferencedImages (pictured ["Photos"]) [picture "image/webp" webpBytes]).Leads
      (pictureRest webpBytes) (.ok [(11, webpBytes)]) (pictureRest webpBytes) ∧
    generate sampleKit sampleSettings asciiUnicode (pictured ["Photos"]) [(11, webpBytes)] "t"
      = .error unknownImageFormat :=
  ⟨⟨⟨"image/webp", .image, none, none, none⟩, by decide +kernel, rfl, rfl⟩, rfl, rfl,
    by decide +kernel, picture_loaded "Photos" [] "image/webp" webpBytes, by decide +kernel⟩

end FastRep.Reports
