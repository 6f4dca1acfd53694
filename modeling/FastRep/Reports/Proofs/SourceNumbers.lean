/-
One numbering of the sources, from the manifest to the sections of the
report (`source_numbers_agree`).

The manifest counts the assets of each type, transcripts and image inputs
are lists of their own, and the aliases are indexes of the latter. All are
places in the assets filtered by type (`mem_numbered_iff`). The texts of an
accepted answer are already trimmed and in bounds, so the second parse of
`mapImageAliases` leaves them alone (`Stable`).

# The request

`Prepared` is what the processor hands over: a transcript of every audio asset
and an input for every image of the snapshot, in their order. Every request
that a run of the machine makes is prepared (`requests_prepared`), so what is
said of prepared requests is said of all of them (`requests_agree`).

# The answer

The schema of an answer lists the aliases of the request, so a reference is
the alias of an image input (`of_parseImageRefs`), an alias leads to the asset
at its place (`assetIdByAlias_aliasAt`), and a section of the report refers to
the photographs the model referred to (`SectionOf`). A report that comes out
passes the processor's own check of its references (`ReportOf.valid`), and
what `generateReport` returns is such a report (`SourcesAgree.generated`).
-/
import FastRep.Numbering
import FastRep.Reports.Effects
import FastRep.Reports.Proofs.Ledger
import FastRep.Reports.Proofs.Reached
import FastRep.Reports.Proofs.ReportSchema
import FastRep.Reports.ReportProvider
import Mathlib.Data.List.Forall2

namespace FastRep.Reports

open FastRep.Txn

variable {snapshot : GenerationInputSnapshot} {transcripts : List (Id × String)}
  {request : ProviderReportRequest} {asset : GenerationSnapshotAsset} {k : Nat}
  {images : List ProviderImageInput}

-- ================================================================ labels

/-- Numbers that are written alike are equal. -/
theorem toString_inj {m n : Nat} (h : toString m = toString n) : m = n := by
  have hdigits : Nat.toDigits 10 m = Nat.toDigits 10 n := by
    rw [← Nat.toList_repr, ← Nat.toList_repr]
    exact congrArg String.toList h
  rw [← Nat.ofDigitChars_ten_toDigits (n := m), hdigits, Nat.ofDigitChars_ten_toDigits]

/-- The label of a source in the manifest. -/
def sourceLabel (type : ReportAssetType) (sourceNumber : Nat) : String :=
  sourceTypeLabel type ++ " " ++ toString sourceNumber

/-- So labels that are alike name one source. -/
theorem sourceLabel_inj {type type' : ReportAssetType} {m n : Nat}
    (h : sourceLabel type m = sourceLabel type' n) : type = type' ∧ m = n := by
  have htype : type = type' := by
    have hhead := congrArg (·.toList.take 2) h
    simp only [sourceLabel, String.toList_append, List.append_assoc] at hhead
    cases type <;> cases type' <;> first | rfl | exact absurd hhead (by simp [sourceTypeLabel])
  subst htype
  exact ⟨rfl, toString_inj (String.append_right_inj _ |>.mp h)⟩

theorem aliasAt_inj {i j : Nat} (h : aliasAt i = aliasAt j) : i = j :=
  Nat.succ_injective (toString_inj (String.append_right_inj _ |>.mp h))

-- =============================================================== manifest

/-- The manifest entry of an asset with its number. -/
def manifestEntry (p : GenerationSnapshotAsset × Nat) : ManifestEntry where
  source := sourceLabel p.1.type p.2
  type := p.1.type
  mimeType := p.1.verifiedMimeType
  position := p.1.position

/-- The manifest numbers the assets of each type. -/
theorem assetManifest_eq (counts : ReportAssetType → Nat)
    (assets : List GenerationSnapshotAsset) :
    assetManifest counts assets
      = (numbered GenerationSnapshotAsset.type counts assets).map manifestEntry := by
  induction assets generalizing counts with
  | nil => rfl
  | cons asset rest ih =>
      rw [assetManifest, numbered, List.map_cons, ih]
      rfl

/-- The entry of an asset in the manifest has the label. -/
def Labelled (snapshot : GenerationInputSnapshot) (text : SourceText) (label : String)
    (asset : GenerationSnapshotAsset) : Prop :=
  ∃ entry, (asset, entry) ∈ snapshot.assets.zip text.assetManifest ∧ entry.source = label

theorem zip_assetManifest :
    snapshot.assets.zip (buildSourceText snapshot transcripts).assetManifest
      = (numbered GenerationSnapshotAsset.type (fun _ => 0) snapshot.assets).map fun p =>
        (p.1, manifestEntry p) := by
  have hassets : snapshot.assets = (numbered GenerationSnapshotAsset.type (fun _ => 0)
    snapshot.assets).map (·.1) := numbered_fst.symm
  calc snapshot.assets.zip (buildSourceText snapshot transcripts).assetManifest
      = ((numbered GenerationSnapshotAsset.type (fun _ => 0) snapshot.assets).map (·.1)).zip
          ((numbered GenerationSnapshotAsset.type (fun _ => 0) snapshot.assets).map
            manifestEntry) :=
        congrArg₂ List.zip hassets (assetManifest_eq _ _)
    _ = _ := List.zip_map'

/-- The labels of a type number its assets. -/
theorem labelled_iff {type : ReportAssetType} :
    Labelled snapshot (buildSourceText snapshot transcripts) (sourceLabel type (k + 1)) asset ↔
      (snapshot.assets.filter fun a => a.type = type)[k]? = some asset := by
  have hnumber : Labelled snapshot (buildSourceText snapshot transcripts)
      (sourceLabel type (k + 1)) asset ↔ asset.type = type ∧
        (asset, k + 1) ∈ numbered GenerationSnapshotAsset.type (fun _ => 0) snapshot.assets := by
    rw [Labelled, zip_assetManifest]
    constructor
    · rintro ⟨entry, hentry, hlabel⟩
      obtain ⟨p, hp, hpentry⟩ := List.mem_map.mp hentry
      cases hpentry
      obtain ⟨htype, hk⟩ := sourceLabel_inj hlabel
      exact ⟨htype, hk ▸ hp⟩
    · rintro ⟨rfl, hp⟩
      exact ⟨_, List.mem_map.mpr ⟨_, hp, rfl⟩, rfl⟩
  have hplace : (asset, 0 + k + 1)
      ∈ numbered GenerationSnapshotAsset.type (fun _ => 0) snapshot.assets ↔
        (snapshot.assets.filter fun a => a.type = asset.type)[k]? = some asset :=
    mem_numbered_iff fun _ => 0
  rw [hnumber]
  constructor
  · rintro ⟨rfl, hp⟩
    exact hplace.mp (by rwa [Nat.zero_add])
  · intro hp
    obtain rfl : asset.type = type := by
      simpa using (List.mem_filter.mp (List.mem_of_getElem? hp)).2
    exact ⟨rfl, by simpa only [Nat.zero_add] using hplace.mpr hp⟩

-- ============================================================ transcripts

/-- What the processor hands over: a transcript of every audio asset and an
input for every image of the snapshot, as `requests_prepared` shows of every
request of a run. -/
structure Prepared (snapshot : GenerationInputSnapshot) (transcripts : List (Id × String))
    (request : ProviderReportRequest) : Prop where
  recordings : transcripts.map (·.1)
    = (snapshot.assets.filter fun a => a.type = .audio).map (·.id)
  sourceText : request.sourceText = buildSourceText snapshot transcripts
  photographs : request.images.map (fun i => (i.assetId, i.url)) = imageKeys snapshot

/-- The transcript of the recording with a number. -/
theorem Prepared.transcript (h : Prepared snapshot transcripts request)
    (hasset : (snapshot.assets.filter fun a => a.type = .audio)[k]? = some asset) :
    ∃ text, transcripts[k]? = some (asset.id, text) ∧
      request.sourceText.audioTranscripts[k]? = some (sourceLabel .audio (k + 1), text) := by
  have hid : (transcripts.map (·.1))[k]? = some asset.id := by
    rw [h.recordings, List.getElem?_map, hasset]
    rfl
  rw [List.getElem?_map, Option.map_eq_some_iff] at hid
  obtain ⟨⟨id, text⟩, htext, rfl⟩ := hid
  refine ⟨text, htext, ?_⟩
  rw [h.sourceText, buildSourceText]
  simp only [List.getElem?_mapIdx, htext]
  rfl

/-- The recording of the transcript with a number. -/
theorem Prepared.recording (h : Prepared snapshot transcripts request) {label text : String}
    (htext : request.sourceText.audioTranscripts[k]? = some (label, text)) :
    label = sourceLabel .audio (k + 1) ∧ ∃ asset,
      (snapshot.assets.filter fun a => a.type = .audio)[k]? = some asset ∧
      transcripts[k]? = some (asset.id, text) := by
  rw [h.sourceText, buildSourceText] at htext
  simp only [List.getElem?_mapIdx, Option.map_eq_some_iff] at htext
  obtain ⟨⟨id, text⟩, htranscript, heq⟩ := htext
  cases heq
  have hid : (transcripts.map (·.1))[k]? = some id := by
    rw [List.getElem?_map, htranscript]
    rfl
  rw [h.recordings, List.getElem?_map, Option.map_eq_some_iff] at hid
  obtain ⟨asset, hasset, rfl⟩ := hid
  exact ⟨rfl, asset, hasset, htranscript⟩

/-- The photograph of the image input with a number. -/
theorem Prepared.photograph (h : Prepared snapshot transcripts request)
    {image : ProviderImageInput} (himage : request.images[k]? = some image) :
    ∃ asset, (snapshot.assets.filter fun a => a.type = .image)[k]? = some asset ∧
      image.url = asset.storageKey := by
  have hkey : (request.images.map fun i => (i.assetId, i.url))[k]?
      = some (image.assetId, image.url) := by
    rw [List.getElem?_map, himage]
    rfl
  rw [h.photographs, imageKeys, List.getElem?_map, Option.map_eq_some_iff] at hkey
  obtain ⟨asset, hasset, heq⟩ := hkey
  exact ⟨asset, hasset, (congrArg Prod.snd heq).symm⟩

/-- The image input of the photograph with a number. -/
theorem Prepared.image (h : Prepared snapshot transcripts request)
    (hasset : (snapshot.assets.filter fun a => a.type = .image)[k]? = some asset) :
    ∃ image, request.images[k]? = some image ∧ image.assetId = asset.id ∧
      image.url = asset.storageKey := by
  have hkey : (request.images.map fun i => (i.assetId, i.url))[k]?
      = some (asset.id, asset.storageKey) := by
    rw [h.photographs, imageKeys, List.getElem?_map, hasset]
    rfl
  rw [List.getElem?_map, Option.map_eq_some_iff] at hkey
  obtain ⟨image, himage, heq⟩ := hkey
  exact ⟨image, himage, congrArg Prod.fst heq, congrArg Prod.snd heq⟩

-- ================================================================ aliases

/-- The request shows the model the image under the alias: it announces the
alias, and the image is next. -/
def Presents (request : ProviderReportRequest) (ref : String) (url : StorageKey) : Prop :=
  ∃ before after, responseContent request = before
    ++ .inputText ("The next image is " ++ ref
      ++ ". Use this alias in imageRefs when referencing the image.") :: .inputImage url :: after

/-- An image has the alias of its place. -/
theorem withAliases_getElem? : (withAliases images)[k]? = images[k]?.map fun image =>
    { image with imageAlias := aliasAt k } := List.getElem?_mapIdx

/-- An announcement followed by an image is one of the image contents. -/
theorem exists_of_flatMap_imageContent {l : List ProviderImageInputWithAlias}
    {files before after : List ResponseInputContent} {text : String} {url : StorageKey}
    (hfiles : ∀ text, .inputText text ∉ files)
    (h : l.flatMap imageContent ++ files
      = before ++ .inputText text :: .inputImage url :: after) :
    ∃ image ∈ l, imageContent image = [.inputText text, .inputImage url] := by
  induction l generalizing before with
  | nil =>
      refine absurd ?_ (hfiles text)
      rw [List.flatMap_nil, List.nil_append] at h
      rw [h]
      exact List.mem_append_right _ List.mem_cons_self
  | cons image rest ih =>
      rw [List.flatMap_cons, List.append_assoc] at h
      cases before with
      | nil =>
          cases h
          exact ⟨image, List.mem_cons_self, rfl⟩
      | cons b before =>
          obtain ⟨-, h⟩ := List.cons.inj h
          cases before with
          | nil => cases h
          | cons c before =>
              obtain ⟨other, hother, hcontent⟩ := ih (List.cons.inj h).2
              exact ⟨other, List.mem_cons_of_mem _ hother, hcontent⟩

/-- The image under an alias is the one at its place. -/
theorem presents_iff {url : StorageKey} :
    Presents request (aliasAt k) url ↔ request.images[k]?.map (·.url) = some url := by
  constructor
  · rintro ⟨before, after, h⟩
    rw [responseContent] at h
    cases before with
    | nil => cases h
    | cons b before =>
        obtain ⟨image, himage, hcontent⟩ :=
          exists_of_flatMap_imageContent (by simp) (List.cons.inj h).2
        obtain ⟨j, hj⟩ := List.mem_iff_getElem?.mp himage
        rw [withAliases_getElem?, Option.map_eq_some_iff] at hj
        obtain ⟨input, hinput, rfl⟩ := hj
        simp only [imageContent, List.cons.injEq, ResponseInputContent.inputText.injEq,
          ResponseInputContent.inputImage.injEq, String.append_left_inj, String.append_right_inj]
          at hcontent
        obtain ⟨halias, rfl, -⟩ := hcontent
        rw [← aliasAt_inj halias, hinput]
        rfl
  · intro h
    obtain ⟨input, hinput, rfl⟩ := Option.map_eq_some_iff.mp h
    have himage : { input with imageAlias := aliasAt k } ∈ withAliases request.images :=
      List.mem_of_getElem? (by rw [withAliases_getElem?, hinput]; rfl)
    obtain ⟨before, after, hsplit⟩ := List.append_of_mem himage
    refine ⟨.sourceText request.sourceText :: before.flatMap imageContent,
      after.flatMap imageContent ++ request.documents.map fun d => .inputFile d.fileId, ?_⟩
    rw [responseContent, hsplit, List.flatMap_append, List.flatMap_cons]
    simp only [imageContent, List.cons_append, List.append_assoc, List.nil_append]

-- ============================================================== references

/-- The image with an alias is at its place. -/
theorem eq_of_mem_withAliases {image : ProviderImageInputWithAlias}
    (h : image ∈ withAliases images) (hname : image.imageAlias = aliasAt k) :
    (withAliases images)[k]? = some image := by
  obtain ⟨j, hj⟩ := List.mem_iff_getElem?.mp h
  have hat := hj
  rw [withAliases_getElem?, Option.map_eq_some_iff] at hat
  obtain ⟨input, -, rfl⟩ := hat
  rwa [← aliasAt_inj hname]

/-- An alias leads to the asset of its image. -/
theorem assetIdByAlias_aliasAt :
    assetIdByAlias (withAliases images) (aliasAt k) = images[k]?.map (·.assetId) := by
  have hplace : images[k]?.map (·.assetId) = (withAliases images)[k]?.map (·.assetId) := by
    rw [withAliases_getElem?, Option.map_map]
    rfl
  rw [assetIdByAlias, hplace]
  congr 1
  cases hfind : (withAliases images).reverse.find? fun image => image.imageAlias = aliasAt k with
  | some image =>
      exact (eq_of_mem_withAliases (List.mem_reverse.mp (List.mem_of_find?_eq_some hfind))
        (by simpa using List.find?_some hfind)).symm
  | none =>
      refine (Option.eq_none_iff_forall_ne_some.mpr fun image himage => ?_).symm
      have hname : image.imageAlias = aliasAt k := by
        rw [withAliases_getElem?, Option.map_eq_some_iff] at himage
        obtain ⟨input, -, rfl⟩ := himage
        rfl
      exact List.find?_eq_none.mp hfind image (List.mem_reverse.mpr (List.mem_of_getElem? himage))
        (by simpa using hname)

/-- The references of a section, without repetition. -/
theorem mapImageRefs_ok {aliased : List ProviderImageInputWithAlias}
    (providerRequestId : Option String) (seen : List Id) {ids : List Id} {refs : List String}
    (h : refs.map (assetIdByAlias aliased) = ids.map some) :
    mapImageRefs aliased providerRequestId seen refs
      = .ok (ids.filter (· ∉ seen)).eraseDups := by
  induction refs generalizing seen ids with
  | nil =>
      cases ids with
      | nil => rfl
      | cons id rest => cases h
  | cons ref rest ih =>
      cases ids with
      | nil => cases h
      | cons id others =>
          obtain ⟨hid, hrest⟩ := List.cons.inj h
          rw [mapImageRefs, hid]
          dsimp only
          split_ifs with hseen
          · rw [ih seen hrest, List.filter_cons_of_neg (by simpa using hseen)]
          · rw [ih (id :: seen) hrest, List.filter_cons_of_pos (by simpa using hseen), List.eraseDups_cons,
              List.filter_filter]
            refine congrArg (fun l : List Id => Except.ok (id :: l.eraseDups)) ?_
            refine List.filter_congr fun other _ => ?_
            by_cases hother : other = id <;> simp [hother]

-- ============================================================= the schema

/-- The aliases the schema of the answer lists. -/
def aliasesOf (images : List ProviderImageInput) : List String :=
  (withAliases images).map (·.imageAlias)

/-- Every alias is that of a place. -/
theorem mem_aliasesOf {ref : String} (h : ref ∈ aliasesOf images) :
    ∃ k < images.length, ref = aliasAt k := by
  obtain ⟨image, himage, rfl⟩ := List.mem_map.mp h
  obtain ⟨k, hk⟩ := List.mem_iff_getElem?.mp himage
  rw [withAliases_getElem?, Option.map_eq_some_iff] at hk
  obtain ⟨input, hinput, rfl⟩ := hk
  exact ⟨k, (List.getElem?_eq_some_iff.mp hinput).1, rfl⟩

/-- The references of an accepted answer are aliases of the request. -/
theorem of_parseImageRefs {aliases refs out : List String}
    (h : parseImageRefs aliases refs = some out) :
    out.length ≤ 20 ∧ ∀ ref ∈ out, ref ∈ aliases := by
  unfold parseImageRefs at h
  split_ifs at h
  · obtain ⟨-, hmax, hmap⟩ := boundedList_eq_some.mp h
    refine ⟨length_mapM hmap ▸ hmax, fun ref href => ?_⟩
    obtain ⟨x, -, hx⟩ := mem_mapM hmap ref href
    split_ifs at hx with hmem
    exact Option.some.inj hx ▸ hmem
  · obtain ⟨-, hmax, hmap⟩ := boundedList_eq_some.mp h
    rw [← length_mapM hmap] at hmax
    rw [List.length_eq_zero_iff.mp (Nat.le_zero.mp hmax)]
    exact ⟨Nat.zero_le _, nofun⟩

/-- An answer is parsed field by field. -/
theorem responseSchema_eq_some {aliases : List String} {r parsed : ProviderReportResult} :
    responseSchema aliases r = some parsed ↔
      boundedText 300 r.title = some parsed.title ∧
      parseNullable 500 r.subtitle = some parsed.subtitle ∧
      boundedText 8000 r.summary = some parsed.summary ∧
      boundedList 1 30 (parseProviderSection aliases) r.sections = some parsed.sections ∧
      parseNullable 8000 r.conclusion = some parsed.conclusion ∧
      boundedList 0 30 (boundedText 2000) r.recommendations = some parsed.recommendations := by
  obtain ⟨title, subtitle, summary, sections, conclusion, recommendations⟩ := parsed
  rw [responseSchema]
  constructor
  · intro h
    simp only [Option.bind_eq_bind, Option.bind_eq_some_iff, Option.some.injEq,
      ProviderReportResult.mk.injEq] at h
    obtain ⟨_, h₁, _, h₂, _, h₃, _, h₄, _, h₅, _, h₆, rfl, rfl, rfl, rfl, rfl, rfl⟩ := h
    exact ⟨h₁, h₂, h₃, h₄, h₅, h₆⟩
  · rintro ⟨h₁, h₂, h₃, h₄, h₅, h₆⟩
    rw [h₁, h₂, h₃, h₄, h₅, h₆]
    rfl

/-- A section the schema returned. -/
structure Accepted (aliases : List String) (s : ProviderSection) : Prop where
  title : boundedText 300 s.title = some s.title
  blocks : boundedList 1 50 parseBlock s.blocks = some s.blocks
  length : s.imageRefs.length ≤ 20
  refs : ∀ ref ∈ s.imageRefs, ref ∈ aliases

/-- A section that is parsed is accepted. -/
theorem accepted_of_parse {aliases : List String} {raw s : ProviderSection}
    (h : parseProviderSection aliases raw = some s) : Accepted aliases s := by
  rw [parseProviderSection] at h
  simp only [Option.bind_eq_bind, Option.bind_eq_some_iff, Option.some.injEq] at h
  obtain ⟨title, htitle, blocks, hblocks, refs, hrefs, rfl⟩ := h
  obtain ⟨hlength, hmem⟩ := of_parseImageRefs hrefs
  exact ⟨stable_boundedText _ _ htitle, stable_boundedList stable_parseBlock _ _ hblocks, hlength,
    hmem⟩

-- =============================================================== sections

/-- A section of the report has the texts of the model's section, and for
its references the ids of the photographs of these numbers: in the order of
the first reference, each once. -/
structure SectionOf (snapshot : GenerationInputSnapshot) (p : ProviderSection)
    (s : ReportSection) : Prop where
  title : s.title = p.title
  blocks : s.blocks = p.blocks
  images : ∃ (places : List Nat) (assets : List GenerationSnapshotAsset),
    p.imageRefs = places.map aliasAt ∧
    places.map (fun k => (snapshot.assets.filter fun a => a.type = .image)[k]?)
      = assets.map some ∧
    s.imageAssetIds = (assets.map (·.id)).eraseDups

/-- References that are aliases are the aliases of images. -/
theorem Prepared.referenced (h : Prepared snapshot transcripts request) {refs : List String}
    (hrefs : ∀ ref ∈ refs, ref ∈ aliasesOf request.images) :
    ∃ (places : List Nat) (assets : List GenerationSnapshotAsset),
      refs = places.map aliasAt ∧
      places.map (fun k => (snapshot.assets.filter fun a => a.type = .image)[k]?)
        = assets.map some ∧
      refs.map (assetIdByAlias (withAliases request.images))
        = (assets.map (·.id)).map some := by
  induction refs with
  | nil => exact ⟨[], [], rfl, rfl, rfl⟩
  | cons ref rest ih =>
      obtain ⟨places, assets, hplaces, hassets, hids⟩ :=
        ih fun ref href => hrefs ref (List.mem_cons_of_mem _ href)
      obtain ⟨k, hk, rfl⟩ := mem_aliasesOf (hrefs ref List.mem_cons_self)
      have hlength : request.images.length
          = (snapshot.assets.filter fun a => a.type = .image).length := by
        simpa [imageKeys] using congrArg List.length h.photographs
      obtain ⟨asset, hasset⟩ : ∃ asset,
          (snapshot.assets.filter fun a => a.type = .image)[k]? = some asset :=
        ⟨_, List.getElem?_eq_getElem (hlength ▸ hk)⟩
      obtain ⟨image, himage, hid, -⟩ := h.image hasset
      refine ⟨k :: places, asset :: assets, ?_, ?_, ?_⟩
      · rw [hplaces, List.map_cons]
      · rw [List.map_cons, hasset, hassets, List.map_cons]
      · rw [List.map_cons, hids, assetIdByAlias_aliasAt, himage, Option.map_some, hid]
        rfl

/-- Erasing duplicates makes a list no longer. -/
theorem length_eraseDups_le : ∀ ids : List Id, ids.eraseDups.length ≤ ids.length
  | [] => by simp
  | id :: rest => by
      rw [List.eraseDups_cons, List.length_cons, List.length_cons]
      exact Nat.succ_le_succ ((length_eraseDups_le _).trans (List.length_filter_le _ _))
termination_by ids => ids.length
decreasing_by exact Nat.lt_succ_of_le (List.length_filter_le _ _)

/-- One section is mapped, and the second parse accepts it. -/
theorem Prepared.mapSection (h : Prepared snapshot transcripts request) {p : ProviderSection}
    (hp : Accepted (aliasesOf request.images) p) (providerRequestId : Option String) :
    ∃ ids, mapImageRefs (withAliases request.images) providerRequestId [] p.imageRefs = .ok ids ∧
      SectionOf snapshot p ⟨p.title, p.blocks, ids⟩ ∧
      parseSection ⟨p.title, p.blocks, ids⟩ = some ⟨p.title, p.blocks, ids⟩ := by
  obtain ⟨places, assets, hplaces, hassets, hids⟩ := h.referenced hp.refs
  have hmap := mapImageRefs_ok providerRequestId [] hids
  rw [List.filter_eq_self.mpr fun _ _ => by simp] at hmap
  refine ⟨_, hmap, ⟨rfl, rfl, places, assets, hplaces, hassets, rfl⟩, ?_⟩
  have hlength : (assets.map (·.id)).eraseDups.length ≤ 20 := by
    have hrefs := congrArg List.length hids
    rw [List.length_map, List.length_map, List.length_map] at hrefs
    have := length_eraseDups_le (assets.map (·.id))
    rw [List.length_map] at this
    exact (this.trans hrefs.ge).trans hp.length
  exact parseSection_eq_some.mpr ⟨hp.title, hp.blocks, hlength, rfl⟩

/-- The sections are mapped one by one, and are parsed as they are. -/
theorem Prepared.mapSections (h : Prepared snapshot transcripts request)
    (providerRequestId : Option String) {l : List ProviderSection}
    (hl : ∀ p ∈ l, Accepted (aliasesOf request.images) p) :
    ∃ out, Reports.mapSections (withAliases request.images) providerRequestId l = .ok out ∧
      List.Forall₂ (SectionOf snapshot) l out ∧ out.mapM parseSection = some out := by
  induction l with
  | nil => exact ⟨[], rfl, List.Forall₂.nil, rfl⟩
  | cons p rest ih =>
      obtain ⟨out, hout, hsections, hparse⟩ := ih fun p hp => hl p (List.mem_cons_of_mem _ hp)
      obtain ⟨ids, hids, hsection, hself⟩ := h.mapSection (hl p List.mem_cons_self)
        providerRequestId
      refine ⟨⟨p.title, p.blocks, ids⟩ :: out, ?_, List.Forall₂.cons hsection hsections, ?_⟩
      · rw [Reports.mapSections, hids, hout]
        rfl
      · rw [List.mapM_cons, hself, hparse]
        rfl

-- ============================================================= the report

/-- The report has the texts of the answer and its sections. -/
structure ReportOf (snapshot : GenerationInputSnapshot) (parsed : ProviderReportResult)
    (result : ReportResult) : Prop where
  title : result.title = parsed.title
  subtitle : result.subtitle = parsed.subtitle
  summary : result.summary = parsed.summary
  sections : List.Forall₂ (SectionOf snapshot) parsed.sections result.sections
  conclusion : result.conclusion = parsed.conclusion
  recommendations : result.recommendations = parsed.recommendations

/-- A mapped section refers to images of the snapshot. -/
theorem SectionOf.mem {p : ProviderSection} {s : ReportSection} (h : SectionOf snapshot p s) :
    ∀ id ∈ s.imageAssetIds,
      id ∈ (snapshot.assets.filter fun a => a.type = .image).map (·.id) := by
  obtain ⟨places, assets, -, hassets, hids⟩ := h.images
  intro id hid
  rw [hids, List.mem_eraseDups, List.mem_map] at hid
  obtain ⟨asset, hasset, rfl⟩ := hid
  have hsome : some asset ∈ assets.map some := List.mem_map.mpr ⟨asset, hasset, rfl⟩
  rw [← hassets, List.mem_map] at hsome
  obtain ⟨k, -, hk⟩ := hsome
  exact List.mem_map.mpr ⟨asset, List.mem_of_getElem? hk, rfl⟩

/-- A report with such sections passes `validateImageReferences`. -/
theorem ReportOf.valid {parsed : ProviderReportResult} {result : ReportResult}
    (h : ReportOf snapshot parsed result) : validateImageReferences result
      (snapshot.assets.filter fun a => a.type = .image) = pure () := by
  refine if_neg ?_
  rw [Bool.not_eq_true, List.any_eq_false]
  intro id hid
  obtain ⟨s, hs, hmem⟩ := List.mem_flatMap.mp hid
  obtain ⟨i, hi, rfl⟩ := List.mem_iff_getElem.mp hs
  obtain ⟨hlength, hsection⟩ := List.forall₂_iff_get.mp h.sections
  have hknown := (hsection i (hlength ▸ hi) hi).mem id hmem
  exact fun hnot => of_decide_eq_true hnot hknown

/-- Every answer the schema accepts is mapped, and the processor takes the
report as it is. -/
theorem Prepared.mapImageAliases (h : Prepared snapshot transcripts request)
    (providerRequestId : Option String) {output parsed : ProviderReportResult}
    (hparsed : responseSchema (aliasesOf request.images) output = some parsed) :
    ∃ result, Reports.mapImageAliases parsed (withAliases request.images) providerRequestId
        = .ok result ∧
      ReportOf snapshot parsed result ∧ parseReportResult result = some result := by
  obtain ⟨htitle, hsubtitle, hsummary, hsections, hconclusion, hrecommendations⟩ :=
    responseSchema_eq_some.mp hparsed
  obtain ⟨hmin, hmax, hmap⟩ := boundedList_eq_some.mp hsections
  have haccepted : ∀ p ∈ parsed.sections, Accepted (aliasesOf request.images) p := by
    intro p hp
    obtain ⟨raw, -, hraw⟩ := mem_mapM hmap p hp
    exact accepted_of_parse hraw
  obtain ⟨out, hout, hsectionsOf, hself⟩ := h.mapSections providerRequestId haccepted
  have hlength : out.length = output.sections.length :=
    (hsectionsOf.length_eq.symm).trans (length_mapM hmap)
  have hparse : parseReportResult ⟨parsed.title, parsed.subtitle, parsed.summary, out,
      parsed.conclusion, parsed.recommendations⟩ = some ⟨parsed.title, parsed.subtitle,
        parsed.summary, out, parsed.conclusion, parsed.recommendations⟩ :=
    parseReportResult_eq_some.mpr ⟨stable_boundedText _ _ htitle,
      stable_parseNullable _ _ hsubtitle, stable_boundedText _ _ hsummary,
      boundedList_eq_some.mpr ⟨hlength ▸ hmin, hlength ▸ hmax, hself⟩,
      stable_parseNullable _ _ hconclusion,
      stable_boundedList stable_boundedText _ _ hrecommendations⟩
  refine ⟨_, ?_, ⟨rfl, rfl, rfl, hsectionsOf, rfl, rfl⟩, hparse⟩
  rw [Reports.mapImageAliases, hout]
  simp only [bind, Except.bind, hparse]

-- ============================================================== agreement

/-- The numbers of the sources are the same in the manifest, the transcripts,
the aliases and the report. -/
structure SourcesAgree (snapshot : GenerationInputSnapshot) (transcripts : List (Id × String))
    (request : ProviderReportRequest) : Prop where
  /-- A recording of the manifest has the transcript of its label. -/
  recordings : ∀ k asset, Labelled snapshot request.sourceText (sourceLabel .audio (k + 1)) asset →
    ∃ text, transcripts[k]? = some (asset.id, text) ∧
      request.sourceText.audioTranscripts[k]? = some (sourceLabel .audio (k + 1), text)
  /-- A transcript is of the recording of its label. -/
  transcripts : ∀ (k : Nat) (label text : String),
    request.sourceText.audioTranscripts[k]? = some (label, text) →
    label = sourceLabel .audio (k + 1) ∧ ∃ asset,
      Labelled snapshot request.sourceText label asset ∧ transcripts[k]? = some (asset.id, text)
  /-- A photograph of the manifest is shown under the alias of its number. -/
  photographs : ∀ k asset,
    Labelled snapshot request.sourceText (sourceLabel .image (k + 1)) asset →
    ∀ url, Presents request (aliasAt k) url ↔ url = asset.storageKey
  /-- What is shown under an alias is a photograph of the manifest. -/
  aliases : ∀ k url, Presents request (aliasAt k) url →
    ∃ asset, Labelled snapshot request.sourceText (sourceLabel .image (k + 1)) asset ∧
      url = asset.storageKey
  /-- An answer the schema accepts is mapped to a report with its texts and
  these photographs, which the processor accepts as it is. -/
  mapped : ∀ providerRequestId output parsed,
    responseSchema ((withAliases request.images).map (·.imageAlias)) output = some parsed →
    ∃ result, Reports.mapImageAliases parsed (withAliases request.images) providerRequestId
        = .ok result ∧
      ReportOf snapshot parsed result ∧ parseReportResult result = some result ∧
      validateImageReferences result (snapshot.assets.filter fun a => a.type = .image) = pure ()

/-- In a prepared request the numbers of the sources agree. -/
theorem Prepared.agree (h : Prepared snapshot transcripts request) :
    SourcesAgree snapshot transcripts request where
  recordings k asset hlabel := by
    rw [h.sourceText, labelled_iff] at hlabel
    exact h.transcript hlabel
  transcripts k label text htext := by
    obtain ⟨hlabel, asset, hasset, htranscript⟩ := h.recording htext
    refine ⟨hlabel, asset, ?_, htranscript⟩
    rw [hlabel, h.sourceText, labelled_iff]
    exact hasset
  photographs k asset hlabel url := by
    rw [h.sourceText, labelled_iff] at hlabel
    obtain ⟨image, himage, -, hurl⟩ := h.image hlabel
    rw [presents_iff, himage, Option.map_some, hurl, Option.some.injEq]
    exact eq_comm
  aliases k url hpresents := by
    obtain ⟨image, himage, rfl⟩ := Option.map_eq_some_iff.mp (presents_iff.mp hpresents)
    obtain ⟨asset, hasset, hurl⟩ := h.photograph himage
    refine ⟨asset, ?_, hurl⟩
    rw [h.sourceText, labelled_iff]
    exact hasset
  mapped providerRequestId output parsed hparsed := by
    obtain ⟨result, hresult, hreport, hself⟩ := h.mapImageAliases providerRequestId hparsed
    exact ⟨result, hresult, hreport, hself, hreport.valid⟩

/-- A computation that succeeds has succeeded with its first part. -/
theorem of_bind_eq_ok {α β : Type} {x : Except Error α} {f : α → Except Error β} {b : β}
    (h : x >>= f = .ok b) : ∃ a, x = .ok a ∧ f a = .ok b := by
  cases x with
  | error e => cases h
  | ok a => exact ⟨a, rfl, h⟩

/-- So a report that `generateReport` returns is made of an answer the schema
accepts, and the processor takes it. -/
theorem SourcesAgree.generated (h : SourcesAgree snapshot transcripts request) {now : Time}
    {respond : List ResponseInputContent → Except Error ParsedResponse}
    {r : ProviderResult ReportResult} (hok : generateReport now request respond = .ok r) :
    ∃ response output parsed, respond (responseContent request) = .ok response ∧
      response.outputParsed = some output ∧
      responseSchema ((withAliases request.images).map (·.imageAlias)) output = some parsed ∧
      ReportOf snapshot parsed r.value ∧ validateImageReferences r.value
        (snapshot.assets.filter fun a => a.type = .image) = pure () := by
  unfold generateReport at hok
  obtain ⟨-, -, hok⟩ := of_bind_eq_ok hok
  obtain ⟨response, hresponse, hok⟩ := of_bind_eq_ok hok
  unfold readResponse at hok
  split at hok
  next => cases hok
  next output houtput =>
      split at hok
      next => cases hok
      next parsed hparsed =>
          obtain ⟨value, hvalue, hok⟩ := of_bind_eq_ok hok
          cases hok
          obtain ⟨result, hresult, hreport, -, hvalid⟩ :=
            h.mapped response.requestId output parsed hparsed
          cases hvalue.symm.trans hresult
          exact ⟨response, output, parsed, hresponse, (Option.filter_eq_some_iff.mp houtput).1,
            hparsed, hreport, hvalid⟩

/-- The numbers of the sources agree, for every snapshot. -/
theorem source_numbers_agree (h : Prepared snapshot transcripts request) :
    SourcesAgree snapshot transcripts request :=
  h.agree

-- ======================================================= a mixed snapshot

/-- An asset of a type, of any format. -/
def mixedAsset (id : Id) (type : ReportAssetType) : GenerationSnapshotAsset where
  id := id
  type := type
  verifiedMimeType := "image/png"
  verifiedSize := 1
  position := id
  storageKey := .asset 1 10 id 0
  originalFileName := "file"

/-- Two photographs and two recordings around a document. -/
def mixedSnapshot : GenerationInputSnapshot where
  version := 1
  report := ⟨10, "t", none, "en", none⟩
  assets := [mixedAsset 0 .image, mixedAsset 1 .audio, mixedAsset 2 .document, mixedAsset 3 .audio,
    mixedAsset 4 .image]
  createdAt := 0

def mixedTranscripts : List (Id × String) := [(1, "one"), (3, "two")]

def mixedRequest : ProviderReportRequest where
  sourceText := buildSourceText mixedSnapshot mixedTranscripts
  images := [⟨0, .asset 1 10 0 0, "image/png", 900⟩, ⟨4, .asset 1 10 4 0, "image/png", 900⟩]
  documents := [⟨2, 7⟩]
  safetyIdentifier := 1
  maxOutputTokens := 6000

/-- The numbers agree for two images, a recording and a document between them.
-/
theorem source_numbers_agree_mixed :
    SourcesAgree mixedSnapshot mixedTranscripts mixedRequest :=
  source_numbers_agree ⟨by decide, rfl, by decide⟩

-- ============================================================ the requests

/-- Every request for a report that a run makes is prepared from the
snapshot of its generation. -/
theorem requests_prepared {cfg : Config} {w : RWorld} (h : Reached cfg w) {e : REntry}
    (he : e ∈ w.shared.trace) {c : Choice} (hcall : e.event = .call (.generateReport request) c) :
    ∃ generationId snapshot transcripts,
      Once w.shared (fun d => ∃ x, generation? d generationId = some x ∧
        x.inputSnapshot = some snapshot) ∧ Prepared snapshot transcripts request := by
  obtain ⟨start, hstart, hruns⟩ := h.runs
  obtain ⟨S₀, S₁, hpast⟩ := hruns.since hstart.trace he
  have hpromise := hpast.promised
  rw [hcall] at hpromise
  obtain ⟨g, tok, snapshot, transcripts, -, ⟨honce, hrecordings, -⟩, -, htext, himages⟩ := hpromise
  have hsuffix := (List.suffix_cons e S₀.trace).trans hpast.suffix
  exact ⟨g, snapshot, transcripts, honce.mono hsuffix, hrecordings, htext, himages⟩

/-- So the numbers agree in every request for a report of every run, with the
snapshot of its generation. -/
theorem requests_agree {cfg : Config} {w : RWorld} (h : Reached cfg w) {e : REntry}
    (he : e ∈ w.shared.trace) {c : Choice} (hcall : e.event = .call (.generateReport request) c) :
    ∃ generationId snapshot transcripts,
      Once w.shared (fun d => ∃ x, generation? d generationId = some x ∧
        x.inputSnapshot = some snapshot) ∧ SourcesAgree snapshot transcripts request := by
  obtain ⟨g, snapshot, transcripts, honce, hprepared⟩ := requests_prepared h he hcall
  exact ⟨g, snapshot, transcripts, honce, hprepared.agree⟩

end FastRep.Reports
