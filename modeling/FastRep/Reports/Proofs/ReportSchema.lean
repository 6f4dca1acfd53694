/-
`reportResultSchema` as a parser: what is parsed is `Stable`, so that
parsing it again changes nothing (`stable_parseReportResult`).

The schema trims its texts, and a trimmed text is already trimmed
(`trim_trim`); everything else it only checks.

A result is parsed more than once. The provider parses the answer of the model
before it maps the aliases and after, and the processor parses what the provider
returns; a run that finds a stored result parses it again before it renders it.
Stability is what makes these one result: the numbers of the sources stay where
they are (`FastRep.Reports.Proofs.SourceNumbers`), and what is rendered is what
the schema makes of it (`FastRep.Reports.Proofs.PdfReports`).
-/
import FastRep.Reports.Processor
import Mathlib.Data.List.DropRight

namespace FastRep.Reports

variable {α β : Type} {minimum maximum : Nat}

-- ================================================================== lists

/-- What a parse of a list gives was parsed from one of its elements. -/
theorem mem_mapM {parse : α → Option β} {l : List α} {out : List β}
    (h : l.mapM parse = some out) : ∀ y ∈ out, ∃ x ∈ l, parse x = some y := by
  induction l generalizing out with
  | nil =>
      cases h
      simp
  | cons a l ih =>
      rw [List.mapM_cons] at h
      obtain ⟨b, hb, h⟩ := Option.bind_eq_some_iff.mp h
      obtain ⟨bs, hbs, h⟩ := Option.bind_eq_some_iff.mp h
      cases h
      intro y hy
      rcases List.mem_cons.mp hy with rfl | hy
      · exact ⟨a, List.mem_cons_self, hb⟩
      · obtain ⟨x, hx, hparse⟩ := ih hbs y hy
        exact ⟨x, List.mem_cons_of_mem _ hx, hparse⟩

/-- A parse of a list gives as many. -/
theorem length_mapM {parse : α → Option β} {l : List α} {out : List β}
    (h : l.mapM parse = some out) : out.length = l.length := by
  induction l generalizing out with
  | nil =>
      cases h
      rfl
  | cons a l ih =>
      rw [List.mapM_cons] at h
      obtain ⟨b, hb, h⟩ := Option.bind_eq_some_iff.mp h
      obtain ⟨bs, hbs, h⟩ := Option.bind_eq_some_iff.mp h
      cases h
      rw [List.length_cons, List.length_cons, ih hbs]

/-- A list of what parses as it is parses as it is. -/
theorem mapM_self {parse : α → Option α} {l : List α} (h : ∀ x ∈ l, parse x = some x) :
    l.mapM parse = some l := by
  induction l with
  | nil => rfl
  | cons a l ih =>
      rw [List.mapM_cons, h a List.mem_cons_self,
        ih fun x hx => h x (List.mem_cons_of_mem _ hx)]
      rfl

/-- A bounded list is parsed within its bounds, element by element. -/
theorem boundedList_eq_some {parse : α → Option β} {l : List α} {out : List β} :
    boundedList minimum maximum parse l = some out ↔
      minimum ≤ l.length ∧ l.length ≤ maximum ∧ l.mapM parse = some out := by
  unfold boundedList
  split_ifs with h
  · exact ⟨fun hout => ⟨h.1, h.2, hout⟩, fun hout => hout.2.2⟩
  · exact ⟨nofun, fun hout => absurd ⟨hout.1, hout.2.1⟩ h⟩

-- ================================================================ stable

/-- What is parsed is parsed as it is. -/
def Stable (parse : α → Option α) : Prop := ∀ x y, parse x = some y → parse y = some y

/-- So it is stable where its elements are. -/
theorem stable_boundedList {parse : α → Option α} (h : Stable parse) :
    Stable (boundedList minimum maximum parse) := by
  intro l out hout
  obtain ⟨hmin, hmax, hmap⟩ := boundedList_eq_some.mp hout
  rw [← length_mapM hmap] at hmin hmax
  refine boundedList_eq_some.mpr ⟨hmin, hmax, mapM_self fun y hy => ?_⟩
  obtain ⟨x, -, hx⟩ := mem_mapM hmap y hy
  exact h x y hx

theorem trimList_trimList (space : α → Bool) (l : List α) :
    trimList space (trimList space l) = trimList space l := by
  have hfront : (trimList space l).dropWhile space = trimList space l := by
    rw [List.dropWhile_eq_self_iff]
    intro hlength
    have hfirst : trimList space l <+: l.dropWhile space :=
      List.rdropWhile_prefix space (l.dropWhile space)
    have hlt := hlength.trans_le hfirst.length_le
    rw [hfirst.getElem hlength]
    exact List.dropWhile_get_zero_not _ l hlt
  rw [trimList, hfront, trimList, List.reverse_reverse, List.dropWhile_idempotent]

theorem trim_trim (s : String) : trim (trim s) = trim s := by
  rw [trim, trim, String.toList_ofList, trimList_trimList]

/-- A bounded text is trimmed and within its bounds. -/
theorem boundedText_eq_some {s t : String} : boundedText maximum s = some t ↔
    1 ≤ utf16Length (trim s) ∧ utf16Length (trim s) ≤ maximum ∧ trim s = t := by
  unfold boundedText
  split_ifs with h
  · exact ⟨fun ht => ⟨h.1, h.2, Option.some.inj ht⟩, fun ht => congrArg some ht.2.2⟩
  · exact ⟨nofun, fun ht => absurd ⟨ht.1, ht.2.1⟩ h⟩

theorem stable_boundedText : Stable (boundedText maximum) := by
  intro s t ht
  obtain ⟨hmin, hmax, rfl⟩ := boundedText_eq_some.mp ht
  rw [boundedText_eq_some, trim_trim]
  exact ⟨hmin, hmax, rfl⟩

theorem stable_parseNullable : Stable (parseNullable maximum) := by
  intro s t ht
  cases s with
  | none =>
      cases ht
      rfl
  | some s =>
      rw [parseNullable] at ht
      obtain ⟨text, htext, rfl⟩ := Option.map_eq_some_iff.mp ht
      rw [parseNullable, stable_boundedText _ _ htext]
      rfl

/-- A paragraph and a list are bounded texts. -/
theorem stable_parseBlock : Stable parseBlock := by
  intro block parsed h
  cases block with
  | paragraph text =>
      rw [parseBlock] at h
      obtain ⟨text', htext, rfl⟩ := Option.map_eq_some_iff.mp h
      rw [parseBlock, stable_boundedText _ _ htext]
      rfl
  | bulletList items =>
      rw [parseBlock] at h
      obtain ⟨items', hitems, rfl⟩ := Option.map_eq_some_iff.mp h
      rw [parseBlock, stable_boundedList stable_boundedText _ _ hitems]
      rfl

/-- A section is parsed field by field. -/
theorem parseSection_eq_some {s parsed : ReportSection} :
    parseSection s = some parsed ↔
      boundedText 300 s.title = some parsed.title ∧
      boundedList 1 50 parseBlock s.blocks = some parsed.blocks ∧
      s.imageAssetIds.length ≤ 20 ∧ s.imageAssetIds = parsed.imageAssetIds := by
  obtain ⟨title, blocks, imageAssetIds⟩ := parsed
  rw [parseSection]
  constructor
  · intro h
    simp only [Option.bind_eq_bind, Option.bind_eq_some_iff] at h
    obtain ⟨_, h₁, _, h₂, h⟩ := h
    split_ifs at h with hlength
    cases h
    exact ⟨h₁, h₂, hlength, rfl⟩
  · rintro ⟨h₁, h₂, hlength, rfl⟩
    rw [h₁, h₂]
    exact if_pos hlength

/-- A section is its title, its blocks, and references that are not touched.
-/
theorem stable_parseSection : Stable parseSection := by
  intro s parsed h
  obtain ⟨htitle, hblocks, hlength, hids⟩ := parseSection_eq_some.mp h
  exact parseSection_eq_some.mpr ⟨stable_boundedText _ _ htitle,
    stable_boundedList stable_parseBlock _ _ hblocks, hids ▸ hlength, rfl⟩

/-- A report is parsed field by field. -/
theorem parseReportResult_eq_some {r parsed : ReportResult} :
    parseReportResult r = some parsed ↔
      boundedText 300 r.title = some parsed.title ∧
      parseNullable 500 r.subtitle = some parsed.subtitle ∧
      boundedText 8000 r.summary = some parsed.summary ∧
      boundedList 1 30 parseSection r.sections = some parsed.sections ∧
      parseNullable 8000 r.conclusion = some parsed.conclusion ∧
      boundedList 0 30 (boundedText 2000) r.recommendations = some parsed.recommendations := by
  obtain ⟨title, subtitle, summary, sections, conclusion, recommendations⟩ := parsed
  rw [parseReportResult]
  constructor
  · intro h
    simp only [Option.bind_eq_bind, Option.bind_eq_some_iff, Option.some.injEq,
      ReportResult.mk.injEq] at h
    obtain ⟨_, h₁, _, h₂, _, h₃, _, h₄, _, h₅, _, h₆, rfl, rfl, rfl, rfl, rfl, rfl⟩ := h
    exact ⟨h₁, h₂, h₃, h₄, h₅, h₆⟩
  · rintro ⟨h₁, h₂, h₃, h₄, h₅, h₆⟩
    rw [h₁, h₂, h₃, h₄, h₅, h₆]
    rfl

/-- A parsed result is parsed as it is. -/
theorem stable_parseReportResult : Stable parseReportResult := by
  intro r parsed h
  obtain ⟨htitle, hsubtitle, hsummary, hsections, hconclusion, hrecommendations⟩ :=
    parseReportResult_eq_some.mp h
  exact parseReportResult_eq_some.mpr ⟨stable_boundedText _ _ htitle,
    stable_parseNullable _ _ hsubtitle, stable_boundedText _ _ hsummary,
    stable_boundedList stable_parseSection _ _ hsections,
    stable_parseNullable _ _ hconclusion,
    stable_boundedList stable_boundedText _ _ hrecommendations⟩

end FastRep.Reports
