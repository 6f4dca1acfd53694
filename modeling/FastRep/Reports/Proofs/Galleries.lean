/-
The gallery layout stays on the page: for all images and any starting `y`
(`gallery_stays_on_page`).

`Laid` says what a part of the gallery leaves: its images in their
rectangles, between the cursor it started from and the one it ends with.
It holds of a row (`laid_row`), and parts one after the other compose
(`Laid.append`), so the row loop is an induction over its rows.

# One row

An image is fitted into its cell by one scale for both sides, at most 1
(`Fits`). The cells of a row stand between the margins, one before the other,
and each image stays in its cell (`drawCells_before`, `mem_drawCells`).
`ensureSpace_spec` is the page break: after it, or without one, the row has
its height left on the page, since no row is higher than a page has room for
(`rowHeight_le`).

# The start

A gallery may begin anywhere on a page. Where it begins above the top margin
and there is room, it is drawn there (`gallery_above_margin`); from the
margin on everything stays between the margins, and pages that the gallery
adds begin at the top margin.
-/
import FastRep.Reports.Gallery
import Mathlib.Data.List.Forall2
import Mathlib.Tactic.NormNum
import Mathlib.Tactic.Positivity
import Mathlib.Tactic.Ring

namespace FastRep.Reports.Layout

variable {kit : Kit} {images : List (Id × Bytes)} {document : Document} {columns : Columns}
  {openedImages openedImages' row : List OpenedImage} {opened : OpenedImage} {d : Drawn}
  {l l' : List Drawn} {page i : Nat} {left rowTop height : ℚ}

-- ============================================================ dimensions

/-- Both sides of the source are positive. -/
def Upright (opened : OpenedImage) : Prop := 0 < opened.source.width ∧ 0 < opened.source.height

/-- A side scaled by at most the quotient stays within its maximum. -/
theorem mul_le_of_le_div {side maximum scale : ℚ} (hside : 0 < side)
    (hscale : scale ≤ maximum / side) : side * scale ≤ maximum := by
  rw [le_div_iff₀ hside] at hscale
  linarith [mul_comm side scale]

/-- A fitted image is no wider than its cell. -/
theorem fitted_width_le (h : Upright opened) :
    (opened.fitted columns.cellWidth columns.maximumHeight).width ≤ columns.cellWidth :=
  mul_le_of_le_div h.1 ((min_le_left _ _).trans (min_le_left _ _))

/-- A fitted image is no higher than it may be. -/
theorem fitted_height_le (columns : Columns) (h : Upright opened) :
    (opened.fitted columns.cellWidth columns.maximumHeight).height ≤ columns.maximumHeight :=
  mul_le_of_le_div h.2 ((min_le_left _ _).trans (min_le_right _ _))

/-- Cells have a width, for one column and for two. -/
theorem cellWidth_pos : 0 < columns.cellWidth := by
  cases columns <;> norm_num [Columns.cellWidth, twoColumnCellWidth, contentWidth, pageWidth,
    pageMarginX, galleryGap, singleImageMaxWidth]

theorem maximumHeight_pos : 0 < columns.maximumHeight := by
  cases columns <;> norm_num [Columns.maximumHeight, singleImageMaxHeight, gridImageMaxHeight]

/-- The scale of an image in a cell is positive. -/
theorem scale_pos (h : Upright opened) : 0 < min (min (columns.cellWidth / opened.source.width)
    (columns.maximumHeight / opened.source.height)) 1 :=
  lt_min (lt_min (div_pos cellWidth_pos h.1) (div_pos maximumHeight_pos h.2)) one_pos

/-- The image of a drawing, not enlarged and with the ratio of its source. -/
structure Fits (opened : OpenedImage) (d : Drawn) : Prop where
  image : d.image = opened.image
  positive : 0 < d.rect.width ∧ 0 < d.rect.height
  ratio : d.rect.width * opened.source.height = d.rect.height * opened.source.width
  width : d.rect.width ≤ opened.source.width
  height : d.rect.height ≤ opened.source.height

/-- A row is as high as each of its images. -/
theorem le_rowHeight (h : opened ∈ row) :
    (opened.fitted columns.cellWidth columns.maximumHeight).height ≤ rowHeight columns row := by
  induction row with
  | nil => cases h
  | cons first rest ih =>
      cases rest with
      | nil =>
          rw [List.mem_singleton.mp h]
          exact le_refl _
      | cons second rest =>
          rcases List.mem_cons.mp h with rfl | h
          · exact le_max_left _ _
          · exact (ih h).trans (le_max_right _ _)

theorem rowHeight_nonneg (columns : Columns) (h : ∀ opened ∈ row, Upright opened) : 0 ≤ rowHeight columns row := by
  cases row with
  | nil => exact le_refl _
  | cons first rest =>
      have hfirst := h first List.mem_cons_self
      exact (mul_pos hfirst.2 (scale_pos hfirst)).le.trans (le_rowHeight List.mem_cons_self)

/-- No row is higher than an image may be. -/
theorem rowHeight_le (columns : Columns) (h : ∀ opened ∈ row, Upright opened) :
    rowHeight columns row ≤ columns.maximumHeight := by
  induction row with
  | nil => exact maximumHeight_pos.le
  | cons first rest ih =>
      have hfirst := fitted_height_le columns (h first List.mem_cons_self)
      cases rest with
      | nil => exact hfirst
      | cons second rest =>
          exact max_le hfirst (ih fun opened hopened => h opened (List.mem_cons_of_mem _ hopened))

-- ================================================================= cells

/-- A cell of a row. -/
def cell (columns : Columns) (left rowTop height : ℚ) (columnIndex : Nat) : Rect ℚ where
  x := left + columnIndex * (columns.cellWidth + galleryGap)
  y := rowTop
  width := columns.cellWidth
  height := height

/-- The first image of a row is centred in its cell, the others follow. -/
theorem drawCells_cons : drawCells columns page left rowTop height i (opened :: row) =
    ⟨opened.image, page, (cell columns left rowTop height i).centred
      (opened.fitted columns.cellWidth columns.maximumHeight).width
      (opened.fitted columns.cellWidth columns.maximumHeight).height⟩
    :: drawCells columns page left rowTop height (i + 1) row := rfl

/-- A cell stands before those further to the right. -/
theorem cell_before {j : Nat} (h : i < j) :
    (cell columns left rowTop height i).Before (cell columns left rowTop height j) := by
  obtain ⟨k, rfl⟩ := Nat.exists_eq_add_of_lt h
  have hgap : (0 : ℚ) < galleryGap := by norm_num [galleryGap]
  have hstep : (0 : ℚ) ≤ k * (columns.cellWidth + galleryGap) :=
    mul_nonneg k.cast_nonneg (add_nonneg cellWidth_pos.le hgap.le)
  refine Or.inl ?_
  simp only [cell, Rect.right]
  push_cast
  linarith

/-- What is drawn stands in the cells of the row. -/
theorem mem_drawCells (hrow : ∀ opened ∈ row, Upright opened)
    (hheight : ∀ opened ∈ row,
      (opened.fitted columns.cellWidth columns.maximumHeight).height ≤ height)
    (hd : d ∈ drawCells columns page left rowTop height i row) :
    d.page = page ∧ ∃ j, i ≤ j ∧ j < i + row.length ∧
      d.rect.Within (cell columns left rowTop height j) := by
  induction row generalizing i with
  | nil => cases hd
  | cons opened rest ih =>
      rw [drawCells_cons] at hd
      rcases List.mem_cons.mp hd with rfl | hd
      · exact ⟨rfl, i, le_refl i, by simp, Rect.centred_within
          (fitted_width_le (hrow opened List.mem_cons_self)) (hheight opened List.mem_cons_self)⟩
      · obtain ⟨hpage, j, hij, hj, hwithin⟩ := ih
          (fun opened hopened => hrow opened (List.mem_cons_of_mem _ hopened))
          (fun opened hopened => hheight opened (List.mem_cons_of_mem _ hopened)) hd
        exact ⟨hpage, j, by omega, by rw [List.length_cons]; omega, hwithin⟩

/-- The images of a row stand side by side. -/
theorem drawCells_before (hrow : ∀ opened ∈ row, Upright opened)
    (hheight : ∀ opened ∈ row,
      (opened.fitted columns.cellWidth columns.maximumHeight).height ≤ height) :
    (drawCells columns page left rowTop height i row).Pairwise fun d e =>
      d.rect.Before e.rect := by
  induction row generalizing i with
  | nil => exact List.Pairwise.nil
  | cons opened rest ih =>
      have hrest := fun opened hopened => hrow opened (List.mem_cons_of_mem _ hopened)
      have hheights := fun opened hopened => hheight opened (List.mem_cons_of_mem _ hopened)
      rw [drawCells_cons]
      refine List.pairwise_cons.mpr ⟨fun e he => ?_, ih hrest hheights⟩
      obtain ⟨-, j, hij, -, hwithin⟩ := mem_drawCells hrest hheights he
      exact (cell_before hij).within (Rect.centred_within
        (fitted_width_le (hrow opened List.mem_cons_self)) (hheight opened List.mem_cons_self))
        hwithin

/-- Each image of a row is drawn in its fitted size. -/
theorem drawCells_fits (hrow : ∀ opened ∈ row, Upright opened) :
    List.Forall₂ Fits row (drawCells columns page left rowTop height i row) := by
  induction row generalizing i with
  | nil => exact List.Forall₂.nil
  | cons opened rest ih =>
      have hopened := hrow opened List.mem_cons_self
      refine List.Forall₂.cons ⟨rfl,
        ⟨mul_pos hopened.1 (scale_pos hopened), mul_pos hopened.2 (scale_pos hopened)⟩, ?_, ?_, ?_⟩
        (ih fun opened hopened => hrow opened (List.mem_cons_of_mem _ hopened))
      · simp only [OpenedImage.fitted, fitImageDimensions]
        ring
      · exact mul_le_of_le_one_right hopened.1.le (min_le_right _ _)
      · exact mul_le_of_le_one_right hopened.2.le (min_le_right _ _)

/-- A row has one image, or two in two columns. -/
def RowOf (columns : Columns) (row : List OpenedImage) : Prop :=
  row.length = 1 ∨ columns = .two ∧ row.length = 2

/-- The cells of a row are between the margins. -/
theorem cell_margins (hrow : RowOf columns row) (hi : i < row.length) :
    pageMarginX ≤ (cell columns (rowLeft columns row.length) rowTop height i).x ∧
      (cell columns (rowLeft columns row.length) rowTop height i).right
        ≤ pageWidth - pageMarginX := by
  rcases hrow with hlength | ⟨rfl, hlength⟩
  · rw [hlength] at hi ⊢
    obtain rfl : i = 0 := by omega
    cases columns <;> constructor <;> norm_num [cell, Rect.right, rowLeft, Columns.cellWidth,
      twoColumnCellWidth, contentWidth, pageWidth, pageMarginX, galleryGap, singleImageMaxWidth]
  · rw [hlength] at hi ⊢
    rcases (show i = 0 ∨ i = 1 by omega) with rfl | rfl <;> constructor <;>
      norm_num [cell, Rect.right, rowLeft, Columns.cellWidth, twoColumnCellWidth, contentWidth,
        pageWidth, pageMarginX, galleryGap]

-- ================================================================ cursor

/-- How far down a document is. -/
structure Cursor where
  page : Nat
  y : ℚ

def Document.cursor (document : Document) : Cursor := ⟨document.page, document.y⟩

/-- A cursor is further down the page, or on a later page within its top
margin. -/
def Cursor.Reaches (c c' : Cursor) : Prop :=
  c.page = c'.page ∧ c.y ≤ c'.y ∨ c.page < c'.page ∧ pageMarginTop ≤ c'.y

theorem Cursor.Reaches.refl (c : Cursor) : c.Reaches c := Or.inl ⟨rfl, le_refl _⟩

/-- From a place that was reached, one reaches on. -/
theorem Cursor.Reaches.trans {c c' c'' : Cursor} (h : c.Reaches c') (h' : c'.Reaches c'') :
    c.Reaches c'' := by
  rcases h with ⟨hp, hy⟩ | ⟨hp, hy⟩ <;> rcases h' with ⟨hp', hy'⟩ | ⟨hp', hy'⟩
  · exact Or.inl ⟨hp.trans hp', hy.trans hy'⟩
  · exact Or.inr ⟨hp ▸ hp', hy'⟩
  · exact Or.inr ⟨hp' ▸ hp, hy.trans hy'⟩
  · exact Or.inr ⟨hp.trans hp', hy'⟩

/-- Whatever is reached, what is below it on the page is reached. -/
theorem Cursor.Reaches.of_le {c c' : Cursor} {y : ℚ} (h : c.Reaches c') (hy : c'.y ≤ y) :
    c.Reaches ⟨c'.page, y⟩ :=
  h.trans (Or.inl ⟨rfl, hy⟩)

/-- After a page break or without one, there is space where a page has it. -/
theorem ensureSpace_spec (document : Document) {points : ℚ} (h : pageMarginTop + points ≤ contentBottom) :
    (ensureSpace points document).y + points ≤ contentBottom ∧
      document.cursor.Reaches (ensureSpace points document).cursor := by
  rw [ensureSpace]
  split_ifs with hbreak
  · exact ⟨h, Or.inr ⟨document.page.lt_succ_self, le_refl _⟩⟩
  · exact ⟨not_lt.mp (by simpa [needsPageBreak] using hbreak), Cursor.Reaches.refl _⟩

theorem ensureSpace_drawn {points : ℚ} :
    (ensureSpace points document).drawn = document.drawn := by
  rw [ensureSpace]
  split_ifs <;> rfl

-- ========================================================= parts of rows

/-- What a part of the gallery leaves, from a cursor to another. -/
structure Laid (start : Cursor) (openedImages : List OpenedImage) (l : List Drawn)
    (finish : Cursor) : Prop where
  fits : List.Forall₂ Fits openedImages l
  left : ∀ d ∈ l, pageMarginX ≤ d.rect.x
  right : ∀ d ∈ l, d.rect.right ≤ pageWidth - pageMarginX
  bottom : ∀ d ∈ l, d.rect.bottom ≤ contentBottom
  reached : ∀ d ∈ l, start.Reaches ⟨d.page, d.rect.y⟩
  passed : ∀ d ∈ l, Cursor.Reaches ⟨d.page, d.rect.bottom + galleryGap⟩ finish
  before : l.Pairwise fun d e => d.page = e.page → d.rect.Before e.rect
  advances : start.Reaches finish

/-- Two galleries laid out one after the other. -/
theorem Laid.append {start middle finish : Cursor} (h : Laid start openedImages l middle)
    (h' : Laid middle openedImages' l' finish) :
    Laid start (openedImages ++ openedImages') (l ++ l') finish where
  fits := List.rel_append h.fits h'.fits
  left d hd := (List.mem_append.mp hd).elim (h.left d) (h'.left d)
  right d hd := (List.mem_append.mp hd).elim (h.right d) (h'.right d)
  bottom d hd := (List.mem_append.mp hd).elim (h.bottom d) (h'.bottom d)
  reached d hd := (List.mem_append.mp hd).elim (h.reached d) fun hd =>
    h.advances.trans (h'.reached d hd)
  passed d hd := (List.mem_append.mp hd).elim (fun hd => (h.passed d hd).trans h'.advances)
    (h'.passed d)
  before := by
    refine List.pairwise_append.mpr ⟨h.before, h'.before, fun d hd e he hpage => Or.inr ?_⟩
    have hgap : (0 : ℚ) < galleryGap := by norm_num [galleryGap]
    rcases (h.passed d hd).trans (h'.reached e he) with ⟨-, hy⟩ | ⟨hlt, -⟩
    · dsimp only at hy
      linarith
    · exact absurd hpage hlt.ne
  advances := h.advances.trans h'.advances

/-- One row. -/
theorem laid_row (document : Document) (hcolumns : RowOf columns row) (hrow : ∀ opened ∈ row, Upright opened) :
    ∃ l, (renderRow columns row document).drawn = document.drawn ++ l ∧
      Laid document.cursor row l (renderRow columns row document).cursor := by
  have hheight : ∀ opened ∈ row, (opened.fitted columns.cellWidth columns.maximumHeight).height
      ≤ rowHeight columns row := fun opened hopened => le_rowHeight hopened
  have hspace : pageMarginTop + (rowHeight columns row + galleryGap) ≤ contentBottom := by
    have := rowHeight_le columns hrow
    cases columns <;> norm_num [Columns.maximumHeight, singleImageMaxHeight, gridImageMaxHeight,
      pageMarginTop, galleryGap, contentBottom, pageHeight, pageMarginBottom] at this ⊢ <;> linarith
  obtain ⟨hfits, hreached⟩ := ensureSpace_spec document hspace
  have hpositive := rowHeight_nonneg columns hrow
  have hgap : (0 : ℚ) < galleryGap := by norm_num [galleryGap]
  rw [renderRow, ensureSpace_drawn]
  generalize ensureSpace (rowHeight columns row + galleryGap) document = placed at *
  -- every image is within a cell of the row, and the cells are on the page
  have hcells : ∀ d ∈ drawCells columns placed.page (rowLeft columns row.length) placed.y
      (rowHeight columns row) 0 row, d.page = placed.page ∧ ∃ i < row.length, d.rect.Within
        (cell columns (rowLeft columns row.length) placed.y (rowHeight columns row) i) := by
    intro d hd
    obtain ⟨hpage, i, -, hi, hwithin⟩ := mem_drawCells hrow hheight hd
    exact ⟨hpage, i, by omega, hwithin⟩
  refine ⟨_, rfl, drawCells_fits hrow, ?_, ?_, ?_, ?_, ?_, ?_, ?_⟩
  · intro d hd
    obtain ⟨-, i, hi, hwithin⟩ := hcells d hd
    exact (cell_margins hcolumns hi).1.trans hwithin.left
  · intro d hd
    obtain ⟨-, i, hi, hwithin⟩ := hcells d hd
    exact hwithin.right.trans (cell_margins hcolumns hi).2
  · intro d hd
    obtain ⟨-, i, -, hwithin⟩ := hcells d hd
    have := hwithin.bottom
    simp only [cell, Rect.bottom] at this ⊢
    linarith
  · intro d hd
    obtain ⟨hpage, i, -, hwithin⟩ := hcells d hd
    rw [hpage]
    exact hreached.of_le hwithin.top
  · intro d hd
    obtain ⟨hpage, i, -, hwithin⟩ := hcells d hd
    refine Or.inl ⟨hpage, ?_⟩
    have := hwithin.bottom
    simp only [cell, Rect.bottom, Document.cursor] at this ⊢
    linarith
  · exact (drawCells_before hrow hheight).imp fun {d e} h (_ : d.page = e.page) => h
  · refine hreached.of_le (y := placed.y + rowHeight columns row + galleryGap) ?_
    simp only [Document.cursor]
    linarith

-- =============================================================== the loop

/-- The rows have at most as many images as there are columns, and none is
empty. -/
theorem rowOf_of_mem (h : row ∈ rowsOf columns openedImages) : RowOf columns row := by
  induction columns, openedImages using rowsOf.induct with
  | case1 images =>
      rw [rowsOf] at h
      obtain ⟨image, -, rfl⟩ := List.mem_map.mp h
      exact Or.inl rfl
  | case2 first second rest ih =>
      rcases List.mem_cons.mp h with rfl | h
      · exact Or.inr ⟨rfl, rfl⟩
      · exact ih h
  | case3 image =>
      rw [List.mem_singleton.mp h]
      exact Or.inl rfl
  | case4 => cases h

/-- The rows have all the images, in order. -/
theorem flatten_rowsOf {α : Type} (columns : Columns) (l : List α) : (rowsOf columns l).flatten = l := by
  induction columns, l using rowsOf.induct with
  | case1 images => rw [rowsOf, ← List.flatMap_def, List.flatMap_singleton']
  | case2 first second rest ih => rw [rowsOf, List.flatten_cons, ih]; rfl
  | case3 image => rfl
  | case4 => rfl

/-- The row loop. -/
theorem laid_rows (document : Document) {rows : List (List OpenedImage)} (hcolumns : ∀ row ∈ rows, RowOf columns row)
    (hrows : ∀ row ∈ rows, ∀ opened ∈ row, Upright opened) :
    ∃ l, (renderRows columns rows document).drawn = document.drawn ++ l ∧
      Laid document.cursor rows.flatten l (renderRows columns rows document).cursor := by
  induction rows generalizing document with
  | nil =>
      refine ⟨[], (List.append_nil _).symm, ⟨List.Forall₂.nil, ?_, ?_, ?_, ?_, ?_, List.Pairwise.nil,
        Cursor.Reaches.refl _⟩⟩ <;> exact nofun
  | cons row rest ih =>
      obtain ⟨l, hl, hlaid⟩ := laid_row document (hcolumns row List.mem_cons_self)
        (hrows row List.mem_cons_self)
      obtain ⟨l', hl', hlaid'⟩ := ih (renderRow columns row document)
        (fun row hrow => hcolumns row (List.mem_cons_of_mem _ hrow))
        (fun row hrow => hrows row (List.mem_cons_of_mem _ hrow))
      exact ⟨l ++ l', by rw [renderRows, hl', hl, List.append_assoc], hlaid.append hlaid'⟩

-- ============================================================ the gallery

/-- An image that opens, with positive sides. -/
def Opens (kit : Kit) (image : Id × Bytes) : Prop :=
  ∃ source, kit.openImage image.2 = some source ∧ 0 < source.width ∧ 0 < source.height

/-- The image of a drawing, upright, not enlarged and not distorted. -/
def Shows (kit : Kit) (image : Id × Bytes) (d : Drawn) : Prop :=
  ∃ source, kit.openImage image.2 = some source ∧
    Fits ⟨image, orientedImageDimensions source⟩ d

/-- A turned image has positive sides as well. -/
theorem upright_oriented {image : Id × Bytes} {source : ImageDimensions}
    (hwidth : 0 < source.width) (hheight : 0 < source.height) :
    Upright ⟨image, orientedImageDimensions source⟩ := by
  rw [Upright, orientedImageDimensions]
  split_ifs
  · exact ⟨hheight, hwidth⟩
  · exact ⟨hwidth, hheight⟩

/-- Images that can be opened are, each as itself. -/
theorem openImages_ok (h : ∀ image ∈ images, Opens kit image) :
    ∃ openedImages, openImages kit images = .ok openedImages ∧
      (∀ opened ∈ openedImages, Upright opened) ∧
      ∀ l, List.Forall₂ Fits openedImages l → List.Forall₂ (Shows kit) images l := by
  induction images with
  | nil => exact ⟨[], rfl, nofun, fun l hl => by cases hl; exact List.Forall₂.nil⟩
  | cons image rest ih =>
      obtain ⟨source, hsource, hwidth, hheight⟩ := h image List.mem_cons_self
      obtain ⟨openedImages, hopened, hupright, hshows⟩ :=
        ih fun image himage => h image (List.mem_cons_of_mem _ himage)
      refine ⟨⟨image, orientedImageDimensions source⟩ :: openedImages, ?_, ?_, ?_⟩
      · rw [openImages, hsource, hopened]
        rfl
      · intro opened hmem
        rcases List.mem_cons.mp hmem with rfl | hmem
        · exact upright_oriented hwidth hheight
        · exact hupright opened hmem
      · intro l hl
        cases hl with
        | cons hfits hl => exact List.Forall₂.cons ⟨source, hsource, hfits⟩ (hshows _ hl)

/-- The images of a gallery, each once and in order, between the margins and
apart. A page begins at its top margin; only the page the gallery begins on
may begin elsewhere. -/
structure OnPage (kit : Kit) (images : List (Id × Bytes)) (document : Document)
    (l : List Drawn) : Prop where
  shows : List.Forall₂ (Shows kit) images l
  left : ∀ d ∈ l, pageMarginX ≤ d.rect.x
  right : ∀ d ∈ l, d.rect.right ≤ pageWidth - pageMarginX
  top : ∀ d ∈ l, pageMarginTop ≤ d.rect.y ∨
    d.page = document.page ∧ document.y + kit.moveDown 0.9 ≤ d.rect.y
  bottom : ∀ d ∈ l, d.rect.bottom ≤ pageHeight - pageMarginBottom
  disjoint : l.Pairwise fun d e => d.page = e.page → Disjoint d.rect.area e.rect.area

/-- The gallery stays on the page, from any starting `y`. -/
theorem gallery_stays_on_page (h : ∀ image ∈ images, Opens kit image) :
    ∃ document' l, renderGallery kit images document = .ok document' ∧
      document'.drawn = document.drawn ++ l ∧ OnPage kit images document l := by
  by_cases himages : images = []
  · refine ⟨document, [], by rw [renderGallery, if_pos himages], (List.append_nil _).symm, ?_⟩
    exact ⟨himages ▸ List.Forall₂.nil, nofun, nofun, nofun, nofun, List.Pairwise.nil⟩
  · obtain ⟨openedImages, hopened, hupright, hshows⟩ := openImages_ok h
    have hrows : ∀ row ∈ rowsOf (columnsOf openedImages) openedImages,
        ∀ opened ∈ row, Upright opened := by
      intro row hrow opened hmem
      refine hupright opened ?_
      rw [← flatten_rowsOf (columnsOf openedImages) openedImages]
      exact List.mem_flatten.mpr ⟨row, hrow, hmem⟩
    obtain ⟨l, hl, hlaid⟩ := laid_rows { document with y := document.y + kit.moveDown 0.9 }
      (fun _ => rowOf_of_mem) hrows
    rw [flatten_rowsOf] at hlaid
    refine ⟨_, l, by rw [renderGallery, if_neg himages, hopened]; rfl, hl, hshows l hlaid.fits,
      hlaid.left, hlaid.right, fun d hd => ?_, hlaid.bottom, ?_⟩
    · rcases hlaid.reached d hd with ⟨hpage, hy⟩ | ⟨-, hy⟩
      · exact Or.inr ⟨hpage.symm, hy⟩
      · exact Or.inl hy
    · exact hlaid.before.imp fun {d e} hbefore hpage => (hbefore hpage).disjoint

-- ======================================================= concrete galleries

/-- A library that opens every image, as a photograph on its side. -/
def photographs : Kit where
  openImage _ := some ⟨400, 300, some 6⟩
  moveDown lines := 14 * lines

theorem opens_photographs (image : Id × Bytes) : Opens photographs image :=
  ⟨_, rfl, by norm_num, by norm_num⟩

/-- Two photographs that begin low on a page. -/
theorem gallery_stays_on_page_pair : ∃ document' l,
    renderGallery photographs [(1, [0]), (2, [1])] ⟨0, 700, []⟩ = .ok document' ∧
      document'.drawn = l ∧ OnPage photographs [(1, [0]), (2, [1])] ⟨0, 700, []⟩ l :=
  gallery_stays_on_page fun image _ => opens_photographs image

/-- A gallery that begins above the top margin is drawn there. -/
theorem gallery_above_margin : ∃ document',
    renderGallery photographs [(1, [0])] ⟨0, 0, []⟩ = .ok document' ∧
      ∃ d ∈ document'.drawn, d.rect.y < pageMarginTop := by
  have habove : (renderGallery photographs [(1, [0])] ⟨0, 0, []⟩).toOption.any
      (·.drawn.any fun d => d.rect.y < pageMarginTop) := by decide +kernel
  cases hdocument : renderGallery photographs [(1, [0])] ⟨0, 0, []⟩ with
  | error e =>
      rw [hdocument] at habove
      cases habove
  | ok document' =>
      rw [hdocument] at habove
      obtain ⟨d, hd, hy⟩ := List.any_eq_true.mp habove
      exact ⟨document', rfl, d, hd, of_decide_eq_true hy⟩

end FastRep.Reports.Layout
