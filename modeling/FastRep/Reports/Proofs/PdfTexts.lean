/-
Technical references in the texts of a document: for all texts and all sets
of asset ids, which of them `sanitizePdfText` leaves
(`references_removed`).

The passes are followed on the text with its matches cut out (`cutText`),
into which the photograph label can be put afterwards. Between the cuts
nothing is left to match: no id (`not_infix_cutText`), and no alias
(`not_leavesAlias_cutText`). What is left in the sanitized text therefore
touches a label: an id takes its first or last letter from one (`Made`), and
an alias has one beside it whose letters are not of a word (`LeavesAlias`).

# Putting the labels in

Cutting with one mark and putting the label in at the end is not what the
code does: it puts the label in after every pass, and the next pass searches
it. The two agree as long as no id is made by a label before the pass of
this id (`MadeOnTheWay`, `toList_sanitizePdfText`). An id that is made on the
way is replaced where the cut text has no match, and nothing is said of such
texts.

# The labels

There are five words. Only the French and the Spanish one have a letter of an
id at an end (`not_made_photographLabel`); only the Ukrainian one has no letter
of a word at its ends (`isWordChar_photographLabel`). So English texts lose all their references
(`references_removed_english`), and `references_left` has a text for each of
the two ways to keep one.
-/
import FastRep.Reports.PdfText

namespace FastRep.Reports

open Replace

variable {language value assetId : String} {ids : List String} {before first last : Option Char}
  {text x u v label search : List Char} {M M' : List (Option Char)} {c : Char}

-- =============================================================== aliases

/-- A name the alias pattern matches. -/
structure AliasName (x : List Char) : Prop where
  image : (x.take 6).map Char.toUpper = "IMAGE_".toList
  digits : x.drop 6 ≠ [] ∧ (x.drop 6).all Char.isDigit

/-- A text the alias pattern matches somewhere: a name between boundaries. -/
def HasAlias (text : List Char) : Prop :=
  ∃ u x v, text = u ++ (x ++ v) ∧ AliasName x ∧ u.getLast?.any isWordChar = false ∧
    v.head?.any isWordChar = false

/-- The letters of an alias. -/
def isAliasChar (c : Char) : Bool := c.toUpper ∈ "IMAGE_".toList || c.isDigit

theorem isWordChar_of_isDigit (h : c.isDigit) : isWordChar c := by
  simp [isWordChar, Char.isAlphanum, h]

/-- An alias has the characters of an alias. -/
theorem AliasName.isAliasChar (h : AliasName x) : ∀ c ∈ x, isAliasChar c := by
  intro c hc
  rw [← List.take_append_drop 6 x, List.mem_append] at hc
  rw [Reports.isAliasChar, Bool.or_eq_true, decide_eq_true_iff, ← h.image]
  exact hc.imp List.mem_map_of_mem (List.all_eq_true.mp h.digits.2 c)

theorem AliasName.ne_nil (h : AliasName x) : x ≠ [] := by
  rintro rfl
  exact h.digits.1 rfl

/-- It has six characters and its digits. -/
theorem AliasName.length_eq (h : AliasName x) : x.length = 6 + (x.drop 6).length := by
  have hname := congrArg List.length h.image
  rw [List.length_map, List.length_take] at hname
  rw [List.length_drop]
  have : "IMAGE_".toList.length = 6 := rfl
  omega

/-- The pattern matches a name with boundaries on both sides. -/
theorem aliasLength_append (hx : AliasName x) (hbefore : before.any isWordChar = false)
    (hafter : v.head?.any isWordChar = false) : aliasLength before (x ++ v) = some x.length := by
  have hlength := hx.length_eq
  have hsix : 6 ≤ x.length := by omega
  have hword : ∀ c ∈ v.head?, ¬ c.isDigit := by
    intro c hc hdigit
    rw [hc] at hafter
    exact Bool.false_ne_true (hafter.symm.trans (isWordChar_of_isDigit hdigit))
  have htake : ((x ++ v).drop 6).takeWhile Char.isDigit = x.drop 6 := by
    rw [List.drop_append_of_le_length hsix, List.takeWhile_append_of_pos (List.all_eq_true.mp hx.digits.2)]
    cases v with
    | nil => simp
    | cons c v => simp [hword c rfl]
  have hdrop : ((x ++ v).drop 6).dropWhile Char.isDigit = v := by
    rw [List.drop_append_of_le_length hsix, List.dropWhile_append_of_pos (List.all_eq_true.mp hx.digits.2)]
    cases v with
    | nil => rfl
    | cons c v => simp [hword c rfl]
  have hname : ((x ++ v).take 6).map Char.toUpper = "IMAGE_".toList := by
    rw [List.take_append_of_le_length hsix, hx.image]
  simp only [aliasLength, htake, hdrop]
  rw [if_pos (by simp [hbefore, hafter, hname, hx.digits.1]), ← hlength]

/-- What the pattern matches is a name with boundaries on both sides. -/
theorem aliasName_of_aliasLength {n : Nat} (h : aliasLength before text = some n) :
    ∃ x v, text = x ++ v ∧ AliasName x ∧ before.any isWordChar = false ∧
      v.head?.any isWordChar = false := by
  simp only [aliasLength] at h
  split_ifs at h with hmatch
  simp only [Bool.and_eq_true, Bool.not_eq_true', decide_eq_true_eq] at hmatch
  obtain ⟨⟨⟨hbefore, himage⟩, hdigits⟩, hafter⟩ := hmatch
  have hsix : (text.take 6).length = 6 := by simpa using congrArg List.length himage
  refine ⟨text.take 6 ++ (text.drop 6).takeWhile Char.isDigit, _, ?_, ⟨?_, ?_⟩, hbefore, hafter⟩
  · rw [List.append_assoc, List.takeWhile_append_dropWhile, List.take_append_drop]
  · rw [List.take_left' hsix, himage]
  · rw [List.drop_left' hsix]
    exact ⟨hdigits, List.all_takeWhile⟩

/-- A text has an alias where the pattern matches. -/
theorem hasAlias_iff : HasAlias text ↔ ∃ u v, text = u ++ v ∧ (aliasLength u.getLast? v).isSome := by
  constructor
  · rintro ⟨u, x, v, rfl, hx, hu, hv⟩
    exact ⟨u, x ++ v, rfl, by rw [aliasLength_append hx hu hv]; rfl⟩
  · rintro ⟨u, v, rfl, h⟩
    obtain ⟨n, hn⟩ := Option.isSome_iff_exists.mp h
    obtain ⟨x, v, rfl, hx, hu, hv⟩ := aliasName_of_aliasLength hn
    exact ⟨u, x, v, rfl, hx, hu, hv⟩

/-- An alias in a text with marks; `first` and `last` are the letters at the
ends of what the marks stand for. -/
def LeavesAlias (first last : Option Char) (M : List (Option Char)) : Prop :=
  ∃ u x v, M = u ++ (x.map some ++ v) ∧ AliasName x ∧
    (u.getLast?.bind (·.or last)).any isWordChar = false ∧
    (v.head?.bind (·.or first)).any isWordChar = false

/-- No alias takes a letter from a label. -/
structure AliasFree (label : List Char) : Prop where
  second : ∃ c d rest, label = c :: d :: rest ∧ ¬ isAliasChar d
  head : label.head?.any isAliasChar = false
  inside : ∀ v ∈ label.tails, v ≠ [] → (v.take 2).map Char.toUpper ≠ "IM".toList.take v.length

/-- A word free of aliases is not empty. -/
theorem AliasFree.ne_nil (h : AliasFree label) : label ≠ [] := by
  obtain ⟨c, d, rest, rfl, -⟩ := h.second
  exact List.cons_ne_nil _ _

/-- No alias begins inside a label. -/
theorem AliasFree.not_inside (hlabel : AliasFree label) (hx : AliasName x)
    (hnew : label = u ++ v) (hv : v ≠ []) (h : x <+: v ++ text) : False := by
  refine hlabel.inside v ((List.mem_tails _ _).mpr ⟨u, hnew.symm⟩) hv ?_
  have hlength := hx.length_eq
  have htwo : (v ++ text).take 2 = x.take 2 := by
    obtain ⟨w, hw⟩ := h
    rw [← hw, List.take_append_of_le_length (by omega)]
  have hname : (x.take 2).map Char.toUpper = "IM".toList := by
    have := congrArg (List.take 2) hx.image
    rw [← List.map_take, List.take_take] at this
    exact this
  have hfront : ((v ++ text).take 2).take v.length = v.take 2 := by
    rw [List.take_take, Nat.min_comm, ← List.take_take, List.take_left]
  rw [← hname, ← htwo, ← List.map_take, hfront]

/-- The aliases of an expanded text are those of the text with its marks. -/
theorem hasAlias_expand (hlabel : AliasFree label) :
    HasAlias (expand label M) ↔ LeavesAlias label.head? label.getLast? M := by
  constructor
  · rintro ⟨u, x, v, hM, hx, hu, hv⟩
    have hne : x ++ v ≠ [] := List.append_ne_nil_of_left_ne_nil hx.ne_nil v
    obtain ⟨M₁, M₂, rfl, rfl, hrest⟩ | ⟨M₁, M₂, w, w', rfl, hnew, hw, hrest⟩ := expand_split hM hne
    · obtain ⟨M₃, rfl⟩ : x.map some <+: M₂ := by
        obtain h | ⟨s, c, hc, rfl, -⟩ := prefix_expand hlabel.second hx.isAliasChar ⟨v, hrest⟩
        · exact h
        · have hhead := hlabel.head
          rw [hc] at hhead
          exact absurd (hhead.symm.trans (hx.isAliasChar c (by simp))) Bool.false_ne_true
      rw [expand_append, expand_map_some] at hrest
      obtain rfl := List.append_cancel_left hrest
      rw [getLast?_expand hlabel.ne_nil] at hu
      rw [head?_expand hlabel.ne_nil] at hv
      exact ⟨M₁, x, M₃, rfl, hx, hu, hv⟩
    · exact (hlabel.not_inside hx hnew hw ⟨v, hrest⟩).elim
  · rintro ⟨u, x, v, rfl, hx, hu, hv⟩
    refine ⟨expand label u, x, expand label v, ?_, hx, ?_, ?_⟩
    · rw [expand_append, expand_append, expand_map_some]
    · rw [getLast?_expand hlabel.ne_nil, hu]
    · rw [head?_expand hlabel.ne_nil, hv]

-- ================================================================ labels

/-- The five words for a photograph, and the languages they belong to. -/
theorem photographLabel_cases (language : String) :
    photographLabel language = "photograph" ∨
      language = "uk" ∧ photographLabel language = "фотографія" ∨
      photographLabel language = "Foto" ∨
      language = "fr" ∧ photographLabel language = "photographie" ∨
      language = "es" ∧ photographLabel language = "fotografía" := by
  unfold photographLabel
  split <;> simp

/-- None of them has an alias in it, or makes one with its neighbours. -/
theorem aliasFree_photographLabel (language : String) :
    AliasFree (photographLabel language).toList := by
  rcases photographLabel_cases language with h | ⟨-, h⟩ | h | ⟨-, h⟩ | ⟨-, h⟩ <;> rw [h] <;>
    exact ⟨⟨_, _, _, rfl, by decide⟩, by decide, by decide⟩

/-- The letters of an asset id. -/
def isUuidChar (c : Char) : Bool := c.isDigit || c ∈ "abcdef".toList || c = '-'

/-- The form of a lower-case UUID. -/
def isUuid (assetId : String) : Bool :=
  assetId.toList.length = 36 && assetId.toList.zipIdx.all fun (c, i) =>
    if i ∈ [8, 13, 18, 23] then c = '-' else isUuidChar c && c ≠ '-'

/-- An id has the characters of one. -/
theorem isUuidChar_of_isUuid (h : isUuid assetId) : ∀ c ∈ assetId.toList, isUuidChar c := by
  intro c hc
  obtain ⟨i, hi, rfl⟩ := List.getElem_of_mem hc
  rw [isUuid, Bool.and_eq_true, List.all_eq_true] at h
  have hletter := h.2 _ (List.mk_mem_zipIdx_iff_getElem?.mpr (List.getElem?_eq_getElem hi))
  dsimp only at hletter
  split_ifs at hletter
  · simp [isUuidChar, decide_eq_true_iff.mp hletter]
  · exact (Bool.and_eq_true_iff.mp hletter).1

theorem length_of_isUuid (h : isUuid assetId) : assetId.toList.length = 36 := by
  rw [isUuid, Bool.and_eq_true, decide_eq_true_iff] at h
  exact h.1

theorem ne_nil_of_isUuid (h : isUuid assetId) : assetId.toList ≠ [] := by
  intro hnil
  have := length_of_isUuid h
  rw [hnil] at this
  cases this

/-- No word for a photograph is longer than an id. -/
theorem length_photographLabel_le (language : String) (h : isUuid assetId) :
    (photographLabel language).toList.length ≤ assetId.toList.length := by
  rw [length_of_isUuid h]
  rcases photographLabel_cases language with h | ⟨-, h⟩ | h | ⟨-, h⟩ | ⟨-, h⟩ <;> rw [h] <;> decide

/-- An id can only use the first or the last letter of a label. -/
theorem framed_photographLabel (language : String) :
    Framed (fun c => isUuidChar c) (photographLabel language).toList := by
  rcases photographLabel_cases language with h | ⟨-, h⟩ | h | ⟨-, h⟩ | ⟨-, h⟩ <;> rw [h]
  · exact ⟨⟨_, _, _, rfl, by decide⟩, ⟨"photogra".toList, 'p', 'h', rfl, by decide⟩⟩
  · exact ⟨⟨_, _, _, rfl, by decide⟩, ⟨"фотограф".toList, 'і', 'я', rfl, by decide⟩⟩
  · exact ⟨⟨_, _, _, rfl, by decide⟩, ⟨"Fo".toList, 't', 'o', rfl, by decide⟩⟩
  · exact ⟨⟨_, _, _, rfl, by decide⟩, ⟨"photograph".toList, 'i', 'e', rfl, by decide⟩⟩
  · exact ⟨⟨_, _, _, rfl, by decide⟩, ⟨"fotograf".toList, 'í', 'a', rfl, by decide⟩⟩

/-- Only the French and the Spanish label end in a letter of an id. -/
theorem not_made_photographLabel (hfr : language ≠ "fr") (hes : language ≠ "es") (h : isUuid assetId)
    (M : List (Option Char)) : ¬ Made (photographLabel language).toList assetId.toList M := by
  have hends : ∀ c, (photographLabel language).toList.head? = some c ∨
      (photographLabel language).toList.getLast? = some c → ¬ isUuidChar c := by
    rcases photographLabel_cases language with h | ⟨-, h⟩ | h | ⟨h, -⟩ | ⟨h, -⟩
    case inr.inr.inr.inl => exact absurd h hfr
    case inr.inr.inr.inr => exact absurd h hes
    all_goals
      rw [h]
      rintro c (hc | hc) <;> cases hc <;> decide
  exact not_made (fun c hc hmem => hends c (Or.inl hc) (isUuidChar_of_isUuid h c hmem))
    fun c hc hmem => hends c (Or.inr hc) (isUuidChar_of_isUuid h c hmem)

/-- The letters at the ends of a label are of a word, except in Ukrainian. -/
theorem isWordChar_photographLabel (huk : language ≠ "uk") :
    (photographLabel language).toList.head?.any isWordChar ∧
      (photographLabel language).toList.getLast?.any isWordChar := by
  rcases photographLabel_cases language with h | ⟨h, -⟩ | h | ⟨-, h⟩ | ⟨-, h⟩
  case inr.inl => exact absurd h huk
  all_goals
    rw [h]
    exact ⟨by decide, by decide⟩

-- ============================================================= cut texts

/-- A text with its aliases cut out. -/
def cutAliases (value : String) : List (Option Char) :=
  replaceFrom aliasFinder [none] some 0 none value.toList

def cutAssetId (M : List (Option Char)) (assetId : String) : List (Option Char) :=
  replaceAll (assetId.toList.map some) [none] M

/-- A text with its aliases cut out, and then the ids, one after the other. -/
def cutText (value : String) (ids : List String) : List (Option Char) :=
  ids.foldl cutAssetId (cutAliases value)

theorem none_not_mem_map_some (s : List Char) : none ∉ s.map some := by
  simp

/-- No id is left between the cuts. -/
theorem not_infix_cutText (hids : ∀ assetId ∈ ids, isUuid assetId) :
    ∀ assetId ∈ ids, ¬ assetId.toList.map some <:+: cutText value ids := by
  induction ids using List.reverseRecOn with
  | nil => exact fun _ h => nomatch h
  | append_singleton ids last ih =>
      intro assetId hid
      have hlast := hids last (List.mem_append_right _ List.mem_cons_self)
      rw [cutText, List.foldl_concat]
      rcases List.mem_append.mp hid with hid | hid
      · exact cuts_replaceAll.not_infix (none_not_mem_map_some _)
          (ih (fun _ hid => hids _ (List.mem_append_left _ hid)) assetId hid)
      · obtain rfl := List.mem_singleton.mp hid
        exact not_infix_replaceAll
          (fun hnil => ne_nil_of_isUuid hlast (List.map_eq_nil_iff.mp hnil))
          (none_not_mem_map_some _)

/-- What a mark stands for ends in a letter of a word. Where no such letter
stands before a part, none stands before it in the text. -/
theorem getLast?_of_cuts {α : Type} {keep : α → Option Char} {l : List α}
    (hcuts : Cuts keep none l M) (hlast : last.any isWordChar)
    (h : (M.getLast?.bind (·.or last)).any isWordChar = false) :
    ((l.getLast?.map keep).bind (·.or last)).any isWordChar = false := by
  cases hM : M.getLast? with
  | none =>
      obtain rfl := List.getLast?_eq_none_iff.mp hM
      obtain rfl := hcuts.eq_nil
      rfl
  | some m =>
      rw [hM] at h
      cases m with
      | none => exact absurd (h.symm.trans hlast) Bool.false_ne_true
      | some c =>
          rw [hcuts.getLast? hM (Option.some_ne_none c)]
          exact h

/-- A text whose first character is no word character before its cuts has none
after them. -/
theorem head?_of_cuts {α : Type} {keep : α → Option Char} {l : List α}
    (hcuts : Cuts keep none l M) (hfirst : first.any isWordChar)
    (h : (M.head?.bind (·.or first)).any isWordChar = false) :
    ((l.head?.map keep).bind (·.or first)).any isWordChar = false := by
  cases hM : M.head? with
  | none =>
      obtain rfl := List.head?_eq_none_iff.mp hM
      obtain rfl := hcuts.eq_nil
      rfl
  | some m =>
      rw [hM] at h
      cases m with
      | none => exact absurd (h.symm.trans hfirst) Bool.false_ne_true
      | some c =>
          rw [hcuts.head? hM (Option.some_ne_none c)]
          exact h

/-- A character of the text decides, where there is one. -/
theorem any_bind_or_of_some {q : Char → Bool} {letter other : Option Char}
    (h : ((letter.map some).bind (·.or other)).any q = false) : letter.any q = false := by
  cases letter with
  | none => rfl
  | some c => exact h

/-- A cut leaves no new alias. -/
theorem not_leavesAlias_of_cuts (hfirst : first.any isWordChar) (hlast : last.any isWordChar)
    (hcuts : Cuts id none M M') (h : ¬ LeavesAlias first last M) : ¬ LeavesAlias first last M' := by
  rintro ⟨u, x, v, rfl, hx, hu, hv⟩
  rw [← List.append_assoc] at hcuts
  obtain ⟨u', x', v', rfl, hword, hcu, hcv⟩ := hcuts.part (none_not_mem_map_some x)
  rw [List.map_id] at hword
  subst hword
  refine h ⟨u', x, v', List.append_assoc _ _ _, hx, ?_, ?_⟩
  · simpa using getLast?_of_cuts hcu hlast hu
  · simpa using head?_of_cuts hcv hfirst hv

/-- The cuts of the aliases leave none. -/
theorem not_leavesAlias_cutAliases (hfirst : first.any isWordChar) (hlast : last.any isWordChar) :
    ¬ LeavesAlias first last (cutAliases value) := by
  rintro ⟨u, x, v, hM, hx, hu, hv⟩
  obtain ⟨c, name, rfl⟩ := List.exists_cons_of_ne_nil hx.ne_nil
  obtain ⟨u', w, -, hcu, hcw, hfind⟩ :=
    find_of_kept (fun _ _ => Option.some.inj) (Option.some_ne_none c) hM
  obtain ⟨name', v', rfl, hname, hcv⟩ := hcw.split
  have hname := hname.eq_map (none_not_mem_map_some name)
  obtain rfl := List.map_injective_iff.mpr (fun _ _ => Option.some.inj) hname
  have hbefore := getLast?_of_cuts hcu hlast hu
  have hafter := head?_of_cuts hcv hfirst hv
  have hmatch : aliasLength (u'.getLast?.or none) (c :: name ++ v') = some (c :: name).length := by
    refine aliasLength_append hx ?_ ?_
    · rw [Option.or_none]
      exact any_bind_or_of_some hbefore
    · exact any_bind_or_of_some hafter
  exact nomatch hfind.symm.trans hmatch

/-- No alias is left between the cuts. -/
theorem not_leavesAlias_cutText (hfirst : first.any isWordChar) (hlast : last.any isWordChar) :
    ¬ LeavesAlias first last (cutText value ids) := by
  induction ids using List.reverseRecOn with
  | nil => exact not_leavesAlias_cutAliases hfirst hlast
  | append_singleton ids assetId ih =>
      rw [cutText, List.foldl_concat]
      exact not_leavesAlias_of_cuts hfirst hlast cuts_replaceAll ih

-- ============================================================ sanitized

/-- Replacing the aliases writes the label for their cuts. -/
theorem toList_replaceAliases (label : String) :
    (replaceAliases value label).toList = expand label.toList (cutAliases value) := by
  rw [replaceAliases, String.toList_ofList, cutAliases, expand_replaceFrom]

/-- When no id is remade on the way, cutting and replacing agree. -/
theorem toList_sanitizePdfText (hids : ∀ assetId ∈ ids, isUuid assetId)
    (h : ∀ done assetId rest, ids = done ++ assetId :: rest →
      ¬ Made (photographLabel language).toList assetId.toList (cutText value done)) :
    (sanitizePdfText value ids (photographLabel language)).toList
      = expand (photographLabel language).toList (cutText value ids) := by
  induction ids using List.reverseRecOn with
  | nil => exact toList_replaceAliases _
  | append_singleton ids assetId ih =>
      have hid := hids assetId (List.mem_append_right _ List.mem_cons_self)
      have ih := ih (fun _ hmem => hids _ (List.mem_append_left _ hmem)) fun done id rest hdone =>
        h done id (rest ++ [assetId]) (by rw [hdone, List.append_assoc, List.cons_append])
      rw [sanitizePdfText] at ih ⊢
      rw [cutText, List.foldl_concat, List.foldl_concat, ← cutText, cutAssetId, replaceAssetId,
        String.toList_ofList, ih]
      exact replaceAll_expand (framed_photographLabel language) (isUuidChar_of_isUuid hid)
        (ne_nil_of_isUuid hid) (length_photographLabel_le language hid) (h ids assetId [] rfl)

/-- What sanitizing a text promises. -/
structure Sanitized (language : String) (ids : List String) (value : String) : Prop where
  assetIds : ∀ assetId ∈ ids,
    ¬ assetId.toList <:+: (sanitizePdfText value ids (photographLabel language)).toList
  aliases : ¬ HasAlias (sanitizePdfText value ids (photographLabel language)).toList
  again : sanitizePdfText (sanitizePdfText value ids (photographLabel language)) ids
    (photographLabel language) = sanitizePdfText value ids (photographLabel language)

/-- A text without aliases and ids stays as it is. -/
theorem sanitizePdfText_eq (label : String) (hids : ∀ assetId ∈ ids, ¬ assetId.toList <:+: value.toList)
    (haliases : ¬ HasAlias value.toList) : sanitizePdfText value ids label = value := by
  have hfirst : replaceAliases value label = value := by
    rw [replaceAliases, replaceFrom_eq_map, List.map_id, String.ofList_toList]
    intro u v huv hv
    cases hfind : aliasFinder.find (u.getLast?.or none) v with
    | none => rfl
    | some n =>
        refine absurd (hasAlias_iff.mpr ⟨u, v, huv, ?_⟩) haliases
        rw [Option.or_none] at hfind
        exact Option.isSome_iff_exists.mpr ⟨n, hfind⟩
  rw [sanitizePdfText, hfirst]
  induction ids with
  | nil => rfl
  | cons assetId ids ih =>
      have hid : replaceAssetId value assetId label = value := by
        rw [replaceAssetId, replaceAll_of_not_infix _ (hids assetId List.mem_cons_self),
          String.ofList_toList]
      rw [List.foldl_cons, hid]
      exact ih fun _ hmem => hids _ (List.mem_cons_of_mem _ hmem)

/-- A label makes an id before the pass of this id: in a text between the passes
an id takes its first or last letter from a label. -/
def MadeOnTheWay (language : String) (ids : List String) (value : String) : Prop :=
  ∃ done assetId rest, ids = done ++ assetId :: rest ∧
    Made (photographLabel language).toList assetId.toList (cutText value done)

/-- What the references of a text have to leave alone: no id is made on the way,
none is made in the end, and no alias stands beside a label that has no letter
of a word there. -/
structure Removable (language : String) (ids : List String) (value : String) : Prop where
  onTheWay : ¬ MadeOnTheWay language ids value
  atTheEnd : ∀ assetId ∈ ids,
    ¬ Made (photographLabel language).toList assetId.toList (cutText value ids)
  aliases : ¬ LeavesAlias (photographLabel language).toList.head?
    (photographLabel language).toList.getLast? (cutText value ids)

/-- Where no id is made on the way, the sanitized text is the cut text with
the label in its cuts. -/
theorem toList_sanitized (hids : ∀ assetId ∈ ids, isUuid assetId)
    (h : ¬ MadeOnTheWay language ids value) :
    (sanitizePdfText value ids (photographLabel language)).toList
      = expand (photographLabel language).toList (cutText value ids) :=
  toList_sanitizePdfText hids fun done assetId rest hsplit hmade =>
    h ⟨done, assetId, rest, hsplit, hmade⟩

/-- A removable text is sanitized. -/
theorem Removable.sanitized (hids : ∀ assetId ∈ ids, isUuid assetId)
    (h : Removable language ids value) : Sanitized language ids value := by
  have hvalue := toList_sanitized hids h.onTheWay
  have haliases : ¬ HasAlias (sanitizePdfText value ids (photographLabel language)).toList := by
    rw [hvalue, hasAlias_expand (aliasFree_photographLabel language)]
    exact h.aliases
  have hnone : ∀ assetId ∈ ids,
      ¬ assetId.toList <:+: (sanitizePdfText value ids (photographLabel language)).toList := by
    intro assetId hid hin
    rw [hvalue] at hin
    obtain hword | hword := infix_expand (framed_photographLabel language)
      (isUuidChar_of_isUuid (hids assetId hid)) (ne_nil_of_isUuid (hids assetId hid))
      (length_photographLabel_le language (hids assetId hid)) hin
    · exact not_infix_cutText hids assetId hid hword
    · exact h.atTheEnd assetId hid hword
  exact ⟨hnone, haliases, sanitizePdfText_eq _ hnone haliases⟩

/-- A text that is sanitized, and in which no id was made on the way, is
removable. -/
theorem Sanitized.removable (hids : ∀ assetId ∈ ids, isUuid assetId)
    (honTheWay : ¬ MadeOnTheWay language ids value) (h : Sanitized language ids value) :
    Removable language ids value := by
  have hvalue := toList_sanitized hids honTheWay
  refine ⟨honTheWay, fun assetId hid hmade => h.assetIds assetId hid ?_, ?_⟩
  · rw [hvalue]
    exact hmade.infix_expand
  · rw [← hasAlias_expand (aliasFree_photographLabel language), ← hvalue]
    exact h.aliases

/-- References survive only beside a label. A text is sanitized when no id is
made by a label, neither on the way nor in the end, and no alias stands beside a
label that has no letter of a word there; and where none is made on the way, only
then. Only the French and the Spanish label make ids, and only the Ukrainian one
leaves aliases. -/
theorem references_removed (language : String) (ids : List String)
    (hids : ∀ assetId ∈ ids, isUuid assetId) (value : String) :
    (Removable language ids value → Sanitized language ids value) ∧
    (¬ MadeOnTheWay language ids value →
      (Sanitized language ids value ↔ Removable language ids value)) ∧
    (language ≠ "fr" → language ≠ "es" → ∀ assetId ∈ ids, ∀ M,
      ¬ Made (photographLabel language).toList assetId.toList M) ∧
    (language ≠ "uk" → ¬ LeavesAlias (photographLabel language).toList.head?
      (photographLabel language).toList.getLast? (cutText value ids)) := by
  refine ⟨fun h => h.sanitized hids, fun honTheWay => ⟨fun h => h.removable hids honTheWay,
    fun h => h.sanitized hids⟩, fun hfr hes assetId hid M => ?_, fun huk => ?_⟩
  · exact not_made_photographLabel hfr hes (hids assetId hid) M
  · obtain ⟨hfirst, hlast⟩ := isWordChar_photographLabel huk
    exact not_leavesAlias_cutText hfirst hlast

/-- English texts are sanitized. -/
theorem references_removed_english :
    Sanitized "en" ["61c0f6d0-d4cc-4b52-944b-5db9d2374dc0"]
      "IMAGE_1 shows 61c0f6d0-d4cc-4b52-944b-5db9d2374dc0" := by
  obtain ⟨hsanitized, -, hmade, haliases⟩ := references_removed "en"
    ["61c0f6d0-d4cc-4b52-944b-5db9d2374dc0"] (by decide)
    "IMAGE_1 shows 61c0f6d0-d4cc-4b52-944b-5db9d2374dc0"
  have hmade := hmade (by decide) (by decide)
  refine hsanitized ⟨?_, fun assetId hid => hmade assetId hid _, haliases (by decide)⟩
  rintro ⟨done, assetId, rest, hdone, h⟩
  refine hmade assetId ?_ _ h
  rw [hdone]
  exact List.mem_append_right _ List.mem_cons_self

/-- An alias is left before the Ukrainian label, and an id begins with the
last letter of the French one. -/
theorem references_left :
    ¬ Sanitized "uk" ["a2345678-1234-1234-1234-123456789abc"]
      "IMAGE_1a2345678-1234-1234-1234-123456789abc" ∧
    ¬ Sanitized "fr" ["e2345678-1234-1234-1234-123456789abc"]
      "e2345678-1234-1234-1234-123456789abc2345678-1234-1234-1234-123456789abc" := by
  constructor
  · intro h
    have hvalue : sanitizePdfText "IMAGE_1a2345678-1234-1234-1234-123456789abc"
        ["a2345678-1234-1234-1234-123456789abc"] (photographLabel "uk") = "IMAGE_1фотографія" := by
      decide +kernel
    refine h.aliases ?_
    rw [hvalue]
    exact ⟨[], "IMAGE_1".toList, "фотографія".toList, rfl, ⟨by decide, by decide⟩, rfl, by decide⟩
  · intro h
    refine h.assetIds _ List.mem_cons_self ?_
    decide +kernel

end FastRep.Reports
