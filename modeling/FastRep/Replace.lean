/-
Replacing the matches in a text, from left to right.

A `Finder` says how much of the text ahead is matched, knowing the element
before it; a regular expression with a word boundary at its front is one.
`replaceFrom` writes a replacement for every match; with one mark for the
replacement it is a cut, and the replacement can be put in afterwards
(`expand`). What is left of the text between the marks is what stood there
(`Cuts`).

# Cutting instead of replacing

A text that is replaced several times over, by one finder after the other,
is hard to follow: a replacement may be found again. Cut with a mark of its
own the text only gets smaller, and a word that stands between two marks at
the end stood in the text at the start (`Cuts.not_infix`). `expand_replaceFrom`
says that replacing is cutting with the replacement put in at the end.

# What a replacement may complete

When the replacement is put in, its first and last letter may complete a
word with the letters beside it. For replacements that are `Framed` this is
the only way a word arises that the text did not have (`infix_expand`):

- a word that begins inside a replacement begins with its last letter
  (`made_of_inside`);
- a word that ends inside one ends with its first letter (`prefix_expand`);
- what has neither was in the text (`not_made`).

A word that arises this way is `Made`. As long as no word is made, cutting
and replacing agree for words as well (`replaceAll_expand`); where one is
made, it stands in what is written (`Made.infix_expand`).
-/
import Mathlib.Data.List.Infix

namespace FastRep.Replace

variable {α β : Type}

-- ============================================================= replacing

/-- How much of a text is matched, after the element before it. -/
structure Finder (α : Type) where
  find : Option α → List α → Option Nat
  bounds : ∀ before text n, find before text = some n → 0 < n ∧ n ≤ text.length

/-- The rest of a text with its matches replaced, and its other elements
kept; the first elements of it may belong to the last match. -/
def replaceFrom (f : Finder α) (new : List β) (keep : α → β) :
    Nat → Option α → List α → List β
  | _, _, [] => []
  | skip + 1, _, x :: rest => replaceFrom f new keep skip (some x) rest
  | 0, before, x :: rest =>
      match f.find before (x :: rest) with
      | some n => new ++ replaceFrom f new keep (n - 1) (some x) rest
      | none => keep x :: replaceFrom f new keep 0 (some x) rest

/-- A text with marks: each stands for a replacement. -/
def expand (new : List α) (marked : List (Option α)) : List α :=
  marked.flatMap fun
    | none => new
    | some x => [x]

variable {f : Finder α} {new : List β} {keep : α → β} {before : Option α} {text rest s : List α}

/-- While a match is skipped nothing is written; what is read next stands
after the skipped characters. -/
theorem replaceFrom_skip (skip : Nat) : replaceFrom f new keep skip before text
    = replaceFrom f new keep 0 ((text.take skip).getLast?.or before) (text.drop skip) := by
  induction skip generalizing before text with
  | zero => rfl
  | succ skip ih =>
      cases text with
      | nil => simp [replaceFrom]
      | cons x rest =>
          rw [replaceFrom, ih, List.take_succ_cons, List.drop_succ_cons, List.getLast?_cons]
          congr 1
          cases (rest.take skip).getLast? <;> rfl

/-- Where something is found it is replaced, and the search goes on behind it.
-/
theorem replaceFrom_match (h : f.find before (s ++ rest) = some s.length) :
    replaceFrom f new keep 0 before (s ++ rest) = new ++ replaceFrom f new keep 0 s.getLast? rest := by
  cases s with
  | nil => exact absurd (f.bounds _ _ _ h).1 (Nat.lt_irrefl _)
  | cons x s =>
      rw [List.cons_append] at h ⊢
      rw [replaceFrom, h]
      dsimp only
      rw [replaceFrom_skip, List.length_cons, Nat.add_sub_cancel, List.take_left, List.drop_left,
        List.getLast?_cons]
      cases s.getLast? <;> rfl

/-- Where nothing is found the character is kept. -/
theorem replaceFrom_keep {x : α} (h : f.find before (x :: rest) = none) :
    replaceFrom f new keep 0 before (x :: rest)
      = keep x :: replaceFrom f new keep 0 (some x) rest := by
  rw [replaceFrom, h]

/-- Induction along the matches of a text. -/
theorem Finder.induction (f : Finder α) {motive : Option α → List α → Prop}
    (nil : ∀ before, motive before [])
    (keep : ∀ before x rest, f.find before (x :: rest) = none → motive (some x) rest →
      motive before (x :: rest))
    (cut : ∀ before s rest, f.find before (s ++ rest) = some s.length →
      motive s.getLast? rest → motive before (s ++ rest)) :
    ∀ before text, motive before text := by
  intro before text
  induction h : text.length using Nat.strong_induction_on generalizing before text with
  | _ n ih =>
      subst h
      cases text with
      | nil => exact nil before
      | cons x rest =>
          cases hfind : f.find before (x :: rest) with
          | none => exact keep _ _ _ hfind (ih _ (Nat.lt_succ_self _) _ _ rfl)
          | some n =>
              obtain ⟨hpos, hle⟩ := f.bounds _ _ _ hfind
              have hlength : ((x :: rest).take n).length = n := List.length_take_of_le hle
              have hsplit := List.take_append_drop n (x :: rest)
              rw [← hsplit]
              refine cut _ _ _ (by rw [hsplit, hlength, hfind]) (ih _ ?_ _ _ rfl)
              rw [List.length_drop]
              omega

/-- A text without a match stays as it is. -/
theorem replaceFrom_eq_map (h : ∀ u v, text = u ++ v → v ≠ [] →
    f.find (u.getLast?.or before) v = none) : replaceFrom f new keep 0 before text = text.map keep := by
  induction text generalizing before with
  | nil => rfl
  | cons x rest ih =>
      have hx : f.find before (x :: rest) = none := h [] _ rfl (List.cons_ne_nil _ _)
      rw [replaceFrom_keep hx, List.map_cons, ih]
      intro u v huv hv
      have := h (x :: u) v (by rw [huv, List.cons_append]) hv
      rw [List.getLast?_cons] at this
      cases hu : u.getLast? <;> simpa [hu] using this

/-- Replacing is cutting, and putting the replacement in. -/
theorem expand_replaceFrom (new : List α) : expand new (replaceFrom f [none] some 0 before text)
    = replaceFrom f new id 0 before text := by
  induction before, text using f.induction with
  | nil before => rfl
  | keep before x rest hfind ih =>
      rw [replaceFrom_keep hfind, replaceFrom_keep hfind, ← ih]
      rfl
  | cut before s rest hfind ih =>
      rw [replaceFrom_match hfind, replaceFrom_match hfind, ← ih]
      rfl

-- ============================================================== what is cut

/-- A text and what is left of it: some parts gave way to marks. -/
inductive Cuts (keep : α → β) (mark : β) : List α → List β → Prop
  | nil : Cuts keep mark [] []
  | keep {l : List α} {m : List β} (x : α) (h : Cuts keep mark l m) :
      Cuts keep mark (x :: l) (keep x :: m)
  | cut {l : List α} {m : List β} (s : List α) (h : Cuts keep mark l m) :
      Cuts keep mark (s ++ l) (mark :: m)

variable {mark : β} {l : List α} {m m' : List β}

/-- A replacement by one mark cuts the text: what lies between the marks was
there before, in its order. -/
theorem cuts_replaceFrom : Cuts keep mark text (replaceFrom f [mark] keep 0 before text) := by
  induction before, text using f.induction with
  | nil before => exact Cuts.nil
  | keep before x rest hfind ih =>
      rw [replaceFrom_keep hfind]
      exact Cuts.keep x ih
  | cut before s rest hfind ih =>
      rw [replaceFrom_match hfind]
      exact Cuts.cut s ih

/-- Two parts of what is left come from two parts of the text. -/
theorem Cuts.split (h : Cuts keep mark l (m ++ m')) :
    ∃ u v, l = u ++ v ∧ Cuts keep mark u m ∧ Cuts keep mark v m' := by
  generalize hm : m ++ m' = w at h
  induction h generalizing m with
  | nil =>
      obtain ⟨rfl, rfl⟩ := List.append_eq_nil_iff.mp hm
      exact ⟨[], [], rfl, Cuts.nil, Cuts.nil⟩
  | keep x h ih =>
      cases m with
      | nil =>
          rw [List.nil_append] at hm
          exact ⟨[], _, rfl, Cuts.nil, hm ▸ Cuts.keep x h⟩
      | cons y m =>
          obtain ⟨rfl, hrest⟩ := List.cons.inj hm
          obtain ⟨u, v, rfl, hu, hv⟩ := ih hrest
          exact ⟨x :: u, v, rfl, Cuts.keep x hu, hv⟩
  | cut s h ih =>
      cases m with
      | nil =>
          rw [List.nil_append] at hm
          exact ⟨[], _, rfl, Cuts.nil, hm ▸ Cuts.cut s h⟩
      | cons y m =>
          obtain ⟨rfl, hrest⟩ := List.cons.inj hm
          obtain ⟨u, v, rfl, hu, hv⟩ := ih hrest
          exact ⟨s ++ u, v, (List.append_assoc _ _ _).symm, Cuts.cut s hu, hv⟩

/-- Without a mark, what is left is the text. -/
theorem Cuts.eq_map (h : Cuts keep mark l m) (hm : mark ∉ m) : m = l.map keep := by
  induction h with
  | nil => rfl
  | keep x h ih => rw [List.map_cons, ← ih fun hmem => hm (List.mem_cons_of_mem _ hmem)]
  | cut s h ih => exact absurd List.mem_cons_self hm

/-- A part without marks stood in the text. -/
theorem Cuts.part {w : List β} (h : Cuts keep mark l (m ++ w ++ m')) (hw : mark ∉ w) :
    ∃ u x v, l = u ++ x ++ v ∧ w = x.map keep ∧ Cuts keep mark u m ∧ Cuts keep mark v m' := by
  obtain ⟨ux, v, rfl, hux, hv⟩ := h.split
  obtain ⟨u, x, rfl, hu, hx⟩ := hux.split
  exact ⟨u, x, v, rfl, hx.eq_map hw, hu, hv⟩

/-- A cut keeps the words away that are away. -/
theorem Cuts.not_infix {l m w : List β} (h : Cuts id mark l m) (hmark : mark ∉ w)
    (hw : ¬ w <:+: l) : ¬ w <:+: m := by
  rintro ⟨u, v, huv⟩
  rw [← huv] at h
  obtain ⟨u, x, v, rfl, hx, -⟩ := h.part hmark
  rw [List.map_id] at hx
  exact hw ⟨u, v, by rw [hx]⟩

/-- An element before the end of a part stood there. -/
theorem Cuts.getLast? {y : β} (h : Cuts keep mark l m) (hy : m.getLast? = some y)
    (hmark : y ≠ mark) : l.getLast?.map keep = some y := by
  obtain ⟨w, rfl⟩ := List.getLast?_eq_some_iff.mp hy
  obtain ⟨u, v, rfl, -, hv⟩ := h.split
  have hlast := hv.eq_map (by simpa using Ne.symm hmark)
  rw [List.getLast?_append]
  cases v with
  | nil => cases hlast
  | cons x v =>
      obtain ⟨rfl, hnil⟩ := List.cons.inj hlast
      rw [List.map_eq_nil_iff.mp hnil.symm]
      rfl

/-- What does not start with a mark starts as the text did. -/
theorem Cuts.head? {y : β} (h : Cuts keep mark l m) (hy : m.head? = some y)
    (hmark : y ≠ mark) : l.head?.map keep = some y := by
  cases h with
  | nil => cases hy
  | keep x h => exact hy
  | cut s h =>
      cases hy
      exact absurd rfl hmark

/-- Nothing remains only of the empty text. -/
theorem Cuts.eq_nil (h : Cuts keep mark l []) : l = [] := by
  cases h
  rfl

/-- A letter that a cut kept began no match. -/
theorem find_of_kept {x : α} (hkeep : Function.Injective keep) (hmark : keep x ≠ mark)
    (h : replaceFrom f [mark] keep 0 before text = m ++ keep x :: m') :
    ∃ u v, text = u ++ x :: v ∧ Cuts keep mark u m ∧ Cuts keep mark v m' ∧
      f.find (u.getLast?.or before) (x :: v) = none := by
  induction before, text using f.induction generalizing m with
  | nil before => exact absurd h.symm (List.append_ne_nil_of_right_ne_nil _ (List.cons_ne_nil _ _))
  | keep before y rest hfind ih =>
      rw [replaceFrom_keep hfind] at h
      cases m with
      | nil =>
          obtain ⟨hxy, rfl⟩ := List.cons.inj h
          obtain rfl := hkeep hxy
          exact ⟨[], rest, rfl, Cuts.nil, cuts_replaceFrom, hfind⟩
      | cons z m =>
          obtain ⟨rfl, hrest⟩ := List.cons.inj h
          obtain ⟨u, v, rfl, hu, hv, hnone⟩ := ih hrest
          refine ⟨y :: u, v, rfl, Cuts.keep y hu, hv, ?_⟩
          rw [List.getLast?_cons]
          cases hlast : u.getLast? <;> simpa [hlast] using hnone
  | cut before s rest hfind ih =>
      rw [replaceFrom_match hfind, List.singleton_append] at h
      cases m with
      | nil => exact absurd (List.cons.inj h).1.symm hmark
      | cons z m =>
          obtain ⟨rfl, hrest⟩ := List.cons.inj h
          obtain ⟨u, v, rfl, hu, hv, hnone⟩ := ih hrest
          refine ⟨s ++ u, v, (List.append_assoc _ _ _).symm, Cuts.cut s hu, hv, ?_⟩
          cases hlast : u.getLast? with
          | none =>
              have hs : s.getLast? ≠ none := fun hnil =>
                absurd (f.bounds _ _ _ hfind).1 (by simp [List.getLast?_eq_none_iff.mp hnil])
              obtain ⟨c, hc⟩ := Option.ne_none_iff_exists'.mp hs
              simpa [List.getLast?_append, hlast, hc] using hnone
          | some c => simpa [List.getLast?_append, hlast] using hnone

-- ================================================================= words

section Words

variable [DecidableEq α]

/-- Finds a word wherever it stands; an empty one nowhere. -/
def wordFinder (search : List α) : Finder α where
  find _ text := if search ≠ [] ∧ search <+: text then some search.length else none
  bounds before text n h := by
    split_ifs at h with hsearch
    cases h
    exact ⟨List.length_pos_iff.mpr hsearch.1, hsearch.2.length_le⟩

/-- Replace a word. -/
def replaceAll (search new : List α) (text : List α) : List α :=
  replaceFrom (wordFinder search) new id 0 none text

variable {search : List α} {x : α}

/-- A word is found where it is a prefix of what is left. -/
theorem find_word : (wordFinder search).find before text
    = if search ≠ [] ∧ search <+: text then some search.length else none := rfl

/-- The element before a word does not matter. -/
theorem replaceFrom_word (new : List β) : replaceFrom (wordFinder search) new keep 0 before text
    = replaceFrom (wordFinder search) new keep 0 none text := by
  cases text <;> rfl

/-- An occurrence at the start is replaced as a whole. -/
theorem replaceAll_append (new : List α) (hsearch : search ≠ []) :
    replaceAll search new (search ++ text) = new ++ replaceAll search new text := by
  rw [replaceAll, replaceFrom_match (by rw [find_word, if_pos ⟨hsearch, List.prefix_append _ _⟩]),
    replaceFrom_word, replaceAll]

/-- A character at which the word does not start is kept. -/
theorem replaceAll_cons (new : List α) (h : ¬ search <+: x :: text) :
    replaceAll search new (x :: text) = x :: replaceAll search new text := by
  rw [replaceAll, replaceFrom_keep (by rw [find_word, if_neg fun hs => h hs.2]),
    replaceFrom_word, replaceAll]
  rfl

/-- Where the word begins nowhere in a part, the part stays. -/
theorem replaceAll_part (new : List α) (s : List α)
    (h : ∀ u v, s = u ++ v → v ≠ [] → ¬ search <+: v ++ text) :
    replaceAll search new (s ++ text) = s ++ replaceAll search new text := by
  induction s with
  | nil => rfl
  | cons y s ih =>
      have hy : ¬ search <+: y :: (s ++ text) := h [] _ rfl (List.cons_ne_nil _ _)
      rw [List.cons_append, replaceAll_cons new hy, ih, List.cons_append]
      intro u v huv hv
      exact h (y :: u) v (by rw [huv, List.cons_append]) hv

/-- A text without the word stays as it is. -/
theorem replaceAll_of_not_infix (new : List α) (h : ¬ search <:+: text) :
    replaceAll search new text = text := by
  rw [replaceAll, replaceFrom_eq_map, List.map_id]
  intro u v huv hv
  rw [find_word, if_neg]
  rintro ⟨-, w, hw⟩
  exact h ⟨u, w, by rw [huv, ← hw, List.append_assoc]⟩

/-- A replacement of a word by one mark cuts the text as well. -/
theorem cuts_replaceAll {mark : α} : Cuts id mark text (replaceAll search [mark] text) :=
  cuts_replaceFrom

/-- A cut leaves no word between the marks. -/
theorem not_infix_replaceAll {mark : α} (hsearch : search ≠ []) (hmark : mark ∉ search) :
    ¬ search <:+: replaceAll search [mark] text := by
  rintro ⟨m, m', hm⟩
  cases search with
  | nil => exact hsearch rfl
  | cons y search =>
      obtain ⟨hy, hrest⟩ := List.ne_and_not_mem_of_not_mem_cons hmark
      rw [List.append_assoc, List.cons_append] at hm
      obtain ⟨u, v, rfl, -, hv, hfind⟩ := find_of_kept Function.injective_id hy.symm hm.symm
      obtain ⟨w, v, rfl, hw, -⟩ := hv.split
      have hword : search = w := (hw.eq_map hrest).trans (List.map_id w)
      rw [find_word, if_pos ⟨hsearch, v, by rw [hword, List.cons_append]⟩] at hfind
      cases hfind

end Words

-- ================================================================= frames

section Frames

variable {p : α → Prop} {new search t : List α} {M M' : List (Option α)}

/-- A replacement of which a word over `p` can only use the first or the
last letter: the letters next to these are not in `p`. -/
structure Framed (p : α → Prop) (new : List α) : Prop where
  second : ∃ x y rest, new = x :: y :: rest ∧ ¬ p y
  secondLast : ∃ rest x y, new = rest ++ [x, y] ∧ ¬ p x

/-- The replacement and the letters beside a mark make the word: it begins
with the last letter of a replacement, ends with the first of one, or
both. -/
def Made (new search : List α) (M : List (Option α)) : Prop :=
  ∃ t, (∃ y, new.getLast? = some y ∧ search = y :: t ∧ none :: t.map some <:+: M) ∨
    (∃ x, new.head? = some x ∧ search = t ++ [x] ∧ t.map some ++ [none] <:+: M) ∨
    ∃ x y, new.head? = some x ∧ new.getLast? = some y ∧ search = y :: (t ++ [x]) ∧
      none :: (t.map some ++ [none]) <:+: M

/-- What is made on the way in a part is made in the whole. -/
theorem Made.mono (h : Made new search M) (hM : M <:+: M') : Made new search M' := by
  obtain ⟨t, ⟨y, hy, hs, hin⟩ | ⟨x, hx, hs, hin⟩ | ⟨x, y, hx, hy, hs, hin⟩⟩ := h
  · exact ⟨t, Or.inl ⟨y, hy, hs, hin.trans hM⟩⟩
  · exact ⟨t, Or.inr (Or.inl ⟨x, hx, hs, hin.trans hM⟩)⟩
  · exact ⟨t, Or.inr (Or.inr ⟨x, y, hx, hy, hs, hin.trans hM⟩)⟩

/-- The marks of two texts are written out one after the other. -/
theorem expand_append (new : List α) (M M' : List (Option α)) :
    expand new (M ++ M') = expand new M ++ expand new M' := List.flatMap_append

/-- A text without a mark is written out as it is. -/
theorem expand_map_some (new t : List α) : expand new (t.map some) = t := by
  induction t with
  | nil => rfl
  | cons x t ih => exact congrArg (x :: ·) ih

/-- A mark is written out as the new word. -/
@[simp] theorem expand_none_cons (new : List α) (M : List (Option α)) :
    expand new (none :: M) = new ++ expand new M := rfl

/-- One mark alone is written out as the new word. -/
theorem expand_mark (new : List α) : expand new [none] = new := List.append_nil new

/-- A part of the marked text is a part of what is written out. -/
theorem expand_infix_mono (new : List α) (h : M <:+: M') : expand new M <:+: expand new M' := by
  obtain ⟨a, b, rfl⟩ := h
  rw [expand_append, expand_append]
  exact ⟨expand new a, expand new b, rfl⟩

/-- The last letter of an expanded text. -/
theorem getLast?_expand (hnew : new ≠ []) :
    (expand new M).getLast? = M.getLast?.bind (·.or new.getLast?) := by
  induction M using List.reverseRecOn with
  | nil => rfl
  | append_singleton M m =>
      rw [expand_append, List.getLast?_concat]
      cases m with
      | none =>
          rw [expand_mark, List.getLast?_append_of_ne_nil _ hnew]
          rfl
      | some c => exact List.getLast?_concat

/-- The first letter of an expanded text. -/
theorem head?_expand (hnew : new ≠ []) :
    (expand new M).head? = M.head?.bind (·.or new.head?) := by
  cases M with
  | nil => rfl
  | cons m M =>
      cases m with
      | none => exact List.head?_append_of_ne_nil _ hnew
      | some c => rfl

/-- A cut of an expanded text goes between two elements of the text, or
through a replacement. -/
theorem expand_split {a b : List α} (h : expand new M = a ++ b) (hb : b ≠ []) :
    (∃ M₁ M₂, M = M₁ ++ M₂ ∧ a = expand new M₁ ∧ b = expand new M₂) ∨
      ∃ M₁ M₂ u v, M = M₁ ++ none :: M₂ ∧ new = u ++ v ∧ v ≠ [] ∧ b = v ++ expand new M₂ := by
  induction M generalizing a with
  | nil => exact absurd (List.append_eq_nil_iff.mp h.symm).2 hb
  | cons m M ih =>
      cases a with
      | nil => exact Or.inl ⟨[], m :: M, rfl, rfl, h.symm⟩
      | cons c a =>
          cases m with
          | some d =>
              obtain ⟨rfl, hrest⟩ := List.cons.inj (h : d :: expand new M = c :: (a ++ b))
              obtain ⟨M₁, M₂, rfl, rfl, hM⟩ | ⟨M₁, M₂, u, v, rfl, hM⟩ := ih hrest
              · exact Or.inl ⟨some d :: M₁, M₂, rfl, rfl, hM⟩
              · exact Or.inr ⟨some d :: M₁, M₂, u, v, rfl, hM⟩
          | none =>
              obtain ⟨a', ha, hrest⟩ | ⟨v, hv, hrest⟩ := List.append_eq_append_iff.mp
                (h : new ++ expand new M = (c :: a) ++ b)
              · obtain ⟨M₁, M₂, rfl, rfl, hM⟩ | ⟨M₁, M₂, u, v, rfl, hM⟩ := ih hrest
                · exact Or.inl ⟨none :: M₁, M₂, rfl, ha, hM⟩
                · exact Or.inr ⟨none :: M₁, M₂, u, v, rfl, hM⟩
              · by_cases hnil : v = []
                · rw [hnil, List.append_nil] at hv
                  rw [hnil, List.nil_append] at hrest
                  exact Or.inl ⟨[none], M, rfl, hv ▸ (expand_mark new).symm, hrest⟩
                · exact Or.inr ⟨[], M, c :: a, v, rfl, hv, hnil, hrest⟩

/-- A word at the front of an expanded text is one of the text, up to a last
letter that begins a replacement. -/
theorem prefix_expand (hsecond : ∃ x y rest, new = x :: y :: rest ∧ ¬ p y) (hp : ∀ c ∈ t, p c) (h : t <+: expand new M) :
    t.map some <+: M ∨
      ∃ s x, new.head? = some x ∧ t = s ++ [x] ∧ s.map some ++ [none] <+: M := by
  induction t generalizing M with
  | nil => exact Or.inl List.nil_prefix
  | cons c t ih =>
      cases M with
      | nil => cases List.prefix_nil.mp h
      | cons m M =>
          cases m with
          | some d =>
              have hcons : c :: t <+: d :: expand new M := h
              obtain ⟨rfl, hrest⟩ := List.cons_prefix_cons.mp hcons
              obtain hM | ⟨s, x, hx, rfl, hM⟩ :=
                ih (fun c hc => hp c (List.mem_cons_of_mem _ hc)) hrest
              · exact Or.inl (List.cons_prefix_cons.mpr ⟨rfl, hM⟩)
              · exact Or.inr ⟨c :: s, x, hx, rfl, List.cons_prefix_cons.mpr ⟨rfl, hM⟩⟩
          | none =>
              obtain ⟨x, y, rest, hnew, hy⟩ := hsecond
              have hcons : c :: t <+: x :: y :: (rest ++ expand new M) := by
                rw [← List.cons_append, ← List.cons_append, ← hnew]
                exact h
              obtain ⟨rfl, hrest⟩ := List.cons_prefix_cons.mp hcons
              cases t with
              | nil =>
                  refine Or.inr ⟨[], c, by rw [hnew]; rfl, rfl, ?_⟩
                  exact List.cons_prefix_cons.mpr ⟨rfl, List.nil_prefix⟩
              | cons d t =>
                  obtain ⟨rfl, -⟩ := List.cons_prefix_cons.mp hrest
                  exact absurd (hp d (List.mem_cons_of_mem _ List.mem_cons_self)) hy

/-- A word that begins inside a replacement begins with its last letter. -/
theorem made_of_inside (hframed : Framed p new) (hp : ∀ c ∈ search, p c)
    (hlength : new.length ≤ search.length) {u v : List α} (hnew : new = u ++ v) (hv : v ≠ [])
    (h : search <+: v ++ expand new M) : Made new search (none :: M) := by
  obtain ⟨rest, x, y, hlast, hx⟩ := hframed.secondLast
  obtain ⟨w, hw⟩ : v <+: search := by
    refine List.prefix_of_prefix_length_le (List.prefix_append _ _) h ?_
    rw [hnew, List.length_append] at hlength
    omega
  -- the second last letter is not one of the word
  have hvy : v = [y] := by
    have hxv : x ∉ v := fun hmem => hx (hp x (hw ▸ List.mem_append_left _ hmem))
    have hboth : u ++ v = rest ++ [x] ++ [y] := by rw [← hnew, hlast, List.append_assoc]; rfl
    obtain ⟨z, hz⟩ : ∃ z, v = z ++ [y] := by
      refine List.getLast?_eq_some_iff.mp ?_
      rw [← List.getLast?_append_of_ne_nil u hv, hboth, List.getLast?_concat]
    have hfront : u ++ z = rest ++ [x] := by
      rw [hz, ← List.append_assoc] at hboth
      exact List.append_cancel_right hboth
    cases hzs : z.getLast? with
    | none => rw [hz, List.getLast?_eq_none_iff.mp hzs, List.nil_append]
    | some c =>
        have hc := congrArg List.getLast? hfront
        rw [List.getLast?_concat, List.getLast?_append, hzs] at hc
        cases hc
        exact absurd (hz ▸ List.mem_append_left _ (List.mem_of_getLast? hzs)) hxv
  have hy : new.getLast? = some y := by
    rw [hlast]
    exact List.getLast?_eq_some_iff.mpr ⟨rest ++ [x], (List.append_assoc _ [x] [y]).symm⟩
  subst hvy
  rw [← hw] at h hp ⊢
  have ht := (List.prefix_append_right_inj [y]).mp h
  obtain hM | ⟨s, z, hz, rfl, hM⟩ :=
    prefix_expand hframed.second (fun c hc => hp c (List.mem_append_right _ hc)) ht
  · exact ⟨w, Or.inl ⟨y, hy, rfl, (List.cons_prefix_cons.mpr ⟨rfl, hM⟩).isInfix⟩⟩
  · exact ⟨s, Or.inr (Or.inr ⟨z, y, hz, hy, rfl, (List.cons_prefix_cons.mpr ⟨rfl, hM⟩).isInfix⟩)⟩

/-- A word of an expanded text is a word of the text, or made. -/
theorem infix_expand (hframed : Framed p new) (hp : ∀ c ∈ search, p c) (hsearch : search ≠ [])
    (hlength : new.length ≤ search.length) (h : search <:+: expand new M) :
    search.map some <:+: M ∨ Made new search M := by
  obtain ⟨a, w, haw⟩ := h
  have hne : search ++ w ≠ [] := List.append_ne_nil_of_left_ne_nil hsearch w
  rw [List.append_assoc] at haw
  obtain ⟨M₁, M₂, rfl, -, hM⟩ | ⟨M₁, M₂, u, v, rfl, hnew, hv, hM⟩ := expand_split haw.symm hne
  · obtain hword | ⟨s, x, hx, rfl, hmade⟩ := prefix_expand hframed.second hp ⟨w, hM⟩
    · exact Or.inl (hword.isInfix.trans (List.suffix_append _ _).isInfix)
    · exact Or.inr ⟨s, Or.inr (Or.inl ⟨x, hx, rfl,
        hmade.isInfix.trans (List.suffix_append _ _).isInfix⟩)⟩
  · have hmade := made_of_inside hframed hp hlength hnew hv ⟨w, hM⟩
    exact Or.inr (hmade.mono (List.suffix_append _ _).isInfix)

/-- A word without the first and the last letter of the replacement is not
made. -/
theorem not_made (hfirst : ∀ x ∈ new.head?, x ∉ search) (hlast : ∀ y ∈ new.getLast?, y ∉ search) :
    ¬ Made new search M := by
  rintro ⟨t, ⟨y, hy, rfl, -⟩ | ⟨x, hx, rfl, -⟩ | ⟨x, y, -, hy, rfl, -⟩⟩
  · exact hlast y hy List.mem_cons_self
  · exact hfirst x hx (List.mem_append_right _ List.mem_cons_self)
  · exact hlast y hy List.mem_cons_self

/-- A word that is made stands in the expanded text. -/
theorem Made.infix_expand (h : Made new search M) : search <:+: expand new M := by
  obtain ⟨t, ⟨y, hy, rfl, hM⟩ | ⟨x, hx, rfl, hM⟩ | ⟨x, y, hx, hy, rfl, hM⟩⟩ := h
  · obtain ⟨u, hu⟩ := List.getLast?_eq_some_iff.mp hy
    refine List.IsInfix.trans ?_ (expand_infix_mono new hM)
    rw [expand_none_cons, expand_map_some]
    exact ⟨u, [], by rw [hu]; simp⟩
  · obtain ⟨u, hu⟩ := List.head?_eq_some_iff.mp hx
    refine List.IsInfix.trans ?_ (expand_infix_mono new hM)
    rw [expand_append, expand_map_some, expand_mark]
    exact ⟨[], u, by rw [hu]; simp⟩
  · obtain ⟨u, hu⟩ := List.head?_eq_some_iff.mp hx
    obtain ⟨v, hv⟩ := List.getLast?_eq_some_iff.mp hy
    refine List.IsInfix.trans ?_ (expand_infix_mono new hM)
    rw [expand_none_cons, expand_append, expand_map_some, expand_mark]
    exact ⟨v, u, by nth_rewrite 1 [hv]; rw [hu]; simp⟩

variable [DecidableEq α]

/-- When no word is made, cutting and replacing agree. -/
theorem replaceAll_expand (hframed : Framed p new) (hp : ∀ c ∈ search, p c) (hsearch : search ≠ [])
    (hlength : new.length ≤ search.length) (hmade : ¬ Made new search M) :
    replaceAll search new (expand new M) = expand new (replaceAll (search.map some) [none] M) := by
  have hword : search.map some ≠ [] := fun h => hsearch (List.map_eq_nil_iff.mp h)
  refine Finder.induction (wordFinder (search.map some))
    (motive := fun _ M => ¬ Made new search M → replaceAll search new (expand new M)
      = expand new (replaceAll (search.map some) [none] M)) ?nil ?keep ?cut none M hmade
  case nil => exact fun _ _ => rfl
  case keep =>
    intro before m M hfind ih hmade
    have hnot : ¬ search.map some <+: m :: M := by
      intro h
      rw [find_word, if_pos ⟨hword, h⟩] at hfind
      cases hfind
    have ih := ih fun h => hmade (h.mono (List.suffix_cons m M).isInfix)
    rw [replaceAll_cons _ hnot]
    cases m with
    | some c =>
        have hc : ¬ search <+: c :: expand new M := by
          intro h
          obtain hM | ⟨s, x, hx, rfl, hM⟩ := prefix_expand (M := some c :: M) hframed.second hp h
          · exact hnot hM
          · exact hmade ⟨s, Or.inr (Or.inl ⟨x, hx, rfl, hM.isInfix⟩)⟩
        exact (replaceAll_cons new hc).trans (congrArg (c :: ·) ih)
    | none =>
        rw [expand_none_cons, expand_none_cons, replaceAll_part, ih]
        exact fun u v hnew hv h => hmade (made_of_inside hframed hp hlength hnew hv h)
  case cut =>
    intro before s M hfind ih hmade
    have ih := ih fun h => hmade (h.mono (List.suffix_append s M).isInfix)
    obtain rfl : s = search.map some := by
      rw [find_word] at hfind
      split_ifs at hfind with hs
      exact ((List.prefix_of_prefix_length_le (List.prefix_append s M) hs.2
        (Option.some.inj hfind).ge).eq_of_length (Option.some.inj hfind).symm)
    rw [expand_append, expand_map_some, replaceAll_append new hsearch, replaceAll_append _ hword, ih,
      List.singleton_append, expand_none_cons]

end Frames

end FastRep.Replace
