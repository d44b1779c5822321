import Mathlib.Data.List.Basic
import TruthTable.Path
import TruthTable.Proofs.Segments

/-!
# Paths in normal form

A path in normal form has a root and components that are neither empty nor `.`
and hold no slash. Its text is cut into the components again, and so is the
text of a name below it.

Main results:

* `proper_ofString`     — the normal form of any text is proper.
* `components_text`     — the components of the text of a proper path.
* `ofString_text`       — a proper path is the normal form of its text.
* `ofString_joinPath`, `splitLast_joinPath` — a name below a folder.
* `folderAndName_below` — the folder that holds a path, and its name.
-/

namespace TruthTable

-- ---------------------------------------------------------------------------
-- Components
-- ---------------------------------------------------------------------------

/-- There is always a piece, be it an empty one. -/
theorem splitSlashes_ne_nil (cs : List Char) : splitSlashes cs ≠ [] := by
  cases cs with
  | nil => simp [splitSlashes]
  | cons c cs =>
    rw [splitSlashes]
    split
    · simp
    · split <;> simp

/-- Without a slash there is one piece. -/
theorem splitSlashes_of_notMem {cs : List Char} (h : '/' ∉ cs) : splitSlashes cs = [cs] := by
  induction cs with
  | nil => rfl
  | cons c cs ih =>
    rw [List.mem_cons, not_or] at h
    rw [splitSlashes, if_neg (Ne.symm h.1), ih h.2]

/-- A slash ends a piece, and another one starts after it. -/
theorem splitSlashes_append (l r : List Char) :
    splitSlashes (l ++ '/' :: r) = splitSlashes l ++ splitSlashes r := by
  induction l with
  | nil => simp [splitSlashes]
  | cons c l ih =>
    rw [List.cons_append, splitSlashes, splitSlashes, ih]
    by_cases hc : c = '/'
    · rw [if_pos hc, if_pos hc, List.cons_append]
    · rw [if_neg hc, if_neg hc]
      cases hl : splitSlashes l with
      | nil => exact absurd hl (splitSlashes_ne_nil l)
      | cons piece pieces => rfl

/-- No slash stands inside a piece. -/
theorem notMem_of_mem_splitSlashes {cs piece : List Char} (h : piece ∈ splitSlashes cs) :
    '/' ∉ piece := by
  induction cs generalizing piece with
  | nil =>
    rw [splitSlashes, List.mem_singleton] at h
    simp [h]
  | cons c cs ih =>
    rw [splitSlashes] at h
    by_cases hc : c = '/'
    · rw [if_pos hc] at h
      rcases List.mem_cons.mp h with rfl | h
      · exact List.not_mem_nil
      · exact ih h
    · rw [if_neg hc] at h
      cases hSplit : splitSlashes cs with
      | nil => exact absurd hSplit (splitSlashes_ne_nil cs)
      | cons first pieces =>
        rw [hSplit] at h ih
        rcases List.mem_cons.mp h with rfl | h
        · rw [List.mem_cons, not_or]
          exact ⟨Ne.symm hc, ih List.mem_cons_self⟩
        · exact ih (List.mem_cons_of_mem _ h)

/-- The components before a slash, and those after it. -/
theorem components_slash (s t : String) :
    components (s ++ "/" ++ t) = components s ++ components t := by
  have hChars : (s ++ "/" ++ t).toList = s.toList ++ '/' :: t.toList := by simp
  rw [components, hChars, splitSlashes_append, List.map_append, List.filter_append]
  rfl

/-- A name that can stand between slashes, and is not dropped there. -/
structure Component (x : String) : Prop where
  ne_empty : x ≠ ""
  ne_dot : x ≠ "."
  no_slash : '/' ∉ x.toList

/-- A text without slashes is its only component. -/
theorem components_of_no_slash {x : String} (hx : x ≠ "") (h : '/' ∉ x.toList) :
    components x = [x] := by
  simp [components, splitSlashes_of_notMem h, hx]

theorem Component.toList_ne_nil {x : String} (h : Component x) : x.toList ≠ [] :=
  fun hNil => h.ne_empty (String.toList_eq_nil_iff.mp hNil)

theorem Component.ne_slash_of_head {x : String} (h : Component x) :
    ∀ c ∈ x.toList.head?, c ≠ '/' := by
  rintro c hc rfl
  exact h.no_slash (List.mem_of_mem_head? hc)

/-- The text of components with slashes between them. -/
theorem components_intercalate {parts : List String} (h : ∀ x ∈ parts, Component x) :
    components ("/".intercalate parts) = parts := by
  induction parts with
  | nil => rfl
  | cons x parts ih =>
    have hx := h x List.mem_cons_self
    have hRest := fun y hy => h y (List.mem_cons_of_mem x hy)
    cases parts with
    | nil =>
      have hOne : "/".intercalate [x] = x := by simp
      rw [hOne]
      exact components_of_no_slash hx.ne_empty hx.no_slash
    | cons y parts =>
      have hMore : "/".intercalate (x :: y :: parts) =
          x ++ "/" ++ "/".intercalate (y :: parts) := by
        rw [← String.toList_inj]
        simp [String.toList_intercalate]
      rw [hMore, components_slash, ih hRest, components_of_no_slash hx.ne_empty hx.no_slash]
      rfl

-- ---------------------------------------------------------------------------
-- Proper paths
-- ---------------------------------------------------------------------------

namespace Path

/-- The root and the components of a path in normal form. -/
structure Proper (p : Path) : Prop where
  root : p.root = "" ∨ p.root = "/" ∨ p.root = "//"
  parts : ∀ x ∈ p.parts, Component x

/-- A name below the path. -/
def below (p : Path) (x : String) : Path :=
  ⟨p.root, p.parts ++ [x]⟩

/-- The path that is the place where it is looked up. -/
def here : Path := ⟨"", []⟩

/-- Going below a proper path gives a proper path. -/
theorem Proper.below {p : Path} (hp : p.Proper) {x : String} (hx : Component x) :
    (p.below x).Proper where
  root := hp.root
  parts := by
    intro y hy
    rcases List.mem_append.mp hy with hy | hy
    · exact hp.parts y hy
    · rw [List.mem_singleton] at hy
      exact hy ▸ hx

theorem proper_here : here.Proper :=
  ⟨.inl rfl, by simp [here]⟩

/-- Proper paths are made from the roots by going below. -/
theorem Proper.induct {motive : (p : Path) → p.Proper → Prop}
    (root : ∀ (p : Path) (hp : p.Proper), p.parts = [] → motive p hp)
    (below : ∀ (p : Path) (x : String) (hp : p.Proper) (hx : Component x), motive p hp →
      motive (p.below x) (hp.below hx))
    {p : Path} (hp : p.Proper) : motive p hp := by
  obtain ⟨start, parts⟩ := p
  induction parts using List.reverseRecOn with
  | nil => exact root _ hp rfl
  | append_singleton parts x ih =>
    have hAbove : Proper ⟨start, parts⟩ :=
      ⟨hp.root, fun y hy => hp.parts y (List.mem_append_left _ hy)⟩
    exact below ⟨start, parts⟩ x hAbove (hp.parts x (by simp)) (ih hAbove)

/-- The normal form of any text. -/
theorem proper_ofString (s : String) : (ofString s).Proper where
  root := by
    unfold ofString
    dsimp only
    split
    · exact .inl rfl
    · split
      · exact .inr (.inr rfl)
      · exact .inr (.inl rfl)
  parts := by
    intro x hx
    obtain ⟨hx, hDot⟩ := List.mem_filter.mp hx
    obtain ⟨hx, hEmpty⟩ := List.mem_filter.mp hx
    obtain ⟨piece, hPiece, rfl⟩ := List.mem_map.mp hx
    refine ⟨by simpa using hEmpty, by simpa using hDot, ?_⟩
    rw [String.toList_ofList]
    exact notMem_of_mem_splitSlashes hPiece

theorem text_here : here.text = "." := rfl

/-- The root, and the components with slashes between them. -/
theorem text_eq {p : Path} (h : p ≠ here) : p.text = p.root ++ "/".intercalate p.parts := by
  obtain ⟨root, parts⟩ := p
  rw [text, if_neg]
  intro hBoth
  rw [Bool.and_eq_true, String.isEmpty_iff, List.isEmpty_iff] at hBoth
  exact h (by rw [here, ← hBoth.1, ← hBoth.2])

theorem below_ne_here (p : Path) (x : String) : p.below x ≠ here := by
  intro h
  have hParts := congrArg Path.parts h
  simp [below, here] at hParts

/-- The text of the components starts with none of the slashes of the root. -/
theorem head_intercalate {parts : List String} (h : ∀ x ∈ parts, Component x) :
    ∀ c ∈ ("/".intercalate parts).toList.head?, c ≠ '/' := by
  cases parts with
  | nil => simp
  | cons x parts =>
    have hx := h x List.mem_cons_self
    intro c hc
    refine hx.ne_slash_of_head c ?_
    rw [String.toList_intercalate, List.map_cons, intercalate_cons,
      List.head?_append_of_ne_nil _ hx.toList_ne_nil] at hc
    exact hc

/-- The components of a path stand in its text. -/
theorem components_text {p : Path} (hp : p.Proper) (h : p ≠ here) :
    components p.text = p.parts := by
  rw [text_eq h]
  have hParts := components_intercalate hp.parts
  rcases hp.root with hRoot | hRoot | hRoot
  · rw [hRoot, String.empty_append, hParts]
  · have hText : "/" ++ "/".intercalate p.parts = "" ++ "/" ++ "/".intercalate p.parts := by simp
    rw [hRoot, hText, components_slash, hParts]
    rfl
  · have hText : "//" ++ "/".intercalate p.parts = "/" ++ "/" ++ "/".intercalate p.parts := by
      rw [← String.toList_inj]
      simp
    rw [hRoot, hText, components_slash, hParts]
    rfl

/-- The text starts with a slash exactly when the path has a root. -/
theorem head_text {p : Path} (hp : p.Proper) :
    p.text.toList.head? = some '/' ↔ p.root ≠ "" := by
  by_cases h : p = here
  · subst h
    rw [text_here]
    decide
  · rw [text_eq h]
    rcases hp.root with hRoot | hRoot | hRoot
    · rw [hRoot, String.empty_append]
      simp only [ne_eq, not_true_eq_false, iff_false]
      intro hHead
      exact head_intercalate hp.parts '/' hHead rfl
    · simp [hRoot]
    · simp [hRoot]

/-- A proper path is the normal form of its text. -/
theorem ofString_text {p : Path} (hp : p.Proper) : ofString p.text = p := by
  by_cases h : p = here
  · subst h
    rfl
  · have hSlashes : (p.text.toList.takeWhile (· = '/')).length = p.root.toList.length := by
      have hRest : ("/".intercalate p.parts).toList.takeWhile (· = '/') = [] := by
        cases hText : ("/".intercalate p.parts).toList with
        | nil => rfl
        | cons c cs =>
          have hc := head_intercalate hp.parts c (by simp [hText])
          simp [hc]
      have hRoot : ∀ c ∈ p.root.toList, decide (c = '/') = true := by
        rcases hp.root with hRoot | hRoot | hRoot <;> simp [hRoot]
      -- the components start with no slash, so the slashes counted are those of the root
      rw [text_eq h, String.toList_append, List.takeWhile_append_of_pos hRoot, hRest,
        List.append_nil]
    have hParts : p.parts.filter (· != ".") = p.parts := by
      rw [List.filter_eq_self]
      intro x hx
      simpa using (hp.parts x hx).ne_dot
    unfold ofString
    rw [components_text hp h, hParts, hSlashes]
    obtain ⟨root, parts⟩ := p
    rcases hp.root with hRoot | hRoot | hRoot
    · simp_all
    · simp_all
    · simp_all

/-- What is put after the text is put after the last name. -/
theorem text_below_append (p : Path) (x e : String) :
    (p.below x).text ++ e = (p.below (x ++ e)).text := by
  rw [text_eq (below_ne_here p x), text_eq (below_ne_here p (x ++ e)), ← String.toList_inj]
  simp [below, String.toList_intercalate, intercalate_concat]

/-- The text is one of the roots, or ends in a component. -/
theorem text_cases {p : Path} (hp : p.Proper) :
    (p.parts = [] ∧ (p.text = "/" ∨ p.text = "//")) ∨
      (p.text ≠ "" ∧ p.text.toList.getLast? ≠ some '/') := by
  by_cases h : p = here
  · subst h
    exact .inr (by decide)
  · rw [text_eq h]
    rcases List.eq_nil_or_concat p.parts with hParts | ⟨parts, x, hParts⟩
    · rw [hParts]
      rcases hp.root with hRoot | hRoot | hRoot
      · exact absurd (show p = here by rw [here, ← hRoot, ← hParts]) h
      · exact .inl ⟨rfl, .inl (by simp [hRoot])⟩
      · exact .inl ⟨rfl, .inr (by simp [hRoot])⟩
    · have hx := hp.parts x (by simp [hParts])
      have hLast : (p.root ++ "/".intercalate p.parts).toList.getLast? = x.toList.getLast? := by
        rw [String.toList_append, hParts, List.concat_eq_append, String.toList_intercalate,
          List.map_append, List.map_cons, List.map_nil, intercalate_concat, ← List.append_assoc,
          List.getLast?_append_of_ne_nil _ hx.toList_ne_nil]
      refine .inr ⟨?_, ?_⟩
      · intro hEmpty
        rw [hEmpty] at hLast
        exact hx.toList_ne_nil (List.getLast?_eq_none_iff.mp hLast.symm)
      · rw [hLast]
        intro hSlash
        exact hx.no_slash (List.mem_of_getLast? hSlash)

/-- No proper path has an empty text. -/
theorem text_ne_empty {p : Path} (hp : p.Proper) : p.text ≠ "" := by
  rcases text_cases hp with ⟨-, hText | hText⟩ | ⟨hText, -⟩
  · simp [hText]
  · simp [hText]
  · exact hText

end Path

-- ---------------------------------------------------------------------------
-- A name below a folder
-- ---------------------------------------------------------------------------

variable {x : String}

/-- A slash goes between a folder and a name, unless the folder is empty or ends
in one. -/
theorem joinPath_cases (folder : String) (hx : Component x) :
    (joinPath folder x = folder ++ x ∧ (folder = "" ∨ folder.toList.getLast? = some '/')) ∨
      (joinPath folder x = folder ++ "/" ++ x ∧ folder ≠ "" ∧
        folder.toList.getLast? ≠ some '/') := by
  have hHead : x.toList.head? ≠ some '/' := fun h => hx.ne_slash_of_head '/' h rfl
  rw [joinPath, if_neg hHead]
  by_cases h : folder = "" ∨ folder.toList.getLast? = some '/'
  · exact .inl ⟨by rw [if_pos (by simpa using h)], h⟩
  · refine .inr ⟨by rw [if_neg (by simpa using h)], not_or.mp h⟩

/-- The name is the last component of the joined path. -/
theorem components_joinPath (folder : String) (hx : Component x) :
    components (joinPath folder x) = components folder ++ [x] := by
  have hLast := components_of_no_slash hx.ne_empty hx.no_slash
  rcases joinPath_cases folder hx with ⟨hJoin, rfl | hSlash⟩ | ⟨hJoin, -⟩
  · rw [hJoin, String.empty_append, hLast]
    rfl
  · -- the slash at the end of the folder is the one between the two
    obtain ⟨front, hFront⟩ := List.getLast?_eq_some_iff.mp hSlash
    have hFolder : folder = String.ofList front ++ "/" ++ "" := by
      rw [← String.toList_inj]
      simp [hFront]
    rw [hJoin, hFolder, String.append_empty, components_slash, hLast,
      ← String.append_empty (s := _ ++ "/"), components_slash]
    simp [components, splitSlashes]
  · rw [hJoin, components_slash, hLast]

/-- A folder and the paths below it are both absolute, or both relative. -/
theorem head_joinPath {folder : String} (hFolder : folder ≠ "") (hx : Component x) :
    (joinPath folder x).toList.head? = folder.toList.head? := by
  have hNil : folder.toList ≠ [] := fun h => hFolder (String.toList_eq_nil_iff.mp h)
  rcases joinPath_cases folder hx with ⟨hJoin, -⟩ | ⟨hJoin, -⟩
  · rw [hJoin, String.toList_append, List.head?_append_of_ne_nil _ hNil]
  · rw [hJoin, String.append_assoc, String.toList_append, List.head?_append_of_ne_nil _ hNil]

/-- No slash stands after the name. -/
theorem endsInSlash_joinPath (folder : String) (hx : Component x) :
    endsInSlash (joinPath folder x) = false := by
  have hLast : x.toList.getLast? ≠ some '/' := fun h => hx.no_slash (List.mem_of_getLast? h)
  rw [endsInSlash, decide_eq_false_iff_not]
  rcases joinPath_cases folder hx with ⟨hJoin, -⟩ | ⟨hJoin, -⟩
  · rwa [hJoin, String.toList_append, List.getLast?_append_of_ne_nil _ hx.toList_ne_nil]
  · rwa [hJoin, String.toList_append, List.getLast?_append_of_ne_nil _ hx.toList_ne_nil]

/-- A path below a folder is not shorter than that of the folder. -/
theorem size_le_joinPath (folder : String) (hx : Component x) :
    folder.utf8ByteSize ≤ (joinPath folder x).utf8ByteSize := by
  rcases joinPath_cases folder hx with ⟨hJoin, -⟩ | ⟨hJoin, -⟩
  · rw [hJoin, String.utf8ByteSize_append]
    omega
  · rw [hJoin, String.utf8ByteSize_append, String.utf8ByteSize_append]
    omega

/-- A longer name makes the path no shorter. -/
theorem size_joinPath_le (folder e : String) (hx : Component x) (hxe : Component (x ++ e)) :
    (joinPath folder x).utf8ByteSize ≤ (joinPath folder (x ++ e)).utf8ByteSize := by
  rcases joinPath_cases folder hx with ⟨hJoin, hEnd⟩ | ⟨hJoin, hText, hLast⟩
  · rcases joinPath_cases folder hxe with ⟨hJoin', -⟩ | ⟨-, hText, hLast⟩
    · rw [hJoin, hJoin']
      simp only [String.utf8ByteSize_append]
      omega
    · exact absurd hEnd (not_or.mpr ⟨hText, hLast⟩)
  · rcases joinPath_cases folder hxe with ⟨-, hEnd⟩ | ⟨hJoin', -⟩
    · exact absurd hEnd (not_or.mpr ⟨hText, hLast⟩)
    · rw [hJoin, hJoin']
      simp only [String.utf8ByteSize_append]
      omega

/-- The cut is made where the name starts, and the slashes before it go unless
there is nothing else. -/
theorem splitLast_append {front name : List Char} (hName : '/' ∉ name)
    (hFront : ∀ c ∈ front.getLast?, c = '/') :
    splitLast (front ++ name) =
      (if front.reverse.dropWhile (· = '/') = [] then front
        else (front.reverse.dropWhile (· = '/')).reverse, name) := by
  have hAll : ∀ c ∈ name.reverse, decide (c ≠ '/') = true := by
    intro c hc
    have hc := List.mem_reverse.mp hc
    simpa using fun h : c = '/' => hName (h ▸ hc)
  have hStop : front.reverse.takeWhile (· ≠ '/') = [] ∧
      front.reverse.dropWhile (· ≠ '/') = front.reverse := by
    rw [← List.head?_reverse] at hFront
    cases hReverse : front.reverse with
    | nil => exact ⟨rfl, rfl⟩
    | cons c rest =>
      have hc := hFront c (by simp [hReverse])
      simp [hc]
  simp only [splitLast, List.reverse_append, List.takeWhile_append_of_pos hAll,
    List.dropWhile_append_of_pos hAll, hStop.1, hStop.2]
  simp

namespace Path

variable {p : Path}

/-- The joined path is cut into the folder and the name. -/
theorem splitLast_joinPath (hp : p.Proper) (hx : Component x) :
    splitLast (joinPath p.text x).toList = (p.text.toList, x.toList) := by
  rcases joinPath_cases p.text hx with ⟨hJoin, hEnd⟩ | ⟨hJoin, hText, hLast⟩
  · rw [hJoin, String.toList_append]
    rcases text_cases hp with ⟨-, hText | hText⟩ | ⟨hText, hLast⟩
    · rw [hText, splitLast_append hx.no_slash (by simp), if_pos (by simp)]
    · rw [hText, splitLast_append hx.no_slash (by simp), if_pos (by simp)]
    · exact absurd hEnd (not_or.mpr ⟨hText, hLast⟩)
  · -- the slash between the two is not part of the folder
    have hStrip : (p.text ++ "/").toList.reverse.dropWhile (· = '/') = p.text.toList.reverse := by
      rw [← List.head?_reverse] at hLast
      cases hReverse : p.text.toList.reverse with
      | nil => simp_all
      | cons c rest =>
        rw [hReverse, List.head?_cons, ne_eq, Option.some.injEq] at hLast
        simp [hReverse, hLast]
    rw [hJoin, String.toList_append, splitLast_append hx.no_slash (by simp), hStrip]
    simp [hText]

/-- A name alone is its own text. -/
theorem text_below_here (x : String) : (here.below x).text = x := by
  rw [text_eq (below_ne_here here x), ← String.toList_inj]
  simp [below, here]

/-- The text of a name below a path. -/
theorem text_below (hp : p.Proper) (h : p ≠ here) (hx : Component x) :
    (p.below x).text = joinPath p.text x := by
  have hBelow : (p.below x).text.toList = p.root.toList ++
      ((if p.parts = [] then [] else ("/".intercalate p.parts).toList ++ ['/']) ++ x.toList) := by
    rw [text_eq (below_ne_here p x)]
    simp [below, String.toList_intercalate, intercalate_concat]
  rw [← String.toList_inj, hBelow]
  rcases joinPath_cases p.text hx with ⟨hJoin, hEnd⟩ | ⟨hJoin, hText, hLast⟩
  · rcases text_cases hp with ⟨hParts, -⟩ | ⟨hText, hLast⟩
    · rw [hJoin, text_eq h]
      simp [hParts]
    · exact absurd hEnd (not_or.mpr ⟨hText, hLast⟩)
  · have hParts : p.parts ≠ [] := by
      intro hNil
      rcases text_cases hp with ⟨-, hText | hText⟩ | ⟨hText, hLast⟩
      · exact hLast (by simp [hText])
      · exact hLast (by simp [hText])
      · rcases hp.root with hRoot | hRoot | hRoot
        · exact h (by rw [here, ← hRoot, ← hNil])
        · exact hLast (by simp [text_eq h, hRoot, hNil])
        · exact hLast (by simp [text_eq h, hRoot, hNil])
    rw [hJoin, text_eq h]
    simp [hParts]

/-- The normal form of a folder and a name is the name below the folder. -/
theorem ofString_joinPath (hp : p.Proper) (hx : Component x) :
    ofString (joinPath p.text x) = p.below x := by
  by_cases h : p = here
  · subst h
    have hDot : x ≠ "." := hx.ne_dot
    have hParts : components (joinPath here.text x) = [".", x] := by
      rw [components_joinPath _ hx]
      rfl
    have hChars : (joinPath here.text x).toList = '.' :: '/' :: x.toList := by
      rcases joinPath_cases here.text hx with ⟨-, hEnd⟩ | ⟨hJoin, -⟩
      · exact absurd hEnd (by decide)
      · rw [hJoin, text_here]
        simp
    rw [ofString, hParts, hChars]
    simp [below, here, hDot]
  · rw [← text_below hp h hx, ofString_text (hp.below hx)]

/-- The folder that holds a path, and the path's own name. -/
theorem folderAndName_below (hp : p.Proper) (h : p ≠ here) (hx : Component x) :
    folderAndName (p.below x).text.toList = (p.text.toList, x.toList) := by
  rw [folderAndName, text_below hp h hx, splitLast_joinPath hp hx]
  simp [hx.ne_empty]

/-- A name alone has no folder. -/
theorem folderAndName_here (hx : Component x) :
    folderAndName (here.below x).text.toList = ([], x.toList) := by
  have hSplit : splitLast ([] ++ x.toList) = ([], x.toList) := splitLast_append hx.no_slash nofun
  rw [folderAndName, text_below_here, ← List.nil_append x.toList, hSplit]
  simp [hx.ne_empty]

end Path

end TruthTable
