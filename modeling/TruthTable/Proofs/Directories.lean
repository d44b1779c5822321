import TruthTable.Proofs.Trees

/-!
# Making directories

Making a directory with those above it adds directories on the way of its path
and changes nothing else, also when it fails: what was made before a fault
stays. When it succeeds the last of them is new and holds nothing. A directory
that is there is not made again.

Main results:

* `made_makeLast`          — making a directory whose parent is there.
* `made_makeDirectories`   — making a directory and those above it.
* `makeDirectories_of_isFolder` — making a directory that is there.
-/

namespace TruthTable.FileTree

variable {t t' : FileTree} {d : Denials} {place q : List String} {x path : String} {p : Path}

-- ---------------------------------------------------------------------------
-- The way of a path
-- ---------------------------------------------------------------------------

/-- The place of a path or of one of the paths above it. -/
def OnWay (t : FileTree) (p : Path) (place : List String) : Prop :=
  ∃ parts, parts <+: p.parts ∧ t.follow true mostLinks (t.origin p) parts = .ok place

/-- A directory on the way stays there when directories and links are added. -/
theorem OnWay.mono (h : t.OnWay p q) (hKeeps : t.Keeps t') (hq : t'.at? q = some .directory) :
    t'.OnWay p q := by
  obtain ⟨parts, hParts, hFollow⟩ := h
  have hOrigin : t'.origin p = t.origin p := by rw [origin, origin, hKeeps.home_eq]
  refine ⟨parts, hParts, ?_⟩
  rw [hOrigin, follow_eq_ok_iff]
  exact (follow_eq_ok_iff.mp hFollow).mono hKeeps id fun _ => by simp [hq]

/-- The way of a path is part of the way of a name below it. -/
theorem OnWay.below (h : t.OnWay p q) (x : String) : t.OnWay (p.below x) q := by
  obtain ⟨parts, hParts, hFollow⟩ := h
  exact ⟨parts, hParts.trans (List.prefix_append _ _), hFollow⟩

/-- Each part of the way to a folder leads to a directory. -/
theorem IsFolder.exists_onWay (ht : t.Closed) (h : t.IsFolder p place) {parts : List String}
    (hParts : parts <+: p.parts) :
    ∃ q, t.follow true mostLinks (t.origin p) parts = .ok q ∧ t.at? q = some .directory := by
  obtain ⟨rest, hRest⟩ := hParts
  have hFollows := h.follows
  rw [← hRest] at hFollows
  obtain ⟨q, hFront, hThere⟩ := hFollows.front ht (ht.at?_origin p) h.there
  exact ⟨q, follow_eq_ok_iff.mpr hFront, hThere⟩

/-- The second tree has all that the first one has, and besides it nothing but
directories on the way of a path. -/
structure Grown (t t' : FileTree) (p : Path) : Prop where
  home_eq : t'.home = t.home
  at?_cases : ∀ q, t'.at? q = t.at? q ∨
    t.at? q = none ∧ t'.at? q = some .directory ∧ t'.OnWay p q

theorem Grown.refl (t : FileTree) (p : Path) : t.Grown t p :=
  ⟨rfl, fun _ => .inl rfl⟩

/-- What stands somewhere still stands there. -/
theorem Grown.kept (h : t.Grown t' p) {node : FileNode} (hq : t.at? q = some node) :
    t'.at? q = some node := by
  rcases h.at?_cases q with hSame | ⟨hNone, -⟩
  · rw [hSame, hq]
  · rw [hq] at hNone
    cases hNone

theorem Grown.keeps (h : t.Grown t' p) : t.Keeps t' :=
  ⟨h.home_eq, fun _ => h.kept, fun _ _ => h.kept⟩

/-- What is made for a path, and then for a name below it. -/
theorem Grown.below {t₁ t₂ : FileTree} (h : t.Grown t₁ p) (h' : t₁.Grown t₂ (p.below x)) :
    t.Grown t₂ (p.below x) where
  home_eq := h'.home_eq.trans h.home_eq
  at?_cases := by
    intro q
    rcases h'.at?_cases q with hSame | ⟨hNone, hNew, hWay⟩
    · rcases h.at?_cases q with hBefore | ⟨hNone, hNew, hWay⟩
      · exact .inl (hSame.trans hBefore)
      · rw [hSame]
        exact .inr ⟨hNone, hNew, (hWay.below x).mono h'.keeps (hSame.trans hNew)⟩
    · refine .inr ⟨?_, hNew, hWay⟩
      -- nothing that stood there at first has gone in between
      by_contra hSome
      obtain ⟨node, hNode⟩ := Option.ne_none_iff_exists'.mp hSome
      rw [h.kept hNode] at hNone
      cases hNone

/-- Making the directory succeeded, and nothing stands in it yet. -/
def Fresh (t : FileTree) (p : Path) : Prop :=
  ∃ place, t.IsFolder p place ∧ ∀ x, t.at? (place ++ [x]) = none

/-- What becomes of a tree in which a directory is made, or could not be made. -/
structure Made (t : FileTree) (p : Path) (outcome : FileTree × Except PathFault Unit) : Prop where
  closed : outcome.1.Closed
  grown : t.Grown outcome.1 p
  fresh : outcome.2 = .ok () → outcome.1.Fresh p

/-- A fault before anything is made. -/
theorem Made.of_error (ht : t.Closed) (p : Path) (fault : PathFault) :
    t.Made p (t, .error fault) :=
  ⟨ht, .refl t p, nofun⟩

-- ---------------------------------------------------------------------------
-- Making one directory
-- ---------------------------------------------------------------------------

/-- A change is made when the tree allows it and the system does. -/
theorem Denials.check_eq_ok_iff {change : Change} {outcome : Except PathFault FileTree} :
    d.check t change path outcome = .ok t' ↔ outcome = .ok t' ∧ d t change path = none := by
  cases outcome with
  | error fault => simp [Denials.check, bind, Except.bind]
  | ok after =>
    rw [Denials.check, ok_bind]
    cases d t change path with
    | none => simp [pure, Except.pure]
    | some refusal => simp [throw, throwThe, MonadExceptOf.throw]

/-- A directory is made where nothing stands. -/
theorem eq_put_of_makeDirectory (h : t.makeDirectory d path = .ok t') :
    hasNull path = false ∧ ∃ place, t.locate false path = .ok place ∧ t.at? place = none ∧
      t' = t.put place .directory := by
  cases hNull : hasNull path with
  | true =>
    simp only [makeDirectory, hNull] at h
    cases h
  | false =>
    cases hLocate : t.locate false path with
    | error refusal =>
      simp only [makeDirectory, hNull, hLocate, refuse] at h
      cases h
    | ok place =>
      simp only [makeDirectory, hNull, hLocate, refuse, ok_bind] at h
      cases hNode : t.at? place with
      | some node =>
        rw [hNode] at h
        cases h
      | none =>
        rw [hNode] at h
        have hPut := (Denials.check_eq_ok_iff.mp h).1
        injection hPut with hPut
        exact ⟨rfl, place, rfl, hNode, hPut.symm⟩

/-- A directory is not made where one is already. -/
theorem exists_fault_of_isDirectory (d : Denials) (h : t.isDirectory path = true) :
    ∃ fault, t.makeDirectory d path = .error fault := by
  cases hMake : t.makeDirectory d path with
  | error fault => exact ⟨fault, rfl⟩
  | ok made =>
    obtain ⟨-, place, hLocate, hNone, -⟩ := eq_put_of_makeDirectory hMake
    obtain ⟨-, there, hThrough, hThere⟩ := isDirectory_iff.mp h
    obtain ⟨-, -, hFollows⟩ := locate_eq_ok_iff.mp hLocate
    obtain ⟨-, -, hFollows'⟩ := locate_eq_ok_iff.mp hThrough
    -- at a place where nothing stands there is no link to follow
    have hSame := (hFollows.mono (.refl t) nofun fun _ => by simp [hNone]).unique hFollows'
    rw [hSame, hThere] at hNone
    cases hNone

/-- Making a directory, those above it apart. -/
theorem made_makeLast (ht : t.Closed) (hp : p.Proper) :
    t.Made p (t.makeLast d p.text false) := by
  cases hMake : t.makeDirectory d p.text with
  | error fault =>
    have hLast : t.makeLast d p.text false = (t, .error fault) := by simp [makeLast, hMake]
    rw [hLast]
    exact .of_error ht p fault
  | ok made =>
    have hLast : t.makeLast d p.text false = (made, .ok ()) := by simp [makeLast, hMake]
    obtain ⟨hNull, place, hLocate, hNone, rfl⟩ := eq_put_of_makeDirectory hMake
    obtain ⟨hSize, hFollows⟩ := (locate_text_iff hp).mp hLocate
    have hFree : Free (t.at? place) := hNone ▸ .nothing
    have hThere : (t.put place .directory).at? place = some .directory := by
      rw [at?_put hFree.ne_nil, if_pos rfl]
    have hClosed := ht.put hFree .directory (hFollows.at?_dropLast ht (ht.at?_origin p))
    -- the way to the new directory was there before it was made
    have hWay : (t.put place .directory).Follows true mostLinks (t.origin p) p.parts place :=
      hFollows.mono (keeps_put hFree .directory) nofun fun _ => by simp [hThere]
    rw [hLast]
    refine ⟨hClosed, ⟨rfl, fun q => ?_⟩, fun _ => ⟨place, ⟨hNull, hSize, hWay, hThere⟩, ?_⟩⟩
    · by_cases hq : q = place
      · subst hq
        exact .inr ⟨hNone, hThere, p.parts, List.prefix_rfl, follow_eq_ok_iff.mpr hWay⟩
      · exact .inl (by rw [at?_put hFree.ne_nil, if_neg hq])
    · intro x
      have hOther : place ++ [x] ≠ place := by simp
      rw [at?_put hFree.ne_nil, if_neg hOther]
      exact ht.below_eq_none hNone x

-- ---------------------------------------------------------------------------
-- Making the directories above
-- ---------------------------------------------------------------------------

/-- A directory whose parent is there. -/
theorem makeDirectories_eq_makeLast {path : List Char} {mayExist : Bool}
    (h : (folderAndName path).1 = [] ∨ (folderAndName path).2 = [] ∨
      t.exists? (String.ofList (folderAndName path).1) = true) :
    t.makeDirectories d path mayExist = t.makeLast d (String.ofList path) mayExist := by
  rw [makeDirectories]
  split
  rename_i head tail hSplit
  rw [hSplit] at h
  rw [dif_neg]
  rintro ⟨hHead, hTail, hNone⟩
  rcases h with h | h | h
  · exact hHead h
  · exact hTail h
  · rw [h] at hNone
    cases hNone

/-- The directory above the path is made first if nothing stands there. A fault
in this ends it, unless the fault is that something stands there by now. -/
theorem makeDirectories_below (hp : p.Proper) (hHere : p ≠ Path.here) (hx : Component x)
    (hNone : t.exists? p.text = false) (mayExist : Bool) :
    t.makeDirectories d (p.below x).text.toList mayExist =
        (t.makeDirectories d p.text.toList mayExist).1.makeLast d (p.below x).text mayExist ∨
      ∃ fault, t.makeDirectories d (p.below x).text.toList mayExist =
        ((t.makeDirectories d p.text.toList mayExist).1, .error fault) := by
  have hSplit := Path.folderAndName_below hp hHere hx
  have hDot : x.toList ≠ ['.'] := fun h => hx.ne_dot (String.toList_inj.mp h)
  have hHead : p.text.toList ≠ [] :=
    fun h => Path.text_ne_empty hp (String.toList_eq_nil_iff.mp h)
  rw [makeDirectories]
  split
  rename_i head tail hCut
  rw [hSplit, Prod.mk.injEq] at hCut
  obtain ⟨rfl, rfl⟩ := hCut
  rw [dif_pos ⟨hHead, hx.toList_ne_nil, by rwa [String.ofList_toList]⟩]
  simp only [hDot, if_false, String.ofList_toList]
  obtain ⟨made, outcome⟩ := t.makeDirectories d p.text.toList mayExist
  cases outcome with
  | ok done => exact .inl rfl
  | error fault =>
    cases fault with
    | nullCharacter => exact .inr ⟨_, rfl⟩
    | refused refusal above =>
      by_cases hExists : refusal = .exists
      · exact .inl (by simp [hExists])
      · exact .inr ⟨.refused refusal above, by simp [hExists]⟩

/-- A path without components stands for a directory that is there. -/
theorem makeDirectories_of_parts_eq_nil (hp : p.Proper) (hParts : p.parts = [])
    (mayExist : Bool) :
    t.makeDirectories d p.text.toList mayExist = t.makeLast d p.text mayExist := by
  obtain ⟨root, parts⟩ := p
  obtain rfl : parts = [] := hParts
  have hRoot := hp.root
  rw [makeDirectories_eq_makeLast, String.ofList_toList]
  rcases hRoot with rfl | rfl | rfl
  · exact .inl (by decide)
  · exact .inr (.inl (by decide))
  · exact .inr (.inl (by decide))

/-- A name below a path where something stands, or below no path. -/
theorem makeDirectories_of_exists (hp : p.Proper) (hx : Component x)
    (h : p = Path.here ∨ t.exists? p.text = true) (mayExist : Bool) :
    t.makeDirectories d (p.below x).text.toList mayExist =
      t.makeLast d (p.below x).text mayExist := by
  rw [makeDirectories_eq_makeLast, String.ofList_toList]
  by_cases hHere : p = Path.here
  · subst hHere
    exact .inl (by rw [Path.folderAndName_here hx])
  · refine .inr (.inr ?_)
    rw [Path.folderAndName_below hp hHere hx, String.ofList_toList]
    exact h.resolve_left hHere

/-- **Making directories adds directories on the way of the path, also when it
fails; when it succeeds the last of them is new.** -/
theorem made_makeDirectories (ht : t.Closed) (hp : p.Proper) :
    t.Made p (t.makeDirectories d p.text.toList false) := by
  induction hp using Path.Proper.induct with
  | root p hp hParts =>
    rw [makeDirectories_of_parts_eq_nil hp hParts]
    exact made_makeLast ht hp
  | below p x hp hx ih =>
    by_cases h : p = Path.here ∨ t.exists? p.text = true
    · rw [makeDirectories_of_exists hp hx h]
      exact made_makeLast ht (hp.below hx)
    · obtain ⟨hHere, hNone⟩ := not_or.mp h
      -- what was made above the path stays, whether or not there was a fault
      obtain ⟨hClosed, hGrown, -⟩ := ih
      rcases makeDirectories_below hp hHere hx (Bool.eq_false_iff.mpr hNone) false with
        hMake | ⟨fault, hMake⟩
      · obtain ⟨hClosed', hGrown', hFresh⟩ := made_makeLast hClosed (hp.below hx)
        rw [hMake]
        exact ⟨hClosed', hGrown.below hGrown', hFresh⟩
      · rw [hMake]
        exact ⟨hClosed, hGrown.below (.refl _ _), nofun⟩

/-- Making a directory that is there. -/
theorem makeDirectories_of_isFolder (ht : t.Closed) (hp : p.Proper) (h : t.IsFolder p place) :
    t.makeDirectories d p.text.toList true = (t, .ok ()) := by
  have hDirectory := (isDirectory_text_iff hp).mpr ⟨place, h⟩
  obtain ⟨fault, hMake⟩ := exists_fault_of_isDirectory d hDirectory
  have hLast : t.makeLast d p.text true = (t, .ok ()) := by simp [makeLast, hMake, hDirectory]
  cases hp using Path.Proper.induct with
  | root p hp hParts => rw [makeDirectories_of_parts_eq_nil hp hParts, hLast]
  | below p x hp hx =>
    rw [makeDirectories_of_exists hp hx, hLast]
    by_cases hHere : p = Path.here
    · exact .inl hHere
    · obtain ⟨above, hAbove⟩ := h.above ht hp hHere hx
      exact .inr (hAbove.exists_text hp)

end TruthTable.FileTree
