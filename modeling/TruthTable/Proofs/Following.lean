import Mathlib.Data.List.Basic
import TruthTable.FileTree
import TruthTable.Table

/-!
# Following paths

In a closed tree the directory above anything that exists is there. A path is
followed from directory to directory, and at a link along the path that the link
holds. `Follows` says where components lead as a relation, one rule for each
kind of component, and everything about the ways through a tree is shown by
induction on it.

Main results:

* `follow_eq_ok_iff`   — following components succeeds exactly along `Follows`.
* `Follows.mono`       — a way stays when directories and links are added.
* `Follows.concat`     — one name further than a directory.
* `Follows.front`      — a way to a directory passes directories only.
-/

namespace TruthTable.FileTree

variable {t t' : FileTree} {place next middle : List String} {cs ds : List String}
  {c x target : String} {through through' : Bool} {links : Nat}

-- ---------------------------------------------------------------------------
-- What stands at a place
-- ---------------------------------------------------------------------------

/-- The root is a directory. -/
@[simp]
theorem at?_nil : t.at? [] = some .directory := rfl

/-- Putting a node changes one place. -/
theorem at?_put (hPlace : place ≠ []) (node : FileNode) (q : List String) :
    (t.put place node).at? q = if q = place then some node else t.at? q := by
  by_cases hNil : q = []
  · rw [if_neg (hNil ▸ hPlace.symm), hNil, at?_nil, at?_nil]
  · by_cases hq : q = place
    · simp [at?, put, hq, hPlace]
    · have hOther : (q == place) = false := by simpa using hq
      simp [at?, put, hNil, hq, hOther, List.lookup_cons, Table.lookup_filter]

/-- Taking a node away changes one place. -/
theorem at?_erase (hPlace : place ≠ []) (q : List String) :
    (t.erase place).at? q = if q = place then none else t.at? q := by
  by_cases hNil : q = []
  · rw [if_neg (hNil ▸ hPlace.symm), hNil, at?_nil, at?_nil]
  · simp [at?, erase, hNil, Table.lookup_filter]

/-- The second of two nodes that are put at one place replaces the first. -/
theorem put_put (t : FileTree) (place : List String) (node node' : FileNode) :
    (t.put place node).put place node' = t.put place node' := by
  simp [put, List.filter_filter]

/-- The working directory is there, and so is the directory above anything. -/
structure Closed (t : FileTree) : Prop where
  home : t.at? t.home = some .directory
  above : ∀ place, t.at? place ≠ none → t.at? place.dropLast = some .directory

/-- The tree of the root alone. -/
theorem closed_empty : Closed ⟨[], []⟩ where
  home := rfl
  above := by
    intro place hPlace
    cases place with
    | nil => rfl
    | cons x rest => exact absurd rfl hPlace

/-- The directory above a directory, the root being above itself. -/
theorem Closed.above_directory (ht : t.Closed) (h : t.at? place = some .directory) :
    t.at? place.dropLast = some .directory :=
  ht.above place (by simp [h])

/-- Nothing stands below a place where nothing stands. -/
theorem Closed.below_eq_none (ht : t.Closed) (h : t.at? place = none) (x : String) :
    t.at? (place ++ [x]) = none := by
  by_contra hSome
  have hAbove := ht.above _ hSome
  rw [List.dropLast_concat, h] at hAbove
  cases hAbove

/-- Nothing stands there, or a file. -/
inductive Free : Option FileNode → Prop
  | nothing : Free none
  | file (bytes : List UInt8) : Free (some (.file bytes))

/-- Free is what neither a directory nor a link takes. -/
theorem free_iff {node : Option FileNode} :
    Free node ↔ node ≠ some .directory ∧ ∀ target, node ≠ some (.link target) := by
  constructor
  · rintro (_ | bytes) <;> simp
  · rintro ⟨hDirectory, hLink⟩
    cases node with
    | none => exact .nothing
    | some node =>
      cases node with
      | file bytes => exact .file bytes
      | directory => exact absurd rfl hDirectory
      | link target => exact absurd rfl (hLink target)

theorem Free.ne_directory {node : Option FileNode} (h : Free node) : node ≠ some .directory :=
  (free_iff.mp h).1

theorem Free.ne_link {node : Option FileNode} (h : Free node) (target : String) :
    node ≠ some (.link target) :=
  (free_iff.mp h).2 target

/-- A free place is not the root. -/
theorem Free.ne_nil (h : Free (t.at? place)) : place ≠ [] := by
  rintro rfl
  exact h.ne_directory at?_nil

/-- The second tree has the directories and the links of the first one. -/
structure Keeps (t t' : FileTree) : Prop where
  home_eq : t'.home = t.home
  directory : ∀ q, t.at? q = some .directory → t'.at? q = some .directory
  link : ∀ q target, t.at? q = some (.link target) → t'.at? q = some (.link target)

/-- A tree keeps what it has. -/
theorem Keeps.refl (t : FileTree) : Keeps t t :=
  ⟨rfl, fun _ => id, fun _ _ => id⟩

/-- Where anything new stands, the directory above it was there. -/
theorem Keeps.closed (h : t.Keeps t') (ht : t.Closed)
    (hNew : ∀ q, t'.at? q ≠ none → t.at? q ≠ none ∨ t.at? q.dropLast = some .directory) :
    t'.Closed where
  home := by
    rw [h.home_eq]
    exact h.directory _ ht.home
  above := by
    intro q hq
    rcases hNew q hq with hOld | hAbove
    · exact h.directory _ (ht.above q hOld)
    · exact h.directory _ hAbove

/-- What is put at a free place replaces no directory and no link. -/
theorem keeps_put (hFree : Free (t.at? place)) (node : FileNode) : t.Keeps (t.put place node) where
  home_eq := rfl
  directory := by
    intro q hq
    have hOther : q ≠ place := by
      rintro rfl
      exact hFree.ne_directory hq
    rw [at?_put hFree.ne_nil, if_neg hOther, hq]
  link := by
    intro q target hq
    have hOther : q ≠ place := by
      rintro rfl
      exact hFree.ne_link target hq
    rw [at?_put hFree.ne_nil, if_neg hOther, hq]

/-- Something is put in a directory. -/
theorem Closed.put (ht : t.Closed) (hFree : Free (t.at? place)) (node : FileNode)
    (hAbove : t.at? place.dropLast = some .directory) : (t.put place node).Closed := by
  refine (keeps_put hFree node).closed ht fun q hq => ?_
  rw [at?_put hFree.ne_nil] at hq
  split at hq
  · rename_i hPlace
    exact .inr (hPlace ▸ hAbove)
  · exact .inl hq

-- ---------------------------------------------------------------------------
-- The ways through a tree
-- ---------------------------------------------------------------------------

/-- A component that is looked up in a directory. -/
structure Plain (c : String) : Prop where
  ne_dot : c ≠ "."
  ne_up : c ≠ ".."
  size_le : c.utf8ByteSize ≤ longestName

/-- The components lead from a directory to a place, by way of so many links at
most. A link at the end is followed if `through` says so. -/
inductive Follows (t : FileTree) (through : Bool) :
    Nat → List String → List String → List String → Prop
  | nil (links : Nat) (place : List String) : Follows t through links place [] place
  | here {links : Nat} {place cs next : List String} :
      Follows t through links place cs next →
      Follows t through links place ("." :: cs) next
  | up {links : Nat} {place cs next : List String} :
      Follows t through links place.dropLast cs next →
      Follows t through links place (".." :: cs) next
  | down {links : Nat} {place cs next : List String} {c : String} :
      Plain c → t.at? (place ++ [c]) = some .directory →
      Follows t through links (place ++ [c]) cs next →
      Follows t through links place (c :: cs) next
  | jump {links : Nat} {place cs next : List String} {c target : String} :
      Plain c → t.at? (place ++ [c]) = some (.link target) → through = true ∨ cs ≠ [] →
      Follows t through links (start target place) (components target ++ cs) next →
      Follows t through (links + 1) place (c :: cs) next
  /-- The last component need not stand for anything. -/
  | last {links : Nat} {place : List String} {c : String} :
      Plain c → t.at? (place ++ [c]) ≠ some .directory →
      (through = true → ∀ target, t.at? (place ++ [c]) ≠ some (.link target)) →
      Follows t through links place [c] (place ++ [c])

/-- No components lead nowhere else. -/
@[simp]
theorem follow_nil (t : FileTree) (through : Bool) (links : Nat) (place : List String) :
    t.follow through links place [] = .ok place := by
  cases links <;> rfl

/-- A single dot stays. -/
@[simp]
theorem follow_here (t : FileTree) (through : Bool) (links : Nat) (place cs : List String) :
    t.follow through links place ("." :: cs) = t.follow through links place cs := by
  cases links <;> rfl

/-- Two dots lead to the directory above. -/
@[simp]
theorem follow_up (t : FileTree) (through : Bool) (links : Nat) (place cs : List String) :
    t.follow through links place (".." :: cs) = t.follow through links place.dropLast cs := by
  cases links <;> rfl

/-- A name that is too long is refused, whatever follows. -/
theorem follow_of_long (hDot : c ≠ ".") (hUp : c ≠ "..") (hSize : longestName < c.utf8ByteSize)
    (links : Nat) (place cs : List String) :
    t.follow through links place (c :: cs) = .error .nameTooLong := by
  cases links <;> simp [follow, followWith, hDot, hUp, hSize]

/-- A plain component is looked up. -/
theorem follow_cons_of_plain (hPlain : Plain c) (links : Nat) (place cs : List String) :
    t.follow through links place (c :: cs) =
      match t.at? (place ++ [c]) with
      | some .directory => t.follow through links (place ++ [c]) cs
      | some (.link target) =>
        if through || !cs.isEmpty then
          match links with
          | 0 => .error .tooManyLinks
          | links + 1 => t.follow through links (start target place) (components target ++ cs)
        else .ok (place ++ [c])
      | some (.file _) => if cs.isEmpty then .ok (place ++ [c]) else .error .notDirectory
      | none => if cs.isEmpty then .ok (place ++ [c]) else .error .notFound := by
  have hSize := Nat.not_lt_of_le hPlain.size_le
  cases links with
  | zero => exact (if_neg hPlain.ne_dot).trans ((if_neg hPlain.ne_up).trans (if_neg hSize))
  | succ links => exact (if_neg hPlain.ne_dot).trans ((if_neg hPlain.ne_up).trans (if_neg hSize))

/-- A plain component leads into a directory, on to where a link leads, or to the
end of the way. -/
theorem follow_cons_cases (hPlain : Plain c)
    (h : t.follow through links place (c :: cs) = .ok next) :
    (t.at? (place ++ [c]) = some .directory ∧
      t.follow through links (place ++ [c]) cs = .ok next) ∨
    (∃ target fewer, links = fewer + 1 ∧ t.at? (place ++ [c]) = some (.link target) ∧
      (through = true ∨ cs ≠ []) ∧
      t.follow through fewer (start target place) (components target ++ cs) = .ok next) ∨
    (cs = [] ∧ next = place ++ [c] ∧ t.at? (place ++ [c]) ≠ some .directory ∧
      (through = true → ∀ target, t.at? (place ++ [c]) ≠ some (.link target))) := by
  have hStop : ∀ refusal, (if cs.isEmpty then .ok (place ++ [c]) else .error refusal) =
      (.ok next : Except Refusal (List String)) → cs = [] ∧ next = place ++ [c] := by
    intro refusal hOk
    split at hOk
    · rename_i hEmpty
      injection hOk with hOk
      exact ⟨List.isEmpty_iff.mp hEmpty, hOk.symm⟩
    · cases hOk
  rw [follow_cons_of_plain hPlain] at h
  cases hNode : t.at? (place ++ [c]) with
  | none =>
    rw [hNode] at h
    obtain ⟨hNil, hNext⟩ := hStop _ h
    exact .inr (.inr ⟨hNil, hNext, nofun, nofun⟩)
  | some node =>
    rw [hNode] at h
    cases node with
    | directory => exact .inl ⟨rfl, h⟩
    | file bytes =>
      obtain ⟨hNil, hNext⟩ := hStop _ h
      exact .inr (.inr ⟨hNil, hNext, nofun, nofun⟩)
    | link target =>
      by_cases hJump : (through || !cs.isEmpty) = true
      · simp only [hJump, if_true] at h
        cases links with
        | zero => cases h
        | succ links => exact .inr (.inl ⟨target, links, rfl, rfl, by simpa using hJump, h⟩)
      · simp only [hJump] at h
        injection h with h
        simp only [Bool.or_eq_true, Bool.not_eq_true', not_or, Bool.not_eq_true,
          Bool.not_eq_false, List.isEmpty_iff] at hJump
        exact .inr (.inr ⟨hJump.2, h.symm, nofun, by simp [hJump.1]⟩)

/-- Where components are followed to, they lead. -/
theorem follows_of_follow (h : t.follow through links place cs = .ok next) :
    t.Follows through links place cs next := by
  -- a link uses up one of the links and may put any number of components in its place
  induction links using Nat.strongRecOn generalizing place cs with
  | ind links ihLinks =>
    induction cs generalizing place with
    | nil =>
      rw [follow_nil] at h
      cases h
      exact .nil _ _
    | cons c cs ih =>
      by_cases hDot : c = "."
      · subst hDot
        rw [follow_here] at h
        exact .here (ih h)
      by_cases hUp : c = ".."
      · subst hUp
        rw [follow_up] at h
        exact .up (ih h)
      by_cases hSize : longestName < c.utf8ByteSize
      · rw [follow_of_long hDot hUp hSize] at h
        cases h
      have hPlain : Plain c := ⟨hDot, hUp, Nat.le_of_not_lt hSize⟩
      rcases follow_cons_cases hPlain h with ⟨hNode, hRest⟩ |
        ⟨target, fewer, rfl, hNode, hJump, hRest⟩ | ⟨rfl, rfl, hNode, hLink⟩
      · exact .down hPlain hNode (ih hRest)
      · exact .jump hPlain hNode hJump (ihLinks fewer (Nat.lt_succ_self fewer) hRest)
      · exact .last hPlain hNode hLink

/-- **Following components succeeds exactly along the ways through the tree.** -/
theorem follow_eq_ok_iff : t.follow through links place cs = .ok next ↔
    t.Follows through links place cs next := by
  refine ⟨follows_of_follow, fun h => ?_⟩
  induction h with
  | nil => exact follow_nil ..
  | here _ ih => rwa [follow_here]
  | up _ ih => rwa [follow_up]
  | down hPlain hNode _ ih =>
    rw [follow_cons_of_plain hPlain, hNode]
    exact ih
  | jump hPlain hNode hJump _ ih =>
    rw [follow_cons_of_plain hPlain, hNode]
    simp only
    rw [if_pos (by simpa using hJump)]
    exact ih
  | @last links place c hPlain hNode hLink =>
    rw [follow_cons_of_plain hPlain]
    cases hThere : t.at? (place ++ [c]) with
    | none => rfl
    | some node =>
      cases node with
      | directory => exact absurd hThere hNode
      | file bytes => rfl
      | link target =>
        cases through with
        | false => rfl
        | true => exact absurd hThere (hLink rfl target)

/-- Components lead to one place at most. -/
theorem Follows.unique (h : t.Follows through links place cs next)
    (h' : t.Follows through links place cs middle) : next = middle := by
  rw [← follow_eq_ok_iff] at h h'
  rw [h] at h'
  injection h'

/-- A way stays when directories and links are added, unless its end has become
a link that is now followed. -/
theorem Follows.mono (h : t.Follows through links place cs next) (hKeeps : t.Keeps t')
    (hThrough : through = true → through' = true)
    (hNext : through' = true → ∀ target, t'.at? next ≠ some (.link target)) :
    t'.Follows through' links place cs next := by
  induction h with
  | nil => exact .nil _ _
  | here _ ih => exact .here (ih hNext)
  | up _ ih => exact .up (ih hNext)
  | down hPlain hNode _ ih => exact .down hPlain (hKeeps.directory _ hNode) (ih hNext)
  | jump hPlain hNode hJump _ ih =>
    exact .jump hPlain (hKeeps.link _ _ hNode) (hJump.imp_left hThrough) (ih hNext)
  | @last links place c hPlain hNode hLink =>
    by_cases hDirectory : t'.at? (place ++ [c]) = some .directory
    · exact .down hPlain hDirectory (.nil _ _)
    · exact .last hPlain hDirectory hNext

/-- One name further than a directory. -/
theorem Follows.concat (h : t.Follows true links place cs middle)
    (hThere : t.at? middle = some .directory) (hPlain : Plain x)
    (hNext : through = true → ∀ target, t.at? (middle ++ [x]) ≠ some (.link target)) :
    t.Follows through links place (cs ++ [x]) (middle ++ [x]) := by
  induction h with
  | @nil links place =>
    by_cases hDirectory : t.at? (place ++ [x]) = some .directory
    · exact .down hPlain hDirectory (.nil _ _)
    · exact .last hPlain hDirectory hNext
  | here _ ih => exact .here (ih hThere hNext)
  | up _ ih => exact .up (ih hThere hNext)
  | down hFirst hNode _ ih => exact .down hFirst hNode (ih hThere hNext)
  | jump hFirst hNode _ _ ih =>
    have hRest := ih hThere hNext
    rw [List.append_assoc] at hRest
    exact .jump hFirst hNode (.inr (by simp)) hRest
  | last _ hNode _ => exact absurd hThere hNode

section Closed

variable (ht : t.Closed)
include ht

omit ht in
/-- The start of a link's path is a directory. -/
theorem at?_start (hPlace : t.at? place = some .directory) (target : String) :
    t.at? (start target place) = some .directory := by
  unfold start
  split
  · rfl
  · exact hPlace

/-- The end of a way stands in a directory. -/
theorem Follows.at?_dropLast (h : t.Follows through links place cs next)
    (hPlace : t.at? place = some .directory) : t.at? next.dropLast = some .directory := by
  induction h with
  | nil => exact ht.above_directory hPlace
  | here _ ih => exact ih hPlace
  | up _ ih => exact ih (ht.above_directory hPlace)
  | down _ hNode _ ih => exact ih hNode
  | jump _ _ _ _ ih => exact ih (at?_start hPlace _)
  | last => rwa [List.dropLast_concat]

/-- The first part of a way to a directory leads to a directory. -/
theorem Follows.front (h : t.Follows true links place (cs ++ ds) next)
    (hPlace : t.at? place = some .directory) (hNext : t.at? next = some .directory) :
    ∃ middle, t.Follows true links place cs middle ∧ t.at? middle = some .directory := by
  generalize hAll : cs ++ ds = all at h
  induction h generalizing cs with
  | nil =>
    obtain ⟨rfl, -⟩ := List.append_eq_nil_iff.mp hAll
    exact ⟨_, .nil _ _, hPlace⟩
  | here _ ih =>
    rcases List.append_eq_cons_iff.mp hAll with ⟨rfl, -⟩ | ⟨front, rfl, rfl⟩
    · exact ⟨_, .nil _ _, hPlace⟩
    · obtain ⟨middle, hFront, hMiddle⟩ := ih hPlace hNext rfl
      exact ⟨middle, .here hFront, hMiddle⟩
  | up _ ih =>
    rcases List.append_eq_cons_iff.mp hAll with ⟨rfl, -⟩ | ⟨front, rfl, rfl⟩
    · exact ⟨_, .nil _ _, hPlace⟩
    · obtain ⟨middle, hFront, hMiddle⟩ := ih (ht.above_directory hPlace) hNext rfl
      exact ⟨middle, .up hFront, hMiddle⟩
  | down hPlain hNode _ ih =>
    rcases List.append_eq_cons_iff.mp hAll with ⟨rfl, -⟩ | ⟨front, rfl, rfl⟩
    · exact ⟨_, .nil _ _, hPlace⟩
    · obtain ⟨middle, hFront, hMiddle⟩ := ih hNode hNext rfl
      exact ⟨middle, .down hPlain hNode hFront, hMiddle⟩
  | jump hPlain hNode _ _ ih =>
    rcases List.append_eq_cons_iff.mp hAll with ⟨rfl, -⟩ | ⟨front, rfl, rfl⟩
    · exact ⟨_, .nil _ _, hPlace⟩
    · obtain ⟨middle, hFront, hMiddle⟩ :=
        ih (at?_start hPlace _) hNext (List.append_assoc ..)
      exact ⟨middle, .jump hPlain hNode (.inl rfl) hFront, hMiddle⟩
  | last _ hNode _ => exact absurd hNext hNode

end Closed

end TruthTable.FileTree
