import TruthTable.Proofs.Evaluation

/-!
# Assignments as maps, and their bit patterns

An assignment is determined by the values that it gives to names. Names and the
binary digits of a number make one; for distinct names this is a bijection
between the numbers below a power of two and the assignments of these names.

Main results:

* `Assignment.ext_get?`          — assignments with the same values are equal.
* `Assignment.enter_perm`        — entries with distinct names may come in any order.
* `Assignment.addBits?_eq_ok_iff`, `Assignment.ofBits?_eq_ok_iff` — which names
  and numbers are accepted, and what is entered for them.
* `Assignment.ofBits_inj`, `Assignment.exists_ofBits` — the bijection.
-/

namespace TruthTable.Assignment

-- ---------------------------------------------------------------------------
-- Maps
-- ---------------------------------------------------------------------------

theorem names_pairwise (a : Assignment) : a.names.Pairwise (· < ·) :=
  List.pairwise_map.mpr a.increasing

theorem nodup_names (a : Assignment) : a.names.Nodup :=
  a.names_pairwise.nodup

/-- The value of a name is that of its entry. -/
theorem get?_eq_some_iff {a : Assignment} {n : Name} {b : Bool} :
    a.get? n = some b ↔ (n, b) ∈ a.entries :=
  Table.lookup_eq_some_iff a.nodup_names

/-- The names of an assignment are those with a value. -/
theorem mem_names_iff {a : Assignment} {n : Name} : n ∈ a.names ↔ (a.get? n).isSome = true :=
  Table.isSome_lookup_iff.symm

theorem mem_names_iff_exists {a : Assignment} {n : Name} :
    n ∈ a.names ↔ ∃ b, a.get? n = some b := by
  rw [mem_names_iff, Option.isSome_iff_exists]

/-- Assignments with the same values are equal. -/
theorem ext_get? {a a' : Assignment} (h : ∀ n, a.get? n = a'.get? n) : a = a' := by
  have hEntries : a.entries = a'.entries := by
    have hMem : ∀ e, e ∈ a.entries ↔ e ∈ a'.entries := by
      rintro ⟨n, b⟩
      rw [← get?_eq_some_iff, ← get?_eq_some_iff, h]
    have : Std.Antisymm fun e e' : Name × Bool => e.1 < e'.1 :=
      ⟨fun e _ h h' => absurd (Name.lt_trans h h') (Name.lt_irrefl e.1)⟩
    have : Std.Irrefl fun e e' : Name × Bool => e.1 < e'.1 := ⟨fun e => Name.lt_irrefl e.1⟩
    exact a.increasing.eq_of_mem_iff a'.increasing hMem
  cases a
  cases a'
  simpa using hEntries

/-- The assignment with entries entered one after the other. -/
def enter (a : Assignment) (entries : List (Name × Bool)) : Assignment :=
  entries.foldl (fun a e => a.insert e.1 e.2) a

/-- Of several entries for a name the last one counts. -/
theorem get?_enter (a : Assignment) (entries : List (Name × Bool)) (n : Name) :
    (a.enter entries).get? n = (entries.reverse.lookup n).or (a.get? n) := by
  induction entries generalizing a with
  | nil => rfl
  | cons e entries ih =>
    show ((a.insert e.1 e.2).enter entries).get? n = _
    rw [ih, get?_insert, List.reverse_cons, List.lookup_append, Option.or_assoc,
      Table.lookup_cons_eq]
    split <;> rfl

/-- Entries with distinct names are all kept. -/
theorem get?_enter_eq_some_iff {entries : List (Name × Bool)}
    (hNodup : (entries.map (·.1)).Nodup) {n : Name} {b : Bool} :
    (empty.enter entries).get? n = some b ↔ (n, b) ∈ entries := by
  have hReverse : (entries.reverse.map (·.1)).Nodup := by
    rw [List.map_reverse]
    exact List.nodup_reverse.mpr hNodup
  rw [get?_enter]
  show (entries.reverse.lookup n).or none = some b ↔ _
  rw [Option.or_none, Table.lookup_eq_some_iff hReverse, List.mem_reverse]

/-- The order in which entries with distinct names come in leaves no trace. -/
theorem enter_perm {entries entries' : List (Name × Bool)} (hPerm : entries.Perm entries')
    (hNodup : (entries.map (·.1)).Nodup) : empty.enter entries = empty.enter entries' := by
  have hNodup' : (entries'.map (·.1)).Nodup := (hPerm.map _).nodup_iff.mp hNodup
  refine ext_get? fun n => Option.ext fun b => ?_
  rw [get?_enter_eq_some_iff hNodup, get?_enter_eq_some_iff hNodup', hPerm.mem_iff]

/-- Entries that come in the order of their names are listed as they came. -/
theorem entries_enter {entries : List (Name × Bool)} (h : entries.Pairwise (·.1 < ·.1)) :
    (empty.enter entries).entries = entries := by
  have hNodup : (entries.map (·.1)).Nodup := (List.pairwise_map.mpr h).nodup
  have hSame : empty.enter entries = ⟨entries, h⟩ := by
    refine ext_get? fun n => Option.ext fun b => ?_
    rw [get?_enter_eq_some_iff hNodup, get?_eq_some_iff]
  rw [hSame]

-- ---------------------------------------------------------------------------
-- Binary digits
-- ---------------------------------------------------------------------------

/-- The names, each with the binary digit at its position. -/
def bitEntries (names : List Name) (bits : Nat) : List (Name × Bool) :=
  names.mapIdx fun i n => (n, bits.testBit i)

/-- The first name has the lowest bit. -/
theorem bitEntries_cons (n : Name) (names : List Name) (bits : Nat) :
    bitEntries (n :: names) bits = (n, bits % 2 == 1) :: bitEntries names (bits / 2) := by
  rw [bitEntries, List.mapIdx_cons, Nat.testBit_zero, bitEntries]
  simp only [Nat.testBit_succ, Bool.beq_eq_decide_eq]

theorem map_fst_bitEntries (names : List Name) (bits : Nat) :
    (bitEntries names bits).map (·.1) = names := by
  induction names generalizing bits with
  | nil => rfl
  | cons n names ih => rw [bitEntries_cons, List.map_cons, ih]

/-- Where a name comes twice, its first bit counts. -/
theorem get?_ofBits_eq (names : List Name) (bits : Nat) (n : Name) :
    (ofBits names bits).get? n = (bitEntries names bits).lookup n := by
  induction names generalizing bits with
  | nil => rfl
  | cons m names ih => rw [ofBits, get?_insert, bitEntries_cons, Table.lookup_cons_eq, ih]

/-- A bit pattern gives values to its names and to no others. -/
theorem mem_names_ofBits {names : List Name} {bits : Nat} {n : Name} :
    n ∈ (ofBits names bits).names ↔ n ∈ names := by
  rw [mem_names_iff, get?_ofBits_eq, Table.isSome_lookup_iff, map_fst_bitEntries]

/-- Entering distinct names one after the other gives the same assignment as
entering the last one first. -/
theorem ofBits_eq_enter {names : List Name} (hNodup : names.Nodup) (bits : Nat) :
    ofBits names bits = empty.enter (bitEntries names bits) := by
  have hKeys : ((bitEntries names bits).map (·.1)).Nodup := by rwa [map_fst_bitEntries]
  refine ext_get? fun n => Option.ext fun b => ?_
  rw [get?_ofBits_eq, Table.lookup_eq_some_iff hKeys, get?_enter_eq_some_iff hKeys]

/-- The names of a row are the names that it was made for. -/
theorem names_ofBits {names : List Name} (h : names.Pairwise (· < ·)) (bits : Nat) :
    (ofBits names bits).names = names :=
  (names_pairwise _).eq_of_mem_iff h fun _ => mem_names_ofBits

/-- Beyond the names a bit pattern has no digit. -/
theorem testBit_beyond {bits count i : Nat} (hBits : bits < 2 ^ count) (hi : count ≤ i) :
    bits.testBit i = false := by
  have hPow : 2 ^ count ≤ 2 ^ i := Nat.pow_le_pow_right (by omega) hi
  exact Nat.testBit_lt_two_pow (by omega)

/-- The digits can be read off the assignment. -/
theorem ofBits_inj {names : List Name} (hNodup : names.Nodup) {j k : Nat}
    (hj : j < 2 ^ names.length) (hk : k < 2 ^ names.length)
    (h : ofBits names j = ofBits names k) : j = k := by
  refine Nat.eq_of_testBit_eq fun i => ?_
  rcases Nat.lt_or_ge i names.length with hi | hi
  · have hGet := get?_ofBits hNodup j hi
    rw [h, get?_ofBits hNodup k hi] at hGet
    injection hGet with hBit
    exact hBit.symm
  · rw [testBit_beyond hj hi, testBit_beyond hk hi]

/-- Every assignment of the names has a bit pattern. -/
theorem exists_ofBits {names : List Name} (hNodup : names.Nodup) {a : Assignment}
    (h : ∀ n, n ∈ a.names ↔ n ∈ names) : ∃ k < 2 ^ names.length, ofBits names k = a := by
  let digits : Fin names.length → Bool := fun i => a.valuation names[i]
  refine ⟨Nat.ofBits digits, Nat.ofBits_lt_two_pow digits, ext_get? fun n => ?_⟩
  by_cases hn : n ∈ names
  · obtain ⟨i, hi, rfl⟩ := List.getElem_of_mem hn
    obtain ⟨b, hGet⟩ := mem_names_iff_exists.mp ((h _).mpr hn)
    rw [get?_ofBits hNodup _ hi, Nat.testBit_ofBits_lt digits i hi, hGet]
    show some ((a.get? names[i]).getD false) = some b
    rw [hGet]
    rfl
  · have hMissing : ∀ a' : Assignment, n ∉ a'.names → a'.get? n = none := by
      intro a' ha'
      rw [mem_names_iff] at ha'
      simpa using ha'
    have hOutside : n ∉ (ofBits names (Nat.ofBits digits)).names := by
      rwa [mem_names_ofBits]
    rw [hMissing _ hOutside, hMissing a fun hMem => hn ((h n).mp hMem)]

-- ---------------------------------------------------------------------------
-- Unchecked arguments
-- ---------------------------------------------------------------------------

/-- The names as a caller supplies them. -/
def textValues (names : List Name) : List Value :=
  names.map fun n => .text n.text

/-- A name and a truth value are always taken. -/
theorem add?_text (a : Assignment) (n : Name) (b : Bool) :
    a.add? (.text n.text) (.bool b) = .ok (a.insert n b) := by
  rw [add?, n.ofValue?_text]
  rfl

/-- A name that has a value already is refused, and any other gets the lowest
bit. -/
theorem addBits?_cons (a : Assignment) (bits : Nat) (n : Name) (vs : List Value) :
    a.addBits? bits (.text n.text :: vs) =
      if (a.get? n).isSome then .error (.argument (.repeatedName n))
      else (a.insert n (bits % 2 == 1)).addBits? (bits / 2) vs := by
  rw [addBits?, n.ofValue?_text, ok_bind]
  split <;> rfl

/-- Names are added one after the other exactly when they are names, distinct
and new, and then the binary digits are entered for them. -/
theorem addBits?_eq_ok_iff {a a' : Assignment} {bits : Nat} {vs : List Value} :
    a.addBits? bits vs = .ok a' ↔ ∃ names : List Name, vs = textValues names ∧ names.Nodup ∧
      (∀ n ∈ names, a.get? n = none) ∧ a' = a.enter (bitEntries names bits) := by
  induction vs generalizing a bits with
  | nil =>
    rw [addBits?]
    constructor
    · intro h
      injection h with h
      exact ⟨[], rfl, List.nodup_nil, by simp, h.symm⟩
    · rintro ⟨names, hNames, -, -, rfl⟩
      rw [List.map_eq_nil_iff.mp hNames.symm]
      rfl
  | cons v vs ih =>
    constructor
    · intro h
      rcases Name.ofValue?_cases v with ⟨n, rfl, -⟩ | ⟨-, cause, hRefused⟩
      · rw [addBits?_cons] at h
        split at h
        · cases h
        · rename_i hNew
          obtain ⟨names, rfl, hNodup, hFresh, rfl⟩ := ih.mp h
          -- a name that comes again has a value by then
          have hne : ∀ m ∈ names, m ≠ n := by
            rintro m hm rfl
            have hGet := hFresh m hm
            rw [get?_insert, if_pos rfl] at hGet
            cases hGet
          refine ⟨n :: names, rfl, List.nodup_cons.mpr ⟨fun hn => hne n hn rfl, hNodup⟩, ?_, ?_⟩
          · intro m hm
            rcases List.mem_cons.mp hm with rfl | hm
            · simpa using hNew
            · have hGet := hFresh m hm
              rwa [get?_insert, if_neg (hne m hm)] at hGet
          · rw [bitEntries_cons]
            rfl
      · rw [addBits?, hRefused] at h
        cases h
    · rintro ⟨names, hNames, hNodup, hNew, rfl⟩
      cases names with
      | nil => cases hNames
      | cons n names =>
        injection hNames with hFirst hRest
        obtain ⟨hFresh, hNodup⟩ := List.nodup_cons.mp hNodup
        have hFirstNew : ¬ (a.get? n).isSome = true := by simp [hNew n List.mem_cons_self]
        rw [hFirst, addBits?_cons, if_neg hFirstNew]
        refine ih.mpr ⟨names, hRest, hNodup, ?_, by rw [bitEntries_cons]; rfl⟩
        intro m hm
        have hne : m ≠ n := fun h => hFresh (h ▸ hm)
        rw [get?_insert, if_neg hne]
        exact hNew m (List.mem_cons_of_mem _ hm)

/-- The checks of a bit pattern, in order. -/
theorem ofBits?_eq {names : Value} (h : names ≠ .none) (bits : Value) :
    ofBits? names bits = bits? bits >>= fun k => sequence? names >>= fun vs =>
      if 2 ^ vs.length ≤ k then .error (.argument (.bitsOutOfRange k vs.length))
      else empty.addBits? k vs := by
  unfold ofBits?
  split
  · exact absurd rfl h
  · rfl

/-- Only integers are bit patterns. -/
theorem bits?_eq_ok_iff {bits : Value} {k : Nat} : bits? bits = .ok k ↔ bits = .int k := by
  constructor
  · intro h
    unfold bits? at h
    split at h
    · injection h with h
      rw [h]
      rfl
    · cases h
  · rintro rfl
    rfl

/-- A bit pattern is taken exactly when it is a natural number that has no digit
beyond the names, and the names are distinct names. -/
theorem ofBits?_eq_ok_iff {names bits : Value} {a : Assignment} :
    ofBits? names bits = .ok a ↔ ∃ (ns : List Name) (k : Nat),
      sequence? names = .ok (textValues ns) ∧ bits = .int k ∧ k < 2 ^ ns.length ∧ ns.Nodup ∧
        a = empty.enter (bitEntries ns k) := by
  by_cases hNone : names = .none
  · subst hNone
    constructor
    · intro h
      cases h
    · rintro ⟨ns, k, hNames, -⟩
      cases hNames
  rw [ofBits?_eq hNone, bind_eq_ok_iff]
  constructor
  · rintro ⟨k, hk, h⟩
    obtain ⟨vs, hvs, h⟩ := bind_eq_ok_iff.mp h
    split at h
    · cases h
    · rename_i hRange
      obtain ⟨ns, rfl, hNodup, -, rfl⟩ := addBits?_eq_ok_iff.mp h
      rw [textValues, List.length_map] at hRange
      exact ⟨ns, k, hvs, bits?_eq_ok_iff.mp hk, by omega, hNodup, rfl⟩
  · rintro ⟨ns, k, hNames, rfl, hRange, hNodup, rfl⟩
    refine ⟨k, rfl, ?_⟩
    have hFits : ¬ 2 ^ (textValues ns).length ≤ k := by
      rw [textValues, List.length_map]
      omega
    rw [hNames, ok_bind, if_neg hFits]
    exact addBits?_eq_ok_iff.mpr ⟨ns, rfl, hNodup, fun n _ => rfl, rfl⟩

end TruthTable.Assignment
