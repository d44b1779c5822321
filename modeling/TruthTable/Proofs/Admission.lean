import Mathlib.Data.List.Induction
import Mathlib.Data.List.Perm.Basic
import Mathlib.Data.Set.Function
import Mathlib.Data.Set.List
import TruthTable.Argument
import TruthTable.Proofs.BitPatterns

/-!
# Which names and bit patterns are taken

An assignment is made of a list of names and a number, whose binary digits are
the values. The number is checked first, then the names from left to right. For
names that are taken, numbers in range and assignments of these names correspond
to each other.

Main results:

* `addBits?_of_firstFault`, `named_or_firstFault` — the first unfit name decides
  the fault, and without an unfit name there is none.
* `addAll?_of_perm`  — entries with distinct names may be added in any order.
* `bijOn_ofBits`     — numbers in range and assignments of the names correspond.
* `pattern_taken_exactly` — all of it, for every list and every number.
-/

namespace TruthTable

-- ---------------------------------------------------------------------------
-- Values that are names
-- ---------------------------------------------------------------------------

theorem Name.isName_text (n : Name) : (Value.text n.text).isName = true :=
  n.valid

/-- The values that are names are the texts of names. -/
theorem Value.isName_iff {v : Value} : v.isName = true ↔ ∃ n : Name, v = .text n.text := by
  constructor
  · intro h
    cases v with
    | text s => exact ⟨⟨s, h⟩, rfl⟩
    | _ => cases h
  · rintro ⟨n, rfl⟩
    exact n.isName_text

/-- What is no name, but neither missing nor empty, is malformed. -/
theorem Name.ofValue?_malformed {v : Value} (hName : v.isName = false) (hNone : v ≠ .none)
    (hEmpty : v ≠ .text "") : ofValue? v = .error (.argument (.malformedName v)) := by
  cases v with
  | none => exact absurd rfl hNone
  | text s =>
    have hChars : s.isEmpty = false := by
      rw [Bool.eq_false_iff]
      exact fun h => hEmpty (by rw [String.isEmpty_iff.mp h])
    have hNot : ¬ isName s = true := by
      rw [Bool.not_eq_true]
      exact hName
    simp only [ofValue?, hChars, ofString?, dif_neg hNot]
    rfl
  | _ => rfl

/-- Why a value cannot be the next name after earlier ones. -/
inductive NameFault (earlier : List Value) : Value → ArgumentFault → Prop
  | absent : NameFault earlier .none (.absent "variable name")
  | empty : NameFault earlier (.text "") .emptyName
  | malformed {v : Value} (hName : v.isName = false) (hNone : v ≠ .none) (hEmpty : v ≠ .text "") :
    NameFault earlier v (.malformedName v)
  | repeated {n : Name} (hEarlier : .text n.text ∈ earlier) :
    NameFault earlier (.text n.text) (.repeatedName n)

/-- Every value is the text of a name. -/
def AllNames (vs : List Value) : Prop :=
  ∀ v ∈ vs, v.isName = true

/-- At some position a value is unfit, and the values before it are different
names. -/
def FirstFault (vs : List Value) (cause : ArgumentFault) : Prop :=
  ∃ earlier v later, vs = earlier ++ v :: later ∧ AllNames earlier ∧ earlier.Nodup ∧
    NameFault earlier v cause

/-- A value is a name that did not come earlier, or it is unfit. -/
theorem new_or_nameFault (earlier : List Value) (v : Value) :
    (v.isName = true ∧ v ∉ earlier) ∨ ∃ cause, NameFault earlier v cause := by
  by_cases hName : v.isName = true
  · by_cases hEarlier : v ∈ earlier
    · obtain ⟨n, rfl⟩ := Value.isName_iff.mp hName
      exact .inr ⟨_, .repeated hEarlier⟩
    · exact .inl ⟨hName, hEarlier⟩
  · rw [Bool.not_eq_true] at hName
    refine .inr ?_
    by_cases hNone : v = .none
    · subst hNone
      exact ⟨_, .absent⟩
    · by_cases hEmpty : v = .text ""
      · subst hEmpty
        exact ⟨_, .empty⟩
      · exact ⟨_, .malformed hName hNone hEmpty⟩

/-- Values are different names, or one of them is the first unfit one. -/
theorem named_or_firstFault (vs : List Value) :
    (AllNames vs ∧ vs.Nodup) ∨ ∃ cause, FirstFault vs cause := by
  induction vs using List.reverseRecOn with
  | nil => exact .inl ⟨fun v hv => absurd hv List.not_mem_nil, List.nodup_nil⟩
  | append_singleton vs v ih =>
    rcases ih with ⟨hNames, hNodup⟩ | ⟨cause, earlier, u, later, rfl, hFault⟩
    · rcases new_or_nameFault vs v with ⟨hName, hNew⟩ | ⟨cause, hFault⟩
      · refine .inl ⟨?_, ?_⟩
        · intro u hu
          rcases List.mem_append.mp hu with hu | hu
          · exact hNames u hu
          · rwa [List.mem_singleton.mp hu]
        · rw [← List.concat_eq_append, List.nodup_concat]
          exact ⟨hNew, hNodup⟩
      · exact .inr ⟨cause, vs, v, [], rfl, hNames, hNodup, hFault⟩
    · exact .inr ⟨cause, earlier, u, later ++ [v], by simp, hFault⟩

namespace Assignment

theorem textValue_inj {n m : Name} (h : Value.text n.text = .text m.text) : n = m :=
  Name.text_inj (by simpa using h)

theorem nodup_textValues {ns : List Name} : (textValues ns).Nodup ↔ ns.Nodup :=
  List.nodup_map_iff fun _ _ h => textValue_inj h

theorem mem_textValues {ns : List Name} {n : Name} :
    Value.text n.text ∈ textValues ns ↔ n ∈ ns := by
  rw [textValues, List.mem_map]
  constructor
  · rintro ⟨m, hm, hSame⟩
    rwa [← textValue_inj hSame]
  · exact fun hn => ⟨n, hn, rfl⟩

/-- Values that are names are the texts of names. -/
theorem exists_textValues {vs : List Value} (h : AllNames vs) : ∃ ns, vs = textValues ns := by
  induction vs with
  | nil => exact ⟨[], rfl⟩
  | cons v vs ih =>
    obtain ⟨n, rfl⟩ := Value.isName_iff.mp (h v List.mem_cons_self)
    obtain ⟨ns, rfl⟩ := ih fun u hu => h u (List.mem_cons_of_mem _ hu)
    exact ⟨n :: ns, rfl⟩

theorem allNames_textValues (ns : List Name) : AllNames (textValues ns) := by
  intro v hv
  obtain ⟨n, -, rfl⟩ := List.mem_map.mp hv
  exact n.isName_text

-- ---------------------------------------------------------------------------
-- Adding names from left to right
-- ---------------------------------------------------------------------------

/-- Different new names are added, whatever comes after them. -/
theorem addBits?_append {ns : List Name} (hNodup : ns.Nodup) {a : Assignment}
    (hNew : ∀ n ∈ ns, a.get? n = none) (bits : Nat) (rest : List Value) :
    a.addBits? bits (textValues ns ++ rest) =
      (a.enter (bitEntries ns bits)).addBits? (bits / 2 ^ ns.length) rest := by
  induction ns generalizing a bits with
  | nil => simp [textValues, bitEntries, enter]
  | cons n ns ih =>
    obtain ⟨hFresh, hNodup⟩ := List.nodup_cons.mp hNodup
    have hFirst : ¬ (a.get? n).isSome = true := by simp [hNew n List.mem_cons_self]
    have hRest : ∀ m ∈ ns, (a.insert n (bits % 2 == 1)).get? m = none := by
      intro m hm
      have hne : m ≠ n := fun h => hFresh (h ▸ hm)
      rw [get?_insert, if_neg hne]
      exact hNew m (List.mem_cons_of_mem _ hm)
    show a.addBits? bits (.text n.text :: (textValues ns ++ rest)) = _
    rw [addBits?_cons, if_neg hFirst, ih hNodup hRest, bitEntries_cons, List.length_cons,
      Nat.pow_succ', Nat.div_div_eq_div_mul]
    rfl

/-- A value that is unfit after some names is refused after them. -/
theorem addBits?_of_nameFault {ns : List Name} {v : Value} {cause : ArgumentFault}
    (h : NameFault (textValues ns) v cause) {a : Assignment}
    (hOld : ∀ n ∈ ns, (a.get? n).isSome = true) (bits : Nat) (later : List Value) :
    a.addBits? bits (v :: later) = .error (.argument cause) := by
  cases h with
  | absent => rfl
  | empty => rfl
  | malformed hName hNone hEmpty =>
    rw [addBits?, Name.ofValue?_malformed hName hNone hEmpty]
    rfl
  | repeated hEarlier =>
    rw [addBits?_cons, if_pos (hOld _ (mem_textValues.mp hEarlier))]

/-- **The first unfit name decides the fault.** -/
theorem addBits?_of_firstFault {vs : List Value} {cause : ArgumentFault}
    (h : FirstFault vs cause) (bits : Nat) :
    empty.addBits? bits vs = .error (.argument cause) := by
  obtain ⟨earlier, v, later, rfl, hNames, hNodup, hFault⟩ := h
  obtain ⟨ns, rfl⟩ := exists_textValues hNames
  rw [addBits?_append (nodup_textValues.mp hNodup) fun n _ => rfl]
  refine addBits?_of_nameFault hFault ?_ _ later
  intro n hn
  rw [← ofBits_eq_enter (nodup_textValues.mp hNodup), ← mem_names_iff]
  exact mem_names_ofBits.mpr hn

-- ---------------------------------------------------------------------------
-- Adding entries one by one
-- ---------------------------------------------------------------------------

/-- The arguments of the addition that makes an entry. -/
def additionOf (e : Name × Bool) : Value × Value :=
  (.text e.1.text, .bool e.2)

/-- Different entries are asked for by different additions. -/
theorem additionOf_injective : Function.Injective additionOf := by
  rintro ⟨n, b⟩ ⟨m, c⟩ h
  obtain ⟨hName, hValue⟩ := Prod.mk.inj h
  exact Prod.ext (textValue_inj hName) (by simpa using hValue)

/-- Additions of names with truth values are all taken. -/
theorem addAll?_map (a : Assignment) (entries : List (Name × Bool)) :
    a.addAll? (entries.map additionOf) = .ok (a.enter entries) := by
  induction entries generalizing a with
  | nil => rfl
  | cons e entries ih =>
    rw [List.map_cons, additionOf, addAll?, add?_text, ok_bind, ih]
    rfl

/-- Additions of entries with distinct names may be made in any order. -/
theorem addAll?_of_perm {entries : List (Name × Bool)} (hNodup : (entries.map (·.1)).Nodup)
    {additions : List (Value × Value)} (hPerm : additions.Perm (entries.map additionOf)) :
    empty.addAll? additions = .ok (empty.enter entries) := by
  -- the additions are those of the entries in another order
  obtain ⟨entries', rfl⟩ : additions ∈ Set.range (List.map additionOf) := by
    rw [Set.range_list_map]
    intro x hx
    obtain ⟨e, -, rfl⟩ := List.mem_map.mp (hPerm.mem_iff.mp hx)
    exact ⟨e, rfl⟩
  rw [addAll?_map, enter_perm ((List.map_perm_map_iff additionOf_injective).mp hPerm).symm hNodup]

-- ---------------------------------------------------------------------------
-- Numbers and assignments
-- ---------------------------------------------------------------------------

/-- A bit pattern has an entry for each of its names. -/
theorem size_ofBits {ns : List Name} (hNodup : ns.Nodup) (bits : Nat) :
    (ofBits ns bits).size = ns.length := by
  have hPerm : (ofBits ns bits).names.Perm ns := by
    rw [List.perm_ext_iff_of_nodup (nodup_names _) hNodup]
    exact fun n => mem_names_ofBits
  rw [← hPerm.length_eq, names, List.length_map, size]

/-- Each name of a bit pattern has the bit at its place. -/
theorem valueOf?_ofBits {ns : List Name} (hNodup : ns.Nodup) (bits : Nat) {i : Nat}
    (hi : i < ns.length) :
    (ofBits ns bits).valueOf? (.text ns[i].text) = .ok (bits.testBit i) := by
  rw [valueOf?, Name.ofValue?_text, ok_bind, get?_ofBits hNodup bits hi]
  rfl

/-- **Numbers in range and assignments of the names correspond.** -/
theorem bijOn_ofBits {ns : List Name} (hNodup : ns.Nodup) :
    Set.BijOn (fun bits : Int => ofBits ns bits.toNat) {bits | 0 ≤ bits ∧ bits < 2 ^ ns.length}
      {a | ∀ n, n ∈ a.names ↔ n ∈ ns} := by
  have hRange : ∀ bits : Int, 0 ≤ bits ∧ bits < 2 ^ ns.length →
      bits.toNat < 2 ^ ns.length := by
    rintro bits ⟨hNatural, hBelow⟩
    rw [Int.toNat_lt hNatural]
    exact_mod_cast hBelow
  refine ⟨fun bits _ n => mem_names_ofBits, ?_, ?_⟩
  · intro j hj k hk hSame
    have hEq := ofBits_inj hNodup (hRange j hj) (hRange k hk) hSame
    rw [← Int.toNat_of_nonneg hj.1, hEq, Int.toNat_of_nonneg hk.1]
  · intro a ha
    obtain ⟨k, hk, rfl⟩ := exists_ofBits hNodup ha
    exact ⟨k, ⟨Int.natCast_nonneg k, by exact_mod_cast hk⟩, rfl⟩

-- ---------------------------------------------------------------------------
-- The checks
-- ---------------------------------------------------------------------------

theorem textValues_length (ns : List Name) : (textValues ns).length = ns.length :=
  List.length_map _

/-- What is taken: different names, and a number that fits. -/
theorem ofBits?_list_eq_ok_iff {vs : List Value} {bits : Int} {a : Assignment} :
    ofBits? (.list vs) (.int bits) = .ok a ↔ ∃ (ns : List Name) (k : Nat),
      vs = textValues ns ∧ bits = k ∧ k < 2 ^ ns.length ∧ ns.Nodup ∧ a = ofBits ns k := by
  rw [ofBits?_eq_ok_iff]
  refine exists_congr fun ns => exists_congr fun k => ?_
  rw [sequence?, Except.ok.injEq, Value.int.injEq]
  refine and_congr_right fun _ => and_congr_right fun _ => and_congr_right fun _ =>
    and_congr_right fun hNodup => ?_
  rw [ofBits_eq_enter hNodup]

/-- Distinct names and a number with no more bits than names are taken. -/
theorem ofBits?_of_nodup {ns : List Name} (hNodup : ns.Nodup) {bits : Int} (hNatural : 0 ≤ bits)
    (hRange : bits < 2 ^ ns.length) :
    ofBits? (.list (textValues ns)) (.int bits) = .ok (ofBits ns bits.toNat) := by
  refine ofBits?_list_eq_ok_iff.mpr ⟨ns, bits.toNat, rfl, ?_, ?_, hNodup, rfl⟩
  · rw [Int.toNat_of_nonneg hNatural]
  · rw [Int.toNat_lt hNatural]
    exact_mod_cast hRange

/-- Negative numbers are no bit patterns. -/
theorem ofBits?_of_negative (vs : List Value) {bits : Int} (h : bits < 0) :
    ofBits? (.list vs) (.int bits) = .error (.argument (.notBits (.int bits))) := by
  cases bits with
  | ofNat k => exact absurd h (by simp)
  | negSucc k => rfl

/-- The checks of a natural number, in order. -/
theorem ofBits?_of_natural (vs : List Value) {bits : Int} (h : 0 ≤ bits) :
    ofBits? (.list vs) (.int bits) =
      if 2 ^ vs.length ≤ bits then .error (.argument (.bitsOutOfRange bits.toNat vs.length))
      else empty.addBits? bits.toNat vs := by
  obtain ⟨k, rfl⟩ := Int.eq_ofNat_of_zero_le h
  have hRange : (2 ^ vs.length ≤ (k : Int)) ↔ 2 ^ vs.length ≤ k := by exact_mod_cast Iff.rfl
  rw [ofBits?_eq (by simp)]
  simp only [hRange, Int.toNat_natCast]
  rfl

/-- In range the first unfit name decides the fault. -/
theorem ofBits?_eq_error_iff {vs : List Value} {bits : Int} (hNatural : 0 ≤ bits)
    (hRange : bits < 2 ^ vs.length) {fault : Fault} :
    ofBits? (.list vs) (.int bits) = .error fault ↔
      ∃ cause, FirstFault vs cause ∧ fault = .argument cause := by
  have hFits : ¬ 2 ^ vs.length ≤ bits := by omega
  have hNames : ofBits? (.list vs) (.int bits) = empty.addBits? bits.toNat vs := by
    rw [ofBits?_of_natural vs hNatural, if_neg hFits]
  constructor
  · intro h
    rcases named_or_firstFault vs with ⟨hAll, hNodup⟩ | ⟨cause, hFault⟩
    · obtain ⟨ns, rfl⟩ := exists_textValues hAll
      rw [textValues_length] at hRange
      rw [ofBits?_of_nodup (nodup_textValues.mp hNodup) hNatural hRange] at h
      cases h
    · rw [hNames, addBits?_of_firstFault hFault, Except.error.injEq] at h
      exact ⟨cause, hFault, h.symm⟩
  · rintro ⟨cause, hFault, rfl⟩
    rw [hNames, addBits?_of_firstFault hFault]

/-- The additions of the names with their digits are those of the entries. -/
theorem mapIdx_textValues (ns : List Name) (bits : Nat) :
    (textValues ns).mapIdx (fun i v => (v, Value.bool (bits.testBit i))) =
      (bitEntries ns bits).map additionOf := by
  refine List.ext_getElem ?_ fun i _ _ => ?_
  · simp [textValues, bitEntries]
  · simp [textValues, bitEntries, additionOf]

/--
**A number is taken exactly when it fits different names.** Let `vs` be any
values, given as names for the binary digits of a number. An assignment is made
exactly when the number is natural, has no digit beyond the names, and the
values are different names. It has one entry for each name, whose value is the
digit at the position of the name, and is what adding these entries in any
order makes. For different names, the numbers in range and the assignments of
just these names correspond to each other. A number that is negative or too
large is refused whatever the names are; for a number in range the first value
that is no name, or a name that came before, decides the fault.
-/
theorem pattern_taken_exactly (vs : List Value) :
    (∀ bits : Int, (∃ a, ofBits? (.list vs) (.int bits) = .ok a) ↔
      (0 ≤ bits ∧ bits < 2 ^ vs.length) ∧ (∀ v ∈ vs, v.isName = true) ∧ vs.Nodup) ∧
    (∀ (bits : Int) (a : Assignment), ofBits? (.list vs) (.int bits) = .ok a →
      a.size = vs.length ∧
      (∀ i (hi : i < vs.length), a.valueOf? vs[i] = .ok (bits.toNat.testBit i)) ∧
      ∀ additions : List (Value × Value),
        additions.Perm (vs.mapIdx fun i v => (v, .bool (bits.toNat.testBit i))) →
        empty.addAll? additions = .ok a) ∧
    ((∀ v ∈ vs, v.isName = true) → vs.Nodup → ∃ g : Int → Assignment,
      (∀ bits : Int, 0 ≤ bits ∧ bits < 2 ^ vs.length →
        ofBits? (.list vs) (.int bits) = .ok (g bits)) ∧
      Set.BijOn g {bits | 0 ≤ bits ∧ bits < 2 ^ vs.length}
        {a | ∀ n : Name, n ∈ a.names ↔ .text n.text ∈ vs}) ∧
    (∀ bits : Int, bits < 0 →
      ofBits? (.list vs) (.int bits) = .error (.argument (.notBits (.int bits)))) ∧
    (∀ bits : Int, 2 ^ vs.length ≤ bits → ofBits? (.list vs) (.int bits) =
      .error (.argument (.bitsOutOfRange bits.toNat vs.length))) ∧
    (∀ (bits : Int) (fault : Fault), 0 ≤ bits → bits < 2 ^ vs.length →
      (ofBits? (.list vs) (.int bits) = .error fault ↔
        ∃ cause, FirstFault vs cause ∧ fault = .argument cause)) ∧
    ∀ (bits : Int) (fault : Fault), ofBits? (.list vs) (.int bits) = .error fault →
      fault.title = "InvalidArgument" := by
  have hLarge : ∀ bits : Int, 2 ^ vs.length ≤ bits → ofBits? (.list vs) (.int bits) =
      .error (.argument (.bitsOutOfRange bits.toNat vs.length)) := by
    intro bits hLarge
    have hPow : (0 : Int) < 2 ^ vs.length := Int.pow_pos (by decide)
    rw [ofBits?_of_natural vs (by omega), if_pos hLarge]
  refine ⟨?_, ?_, ?_, fun bits => ofBits?_of_negative vs, hLarge,
    fun bits fault hNatural hRange => ofBits?_eq_error_iff hNatural hRange, ?_⟩
  · intro bits
    constructor
    · rintro ⟨a, h⟩
      obtain ⟨ns, k, rfl, rfl, hk, hNodup, -⟩ := ofBits?_list_eq_ok_iff.mp h
      rw [textValues_length]
      exact ⟨⟨Int.natCast_nonneg k, by exact_mod_cast hk⟩, allNames_textValues ns,
        nodup_textValues.mpr hNodup⟩
    · rintro ⟨⟨hNatural, hRange⟩, hNames, hNodup⟩
      obtain ⟨ns, rfl⟩ := exists_textValues hNames
      rw [textValues_length] at hRange
      exact ⟨_, ofBits?_of_nodup (nodup_textValues.mp hNodup) hNatural hRange⟩
  · intro bits a h
    obtain ⟨ns, k, rfl, rfl, -, hNodup, rfl⟩ := ofBits?_list_eq_ok_iff.mp h
    rw [Int.toNat_natCast]
    refine ⟨?_, ?_, ?_⟩
    · rw [textValues_length, size_ofBits hNodup]
    · intro i hi
      have hPosition : i < ns.length := by rwa [textValues_length] at hi
      simp only [textValues, List.getElem_map]
      exact valueOf?_ofBits hNodup k hPosition
    · intro additions hPerm
      rw [mapIdx_textValues] at hPerm
      rw [addAll?_of_perm (by rwa [map_fst_bitEntries]) hPerm, ofBits_eq_enter hNodup]
  · intro hNames hNodup
    obtain ⟨ns, rfl⟩ := exists_textValues hNames
    have hDifferent := nodup_textValues.mp hNodup
    refine ⟨fun bits => ofBits ns bits.toNat, ?_, ?_⟩
    · rintro bits ⟨hNatural, hRange⟩
      rw [textValues_length] at hRange
      exact ofBits?_of_nodup hDifferent hNatural hRange
    · simp only [mem_textValues, textValues_length]
      exact bijOn_ofBits hDifferent
  · intro bits fault h
    rcases lt_or_ge bits 0 with hNegative | hNatural
    · rw [ofBits?_of_negative vs hNegative, Except.error.injEq] at h
      rw [← h]
      rfl
    · rcases lt_or_ge bits (2 ^ vs.length) with hRange | hRange
      · obtain ⟨cause, -, rfl⟩ := (ofBits?_eq_error_iff hNatural hRange).mp h
        rfl
      · rw [hLarge bits hRange, Except.error.injEq] at h
        rw [← h]
        rfl

/-- In `q, p, q, None` the second `q` is reported, before the missing name but
after a number that is too large; `q, p` with the number 2 gives `p` the value
true. -/
theorem pattern_taken_exactly_sample :
    let q : Name := ⟨"q", rfl⟩
    let vs : List Value := [.text "q", .text "p", .text "q", .none]
    FirstFault vs (.repeatedName q) ∧
      ofBits? (.list vs) (.int 5) = .error (.argument (.repeatedName q)) ∧
      ofBits? (.list vs) (.int 16) = .error (.argument (.bitsOutOfRange 16 4)) ∧
      ∃ a, ofBits? (.list [.text "q", .text "p"]) (.int 2) = .ok a ∧
        a.valueOf? (.text "p") = .ok true := by
  intro q vs
  have hNames : AllNames [.text "q", .text "p"] := by
    simp [AllNames, Value.isName, isName]
  have hDifferent : [Value.text "q", .text "p"].Nodup := by simp
  have hAgain : NameFault [.text "q", .text "p"] (.text q.text) (.repeatedName q) :=
    .repeated List.mem_cons_self
  have hFault : FirstFault vs (.repeatedName q) :=
    ⟨[.text "q", .text "p"], .text "q", [.none], rfl, hNames, hDifferent, hAgain⟩
  obtain ⟨-, -, -, -, hLarge, hFirst, -⟩ := pattern_taken_exactly vs
  obtain ⟨hTaken, hValues, -⟩ := pattern_taken_exactly [.text "q", .text "p"]
  obtain ⟨a, ha⟩ := (hTaken 2).mpr ⟨by decide, hNames, hDifferent⟩
  exact ⟨hFault, (hFirst 5 _ (by decide) (by decide)).mpr ⟨_, hFault, rfl⟩,
    hLarge 16 (by decide), a, ha, (hValues 2 a ha).2.1 1 (by decide)⟩

end Assignment

end TruthTable
