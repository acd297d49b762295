/-
  Two ways to a colour: a name is looked up as a whole, or the longest name is searched for at
  the start of a text. Looking up folds the name and disregards the case of its letters; a name
  in lower case is not changed by this, so what is found is what the name stands for
  (`get?_eq_some_iff_holds`). In a text in lower case the search therefore finds the longest part,
  counted in bytes, for which looking up finds a colour, and the same colour
  (`longestAtStart?_isGreatest`). An empty name may be looked up, but is never found by searching.
-/
import Colourway.Proofs.Swatches.LongestName
import Colourway.Proofs.Text.FinalSigma

namespace Colourway.Swatches

open Text

variable {s : Swatches} {name other : String} {c d : Colour} {n : ℕ}

/-! ## Names in lower case -/

theorem isLower_of_mem_named : ∀ e ∈ Colour.named, IsLower e.1.toList := by
  decide +kernel

theorem sameIgnoringCase_iff_of_mem_named (h : IsLower name.toList) {e : String × Colour}
    (he : e ∈ Colour.named) : sameIgnoringCase e.1 name = true ↔ e.1 = name :=
  sameIgnoringCase_iff_of_isLower (isLower_of_mem_named e he) h

theorem ofName?_eq_some_iff (h : IsLower name.toList) :
    Colour.ofName? name = some c ↔ (name, c) ∈ Colour.named := by
  rw [Colour.ofName?, Option.map_eq_some_iff]
  constructor
  · rintro ⟨e, hfind, rfl⟩
    have hmem := List.mem_of_find?_eq_some hfind
    have hsame := List.find?_some hfind
    rwa [← (sameIgnoringCase_iff_of_mem_named h hmem).1 hsame]
  · intro hmem
    have hsome : (Colour.named.find? fun e => sameIgnoringCase e.1 name).isSome :=
      List.find?_isSome.2 ⟨_, hmem, (sameIgnoringCase_iff_of_mem_named h hmem).2 rfl⟩
    obtain ⟨e, hfind⟩ := Option.isSome_iff_exists.1 hsome
    have hmem' := List.mem_of_find?_eq_some hfind
    have hsame := List.find?_some hfind
    have hname := (sameIgnoringCase_iff_of_mem_named h hmem').1 hsame
    exact ⟨e, hfind, congrArg Prod.snd (eq_of_mem_named _ hmem' _ hmem hname)⟩

/-- A name in lower case is looked up as it is. -/
theorem get?_eq_some_iff_holds (h : IsLower name.toList) :
    s.get? name = some c ↔ s.Holds name c := by
  rw [get?, added?, h.fold_eq, Option.or_eq_some_iff, ofName?_eq_some_iff h, Holds]

/-! ## Parts of a text -/

/-- The part of the text from its start that has this many bytes is the name of the colour, when
it is looked up. -/
def NamedUpTo (s : Swatches) (text : String) (n : ℕ) (c : Colour) : Prop :=
  ∃ part rest, text = part ++ rest ∧ part.utf8ByteSize = n ∧ s.get? part = some c

variable {text : String}

theorem prefix_iff_exists_append : name.toList <+: text.toList ↔ ∃ rest, text = name ++ rest := by
  constructor
  · rintro ⟨rest, hrest⟩
    refine ⟨String.ofList rest, ?_⟩
    rw [← String.toList_inj, String.toList_append, String.toList_ofList, hrest]
  · rintro ⟨rest, rfl⟩
    rw [String.toList_append]
    exact List.prefix_append _ _

theorem namedUpTo_iff (htext : IsLower text.toList) :
    s.NamedUpTo text n c ↔
      ∃ name, name.toList <+: text.toList ∧ name.utf8ByteSize = n ∧ s.Holds name c := by
  constructor
  · rintro ⟨name, rest, hsplit, hsize, hget⟩
    have hstarts := prefix_iff_exists_append.2 ⟨rest, hsplit⟩
    exact ⟨name, hstarts, hsize, (get?_eq_some_iff_holds (htext.of_isPrefix hstarts)).1 hget⟩
  · rintro ⟨name, hstarts, hsize, hholds⟩
    obtain ⟨rest, hsplit⟩ := prefix_iff_exists_append.1 hstarts
    exact ⟨name, rest, hsplit, hsize,
      (get?_eq_some_iff_holds (htext.of_isPrefix hstarts)).2 hholds⟩

/-- Of two parts of a text from its start, the one with more characters has more bytes. -/
theorem utf8ByteSize_lt_of_length_lt (h : name.toList <+: text.toList)
    (ho : other.toList <+: text.toList) (hlt : name.length < other.length) :
    name.utf8ByteSize < other.utf8ByteSize := by
  rw [← String.length_toList, ← String.length_toList] at hlt
  obtain ⟨rest, rfl⟩ := prefix_iff_exists_append.1 (List.prefix_of_prefix_length_le h ho hlt.le)
  have hne : rest ≠ "" := fun hempty => by
    rw [hempty, String.append_empty] at hlt
    exact Nat.lt_irrefl _ hlt
  have hpos := Nat.pos_of_ne_zero (mt String.utf8ByteSize_eq_zero_iff.1 hne)
  rw [String.utf8ByteSize_append]
  omega

theorem utf8ByteSize_le_iff (h : name.toList <+: text.toList)
    (ho : other.toList <+: text.toList) :
    other.utf8ByteSize ≤ name.utf8ByteSize ↔ other.length ≤ name.length := by
  constructor
  · intro hle
    by_contra hlt
    exact absurd (utf8ByteSize_lt_of_length_lt h ho (not_le.1 hlt)) (not_lt.2 hle)
  · intro hle
    rcases hle.lt_or_eq with hlt | heq
    · exact (utf8ByteSize_lt_of_length_lt ho h hlt).le
    · rw [eq_of_starts_of_length_eq ho h heq]

/-! ## The search -/

/-- What is found at the start of a text in lower case is the longest part of it for which looking
up finds a colour, and this colour; nothing is found exactly if looking up finds nothing for any
part that is not empty. -/
theorem longestAtStart?_isGreatest (s : Swatches) {text : String} (htext : IsLower text.toList) :
    (∀ n c, (s.longestAtStart? text.toList).map (fun e => (e.1.utf8ByteSize, e.2)) =
        some (n, c) ↔
      IsGreatest {m | 0 < m ∧ ∃ d, s.NamedUpTo text m d} n ∧ s.NamedUpTo text n c) ∧
    (s.longestAtStart? text.toList = none ↔
      ∀ part rest, text = part ++ rest → part ≠ "" → s.get? part = none) := by
  refine ⟨fun n c => ⟨fun h => ?_, ?_⟩, ?_⟩
  · obtain ⟨⟨name, c⟩, hfound, hpair⟩ := Option.map_eq_some_iff.1 h
    cases hpair
    have hlongest := longestAtStart?_eq_some_iff.1 hfound
    have hnamed : s.NamedUpTo text name.utf8ByteSize c :=
      (namedUpTo_iff htext).2 ⟨name, hlongest.starts, rfl, hlongest.holds⟩
    have hpos := Nat.pos_of_ne_zero (mt String.utf8ByteSize_eq_zero_iff.1 hlongest.ne_empty)
    refine ⟨⟨⟨hpos, c, hnamed⟩, ?_⟩, hnamed⟩
    rintro m ⟨-, d, hd⟩
    obtain ⟨other, hstarts, rfl, hholds⟩ := (namedUpTo_iff htext).1 hd
    exact (utf8ByteSize_le_iff hlongest.starts hstarts).2
      (hlongest.longest other d hholds hstarts)
  · rintro ⟨⟨⟨hpos, -⟩, hgreatest⟩, hnamed⟩
    obtain ⟨name, hstarts, rfl, hholds⟩ := (namedUpTo_iff htext).1 hnamed
    have hlongest : s.IsLongest text.toList name c := by
      refine ⟨fun hempty => ?_, hstarts, hholds, fun other d hother hotherStarts => ?_⟩
      · exact hpos.ne' (String.utf8ByteSize_eq_zero_iff.2 hempty)
      · by_cases hempty : other = ""
        · rw [hempty]
          exact Nat.zero_le _
        · have hpos' := Nat.pos_of_ne_zero (mt String.utf8ByteSize_eq_zero_iff.1 hempty)
          refine (utf8ByteSize_le_iff hstarts hotherStarts).1 (hgreatest ⟨hpos', d, ?_⟩)
          exact (namedUpTo_iff htext).2 ⟨other, hotherStarts, rfl, hother⟩
    rw [longestAtStart?_eq_some_iff.2 hlongest, Option.map_some]
  · rw [longestAtStart?_eq_none_iff]
    constructor
    · intro hnone part rest hsplit hne
      have hstarts := prefix_iff_exists_append.2 ⟨rest, hsplit⟩
      refine Option.eq_none_iff_forall_ne_some.2 fun d hd => hnone ⟨part, d, ?_, hne, hstarts⟩
      exact (get?_eq_some_iff_holds (htext.of_isPrefix hstarts)).1 hd
    · rintro hnone ⟨name, d, hholds, hne, hstarts⟩
      obtain ⟨rest, hsplit⟩ := prefix_iff_exists_append.1 hstarts
      have hget := (get?_eq_some_iff_holds (htext.of_isPrefix hstarts)).2 hholds
      rw [hnone name rest hsplit hne] at hget
      cases hget

/-- A name of four bytes, though a longer one almost stands there; and a text for which only the
empty name is known. -/
theorem longestAtStart?_isGreatest_wine :
    let s := ((basic.insert "" .black).insert "Rédwine" (.rgb 114 47 55)).insert "RÉD" .white
    IsLower "rédwiné".toList ∧
      IsGreatest {m | 0 < m ∧ ∃ d, s.NamedUpTo "rédwiné" m d} 4 ∧
      s.NamedUpTo "rédwiné" 4 .white ∧
      IsLower "wine".toList ∧ s.get? "" = some .black ∧
      ∀ part rest, "wine" = part ++ rest → part ≠ "" → s.get? part = none := by
  intro s
  have hred : IsLower "rédwiné".toList := by decide +kernel
  have hwine : IsLower "wine".toList := by decide +kernel
  obtain ⟨hgreatest, hnamed⟩ := ((longestAtStart?_isGreatest s hred).1 4 .white).1
    (by decide +kernel)
  exact ⟨hred, hgreatest, hnamed, hwine, by decide +kernel,
    (longestAtStart?_isGreatest s hwine).2.1 (by decide +kernel)⟩

end Colourway.Swatches
