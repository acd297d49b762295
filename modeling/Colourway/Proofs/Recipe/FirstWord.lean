/-
  The first word of a text. `Selected` says which piece stands at the start of a text, by the
  order in which the kinds of words are looked for: a piece of one kind is the longest of this
  kind, and there is none of the kinds before it. There is just one such piece, and it is the
  one that is cut off (`selected_iff`).

  A name or a colour code may start a longer one. The fixed words (known names, adjustments,
  multipliers, `to`) are a prefix code: none of them starts another one
  (`prefixFree_fixedPieces`), so the first that is found is the only one.
-/
import Colourway.Proofs.Colour.HexCode
import Colourway.Proofs.Swatches.LongestName
import Colourway.Recipe.Word

namespace Colourway.Recipe

/-! ## The fixed words -/

/-- The words that are always spelt in the same way. -/
def fixedPieces : List Piece :=
  Colour.named.map (fun e => ⟨.colour e.2, e.1.toList⟩) ++
  Adjustment.all.map (fun m => ⟨.adjustment m, m.keyword.toList⟩) ++
  Multiplier.words.map (fun e => ⟨.multiplier e.2, e.1.toList⟩) ++
  [⟨.transition, transitionWord.toList⟩]

theorem name_mem_fixed {e : String × Colour} (he : e ∈ Colour.named) :
    ⟨.colour e.2, e.1.toList⟩ ∈ fixedPieces := by
  simp only [fixedPieces, List.mem_append, List.mem_map]
  exact .inl (.inl (.inl ⟨e, he, rfl⟩))

theorem adjustment_mem_fixed {m : Adjustment} (hm : m ∈ Adjustment.all) :
    ⟨.adjustment m, m.keyword.toList⟩ ∈ fixedPieces := by
  simp only [fixedPieces, List.mem_append, List.mem_map]
  exact .inl (.inl (.inr ⟨m, hm, rfl⟩))

theorem multiplier_mem_fixed {e : String × Count} (he : e ∈ Multiplier.words) :
    ⟨.multiplier e.2, e.1.toList⟩ ∈ fixedPieces := by
  simp only [fixedPieces, List.mem_append, List.mem_map]
  exact .inl (.inr ⟨e, he, rfl⟩)

theorem transition_mem_fixed : ⟨.transition, transitionWord.toList⟩ ∈ fixedPieces := by
  simp [fixedPieces]

/-- No fixed word starts another one. -/
theorem prefixFree_fixedPieces :
    ∀ p ∈ fixedPieces, ∀ q ∈ fixedPieces, p.text <+: q.text → p = q := by
  decide +kernel

/-- Two fixed words at the start of one text are the same. -/
theorem eq_of_prefix_of_prefix {p q : Piece} {text : List Char} (hp : p ∈ fixedPieces)
    (hq : q ∈ fixedPieces) (hpt : p.text <+: text) (hqt : q.text <+: text) : p = q := by
  rcases List.prefix_or_prefix_of_prefix hpt hqt with h | h
  · exact prefixFree_fixedPieces p hp q hq h
  · exact (prefixFree_fixedPieces q hq p hp h).symm

/-! ## What a text may begin with -/

/-- The text begins with a name. -/
def NameAt (s : Swatches) (text : List Char) : Prop :=
  ∃ name c, s.Holds name c ∧ name ≠ "" ∧ name.toList <+: text

/-- The text begins with a colour code. -/
def CodeAt (text : List Char) : Prop :=
  ∃ digits c, HexCode.Spells digits c ∧ '#' :: digits <+: text

/-- The text begins with a word for an adjustment. -/
def AdjustmentAt (text : List Char) : Prop := ∃ m : Adjustment, m.keyword.toList <+: text

/-- The text begins with a word that multiplies. -/
def MultiplierAt (text : List Char) : Prop := ∃ e ∈ Multiplier.words, e.1.toList <+: text

/-- The text begins with a transition. -/
def TransitionAt (text : List Char) : Prop := transitionWord.toList <+: text

/-- The piece is the first one of the text: of the first kind that the text begins with, or a
stray character if it begins with none of them. -/
inductive Selected (s : Swatches) (text : List Char) : Piece → Prop where
  | name {name : String} {c : Colour} :
    s.IsLongest text name c → Selected s text ⟨.colour c, name.toList⟩
  | code {digits : List Char} {c : Colour} :
    ¬NameAt s text → HexCode.Spells digits c → '#' :: digits <+: text →
    (∀ others d, HexCode.Spells others d → '#' :: others <+: text →
      others.length ≤ digits.length) →
    Selected s text ⟨.colour c, '#' :: digits⟩
  | adjustment {m : Adjustment} :
    ¬NameAt s text → ¬CodeAt text → m.keyword.toList <+: text →
    Selected s text ⟨.adjustment m, m.keyword.toList⟩
  | multiplier {e : String × Count} :
    ¬NameAt s text → ¬CodeAt text → ¬AdjustmentAt text →
    e ∈ Multiplier.words → e.1.toList <+: text →
    Selected s text ⟨.multiplier e.2, e.1.toList⟩
  | transition :
    ¬NameAt s text → ¬CodeAt text → ¬AdjustmentAt text → ¬MultiplierAt text →
    TransitionAt text → Selected s text ⟨.transition, transitionWord.toList⟩
  | stray {c : Char} {rest : List Char} :
    text = c :: rest → ¬NameAt s text → ¬CodeAt text → ¬AdjustmentAt text →
    ¬MultiplierAt text → ¬TransitionAt text → Selected s text ⟨.stray c, [c]⟩

/-! ## One kind of words -/

variable {s : Swatches} {text : List Char} {p : Piece}

theorem colourName?_eq_none_iff : colourName? s text = none ↔ ¬NameAt s text := by
  rw [colourName?, Option.map_eq_none_iff]
  exact Swatches.longestAtStart?_eq_none_iff

theorem colourName?_eq_some_iff :
    colourName? s text = some p ↔
      ∃ name c, s.IsLongest text name c ∧ p = ⟨.colour c, name.toList⟩ := by
  rw [colourName?, Option.map_eq_some_iff]
  constructor
  · rintro ⟨e, he, rfl⟩
    exact ⟨e.1, e.2, Swatches.longestAtStart?_eq_some_iff.1 he, rfl⟩
  · rintro ⟨name, c, hlongest, rfl⟩
    exact ⟨(name, c), Swatches.longestAtStart?_eq_some_iff.2 hlongest, rfl⟩

theorem colourCode?_hash (text : List Char) :
    colourCode? ('#' :: text) =
      (HexCode.readDigits? text).map fun code => ⟨.colour code.2, '#' :: text.take code.1⟩ := rfl

theorem exists_of_colourCode? (h : colourCode? text = some p) :
    ∃ rest n c, text = '#' :: rest ∧ HexCode.readDigits? rest = some (n, c) ∧
      p = ⟨.colour c, '#' :: rest.take n⟩ := by
  unfold colourCode? at h
  split at h
  case h_1 rest =>
    obtain ⟨⟨n, c⟩, hread, rfl⟩ := Option.map_eq_some_iff.1 h
    exact ⟨rest, n, c, rfl, hread, rfl⟩
  case h_2 => cases h

theorem hash_cons_prefix_iff {digits : List Char} {c : Char} :
    '#' :: digits <+: c :: text ↔ c = '#' ∧ digits <+: text := by
  rw [List.cons_prefix_cons, eq_comm]

theorem colourCode?_eq_none_iff : colourCode? text = none ↔ ¬CodeAt text := by
  unfold colourCode? CodeAt
  split
  case h_1 text =>
    simp only [Option.map_eq_none_iff, HexCode.readDigits?_eq_none_iff, hash_cons_prefix_iff,
      true_and]
  case h_2 hhash =>
    refine iff_of_true rfl ?_
    rintro ⟨digits, c, -, rest, rfl⟩
    exact hhash _ rfl

theorem colourCode?_eq_some_iff :
    colourCode? text = some p ↔
      ∃ digits c, HexCode.Spells digits c ∧ '#' :: digits <+: text ∧
        (∀ others d, HexCode.Spells others d → '#' :: others <+: text →
          others.length ≤ digits.length) ∧
        p = ⟨.colour c, '#' :: digits⟩ := by
  constructor
  · intro h
    obtain ⟨rest, n, c, rfl, hread, rfl⟩ := exists_of_colourCode? h
    obtain ⟨hlen, hspells, hlongest⟩ := HexCode.readDigits?_eq_some_iff.1 hread
    refine ⟨rest.take n, c, hspells, hash_cons_prefix_iff.2 ⟨rfl, List.take_prefix n rest⟩,
      fun others d hothers hstart => ?_, rfl⟩
    rw [List.length_take_of_le hlen]
    exact hlongest others d hothers (hash_cons_prefix_iff.1 hstart).2
  · rintro ⟨digits, c, hspells, ⟨rest, rfl⟩, hlongest, rfl⟩
    have hread : HexCode.readDigits? (digits ++ rest) = some (digits.length, c) := by
      refine HexCode.readDigits?_eq_some_iff.2 ⟨by simp, by rwa [List.take_left], ?_⟩
      intro others d hothers hstart
      exact hlongest others d hothers (List.cons_prefix_cons.2 ⟨rfl, hstart⟩)
    rw [List.cons_append, colourCode?_hash, hread, Option.map_some, List.take_left]

theorem adjustment_mem_all (m : Adjustment) : m ∈ Adjustment.all := by
  cases m <;> decide

theorem adjustment?_eq_none_iff : adjustment? text = none ↔ ¬AdjustmentAt text := by
  rw [adjustment?, Option.map_eq_none_iff, List.find?_eq_none]
  unfold AdjustmentAt
  simp only [List.isPrefixOf_iff_prefix, not_exists]
  exact ⟨fun h m => h m (adjustment_mem_all m), fun h m _ => h m⟩

theorem adjustment?_eq_some_iff :
    adjustment? text = some p ↔
      ∃ m : Adjustment, m.keyword.toList <+: text ∧ p = ⟨.adjustment m, m.keyword.toList⟩ := by
  rw [adjustment?, Option.map_eq_some_iff]
  constructor
  · rintro ⟨m, hfind, rfl⟩
    have hstart := List.find?_some hfind
    exact ⟨m, List.isPrefixOf_iff_prefix.1 hstart, rfl⟩
  · rintro ⟨m, hstart, rfl⟩
    have hsome : (Adjustment.all.find? fun m => m.keyword.toList.isPrefixOf text).isSome :=
      List.find?_isSome.2 ⟨m, adjustment_mem_all m, List.isPrefixOf_iff_prefix.2 hstart⟩
    obtain ⟨m', hfind⟩ := Option.isSome_iff_exists.1 hsome
    have hstart' := List.find?_some hfind
    exact ⟨m', hfind, eq_of_prefix_of_prefix (adjustment_mem_fixed (adjustment_mem_all m'))
      (adjustment_mem_fixed (adjustment_mem_all m)) (List.isPrefixOf_iff_prefix.1 hstart')
      hstart⟩

theorem multiplier?_eq_none_iff : multiplier? text = none ↔ ¬MultiplierAt text := by
  rw [multiplier?, Option.map_eq_none_iff, List.find?_eq_none]
  unfold MultiplierAt
  simp only [List.isPrefixOf_iff_prefix, not_exists, not_and]

theorem multiplier?_eq_some_iff :
    multiplier? text = some p ↔
      ∃ e ∈ Multiplier.words, e.1.toList <+: text ∧ p = ⟨.multiplier e.2, e.1.toList⟩ := by
  rw [multiplier?, Option.map_eq_some_iff]
  constructor
  · rintro ⟨e, hfind, rfl⟩
    have hstart := List.find?_some hfind
    exact ⟨e, List.mem_of_find?_eq_some hfind, List.isPrefixOf_iff_prefix.1 hstart, rfl⟩
  · rintro ⟨e, hmem, hstart, rfl⟩
    have hsome : (Multiplier.words.find? fun e => e.1.toList.isPrefixOf text).isSome :=
      List.find?_isSome.2 ⟨e, hmem, List.isPrefixOf_iff_prefix.2 hstart⟩
    obtain ⟨e', hfind⟩ := Option.isSome_iff_exists.1 hsome
    have hstart' := List.find?_some hfind
    exact ⟨e', hfind, eq_of_prefix_of_prefix
      (multiplier_mem_fixed (List.mem_of_find?_eq_some hfind)) (multiplier_mem_fixed hmem)
      (List.isPrefixOf_iff_prefix.1 hstart') hstart⟩

theorem transition?_eq_none_iff : transition? text = none ↔ ¬TransitionAt text := by
  unfold transition? TransitionAt
  split
  case isTrue h => exact iff_of_false nofun (not_not.2 (List.isPrefixOf_iff_prefix.1 h))
  case isFalse h => exact iff_of_true rfl (mt List.isPrefixOf_iff_prefix.2 h)

theorem transition?_eq_some_iff :
    transition? text = some p ↔ TransitionAt text ∧ p = ⟨.transition, transitionWord.toList⟩ := by
  unfold transition? TransitionAt
  split
  case isTrue h =>
    rw [Option.some.injEq, eq_comm]
    exact (and_iff_right (List.isPrefixOf_iff_prefix.1 h)).symm
  case isFalse h => exact iff_of_false nofun fun h' => h (List.isPrefixOf_iff_prefix.2 h'.1)

/-! ## The first piece -/

/-- The piece is the word at the start of the text: of the first kind there is. -/
theorem word?_eq_some_iff :
    word? s text = some p ↔
      colourName? s text = some p ∨ ¬NameAt s text ∧
        (colourCode? text = some p ∨ ¬CodeAt text ∧
          (adjustment? text = some p ∨ ¬AdjustmentAt text ∧
            (multiplier? text = some p ∨ ¬MultiplierAt text ∧ transition? text = some p))) := by
  simp only [word?, Option.or_eq_some_iff, colourName?_eq_none_iff, colourCode?_eq_none_iff,
    adjustment?_eq_none_iff, multiplier?_eq_none_iff]

theorem word?_eq_none_iff :
    word? s text = none ↔
      ¬NameAt s text ∧ ¬CodeAt text ∧ ¬AdjustmentAt text ∧ ¬MultiplierAt text ∧
        ¬TransitionAt text := by
  simp only [word?, Option.or_eq_none_iff, colourName?_eq_none_iff, colourCode?_eq_none_iff,
    adjustment?_eq_none_iff, multiplier?_eq_none_iff, transition?_eq_none_iff]

theorem selected_of_word? (h : word? s text = some p) : Selected s text p := by
  rcases word?_eq_some_iff.1 h with h | ⟨hname, h | ⟨hcode, h | ⟨hadjust, h | ⟨hmult, h⟩⟩⟩⟩
  · obtain ⟨name, c, hlongest, rfl⟩ := colourName?_eq_some_iff.1 h
    exact .name hlongest
  · obtain ⟨digits, c, hspells, hstart, hlongest, rfl⟩ := colourCode?_eq_some_iff.1 h
    exact .code hname hspells hstart hlongest
  · obtain ⟨m, hstart, rfl⟩ := adjustment?_eq_some_iff.1 h
    exact .adjustment hname hcode hstart
  · obtain ⟨e, hmem, hstart, rfl⟩ := multiplier?_eq_some_iff.1 h
    exact .multiplier hname hcode hadjust hmem hstart
  · obtain ⟨hstart, rfl⟩ := transition?_eq_some_iff.1 h
    exact .transition hname hcode hadjust hmult hstart

/-- One piece is selected at the start of a text, and it is the one that is cut off. -/
theorem selected_iff {c : Char} : Selected s (c :: text) p ↔ p = firstPiece s c text := by
  constructor
  · intro h
    have hword (hw : word? s (c :: text) = some p) : p = firstPiece s c text := by
      rw [firstPiece, hw, Option.getD_some]
    cases h with
    | name hlongest =>
      exact hword (word?_eq_some_iff.2 (.inl (colourName?_eq_some_iff.2 ⟨_, _, hlongest, rfl⟩)))
    | code hname hspells hstart hlongest =>
      exact hword (word?_eq_some_iff.2 (.inr ⟨hname, .inl (colourCode?_eq_some_iff.2
        ⟨_, _, hspells, hstart, hlongest, rfl⟩)⟩))
    | adjustment hname hcode hstart =>
      exact hword (word?_eq_some_iff.2 (.inr ⟨hname, .inr ⟨hcode,
        .inl (adjustment?_eq_some_iff.2 ⟨_, hstart, rfl⟩)⟩⟩))
    | multiplier hname hcode hadjust hmem hstart =>
      exact hword (word?_eq_some_iff.2 (.inr ⟨hname, .inr ⟨hcode, .inr ⟨hadjust,
        .inl (multiplier?_eq_some_iff.2 ⟨_, hmem, hstart, rfl⟩)⟩⟩⟩))
    | transition hname hcode hadjust hmult hstart =>
      exact hword (word?_eq_some_iff.2 (.inr ⟨hname, .inr ⟨hcode, .inr ⟨hadjust,
        .inr ⟨hmult, transition?_eq_some_iff.2 ⟨hstart, rfl⟩⟩⟩⟩⟩))
    | stray htext hname hcode hadjust hmult htransition =>
      obtain ⟨rfl, rfl⟩ := List.cons.inj htext
      rw [firstPiece, word?_eq_none_iff.2 ⟨hname, hcode, hadjust, hmult, htransition⟩,
        Option.getD_none]
  · rintro rfl
    cases hw : word? s (c :: text) with
    | none =>
      obtain ⟨hname, hcode, hadjust, hmult, htransition⟩ := word?_eq_none_iff.1 hw
      rw [firstPiece, hw]
      exact .stray rfl hname hcode hadjust hmult htransition
    | some p =>
      rw [firstPiece, hw]
      exact selected_of_word? hw

/-! ## All pieces -/

theorem scan_drop (s : Swatches) (text : List Char) (i : Nat) :
    (scan s text).drop i = scan s (((scan s text).drop i).flatMap (·.text)) := by
  induction i generalizing text with
  | zero => rw [List.drop_zero, flatMap_text_scan]
  | succ i ih =>
    cases text with
    | nil => rfl
    | cons c text => rw [scan_cons, List.drop_succ_cons, ← ih]

/-- Each piece is the first one of the text that the pieces before it have left. -/
theorem exists_firstPiece_eq {i : Nat} (hi : i < (scan s text).length) :
    ∃ c rest, ((scan s text).drop i).flatMap (·.text) = c :: rest ∧
      (scan s text)[i] = firstPiece s c rest := by
  have hdrop := scan_drop s text i
  rw [List.drop_eq_getElem_cons hi] at hdrop ⊢
  cases hrest : ((scan s text)[i] :: (scan s text).drop (i + 1)).flatMap (·.text) with
  | nil =>
    rw [hrest] at hdrop
    cases hdrop
  | cons c rest =>
    rw [hrest, scan_cons] at hdrop
    exact ⟨c, rest, rfl, (List.cons.inj hdrop).1⟩

theorem exists_selected_of_mem_scan (hp : p ∈ scan s text) : ∃ rest, Selected s rest p := by
  obtain ⟨i, hi, rfl⟩ := List.getElem_of_mem hp
  obtain ⟨c, rest, -, hfirst⟩ := exists_firstPiece_eq hi
  exact ⟨c :: rest, selected_iff.2 hfirst⟩

end Colourway.Recipe
