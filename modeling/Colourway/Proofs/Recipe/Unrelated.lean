/-
  Names that do not stand in a recipe. A text is cut alike by two sets of swatches that find the
  same word wherever a piece of it may start (`scan_congr`). A name that stands nowhere in a text
  is found nowhere in it, so a colour may be added under this name, and the text is cut as before
  (`scan_insert_of_absent`). Then nothing that is made of the recipe changes: neither its words,
  nor the gradient of a name in a catalogue, nor what is noted on the way (`resolve_insertColour`).
-/
import Colourway.Catalogue.Basic
import Colourway.Proofs.Recipe.FirstWord

namespace Colourway

namespace Recipe

variable {s t : Swatches} {name : String} {c : Colour}

/-- A text is cut alike by two sets of swatches that find the same word everywhere in it. -/
theorem scan_congr {text : List Char} (h : ∀ rest, rest <:+ text → word? s rest = word? t rest) :
    scan s text = scan t text := by
  -- on the length, for behind its first piece the text is shorter
  induction hn : text.length using Nat.strongRecOn generalizing text with
  | ind n ih =>
    cases text with
    | nil => rfl
    | cons c text =>
      have hfirst : firstPiece s c text = firstPiece t c text := by
        rw [firstPiece, firstPiece, h _ (List.suffix_refl _)]
      have hpos := List.length_pos_iff.2 (text_firstPiece t c text).1
      have hrest : (c :: text).drop (firstPiece t c text).text.length <:+ c :: text :=
        List.drop_suffix _ _
      rw [scan_cons, scan_cons, hfirst]
      refine congrArg _ (ih _ ?_ (fun rest hsuffix => h rest (hsuffix.trans hrest)) rfl)
      rw [← hn, List.length_drop, List.length_cons]
      omega

theorem wordsOf_congr {text : String}
    (h : scan s (Text.lower text.toList) = scan t (Text.lower text.toList)) :
    wordsOf s text = wordsOf t text := by
  rw [wordsOf_eq, wordsOf_eq, words, words, h]

/-! ## A name that stands nowhere in a text -/

theorem scan_insert_of_absent {text : List Char} (h : ¬(Text.fold name).toList <:+: text) :
    scan (s.insert name c) text = scan s text := by
  refine scan_congr fun rest hrest => ?_
  have hstarts : ¬(Text.fold name).toList <+: rest := fun hstart =>
    h (hstart.isInfix.trans hrest.isInfix)
  rw [word?, word?, colourName?, colourName?,
    Swatches.longestAtStart?_insert_of_not_starts hstarts]

theorem read_insert_of_absent {text : String}
    (h : ¬(Text.fold name).toList <:+: Text.lower text.toList) (policy : Policy) :
    read (s.insert name c) policy text = read s policy text ∧
      notes (s.insert name c) policy text = notes s policy text := by
  have hwords : wordsOf (s.insert name c) text = wordsOf s text :=
    wordsOf_congr (scan_insert_of_absent h)
  have hread : read (s.insert name c) policy text = read s policy text := by
    unfold read
    rw [hwords]
  refine ⟨hread, ?_⟩
  unfold notes
  rw [hread, hwords]

end Recipe

namespace Catalogue

variable {k k' : Catalogue} {name : String}

/-- The gradient of a name depends on the recipe that is used for it, and on how it is read. -/
theorem resolve_congr (hsource : k'.source name = k.source name)
    (hread : Recipe.read k'.swatches k'.policy ((k.recipe? name).getD name) =
      Recipe.read k.swatches k.policy ((k.recipe? name).getD name)) :
    k'.resolve name = k.resolve name := by
  unfold resolve readRecipe
  rw [hsource]
  unfold recipe? at hread
  cases hs : k.source name with
  | added recipe =>
    rw [hs] at hread
    dsimp only [Option.getD_some] at hread ⊢
    rw [hread]
  | preset recipe =>
    rw [hs] at hread
    dsimp only [Option.getD_some] at hread ⊢
    rw [hread]
  | itself =>
    rw [hs] at hread
    dsimp only [Option.getD_none] at hread ⊢
    rw [hread]

/-- A colour may be added under a name that stands nowhere in the lower case of the recipe that
a catalogue uses for a map, and the map has the same gradient as before, or fails for the same
reason, with the same notes; under either policy, for a catalogue has its policy with it. -/
theorem resolve_insertColour (k : Catalogue) {colourName name : String} (c : Colour)
    (h : ¬(Text.fold colourName).toList <:+: Text.lower ((k.recipe? name).getD name).toList) :
    (k.insertColour colourName c).resolve name = k.resolve name ∧
      (k.insertColour colourName c).resolveNotes name = k.resolveNotes name := by
  obtain ⟨hread, hnotes⟩ := Recipe.read_insert_of_absent (s := k.swatches) (c := c) h k.policy
  -- no map is touched
  have hsource : (k.insertColour colourName c).source name = k.source name := rfl
  refine ⟨resolve_congr hsource hread, ?_⟩
  unfold resolveNotes
  rw [hsource]
  exact congrArg (sourceNote name (k.source name) :: ·) hnotes

/-- A name that begins in the recipe and ends in it, but does not stand there as a whole. -/
theorem resolve_insertColour_redWine :
    let k := (basic.insertColour "Wine" (.rgb 114 47 55)).insertMap "Fest" "DarkRedToWine"
    ¬(Text.fold "RedWine").toList <:+: Text.lower ((k.recipe? "fest").getD "fest").toList ∧
      (k.insertColour "RedWine" .white).resolve "fest" = k.resolve "fest" := by
  intro k
  have h : ¬(Text.fold "RedWine").toList <:+:
      Text.lower ((k.recipe? "fest").getD "fest").toList := by
    decide +kernel
  exact ⟨h, (resolve_insertColour k .white h).1⟩

end Catalogue

end Colourway
