/-
  Recipes written from colours: the code of each colour, with a transition between each and the
  next (`written`). A code has all its eight digits, so nothing behind it can make it longer,
  and the text is cut into exactly the pieces it was put together from (`scan_written`). Each
  code then stands alone in its layer and gives the stop of its colour (`stops_codes`).
  `readRecipe_written` is the main statement: reading gives the colours back.
-/
import Colourway.Proofs.Number.Whole
import Colourway.Proofs.Recipe.Joining
import Colourway.Proofs.Text.LetterCase

namespace Colourway.Recipe

/-- The recipe of some colours. -/
def written (colours : List Colour) : String := "To".intercalate (colours.map Colour.hexCode)

/-! ## The text -/

/-- A colour and its code. -/
def codePiece (c : Colour) : Piece := ⟨.colour c, '#' :: c.channels.flatMap Hexadecimal.writeByte⟩

/-- The pieces of some colours: their codes, and transitions in between. -/
def codePieces (colours : List Colour) : List Piece :=
  (colours.map codePiece).intersperse ⟨.transition, transitionWord.toList⟩

theorem codePieces_cons_cons (c d : Colour) (rest : List Colour) :
    codePieces (c :: d :: rest) =
      codePiece c :: ⟨.transition, transitionWord.toList⟩ :: codePieces (d :: rest) :=
  List.intersperse_cons_cons

theorem mem_codePieces {colours : List Colour} {p : Piece} (h : p ∈ codePieces colours) :
    p = ⟨.transition, transitionWord.toList⟩ ∨ ∃ c, p = codePiece c := by
  induction colours with
  | nil => cases h
  | cons c rest ih =>
    cases rest with
    | nil => exact .inr ⟨c, List.mem_singleton.1 h⟩
    | cons d rest =>
      rw [codePieces_cons_cons] at h
      rcases List.mem_cons.1 h with rfl | h
      · exact .inr ⟨c, rfl⟩
      · rcases List.mem_cons.1 h with rfl | h
        · exact .inl rfl
        · exact ih h

theorem spelled_of_mem_codePieces {colours : List Colour} {p : Piece}
    (h : p ∈ codePieces colours) : p.Spelled := by
  rcases mem_codePieces h with rfl | ⟨c, rfl⟩
  · exact .fixed transition_mem_fixed
  · exact .code (HexCode.spells_flatMap_writeByte c)

theorem isChain_codePieces (colours : List Colour) : (codePieces colours).IsChain Piece.Apart := by
  refine (List.pairwise_of_forall_mem_list fun p hp q _ => ?_).isChain
  intro hhash hshort
  rcases mem_codePieces hp with rfl | ⟨c, rfl⟩
  · cases hhash
  · exact absurd hshort (by simp [codePiece, Colour.channels, Hexadecimal.writeByte])

theorem digit_fixed {n : Nat} (h : n < 16) :
    Text.isAscii (Hexadecimal.digit n) = true ∧
      (Hexadecimal.digit n).toLower = Hexadecimal.digit n := by
  have all : ∀ n : Fin 16, Text.isAscii (Hexadecimal.digit n) = true ∧
      (Hexadecimal.digit n).toLower = Hexadecimal.digit n := by
    decide
  exact all ⟨n, h⟩

/-- A code is written in ASCII, and in lower case. -/
theorem hexCode_fixed (c : Colour) :
    ∀ x ∈ c.hexCode.toList, Text.isAscii x = true ∧ x.toLower = x := by
  intro x hx
  rw [Colour.hexCode, String.toList_ofList] at hx
  rcases List.mem_cons.1 hx with rfl | hx
  · decide
  · obtain ⟨b, -, hx⟩ := List.mem_flatMap.1 hx
    have hb := b.toNat_lt
    simp only [Hexadecimal.writeByte, List.mem_cons, List.not_mem_nil, or_false] at hx
    rcases hx with rfl | rfl
    · exact digit_fixed (by omega)
    · exact digit_fixed (by omega)

theorem lower_hexCode (c : Colour) : Text.lower c.hexCode.toList = (codePiece c).text := by
  have hfixed := hexCode_fixed c
  rw [Text.lower_of_isAscii fun x hx => (hfixed x hx).1,
    List.map_congr_left (g := id) fun x hx => (hfixed x hx).2, List.map_id, Colour.hexCode,
    String.toList_ofList]
  rfl

theorem written_singleton (c : Colour) : (written [c]).toList = c.hexCode.toList := by
  rw [written, String.toList_intercalate]
  exact List.intercalate_singleton

theorem written_cons_cons (c d : Colour) (rest : List Colour) :
    (written (c :: d :: rest)).toList =
      c.hexCode.toList ++ "To".toList ++ (written (d :: rest)).toList := by
  rw [written, written, String.toList_intercalate, String.toList_intercalate]
  exact List.intercalate_cons_cons

theorem isAscii_written (colours : List Colour) :
    ∀ x ∈ (written colours).toList, Text.isAscii x = true := by
  have hto : "To".toList.all Text.isAscii = true := by decide
  induction colours with
  | nil => exact nofun
  | cons c rest ih =>
    cases rest with
    | nil =>
      rw [written_singleton]
      exact fun x hx => (hexCode_fixed c x hx).1
    | cons d rest =>
      intro x hx
      rw [written_cons_cons, List.append_assoc] at hx
      rcases List.mem_append.1 hx with hx | hx
      · exact (hexCode_fixed c x hx).1
      · rcases List.mem_append.1 hx with hx | hx
        · exact List.all_eq_true.1 hto x hx
        · exact ih x hx

theorem lower_written (colours : List Colour) :
    Text.lower (written colours).toList = (codePieces colours).flatMap (·.text) := by
  induction colours with
  | nil => rfl
  | cons c rest ih =>
    cases rest with
    | nil =>
      rw [written_singleton, lower_hexCode]
      simp [codePieces]
    | cons d rest =>
      have hto : Text.lower "To".toList = transitionWord.toList := by decide
      rw [written_cons_cons, Text.lower_append, Text.lower_append, hto, ih, lower_hexCode,
        codePieces_cons_cons, List.flatMap_cons, List.flatMap_cons, List.append_assoc]

theorem scan_written (colours : List Colour) :
    scan .basic (Text.lower (written colours).toList) = codePieces colours := by
  rw [lower_written, scan_flatMap_text (fun _ => spelled_of_mem_codePieces)
    (isChain_codePieces colours)]

/-! ## The stops -/

open Double in
/-- The mean of a single channel is this channel: none of the steps rounds anything. -/
theorem zero_add_mul_one_div_one (x : UInt8) :
    (0 + x.toFloat * (1 : Count).toFloat) / (1 : Count).toFloat = x.toFloat := by
  by_cases h0 : x = 0
  · rw [h0]
    decide +kernel
  · have hx := standsFor_toFloat_uint8 x
    have hone : StandsFor (1 : Count).toFloat 1 := by
      exact_mod_cast standsFor_toFloat (n := 1) (by norm_num)
    have hne : (x.toNat : ℚ) ≠ 0 := Nat.cast_ne_zero.2 fun h => h0 (UInt8.toNat_inj.1 h)
    have hkeep : nearest (x.toNat : ℚ) = x.toNat := nearest_of_representable hx.representable
    have hlt : |nearest (x.toNat : ℚ)| < 2 ^ (1024 : ℤ) := hkeep.symm ▸ hx.abs_lt
    have hmul := hx.mul hone (by rwa [mul_one])
    rw [mul_one, hkeep] at hmul
    have hadd := standsFor_zero.add hmul (by rwa [zero_add])
    rw [zero_add, hkeep] at hadd
    have hdiv := hadd.div hone one_ne_zero (by rwa [div_one])
    rw [div_one, hkeep] at hdiv
    exact hdiv.eq hx hne

/-- A colour mixed with nothing is kept as it is. -/
theorem mix_singleton (c : Colour) : Stop.mix [(c, 1)] = some (Stop.ofColour c) := by
  have hsum : Count.sum [1] = 1 := rfl
  rw [Stop.mix_eq_mean ⟨(c, 1), List.mem_cons_self, show 1 ≤ (1 : Count).val by decide⟩]
  simp only [Stop.mean, Stop.weigh, List.map_cons, List.map_nil, hsum, List.foldl_cons,
    List.foldl_nil, zero_add_mul_one_div_one]
  rfl

/-- The words of some colours. -/
def codes (colours : List Colour) : List Word := (codePieces colours).map (·.word)

theorem codes_cons_cons (c d : Colour) (rest : List Colour) :
    codes (c :: d :: rest) = [.colour c] ++ .transition :: codes (d :: rest) := rfl

theorem stops_codes (colours : List Colour) :
    (Draft.ofWords (codes colours)).stops = colours.map Stop.ofColour := by
  induction colours with
  | nil => rfl
  | cons c rest ih =>
    have hfirst : (Draft.ofWords [.colour c]).stops = [Stop.ofColour c] := by
      have hmix : Stop.mix [(c, 1)] = some (Stop.ofColour c) := mix_singleton c
      have hlayer : Draft.stopsOf ⟨[(c, 1)], 1⟩ = [Stop.ofColour c] := by
        simp only [Draft.stopsOf, List.reverse_singleton, hmix]
        rfl
      exact (List.append_nil _).trans hlayer
    cases rest with
    | nil => exact hfirst
    | cons d rest =>
      have hlast : [Word.colour c].getLast? = some (.colour c) := rfl
      rw [codes_cons_cons, stops_join hlast, hfirst, ih]
      rfl

theorem members_codes {colours : List Colour} (h : colours ≠ []) :
    (Draft.ofWords (codes colours)).current.members ≠ [] := by
  induction colours with
  | nil => exact absurd rfl h
  | cons c rest ih =>
    cases rest with
    | nil => exact List.cons_ne_nil _ _
    | cons d rest =>
      have hlast : [Word.colour c].getLast? = some (.colour c) := rfl
      rw [codes_cons_cons, ofWords_join hlast]
      exact ih (List.cons_ne_nil _ _)

theorem stray?_codePieces {colours : List Colour} :
    ∀ p ∈ codePieces colours, p.word.stray? = none := by
  intro p hp
  rcases mem_codePieces hp with rfl | ⟨c, rfl⟩
  · rfl
  · rfl

/-! ## Reading what was written -/

/-- Whatever the case of its letters, the recipe of some colours is read as the gradient through
them, or has too many. -/
theorem readRecipe_written {colours : List Colour} {text : String} (policy : Policy)
    (h : Text.sameIgnoringCase text (written colours) = true) :
    (1 ≤ colours.length ∧ colours.length ≤ 1024 →
      ∃ g, Catalogue.readRecipe .basic policy text = .ok g ∧
        g.stops = colours.map Stop.ofColour) ∧
    (1024 < colours.length →
      ∃ found : Count, found.val = min colours.length (2 ^ 64 - 1) ∧
        Catalogue.readRecipe .basic policy text =
          .error (.malformed text (.tooManyStops found))) := by
  have hscan : scan .basic (Text.lower text.toList) = codePieces colours := by
    rw [Text.lower_eq_of_sameIgnoringCase h (isAscii_written colours), scan_written]
  have hstrays : strays (wordsOf .basic text) = [] :=
    strays_wordsOf_eq_nil_iff.2 (hscan ▸ stray?_codePieces)
  have hread : read .basic policy text = (Draft.ofWords (codes colours)).finish := by
    rw [read_of_no_strays hstrays, map_snd_wordsOf, hscan]
    rfl
  have hpos : Positive (codes colours) := by
    have hw := positive_wordsOf .basic text
    rwa [map_snd_wordsOf, hscan] at hw
  have hsound := Draft.sound_ofWords hpos
  have hlen : (Draft.ofWords (codes colours)).stops.length = colours.length := by
    rw [stops_codes, List.length_map]
  constructor
  · rintro ⟨hone, hle⟩
    obtain ⟨g, hg, hs⟩ := Draft.exists_finish_eq_ok hsound
      (members_codes (List.ne_nil_of_length_pos hone)) (hlen ▸ hle)
    exact ⟨g, readRecipe_eq_ok_iff.2 (hread.trans hg), hs.trans (stops_codes colours)⟩
  · intro hlt
    have hne : colours ≠ [] := List.ne_nil_of_length_pos (by omega)
    refine ⟨.ofNat colours.length, rfl, ?_⟩
    rw [Catalogue.readRecipe, hread,
      Draft.finish_of_too_long hsound (members_codes hne) (hlen ▸ hlt), hlen]
    rfl

/-- Two colours in letters of both cases, and one colour more than there may be. -/
theorem readRecipe_written_mixed_case :
    let colours : List Colour := [⟨0xAB, 0xCD, 0xEF, 0x00⟩, ⟨0xFA, 0xDE, 0x09, 0xFF⟩]
    let many : List Colour := List.replicate 1025 .white
    Text.sameIgnoringCase "#aBcDEf00tO#FADE09ff" (written colours) = true ∧
      (∃ g, Catalogue.readRecipe .basic .lenient "#aBcDEf00tO#FADE09ff" = .ok g ∧
        g.stops = colours.map Stop.ofColour) ∧
      Text.sameIgnoringCase (written many) (written many) = true ∧
      ∃ found : Count, found.val = 1025 ∧
        Catalogue.readRecipe .basic .strict (written many) =
          .error (.malformed (written many) (.tooManyStops found)) := by
  intro colours many
  have hsame : Text.sameIgnoringCase "#aBcDEf00tO#FADE09ff" (written colours) = true := by
    decide +kernel
  have hself : Text.sameIgnoringCase (written many) (written many) = true := beq_self_eq_true _
  have hmany : many.length = 1025 := List.length_replicate
  obtain ⟨found, hfound, hread⟩ := (readRecipe_written .strict hself).2 (by omega)
  rw [hmany] at hfound
  exact ⟨hsame, (readRecipe_written .lenient hsame).1 ⟨by decide, by decide⟩, hself,
    found, hfound, hread⟩

end Colourway.Recipe
