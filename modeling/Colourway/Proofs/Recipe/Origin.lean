/-
  Where a stray character comes from. It is met in the lower case of a recipe, which may be
  shorter or longer than the recipe itself; `origin` leads back from there. What stands before a
  character of the lower case is the lower case of a part of the recipe and, if the character is
  not the first one of its own, what stands before it there (`exists_of_lower_eq`); so `origin`
  tells where this part ends (`origin_append`). Hence the offset that a strict reading reports is
  that of a character of the recipe, and no word before it was refused (`exists_stray_origin`).
-/
import Colourway.Proofs.Recipe.Policies
import Colourway.Proofs.Recipe.Tiling

namespace Colourway

namespace Text

variable {c character : Char} {part more rest : List Char}

theorem eq_of_lowerChar_eq (h : lowerChar c = part ++ character :: more) (hpart : part ≠ []) :
    c = Char.ofNat 0x130 := by
  have hsingle : ∀ d, [d] ≠ part ++ character :: more := fun d hd => by
    obtain ⟨b, part, rfl⟩ := List.exists_cons_of_ne_nil hpart
    exact absurd (List.cons.inj hd).2 (by simp)
  unfold lowerChar at h
  split_ifs at h with hascii hdotted
  · exact absurd h (hsingle _)
  · rw [← hdotted, Char.ofNat_toNat]
  · split at h
    · exact absurd h (hsingle _)
    · exact absurd h (hsingle _)

/-- Any character of a lower case belongs to the lower case of some character of the text. -/
theorem exists_of_lower_eq {text consumed : List Char}
    (h : lower text = consumed ++ character :: rest) :
    ∃ before c after part more, text = before ++ c :: after ∧
      consumed = lower before ++ part ∧ lowerChar c = part ++ character :: more := by
  induction text generalizing consumed with
  | nil => exact absurd h.symm (by simp [lower])
  | cons b text ih =>
    have hlater : ∀ tail, consumed = lowerChar b ++ tail →
        lower text = tail ++ character :: rest → ∃ before c after part more,
          b :: text = before ++ c :: after ∧ consumed = lower before ++ part ∧
            lowerChar c = part ++ character :: more := by
      rintro tail rfl htext
      obtain ⟨before, c, after, part, more, rfl, rfl, hc⟩ := ih htext
      exact ⟨b :: before, c, after, part, more, rfl,
        by rw [lower, lower, List.flatMap_cons, List.append_assoc], hc⟩
    rw [lower, List.flatMap_cons, ← lower] at h
    rcases List.append_eq_append_iff.1 h with ⟨tail, hconsumed, htext⟩ | ⟨tail, hb, htail⟩
    · exact hlater tail hconsumed htext
    · cases tail with
      | nil => exact hlater [] (by rw [hb]; simp) (by rw [htail]; rfl)
      | cons d more =>
        obtain ⟨rfl, -⟩ := List.cons.inj htail
        exact ⟨[], b, text, consumed, more, rfl, rfl, hb⟩

end Text

namespace Recipe

variable {s : Swatches} {text recipe : String} {position : ℕ} {character : Char} {word : Word}
  {before after : List (ℕ × Word)}

/-! ## Offsets -/

theorem byteLength_cons_pos (c : Char) (text : List Char) : 0 < byteLength (c :: text) := by
  have hpos := c.utf8Size_pos
  rw [byteLength]
  omega

theorem origin_append {before after part more : List Char} {c : Char}
    (h : Text.lowerChar c = part ++ character :: more) :
    origin (before ++ c :: after) (byteLength (Text.lower before ++ part)) =
      byteLength before := by
  induction before with
  | nil =>
    have hlt : byteLength part < byteLength (Text.lowerChar c) := by
      have hpos := byteLength_cons_pos character more
      rw [h, byteLength_append]
      omega
    exact if_pos hlt
  | cons b before ih =>
    have hoffset : byteLength (Text.lower (b :: before) ++ part) =
        byteLength (Text.lowerChar b) + byteLength (Text.lower before ++ part) := by
      rw [← byteLength_append, ← List.append_assoc]
      rfl
    rw [List.cons_append, origin, hoffset, if_neg (by omega), Nat.add_sub_cancel_left, ih,
      byteLength]

/-! ## Pieces -/

theorem exists_of_placeFrom_eq {ps : List Piece} {offset : ℕ}
    (h : placeFrom offset ps = before ++ (position, word) :: after) :
    ∃ pieces piece rest, ps = pieces ++ piece :: rest ∧ piece.word = word ∧
      before.map (·.2) = pieces.map (·.word) ∧
      position = offset + byteLength (pieces.flatMap (·.text)) := by
  induction before generalizing offset ps with
  | nil =>
    cases ps with
    | nil => cases h
    | cons p ps =>
      cases h
      exact ⟨[], p, ps, rfl, rfl, rfl, rfl⟩
  | cons place before ih =>
    cases ps with
    | nil => cases h
    | cons p ps =>
      obtain ⟨rfl, htail⟩ := List.cons.inj h
      obtain ⟨pieces, piece, rest, rfl, hword, hbefore, rfl⟩ := ih htail
      exact ⟨p :: pieces, piece, rest, rfl, hword, congrArg (p.word :: ·) hbefore,
        by rw [List.flatMap_cons, byteLength_append, Nat.add_assoc]⟩

theorem exists_of_wordsOf_eq (h : wordsOf s text = before ++ (position, word) :: after) :
    ∃ pieces piece rest, scan s (Text.lower text.toList) = pieces ++ piece :: rest ∧
      piece.word = word ∧ before.map (·.2) = pieces.map (·.word) ∧
      position = origin text.toList (byteLength (pieces.flatMap (·.text))) := by
  rw [wordsOf_eq] at h
  obtain ⟨front, back, hwords, rfl, hback⟩ := List.map_eq_append_iff.1 h
  obtain ⟨⟨offset, word'⟩, behind, rfl, hplace, -⟩ := List.map_eq_cons_iff.1 hback
  cases hplace
  obtain ⟨pieces, piece, rest, hscan, hword, hfront, hoffset⟩ := exists_of_placeFrom_eq hwords
  rw [Nat.zero_add] at hoffset
  exact ⟨pieces, piece, rest, hscan, hword, by rw [List.map_map, ← hfront]; rfl, by rw [hoffset]⟩

theorem eq_of_word_eq_stray {p : Piece} {text : List Char} (hp : p ∈ scan s text)
    (h : p.word = .stray character) : p = ⟨.stray character, [character]⟩ := by
  obtain ⟨rest, hselected⟩ := exists_selected_of_mem_scan hp
  cases hselected with
  | stray _ _ _ _ _ _ =>
    cases h
    rfl
  | name _ => cases h
  | code _ _ _ _ => cases h
  | adjustment _ _ _ => cases h
  | multiplier _ _ _ _ _ => cases h
  | transition _ _ _ _ _ => cases h

/-! ## The character that is refused -/

theorem finish_ne_strayCharacter (d : Draft) :
    d.finish ≠ .error (.strayCharacter position character) := by
  unfold Draft.finish
  split_ifs with hempty hclosed hlong
  · nofun
  · nofun
  · nofun
  · split <;> nofun

theorem read_of_readRecipe_eq_error {policy : Policy} {reason : Fault}
    (h : Catalogue.readRecipe s policy text = .error (.malformed recipe reason)) :
    recipe = text ∧ read s policy text = .error reason := by
  unfold Catalogue.readRecipe at h
  cases hread : read s policy text with
  | ok g =>
    rw [hread] at h
    cases h
  | error e =>
    rw [hread] at h
    cases h
    exact ⟨rfl, rfl⟩

theorem exists_of_read_strict_eq_error
    (h : read s .strict text = .error (.strayCharacter position character)) :
    ∃ before after, wordsOf s text = before ++ (position, .stray character) :: after ∧
      strays before = [] := by
  cases hs : strays (wordsOf s text) with
  | nil =>
    rw [read_of_no_strays hs] at h
    exact absurd h (finish_ne_strayCharacter _)
  | cons place rest =>
    obtain ⟨before, after, hwords, hbefore⟩ := exists_first_stray hs
    rw [read_eq_evaluate, hwords, evaluate, run_strict_of_stray hbefore] at h
    cases h
    exact ⟨before, after, hwords, hbefore⟩

/-- The offset of a refused character is that of a character in the recipe as it was written, and
the refused one is in the lower case of this character. The lower case of what stands before it
was read in words, and these reach into its own lower case only where that is more than one
character. -/
theorem exists_stray_origin
    (h : Catalogue.readRecipe s .strict text =
      .error (.malformed recipe (.strayCharacter position character))) :
    recipe = text ∧ ∃ before c after part more pieces rest,
      text = before ++ String.singleton c ++ after ∧
      position = before.utf8ByteSize ∧ position < text.utf8ByteSize ∧
      Text.lowerChar c = part ++ character :: more ∧ (part ≠ [] → c = 'İ') ∧
      scan s (Text.lower text.toList) = pieces ++ ⟨.stray character, [character]⟩ :: rest ∧
      (∀ p ∈ pieces, p.word.stray? = none) ∧
      pieces.flatMap (·.text) = Text.lower before.toList ++ part := by
  obtain ⟨hrecipe, hread⟩ := read_of_readRecipe_eq_error h
  obtain ⟨front, back, hwords, hfront⟩ := exists_of_read_strict_eq_error hread
  obtain ⟨pieces, piece, rest, hscan, hword, hknown, hposition⟩ := exists_of_wordsOf_eq hwords
  have hpiece : piece = ⟨.stray character, [character]⟩ :=
    eq_of_word_eq_stray (hscan ▸ List.mem_append_right _ List.mem_cons_self) hword
  rw [hpiece] at hscan
  -- the pieces make up the lower case of the recipe
  have hlower : Text.lower text.toList =
      pieces.flatMap (·.text) ++ character :: rest.flatMap (·.text) := by
    rw [← flatMap_text_scan s (Text.lower text.toList), hscan, List.flatMap_append,
      List.flatMap_cons, List.singleton_append]
  obtain ⟨before, c, after, part, more, htext, hbefore, hc⟩ := Text.exists_of_lower_eq hlower
  have hsplit : text = String.ofList before ++ String.singleton c ++ String.ofList after := by
    rw [← String.toList_inj, String.toList_append, String.toList_append, htext]
    simp
  have hstart : position = (String.ofList before).utf8ByteSize := by
    rw [hposition, hbefore, htext, origin_append hc, byteLength_eq]
  refine ⟨hrecipe, String.ofList before, c, String.ofList after, part, more, pieces, rest, hsplit,
    hstart, ?_, hc, Text.eq_of_lowerChar_eq hc, hscan, ?_, ?_⟩
  · have hpos := c.utf8Size_pos
    rw [hsplit, hstart, String.utf8ByteSize_append, String.utf8ByteSize_append,
      String.utf8ByteSize_singleton]
    omega
  · have hall := strays_eq_nil_iff.1 hfront
    rw [← List.forall_mem_map (f := Prod.snd) (P := fun w : Word => w.stray? = none), hknown,
      List.forall_mem_map] at hall
    exact hall
  · rw [hbefore, String.toList_ofList]

/-- A Kelvin sign and a capital I with a dot: the first shrinks in lower case, and the second one
becomes a name and the dot, which is refused. -/
theorem exists_stray_origin_dot :
    ∃ before c after, "Blac\u212aTo\u0130" = before ++ String.singleton c ++ after ∧
      before.utf8ByteSize = 9 ∧ Char.ofNat 0x307 ∈ Text.lowerChar c := by
  have hwords : wordsOf (Swatches.basic.insert "i" .white) "Blac\u212aTo\u0130" =
      [(0, .colour .black), (7, .transition), (9, .colour .white),
        (9, .stray (Char.ofNat 0x307))] := by
    decide +kernel
  have hread : Catalogue.readRecipe (Swatches.basic.insert "i" .white) .strict
      "Blac\u212aTo\u0130" =
        .error (.malformed "Blac\u212aTo\u0130" (.strayCharacter 9 (Char.ofNat 0x307))) := by
    rw [Catalogue.readRecipe, read_eq_evaluate, hwords]
    rfl
  obtain ⟨-, before, c, after, part, more, -, -, htext, hposition, -, hc, -⟩ :=
    exists_stray_origin hread
  exact ⟨before, c, after, htext, hposition.symm,
    hc ▸ List.mem_append_right part List.mem_cons_self⟩

end Recipe

end Colourway
