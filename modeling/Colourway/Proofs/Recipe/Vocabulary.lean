/-
  The words that need no added colour, and how a text made of them is cut.

  The fixed words (known names, adjustments, multipliers, `to`) are a prefix code: none of
  them starts another one (`prefixFree_fixedPieces`). So a fixed word at the start of a text
  is the first word of the text, whatever follows it (`word?_append_of_mem_fixed`). A colour
  code starts with a character that starts no fixed word, and ends before the first character
  that is no digit. Texts are therefore cut where their words meet (`scan_flatMap_text`),
  unless a short code meets a further digit, and two texts may be cut apart (`scan_append`).
-/
import Colourway.Proofs.Recipe.FirstWord

namespace Colourway.Recipe

/-- The text is a way to spell the word: one of the fixed words, a hash sign with the digits
of a colour code (any three, four, six or eight of them, by `HexCode.exists_spells`), or a
character that is no letter, digit or hash sign and stands for itself. -/
inductive Piece.Spelled : Piece → Prop where
  | fixed {p : Piece} : p ∈ fixedPieces → p.Spelled
  | code {digits : List Char} {c : Colour} :
    HexCode.Spells digits c → Spelled ⟨.colour c, '#' :: digits⟩
  | sign {c : Char} : c.isAlphanum = false → c ≠ '#' → Spelled ⟨.stray c, [c]⟩

/-- The first piece is no code of less than eight digits, or the second one does not start
with a digit. -/
def Piece.Apart (p q : Piece) : Prop :=
  p.text.head? = some '#' → p.text.length < 9 →
    ∀ c ∈ q.text.head?, HexCode.isDigit c = false

instance : DecidableRel Piece.Apart := fun p q =>
  decidable_of_iff (p.text.head? = some '#' → p.text.length < 9 →
      q.text.head?.all (!HexCode.isDigit ·) = true) (by
    simp [Piece.Apart, Option.all_eq_true])

/-! ## The fixed words -/

theorem head?_any_isLower :
    ∀ p ∈ fixedPieces, p.text.head?.any Char.isLower = true := by
  decide +kernel

theorem exists_head_of_mem_fixed {p : Piece} (hp : p ∈ fixedPieces) :
    ∃ c text, p.text = c :: text ∧ c.isLower = true := by
  have h := head?_any_isLower p hp
  cases ht : p.text with
  | nil => simp [ht] at h
  | cons c text => exact ⟨c, text, rfl, by simpa [ht] using h⟩

theorem not_prefix_of_not_isLower {p : Piece} (hp : p ∈ fixedPieces) {c : Char}
    (hc : c.isLower = false) (text : List Char) : ¬ p.text <+: c :: text := by
  intro h
  obtain ⟨d, rest, hd, hlow⟩ := exists_head_of_mem_fixed hp
  rw [hd, List.cons_prefix_cons] at h
  rw [h.1, hc] at hlow
  cases hlow

/-! ## The first word of a text -/

theorem mem_named_of_holds {name : String} {c : Colour} (h : Swatches.basic.Holds name c) :
    (name, c) ∈ Colour.named := by
  rcases h with h | ⟨-, h⟩
  · cases h
  · exact h

/-- Without added colours, the first word of a text is a fixed word or a colour code. -/
theorem mem_fixed_or_code {text : List Char} {p : Piece} (h : word? .basic text = some p) :
    (p ∈ fixedPieces ∧ p.text <+: text) ∨
      ∃ rest n c, text = '#' :: rest ∧ HexCode.readDigits? rest = some (n, c) ∧
        p = ⟨.colour c, '#' :: rest.take n⟩ := by
  rcases word?_eq_some_iff.1 h with h | ⟨-, h | ⟨-, h | ⟨-, h | ⟨-, h⟩⟩⟩⟩
  · obtain ⟨name, c, hlongest, rfl⟩ := colourName?_eq_some_iff.1 h
    exact .inl ⟨name_mem_fixed (mem_named_of_holds hlongest.holds), hlongest.starts⟩
  · exact .inr (exists_of_colourCode? h)
  · obtain ⟨m, hstart, rfl⟩ := adjustment?_eq_some_iff.1 h
    exact .inl ⟨adjustment_mem_fixed (adjustment_mem_all m), hstart⟩
  · obtain ⟨e, he, hstart, rfl⟩ := multiplier?_eq_some_iff.1 h
    exact .inl ⟨multiplier_mem_fixed he, hstart⟩
  · obtain ⟨hstart, rfl⟩ := transition?_eq_some_iff.1 h
    exact .inl ⟨transition_mem_fixed, hstart⟩

/-- There is a first word wherever a fixed word stands. -/
theorem isSome_word?_of_mem_fixed {text : List Char} {p : Piece} (hp : p ∈ fixedPieces)
    (h : p.text <+: text) : (word? .basic text).isSome := by
  rw [Option.isSome_iff_ne_none]
  intro hnone
  obtain ⟨hname, -, hadjust, hmult, htransition⟩ := word?_eq_none_iff.1 hnone
  simp only [fixedPieces, List.mem_append, List.mem_map, List.mem_singleton] at hp
  rcases hp with ((⟨e, he, rfl⟩ | ⟨m, -, rfl⟩) | ⟨e, he, rfl⟩) | rfl
  · have hne : e.1 ≠ "" := fun hnil => by
      obtain ⟨c, rest, hc, -⟩ := exists_head_of_mem_fixed (name_mem_fixed he)
      rw [hnil] at hc
      cases hc
    exact hname ⟨e.1, e.2, .inr ⟨rfl, he⟩, hne, h⟩
  · exact hadjust ⟨m, h⟩
  · exact hmult ⟨e, he, h⟩
  · exact htransition h

theorem word?_append_of_mem_fixed {p : Piece} (hp : p ∈ fixedPieces) (rest : List Char) :
    word? .basic (p.text ++ rest) = some p := by
  have hprefix : p.text <+: p.text ++ rest := List.prefix_append _ _
  obtain ⟨q, hq⟩ := Option.isSome_iff_exists.1 (isSome_word?_of_mem_fixed hp hprefix)
  rcases mem_fixed_or_code hq with ⟨hmem, hqt⟩ | ⟨text, n, c, htext, -, -⟩
  · rw [hq, eq_of_prefix_of_prefix hmem hp hqt hprefix]
  · rw [htext] at hprefix
    exact absurd hprefix (not_prefix_of_not_isLower hp (by decide) text)

theorem word?_hash (text : List Char) :
    word? .basic ('#' :: text) =
      (HexCode.readDigits? text).map fun code => ⟨.colour code.2, '#' :: text.take code.1⟩ := by
  cases hw : word? .basic ('#' :: text) with
  | none =>
    simp only [word?, Option.or_eq_none_iff] at hw
    exact hw.2.1.symm
  | some p =>
    rcases mem_fixed_or_code hw with ⟨hmem, hp⟩ | ⟨rest, n, c, hrest, hc, rfl⟩
    · exact absurd hp (not_prefix_of_not_isLower hmem (by decide) text)
    · obtain rfl := (List.cons.inj hrest).2
      rw [hc]
      rfl

theorem word?_eq_none_of_sign {c : Char} (hc : c.isAlphanum = false) (hne : c ≠ '#')
    (text : List Char) : word? .basic (c :: text) = none := by
  have hlow : c.isLower = false := by
    simp only [Char.isAlphanum, Char.isAlpha, Bool.or_eq_false_iff] at hc
    exact hc.1.2
  cases hw : word? .basic (c :: text) with
  | none => rfl
  | some p =>
    rcases mem_fixed_or_code hw with ⟨hmem, hp⟩ | ⟨rest, n, c', htext, -, -⟩
    · exact absurd hp (not_prefix_of_not_isLower hmem hlow text)
    · exact absurd (List.cons.inj htext).1 hne

/-! ## Cutting where words meet -/

theorem scan_append_of_word? {s : Swatches} {p : Piece} {rest : List Char}
    (h : word? s (p.text ++ rest) = some p) : scan s (p.text ++ rest) = p :: scan s rest := by
  obtain ⟨hne, -⟩ := text_of_word? h
  cases ht : p.text with
  | nil => exact absurd ht hne
  | cons c text =>
    rw [ht, List.cons_append] at h
    have hfirst : firstPiece s c (text ++ rest) = p := by rw [firstPiece, h]; rfl
    rw [List.cons_append, scan_cons, hfirst, ht, ← List.cons_append, List.drop_left]

theorem scan_cons_of_word?_eq_none {s : Swatches} {c : Char} {rest : List Char}
    (h : word? s (c :: rest) = none) : scan s (c :: rest) = ⟨.stray c, [c]⟩ :: scan s rest := by
  have hfirst : firstPiece s c rest = ⟨.stray c, [c]⟩ := by rw [firstPiece, h]; rfl
  rw [scan_cons, hfirst]
  rfl

theorem Piece.Spelled.text_ne_nil {p : Piece} (h : p.Spelled) : p.text ≠ [] := by
  cases h with
  | fixed hp =>
    obtain ⟨c, text, ht, -⟩ := exists_head_of_mem_fixed hp
    simp [ht]
  | code _ => simp
  | sign _ _ => simp

/-- A spelt word is cut off where it ends, if what follows cannot make it longer. -/
theorem scan_append_of_spelled {p : Piece} (h : p.Spelled) {rest : List Char}
    (hr : p.text.head? = some '#' → p.text.length < 9 →
      ∀ c ∈ rest.head?, HexCode.isDigit c = false) :
    scan .basic (p.text ++ rest) = p :: scan .basic rest := by
  cases h with
  | fixed hp => exact scan_append_of_word? (word?_append_of_mem_fixed hp rest)
  | @code digits c hcode =>
    have hclear : digits.length = 8 ∨ ∀ c ∈ rest.head?, HexCode.isDigit c = false := by
      have hlen := hcode.length_mem
      simp only [HexCode.widths, List.mem_cons, List.not_mem_nil, or_false] at hlen
      by_cases h8 : digits.length = 8
      · exact .inl h8
      · exact .inr (hr rfl (by simp only [List.length_cons]; omega))
    refine scan_append_of_word? ?_
    rw [List.cons_append, word?_hash, HexCode.readDigits?_append hcode hclear]
    simp
  | sign hc hne => exact scan_cons_of_word?_eq_none (word?_eq_none_of_sign hc hne rest)

theorem head?_flatMap_text {q : Piece} (hq : q.text ≠ []) (ps : List Piece) :
    ((q :: ps).flatMap (·.text)).head? = q.text.head? := by
  rw [List.flatMap_cons]
  cases ht : q.text with
  | nil => exact absurd ht hq
  | cons c text => rfl

/-- A text made of spelt words is cut into these words. -/
theorem scan_flatMap_text {ps : List Piece} (hs : ∀ p ∈ ps, p.Spelled)
    (ha : ps.IsChain Piece.Apart) : scan .basic (ps.flatMap (·.text)) = ps := by
  induction ps with
  | nil => rfl
  | cons p ps ih =>
    have hrest : scan .basic (ps.flatMap (·.text)) = ps :=
      ih (fun q hq => hs q (List.mem_cons_of_mem _ hq)) ha.tail
    rw [List.flatMap_cons, scan_append_of_spelled (hs p List.mem_cons_self), hrest]
    intro hhash hshort c hc
    cases ps with
    | nil => simp at hc
    | cons q ps =>
      have hq : q.Spelled := hs q (by simp)
      rw [head?_flatMap_text hq.text_ne_nil] at hc
      exact (List.isChain_cons_cons.1 ha).1 hhash hshort c hc

theorem byteLength_append (s t : List Char) :
    byteLength (s ++ t) = byteLength s + byteLength t := by
  induction s with
  | nil => simp [byteLength]
  | cons c s ih => rw [List.cons_append, byteLength, byteLength, ih, Nat.add_assoc]

theorem placeFrom_eq_mapIdx (offset : Nat) (ps : List Piece) :
    placeFrom offset ps =
      ps.mapIdx fun i p => (offset + byteLength ((ps.take i).flatMap (·.text)), p.word) := by
  induction ps generalizing offset with
  | nil => rfl
  | cons p ps ih =>
    rw [placeFrom, ih, List.mapIdx_cons]
    simp only [List.take_zero, List.flatMap_nil, byteLength, Nat.add_zero, List.take_succ_cons,
      List.flatMap_cons, byteLength_append, Nat.add_assoc]

/-- Without added colours, a text made of spelt words has exactly these words, each at the
place where the words before it end; only a short colour code must not be followed by a
further digit. -/
theorem words_flatMap_text {ps : List Piece} (hs : ∀ p ∈ ps, p.Spelled)
    (ha : ps.IsChain Piece.Apart) :
    words .basic (ps.flatMap (·.text)) =
      ps.mapIdx fun i p => (byteLength ((ps.take i).flatMap (·.text)), p.word) := by
  rw [words, scan_flatMap_text hs ha, placeFrom_eq_mapIdx]
  simp only [Nat.zero_add]

/-- A short code before a name that does not start with a digit, a long one before a name that
does, and a sign of more than one byte. -/
theorem words_flatMap_text_codes :
    let ps : List Piece := [
      ⟨.multiplier 2, "double".toList⟩, ⟨.colour (.rgb 255 0 0), '#' :: "f00".toList⟩,
      ⟨.transition, "to".toList⟩, ⟨.stray '→', ['→']⟩,
      ⟨.colour ⟨0, 0, 255, 136⟩, '#' :: "0000ff88".toList⟩, ⟨.colour .black, "black".toList⟩]
    (∀ p ∈ ps, p.Spelled) ∧ ps.IsChain Piece.Apart ∧
      words .basic "double#f00to→#0000ff88black".toList =
        [(0, .multiplier 2), (6, .colour (.rgb 255 0 0)), (10, .transition), (12, .stray '→'),
          (15, .colour ⟨0, 0, 255, 136⟩), (24, .colour .black)] := by
  intro ps
  have hs : ∀ p ∈ ps, p.Spelled := by
    simp only [ps, List.forall_mem_cons, List.not_mem_nil, false_implies, implies_true, and_true]
    exact ⟨.fixed (by decide +kernel), .code (HexCode.spells_iff.2 (by decide)),
      .fixed (by decide +kernel), .sign (by decide) (by decide),
      .code (HexCode.spells_iff.2 (by decide)), .fixed (by decide +kernel)⟩
  have ha : ps.IsChain Piece.Apart := by decide +kernel
  have htext : "double#f00to→#0000ff88black".toList = ps.flatMap (·.text) := by decide +kernel
  refine ⟨hs, ha, ?_⟩
  rw [htext, words_flatMap_text hs ha]
  decide +kernel

/-- Two texts may be cut apart, if the first has only words of the vocabulary and the second
does not start with a digit. -/
theorem scan_append {text rest : List Char}
    (hs : ∀ p ∈ scan .basic text, p.word.stray? = none)
    (hr : ∀ c ∈ rest.head?, HexCode.isDigit c = false) :
    scan .basic (text ++ rest) = scan .basic text ++ scan .basic rest := by
  -- on the length, for behind its first word the text is shorter
  induction hn : text.length using Nat.strongRecOn generalizing text with
  | ind n ih =>
    cases hw : word? .basic text with
    | none =>
      cases text with
      | nil => rfl
      | cons c text =>
        rw [scan_cons_of_word?_eq_none hw] at hs
        exact absurd (hs _ List.mem_cons_self) nofun
    | some p =>
      obtain ⟨hne, more, rfl⟩ := text_of_word? hw
      have hpos := List.length_pos_iff.2 hne
      have hlen : more.length < n := by
        rw [← hn, List.length_append]
        omega
      have hscan := scan_append_of_word? hw
      rw [hscan] at hs ⊢
      have hmore := ih _ hlen (fun q hq => hs q (List.mem_cons_of_mem _ hq)) rfl
      have hw' : word? .basic (p.text ++ (more ++ rest)) = some p := by
        rcases mem_fixed_or_code hw with ⟨hp, -⟩ | ⟨digits, m, c, htext, hc, hp⟩
        · exact word?_append_of_mem_fixed hp _
        · rw [← List.append_assoc, htext, List.cons_append, word?_hash,
            HexCode.readDigits?_append_of_not_digit hr, hc, hp]
          have hle := (HexCode.bounds_of_readDigits? hc).2
          simp [List.take_append_of_le_length hle]
      rw [List.append_assoc, scan_append_of_word? hw', hmore, List.cons_append]

end Colourway.Recipe
