/-
  A character that occurs in no word, put between two words (`Foreign`). Everything that is looked
  for at the start of a text lies before such a character or behind it. So the words before it are
  found as they were: each is still there, and no longer or more urgent one can come up
  (`Selected.of_isWord`). The character itself is a stray one, and behind it the text is cut as
  if it began there (`scan_insert`). The offsets of the later words move by its length, and since a
  stray character is passed over by the lenient policy, the gradient is the same (`words_insert`).
-/
import Colourway.Proofs.Recipe.Origin
import Colourway.Proofs.Text.FinalSigma

namespace Colourway.Recipe

/-- The characters of some word that means more than itself. -/
inductive IsWord (s : Swatches) : List Char → Prop where
  | name {name : String} {c : Colour} : s.Holds name c → IsWord s name.toList
  | code {digits : List Char} {c : Colour} : HexCode.Spells digits c → IsWord s ('#' :: digits)
  | adjustment (m : Adjustment) : IsWord s m.keyword.toList
  | multiplier {e : String × Count} : e ∈ Multiplier.words → IsWord s e.1.toList
  | transition : IsWord s transitionWord.toList

/-- The character occurs in no word. -/
structure Foreign (s : Swatches) (x : Char) : Prop where
  names : ∀ e ∈ s.entries, x ∉ e.1.toList
  adjustments : ∀ m ∈ Adjustment.all, x ∉ m.keyword.toList
  multipliers : ∀ e ∈ Multiplier.words, x ∉ e.1.toList
  transition : x ∉ transitionWord.toList
  ne_hash : x ≠ '#'
  not_digit : HexCode.isDigit x = false

variable {s : Swatches} {x : Char} {w part rest text text' : List Char} {p : Piece}
  {ps qs : List Piece}

theorem Foreign.notMem_of_isWord (hx : Foreign s x) (hw : IsWord s w) : x ∉ w := by
  cases hw with
  | name hholds => exact hx.names _ hholds.mem_entries
  | code hspells =>
    intro hmem
    rcases List.mem_cons.1 hmem with hhash | hdigit
    · exact hx.ne_hash hhash
    · have hfalse := hx.not_digit
      rw [hspells.isDigit_of_mem x hdigit] at hfalse
      cases hfalse
  | adjustment m => exact hx.adjustments m (adjustment_mem_all m)
  | multiplier he => exact hx.multipliers _ he
  | transition => exact hx.transition

/-! ## The first piece of a text -/

/-- What does not have the character ends before it. -/
theorem prefix_of_prefix_append_cons (hx : x ∉ w) (h : w <+: part ++ x :: rest) : w <+: part := by
  rcases List.prefix_or_prefix_of_prefix h (List.prefix_append part _) with hw | ⟨more, rfl⟩
  · exact hw
  · cases more with
    | nil => rw [List.append_nil]
    | cons y more =>
      obtain ⟨rfl, -⟩ := List.cons_prefix_cons.1 ((List.prefix_append_right_inj part).1 h)
      exact absurd (List.mem_append_right part List.mem_cons_self) hx

/-- A piece is cut off another text too, if it stands there and the text begins with no other words
than the first one. -/
theorem Selected.of_isWord (h : Selected s text p) (hp : p.text <+: text')
    (hwords : ∀ w, IsWord s w → w <+: text' → w <+: text) : Selected s text' p := by
  have hname : NameAt s text' → NameAt s text := by
    rintro ⟨name, c, hholds, hne, hstart⟩
    exact ⟨name, c, hholds, hne, hwords _ (.name hholds) hstart⟩
  have hcode : CodeAt text' → CodeAt text := by
    rintro ⟨digits, c, hspells, hstart⟩
    exact ⟨digits, c, hspells, hwords _ (.code hspells) hstart⟩
  have hadjust : AdjustmentAt text' → AdjustmentAt text := by
    rintro ⟨m, hstart⟩
    exact ⟨m, hwords _ (.adjustment m) hstart⟩
  have hmult : MultiplierAt text' → MultiplierAt text := by
    rintro ⟨e, he, hstart⟩
    exact ⟨e, he, hwords _ (.multiplier he) hstart⟩
  have htransition : TransitionAt text' → TransitionAt text := hwords _ .transition
  cases h with
  | name hlongest =>
    exact .name ⟨hlongest.ne_empty, hp, hlongest.holds, fun other d hother hstart =>
      hlongest.longest other d hother (hwords _ (.name hother) hstart)⟩
  | code hn hspells _ hlongest =>
    exact .code (mt hname hn) hspells hp fun others d hothers hstart =>
      hlongest others d hothers (hwords _ (.code hothers) hstart)
  | adjustment hn hc _ => exact .adjustment (mt hname hn) (mt hcode hc) hp
  | multiplier hn hc ha he _ =>
    exact .multiplier (mt hname hn) (mt hcode hc) (mt hadjust ha) he hp
  | transition hn hc ha hm _ =>
    exact .transition (mt hname hn) (mt hcode hc) (mt hadjust ha) (mt hmult hm) hp
  | stray _ hn hc ha hm ht =>
    obtain ⟨rest, rfl⟩ := hp
    exact .stray rfl (mt hname hn) (mt hcode hc) (mt hadjust ha) (mt hmult hm)
      (mt htransition ht)

theorem scan_append_of_selected (hne : p.text ≠ []) (h : Selected s (p.text ++ rest) p) :
    scan s (p.text ++ rest) = p :: scan s rest := by
  obtain ⟨c, more, hp⟩ := List.exists_cons_of_ne_nil hne
  rw [hp, List.cons_append] at h ⊢
  rw [scan_cons, ← selected_iff.1 h, hp, ← List.cons_append, List.drop_left]

theorem word?_cons_of_foreign (hx : Foreign s x) (rest : List Char) :
    word? s (x :: rest) = none := by
  -- a word at the start would have no character
  have hempty : ∀ w, IsWord s w → w <+: [] ++ x :: rest → w = [] := fun w hw hstart =>
    List.prefix_nil.1 (prefix_of_prefix_append_cons (hx.notMem_of_isWord hw) hstart)
  refine word?_eq_none_iff.2 ⟨?_, ?_, ?_, ?_, ?_⟩
  · rintro ⟨name, c, hholds, hne, hstart⟩
    exact hne (String.toList_eq_nil_iff.1 (hempty _ (.name hholds) hstart))
  · rintro ⟨digits, c, hspells, hstart⟩
    exact absurd (hempty _ (.code hspells) hstart) (List.cons_ne_nil _ _)
  · rintro ⟨m, hstart⟩
    exact adjustment_keyword_ne_nil m (hempty _ (.adjustment m) hstart)
  · rintro ⟨e, he, hstart⟩
    exact multiplier_word_ne_nil he (hempty _ (.multiplier he) hstart)
  · intro hstart
    exact absurd (hempty _ .transition hstart) (by decide)

/-! ## All pieces -/

/-- A text is cut as before on both sides of the character. -/
theorem scan_insert (hx : Foreign s x) (h : scan s text = ps ++ qs) :
    scan s (ps.flatMap (·.text) ++ x :: qs.flatMap (·.text)) =
      ps ++ ⟨.stray x, [x]⟩ :: qs := by
  induction ps generalizing text with
  | nil =>
    have htext : qs.flatMap (·.text) = text := by
      rw [← flatMap_text_scan s text, h, List.nil_append]
    rw [List.flatMap_nil, List.nil_append, htext,
      scan_cons_of_word?_eq_none (word?_cons_of_foreign hx text), h]
    rfl
  | cons p ps ih =>
    have htext : text = p.text ++ (ps.flatMap (·.text) ++ qs.flatMap (·.text)) := by
      rw [← flatMap_text_scan s text, h, List.flatMap_append, List.flatMap_cons,
        List.append_assoc]
    cases text with
    | nil => cases h
    | cons c text =>
      rw [scan_cons] at h
      obtain ⟨hfirst, hrest⟩ := List.cons.inj h
      have hne : p.text ≠ [] := hfirst ▸ (text_firstPiece s c text).1
      have hselected : Selected s (c :: text) p := selected_iff.2 hfirst.symm
      have hselected' : Selected s
          (p.text ++ (ps.flatMap (·.text) ++ x :: qs.flatMap (·.text))) p := by
        refine hselected.of_isWord (List.prefix_append _ _) fun w hw hstart => ?_
        rw [← List.append_assoc] at hstart
        rw [htext, ← List.append_assoc]
        exact (prefix_of_prefix_append_cons (hx.notMem_of_isWord hw) hstart).trans
          (List.prefix_append _ _)
      rw [List.flatMap_cons, List.append_assoc, scan_append_of_selected hne hselected', ih hrest,
        List.cons_append]

/-! ## Offsets -/

theorem placeFrom_append (offset : ℕ) (ps qs : List Piece) :
    placeFrom offset (ps ++ qs) =
      placeFrom offset ps ++ placeFrom (offset + byteLength (ps.flatMap (·.text))) qs := by
  induction ps generalizing offset with
  | nil => rfl
  | cons p ps ih =>
    rw [List.cons_append, placeFrom, placeFrom, ih, List.cons_append, List.flatMap_cons,
      byteLength_append, Nat.add_assoc]

theorem placeFrom_add (offset n : ℕ) (ps : List Piece) :
    placeFrom (offset + n) ps = (placeFrom offset ps).map fun place => (place.1 + n, place.2) := by
  induction ps generalizing offset with
  | nil => rfl
  | cons p ps ih => rw [placeFrom, placeFrom, List.map_cons, Nat.add_right_comm, ih]

theorem le_of_mem_placeFrom {offset : ℕ} {place : ℕ × Word} (h : place ∈ placeFrom offset ps) :
    offset ≤ place.1 := by
  induction ps generalizing offset with
  | nil => cases h
  | cons p ps ih =>
    rcases List.mem_cons.1 h with rfl | htail
    · exact le_rfl
    · exact (Nat.le_add_right _ _).trans (ih htail)

theorem lt_of_mem_placeFrom {offset : ℕ} {place : ℕ × Word} (hne : ∀ p ∈ ps, p.text ≠ [])
    (h : place ∈ placeFrom offset ps) :
    place.1 < offset + byteLength (ps.flatMap (·.text)) := by
  obtain ⟨before, after, hsplit⟩ := List.append_of_mem h
  obtain ⟨pieces, piece, more, rfl, -, -, hplace⟩ := exists_of_placeFrom_eq hsplit
  obtain ⟨c, text, hpiece⟩ := List.exists_cons_of_ne_nil (hne piece (by simp))
  have hpos := byteLength_cons_pos c text
  rw [List.flatMap_append, List.flatMap_cons, byteLength_append, byteLength_append, hpiece]
  omega

/-- Two parts of a text from its start that are equally long are the same. -/
theorem append_inj_of_byteLength {part' rest' : List Char} (h : part ++ rest = part' ++ rest')
    (hlen : byteLength part = byteLength part') : part = part' ∧ rest = rest' := by
  have hempty : ∀ more : List Char, byteLength more = 0 → more = [] := fun more hzero => by
    cases more with
    | nil => rfl
    | cons c more =>
      have hpos := byteLength_cons_pos c more
      omega
  rcases List.append_eq_append_iff.1 h with ⟨more, rfl, rfl⟩ | ⟨more, rfl, rfl⟩
  · rw [byteLength_append] at hlen
    obtain rfl := hempty more (by omega)
    exact ⟨(List.append_nil _).symm, rfl⟩
  · rw [byteLength_append] at hlen
    obtain rfl := hempty more (by omega)
    exact ⟨List.append_nil _, rfl⟩

/-- The offset of a word, or the end of the text, lies between two pieces. -/
theorem exists_scan_eq_append
    (h : byteLength part ∈ (words s (part ++ rest)).map (·.1) ∨ rest = []) :
    ∃ ps qs, scan s (part ++ rest) = ps ++ qs ∧ ps.flatMap (·.text) = part ∧
      qs.flatMap (·.text) = rest := by
  rcases h with hmem | rfl
  · obtain ⟨⟨offset, word⟩, hplace, hoffset⟩ := List.mem_map.1 hmem
    obtain ⟨before, after, hsplit⟩ := List.append_of_mem hplace
    obtain ⟨ps, p, qs, hscan, -, -, hstart⟩ := exists_of_placeFrom_eq hsplit
    refine ⟨ps, p :: qs, hscan, ?_⟩
    have htext := flatMap_text_scan s (part ++ rest)
    rw [hscan, List.flatMap_append] at htext
    refine append_inj_of_byteLength htext ?_
    dsimp only at hoffset
    omega
  · refine ⟨scan s part, [], ?_, flatMap_text_scan s part, rfl⟩
    rw [List.append_nil, List.append_nil]

/-! ## The gradient -/

theorem ofWords_insert_stray (before after : List Word) :
    Draft.ofWords (before ++ .stray x :: after) = Draft.ofWords (before ++ after) := by
  rw [Draft.ofWords, Draft.ofWords, List.foldl_append, List.foldl_append, List.foldl_cons]
  rfl

theorem read_lenient_of_isLower {text : String} (h : Text.IsLower text.toList) :
    read s .lenient text = (Draft.ofWords ((scan s text.toList).map (·.word))).finish := by
  rw [read_eq_evaluate, evaluate_lenient_eq_finish, map_snd_wordsOf, h.lower_eq]

theorem filter_placeFrom (hps : ∀ p ∈ ps, p.text ≠ []) (qs : List Piece) :
    let n := byteLength (ps.flatMap (·.text))
    (placeFrom 0 (ps ++ qs)).filter (·.1 < n) = placeFrom 0 ps ∧
      (placeFrom 0 (ps ++ qs)).filter (n ≤ ·.1) = placeFrom n qs := by
  intro n
  have hfront : ∀ place ∈ placeFrom 0 ps, place.1 < n := fun place hplace => by
    have hlt := lt_of_mem_placeFrom hps hplace
    rwa [Nat.zero_add] at hlt
  have hback : ∀ place ∈ placeFrom n qs, n ≤ place.1 := fun place => le_of_mem_placeFrom
  rw [placeFrom_append, Nat.zero_add, List.filter_append, List.filter_append]
  constructor
  · rw [List.filter_eq_self.2 fun place hplace => decide_eq_true (hfront place hplace),
      List.filter_eq_nil_iff.2 fun place hplace => by simpa using hback place hplace,
      List.append_nil]
  · rw [List.filter_eq_nil_iff.2 fun place hplace => by simpa using hfront place hplace,
      List.filter_eq_self.2 fun place hplace => decide_eq_true (hback place hplace),
      List.nil_append]

/-- A character that occurs in no word may be put where a word begins, or at the end of the text.
The words before it stay as they are, it is a stray one itself, and the words behind it move by its
length. The lenient policy passes over it, so a recipe in lower case has the same gradient as
before, or fails for the same reason. -/
theorem words_insert (s : Swatches) {x : Char} (hx : Foreign s x) (before rest : String)
    (hboundary : before.utf8ByteSize ∈ (words s (before ++ rest).toList).map (·.1) ∨ rest = "") :
    words s (before ++ String.singleton x ++ rest).toList =
      (words s (before ++ rest).toList).filter (·.1 < before.utf8ByteSize) ++
        (before.utf8ByteSize, .stray x) ::
          ((words s (before ++ rest).toList).filter (before.utf8ByteSize ≤ ·.1)).map
            (fun place => (place.1 + x.utf8Size, place.2)) ∧
    (Text.IsLower (before ++ rest).toList → Text.lowerChar x = [x] →
      read s .lenient (before ++ String.singleton x ++ rest) =
        read s .lenient (before ++ rest)) := by
  have hsize : before.utf8ByteSize = byteLength before.toList := by
    rw [byteLength_eq, String.ofList_toList]
  have hinsert : (before ++ String.singleton x ++ rest).toList =
      before.toList ++ x :: rest.toList := by
    rw [String.toList_append, String.toList_append, String.toList_singleton, List.append_assoc,
      List.singleton_append]
  rw [hinsert, hsize, String.toList_append]
  rw [hsize, String.toList_append, ← String.toList_eq_nil_iff] at hboundary
  obtain ⟨ps, qs, hscan, hps, hqs⟩ := exists_scan_eq_append hboundary
  have hscan' := scan_insert hx hscan
  rw [hps, hqs] at hscan'
  constructor
  · have hne : ∀ p ∈ ps, p.text ≠ [] := fun p hp =>
      text_ne_nil_of_mem_scan (hscan ▸ List.mem_append_left _ hp)
    obtain ⟨hfront, hback⟩ := filter_placeFrom hne qs
    rw [hps] at hfront hback
    have hpiece : byteLength [x] = x.utf8Size := Nat.add_zero _
    rw [words, words, hscan, hscan', hfront, hback, placeFrom_append, Nat.zero_add, hps, placeFrom,
      hpiece, placeFrom_add]
  · intro hlower hx'
    have hlower' : Text.IsLower (before ++ String.singleton x ++ rest).toList := by
      rw [hinsert]
      intro c hc
      rw [List.mem_append, List.mem_cons] at hc
      rcases hc with hc | rfl | hc
      · exact hlower c (List.mem_append_left _ hc)
      · exact hx'
      · exact hlower c (List.mem_append_right _ hc)
    rw [read_lenient_of_isLower hlower', hinsert, hscan', List.map_append, List.map_cons,
      ofWords_insert_stray, ← List.map_append, ← hscan, ← String.toList_append,
      read_lenient_of_isLower (by rwa [String.toList_append])]

/-- Between a code of four digits and a name that begins with a digit, and between two hash signs
that an added name has too. -/
theorem words_insert_between :
    let s := Swatches.basic.insert "##fa" .white
    Foreign s 'ž' ∧
      words s "#f00džblue".toList =
        [(0, .colour ⟨255, 0, 0, 221⟩), (5, .stray 'ž'), (7, .colour (.rgb 0 0 255))] ∧
      read s .lenient "#f00džblue" = read s .lenient "#f00dblue" ∧
      read s .lenient "#ž#abc" = read s .lenient "##abc" := by
  intro s
  have hx : Foreign s 'ž' := ⟨by decide +kernel, by decide +kernel, by decide +kernel, by decide,
    by decide, by decide +kernel⟩
  obtain ⟨hwords, hread⟩ := words_insert s hx "#f00d" "blue" (.inl (by decide +kernel))
  obtain ⟨-, hread'⟩ := words_insert s hx "#" "#abc" (.inl (by decide +kernel))
  refine ⟨hx, hwords.trans ?_, hread (by decide +kernel) (by decide +kernel),
    hread' (by decide +kernel) (by decide +kernel)⟩
  decide +kernel

end Colourway.Recipe
