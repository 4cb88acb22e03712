import Passage.Proofs.FormulaProspects

/-!
# Terminals of formulas

A terminal is matched against the characters ahead: a keyword as a word that no word character
follows, an identifier as a run of name characters that begins with no keyword. Behind the blanks, a
terminal takes exactly the token ahead, if this is of its kind, and nothing else
(`Place.exists_match?`, `Place.match?_eq_none`).
-/
namespace Passage.Formula

/-! ## Terminals -/

/-- A word is found only as a whole run that stands alone. -/
theorem keyword_found {word : String} (hword : word.toList.all Text.isNameChar = true)
    {chars rest : List Char} (hchars : chars.all Text.isNameChar = true)
    (hrest : Passage.Token.Apart rest) :
    (word.toList.isPrefixOf (chars ++ rest) && Token.standsAlone
      ((chars ++ rest).drop word.length)) =
      (decide (word = String.ofList chars) && Token.standsAlone rest) := by
  by_cases heq : word = String.ofList chars
  · subst heq
    have hlength : (String.ofList chars).length = chars.length := by
      rw [← String.length_toList, String.toList_ofList]
    rw [hlength, String.toList_ofList, List.drop_left, decide_eq_true rfl,
      List.isPrefixOf_iff_prefix.mpr (List.prefix_append chars rest)]
  rw [decide_eq_false heq, Bool.false_and, Bool.and_eq_false_iff]
  refine Classical.or_iff_not_imp_left.mpr fun hprefix => ?_
  obtain ⟨behind, hbehind⟩ := List.isPrefixOf_iff_prefix.mp (Bool.not_eq_false _ ▸ hprefix)
  rw [← hbehind, ← String.length_toList, List.drop_left]
  rcases List.append_eq_append_iff.mp hbehind with ⟨more, rfl, hmore⟩ | ⟨more, hmore, rfl⟩
  -- A shorter word is followed by a name character, and a longer one needs one behind the run.
  · cases more with
    | nil => exact absurd (by rw [List.append_nil, String.ofList_toList]) heq
    | cons c more =>
      subst hmore
      simp only [List.all_append, List.all_cons, Bool.and_eq_true] at hchars
      simp [Token.standsAlone, Text.isWordChar_of_isNameChar hchars.2.1]
  · cases more with
    | nil =>
      rw [List.append_nil] at hmore
      exact absurd (by rw [← hmore, String.ofList_toList]) heq
    | cons c more =>
      rw [hmore] at hword
      simp only [List.all_append, List.all_cons, Bool.and_eq_true] at hword
      have hapart := hrest c (more ++ behind) rfl
      rw [hword.2.1] at hapart
      cases hapart

theorem keyword?_run {words : List String}
    (hwords : ∀ word ∈ words, word.toList.all Text.isNameChar = true) {chars rest : List Char}
    (hchars : chars.all Text.isNameChar = true) (hrest : Passage.Token.Apart rest) :
    keyword? words (chars ++ rest) =
      if Token.standsAlone rest = true ∧ String.ofList chars ∈ words then some chars.length
        else none := by
  induction words with
  | nil => simp [keyword?]
  | cons word words ih =>
    rw [List.forall_mem_cons] at hwords
    have hfound := keyword_found hwords.1 hchars hrest
    unfold keyword? at ih ⊢
    rw [List.find?_cons, hfound]
    by_cases hhere : word = String.ofList chars ∧ Token.standsAlone rest = true
    · obtain ⟨rfl, halone⟩ := hhere
      simp [halone]
    · have hnot : (decide (word = String.ofList chars) && Token.standsAlone rest) = false := by
        simpa using hhere
      have hmem : (Token.standsAlone rest = true ∧ String.ofList chars ∈ word :: words) ↔
          (Token.standsAlone rest = true ∧ String.ofList chars ∈ words) := by
        rw [List.mem_cons]
        exact ⟨fun ⟨halone, h⟩ => ⟨halone, h.resolve_left fun heq => hhere ⟨heq.symm, halone⟩⟩,
          fun ⟨halone, h⟩ => ⟨halone, .inr h⟩⟩
      rw [hnot, ih hwords.2]
      simp only [hmem]

/-- A text that begins with no name character begins with no word. -/
theorem keyword?_apart {words : List String}
    (hwords : ∀ word ∈ words, word.toList.all Text.isNameChar = true) (hne : "" ∉ words)
    {text : List Char} (h : Passage.Token.Apart text) : keyword? words text = none := by
  have hrun := @keyword?_run words hwords [] text rfl h
  rwa [List.nil_append, if_neg fun ⟨_, hmem⟩ => hne hmem] at hrun

/-- Which terminal a run is for. -/
def Terminal.Fits (alone : Bool) (run : String) : Terminal → Prop
  | and => alone = true ∧ run ∈ and.words
  | or => alone = true ∧ run ∈ or.words
  | literal => alone = true ∧ run ∈ literal.words
  | identifier => ¬(alone = true ∧ run ∈ keywords)
  | _ => False

theorem mem_keywords {word : String} : word ∈ keywords ↔ word = "AND" ∨ word = "OR" ∨
    word = "TRUE" ∨ word = "FALSE" ∨ word = "true" ∨ word = "false" := by
  simp [keywords, Terminal.words]

/-- A run that is no keyword is a name. -/
theorem Mark.ofRun_of_not {alone : Bool} {run : String} (h : ¬(alone = true ∧ run ∈ keywords)) :
    Mark.ofRun alone run = .name run := by
  cases alone with
  | false => rfl
  | true => simp_all [Mark.ofRun, mem_keywords]

theorem Mark.terminal?_ofRun_iff {alone : Bool} {run : String} {kind : Terminal} :
    (Mark.ofRun alone run).terminal? = some kind ↔ kind.Fits alone run := by
  by_cases h : alone = true ∧ run ∈ keywords
  · obtain ⟨rfl, hmem⟩ := h
    rcases mem_keywords.mp hmem with rfl | rfl | rfl | rfl | rfl | rfl <;> cases kind <;>
      simp [Mark.ofRun, Mark.terminal?, Terminal.Fits, Terminal.words, keywords]
  · rw [Mark.ofRun_of_not h]
    cases kind <;> simp_all [Mark.terminal?, Terminal.Fits, Terminal.words, mem_keywords]

/-- A run is taken whole, by the terminal of its kind and by no other. -/
theorem Terminal.length?_run {chars rest : List Char} (hne : chars ≠ [])
    (hchars : chars.all Text.isNameChar = true) (hrest : Passage.Token.Apart rest)
    (kind : Terminal) : kind.length? (chars ++ rest) =
      if (Mark.ofRun (Token.standsAlone rest) (String.ofList chars)).terminal? = some kind
        then some chars.length
      else none := by
  have hsign (d : Char) (hd : Text.isNameChar d = false) : ¬(chars ++ rest).head? = some d := by
    obtain ⟨c, later, rfl⟩ := List.exists_cons_of_ne_nil hne
    have hc : Text.isNameChar c = true := List.all_eq_true.mp hchars c List.mem_cons_self
    exact fun hhead => Passage.Token.ne_of_isNameChar hc hd (Option.some.inj hhead)
  have hkeyword {words : List String} (hwords : ∀ word ∈ words,
      word.toList.all Text.isNameChar = true) :=
    keyword?_run hwords hchars hrest
  have hfits : (Mark.ofRun (Token.standsAlone rest) (String.ofList chars)).terminal? = some kind ↔
      kind.Fits (Token.standsAlone rest) (String.ofList chars) := Mark.terminal?_ofRun_iff
  cases kind with
  | opening => exact (if_neg (hsign '(' rfl)).trans (if_neg hfits.mp).symm
  | closing => exact (if_neg (hsign ')' rfl)).trans (if_neg hfits.mp).symm
  | ending =>
    exact (if_neg (List.append_ne_nil_of_left_ne_nil hne rest)).trans (if_neg hfits.mp).symm
  | and | or | literal => exact (hkeyword (by decide)).trans (if_congr hfits.symm rfl rfl)
  | identifier =>
    have hword : (chars = [] ∨ (keyword? keywords (chars ++ rest)).isSome) ↔
        ¬Terminal.identifier.Fits (Token.standsAlone rest) (String.ofList chars) := by
      rw [hkeyword (by decide), or_iff_right hne, Option.isSome_ite]
      exact Classical.not_not.symm
    rw [length?, hrest.takeWhile_eq hchars,
      if_congr (hword.trans (not_congr hfits.symm)) rfl rfl, ite_not]

/-- Of what is no run, only parentheses are taken. -/
theorem Terminal.length?_sign {c : Char} (hname : Text.isNameChar c = false) (rest : List Char)
    (kind : Terminal) : kind.length? (c :: rest) =
      if (kind = .opening ∧ c = '(') ∨ (kind = .closing ∧ c = ')') then some 1 else none := by
  have hkeyword {words : List String}
      (hwords : ∀ word ∈ words, word.toList.all Text.isNameChar = true)
      (hne : "" ∉ words) : keyword? words (c :: rest) = none :=
    keyword?_apart hwords hne (Passage.Token.apart_cons hname rest)
  cases kind with
  | opening | closing | ending => simp [length?]
  | and | or | literal => exact (hkeyword (by decide) (by decide)).trans (by simp)
  | identifier =>
    rw [length?, List.takeWhile_cons_of_neg (by simp [hname])]
    simp

/-! ## Places -/

namespace Place

/-- The tokens from a place on. -/
def tokens (place : Place) : List Token := Token.scanFrom .between place.offset place.ahead

def marks (place : Place) : List Mark := place.tokens.map Token.mark

/-- The number of characters of the whole text. -/
def total (place : Place) : Nat := place.offset + place.ahead.length

theorem total_advance {place : Place} {length : Nat} (h : length ≤ place.ahead.length) :
    (place.advance length).total = place.total := by
  simp only [total, advance, List.length_drop]
  omega

theorem total_skip (place : Place) : place.skip.total = place.total := by
  have hlength := congrArg List.length (@List.takeWhile_append_dropWhile _
    Token.isBlank place.ahead)
  rw [List.length_append] at hlength
  simp only [total, skip]
  omega

/-- No token is lost with the blanks. -/
theorem tokens_skip (place : Place) : place.skip.tokens = place.tokens := by
  obtain ⟨offset, ahead⟩ := place
  induction ahead generalizing offset with
  | nil => rfl
  | cons c rest ih =>
    by_cases hblank : Token.isBlank c = true
    · have hskip : skip ⟨offset, c :: rest⟩ = skip ⟨offset + 1, rest⟩ := by
        unfold skip
        rw [List.takeWhile_cons_of_pos hblank, List.dropWhile_cons_of_pos hblank, List.length_cons]
        congr 1
        dsimp only
        omega
      rw [hskip, ih (offset + 1)]
      exact (Token.scanFrom_blank hblank offset rest).symm
    · unfold skip
      rw [List.takeWhile_cons_of_neg hblank, List.dropWhile_cons_of_neg hblank]
      rfl

end Place

/-- Ahead of a place that is not blank is the end or a token, and only the terminal of its kind
takes it. -/
theorem Place.length?_eq {place : Place}
    (h : ∀ c rest, place.ahead = c :: rest → Token.isBlank c = false) :
    (place.ahead = [] ∧ place.tokens = [] ∧
        ∀ kind : Terminal, kind.length? [] = if kind = .ending then some 0 else none) ∨
      ∃ mark length, 0 < length ∧ length ≤ place.ahead.length ∧
        place.tokens = ⟨mark, place.offset⟩ :: (place.advance length).tokens ∧
        ∀ kind : Terminal, kind.length? place.ahead = if mark.terminal? = some kind then some length
          else none := by
  obtain ⟨offset, ahead⟩ := place
  cases ahead with
  | nil => exact .inl ⟨rfl, rfl, fun kind => by cases kind <;> decide⟩
  | cons c rest =>
    right
    have hblank : Token.isBlank c = false := h c rest rfl
    by_cases hname : Text.isNameChar c = true
    · -- A run goes on to the last name character.
      obtain ⟨chars, behind, hsplit, hne, hall, hapart⟩ := Token.exists_run hname rest
      refine ⟨.ofRun (Token.standsAlone behind) (String.ofList chars), chars.length,
        List.length_pos_iff.mpr hne, ?_, ?_, ?_⟩
      · rw [hsplit, List.length_append]
        exact Nat.le_add_right _ _
      · unfold tokens advance
        rw [hsplit, Token.scanFrom_run hne hall hapart, List.drop_left]
      · rw [hsplit]
        exact Terminal.length?_run hne hall hapart
    have hname : Text.isNameChar c = false := Bool.eq_false_iff.mpr hname
    have hlength : 1 ≤ (c :: rest).length := Nat.succ_le_succ (Nat.zero_le _)
    by_cases hopening : c = '('
    · subst hopening
      refine ⟨.opening, 1, Nat.one_pos, hlength, Token.scanFrom_step rfl rest, fun kind => ?_⟩
      rw [Terminal.length?_sign hname]
      cases kind <;> simp [Mark.terminal?]
    by_cases hclosing : c = ')'
    · subst hclosing
      refine ⟨.closing, 1, Nat.one_pos, hlength, Token.scanFrom_step rfl rest, fun kind => ?_⟩
      rw [Terminal.length?_sign hname]
      cases kind <;> simp [Mark.terminal?]
    · refine ⟨.stray c, 1, Nat.one_pos, hlength,
        Token.scanFrom_stray hblank hopening hclosing hname offset rest, fun kind => ?_⟩
      rw [Terminal.length?_sign hname]
      simp [hopening, hclosing, Mark.terminal?]

namespace Place

variable {place : Place} {mark : Mark} {rest : List Mark} {kind : Terminal}

theorem isBlank_skip (place : Place) (c : Char) (rest : List Char)
    (h : place.skip.ahead = c :: rest) : Token.isBlank c = false := by
  have hhead := List.head?_dropWhile_not Token.isBlank place.ahead
  have hahead : place.ahead.dropWhile Token.isBlank = c :: rest := h
  rw [hahead] at hhead
  simpa using hhead

/-- The later place is reached from the first one token by token. -/
structure Onward (place later : Place) : Prop where
  tokens : ∃ passed, place.tokens = passed ++ later.tokens ∧
    ∀ token ∈ passed, token.offset < later.skip.offset
  offset : place.skip.offset ≤ later.skip.offset
  total : later.total = place.total

theorem Onward.refl (place : Place) : Onward place place := ⟨⟨[], rfl, nofun⟩, Nat.le_refl _, rfl⟩

theorem Onward.trans {later last : Place} (h : Onward place later) (h' : Onward later last) :
    Onward place last := by
  obtain ⟨passed, htokens, hpassed⟩ := h.tokens
  obtain ⟨passed', htokens', hpassed'⟩ := h'.tokens
  refine ⟨⟨passed ++ passed', ?_, fun token hmem => ?_⟩, Nat.le_trans h.offset h'.offset,
    h'.total.trans h.total⟩
  · rw [htokens, htokens', List.append_assoc]
  · rcases List.mem_append.mp hmem with hmem | hmem
    · exact Nat.lt_of_lt_of_le (hpassed token hmem) h'.offset
    · exact hpassed' token hmem

theorem offset_le_skip (place : Place) : place.offset ≤ place.skip.offset := Nat.le_add_right _ _

/-- The terminal of the mark ahead takes it. -/
theorem exists_match? (h : place.marks = mark :: rest) (hkind : mark.terminal? = some kind) :
    ∃ later, kind.match? place.skip = some later ∧ later.marks = rest ∧ Onward place later ∧
      place.skip.offset < later.skip.offset := by
  rcases length?_eq (isBlank_skip place) with ⟨_, hnone, _⟩
    | ⟨found, length, hpos, hle, htokens, hlength⟩
  · rw [marks, ← tokens_skip, hnone] at h
    cases h
  · have htokens' := htokens
    rw [tokens_skip] at htokens'
    rw [marks, htokens', List.map_cons, List.cons.injEq] at h
    obtain ⟨rfl, hrest⟩ := h
    have hoffset : place.skip.offset < (place.skip.advance length).skip.offset :=
      Nat.lt_of_lt_of_le (Nat.lt_add_of_pos_right hpos) (offset_le_skip (place.skip.advance length))
    refine ⟨place.skip.advance length, ?_, hrest, ⟨⟨[⟨found, place.skip.offset⟩], htokens', ?_⟩,
      Nat.le_of_lt hoffset, ?_⟩, hoffset⟩
    · rw [Terminal.match?, hlength, if_pos hkind]
      rfl
    · simpa using hoffset
    · rw [total_advance hle, total_skip]

/-- A terminal of another kind does not take what is ahead. -/
theorem match?_eq_none (h : upcoming place.marks ≠ some kind) : kind.match? place.skip = none := by
  rcases length?_eq (isBlank_skip place) with ⟨hahead, hnone, hlength⟩
    | ⟨found, length, _, _, htokens, hlength⟩
  · rw [marks, ← tokens_skip, hnone] at h
    have hne : kind ≠ .ending := by
      rintro rfl
      exact h rfl
    rw [Terminal.match?, hahead, hlength, if_neg hne]
    rfl
  · rw [marks, ← tokens_skip, htokens] at h
    have hkind : ¬found.terminal? = some kind := h
    rw [Terminal.match?, hlength, if_neg hkind]
    rfl

theorem exists_match?_ending (h : place.marks = []) :
    ∃ later, Terminal.ending.match? place.skip = some later := by
  rcases length?_eq (isBlank_skip place) with ⟨hahead, _, hlength⟩
    | ⟨found, length, _, _, htokens, _⟩
  · exact ⟨_, by rw [Terminal.match?, hahead, hlength, if_pos rfl, Option.map_some]⟩
  · rw [marks, ← tokens_skip, htokens] at h
    cases h

/-- The offset of a place is that of its first token, or the length of the text. -/
theorem offset_skip (place : Place) :
    place.skip.offset = (place.tokens.head?.map Token.offset).getD place.total := by
  rcases length?_eq (isBlank_skip place) with ⟨hahead, hnone, _⟩ | ⟨found, length, _, _, htokens, _⟩
  · rw [tokens_skip] at hnone
    rw [hnone, ← total_skip, total, hahead]
    rfl
  · rw [tokens_skip] at htokens
    rw [htokens]
    rfl

end Place

end Passage.Formula
