import Passage.Proofs.FormulaTerminals

/-!
# Formulas cut off at a token

A text that is cut off before one of its tokens, or at its end, goes on with a blank as if nothing
had been cut off: the tokens before the cut stay what they are (`Token.scanFrom_cut`). There is one
exception. A run that is spelled like a keyword is a name only where a letter follows that belongs
to no name, so with a blank behind it it is the keyword.
-/
namespace Passage.Formula

namespace Token

/-- The mark of a character that is neither blank nor part of a name. -/
def sign (c : Char) : Mark := if c = '(' then .opening else if c = ')' then .closing else .stray c

theorem scanFrom_sign {c : Char} (hblank : isBlank c = false) (hname : Text.isNameChar c = false)
    (offset : Nat) (rest : List Char) :
    scanFrom .between offset (c :: rest) =
      ⟨sign c, offset⟩ :: scanFrom .between (offset + 1) rest := by
  have hstep : step .between offset c = ([⟨sign c, offset⟩], .between) := by
    rw [step, first, if_neg (by simp [hblank]), sign]
    split
    · rfl
    · split
      · rfl
      · rw [if_neg (by simp [hname])]
  exact scanFrom_step hstep rest

theorem sign_ne_name (c : Char) (name : String) : sign c ≠ .name name := by
  unfold sign
  split
  · nofun
  · split <;> nofun

/-- A text is a row of blanks, of runs up to the last name character, and of single characters. -/
@[elab_as_elim]
theorem itemwise {motive : Nat → List Char → Prop}
    (nil : ∀ offset, motive offset [])
    (blank : ∀ offset c rest, isBlank c = true → motive (offset + 1) rest →
      motive offset (c :: rest))
    (run : ∀ offset chars rest, chars ≠ [] → chars.all Text.isNameChar = true →
      Passage.Token.Apart rest →
      motive (offset + chars.length) rest → motive offset (chars ++ rest))
    (sign : ∀ offset c rest, isBlank c = false → Text.isNameChar c = false →
      motive (offset + 1) rest → motive offset (c :: rest))
    (offset : Nat) (text : List Char) : motive offset text := by
  induction hlength : text.length using Nat.strongRecOn generalizing offset text with
  | ind length ih =>
    subst hlength
    cases text with
    | nil => exact nil offset
    | cons c rest =>
      cases hblank : isBlank c with
      | true => exact blank offset c rest hblank (ih _ (Nat.lt_succ_self _) _ _ rfl)
      | false =>
        cases hname : Text.isNameChar c with
        | false => exact sign offset c rest hblank hname (ih _ (Nat.lt_succ_self _) _ _ rfl)
        | true =>
          obtain ⟨chars, behind, hsplit, hne, hall, hapart⟩ := exists_run hname rest
          have hlength := congrArg List.length hsplit
          rw [List.length_append] at hlength
          have hpos := List.length_pos_iff.mpr hne
          rw [hsplit]
          exact run offset chars behind hne hall hapart (ih behind.length (by omega) _ _ rfl)

variable {text : List Char} {before behind : List Token} {token : Token} {offset place start : Nat}

/-- Tokens stand where they are scanned. -/
theorem le_offset_of_mem (h : token ∈ scanFrom .between offset text) : offset ≤ token.offset := by
  induction offset, text using itemwise with
  | nil offset => cases h
  | blank offset c rest hblank ih =>
    rw [scanFrom_blank hblank] at h
    exact Nat.le_of_succ_le (ih h)
  | run offset chars rest hne hchars hrest ih =>
    rw [scanFrom_run hne hchars hrest] at h
    rcases List.mem_cons.mp h with rfl | h
    · exact Nat.le_refl _
    · exact Nat.le_trans (Nat.le_add_right _ _) (ih h)
  | sign offset c rest hblank hname ih =>
    rw [scanFrom_sign hblank hname] at h
    rcases List.mem_cons.mp h with rfl | h
    · exact Nat.le_refl _
    · exact Nat.le_of_succ_le (ih h)

/-- The place behind some tokens: that of the next one, or the end of the text. -/
def placeOf (behind : List Token) (total : Nat) : Nat := (behind.head?.map Token.offset).getD total

theorem le_placeOf (h : scanFrom .between offset text = before ++ behind) :
    offset ≤ placeOf behind (offset + text.length) := by
  cases behind with
  | nil => exact Nat.le_add_right _ _
  | cons token later => exact le_offset_of_mem (h ▸ List.mem_append_right _ List.mem_cons_self)

end Token

/-- No name among the marks is spelled like a keyword. -/
def Distinct (marks : List Mark) : Prop := ∀ name, .name name ∈ marks → name ∉ keywords

namespace Token

variable {text : List Char} {before behind : List Token} {offset place : Nat}

theorem ofRun_eq_name {alone : Bool} {run name : String} (h : Mark.ofRun alone run = .name name) :
    run = name ∧ ¬(alone = true ∧ run ∈ keywords) := by
  have hnot : ¬(alone = true ∧ run ∈ keywords) :=
    Mark.terminal?_ofRun_iff.mp (show (Mark.ofRun alone run).terminal? = some .identifier by
      rw [h]; rfl)
  rw [Mark.ofRun_of_not hnot, Mark.name.injEq] at h
  exact ⟨h, hnot⟩

/-- A name that is spelled like a keyword has a stray right behind it: a word character that belongs
to no name. -/
theorem stray_of_keyword {token : Token} {name : String}
    (h : scanFrom .between offset text = before ++ token :: behind)
    (hname : token.mark = .name name) (hkeyword : name ∈ keywords) :
    ∃ c later, behind = ⟨.stray c, token.offset + name.length⟩ :: later ∧
      Text.isWordChar c = true ∧ Text.isNameChar c = false := by
  induction offset, text using itemwise generalizing before with
  | nil offset => simp [scanFrom, run, finish] at h
  | blank offset c rest hblank ih =>
    rw [scanFrom_blank hblank] at h
    exact ih h
  | sign offset c rest hblank hsign ih =>
    rw [scanFrom_sign hblank hsign] at h
    cases before with
    | nil =>
      obtain ⟨rfl, -⟩ := List.cons.inj h
      exact absurd hname (sign_ne_name c name)
    | cons first before => exact ih (List.cons.inj h).2
  | run offset chars rest hne hchars hrest ih =>
    rw [scanFrom_run hne hchars hrest] at h
    cases before with
    | cons first before => exact ih (List.cons.inj h).2
    | nil =>
      obtain ⟨rfl, hbehind⟩ := List.cons.inj h
      obtain ⟨rfl, hnot⟩ := ofRun_eq_name hname
      -- The run does not stand alone, so a word character follows that no name has.
      cases rest with
      | nil => exact absurd ⟨rfl, hkeyword⟩ hnot
      | cons c later =>
        have hword : Text.isWordChar c = true := by
          by_contra hword
          exact hnot ⟨by simpa [standsAlone] using hword, hkeyword⟩
        have hc : Text.isNameChar c = false := hrest c later rfl
        have hother (d : Char) (hd : Text.isWordChar d = false) : c ≠ d := by
          rintro rfl
          rw [hword] at hd
          cases hd
        have hblank : isBlank c = false := by
          simp [isBlank, hother ' ' (by decide), hother '\t' (by decide), hother '\n' (by decide),
            hother '\r' (by decide)]
        rw [scanFrom_stray hblank (hother '(' (by decide)) (hother ')' (by decide)) hc] at hbehind
        rw [← hbehind, ← String.length_toList, String.toList_ofList]
        exact ⟨c, _, rfl, hword, hc⟩

/-- A run that is not mistaken for a keyword is the same where it stands alone. -/
theorem ofRun_alone {alone alone' : Bool} {run : String} (h : alone = true → alone' = true)
    (hdistinct : ∀ name, Mark.ofRun alone run = .name name → name ∉ keywords) :
    Mark.ofRun alone' run = Mark.ofRun alone run := by
  by_cases hkeyword : run ∈ keywords
  · have halone : alone = true := by
      cases alone with
      | true => rfl
      | false => exact absurd hkeyword (hdistinct run rfl)
    rw [h halone, halone]
  · rw [Mark.ofRun_of_not fun hword => hkeyword hword.2, Mark.ofRun_of_not fun hword =>
      hkeyword hword.2]

theorem apart_take {later : List Char} (h : Passage.Token.Apart later) (length : Nat)
    (rest : List Char) : Passage.Token.Apart (later.take length ++ ' ' :: rest) := by
  cases length with
  | zero => exact Passage.Token.apart_cons (by decide) rest
  | succ length =>
    cases later with
    | nil => exact Passage.Token.apart_cons (by decide) rest
    | cons c later => exact Passage.Token.apart_cons (h c later rfl) _

theorem standsAlone_take {later : List Char} (h : standsAlone later = true) (length : Nat)
    (rest : List Char) : standsAlone (later.take length ++ ' ' :: rest) = true := by
  have hblank : standsAlone (' ' :: rest) = true := by
    show (!Text.isWordChar ' ') = true
    decide
  cases length with
  | zero => exact hblank
  | succ length =>
    cases later with
    | nil => exact hblank
    | cons c later => exact h

/-- What is scanned before a cut is what was there, and then the text goes on behind a blank. -/
theorem scanFrom_cut (h : scanFrom .between offset text = before ++ behind)
    (hplace : placeOf behind (offset + text.length) = place)
    (hdistinct : Distinct (before.map Token.mark)) (rest : List Char) :
    scanFrom .between offset (text.take (place - offset) ++ ' ' :: rest) =
      before ++ scanFrom .between (place + 1) rest := by
  -- At a cut right here, nothing is left of the text.
  have hhere {offset : Nat} {text : List Char} : scanFrom .between offset
    (text.take (offset - offset) ++ ' ' :: rest) =
      scanFrom .between (offset + 1) rest := by
    rw [Nat.sub_self, List.take_zero, List.nil_append]
    exact scanFrom_blank (by decide) offset rest
  induction offset, text using itemwise generalizing before with
  | nil offset =>
    obtain ⟨rfl, rfl⟩ := List.append_eq_nil_iff.mp h.symm
    subst hplace
    exact hhere
  | blank offset c later hblank ih =>
    rw [scanFrom_blank hblank] at h
    have hlength : offset + 1 + later.length = offset + (c :: later).length := by
      rw [List.length_cons]
      omega
    rw [← hlength] at hplace
    have hle := le_placeOf h
    rw [hplace] at hle
    have hsub : place - offset = place - (offset + 1) + 1 := by omega
    rw [hsub, List.take_succ_cons, List.cons_append, scanFrom_blank hblank]
    exact ih h hplace hdistinct
  | sign offset c later hblank hsign ih =>
    rw [scanFrom_sign hblank hsign] at h
    cases before with
    | nil =>
      rw [List.nil_append] at h
      subst h hplace
      exact hhere
    | cons first before =>
      obtain ⟨rfl, hbehind⟩ := List.cons.inj h
      have hlength : offset + 1 + later.length = offset + (c :: later).length := by
        rw [List.length_cons]
        omega
      rw [← hlength] at hplace
      have hle := le_placeOf hbehind
      rw [hplace] at hle
      have hsub : place - offset = place - (offset + 1) + 1 := by omega
      rw [hsub, List.take_succ_cons, List.cons_append, scanFrom_sign hblank hsign,
        ih hbehind hplace fun name hmem => hdistinct name (List.mem_cons_of_mem _ hmem)]
      rfl
  | run offset chars later hne hchars hlater ih =>
    rw [scanFrom_run hne hchars hlater] at h
    cases before with
    | nil =>
      rw [List.nil_append] at h
      subst h hplace
      exact hhere
    | cons first before =>
      obtain ⟨rfl, hbehind⟩ := List.cons.inj h
      rw [List.length_append, ← Nat.add_assoc] at hplace
      have hle := le_placeOf hbehind
      rw [hplace] at hle
      have htake : (chars ++ later).take (place - offset) =
          chars ++ later.take (place - (offset + chars.length)) := by
        rw [List.take_append, List.take_of_length_le (by omega), Nat.sub_sub]
      have halone := ofRun_alone (fun h =>
        standsAlone_take h (place - (offset + chars.length)) rest)
        fun name hname => hdistinct name (hname ▸ List.mem_cons_self)
      rw [htake, List.append_assoc, scanFrom_run hne hchars (apart_take hlater _ rest), halone,
        ih hbehind hplace fun name hmem => hdistinct name (List.mem_cons_of_mem _ hmem)]
      rfl

end Token

end Passage.Formula
