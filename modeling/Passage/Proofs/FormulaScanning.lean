import Passage.Formula.Trial
import Passage.Proofs.FormulaGrammar
import Passage.Proofs.Tiling

/-!
# Scanning formulas item by item

From outside, the scanner of formulas skips blanks and takes a parenthesis, a run of name characters
up to the last one, or a stray character, each at the offset where it starts. Only a run looks at
what follows it: a run that no word character follows stands alone.
-/
namespace Passage.Formula

namespace Token

/-- Scans from an item under way to the end. -/
def scanFrom (mode : Mode) (offset : Nat) (text : List Char) : List Token :=
  (run mode offset text).1 ++ finish (run mode offset text).2

theorem scan_eq_scanFrom (text : String) : scan text = scanFrom .between 0 text.toList := rfl

theorem scanFrom_cons (mode : Mode) (offset : Nat) (c : Char) (rest : List Char) :
    scanFrom mode offset (c :: rest) =
      (step mode offset c).1 ++ scanFrom (step mode offset c).2 (offset + 1) rest :=
  List.append_assoc _ _ _

theorem scanFrom_step {mode next : Mode} {offset : Nat} {c : Char} {found : List Token}
    (h : step mode offset c = (found, next)) (rest : List Char) :
    scanFrom mode offset (c :: rest) = found ++ scanFrom next (offset + 1) rest := by
  rw [scanFrom_cons, h]

variable {rest : List Char}

theorem scanFrom_blank {c : Char} (h : isBlank c = true) (offset : Nat) (rest : List Char) :
    scanFrom .between offset (c :: rest) = scanFrom .between (offset + 1) rest := by
  have hstep : step .between offset c = ([], .between) := by rw [step, first, if_pos h]
  exact scanFrom_step hstep rest

/-- A run goes on to the last name character. -/
theorem scanFrom_inRun {chars : List Char} (hchars : chars.all Text.isNameChar = true)
    (hrest : Passage.Token.Apart rest) (start offset : Nat) (heard : List Char) :
    scanFrom (.inRun start heard) offset (chars ++ rest) =
      ofRun (standsAlone rest) start (chars.reverse ++ heard) ::
        scanFrom .between (offset + chars.length) rest := by
  induction chars generalizing offset heard with
  | nil =>
    cases rest with
    | nil => rfl
    | cons c rest =>
      have hstep : step (.inRun start heard) offset c =
          (ofRun (!Text.isWordChar c) start heard :: (first offset c).1, (first offset c).2) := by
        rw [step, if_neg (by simp [hrest c rest rfl])]
      rw [List.nil_append, scanFrom_step hstep, scanFrom_cons]
      rfl
  | cons c chars ih =>
    rw [List.all_cons, Bool.and_eq_true] at hchars
    have hstep : step (.inRun start heard) offset c = ([], .inRun start (c :: heard)) :=
      if_pos hchars.1
    have hlength : offset + 1 + chars.length = offset + (c :: chars).length := by
      rw [List.length_cons]
      omega
    rw [List.cons_append, scanFrom_step hstep, ih hchars.2, hlength, List.nil_append,
      List.reverse_cons, List.append_assoc, List.singleton_append]

theorem first_of_isNameChar {c : Char} (h : Text.isNameChar c = true) (offset : Nat) :
    first offset c = ([], .inRun offset [c]) := by
  have hne (d : Char) (hd : Text.isNameChar d = false) : c ≠ d :=
    Passage.Token.ne_of_isNameChar h hd
  have hblank : ¬isBlank c = true := by
    simp [isBlank, hne ' ' rfl, hne '\t' rfl, hne '\n' rfl, hne '\r' rfl]
  rw [first, if_neg hblank, if_neg (hne '(' rfl), if_neg (hne ')' rfl), if_pos h]

theorem scanFrom_run {chars : List Char} (hne : chars ≠ [])
    (hchars : chars.all Text.isNameChar = true) (hrest : Passage.Token.Apart rest) (offset : Nat) :
    scanFrom .between offset (chars ++ rest) =
      ⟨.ofRun (standsAlone rest) (String.ofList chars), offset⟩ ::
        scanFrom .between (offset + chars.length) rest := by
  obtain ⟨c, later, rfl⟩ := List.exists_cons_of_ne_nil hne
  have hall := hchars
  rw [List.all_cons, Bool.and_eq_true] at hall
  have hstep : step .between offset c = ([], .inRun offset [c]) := first_of_isNameChar hall.1 offset
  have hlength : offset + 1 + later.length = offset + (c :: later).length := by
    rw [List.length_cons]
    omega
  rw [List.cons_append, scanFrom_step hstep, scanFrom_inRun hall.2 hrest, hlength, ofRun,
    List.reverse_append, List.reverse_reverse]
  rfl

/-- A name character begins a run up to the last name character. -/
theorem exists_run {c : Char} (h : Text.isNameChar c = true) (rest : List Char) :
    ∃ chars behind, c :: rest = chars ++ behind ∧ chars ≠ [] ∧ chars.all Text.isNameChar = true ∧
      Passage.Token.Apart behind := by
  refine ⟨(c :: rest).takeWhile Text.isNameChar, (c :: rest).dropWhile Text.isNameChar,
    List.takeWhile_append_dropWhile.symm, ?_, ?_, Passage.Token.apart_dropWhile _⟩
  · rw [List.takeWhile_cons_of_pos h]
    exact List.cons_ne_nil _ _
  · exact List.all_eq_true.mpr fun d hd => List.mem_takeWhile_imp hd

theorem scanFrom_stray {c : Char} (hblank : isBlank c = false) (hopening : c ≠ '(')
    (hclosing : c ≠ ')') (hname : Text.isNameChar c = false) (offset : Nat) (rest : List Char) :
    scanFrom .between offset (c :: rest) =
      ⟨.stray c, offset⟩ :: scanFrom .between (offset + 1) rest := by
  have hstep : step .between offset c = ([⟨.stray c, offset⟩], .between) := by
    rw [step, first, if_neg (by simp [hblank]), if_neg hopening, if_neg hclosing,
      if_neg (by simp [hname])]
  exact scanFrom_step hstep rest

end Token

end Passage.Formula
