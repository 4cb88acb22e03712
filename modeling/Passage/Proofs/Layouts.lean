import Mathlib.Data.List.Chain
import Passage.Proofs.Tiling
import Passage.Proofs.Writing

/-!
# Layouts

A layout writes symbols down, with blanks before each of them and behind the last one. Blanks may be
left out everywhere but between two runs of name characters, which would be one run without them
(`Layout.apart`). A text that is written in this way is scanned to the same symbols, each at the
place where it was written. So what a text is read as depends on its symbols alone and not on their
layout.
-/
namespace Passage

namespace Symbol

/-- A symbol that a text can hold: a name is no keyword, the text between two quotes holds none, and
the end mark is no part of the text. -/
def Writable : Symbol → Prop
  | name s => Expr.IsName s
  | text s => '\x22' ∉ s.toList
  | ending => False
  | opening | closing | comma | equal | and | or | bool _ => True

instance : DecidablePred Writable
  | name s => inferInstanceAs (Decidable (Expr.IsName s))
  | text s => inferInstanceAs (Decidable ('\x22' ∉ s.toList))
  | ending => .isFalse id
  | opening | closing | comma | equal | and | or | bool _ => .isTrue trivial

/-- Keywords and names. -/
def isRun : Symbol → Bool
  | and | or | bool _ | name _ => true
  | opening | closing | comma | equal | text _ | ending => false

/-- The characters of a symbol in a text, quotes included. -/
def written : Symbol → List Char
  | text s => '\x22' :: s.toList ++ ['\x22']
  | symbol => symbol.spelling.toList

end Symbol

namespace Token

variable {symbol : Symbol} {rest : List Char}

/-- What is written for a symbol is an item that says this symbol. Only a run needs an end. -/
theorem exists_item_of_writable (h : symbol.Writable) : ∃ item : Item, item.chars = symbol.written ∧
    item.symbol? = some symbol ∧ ∀ rest, (symbol.isRun = true → Apart rest) → item.Ends rest := by
  have hrun {s : String} (hsymbol : Symbol.ofRun s = symbol) (hwritten : symbol.written = s.toList)
      (hisRun : symbol.isRun = true) (hne : s.toList ≠
        []) (hall : s.toList.all Text.isNameChar = true) :
      ∃ item : Item, item.chars = symbol.written ∧ item.symbol? = some symbol ∧
        ∀ rest, (symbol.isRun = true → Apart rest) → item.Ends rest := by
    refine ⟨.run s.toList hne hall, hwritten.symm, ?_, fun rest hrest => hrest hisRun⟩
    rw [Item.symbol?_run, String.ofList_toList, hsymbol]
  cases symbol with
  | opening => exact ⟨.opening, rfl, rfl, fun _ _ => trivial⟩
  | closing => exact ⟨.closing, rfl, rfl, fun _ _ => trivial⟩
  | comma => exact ⟨.comma, rfl, rfl, fun _ _ => trivial⟩
  | equal => exact ⟨.equal, rfl, rfl, fun _ _ => trivial⟩
  | and => exact hrun (s := "AND") rfl rfl rfl (by decide) (by decide)
  | or => exact hrun (s := "OR") rfl rfl rfl (by decide) (by decide)
  | bool b =>
    cases b with
    | true => exact hrun (s := "TRUE") rfl rfl rfl (by decide) (by decide)
    | false => exact hrun (s := "FALSE") rfl rfl rfl (by decide) (by decide)
  | text s =>
    have hsymbol : (Item.quoted s.toList h).symbol? = some (.text (String.ofList s.toList)) := rfl
    rw [String.ofList_toList] at hsymbol
    exact ⟨.quoted s.toList h, rfl, hsymbol, fun _ _ => trivial⟩
  | name s =>
    have hne : s.toList ≠ [] := fun hnil => h.1 (String.toList_inj.mp hnil)
    exact hrun (Expr.ofRun_of_isName h) rfl rfl hne h.2.1
  | ending => exact h.elim

theorem scanFrom_written (h : symbol.Writable) (hrest : symbol.isRun = true → Apart rest)
    (position : Nat) : scanFrom .between position (symbol.written ++ rest) = do
      let later ← scanFrom .between (position + symbol.written.length) rest
      return ⟨symbol, position⟩ :: later := by
  obtain ⟨item, hchars, hsymbol, hends⟩ := exists_item_of_writable h
  have htokens : item.tokens position = [⟨symbol, position⟩] := by
    rw [Item.tokens, hsymbol]
    rfl
  rw [← hchars, scanFrom_item item (hends rest hrest), htokens]
  rfl

theorem scanFrom_gap {gap : List Char} (h : gap.all isBlank = true) (position : Nat) :
    scanFrom .between position (gap ++ rest) = scanFrom .between (position + gap.length) rest := by
  induction gap generalizing position with
  | nil => rfl
  | cons c gap ih =>
    rw [List.all_cons, Bool.and_eq_true] at h
    have hstep : step .between position c = .ok ([], .between) := by
      rw [step, first, if_pos h.1]
    rw [List.cons_append, scanFrom_silent hstep, ih h.2, List.length_cons]
    congr 1
    omega

theorem apart_gap {gap : List Char} (h : gap.all isBlank = true) (hrest : gap = [] → Apart rest) :
    Apart (gap ++ rest) := by
  cases gap with
  | nil => exact hrest rfl
  | cons c gap =>
    rw [List.all_cons, Bool.and_eq_true] at h
    exact apart_cons (isNameChar_of_isBlank h.1) _

/-- A sign or a text does not go on with a run before it. -/
theorem apart_written (h : symbol.Writable) (hrun : symbol.isRun = false) :
    Apart (symbol.written ++ rest) := by
  cases symbol with
  | opening | closing | comma | equal | text _ => exact apart_cons rfl _
  | and | or | bool _ | name _ => cases hrun
  | ending => exact h.elim

end Token

/-- A symbol with the blanks before it. -/
structure Piece where
  gap : List Char
  blank : gap.all Token.isBlank = true
  symbol : Symbol
  writable : symbol.Writable

def Piece.chars (piece : Piece) : List Char := piece.gap ++ piece.symbol.written

/-- Two runs side by side have a blank between them. -/
def Piece.IsApart (piece next : Piece) : Prop :=
  piece.symbol.isRun = true → next.symbol.isRun = true → next.gap ≠ []

instance (piece next : Piece) : Decidable (piece.IsApart next) :=
  inferInstanceAs (Decidable (_ → _ → _))

/-- Symbols with the blanks between them. -/
structure Layout where
  pieces : List Piece
  apart : pieces.IsChain Piece.IsApart
  /-- The blanks behind the last symbol. -/
  rear : List Char
  blank : rear.all Token.isBlank = true

namespace Layout

def chars (pieces : List Piece) (rear : List Char) : List Char := pieces.flatMap Piece.chars ++ rear

def text (layout : Layout) : String := String.ofList (chars layout.pieces layout.rear)

def symbols (layout : Layout) : List Symbol := layout.pieces.map Piece.symbol

/-- The symbols with the places of their first characters, if the writing starts at a place. -/
def tokensFrom (position : Nat) : List Piece → List Token
  | [] => []
  | piece :: pieces =>
    ⟨piece.symbol, position + piece.gap.length⟩ :: tokensFrom (position + piece.chars.length) pieces

def tokens (layout : Layout) : List Token := tokensFrom 1 layout.pieces

variable {pieces : List Piece} {rear : List Char}

theorem chars_cons (piece : Piece) (pieces : List Piece) (rear : List Char) :
    chars (piece :: pieces) rear = piece.gap ++ (piece.symbol.written ++ chars pieces rear) := by
  simp [chars, Piece.chars]

/-- Behind a run, the writing goes on with a blank, with a sign or a text, or not at all. -/
theorem apart_chars {piece : Piece} (hrun : piece.symbol.isRun = true)
    (hapart : (piece :: pieces).IsChain Piece.IsApart)
    (hrear : rear.all Token.isBlank = true) : Token.Apart (chars pieces rear) := by
  cases pieces with
  | nil =>
    have hend := Token.apart_gap hrear fun _ => Token.apart_nil
    rwa [List.append_nil] at hend
  | cons next pieces =>
    rw [chars_cons]
    refine Token.apart_gap next.blank fun hgap => Token.apart_written next.writable ?_
    exact Bool.eq_false_iff.mpr fun hnext => (List.isChain_cons_cons.mp hapart).1 hrun hnext hgap

/-- What is written down piece by piece is scanned piece by piece. -/
theorem scanFrom_chars (hapart : pieces.IsChain Piece.IsApart)
    (hrear : rear.all Token.isBlank = true) (position : Nat) :
    Token.scanFrom .between position (chars pieces rear) = .ok (tokensFrom position pieces) := by
  induction pieces generalizing position with
  | nil =>
    show Token.scanFrom .between position rear = .ok []
    rw [← List.append_nil rear, Token.scanFrom_gap hrear]
    rfl
  | cons piece pieces ih =>
    have hlength : position + piece.gap.length + piece.symbol.written.length =
        position + piece.chars.length := by
      rw [Piece.chars, List.length_append]
      omega
    rw [chars_cons, Token.scanFrom_gap piece.blank,
      Token.scanFrom_written piece.writable fun hrun => apart_chars hrun hapart hrear, hlength,
      ih hapart.of_cons]
    rfl

theorem scan_text (layout : Layout) : Token.scan layout.text = .ok layout.tokens := by
  rw [Token.scan_eq_scanFrom, text, String.toList_ofList]
  exact scanFrom_chars layout.apart layout.blank 1

theorem symbols_tokensFrom (position : Nat) (pieces : List Piece) :
    (tokensFrom position pieces).map Token.symbol = pieces.map Piece.symbol := by
  induction pieces generalizing position with
  | nil => rfl
  | cons piece pieces ih => rw [tokensFrom, List.map_cons, ih, List.map_cons]

theorem symbols_tokens (layout : Layout) : layout.tokens.map Token.symbol = layout.symbols :=
  symbols_tokensFrom 1 layout.pieces

/-- A symbol has the place behind all that is written before it. -/
theorem getElem?_tokensFrom (position : Nat) (front back : List Piece) (piece : Piece) :
    (tokensFrom position (front ++ piece :: back))[front.length]? =
      some ⟨piece.symbol, position + (front.flatMap Piece.chars ++ piece.gap).length⟩ := by
  induction front generalizing position with
  | nil => rfl
  | cons first front ih =>
    have hlength : position + first.chars.length + (front.flatMap Piece.chars ++ piece.gap).length =
        position + ((first :: front).flatMap Piece.chars ++ piece.gap).length := by
      simp only [List.flatMap_cons, List.length_append]
      omega
    rw [List.cons_append, tokensFrom, List.length_cons, List.getElem?_cons_succ, ih, hlength]

end Layout

/-- A complaint about the place from which on so many tokens are left is one about the first of
these. -/
theorem RuleText.exists_positionOf (text : String) {tokens : List Token} {left : Nat}
    (h : left ≤ tokens.length) :
    ∃ token, (tokens ++ [Token.endOf text])[tokens.length - left]? = some token ∧
      positionOf text tokens left = token.position := by
  unfold positionOf
  split
  · rename_i token later hdrop
    have hfound : tokens[tokens.length - left]? = some token := by
      rw [← Nat.add_zero (tokens.length - left), ← List.getElem?_drop, hdrop]
      rfl
    have hlt := (List.getElem?_eq_some_iff.mp hfound).1
    exact ⟨token, by rw [List.getElem?_append_left hlt, hfound], rfl⟩
  · rename_i hdrop
    have hall := List.drop_eq_nil_iff.mp hdrop
    have hend : tokens.length - left = tokens.length := by omega
    exact ⟨Token.endOf text, by rw [hend, List.getElem?_concat_length], rfl⟩

namespace Layout

variable {layout : Layout} {allowTrailing : Bool}

theorem expr_of_ok {e : Expr} (h : Expr.ofSymbols allowTrailing layout.symbols = .ok e) :
    RuleText.expr ⟨layout.text, allowTrailing⟩ = .ok e := by
  refine RuleText.expr_eq_ok.mpr ⟨layout.tokens, layout.scan_text, ?_⟩
  rw [layout.symbols_tokens]
  exact h

theorem expr_of_error {refusal : Reading.Refusal}
    (h : Expr.ofSymbols allowTrailing layout.symbols = .error refusal) :
    ∃ token, (layout.tokens ++ [Token.endOf layout.text])[layout.symbols.length -
      refusal.rest.length]? =
        some token ∧
      RuleText.expr ⟨layout.text, allowTrailing⟩ =
        .error (.grammar refusal.complaint token.position layout.text) := by
  have hlength : layout.tokens.length = layout.symbols.length := by
    rw [← layout.symbols_tokens, List.length_map]
  have hleft : refusal.rest.length ≤ layout.tokens.length := by
    rw [hlength]
    exact (Expr.suffix_of_ofSymbols_error h).length_le
  obtain ⟨token, hfound, hposition⟩ := RuleText.exists_positionOf layout.text hleft
  refine ⟨token, hlength ▸ hfound, ?_⟩
  unfold RuleText.expr
  simp only [layout.scan_text, layout.symbols_tokens, h, hposition]

end Layout

/-- What is written down is read back. The text of a layout is listed as the symbols that were
written, each at the place where its first character stands, and the end mark. Two layouts of the
same symbols are read as the same expression, or refused with the same complaint about the same
symbol. -/
theorem layouts_read_back :
    (∀ layout : Layout,
      Token.listing layout.text = .ok (layout.tokens ++ [Token.endOf layout.text]) ∧
      layout.tokens.map Token.symbol = layout.symbols ∧
      ∀ front piece back, layout.pieces = front ++ piece :: back →
        layout.tokens[front.length]? =
          some ⟨piece.symbol, 1 + (front.flatMap Piece.chars ++ piece.gap).length⟩) ∧
    ∀ layout layout' : Layout, layout.symbols = layout'.symbols → ∀ allowTrailing,
      (∃ e, RuleText.expr ⟨layout.text, allowTrailing⟩ = .ok e ∧
        RuleText.expr ⟨layout'.text, allowTrailing⟩ = .ok e) ∨
      ∃ (complaint : Complaint) (index : Nat) (token token' : Token),
        (layout.tokens ++ [Token.endOf layout.text])[index]? = some token ∧
        (layout'.tokens ++ [Token.endOf layout'.text])[index]? = some token' ∧
        RuleText.expr ⟨layout.text, allowTrailing⟩ =
          .error (.grammar complaint token.position layout.text) ∧
        RuleText.expr ⟨layout'.text, allowTrailing⟩ =
          .error (.grammar complaint token'.position layout'.text) := by
  refine ⟨fun layout => ⟨?_, layout.symbols_tokens, fun front piece back h => ?_⟩, ?_⟩
  · rw [Token.listing, layout.scan_text]
    rfl
  · rw [Layout.tokens, h]
    exact Layout.getElem?_tokensFrom 1 front back piece
  · intro layout layout' h allowTrailing
    cases hread : Expr.ofSymbols allowTrailing layout.symbols with
    | ok e => exact .inl ⟨e, Layout.expr_of_ok hread, Layout.expr_of_ok (h ▸ hread)⟩
    | error refusal =>
      obtain ⟨token, hfound, hexpr⟩ := Layout.expr_of_error hread
      obtain ⟨token', hfound', hexpr'⟩ := Layout.expr_of_error (h ▸ hread)
      rw [← h] at hfound'
      exact .inr ⟨refusal.complaint, _, token, token', hfound, hfound', hexpr, hexpr'⟩

/-- Nothing stands between symbols that are no runs, and the blanks in a text are its own. With a
blank at every other place the same symbols are read as the same expression. -/
theorem layouts_read_back_crowded :
    let piece (gap : String) (symbol : Symbol) (hgap : gap.toList.all Token.isBlank = true)
        (hsymbol : symbol.Writable) : Piece := ⟨gap.toList, hgap, symbol, hsymbol⟩
    let write (gap : String) (hgap : gap.toList.all Token.isBlank = true) : List Piece :=
      [piece gap (.name "ORB") hgap (by decide), piece gap .opening hgap trivial,
        piece gap (.text " a  b") hgap (by decide), piece gap .equal hgap trivial,
        piece gap (.text "") hgap (by decide), piece gap .comma hgap trivial,
        piece gap (.bool true) hgap trivial, piece " " .or rfl trivial,
        piece "\t\n" (.name "x") rfl (by decide), piece gap .closing hgap trivial]
    let crowded : Layout := ⟨write "" rfl, by decide, [], rfl⟩
    let loose : Layout := ⟨write " \r" rfl, by decide, [' '], rfl⟩
    crowded.text = "ORB(\" a  b\"==\"\",TRUE OR\t\nx)" ∧
    Token.listing crowded.text = .ok (crowded.tokens ++ [⟨.ending, 28⟩]) ∧
    crowded.tokens.map Token.position = [1, 4, 5, 12, 14, 16, 17, 22, 26, 27] ∧
    RuleText.expr ⟨loose.text, false⟩ = .ok (.call (.var "ORB") (.binary .sequence
      (.binary .equal (.text " a  b") (.text "")) (.binary .or (.bool true) (.var "x")))) := by
  intro piece write crowded loose
  have hread : RuleText.expr ⟨crowded.text, false⟩ = .ok (.call (.var "ORB") (.binary .sequence
      (.binary .equal (.text " a  b") (.text "")) (.binary .or (.bool true) (.var "x")))) := by
    decide +kernel
  have hend : Token.endOf crowded.text = ⟨.ending, 28⟩ := by decide +kernel
  refine ⟨by decide +kernel, hend ▸ (layouts_read_back.1 crowded).1, by decide +kernel, ?_⟩
  rcases layouts_read_back.2 crowded loose rfl false with ⟨e, he, he'⟩ | ⟨_, _, _, _, _, _, he, _⟩
  · rw [hread] at he
    rw [he', he]
  · rw [hread] at he
    cases he

end Passage
