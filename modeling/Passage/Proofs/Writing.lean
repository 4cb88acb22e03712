import Passage.Proofs.Grammar
import Passage.Proofs.Scanning

/-!
# What is written can be read

A written expression, read again, is the same expression, if nothing in it is lost by writing: names
are no keywords, texts hold no quote, and comma chains stand only where the written form has no need
of parentheses (`Expr.Canonical`). The symbols of a piece of text depend on what follows it only if
it ends in a name; `Spells` leaves the position open, so that pieces can be joined from the last one
to the first one.
-/
namespace Passage

namespace Token

/-- From any position on, the text consists of tokens with these symbols. -/
def Spells (text : List Char) (symbols : List Symbol) : Prop :=
  ∀ position, ∃ tokens, scanFrom .between position text = .ok tokens ∧
    tokens.map Token.symbol = symbols

/-- The text is scanned to these symbols whatever follows, unless that goes on with a name
character. -/
def Heads (text : List Char) (symbols : List Symbol) : Prop :=
  ∀ rest later, Apart rest → Spells rest later → Spells (text ++ rest) (symbols ++ later)

variable {rest : List Char} {symbols : List Symbol}

theorem spells_nil : Spells [] [] := fun _ => ⟨[], rfl, rfl⟩

/-- The symbol of an item comes before those of the rest. -/
theorem Spells.item (h : Spells rest symbols) (item : Item) (hends : item.Ends rest) :
    Spells (item.chars ++ rest) (item.symbol?.toList ++ symbols) := by
  intro position
  obtain ⟨later, hrest, rfl⟩ := h (position + item.chars.length)
  refine ⟨item.tokens position ++ later, ?_, ?_⟩
  · rw [scanFrom_item item hends, hrest]
    rfl
  · rw [List.map_append, Item.tokens]
    cases item.symbol? <;> rfl

theorem Spells.blank (h : Spells rest symbols) : Spells (' ' :: rest) symbols :=
  h.item (.blank ' ' rfl) trivial

theorem Spells.opening (h : Spells rest symbols) : Spells ('(' :: rest) (.opening :: symbols) :=
  h.item .opening trivial

theorem Spells.closing (h : Spells rest symbols) : Spells (')' :: rest) (.closing :: symbols) :=
  h.item .closing trivial

theorem Spells.comma (h : Spells rest symbols) : Spells (',' :: rest) (.comma :: symbols) :=
  h.item .comma trivial

theorem Spells.equal (h : Spells rest symbols) : Spells ('=' :: '=' :: rest) (.equal :: symbols) :=
  h.item .equal trivial

theorem Spells.text (h : Spells rest symbols) {s : String} (hs : '\x22' ∉ s.toList) :
    Spells ('\x22' :: (s.toList ++ '\x22' :: rest)) (.text s :: symbols) := by
  have hitem := h.item (.quoted s.toList hs) trivial
  simpa [Item.chars, Item.symbol?, String.ofList_toList] using hitem

/-- A run of name characters is a symbol, if it ends there. -/
theorem Spells.word (h : Spells rest symbols) (hrest : Apart rest) {s : String} {symbol : Symbol}
    (hsymbol : .ofRun s = symbol) (hempty : s.toList ≠ [])
    (hchars : s.toList.all Text.isNameChar = true) :
    Spells (s.toList ++ rest) (symbol :: symbols) := by
  subst hsymbol
  have hitem := h.item (.run s.toList hempty hchars) hrest
  rwa [Item.symbol?_run, String.ofList_toList] at hitem

end Token

namespace Expr

def isSequence : Expr → Bool
  | binary .sequence _ _ => true
  | _ => false

def isCall : Expr → Bool
  | call _ _ => true
  | _ => false

/-- A run of name characters that is no keyword. -/
def IsName (name : String) : Prop :=
  name ≠ "" ∧ name.toList.all Text.isNameChar = true ∧ name ∉ ["AND", "OR", "TRUE", "FALSE"]

instance (name : String) : Decidable (IsName name) := inferInstanceAs (Decidable (_ ∧ _ ∧ _))

/-- The expressions, other than the empty one, that keep their shape when they are written. -/
inductive Writable : Expr → Prop
  | bool (b : Bool) : Writable (.bool b)
  | text {s : String} : '\x22' ∉ s.toList → Writable (.text s)
  | var {name : String} : IsName name → Writable (.var name)
  | callAlone {callee : Expr} :
    Writable callee → callee.isSequence = false → callee.isCall = false →
      Writable (.call callee .empty)
  | call {callee args : Expr} :
    Writable callee → callee.isSequence = false → callee.isCall = false →
      Writable args → Writable (.call callee args)
  | join {op : BinaryOp} {lhs rhs : Expr} : op ≠ .sequence → Writable lhs → lhs.isSequence = false →
      Writable rhs → rhs.isSequence = false → Writable (.binary op lhs rhs)
  | sequence {lhs rhs : Expr} : Writable lhs → lhs.isSequence = false → Writable rhs →
      Writable (.binary .sequence lhs rhs)

/-- The whole of what is written may be empty. -/
def Canonical (e : Expr) : Prop := e = .empty ∨ e.Writable

theorem Writable.ne_empty {e : Expr} (h : e.Writable) : e ≠ .empty := by
  rintro rfl
  cases h

/-- The level at which the written form of an expression is derived. -/
def level : Expr → Reading.Level
  | binary .sequence _ _ => .whole
  | call _ _ => .call
  | _ => .term

open Reading in
theorem derives_whole {e : Expr} {symbols : List Symbol} (h : Derives e.level symbols e) :
    Derives .whole symbols e := by
  unfold level at h
  split at h
  · exact h
  · exact h.ofCall .sequence
  · exact (Derives.term h).ofCall .sequence

open Reading in
theorem derives_call {e : Expr} {symbols : List Symbol} (h : Derives e.level symbols e)
    (hsequence : e.isSequence = false) : Derives .call symbols e := by
  unfold level at h
  split at h
  · cases hsequence
  · exact h
  · exact .term h

open Reading in
theorem derives_term {e : Expr} {symbols : List Symbol} (h : Derives e.level symbols e)
    (hsequence : e.isSequence = false) (hcall : e.isCall = false) : Derives .term symbols e := by
  unfold level at h
  split at h
  · cases hsequence
  · cases hcall
  · exact h

theorem ofRun_of_isName {name : String} (h : IsName name) : Symbol.ofRun name = .name name := by
  obtain ⟨_, _, hkeyword⟩ := h
  simp only [List.mem_cons, List.not_mem_nil, or_false, not_or] at hkeyword
  simp [Symbol.ofRun, hkeyword]

/-- The written form of an expression is scanned to these symbols, whatever follows, unless that
goes on with a name character. -/
def WritesTo (e : Expr) (symbols : List Symbol) : Prop :=
  ∀ rest later, Token.Apart rest → Token.Spells rest later →
    Token.Spells (e.render.toList ++ rest) (symbols ++ later)

theorem writesTo_empty : WritesTo .empty [] := fun _ _ _ h => h

theorem writesTo_bool (b : Bool) : WritesTo (.bool b) [.bool b] := by
  intro rest later hrest h
  cases b with
  | true => exact h.word hrest (by decide) (by decide) (by decide)
  | false => exact h.word hrest (by decide) (by decide) (by decide)

theorem writesTo_text {s : String} (hs : '\x22' ∉ s.toList) : WritesTo (.text s) [.text s] := by
  intro rest later _ h
  have htext : (Expr.text s).render.toList ++ rest = '\x22' :: (s.toList ++ '\x22' :: rest) := by
    simp [render]
  rw [htext]
  exact h.text hs

theorem writesTo_var {name : String} (h : IsName name) : WritesTo (.var name) [.name name] := by
  intro rest later hrest hlater
  have hempty : name.toList ≠ [] := fun hnil => h.1 (String.toList_inj.mp hnil)
  exact hlater.word hrest (ofRun_of_isName h) hempty h.2.1

theorem spells_operator {op : BinaryOp} (hop : op ≠ .sequence) {rest : List Char}
    {later : List Symbol} (hrest : Token.Apart rest) (h : Token.Spells rest later) :
    Token.Spells (op.symbol.toList ++ rest) (op.mark :: later) := by
  cases op with
  | sequence => exact absurd rfl hop
  | or => exact h.word hrest (by decide) (by decide) (by decide)
  | and => exact h.word hrest (by decide) (by decide) (by decide)
  | equal => exact h.equal

variable {e callee args lhs rhs : Expr} {op : BinaryOp} {front inner left right : List Symbol}

theorem WritesTo.call (hcallee : callee.WritesTo front) (hargs : args.WritesTo inner) :
    (Expr.call callee args).WritesTo (front ++ .opening :: inner ++ [.closing]) := by
  intro rest later _ h
  have htext : (Expr.call callee args).render.toList ++ rest =
      callee.render.toList ++ '(' :: (args.render.toList ++ ')' :: rest) := by
    simp [render]
  have hsymbols : front ++ .opening :: inner ++ [.closing] ++ later =
      front ++ .opening :: (inner ++ .closing :: later) := by simp
  rw [htext, hsymbols]
  refine hcallee _ _ (Token.apart_cons rfl _) (Token.Spells.opening ?_)
  exact hargs _ _ (Token.apart_cons rfl _) h.closing

theorem WritesTo.join (hop : op ≠ .sequence) (hlhs : lhs.WritesTo left)
    (hrhs : rhs.WritesTo right) :
    (Expr.binary op lhs rhs).WritesTo (.opening :: (left ++ op.mark :: right) ++ [.closing]) := by
  intro rest later _ h
  have htext : (Expr.binary op lhs rhs).render.toList ++ rest =
      '(' :: (lhs.render.toList ++ ' ' :: (op.symbol.toList ++ ' ' ::
        (rhs.render.toList ++ ')' :: rest))) := by
    cases op with
    | sequence => exact absurd rfl hop
    | or | and | equal => simp [render]
  have hsymbols : .opening :: (left ++ op.mark :: right) ++ [.closing] ++ later =
      .opening :: (left ++ op.mark :: (right ++ .closing :: later)) := by simp
  rw [htext, hsymbols]
  refine Token.Spells.opening (hlhs _ _ (Token.apart_cons rfl _) (Token.Spells.blank ?_))
  refine spells_operator hop (Token.apart_cons rfl _) (Token.Spells.blank ?_)
  exact hrhs _ _ (Token.apart_cons rfl _) h.closing

theorem WritesTo.sequence (hlhs : lhs.WritesTo left) (hrhs : rhs.WritesTo right) :
    (Expr.binary .sequence lhs rhs).WritesTo (left ++ .comma :: right) := by
  intro rest later hrest h
  have htext : (Expr.binary .sequence lhs rhs).render.toList ++ rest =
      lhs.render.toList ++ ',' :: ' ' :: (rhs.render.toList ++ rest) := by
    simp [render]
  rw [htext, List.append_assoc, List.cons_append]
  refine hlhs _ _ (Token.apart_cons rfl _) (Token.Spells.comma (Token.Spells.blank ?_))
  exact hrhs rest later hrest h

open Reading in
/-- An expression that keeps its shape derives the symbols of its written form. -/
theorem Writable.derives (h : e.Writable) :
    ∃ symbols, e.WritesTo symbols ∧ Derives e.level symbols e := by
  induction h with
  | bool b => exact ⟨_, writesTo_bool b, .bool b⟩
  | text hs => exact ⟨_, writesTo_text hs, .text _⟩
  | var hname => exact ⟨_, writesTo_var hname, .name _⟩
  | callAlone hcallee hsequence hcall ih =>
    obtain ⟨front, hfront, hderives⟩ := ih
    have hterm := derives_term hderives hsequence hcall
    refine ⟨_, hfront.call writesTo_empty,
      .call hterm ?_ (Derives.ofCall (.term .nothing) .sequence)⟩
    rintro rfl
    exact hcallee.ne_empty (derives_unique hterm .nothing)
  | call hcallee hsequence hcall _ ih ihargs =>
    obtain ⟨front, hfront, hderives⟩ := ih
    obtain ⟨inner, hinner, hargs⟩ := ihargs
    have hterm := derives_term hderives hsequence hcall
    refine ⟨_, hfront.call hinner, .call hterm ?_ (derives_whole hargs)⟩
    rintro rfl
    exact hcallee.ne_empty (derives_unique hterm .nothing)
  | @join op lhs rhs hop hlhs hsequence hrhs hsequence' ihl ihr =>
    obtain ⟨left, hleft, hderives⟩ := ihl
    obtain ⟨right, hright, hderives'⟩ := ihr
    have hoperand := (derives_call hderives hsequence).operand op
    have hoperand' := (derives_call hderives' hsequence').ofCall op
    have hgroup : Derives .term (.opening :: (left ++ op.mark :: right) ++ [.closing])
        (.binary op lhs rhs) :=
      .group (Derives.join op hoperand hlhs.ne_empty hoperand' hrhs.ne_empty).whole
    have hlevel : Expr.level (.binary op lhs rhs) = .term := by
      cases op with
      | sequence => exact absurd rfl hop
      | or | and | equal => rfl
    exact ⟨_, hleft.join hop hright, hlevel ▸ hgroup⟩
  | sequence hlhs hsequence hrhs ihl ihr =>
    obtain ⟨left, hleft, hderives⟩ := ihl
    obtain ⟨right, hright, hderives'⟩ := ihr
    exact ⟨_, hleft.sequence hright, .join .sequence
      ((derives_call hderives hsequence).operand .sequence)
      hlhs.ne_empty (derives_whole hderives') hrhs.ne_empty⟩

theorem Canonical.derives (h : e.Canonical) :
    ∃ symbols, e.WritesTo symbols ∧ Reading.Derives .whole symbols e := by
  rcases h with rfl | h
  · exact ⟨_, writesTo_empty, (Reading.Derives.term .nothing).ofCall .sequence⟩
  · obtain ⟨symbols, hwrites, hderives⟩ := h.derives
    exact ⟨symbols, hwrites, derives_whole hderives⟩

/-- The text says the expression, wherever no name character follows. -/
def Says (text : List Char) (e : Expr) : Prop :=
  ∃ symbols, Token.Heads text symbols ∧ Reading.Derives .whole symbols e

theorem Says.ofText {text : String} (h : Says text.toList e) : ofText text = .ok e := by
  obtain ⟨symbols, hheads, hderives⟩ := h
  obtain ⟨tokens, hscan, hsymbols⟩ := hheads [] [] Token.apart_nil Token.spells_nil 1
  rw [List.append_nil, ← Token.scan_eq_scanFrom] at hscan
  rw [List.append_nil] at hsymbols
  refine RuleText.expr_eq_ok.mpr ⟨tokens, hscan, ?_⟩
  rw [hsymbols]
  exact ofSymbols_iff_derives.mpr hderives

theorem Canonical.read (h : e.Canonical) : Expr.ofText e.render = .ok e :=
  Says.ofText h.derives

end Expr

/-- A canonical expression is what its written form is read as. So no two of them have the same
written form, and what is read from it is written in the same way again. -/
theorem ofText_render {e : Expr} (h : e.Canonical) :
    Expr.ofText e.render = .ok e ∧
      (∀ other : Expr, other.Canonical → other.render = e.render → other = e) ∧
      ∀ found, Expr.ofText e.render = .ok found → found.render = e.render := by
  refine ⟨h.read, fun other hother hsame => ?_, fun found hfound => ?_⟩
  · have hread := hother.read
    rw [hsame, h.read] at hread
    exact (Except.ok.inj hread).symm
  · rw [h.read] at hfound
    rw [Except.ok.inj hfound]

/-- A group is called, blanks and brackets stand in texts, and the last argument but one is a call
without arguments. -/
theorem ofText_render_called_group :
    let e : Expr := .call (.binary .or (.var "x") (.text "a, (b =="))
      (.binary .sequence (.binary .equal (.binary .and (.bool true) (.var "_1")) (.text ""))
        (.binary .sequence (.call (.var "ORB") .empty) (.call (.text "g") (.var "y"))))
    e.render = "(x OR \"a, (b ==\")(((TRUE AND _1) == \"\"), ORB(), \"g\"(y))" ∧
      Expr.ofText e.render = .ok e := by
  intro e
  have hcallee : (Expr.binary .or (.var "x") (.text "a, (b ==")).Writable :=
    .join (by decide) (.var (by decide)) rfl (.text (by decide)) rfl
  have hequal : (Expr.binary .equal (.binary .and (.bool true) (.var "_1")) (.text "")).Writable :=
    .join (by decide) (.join (by decide) (.bool true) rfl (.var (by decide)) rfl) rfl
      (.text (by decide)) rfl
  have halone : (Expr.call (.var "ORB") .empty).Writable := .callAlone (.var (by decide)) rfl rfl
  have hcall : (Expr.call (.text "g") (.var "y")).Writable :=
    .call (.text (by decide)) rfl rfl (.var (by decide))
  have hargs := Expr.Writable.sequence hequal rfl (.sequence halone rfl hcall)
  exact ⟨by decide, (ofText_render (.inr (.call hcallee rfl rfl hargs))).1⟩

end Passage
