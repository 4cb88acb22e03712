import Passage.Proofs.Layouts

/-!
# What can be read

The expressions that some text is read as (`Expr.Readable`): no function occurs in them, names are
no keywords, texts hold no quote, and an operand is not empty. Nothing else is required. A comma
chain may stand anywhere, a call may be called, and so may nothing at all. The written form of such
an expression can lose its shape, but with a group around each operand, callee and argument it is
spelled out so that it is read back.
-/
namespace Passage

open Reading

namespace Token

/-- An item says a symbol that a text can hold. -/
theorem Item.writable {item : Item} {symbol : Symbol} (h : item.symbol? = some symbol) :
    symbol.Writable := by
  cases item with
  | blank c hc => cases h
  | opening | closing | comma | equal =>
    cases h
    trivial
  | quoted inner hinner =>
    cases h
    show '\x22' ∉ (String.ofList inner).toList
    rwa [String.toList_ofList]
  | run chars hne hchars =>
    rw [Item.symbol?_run] at h
    cases h
    have hempty : String.ofList chars ≠ "" := fun hnil => hne (String.ofList_injective hnil)
    have hall : (String.ofList chars).toList.all Text.isNameChar = true := by
      rwa [String.toList_ofList]
    unfold Symbol.ofRun
    repeat' split
    · trivial
    · trivial
    · trivial
    · trivial
    · exact ⟨hempty, hall, by simp_all⟩

/-- The symbols of a text are those that a text can hold. -/
theorem writable_of_scan {text : String} {tokens : List Token} (h : scan text = .ok tokens) :
    ∀ symbol ∈ tokens.map Token.symbol, symbol.Writable := by
  obtain ⟨items, _, rfl⟩ := exists_tiles_of_scan h
  intro symbol hsymbol
  rw [symbols_tokensOf] at hsymbol
  obtain ⟨item, _, hitem⟩ := List.mem_flatMap.mp hsymbol
  exact item.writable (Option.mem_toList.mp hitem)

end Token

namespace Expr

/-- The expressions that a text can be read as. -/
inductive Readable : Expr → Prop
  | empty : Readable .empty
  | bool (b : Bool) : Readable (.bool b)
  | text {s : String} : '\x22' ∉ s.toList → Readable (.text s)
  | var {name : String} : IsName name → Readable (.var name)
  | join (op : BinaryOp) {lhs rhs : Expr} :
    Readable lhs → lhs ≠ .empty → Readable rhs → rhs ≠ .empty →
      Readable (.binary op lhs rhs)
  | call {callee args : Expr} : Readable callee → Readable args → Readable (.call callee args)

/-- Symbols that a text can hold derive only expressions of this kind. -/
theorem readable_of_derives {level : Level} {front : List Symbol} {e : Expr}
    (h : Derives level front e) (hfront : ∀ symbol ∈ front, symbol.Writable) : e.Readable := by
  induction h with
  | alone _ _ ih | term _ ih => exact ih hfront
  | join op _ hne _ hne' ihl ihr =>
    simp only [List.forall_mem_append, List.forall_mem_cons] at hfront
    exact .join op (ihl hfront.1) hne (ihr hfront.2.2) hne'
  | call _ _ _ ihl ihr =>
    simp only [List.forall_mem_append, List.forall_mem_cons] at hfront
    exact .call (ihl hfront.1.1) (ihr hfront.1.2.2)
  | name s => exact .var (hfront _ List.mem_cons_self)
  | bool b => exact .bool b
  | text s => exact .text (hfront _ List.mem_cons_self)
  | group _ ih =>
    simp only [List.forall_mem_append, List.forall_mem_cons] at hfront
    exact ih hfront.1.2
  | nothing => exact .empty

theorem readable_of_read {rule : RuleText} {e : Expr} (h : rule.expr = .ok e) : e.Readable := by
  obtain ⟨tokens, front, rest, hscan, hfront, hderives⟩ := RuleText.exists_derives h
  refine readable_of_derives hderives fun symbol hsymbol => Token.writable_of_scan hscan symbol ?_
  rw [hfront]
  exact List.mem_append_left rest hsymbol

/-- Symbols between parentheses. -/
def inGroup (symbols : List Symbol) : List Symbol := .opening :: symbols ++ [.closing]

/-- The symbols of an expression with a group around each operand, callee and argument. -/
def grouped : Expr → List Symbol
  | empty => []
  | bool b => [.bool b]
  | text s => [.text s]
  | var name => [.name name]
  | call callee args => inGroup callee.grouped ++ inGroup args.grouped
  | binary op lhs rhs => inGroup lhs.grouped ++ op.mark :: inGroup rhs.grouped
  | function _ _ | native _ => []

/-- The text of an expression with a group around each operand, callee and argument, and a blank
before each symbol. -/
def spelledOut (e : Expr) : String :=
  String.ofList (e.grouped.flatMap fun symbol => ' ' :: symbol.written)

theorem writable_inGroup {symbols : List Symbol} (h : ∀ symbol ∈ symbols, symbol.Writable) :
    ∀ symbol ∈ inGroup symbols, symbol.Writable := by
  intro symbol hsymbol
  simp only [inGroup, List.mem_append, List.mem_cons, List.not_mem_nil, or_false] at hsymbol
  rcases hsymbol with (rfl | hinner) | rfl
  · trivial
  · exact h symbol hinner
  · trivial

theorem Readable.writable {e : Expr} (h : e.Readable) : ∀ symbol ∈ e.grouped, symbol.Writable := by
  induction h with
  | empty => nofun
  | bool b => exact List.forall_mem_singleton.mpr trivial
  | text hs => exact List.forall_mem_singleton.mpr hs
  | var hname => exact List.forall_mem_singleton.mpr hname
  | join op _ _ _ _ ihl ihr =>
    have hmark : op.mark.Writable := by cases op <;> trivial
    refine List.forall_mem_append.mpr ⟨writable_inGroup ihl, ?_⟩
    exact List.forall_mem_cons.mpr ⟨hmark, writable_inGroup ihr⟩
  | call _ _ ihl ihr =>
    exact List.forall_mem_append.mpr ⟨writable_inGroup ihl, writable_inGroup ihr⟩

theorem Readable.derives {e : Expr} (h : e.Readable) : Derives .whole e.grouped e := by
  have hterm {front : List Symbol} {e : Expr}
      (h : Derives .term front e) : Derives .whole front e :=
    (Derives.term h).ofCall .sequence
  induction h with
  | empty => exact hterm .nothing
  | bool b => exact hterm (.bool b)
  | text _ => exact hterm (.text _)
  | var _ => exact hterm (.name _)
  | join op _ hne _ hne' ihl ihr =>
    have hlhs := (Derives.term (.group ihl)).operand op
    have hrhs := (Derives.term (.group ihr)).ofCall op
    exact (Derives.join op hlhs hne hrhs hne').whole
  | @call callee args _ _ ihl ihr =>
    have hcall := Derives.call (.group ihl) (List.cons_ne_nil _ _) ihr
    rw [List.append_assoc] at hcall
    exact hcall.ofCall .sequence

end Expr

/-- A symbol with a blank before it. -/
def Piece.behindBlank (symbol : Symbol) (h : symbol.Writable) : Piece := ⟨[' '], rfl, symbol, h⟩

namespace Layout

variable {symbols : List Symbol}

/-- The layout that has a blank before each symbol, and no other. -/
def blanked (symbols : List Symbol) (h : ∀ symbol ∈ symbols, symbol.Writable) : Layout where
  pieces := symbols.pmap Piece.behindBlank h
  apart := by
    refine List.isChain_iff_forall_rel_of_append_cons_cons.mpr fun piece next front back
      hsplit _ _ => ?_
    have hnext : next ∈ symbols.pmap Piece.behindBlank h := by simp [hsplit]
    obtain ⟨symbol, hsymbol, rfl⟩ := List.mem_pmap.mp hnext
    exact List.cons_ne_nil _ _
  rear := []
  blank := rfl

theorem symbols_blanked (h : ∀ symbol ∈ symbols, symbol.Writable) :
    (blanked symbols h).symbols = symbols := by
  show (symbols.pmap Piece.behindBlank h).map Piece.symbol = symbols
  rw [List.map_pmap]
  exact (List.pmap_eq_map h).trans (List.map_id' symbols)

theorem text_blanked (h : ∀ symbol ∈ symbols, symbol.Writable) :
    (blanked symbols h).text = String.ofList (symbols.flatMap fun symbol =>
      ' ' :: symbol.written) := by
  show String.ofList ((symbols.pmap Piece.behindBlank h).flatMap Piece.chars ++ []) = _
  have hchars : (symbols.pmap Piece.behindBlank h).map Piece.chars =
      symbols.map fun symbol => ' ' :: symbol.written := by
    rw [List.map_pmap]
    exact List.pmap_eq_map (f := fun symbol => ' ' :: symbol.written) h
  rw [List.append_nil, List.flatMap_def, hchars, ← List.flatMap_def]

end Layout

theorem Expr.Readable.ofText_spelledOut {e : Expr} (h : e.Readable) :
    Expr.ofText e.spelledOut = .ok e := by
  have hread : Expr.ofSymbols false (Layout.blanked e.grouped h.writable).symbols = .ok e := by
    rw [Layout.symbols_blanked]
    exact Expr.ofSymbols_iff_derives.mpr h.derives
  rw [Expr.spelledOut, ← Layout.text_blanked h.writable]
  exact Layout.expr_of_ok hread

/-- The readable expressions are exactly those that some text is read as, whether or not tokens may
be left over, and each of them is what it is spelled out as. -/
theorem readable_exact (e : Expr) :
    (e.Readable ↔ Expr.ofText e.spelledOut = .ok e) ∧
    ∀ allowTrailing, (∃ text, RuleText.expr ⟨text, allowTrailing⟩ = .ok e) ↔ e.Readable := by
  refine ⟨⟨fun h => h.ofText_spelledOut, fun h => Expr.readable_of_read h⟩,
    fun allowTrailing => ⟨?_, ?_⟩⟩
  · rintro ⟨text, h⟩
    exact Expr.readable_of_read h
  · intro h
    exact ⟨e.spelledOut, RuleText.expr_of_strict h.ofText_spelledOut allowTrailing⟩

/-- A call of a call of nothing, given a comma chain as the left operand of a comma. -/
example :
    let e : Expr := .call (.call .empty (.var "x"))
      (.binary .sequence (.binary .sequence (.bool true) (.text ")"))
        (.binary .or (.var "y") (.var "z")))
    e.spelledOut = " ( ( ) ( x ) ) ( ( ( TRUE ) , ( \")\" ) ) , ( ( y ) OR ( z ) ) )" ∧
      Expr.ofText e.spelledOut = .ok e := by
  decide +kernel

end Passage
