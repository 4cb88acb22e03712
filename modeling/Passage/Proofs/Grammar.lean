import Passage.Proofs.CursorReading

/-!
# The grammar of rules

`Derives` states the grammar without saying how to read it: each level joins two operands by its
operator, to the right, or is an operand alone; a call needs a term that is there; a group may be
empty, but an operand whose tree is empty joins nothing. Reading a level takes off the front of the
symbols what the grammar derives there, and it finds every derivation that is followed by a symbol
at which the level has to stop. So a text is an expression exactly if the grammar derives its
symbols, and then of one tree only.
-/
namespace Passage

/-- The names that occur in an expression, from left to right. -/
def Expr.names : Expr → List String
  | var name => [name]
  | function _ body => body.names
  | call callee args => callee.names ++ args.names
  | binary _ lhs rhs => lhs.names ++ rhs.names
  | empty | bool _ | text _ | native _ => []

namespace Reading

open Descent

/-- The symbols of an expression of a level, with its tree. -/
inductive Derives : Level → List Symbol → Expr → Prop
  | alone (op : BinaryOp) {front : List Symbol} {e : Expr} :
    Derives (.ofOperand op) front e → Derives (.binary op) front e
  | join (op : BinaryOp) {left right : List Symbol} {lhs rhs : Expr} :
    Derives (.ofOperand op) left lhs → lhs ≠ .empty →
    Derives (.binary op) right rhs → rhs ≠ .empty →
    Derives (.binary op) (left ++ op.mark :: right) (.binary op lhs rhs)
  | term {front : List Symbol} {e : Expr} : Derives .term front e → Derives .call front e
  | call {front inner : List Symbol} {callee args : Expr} :
    Derives .term front callee → front ≠ [] → Derives .whole inner args →
    Derives .call (front ++ .opening :: inner ++ [.closing]) (.call callee args)
  | name (s : String) : Derives .term [.name s] (.var s)
  | bool (b : Bool) : Derives .term [.bool b] (.bool b)
  | text (s : String) : Derives .term [.text s] (.text s)
  | group {inner : List Symbol} {e : Expr} :
    Derives .whole inner e → Derives .term (.opening :: inner ++ [.closing]) e
  | nothing : Derives .term [] .empty

theorem mark_inj {op other : BinaryOp} (h : op.mark = other.mark) : op = other := by
  cases op <;> cases other <;> first | rfl | cases h

theorem mark_ne_opening (op : BinaryOp) : op.mark ≠ .opening := by
  cases op <;> intro h <;> cases h

/-- A group that was read is an expression up to the closing parenthesis. -/
theorem ok_of_group (wrap : Expr → Expr) {outcome : Option (Except Refusal (Expr × List Symbol))}
    {e : Expr} {rest : List Symbol}
    (h : (ExceptT.run do
      let (inner, rest) ← ExceptT.mk outcome
      let rest ← ExceptT.mk (some (close rest))
      return (wrap inner, rest)) = some (.ok (e, rest))) :
    ∃ inner, outcome = some (.ok (inner, .closing :: rest)) ∧ e = wrap inner := by
  obtain ⟨⟨inner, left⟩, hinner, h⟩ := ok_of_bind h
  obtain ⟨last, hclose, h⟩ := ok_of_bind h
  cases h
  rw [eq_of_close (Option.some.inj hclose)] at hinner
  exact ⟨inner, hinner, rfl⟩

/-- What is read is derived, and a term that is not there does not stand before a parenthesis. -/
theorem derives_of_read {depth : Nat} {level : Level} {symbols rest : List Symbol} {e : Expr}
    (h : read depth level symbols = some (.ok (e, rest))) :
    ∃ front, symbols = front ++ rest ∧ Derives level front e ∧
      (level = .term → front = [] → ∀ later, rest ≠ .opening :: later) := by
  -- A term that took no symbol stands before no parenthesis, so the callee of a call took one.
  induction depth generalizing level symbols e rest with
  | zero => cases h
  | succ depth ih =>
    cases level with
    | binary op =>
      unfold read at h
      obtain ⟨⟨lhs, middle⟩, hlhs, hnext⟩ := ok_of_bind h
      clear h
      obtain ⟨left, rfl, hleft, _⟩ := ih hlhs
      cases middle with
      | nil => cases hnext; exact ⟨left, rfl, .alone op hleft, Level.noConfusion⟩
      | cons symbol later =>
        dsimp only at hnext
        split at hnext
        · cases hnext; exact ⟨left, rfl, .alone op hleft, Level.noConfusion⟩
        · rename_i hmark
          split at hnext
          · cases hnext
          · rename_i hne
            obtain ⟨⟨rhs, last⟩, hrhs, hlast⟩ := ok_of_bind hnext
            clear hnext
            obtain ⟨right, rfl, hright, _⟩ := ih hrhs
            dsimp only at hlast
            split at hlast
            · cases hlast
            · rename_i hne'
              cases hlast
              refine ⟨left ++ op.mark :: right, ?_, .join op hleft hne hright hne',
                Level.noConfusion⟩
              rw [Decidable.not_not.mp hmark]
              simp
    | call =>
      unfold read at h
      obtain ⟨⟨callee, middle⟩, hcallee, hnext⟩ := ok_of_bind h
      clear h
      obtain ⟨front, rfl, hfront, hstop⟩ := ih hcallee
      dsimp only at hnext
      split at hnext
      · rename_i later
        obtain ⟨args, hargs, rfl⟩ := ok_of_group (Expr.call callee) hnext
        obtain ⟨inner, rfl, hinner, _⟩ := ih hargs
        have hne : front ≠ [] := fun hnil => hstop rfl hnil _ rfl
        exact ⟨front ++ .opening :: inner ++ [.closing], by simp, .call hfront hne hinner,
          Level.noConfusion⟩
      · cases hnext; exact ⟨front, rfl, .term hfront, Level.noConfusion⟩
    | term =>
      unfold read at h
      split at h
      · cases h; exact ⟨[.name _], rfl, .name _, by simp⟩
      · cases h; exact ⟨[.bool _], rfl, .bool _, by simp⟩
      · cases h; exact ⟨[.text _], rfl, .text _, by simp⟩
      · rename_i later
        obtain ⟨inner, hinner, rfl⟩ := ok_of_group id h
        obtain ⟨front, rfl, hfront, _⟩ := ih hinner
        exact ⟨.opening :: front ++ [.closing], by simp, .group hfront, by simp⟩
      · rename_i hopening
        cases h
        exact ⟨[], rfl, .nothing, fun _ _ => hopening⟩

/-- Every name in a tree is one of its symbols. -/
theorem Derives.name_mem {level : Level} {front : List Symbol} {e : Expr}
    (h : Derives level front e) {name : String} (hname : name ∈ e.names) : .name name ∈ front := by
  induction h with
  | alone _ _ ih | term _ ih => exact ih hname
  | join op _ _ _ _ ihl ihr | call _ _ _ ihl ihr =>
    rw [Expr.names, List.mem_append] at hname
    rcases hname with hname | hname
    · simp [ihl hname]
    · simp [ihr hname]
  | name s => simpa [Expr.names] using hname
  | bool b | text s | nothing => cases hname
  | group _ ih => simp [ih hname]

/-- A call stands at every operator as the only operand. -/
theorem Derives.ofCall {front : List Symbol} {e : Expr} (h : Derives .call front e)
    (op : BinaryOp) : Derives (.binary op) front e := by
  have hequal : Derives (.binary .equal) front e := .alone .equal h
  have hand : Derives (.binary .and) front e := .alone .and hequal
  have hor : Derives (.binary .or) front e := .alone .or hand
  cases op with
  | sequence => exact .alone .sequence hor
  | or => exact hor
  | and => exact hand
  | equal => exact hequal

/-- A call can be an operand of every operator. -/
theorem Derives.operand {front : List Symbol} {e : Expr} (h : Derives .call front e)
    (op : BinaryOp) : Derives (.ofOperand op) front e := by
  cases op with
  | sequence => exact h.ofCall .or
  | or => exact h.ofCall .and
  | and => exact h.ofCall .equal
  | equal => exact h

/-- What an operator joins is a whole expression. -/
theorem Derives.whole {op : BinaryOp} {front : List Symbol} {e : Expr}
    (h : Derives (.binary op) front e) : Derives .whole front e := by
  cases op with
  | sequence => exact h
  | or => exact .alone .sequence h
  | and => exact .alone .sequence (.alone .or h)
  | equal => exact .alone .sequence (.alone .or (.alone .and h))

/-- The symbols at which a level has to stop: the end, a closing parenthesis, a looser operator. -/
def Stops (level : Level) (rest : List Symbol) : Prop :=
  ∀ symbol later, rest = symbol :: later →
    symbol = .closing ∨ ∃ op : BinaryOp, symbol = op.mark ∧ level.height < (Level.binary op).height

theorem stops_nil (level : Level) : Stops level [] := by
  intro symbol later he
  cases he

theorem stops_closing (level : Level) (rest : List Symbol) : Stops level (.closing :: rest) := by
  intro symbol later he
  cases he
  exact .inl rfl

theorem stops_mark (op : BinaryOp) (rest : List Symbol) :
    Stops (.ofOperand op) (op.mark :: rest) := by
  intro symbol later he
  cases he
  exact .inr ⟨op, rfl, by have := Level.height_ofOperand op; omega⟩

theorem Stops.tighter {level other : Level} {rest : List Symbol} (h : Stops level rest)
    (hle : other.height ≤ level.height) : Stops other rest := by
  intro symbol later he
  rcases h symbol later he with hclosing | ⟨op, hop, hlt⟩
  · exact .inl hclosing
  · exact .inr ⟨op, hop, by omega⟩

/-- A level does not stop at its own operator. -/
theorem Stops.ne_mark {op : BinaryOp} {symbol : Symbol} {later : List Symbol}
    (h : Stops (.binary op) (symbol :: later)) : symbol ≠ op.mark := by
  intro he
  subst he
  rcases h _ _ rfl with hclosing | ⟨other, hother, hlt⟩
  · cases op <;> cases hclosing
  · rw [mark_inj hother] at hlt
    exact Nat.lt_irrefl _ hlt

theorem Stops.ne_opening {level : Level} {symbol : Symbol} {later : List Symbol}
    (h : Stops level (symbol :: later)) : symbol ≠ .opening := by
  intro he
  subst he
  rcases h _ _ rfl with hclosing | ⟨op, hop, _⟩
  · cases hclosing
  · exact mark_ne_opening op hop.symm

/-- Where a level stops there is no term. -/
theorem read_nothing {level : Level} {rest : List Symbol} (h : Stops level rest) (depth : Nat) :
    read (depth + 1) .term rest = some (.ok (.empty, rest)) := by
  cases rest with
  | nil => rfl
  | cons symbol later =>
    rcases h symbol later rfl with rfl | ⟨op, rfl, _⟩
    · rfl
    · cases op <;> rfl

/-- A group is read if its inner expression is read up to the closing parenthesis. -/
theorem read_group (wrap : Expr → Expr) {outcome : Option (Except Refusal (Expr × List Symbol))}
    {inner : Expr} {rest : List Symbol} (h : outcome = some (.ok (inner, .closing :: rest))) :
    (ExceptT.run do
      let (inner, rest) ← ExceptT.mk outcome
      let rest ← ExceptT.mk (some (close rest))
      return (wrap inner, rest)) = some (.ok (wrap inner, rest)) := by
  rw [bind_ok h]
  rfl

/-- What is derived is read, if it is followed by a symbol at which the level stops. A term that
takes a symbol needs no such end. -/
theorem read_of_derives {level : Level} {front : List Symbol} {e : Expr}
    (h : Derives level front e) {rest : List Symbol} {depth : Nat}
    (hrest : Stops level rest ∨ level = .term ∧ front ≠ [])
    (hdepth : level.height + 6 * (front ++ rest).length ≤ depth) :
    read depth level (front ++ rest) = some (.ok (e, rest)) := by
  have hwhole : Level.whole.height = 6 := rfl
  have hcall : Level.call.height = 2 := rfl
  have hterm : Level.term.height = 1 := rfl
  induction h generalizing rest depth with
  | @alone op front e hfront ih =>
    have hop := Level.height_ofOperand op
    have hstop : Stops (.binary op) rest :=
      hrest.resolve_right fun hterm => Level.noConfusion hterm.1
    obtain ⟨depth, rfl⟩ : ∃ lower, depth = lower + 1 := ⟨depth - 1, by omega⟩
    unfold read
    rw [bind_ok (ih (.inl (hstop.tighter (by omega))) (by omega))]
    cases rest with
    | nil => rfl
    | cons symbol later =>
      dsimp only
      rw [if_pos hstop.ne_mark]
      rfl
  | @join op left right lhs rhs hleft hne hright hne' ihl ihr =>
    have hop := Level.height_ofOperand op
    have hstop : Stops (.binary op) rest :=
      hrest.resolve_right fun hterm => Level.noConfusion hterm.1
    obtain ⟨depth, rfl⟩ : ∃ lower, depth = lower + 1 := ⟨depth - 1, by omega⟩
    rw [List.append_assoc, List.cons_append] at hdepth ⊢
    have hlater : (Level.binary op).height + 6 * (right ++ rest).length ≤ depth := by
      simp only [List.length_append, List.length_cons] at hdepth ⊢
      omega
    unfold read
    rw [bind_ok (ihl (.inl (stops_mark op (right ++ rest))) (by omega))]
    dsimp only
    rw [if_neg (fun hm => hm rfl), if_neg hne, bind_ok (ihr (.inl hstop) hlater)]
    dsimp only
    rw [if_neg hne']
    rfl
  | @term front e hfront ih =>
    have hstop : Stops .call rest := hrest.resolve_right fun hterm => Level.noConfusion hterm.1
    obtain ⟨depth, rfl⟩ : ∃ lower, depth = lower + 1 := ⟨depth - 1, by omega⟩
    unfold read
    rw [bind_ok (ih (.inl (hstop.tighter (by decide))) (by omega))]
    dsimp only
    split
    · exact absurd rfl hstop.ne_opening
    · rfl
  | @call front inner callee args hfront hne hinner ihf ihi =>
    obtain ⟨depth, rfl⟩ : ∃ lower, depth = lower + 1 := ⟨depth - 1, by omega⟩
    have hsplit : front ++ .opening :: inner ++ [.closing] ++ rest =
        front ++ .opening :: (inner ++ .closing :: rest) := by simp
    rw [hsplit] at hdepth ⊢
    have hlater : Level.whole.height + 6 * (inner ++ .closing :: rest).length ≤ depth := by
      simp only [List.length_append, List.length_cons] at hdepth ⊢
      omega
    unfold read
    rw [bind_ok (ihf (.inr ⟨rfl, hne⟩) (by omega))]
    exact read_group (Expr.call callee) (ihi (.inl (stops_closing _ _)) hlater)
  | name s | bool b | text s =>
    obtain ⟨depth, rfl⟩ : ∃ lower, depth = lower + 1 := ⟨depth - 1, by omega⟩
    rfl
  | @group inner e hinner ih =>
    obtain ⟨depth, rfl⟩ : ∃ lower, depth = lower + 1 := ⟨depth - 1, by omega⟩
    have hsplit : Symbol.opening :: inner ++ [.closing] ++ rest =
        .opening :: (inner ++ .closing :: rest) := by simp
    rw [hsplit] at hdepth ⊢
    have hlater : Level.whole.height + 6 * (inner ++ .closing :: rest).length ≤ depth := by
      simp only [List.length_append, List.length_cons] at hdepth ⊢
      omega
    exact read_group id (ih (.inl (stops_closing _ _)) hlater)
  | nothing =>
    obtain ⟨depth, rfl⟩ : ∃ lower, depth = lower + 1 := ⟨depth - 1, by omega⟩
    exact read_nothing (hrest.resolve_right fun hc => hc.2 rfl) depth

/-- The grammar gives the symbols of a level at most one tree. -/
theorem derives_unique {level : Level} {front : List Symbol} {e e' : Expr}
    (h : Derives level front e) (h' : Derives level front e') : e = e' := by
  have hr := read_of_derives h (.inl (stops_nil level)) (Nat.le_refl _)
  have hr' := read_of_derives h' (.inl (stops_nil level)) (Nat.le_refl _)
  rw [hr] at hr'
  cases hr'
  rfl

theorem read_readWhole (symbols : List Symbol) :
    read (depthFor symbols) .whole symbols = some (readWhole symbols) :=
  (Option.some_get _).symm

theorem readWhole_of_derives {front : List Symbol} {e : Expr} (h : Derives .whole front e) :
    readWhole front = .ok (e, []) := by
  have hdepth : Level.whole.height + 6 * (front ++ []).length ≤ depthFor front := by simp [depthFor]
  have hread := read_of_derives h (.inl (stops_nil _)) hdepth
  rw [List.append_nil, read_readWhole] at hread
  exact Option.some.inj hread

theorem derives_of_readWhole {symbols rest : List Symbol} {e : Expr}
    (h : readWhole symbols = .ok (e, rest)) :
    ∃ front, symbols = front ++ rest ∧ Derives .whole front e := by
  have hread := read_readWhole symbols
  rw [h] at hread
  obtain ⟨front, hfront, hderives, _⟩ := derives_of_read hread
  exact ⟨front, hfront, hderives⟩

theorem suffix_of_readWhole {symbols rest : List Symbol} {e : Expr}
    (h : readWhole symbols = .ok (e, rest)) : rest <:+ symbols := by
  obtain ⟨front, rfl, _⟩ := derives_of_readWhole h
  exact List.suffix_append front rest

theorem suffix_of_readWhole_error {symbols : List Symbol} {refusal : Refusal}
    (h : readWhole symbols = .error refusal) : refusal.rest <:+ symbols := by
  obtain ⟨result, hread, _, herror⟩ := read_within (depthFor symbols) .whole symbols (Nat.le_refl _)
  rw [read_readWhole, h] at hread
  exact herror refusal (Option.some.inj hread).symm

end Reading

open Reading

namespace Expr

/-- The two ways in which symbols are an expression: none is left, or those left do not matter. -/
theorem ofSymbols_eq_ok {allowTrailing : Bool} {symbols : List Symbol} {e : Expr} :
    ofSymbols allowTrailing symbols = .ok e ↔
      ∃ rest, readWhole symbols = .ok (e, rest) ∧ (allowTrailing = true ∨ rest = []) := by
  unfold ofSymbols
  cases hread : readWhole symbols with
  | error refusal => simp [bind, Except.bind]
  | ok pair =>
    obtain ⟨found, rest⟩ := pair
    cases allowTrailing <;> cases rest <;>
      simp [bind, Except.bind, pure, Except.pure, throw, throwThe, MonadExceptOf.throw]

theorem ofSymbols_iff_derives {symbols : List Symbol} {e : Expr} :
    ofSymbols false symbols = .ok e ↔ Derives .whole symbols e := by
  rw [ofSymbols_eq_ok]
  constructor
  · intro h
    obtain ⟨rest, hread, hfalse | rfl⟩ := h
    · cases hfalse
    · obtain ⟨front, hfront, h⟩ := derives_of_readWhole hread
      rwa [hfront, List.append_nil]
  · intro h
    exact ⟨[], readWhole_of_derives h, .inr rfl⟩

/-- A complaint never lies behind the end of the symbols. -/
theorem suffix_of_ofSymbols_error {allowTrailing : Bool} {symbols : List Symbol} {refusal : Refusal}
    (h : ofSymbols allowTrailing symbols = .error refusal) : refusal.rest <:+ symbols := by
  unfold ofSymbols at h
  cases hread : readWhole symbols with
  | error first =>
    rw [hread] at h
    cases h
    exact suffix_of_readWhole_error hread
  | ok pair =>
    obtain ⟨e, rest⟩ := pair
    rw [hread] at h
    cases allowTrailing with
    | true => cases h
    | false =>
      cases rest with
      | nil => cases h
      | cons symbol later => cases h; exact suffix_of_readWhole hread

end Expr

namespace RuleText

theorem positionOf_mem (text : String) (tokens : List Token) (left : Nat) :
    ∃ token ∈ tokens ++ [Token.endOf text], positionOf text tokens left = token.position := by
  unfold positionOf
  split
  · rename_i token later hdrop
    have hmem : token ∈ tokens := List.mem_of_mem_drop (hdrop ▸ List.mem_cons_self)
    exact ⟨token, List.mem_append_left _ hmem, rfl⟩
  · exact ⟨Token.endOf text, List.mem_append_right _ List.mem_cons_self, rfl⟩

theorem expr_eq_ok {rule : RuleText} {e : Expr} :
    rule.expr = .ok e ↔ ∃ tokens, Token.scan rule.text = .ok tokens ∧
      Expr.ofSymbols rule.allowTrailing (tokens.map Token.symbol) = .ok e := by
  unfold expr
  cases hscan : Token.scan rule.text with
  | error e => simp
  | ok tokens =>
    cases hread : Expr.ofSymbols rule.allowTrailing (tokens.map Token.symbol) with
    | error refusal => simp [hread]
    | ok found => simp [hread]

/-- What a text is read as is derived by its first symbols. -/
theorem exists_derives {rule : RuleText} {e : Expr} (h : rule.expr = .ok e) :
    ∃ tokens front rest, Token.scan rule.text = .ok tokens ∧
      tokens.map Token.symbol = front ++ rest ∧ Reading.Derives .whole front e := by
  obtain ⟨tokens, hscan, hread⟩ := expr_eq_ok.mp h
  obtain ⟨rest, hwhole, _⟩ := Expr.ofSymbols_eq_ok.mp hread
  obtain ⟨front, hfront, hderives⟩ := Reading.derives_of_readWhole hwhole
  exact ⟨tokens, front, rest, hscan, hfront, hderives⟩

/-- Leave to ignore what follows an expression takes no reading away. -/
theorem expr_of_strict {text : String} {e : Expr} (h : expr ⟨text, false⟩ = .ok e)
    (allowTrailing : Bool) : expr ⟨text, allowTrailing⟩ = .ok e := by
  obtain ⟨tokens, hscan, hread⟩ := expr_eq_ok.mp h
  obtain ⟨rest, hwhole, hfalse | rfl⟩ := Expr.ofSymbols_eq_ok.mp hread
  · cases hfalse
  · exact expr_eq_ok.mpr ⟨tokens, hscan, Expr.ofSymbols_eq_ok.mpr ⟨[], hwhole, .inr rfl⟩⟩

/-- A text of tokens that are no expression is refused at one of them, or at the end mark. -/
theorem expr_of_refused {rule : RuleText} {tokens : List Token}
    (hscan : Token.scan rule.text = .ok tokens)
    (h : ∀ e, Expr.ofSymbols rule.allowTrailing (tokens.map Token.symbol) ≠ .ok e) :
    ∃ refusal : Refusal, refusal.rest <:+ tokens.map Token.symbol ∧
      ∃ token ∈ tokens ++ [Token.endOf rule.text],
        rule.expr = .error (.grammar refusal.complaint token.position rule.text) := by
  cases hread : Expr.ofSymbols rule.allowTrailing (tokens.map Token.symbol) with
  | ok e => exact absurd hread (h e)
  | error refusal =>
    obtain ⟨token, hmem, hposition⟩ := positionOf_mem rule.text tokens refusal.rest.length
    refine ⟨refusal, Expr.suffix_of_ofSymbols_error hread, token, hmem, ?_⟩
    unfold expr
    simp only [hscan, hread, hposition]

end RuleText

/-- A text is the expression of a tree exactly if its tokens derive it, and they derive no other
one. All other tokens are refused by a complaint about one of them or the end mark. Depth in
proportion to the number of tokens is enough for that, and a reader with a cursor comes to the same
with it and makes no move past the end mark. Leave to ignore what follows an expression keeps every
reading, and adds only readings of a front of the tokens. -/
theorem ofText_iff_derives (text : String) :
    (∀ e, Expr.ofText text = .ok e ↔
      ∃ tokens, Token.scan text = .ok tokens ∧ Derives .whole (tokens.map Token.symbol) e) ∧
    (∀ tokens, Token.scan text = .ok tokens →
      (∀ e e', Derives .whole (tokens.map Token.symbol) e →
        Derives .whole (tokens.map Token.symbol) e' → e = e') ∧
      ((∀ e, ¬ Derives .whole (tokens.map Token.symbol) e) →
        ∃ refusal : Refusal, refusal.rest <:+ tokens.map Token.symbol ∧
          ∃ token ∈ tokens ++ [Token.endOf text],
            Expr.ofText text = .error (.grammar refusal.complaint token.position text)) ∧
      ∀ depth, 6 + 6 * tokens.length ≤ depth →
        (read depth .whole (tokens.map Token.symbol)).isSome ∧
        ∀ allowTrailing, ∃ final, (CursorReader.whole depth ⟨text, allowTrailing⟩).outcome
            (Cursor.start (tokens ++ [Token.endOf text])) =
          some ((RuleText.expr ⟨text, allowTrailing⟩).mapError .reading, final)) ∧
    (∀ e, Expr.ofText text = .ok e → RuleText.expr ⟨text, true⟩ = .ok e) ∧
    (∀ e, RuleText.expr ⟨text, true⟩ = .ok e →
      ∃ tokens front, Token.scan text = .ok tokens ∧ front <+: tokens ∧
        Expr.ofSymbols false (front.map Token.symbol) = .ok e) := by
  refine ⟨?_, ?_, ?_, ?_⟩
  · intro e
    unfold Expr.ofText
    rw [RuleText.expr_eq_ok]
    simp only [Expr.ofSymbols_iff_derives]
  · intro tokens hscan
    refine ⟨fun e e' h h' => derives_unique h h', ?_, ?_⟩
    · intro hnone
      have hrefused (e : Expr) : Expr.ofSymbols false (tokens.map Token.symbol) ≠ .ok e :=
        fun he => hnone e (Expr.ofSymbols_iff_derives.mp he)
      exact @RuleText.expr_of_refused ⟨text, false⟩ tokens hscan hrefused
    · intro depth hdepth
      obtain ⟨result, hread, _⟩ := read_within depth .whole (tokens.map Token.symbol)
        (by simpa [Level.height] using hdepth)
      refine ⟨by simp [hread], fun allowTrailing => ?_⟩
      exact outcome_whole ⟨text, allowTrailing⟩ hscan hdepth
  · intro e h
    obtain ⟨tokens, hscan, hread⟩ := RuleText.expr_eq_ok.mp h
    obtain ⟨rest, hwhole, _⟩ := Expr.ofSymbols_eq_ok.mp hread
    exact RuleText.expr_eq_ok.mpr ⟨tokens, hscan, Expr.ofSymbols_eq_ok.mpr ⟨rest, hwhole, .inl rfl⟩⟩
  · intro e h
    obtain ⟨tokens, hscan, hread⟩ := RuleText.expr_eq_ok.mp h
    obtain ⟨rest, hwhole, _⟩ := Expr.ofSymbols_eq_ok.mp hread
    obtain ⟨symbols, hsplit, hderives⟩ := derives_of_readWhole hwhole
    obtain ⟨front, back, rfl, rfl, _⟩ := List.map_eq_append_iff.mp hsplit
    exact ⟨front ++ back, front, hscan, List.prefix_append front back,
      Expr.ofSymbols_iff_derives.mpr hderives⟩

/-- A group around nothing is no operand, but it can be called. -/
theorem ofText_iff_derives_called_group :
    Expr.ofText "()(x, y)" =
      .ok (.call .empty (.binary .sequence (.var "x") (.var "y"))) := by
  have hgroup : Derives .term [.opening, .closing] .empty :=
    .group (.alone _ (.alone _ (.alone _ (.alone _ (.term .nothing)))))
  have hname (s : String) : Derives (.binary .or) [.name s] (.var s) :=
    .alone _ (.alone _ (.alone _ (.term (.name s))))
  have hargs : Derives .whole [.name "x", .comma, .name "y"]
      (.binary .sequence (.var "x") (.var "y")) :=
    .join .sequence (hname "x") (by decide) (.alone _ (hname "y")) (by decide)
  have hcall : Derives .whole
      [.opening, .closing, .opening, .name "x", .comma, .name "y", .closing]
      (.call .empty (.binary .sequence (.var "x") (.var "y"))) :=
    .alone _ (.alone _ (.alone _ (.alone _ (.call hgroup (by decide) hargs))))
  exact ((ofText_iff_derives "()(x, y)").1 _).mpr ⟨_, rfl, hcall⟩

end Passage
