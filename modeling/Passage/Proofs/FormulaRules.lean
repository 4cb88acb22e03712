import Passage.Proofs.FormulaGrammar
import Passage.Proofs.FormulaTruth
import Passage.Proofs.Grammar
import Passage.Proofs.PlainRules

/-!
# Formulas as rules

A text that is a formula is a rule as well. The two scanners march in step over it, because no mark
of a formula is stray; the rule that its symbols derive is the formula, written as an expression
(`Formula.WrittenAs`). Where the names stand for the same truth values, or for none, both come to
the same truth value, or both miss the same name: all operands are evaluated on both sides, from
left to right.

Rules have no lower-case literals. Such a literal is a name to them, so it has to be bound.
-/
namespace Passage

namespace Formula

/-- The lower-case literal of a truth value. -/
def lowerCase (b : Bool) : String := if b then "true" else "false"

/-- What a symbol of a rule is to a formula. The symbols that are missing belong to no formula. -/
inductive Stands : Symbol → Mark → Prop
  | opening : Stands .opening .opening
  | closing : Stands .closing .closing
  | and : Stands .and .and
  | or : Stands .or .or
  | bool (b : Bool) : Stands (.bool b) (.const b)
  | literal (b : Bool) : Stands (.name (lowerCase b)) (.const b)
  | name {s : String} : (∀ b, s ≠ lowerCase b) → Stands (.name s) (.name s)

/-- A run that no word character follows means the same in a rule and in a formula. -/
theorem stands_ofRun (run : String) : Stands (Symbol.ofRun run) (.ofRun true run) := by
  unfold Symbol.ofRun Mark.ofRun
  rw [if_pos rfl]
  by_cases hand : run = "AND"
  · rw [if_pos hand, if_pos hand]
    exact .and
  rw [if_neg hand, if_neg hand]
  by_cases hor : run = "OR"
  · rw [if_pos hor, if_pos hor]
    exact .or
  rw [if_neg hor, if_neg hor]
  by_cases htrue : run = "TRUE"
  · rw [if_pos htrue, if_pos (.inl htrue)]
    exact .bool true
  rw [if_neg htrue]
  by_cases hfalse : run = "FALSE"
  · subst hfalse
    exact .bool false
  rw [if_neg hfalse]
  by_cases hlower : run = "true"
  · subst hlower
    exact .literal true
  rw [if_neg (by simp [htrue, hlower])]
  by_cases hlower' : run = "false"
  · subst hlower'
    exact .literal false
  rw [if_neg (by simp [hfalse, hlower'])]
  refine .name fun b => ?_
  cases b with
  | true => exact hlower
  | false => exact hlower'

/-- The tokens of a rule stand, one by one, for those of a formula. -/
def March (symbols : List Passage.Token) (marks : List Token) : Prop :=
  List.Forall₂ Stands (symbols.map Passage.Token.symbol) (marks.map Token.mark)

theorem March.append {symbols symbols' : List Passage.Token} {marks marks' : List Token}
    (h : March symbols marks) (h' : March symbols' marks') :
    March (symbols ++ symbols') (marks ++ marks') := by
  unfold March
  rw [List.map_append, List.map_append]
  exact List.rel_append h h'

/-- Both scanners stand between two items, or in the same run. -/
inductive SameMode : Passage.Token.Mode → Token.Mode → Prop
  | between : SameMode .between .between
  | inRun (position offset : Nat) (heard : List Char) :
    SameMode (.inName position heard) (.inRun offset heard)

/-- No token is stray. -/
def Clean (tokens : List Token) : Prop := ∀ c, .stray c ∉ tokens.map Token.mark

theorem clean_append {front back : List Token} :
    Clean (front ++ back) ↔ Clean front ∧ Clean back := by
  simp only [Clean, List.map_append, List.mem_append, not_or, forall_and]

theorem Clean.tail {token : Token} {rest : List Token} (h : Clean (token :: rest)) : Clean rest :=
  fun c hc => h c (List.mem_cons_of_mem _ hc)

/-- The characters that start a token of a formula are name characters, or no word characters at
all. -/
theorem isWordChar_of_clean {offset : Nat} {c : Char} (hclean : Clean (Token.first offset c).1)
    (hname : Text.isNameChar c = false) : Text.isWordChar c = false := by
  unfold Token.first at hclean
  split at hclean
  · rename_i hblank
    simp only [Token.isBlank, Bool.or_eq_true, beq_iff_eq] at hblank
    rcases hblank with ((rfl | rfl) | rfl) | rfl <;> rfl
  · split at hclean
    · rename_i hopening
      subst hopening
      rfl
    · split at hclean
      · rename_i hclosing
        subst hclosing
        rfl
      · rw [if_neg (by simp [hname])] at hclean
        exact absurd List.mem_cons_self (hclean c)

theorem first_marches {offset : Nat} {c : Char} (hclean : Clean (Token.first offset c).1)
    (position : Nat) :
    ∃ tokens mode, Passage.Token.first position c = .ok (tokens, mode) ∧
      SameMode mode (Token.first offset c).2 ∧ March tokens (Token.first offset c).1 := by
  by_cases hblank : Token.isBlank c = true
  · have hblank' : Passage.Token.isBlank c = true := hblank
    simp only [Passage.Token.first, Token.first, hblank, hblank', if_true]
    exact ⟨_, _, rfl, .between, .nil⟩
  have hblank' : Passage.Token.isBlank c ≠ true := hblank
  by_cases hopening : c = '('
  · subst hopening
    exact ⟨_, _, rfl, .between, .cons .opening .nil⟩
  by_cases hclosing : c = ')'
  · subst hclosing
    exact ⟨_, _, rfl, .between, .cons .closing .nil⟩
  by_cases hname : Text.isNameChar c = true
  · rw [Passage.Token.first_of_isNameChar hname, Token.first, if_neg hblank, if_neg hopening,
      if_neg hclosing, if_pos hname]
    exact ⟨_, _, rfl, .inRun position offset [c], .nil⟩
  · rw [Token.first, if_neg hblank, if_neg hopening, if_neg hclosing, if_neg hname] at hclean
    exact absurd List.mem_cons_self (hclean c)

theorem step_marches {mode : Passage.Token.Mode} {mode' : Token.Mode} (hmode : SameMode mode mode')
    {offset : Nat} {c : Char} (hclean : Clean (Token.step mode' offset c).1) (position : Nat) :
    ∃ tokens next, Passage.Token.step mode position c = .ok (tokens, next) ∧
      SameMode next (Token.step mode' offset c).2 ∧ March tokens (Token.step mode' offset c).1 := by
  cases hmode with
  | between => exact first_marches hclean position
  | inRun start start' heard =>
    cases hname : Text.isNameChar c with
    | true =>
      simp only [Passage.Token.step, Token.step, hname, if_true]
      exact ⟨_, _, rfl, .inRun start start' (c :: heard), .nil⟩
    | false =>
      simp only [Token.step, hname] at hclean ⊢
      have hrest : Clean (Token.first offset c).1 := hclean.tail
      obtain ⟨tokens, next, hfirst, hnext, hmarch⟩ := first_marches hrest position
      -- The character behind the run is no word character, so the run stands alone.
      simp only [Passage.Token.step, hname, hfirst, isWordChar_of_clean hrest hname]
      exact ⟨_, _, rfl, hnext, .cons (stands_ofRun _) hmarch⟩

theorem run_marches {mode : Passage.Token.Mode} {mode' : Token.Mode} (hmode : SameMode mode mode')
    {offset : Nat} {text : List Char} (hclean : Clean (Token.run mode' offset text).1)
    (position : Nat) :
    ∃ tokens next, Passage.Token.run mode position text = .ok (tokens, next) ∧
      SameMode next (Token.run mode' offset text).2 ∧
      March tokens (Token.run mode' offset text).1 := by
  induction text generalizing mode mode' offset position with
  | nil => exact ⟨[], mode, rfl, hmode, .nil⟩
  | cons c rest ih =>
    obtain ⟨hfirst, hrest⟩ := clean_append.mp hclean
    obtain ⟨found, middle, hstep, hmiddle, hfound⟩ := step_marches hmode hfirst position
    obtain ⟨later, next, hrun, hnext, hlater⟩ := ih hmiddle hrest (position + 1)
    refine ⟨found ++ later, next, ?_, hnext, hfound.append hlater⟩
    rw [Passage.Token.run, hstep]
    show (Passage.Token.run middle (position + 1) rest >>= _) = _
    rw [hrun]
    rfl

theorem finish_marches {mode : Passage.Token.Mode} {mode' : Token.Mode}
    (hmode : SameMode mode mode') (position : Nat) :
    ∃ last, Passage.Token.finish mode position = .ok last ∧ March last (Token.finish mode') := by
  cases hmode with
  | between => exact ⟨[], rfl, .nil⟩
  | inRun start start' heard => exact ⟨_, rfl, .cons (stands_ofRun _) .nil⟩

/-- A text without a stray mark consists of tokens of rules. -/
theorem scan_marches {text : String} (hclean : Clean (Token.scan text)) :
    ∃ tokens, Passage.Token.scan text = .ok tokens ∧ March tokens (Token.scan text) := by
  obtain ⟨hrun, _⟩ := clean_append.mp hclean
  obtain ⟨found, mode, hfound, hmode, hmarch⟩ := run_marches .between hrun 1
  obtain ⟨last, hlast, hend⟩ := finish_marches hmode (text.toList.length + 1)
  refine ⟨found ++ last, ?_, hmarch.append hend⟩
  rw [Passage.Token.scan, Passage.Token.scanChars, hfound]
  show (Passage.Token.finish mode (text.toList.length + 1) >>= _) = _
  rw [hlast]
  rfl

/-- The expressions of a formula: a constant is a truth value, or the name of its literal. -/
inductive WrittenAs : Formula → Expr → Prop
  | bool (b : Bool) : WrittenAs (.const b) (.bool b)
  | literal (b : Bool) : WrittenAs (.const b) (.var (lowerCase b))
  | flag {name : String} : (∀ b, name ≠ lowerCase b) → WrittenAs (.flag name) (.var name)
  | and {lhs rhs : Formula} {l r : Expr} :
    WrittenAs lhs l → WrittenAs rhs r → WrittenAs (.and lhs rhs) (.binary .and l r)
  | or {lhs rhs : Formula} {l r : Expr} :
    WrittenAs lhs l → WrittenAs rhs r → WrittenAs (.or lhs rhs) (.binary .or l r)

theorem WrittenAs.ne_empty {f : Formula} {e : Expr} (h : f.WrittenAs e) : e ≠ .empty := by
  cases h <;> nofun

/-- The level of the rules at which a level of the formulas is derived. -/
def Level.inRules : Level → Reading.Level
  | disjunction => .binary .or
  | conjunction => .binary .and
  | term => .term

/-- Where a symbol stands for each mark, the symbols before a mark stand for the marks before it. -/
theorem forall₂_stands_append {symbols : List Symbol} {front back : List Mark}
    (h : List.Forall₂ Stands symbols (front ++ back)) :
    ∃ left right, symbols = left ++ right ∧ List.Forall₂ Stands left front ∧
      List.Forall₂ Stands right back :=
  ⟨_, _, (List.take_append_drop front.length symbols).symm, List.forall₂_take_append _ _ _ h,
    List.forall₂_drop_append _ _ _ h⟩

/-- The symbols that stand for the marks of a formula derive an expression of it. -/
theorem rule_of_derives {level : Level} {marks : List Mark} {f : Formula}
    (h : Derives level marks f) {symbols : List Symbol}
    (hstands : List.Forall₂ Stands symbols marks) :
    ∃ e, f.WrittenAs e ∧ Reading.Derives level.inRules symbols e := by
  induction h generalizing symbols with
  | conjunction _ ih =>
    obtain ⟨e, hwritten, hderives⟩ := ih hstands
    exact ⟨e, hwritten, .alone .or hderives⟩
  | or _ _ ihl ihr =>
    obtain ⟨left, _, rfl, hleft, hjoint⟩ := forall₂_stands_append hstands
    cases hjoint with
    | cons hmark hright =>
      cases hmark
      obtain ⟨l, hl, hderivesl⟩ := ihl hleft
      obtain ⟨r, hr, hderivesr⟩ := ihr hright
      exact ⟨.binary .or l r, .or hl hr, .join .or hderivesl hl.ne_empty hderivesr hr.ne_empty⟩
  | term _ ih =>
    obtain ⟨e, hwritten, hderives⟩ := ih hstands
    exact ⟨e, hwritten, (Reading.Derives.term hderives).ofCall .and⟩
  | and _ _ ihl ihr =>
    obtain ⟨left, _, rfl, hleft, hjoint⟩ := forall₂_stands_append hstands
    cases hjoint with
    | cons hmark hright =>
      cases hmark
      obtain ⟨l, hl, hderivesl⟩ := ihl hleft
      obtain ⟨r, hr, hderivesr⟩ := ihr hright
      exact ⟨.binary .and l r, .and hl hr,
        .join .and ((Reading.Derives.term hderivesl).ofCall .equal)
        hl.ne_empty hderivesr hr.ne_empty⟩
  | const b =>
    cases hstands with
    | cons hmark hnone =>
      cases hnone
      cases hmark with
      | bool => exact ⟨.bool b, .bool b, .bool b⟩
      | literal => exact ⟨.var (lowerCase b), .literal b, .name (lowerCase b)⟩
  | flag name =>
    cases hstands with
    | cons hmark hnone =>
      cases hnone
      cases hmark with
      | name hlower => exact ⟨.var name, .flag hlower, .name name⟩
  | group _ ih =>
    cases hstands with
    | cons hopening hrest =>
      cases hopening
      obtain ⟨inner, _, rfl, hinner, hjoint⟩ := forall₂_stands_append hrest
      cases hjoint with
      | cons hclosing hnone =>
        cases hnone
        cases hclosing
        obtain ⟨e, hwritten, hderives⟩ := ih hinner
        exact ⟨e, hwritten, .group (.alone .sequence hderives)⟩

/-- A text that is a formula consists of the tokens of a rule, which derive an expression of it. -/
theorem derives_of_ofText {rule : String} {f : Formula} (h : ofText rule = .ok f) :
    ∃ tokens e, Passage.Token.scan rule = .ok tokens ∧
      Reading.Derives .whole (tokens.map Passage.Token.symbol) e ∧ f.WrittenAs e := by
  have hderives := ofText_eq_ok_iff.mp h
  have hclean : Clean (Token.scan rule) := hderives.stray_notMem
  obtain ⟨tokens, hscan, hmarch⟩ := scan_marches hclean
  obtain ⟨e, hwritten, hrule⟩ := rule_of_derives hderives hmarch
  exact ⟨tokens, e, hscan, .alone .sequence hrule, hwritten⟩

/-- A text of these tokens is read, with or without leave to ignore what follows. -/
theorem expr_of_derives {rule : String} {tokens : List Passage.Token} {e : Expr}
    (hscan : Passage.Token.scan rule = .ok tokens)
    (h : Reading.Derives .whole (tokens.map Passage.Token.symbol) e) (allowTrailing : Bool) :
    RuleText.expr ⟨rule, allowTrailing⟩ = .ok e :=
  RuleText.expr_eq_ok.mpr
    ⟨tokens, hscan, Expr.ofSymbols_eq_ok.mpr ⟨[], Reading.readWhole_of_derives h, .inr rfl⟩⟩

/-- The same truth value, or the same name that stands for none. -/
inductive SameResult : Except FlagError Bool → Except Fault Expr → Prop
  | truth (b : Bool) : SameResult (.ok b) (.ok (.bool b))
  | undefined (name : String) : SameResult (.error (.undefined name)) (.error (.undefined name))

/-- Two results are joined in the same way, the left one first. -/
theorem SameResult.join {op : BinaryOp} {connect : Bool → Bool → Bool}
    (hop : ∀ a b, combine op (.bool a) (.bool b) = .ok (.bool (connect a b)))
    {l r : Except FlagError Bool} {l' r' : Except Fault Expr} (hl : SameResult l l')
    (hr : SameResult r r') :
    SameResult (do let l ← l; let r ← r; return connect l r)
      (l' >>= fun l => r' >>= fun r => combine op l r) := by
  cases hl with
  | undefined name => exact .undefined name
  | truth b =>
    cases hr with
    | undefined name => exact .undefined name
    | truth c =>
      show SameResult (.ok (connect b c)) (combine op (.bool b) (.bool c))
      rw [hop]
      exact .truth (connect b c)

/-- A formula and its expression have the same result, if the names in them have. -/
theorem WrittenAs.evaluates {f : Formula} {e : Expr} (h : f.WrittenAs e) {flags : Table Value}
    {env : Env} {context : Option String}
    (hliteral : ∀ b, lowerCase b ∈ e.names → env.lookup (lowerCase b) context = .ok (.bool b))
    (hflags : ∀ name ∈ f.flags, (∀ b, name ≠ lowerCase b) →
      SameResult (flagValue flags name) (env.lookup name context)) :
    ∃ result, SameResult (f.eval flags) result ∧ env.Evaluates context e result := by
  induction h with
  | bool b => exact ⟨_, .truth b, Env.evaluates_value rfl⟩
  | literal b =>
    refine ⟨_, .truth b, ?_⟩
    rw [← hliteral b List.mem_cons_self]
    exact Env.evaluates_var (lowerCase b)
  | @flag name hlower =>
    exact ⟨_, hflags name List.mem_cons_self hlower, Env.evaluates_var name⟩
  | and _ _ ihl ihr =>
    obtain ⟨l, hl, hevall⟩ := ihl (fun b hb => hliteral b (List.mem_append_left _ hb))
      (fun name hname => hflags name (List.mem_append_left _ hname))
    obtain ⟨r, hr, hevalr⟩ := ihr (fun b hb => hliteral b (List.mem_append_right _ hb))
      (fun name hname => hflags name (List.mem_append_right _ hname))
    exact ⟨_, hl.join (fun _ _ => rfl) hr, Env.evaluates_operands (by decide) hevall hevalr⟩
  | or _ _ ihl ihr =>
    obtain ⟨l, hl, hevall⟩ := ihl (fun b hb => hliteral b (List.mem_append_left _ hb))
      (fun name hname => hflags name (List.mem_append_left _ hname))
    obtain ⟨r, hr, hevalr⟩ := ihr (fun b hb => hliteral b (List.mem_append_right _ hb))
      (fun name hname => hflags name (List.mem_append_right _ hname))
    exact ⟨_, hl.join (fun _ _ => rfl) hr, Env.evaluates_operands (by decide) hevall hevalr⟩

end Formula

open Formula

theorem Env.lookup_none_of_stack_nil {env : Env} (h : env.stack = []) (name : String) :
    env.lookup name none = match env.globals.get? name with
      | some value => .ok value
      | none => .error (.undefined name) := by
  simp only [Env.lookup, Env.local?, h]
  rfl

/-- A text that is a formula is a rule, whatever may follow a rule. Where the globals are the flags
and the two lower-case literals and nothing is called, both have the same truth value, or both fail
for want of the same name. -/
theorem formula_as_rule {rule : String} {f : Formula} (flags : Table Bool) (env : Env)
    (hstack : env.stack = [])
    (hglobals : ∀ name, env.globals.get? name =
      if name = "true" then some (.bool true)
      else if name = "false" then some (.bool false)
      else (flags.get? name).map Expr.bool)
    (hrule : Formula.ofText rule = .ok f) :
    ∃ e, (∀ allowTrailing, RuleText.expr ⟨rule, allowTrailing⟩ = .ok e) ∧
      ((∃ b, checkFormula (flags.map fun _ b => .bool b) rule = .ok b ∧
          env.Checks none rule (.ok b)) ∨
        ∃ name, checkFormula (flags.map fun _ b => .bool b) rule =
          .error (.flag (.undefined name)) ∧
          env.Checks none rule (.error (.failed e (.undefined name)))) := by
  obtain ⟨tokens, e, hscan, hderives, hwritten⟩ := derives_of_ofText hrule
  have hread := expr_of_derives hscan hderives
  have hliteral (b : Bool) : env.lookup (lowerCase b) none = .ok (.bool b) := by
    rw [Env.lookup_none_of_stack_nil hstack, hglobals]
    cases b <;> rfl
  have hflags (name : String) (hlower : ∀ b, name ≠ lowerCase b) :
      SameResult (flagValue (flags.map fun _ b => .bool b) name) (env.lookup name none) := by
    have htrue : name ≠ "true" := hlower true
    have hfalse : name ≠ "false" := hlower false
    rw [Env.lookup_none_of_stack_nil hstack, hglobals, if_neg htrue, if_neg hfalse, flagValue,
      Table.get?_map]
    cases flags.get? name with
    | none => exact .undefined name
    | some b => exact .truth b
  obtain ⟨result, hsame, hevaluates⟩ :=
    hwritten.evaluates (fun b _ => hliteral b) (fun name _ => hflags name)
  have hchecks := Env.checks_of_result (hread env.config.allowTrailing) hevaluates
  refine ⟨e, hread, ?_⟩
  rw [checkFormula_of_ofText hrule]
  generalize hvalue : f.eval (flags.map fun _ b => .bool b) = value at hsame ⊢
  cases hsame with
  | truth b => exact .inl ⟨b, rfl, hchecks⟩
  | undefined name => exact .inr ⟨name, rfl, hchecks⟩

/-- `OR_` and `ANDY` are names, `OR(` and `)AND` are not, and a decided conjunction is not the end
of it. -/
theorem formula_as_rule_keyword_prefixes :
    let rule := "OR_ OR(false AND x)AND\tANDY"
    let flags : Table Bool := .ofList [("OR_", true), ("x", true)]
    let env := Env.fresh {}
      (((flags.map fun _ b => Expr.bool b).insert "true" (.bool true)).insert "false" (.bool false))
      Env.noHosts
    ∃ e, (∀ allowTrailing, RuleText.expr ⟨rule, allowTrailing⟩ = .ok e) ∧
      env.Checks none rule (.error (.failed e (.undefined "ANDY"))) := by
  intro rule flags env
  have hglobals (name : String) : env.globals.get? name =
      if name = "true" then some (.bool true)
      else if name = "false" then some (.bool false)
      else (flags.get? name).map Expr.bool := by
    by_cases htrue : name = "true" <;> by_cases hfalse : name = "false" <;>
      simp [env, Env.fresh, Table.get?_insert, htrue, hfalse]
  have hrule : Formula.ofText rule = .ok (.or (.flag "OR_")
      (.and (.and (.const false) (.flag "x")) (.flag "ANDY"))) := by decide +kernel
  obtain ⟨e, hread, ⟨b, hb, _⟩ | ⟨name, hname, hchecks⟩⟩ :=
    formula_as_rule flags env rfl hglobals hrule
  · rw [Formula.checkFormula_of_ofText hrule] at hb
    cases hb
  · rw [Formula.checkFormula_of_ofText hrule] at hname
    cases hname
    exact ⟨e, hread, hchecks⟩

end Passage
