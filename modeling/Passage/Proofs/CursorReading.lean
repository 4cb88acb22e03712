import Passage.Expr.CursorReading
import Passage.Proofs.Tiling

/-!
# Reading with a cursor

The reader with a cursor over the tokens of a text reads what the reader of their symbols reads, or
comes to the same complaint: what that one leaves are the symbols of the tokens ahead, and the end
mark stands where it has no symbol left. No move goes past the end mark.
-/
namespace Passage

theorem Symbol.ofRun_ne_ending (run : String) : ofRun run ≠ .ending := by
  unfold ofRun
  split_ifs <;> nofun

theorem BinaryOp.mark_ne_ending (op : BinaryOp) : op.mark ≠ .ending := by
  cases op <;> decide

/-- The end mark is none of the tokens that stand before it. -/
theorem Token.symbol_ne_ending {text : String} {tokens : List Token} (h : scan text = .ok tokens)
    {token : Token} (htoken : token ∈ tokens) : token.symbol ≠ .ending := by
  obtain ⟨items, -, rfl⟩ := exists_tiles_of_scan h
  have hmem : token.symbol ∈ (tokensOf 1 items).map Token.symbol := List.mem_map_of_mem htoken
  rw [symbols_tokensOf, List.mem_flatMap] at hmem
  obtain ⟨item, -, hsymbol⟩ := hmem
  intro hending
  rw [hending, Option.mem_toList] at hsymbol
  cases item with
  | run chars hne hall =>
    rw [Item.symbol?_run] at hsymbol
    exact Symbol.ofRun_ne_ending _ (Option.some.inj hsymbol)
  | blank | opening | closing | comma | equal | quoted => cases hsymbol

namespace Reading

open Descent

/-! ## Depth that is not needed -/

/-- A reader that has an outcome has the same one at any greater depth. -/
theorem read_of_le {depth depth' : Nat} (hle : depth ≤ depth') (level : Level)
    (symbols : List Symbol) : Extends (read depth level symbols) (read depth' level symbols) := by
  induction depth generalizing depth' level symbols with
  | zero => exact extends_none _
  | succ depth ih =>
    obtain ⟨depth', rfl⟩ : ∃ lower, depth' = lower + 1 := ⟨depth' - 1, by omega⟩
    have hle : depth ≤ depth' := Nat.le_of_succ_le_succ hle
    cases level with
    | binary op =>
      unfold read
      refine (ih hle _ _).bind fun pair => ?_
      obtain ⟨lhs, rest⟩ := pair
      cases rest with
      | nil => exact .refl _
      | cons symbol later =>
        dsimp only
        split
        · exact .refl _
        · split
          · exact .refl _
          · exact (ih hle _ _).bind fun _ => .refl _
    | call =>
      unfold read
      refine (ih hle _ _).bind fun pair => ?_
      obtain ⟨callee, rest⟩ := pair
      dsimp only
      split
      · exact (ih hle _ _).bind fun _ => .refl _
      · exact .refl _
    | term =>
      unfold read
      split
      · exact .refl _
      · exact .refl _
      · exact .refl _
      · exact (ih hle _ _).bind fun _ => .refl _
      · exact .refl _

/-! ## What the cursor shows -/

open Cursor Passage.Action

/-- What a reader with a cursor over the tokens comes to where a reader of their symbols comes to a
given outcome. -/
inductive Shown (text : String) (tokens : List Token) :
    Option (Except Refusal (Expr × List Symbol)) →
      Option (Except CursorReadError Expr × Cursor Token) → Prop
  | tooDeep : Shown text tokens none none
  | read (e : Expr) {front ahead : List Token} : tokens = front ++ ahead →
    Shown text tokens (some (.ok (e, ahead.map Token.symbol)))
      (some (.ok e, between front (ahead ++ [Token.endOf text])))
  | refused (complaint : Complaint) {front ahead : List Token} : tokens = front ++ ahead →
    Shown text tokens (some (.error ⟨complaint, ahead.map Token.symbol⟩))
      (some (.error (.reading
        (.grammar complaint (RuleText.positionOf text tokens ahead.length) text)),
        between front (ahead ++ [Token.endOf text])))

namespace CursorReader

variable {front rest : List Token} {token : Token}

theorem outcome_ahead :
    ahead.outcome (between front (token :: rest)) =
      some (.ok token, between front (token :: rest)) := by
  have hend : (between front (token :: rest)).pastEnd 1 = false := pastEnd_one front _
  have hfound : wrapped? (front ++ token :: rest) (front.length - 1 + 1 : Int) = some token := by
    rw [Int.sub_add_cancel, wrapped?, if_pos (Int.natCast_nonneg _), Int.toNat_natCast,
      List.getElem?_append_right (Nat.le_refl _), Nat.sub_self]
    rfl
  rw [ahead, outcome_ofOutcome, peekLast, hend]
  simp only [between, hfound]
  rfl

theorem outcome_take :
    take.outcome (between front (token :: rest)) =
      some (.ok token, between (front ++ [token]) rest) := by
  have hmove := @advance_between _ front rest [token] (List.cons_ne_nil _ _)
  rw [take, outcome_ofOutcome]
  exact congrArg (fun pair : Except CursorError Token × Cursor Token =>
    some (pair.1.mapError CursorReadError.cursor, pair.2)) hmove

/-- A complaint is about the token ahead. -/
theorem outcome_complain {α : Type} (text : String) (complaint : Complaint)
    (front ahead : List Token) :
    (complain text complaint : CursorReader α).outcome
        (between front (ahead ++ [Token.endOf text])) =
      some (.error (.reading
        (.grammar complaint (RuleText.positionOf text (front ++ ahead) ahead.length) text)),
        between front (ahead ++ [Token.endOf text])) := by
  have hdrop : (front ++ ahead).drop ((front ++ ahead).length - ahead.length) = ahead := by
    rw [List.length_append, Nat.add_sub_cancel, List.drop_left]
  unfold RuleText.positionOf
  rw [hdrop]
  cases ahead with
  | nil => exact outcome_bind_ok outcome_ahead _
  | cons token later => exact outcome_bind_ok outcome_ahead _

/-- The closing parenthesis is taken if it is the token ahead; if not, the complaint is about
that token. -/
theorem outcome_close (text : String) (front ahead : List Token) :
    (∃ token later, ahead = token :: later ∧
      Reading.close (ahead.map Token.symbol) = .ok (later.map Token.symbol) ∧
      (close text).outcome (between front (ahead ++ [Token.endOf text])) =
        some (.ok (), between (front ++ [token]) (later ++ [Token.endOf text]))) ∨
    Reading.close (ahead.map Token.symbol) = .error ⟨.unclosed, ahead.map Token.symbol⟩ ∧
      (close text).outcome (between front (ahead ++ [Token.endOf text])) =
        some (.error (.reading
          (.grammar .unclosed (RuleText.positionOf text (front ++ ahead) ahead.length) text)),
          between front (ahead ++ [Token.endOf text])) := by
  unfold close
  cases ahead with
  | nil =>
    refine .inr ⟨rfl, ?_⟩
    rw [← @outcome_complain Unit text .unclosed front []]
    exact outcome_bind_ok outcome_ahead _
  | cons token later =>
    rw [List.cons_append, outcome_bind_ok outcome_ahead]
    by_cases hclosing : token.symbol = .closing
    · refine .inl ⟨token, later, rfl, by rw [List.map_cons, hclosing]; rfl, ?_⟩
      rw [if_neg (not_not.mpr hclosing), outcome_bind_ok outcome_take]
      rfl
    · refine .inr ⟨?_, ?_⟩
      · rw [List.map_cons]
        unfold Reading.close
        split
        · rename_i heq
          exact absurd (List.cons.inj heq).1 hclosing
        · rfl
      · rw [if_pos hclosing]
        exact outcome_complain text .unclosed front (token :: later)

end CursorReader

variable {text : String} {tokens : List Token} {cursor : Cursor Token}
  {outcome : Option (Except Refusal (Expr × List Symbol))} {act : CursorReader Expr}

namespace Shown

theorem complain (complaint : Complaint) {front ahead : List Token}
    (h : tokens = front ++ ahead) :
    Shown text tokens (some (.error ⟨complaint, ahead.map Token.symbol⟩))
      ((CursorReader.complain text complaint).outcome
        (between front (ahead ++ [Token.endOf text]))) := by
  rw [CursorReader.outcome_complain, ← h]
  exact .refused complaint h

/-- What follows a part is shown if it is shown from wherever that part may leave the cursor. -/
theorem bind {next : Expr × List Symbol → ExceptT Refusal Option (Expr × List Symbol)}
    {then' : Expr → CursorReader Expr} (h : Shown text tokens outcome (act.outcome cursor))
    (hnext : ∀ e front ahead, tokens = front ++ ahead →
      Shown text tokens (ExceptT.run (next (e, ahead.map Token.symbol)))
        ((then' e).outcome (between front (ahead ++ [Token.endOf text])))) :
    Shown text tokens (ExceptT.run (ExceptT.mk outcome >>= next))
      ((act >>= then').outcome cursor) := by
  generalize hact : act.outcome cursor = found at h
  cases h with
  | tooDeep =>
    rw [outcome_bind_none hact]
    exact .tooDeep
  | read e htokens =>
    rw [bind_ok rfl, outcome_bind_ok hact]
    exact hnext e _ _ htokens
  | refused complaint htokens =>
    rw [bind_error rfl, outcome_bind_error hact]
    exact .refused complaint htokens

/-- A group is shown up to the closing parenthesis, or the complaint about what stands there. -/
theorem group (wrap : Expr → Expr) (h : Shown text tokens outcome (act.outcome cursor)) :
    Shown text tokens
      (ExceptT.run do
        let (inner, rest) ← ExceptT.mk outcome
        let rest ← ExceptT.mk (some (close rest))
        return (wrap inner, rest))
      ((do
        let inner ← act
        CursorReader.close text
        return wrap inner : CursorReader Expr).outcome cursor) := by
  refine h.bind fun inner front ahead htokens => ?_
  rcases CursorReader.outcome_close text front ahead with
    ⟨token, later, rfl, hclose, hcursor⟩ | ⟨hclose, hcursor⟩
  · rw [outcome_bind_ok hcursor]
    dsimp only
    rw [hclose]
    exact .read (wrap inner) (htokens.trans (List.append_cons front token later))
  · rw [outcome_bind_error hcursor, ← htokens]
    dsimp only
    rw [hclose]
    exact .refused .unclosed htokens

end Shown

/-- A level is shown at every depth, from wherever the cursor stands. -/
theorem shown_read (depth : Nat) (level : Level) {front ahead : List Token}
    (htokens : tokens = front ++ ahead) :
    Shown text tokens (read depth level (ahead.map Token.symbol))
      ((CursorReader.read text depth level).outcome
        (between front (ahead ++ [Token.endOf text]))) := by
  induction depth generalizing level front ahead with
  | zero => exact .tooDeep
  | succ depth ih =>
    cases level with
    | binary op =>
      unfold read CursorReader.read
      refine (ih _ htokens).bind fun lhs front ahead htokens => ?_
      cases ahead with
      | nil =>
        have hending : (Token.endOf text).symbol ≠ op.mark := (BinaryOp.mark_ne_ending op).symm
        rw [List.nil_append, outcome_bind_ok CursorReader.outcome_ahead, if_pos hending]
        exact .read lhs htokens
      | cons token later =>
        have hlater := htokens.trans (List.append_cons front token later)
        rw [List.cons_append, List.map_cons, outcome_bind_ok CursorReader.outcome_ahead]
        dsimp only
        split
        · exact .read lhs htokens
        · split
          · exact .complain (.missingLeft op) htokens
          · rw [outcome_bind_ok CursorReader.outcome_take]
            refine (ih _ hlater).bind fun rhs front ahead htokens => ?_
            dsimp only
            split
            · exact .complain (.missingRight op) htokens
            · exact .read _ htokens
    | call =>
      unfold read CursorReader.read
      refine (ih _ htokens).bind fun callee front ahead htokens => ?_
      cases ahead with
      | nil =>
        have hending : (Token.endOf text).symbol ≠ .opening := Symbol.noConfusion
        rw [List.nil_append, outcome_bind_ok CursorReader.outcome_ahead, if_pos hending]
        exact .read callee htokens
      | cons token later =>
        have hlater := htokens.trans (List.append_cons front token later)
        rw [List.cons_append, List.map_cons, outcome_bind_ok CursorReader.outcome_ahead]
        by_cases hopening : token.symbol = .opening
        · rw [if_neg (not_not.mpr hopening), hopening, outcome_bind_ok CursorReader.outcome_take]
          exact (ih _ hlater).group (Expr.call callee)
        · rw [if_pos hopening]
          dsimp only
          split
          · rename_i heq
            exact absurd (List.cons.inj heq).1 hopening
          · exact .read callee htokens
    | term =>
      unfold read CursorReader.read
      cases ahead with
      | nil =>
        rw [List.nil_append, outcome_bind_ok CursorReader.outcome_ahead]
        exact .read .empty htokens
      | cons token later =>
        have hlater := htokens.trans (List.append_cons front token later)
        rw [List.cons_append, outcome_bind_ok CursorReader.outcome_ahead, List.map_cons]
        obtain ⟨symbol, position⟩ := token
        cases symbol with
        | name | bool | text =>
          dsimp only
          rw [outcome_bind_ok CursorReader.outcome_take]
          exact .read _ hlater
        | opening =>
          dsimp only
          rw [outcome_bind_ok CursorReader.outcome_take]
          exact (ih _ hlater).group id
        | closing | comma | equal | and | or | ending => exact .read .empty htokens

/-- With depth in proportion to the tokens, the reader with a cursor reads a text as what it is, or
comes to the complaint about it. -/
theorem outcome_whole (rule : RuleText) {tokens : List Token}
    (hscan : Token.scan rule.text = .ok tokens) {depth : Nat}
    (hdepth : 6 + 6 * tokens.length ≤ depth) :
    ∃ final, (CursorReader.whole depth rule).outcome
        (start (tokens ++ [Token.endOf rule.text])) =
      some (rule.expr.mapError .reading, final) := by
  have hread : read depth .whole (tokens.map Token.symbol) =
      some (readWhole (tokens.map Token.symbol)) := by
    refine read_of_le ?_ .whole _ _ (Option.some_get _).symm
    rwa [depthFor, List.length_map]
  have hshown := @shown_read rule.text tokens depth .whole [] tokens rfl
  rw [hread, ← start_eq_between] at hshown
  unfold CursorReader.whole RuleText.expr Expr.ofSymbols
  rw [hscan]
  dsimp only
  generalize readWhole (tokens.map Token.symbol) = outcome at hshown
  generalize hact : (CursorReader.read rule.text depth .whole).outcome
    (start (tokens ++ [Token.endOf rule.text])) = found at hshown
  cases hshown with
  | @refused complaint front ahead htokens =>
    refine ⟨between front (ahead ++ [Token.endOf rule.text]), ?_⟩
    rw [outcome_bind_error hact, ← List.length_map Token.symbol]
    rfl
  | @read e front ahead htokens =>
    rw [outcome_bind_ok hact]
    cases hallow : rule.allowTrailing with
    | true => exact ⟨_, rfl⟩
    | false =>
      rw [if_neg Bool.false_ne_true]
      cases ahead with
      | nil =>
        rw [List.nil_append, outcome_bind_ok CursorReader.outcome_ahead]
        exact ⟨_, rfl⟩
      | cons token later =>
        have hmem : token ∈ tokens := by simp [htokens]
        rw [List.cons_append, outcome_bind_ok CursorReader.outcome_ahead,
          if_pos (Token.symbol_ne_ending hscan hmem)]
        refine ⟨between front (token :: later ++ [Token.endOf rule.text]), ?_⟩
        rw [← List.cons_append, CursorReader.outcome_complain, ← htokens,
          ← List.length_map Token.symbol]
        rfl

end Reading

end Passage
