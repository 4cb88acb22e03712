import Passage.Formula.Pattern
import Passage.Proofs.FormulaGrammar

/-!
# Trees of the grammar

The tree that the reader makes is one that the pattern of a whole formula makes (`Makes`). Every
such tree, whatever read it, stands for the formula that the grammar derives from the marks at its
leaves, chains of any length included (`stands_of_makes`), so the reduction of any of them comes to
what this formula comes to.
-/
namespace Passage.Formula

open Formula.Tree

/-- What a pattern consists of, where the nodes have a property. -/
def Pattern.Consists (good : Rule → List Tree → Prop) : Pattern → List Tree → Prop
  | terminal kind, trees =>
    (∃ mark : Mark, mark.terminal? = some kind ∧ trees = [.token mark]) ∨
      kind = .ending ∧ trees = [.ending]
  | rule name, trees => ∃ children, trees = [.node name children] ∧ good name children
  | both first second, trees =>
    ∃ front back, trees = front ++ back ∧ first.Consists good front ∧ second.Consists good back
  | either first second, trees => first.Consists good trees ∨ second.Consists good trees
  | many body, trees => ∃ parts, trees = List.flatten parts ∧
    ∀ part ∈ parts, body.Consists good part

/-- A property that a node has if the nodes in it have it is that of all nodes. -/
theorem Makes.consists {good : Rule → List Tree → Prop}
    (hnode : ∀ name children, name.pattern.Consists good children → good name children)
    {pattern : Pattern} {trees : List Tree} (h : Makes pattern trees) :
    pattern.Consists good trees := by
  induction h with
  | terminal hmark => exact .inl ⟨_, hmark, rfl⟩
  | ending => exact .inr ⟨rfl, rfl⟩
  | rule _ ih => exact ⟨_, rfl, hnode _ _ ih⟩
  | both _ _ ih ih' => exact ⟨_, _, rfl, ih, ih'⟩
  | left _ ih => exact .inl ih
  | right _ ih => exact .inr ih
  | stop => exact ⟨[], rfl, nofun⟩
  | again _ _ ih ih' =>
    obtain ⟨parts, rfl, hparts⟩ := ih'
    exact ⟨_ :: parts, rfl, List.forall_mem_cons.mpr ⟨ih, hparts⟩⟩

/-- The level of the formulas for which the nodes of a rule stand. -/
def Rule.level : Rule → Level
  | group | term => .term
  | conjunction => .conjunction
  | disjunction | whole => .disjunction

namespace Link

def kind : Link → Terminal
  | or => .or
  | and => .and

theorem pattern_chain (link : Link) : link.chain.rule.pattern =
    .both (.rule link.operand.rule) (.many
      (.both (.terminal link.kind) (.rule link.operand.rule))) := by
  cases link <;> rfl

theorem terminal?_mark (link : Link) : link.mark.terminal? = some link.kind := by
  cases link <;> rfl

theorem eq_mark_of_terminal? {link : Link} {mark : Mark} (h : mark.terminal? = some link.kind) :
    mark = link.mark := by
  cases link <;> cases mark <;> cases h <;> rfl

end Link

/-! ## What is read -/

variable {level : Level} {marks rest : List Mark} {first links children : List Tree}

theorem makes_only (link : Link) (h : Makes link.operand.rule.pattern first) :
    Makes link.chain.rule.pattern [.node link.operand.rule first] := by
  rw [link.pattern_chain]
  exact .both (.rule h) .stop

theorem makes_joined (link : Link) (h : Makes link.operand.rule.pattern first)
    (hlinks : Makes link.chain.rule.pattern links) :
    Makes link.chain.rule.pattern
      (.node link.operand.rule first :: .token link.mark :: links) := by
  rw [link.pattern_chain] at hlinks ⊢
  cases hlinks with
  | both hnext hmany =>
    exact .both (.rule h) (.again (.both (.terminal link.terminal?_mark) hnext) hmany)

/-- What is read of a level is made by its rule. -/
theorem makes_of_read {depth : Nat} (h : read depth level marks = some (.ok (children, rest))) :
    Makes level.rule.pattern children := by
  induction depth generalizing level marks children rest with
  | zero => cases h
  | succ depth ih =>
    have hchain (link : Link)
        (h : read (depth + 1) link.chain marks = some (.ok (children, rest))) :
        Makes link.chain.rule.pattern children := by
      rcases cases_of_read_chain link h with ⟨_, _, ⟨⟩⟩ | ⟨first, _, hfirst, _, ⟨⟩⟩ |
        ⟨first, later, hfirst, hlater⟩
      · exact makes_only link (ih hfirst)
      · rcases hlater with ⟨_, _, ⟨⟩⟩ | ⟨links, _, hlinks, ⟨⟩⟩
        exact makes_joined link (ih hfirst) (ih hlinks)
    cases level with
    | disjunction => exact hchain .or h
    | conjunction => exact hchain .and h
    | term =>
      unfold read at h
      split at h
      · cases h
        exact .right (.left (.terminal rfl))
      · cases h
        exact .right (.right (.terminal rfl))
      · rcases Descent.cases_of_bind h with ⟨_, _, ⟨⟩⟩ | ⟨⟨inner, rest⟩, hinner, hnext⟩
        by_cases hclose : ∃ more, rest = .closing :: more
        · obtain ⟨more, rfl⟩ := hclose
          cases hnext
          have hgroup : Makes Rule.group.pattern [.token .opening, .node .disjunction inner,
              .token .closing] :=
            .both (.terminal rfl) (.both (.rule (ih hinner)) (.terminal rfl))
          exact .left (.rule hgroup)
        · rw [not_exists] at hclose
          dsimp only at hnext
          rw [close_eq_error hclose] at hnext
          cases hnext
      · cases h

/-- The tree of some marks is a tree of the grammar. -/
theorem makes_of_ofMarks {tree : Tree} (h : Tree.ofMarks marks = .ok tree) :
    Makes (.rule .whole) [tree] := by
  obtain ⟨result, hread⟩ := read_depthFor marks
  rw [ofMarks_of_read hread] at h
  match result, hread, h with
  | .ok (_, []), hread, rfl =>
    have hwhole : Makes Rule.whole.pattern _ := .both (.rule (makes_of_read hread)) .ending
    exact .rule hwhole

/-! ## What trees of the grammar stand for -/

/-- A node stands for what the grammar derives from its leaves. -/
def StandsForLeaves (name : Rule) (children : List Tree) : Prop :=
  ∃ f, (node name children).StandsFor f ∧ Derives name.level (marksIn children) f

theorem Level.level_rule (level : Level) : level.rule.level = level := by
  cases level <;> rfl

/-- A chain of any number of links stands for what nests to the right. -/
theorem stands_chain (link : Link) (h : StandsForLeaves link.operand.rule first)
    {parts : List (List Tree)} (hparts : ∀ part ∈ parts, (Pattern.both (.terminal link.kind)
      (.rule link.operand.rule)).Consists StandsForLeaves part) :
    StandsForLeaves link.chain.rule (.node link.operand.rule first :: parts.flatten) := by
  induction parts generalizing first with
  | nil =>
    obtain ⟨f, hf, hderives⟩ := h
    rw [Level.level_rule] at hderives
    refine ⟨f, hf.only link.chain.rule, ?_⟩
    rw [Level.level_rule, List.flatten_nil, marksIn, Tree.marks, marksIn, List.append_nil]
    exact hderives.alone link
  | cons part parts ih =>
    rw [List.forall_mem_cons] at hparts
    obtain ⟨⟨_, _, rfl, hoperator, ⟨next, rfl, hnext⟩⟩, hrest⟩ := hparts
    obtain ⟨lhs, hlhs, hleft⟩ := h
    obtain ⟨rhs, hrhs, hright⟩ := ih hnext hrest
    rw [Level.level_rule] at hleft hright
    rcases hoperator with ⟨mark, hmark, rfl⟩ | ⟨hkind, -⟩
    · cases Link.eq_mark_of_terminal? hmark
      refine ⟨link.join lhs rhs, hlhs.joined link hrhs, ?_⟩
      rw [Level.level_rule]
      exact hleft.joined link hright
    · cases link <;> cases hkind

/-- A terminal that is not the end makes a token of its kind. -/
theorem exists_mark_of_consists {kind : Terminal} {trees : List Tree} (hkind : kind ≠ .ending)
    (h : (Pattern.terminal kind).Consists StandsForLeaves trees) :
    ∃ mark : Mark, mark.terminal? = some kind ∧ trees = [.token mark] :=
  h.resolve_right fun hending => hkind hending.1

theorem stands_group (h : Rule.group.pattern.Consists StandsForLeaves children) :
    StandsForLeaves .group children := by
  obtain ⟨_, _, rfl, hopening, _, _, rfl, ⟨inner, rfl, f, hf, hderives⟩, hclosing⟩ := h
  obtain ⟨mark, hmark, rfl⟩ := exists_mark_of_consists (by decide) hopening
  obtain ⟨mark', hmark', rfl⟩ := exists_mark_of_consists (by decide) hclosing
  have hmarks : mark = .opening ∧ mark' = .closing := by
    cases mark <;> cases hmark
    cases mark' <;> cases hmark'
    exact ⟨rfl, rfl⟩
  obtain ⟨rfl, rfl⟩ := hmarks
  have hleaves : marksIn [.token .opening, .node .disjunction inner, .token .closing] =
      .opening :: marksIn inner ++ [.closing] := rfl
  refine ⟨f, hf.group, ?_⟩
  rw [List.singleton_append, List.singleton_append, hleaves]
  exact .group hderives

theorem stands_term (h : Rule.term.pattern.Consists StandsForLeaves children) :
    StandsForLeaves .term children := by
  rcases h with ⟨inner, rfl, f, hf, hderives⟩ | hliteral | hidentifier
  · refine ⟨f, hf.only .term, ?_⟩
    rw [marksIn, Tree.marks, marksIn, List.append_nil]
    exact hderives
  · obtain ⟨mark, hmark, rfl⟩ := exists_mark_of_consists (by decide) hliteral
    cases mark with
    | const b => exact ⟨.const b, (StandsFor.const b).only .term, .const b⟩
    | _ => cases hmark
  · obtain ⟨mark, hmark, rfl⟩ := exists_mark_of_consists (by decide) hidentifier
    cases mark with
    | name s => exact ⟨.flag s, (StandsFor.flag s).only .term, .flag s⟩
    | _ => cases hmark

theorem stands_whole (h : Rule.whole.pattern.Consists StandsForLeaves children) :
    StandsForLeaves .whole children := by
  obtain ⟨_, _, rfl, ⟨inner, rfl, f, hf, hderives⟩, ⟨mark, hmark, _⟩ | ⟨-, rfl⟩⟩ := h
  · cases mark <;> cases hmark
  · have hleaves : marksIn [.node .disjunction inner, .ending] = marksIn inner := List.append_nil _
    refine ⟨f, hf.whole, ?_⟩
    rw [List.singleton_append, hleaves]
    exact hderives

/-- Every tree of the grammar stands for the formula that the grammar derives from its leaves. -/
theorem stands_of_makes {name : Rule} (h : Makes (.rule name) [.node name children]) :
    StandsForLeaves name children := by
  have hnode (name : Rule) (children : List Tree)
      (h : name.pattern.Consists StandsForLeaves children) : StandsForLeaves name children := by
    have hchain (link : Link) (h : link.chain.rule.pattern.Consists StandsForLeaves children) :
        StandsForLeaves link.chain.rule children := by
      rw [link.pattern_chain] at h
      obtain ⟨_, _, rfl, ⟨first, rfl, hfirst⟩, ⟨parts, rfl, hparts⟩⟩ := h
      exact stands_chain link hfirst hparts
    cases name with
    | disjunction => exact hchain .or h
    | conjunction => exact hchain .and h
    | group => exact stands_group h
    | term => exact stands_term h
    | whole => exact stands_whole h
  obtain ⟨_, ⟨⟩, hstands⟩ := h.consists hnode
  exact hstands

/-- Whatever made a tree of the grammar with the marks of a text, the text has its truth value. -/
theorem checkFormula_of_makes {text : String} {tree : Tree} (h : Makes (.rule .whole) [tree])
    (hmarks : tree.marks = marksOf text) (flags : Table Value) :
    checkFormula flags text = (tree.check flags).mapError .ofMishap := by
  cases h with
  | rule h =>
    obtain ⟨f, hf, hderives⟩ := stands_of_makes (.rule h)
    have hformula : ofText text = .ok f := ofText_eq_ok_iff.mpr (hmarks ▸ hderives)
    rw [checkFormula_of_ofText hformula, hf.check_eq, value]
    cases f.eval flags <;> rfl

end Passage.Formula
