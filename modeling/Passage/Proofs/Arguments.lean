import Passage.Proofs.Tiling
import Passage.Proofs.Writing

/-!
# Arguments of a call, one for one

What a text is read as does not change when another text follows that begins with no name character:
its items end where they ended before, so they leave the same symbols (`Token.heads_of_scan`), and
these are derived as the same tree, as an operand too if it is no comma chain. So texts that are
read on their own can be joined to one, as the arguments of a call are (`Expr.Says`). Commas nest to
the right, and taking the chain apart gives back what was joined.
-/
namespace Passage

namespace Token

variable {text rest : List Char} {items : List Item}

theorem Apart.append (h : Apart text) (hrest : Apart rest) : Apart (text ++ rest) := by
  cases text with
  | nil => exact hrest
  | cons c text => exact apart_cons (h c text rfl) _

/-- An item that ends before a text ends there as well if no name character follows the text. -/
theorem Item.Ends.append {item : Item} (h : item.Ends text) (hrest : Apart rest) :
    item.Ends (text ++ rest) := by
  cases item with
  | run chars hne hchars => exact Apart.append h hrest
  | _ => trivial

theorem Tiles.heads (h : Tiles text items []) :
    Heads text (items.flatMap fun item => item.symbol?.toList) := by
  intro rest later hrest hlater
  -- Every item but the last run ends inside of the text; that one ends where the other text begins.
  generalize hend : [] = last at h
  induction h with
  | done => exact hend ▸ hlater
  | @item item text _ items hends _ ih =>
    rw [List.append_assoc, List.flatMap_cons, List.append_assoc]
    exact (ih hend).item item (hends.append hrest)

theorem heads_of_scan {text : String} {tokens : List Token} (h : scan text = .ok tokens) :
    Heads text.toList (tokens.map Token.symbol) := by
  obtain ⟨items, htiles, rfl⟩ := exists_tiles_of_scan h
  rw [symbols_tokensOf]
  exact htiles.heads

end Token

namespace Expr

open Reading Token

/-- The comma chain that carries arguments; without any it is empty. -/
def chain : List Expr → Expr
  | [] => .empty
  | [e] => e
  | e :: rest => .binary .sequence e (chain rest)

@[simp] theorem chain_singleton (e : Expr) : chain [e] = e := rfl

@[simp] theorem chain_cons_cons (e next : Expr) (rest : List Expr) :
    chain (e :: next :: rest) = .binary .sequence e (chain (next :: rest)) := rfl

theorem members_of_isSequence {e : Expr} (h : e.isSequence = false) : e.members = [e] := by
  unfold members
  split
  · cases h
  · rfl

theorem members_chain {list : List Expr} (hne : list ≠ []) (h : ∀ e ∈ list, e.isSequence = false) :
    (chain list).members = list := by
  induction list with
  | nil => exact absurd rfl hne
  | cons e rest ih =>
    rw [List.forall_mem_cons] at h
    cases rest with
    | nil => exact members_of_isSequence h.1
    | cons next rest => rw [chain_cons_cons, members_sequence, ih (List.cons_ne_nil _ _) h.2]

/-- Taking a chain apart gives back what was chained, as long as that is no chain itself. Nothing
cannot be told from the lack of an argument. -/
theorem arguments_chain {list : List Expr} (h : ∀ e ∈ list, e.isSequence = false)
    (hempty : list ≠ [.empty]) : (chain list).arguments = list := by
  match list with
  | [] => rfl
  | [e] =>
    have he : e ≠ .empty := fun he => hempty (by rw [he])
    have hmembers : e.members = [e] := members_of_isSequence (h e List.mem_cons_self)
    rw [chain_singleton, ← hmembers]
    cases e with
    | empty => exact absurd rfl he
    | _ => rfl
  | e :: next :: rest =>
    have hmembers := members_chain (List.cons_ne_nil next rest) fun e he =>
      h e (List.mem_cons_of_mem _ he)
    rw [chain_cons_cons, arguments_sequence, hmembers]

variable {left right inner : List Char} {lhs rhs args : Expr}

/-- A text says what it is read as on its own. -/
theorem ofText_iff_says {text : String} {e : Expr} : ofText text = .ok e ↔ Says text.toList e := by
  refine ⟨fun h => ?_, Says.ofText⟩
  obtain ⟨tokens, hscan, hread⟩ := RuleText.expr_eq_ok.mp h
  exact ⟨_, heads_of_scan hscan, ofSymbols_iff_derives.mp hread⟩

theorem says_nothing : Says [] .empty :=
  ⟨[], fun _ _ _ h => h, (Derives.term .nothing).ofCall .sequence⟩

/-- A whole expression that is no comma chain is an operand of the comma. -/
theorem derives_operand {front : List Symbol} {e : Expr} (h : Derives .whole front e)
    (he : e.isSequence = false) : Derives (.ofOperand .sequence) front e := by
  cases h with
  | alone _ h => exact h
  | join => cases he

theorem Says.sequence (hleft : Says left lhs) (hsequence : lhs.isSequence = false)
    (hlhs : lhs ≠ .empty) (hright : Says right rhs) (hrhs : rhs ≠ .empty) :
    Says (left ++ ',' :: ' ' :: right) (.binary .sequence lhs rhs) := by
  obtain ⟨front, hfront, hderives⟩ := hleft
  obtain ⟨back, hback, hderives'⟩ := hright
  refine ⟨front ++ .comma :: back, fun rest later hrest hlater => ?_, ?_⟩
  · rw [List.append_assoc, List.append_assoc]
    exact hfront _ _ (apart_cons rfl _) (hback rest later hrest hlater).blank.comma
  · exact .join .sequence (derives_operand hderives hsequence) hlhs hderives' hrhs

theorem Says.call {f : String} (hf : IsName f) (hinner : Says inner args) :
    Says (f.toList ++ '(' :: inner ++ [')']) (.call (.var f) args) := by
  obtain ⟨middle, hmiddle, hderives⟩ := hinner
  refine ⟨[.name f] ++ .opening :: middle ++ [.closing], fun rest later hrest hlater => ?_, ?_⟩
  · have htext : f.toList ++ '(' :: inner ++ [')'] ++ rest =
        f.toList ++ '(' :: (inner ++ ')' :: rest) := by simp
    have hsymbols : [.name f] ++ Symbol.opening :: middle ++ [.closing] ++ later =
        [.name f] ++ .opening :: (middle ++ .closing :: later) := by simp
    rw [htext, hsymbols]
    refine writesTo_var hf _ _ (apart_cons rfl _) (Spells.opening ?_)
    exact hmiddle _ _ (apart_cons rfl _) hlater.closing
  · exact (Derives.call (.name f) (List.cons_ne_nil _ _) hderives).ofCall .sequence

/-- Texts with commas between them say the chain of what they say, if each says something that is no
chain. -/
theorem says_chain {parts : List (String × Expr)}
    (h : ∀ part ∈ parts, ofText part.1 = .ok part.2 ∧ part.2 ≠ .empty ∧ part.2.isSequence = false) :
    Says (", ".intercalate (parts.map Prod.fst)).toList (chain (parts.map Prod.snd)) ∧
      (parts ≠ [] → chain (parts.map Prod.snd) ≠ .empty) := by
  induction parts with
  | nil => exact ⟨says_nothing, fun hne => absurd rfl hne⟩
  | cons part rest ih =>
    rw [List.forall_mem_cons] at h
    obtain ⟨⟨hread, hempty, hsequence⟩, hrest⟩ := h
    have hsaid := ofText_iff_says.mp hread
    cases rest with
    | nil => exact ⟨hsaid, fun _ => hempty⟩
    | cons next rest =>
      obtain ⟨hlater, hsome⟩ := ih hrest
      have hjoined := hsaid.sequence hsequence hempty hlater (hsome (List.cons_ne_nil _ _))
      refine ⟨?_, fun _ => Expr.noConfusion⟩
      have htext : (", ".intercalate ((part :: next :: rest).map Prod.fst)).toList =
          part.1.toList ++ ',' :: ' ' :: (", ".intercalate
            ((next :: rest).map Prod.fst)).toList := by
        simp [String.toList_intercalate]
      rw [htext]
      exact hjoined

end Expr

/-- A call of a name with texts between its parentheses has as its arguments what the texts are read
as, one for one, if each of them is something and no comma chain. And every list of expressions that
are no comma chains is what its chain comes apart into, unless nothing is its only member. -/
theorem arguments_one_for_one :
    (∀ f, Expr.IsName f → ∀ parts : List (String × Expr),
      (∀ part ∈ parts, Expr.ofText part.1 = .ok part.2 ∧ part.2 ≠ .empty ∧
        part.2.isSequence = false) →
      ∃ args, Expr.ofText (f ++ "(" ++ ", ".intercalate (parts.map Prod.fst) ++ ")") =
        .ok (.call (.var f) args) ∧ args.arguments = parts.map Prod.snd) ∧
    ∀ list : List Expr, (∀ e ∈ list, e.isSequence = false) → list ≠ [.empty] →
      (Expr.chain list).arguments = list := by
  refine ⟨fun f hf parts hparts => ⟨Expr.chain (parts.map Prod.snd), ?_, ?_⟩, fun list =>
    Expr.arguments_chain⟩
  · have htext : (f ++ "(" ++ ", ".intercalate (parts.map Prod.fst) ++ ")").toList =
        f.toList ++ '(' :: (", ".intercalate (parts.map Prod.fst)).toList ++ [')'] := by
      simp
    rw [Expr.ofText_iff_says, htext]
    exact Expr.Says.call hf (Expr.says_chain hparts).1
  · refine Expr.arguments_chain (fun e he => ?_) fun hlist => ?_
    · obtain ⟨part, hpart, rfl⟩ := List.mem_map.mp he
      exact (hparts part hpart).2.2
    · obtain ⟨part, rfl, hempty⟩ := List.map_eq_singleton_iff.mp hlist
      exact (hparts part List.mem_cons_self).2.1 hempty

/-- Chains in groups and calls, commas and parentheses in a text, and an argument that ends in a
name. -/
theorem arguments_one_for_one_nested :
    let parts : List (String × Expr) :=
      [("x OR \"a, (b\"", .binary .or (.var "x") (.text "a, (b")),
        (" ( g(y, TRUE) )", .call (.var "g") (.binary .sequence (.var "y") (.bool true))),
        ("(h)() == ORB", .binary .equal (.call (.var "h") .empty) (.var "ORB"))]
    ∃ args, Expr.ofText "_1(x OR \"a, (b\",  ( g(y, TRUE) ), (h)() == ORB)" =
      .ok (.call (.var "_1") args) ∧
      args.arguments = parts.map Prod.snd ∧
        (Expr.chain (parts.map Prod.snd)).arguments = parts.map Prod.snd := by
  intro parts
  obtain ⟨args, hread, hargs⟩ := arguments_one_for_one.1 "_1" (by decide) parts (by decide +kernel)
  exact ⟨args, hread, hargs, arguments_one_for_one.2 _ (by decide) (by decide)⟩

end Passage
