import Passage.Proofs.FormulaTrees

/-!
# The grammar of formulas

`Formula.Derives` states the grammar of formulas without saying how to read it. `Reads` and
`Refuses` say what a reader comes to that never goes back (`told_of_read`). What is read is derived,
and what is derived is read up to a mark with which the level does not go on. So a text is a formula
exactly if the grammar derives its marks, and then of one tree only, which has the names of the text
for its flags.
-/
namespace Passage.Formula

open Descent Formula.Tree

/-- The marks of a formula of a level, with its tree. -/
inductive Derives : Level → List Mark → Formula → Prop
  | conjunction {front : List Mark} {f : Formula} :
    Derives .conjunction front f → Derives .disjunction front f
  | or {left right : List Mark} {lhs rhs : Formula} :
    Derives .conjunction left lhs → Derives .disjunction right rhs →
    Derives .disjunction (left ++ .or :: right) (.or lhs rhs)
  | term {front : List Mark} {f : Formula} : Derives .term front f → Derives .conjunction front f
  | and {left right : List Mark} {lhs rhs : Formula} :
    Derives .term left lhs → Derives .conjunction right rhs →
    Derives .conjunction (left ++ .and :: right) (.and lhs rhs)
  | const (b : Bool) : Derives .term [.const b] (.const b)
  | flag (name : String) : Derives .term [.name name] (.flag name)
  | group {inner : List Mark} {f : Formula} :
    Derives .disjunction inner f → Derives .term (.opening :: inner ++ [.closing]) f

/-- The marks with which a formula of a level goes on. -/
def Level.links : Level → List Mark
  | disjunction => [.and, .or]
  | conjunction => [.and]
  | term => []

/-- What follows does not go on with a formula of the level. -/
def Stops (level : Level) (rest : List Mark) : Prop :=
  ∀ mark later, rest = mark :: later → mark ∉ level.links

variable {level : Level} {marks rest : List Mark} {f g : Formula}

theorem stops_nil (level : Level) : Stops level [] := nofun

theorem stops_cons {mark : Mark} (h : mark ∉ level.links) (rest : List Mark) :
    Stops level (mark :: rest) := by
  rintro _ _ ⟨⟩
  exact h

theorem stops_term (rest : List Mark) : Stops .term rest := fun _ _ _ => List.not_mem_nil

/-- A disjunction stops only where a conjunction stops. -/
theorem Stops.conjunction (h : Stops .disjunction rest) : Stops .conjunction rest := by
  intro mark later he hmem
  cases List.mem_singleton.mp hmem
  exact h _ _ he List.mem_cons_self

/-! ## What is read and what is refused -/

theorem Link.links_chain (link : Link) :
    link.chain.links = link.operand.links ++ [link.mark] := by
  cases link <;> rfl

/-- A formula of a level is read from the front of the marks, and the rest is left. -/
inductive Reads : Level → List Mark → Formula → List Mark → Prop
  | alone (link : Link) {marks rest : List Mark} {f : Formula} :
    Reads link.operand marks f rest → (∀ later, rest ≠ link.mark :: later) →
      Reads link.chain marks f rest
  | join (link : Link) {marks later rest : List Mark} {lhs rhs : Formula} :
    Reads link.operand marks lhs (link.mark :: later) → Reads link.chain later rhs rest →
    Reads link.chain marks (link.join lhs rhs) rest
  | const (b : Bool) (rest : List Mark) : Reads .term (.const b :: rest) (.const b) rest
  | flag (name : String) (rest : List Mark) : Reads .term (.name name :: rest) (.flag name) rest
  | group {later rest : List Mark} {f : Formula} :
    Reads .disjunction later f (.closing :: rest) → Reads .term (.opening :: later) f rest

/-- Nothing of a level can be read from the front of the marks, and this is where it goes wrong. -/
inductive Refuses : Level → List Mark → Refusal → Prop
  | first (link : Link) {marks : List Mark} {refusal : Refusal} :
    Refuses link.operand marks refusal → Refuses link.chain marks refusal
  | later (link : Link) {marks later : List Mark} {lhs : Formula} {refusal : Refusal} :
    Reads link.operand marks lhs (link.mark :: later) → Refuses link.chain later refusal →
    Refuses link.chain marks refusal
  | inside {later : List Mark} {refusal : Refusal} :
    Refuses .disjunction later refusal → Refuses .term (.opening :: later) refusal
  | unclosed {later rest : List Mark} {f : Formula} :
    Reads .disjunction later f rest → (∀ more, rest ≠ .closing :: more) →
    Refuses .term (.opening :: later) ⟨.operatorOrClosing, rest⟩
  | noTerm {marks : List Mark} : (∀ b rest, marks ≠ .const b :: rest) →
    (∀ name rest, marks ≠ .name name :: rest) → (∀ later, marks ≠ .opening :: later) →
    Refuses .term marks ⟨.term, marks⟩

/-- What the outcome of a reading says: what was read is a node of the level for a formula, and its
leaves are the marks that were taken. -/
def Told (level : Level) (marks : List Mark) : Except Refusal (List Tree × List Mark) → Prop
  | .ok (children, rest) =>
    (∃ f, (node level.rule children).StandsFor f ∧ Reads level marks f rest) ∧
      marks = marksIn children ++ rest
  | .error refusal => Refuses level marks refusal

theorem close_eq_error {rest : List Mark} (h : ∀ more, rest ≠ .closing :: more) :
    close rest = .error ⟨.operatorOrClosing, rest⟩ := by
  unfold close
  split
  · exact absurd rfl (h _)
  · rfl

/-- How the reading of a chain goes: an operand is read, and behind its operator a chain again. -/
theorem cases_of_read_chain (link : Link) {depth : Nat}
    {result : Except Refusal (List Tree × List Mark)}
    (h : read (depth + 1) link.chain marks = some result) :
    (∃ refusal, read depth link.operand marks = some (.error refusal) ∧ result = .error refusal) ∨
    (∃ first rest, read depth link.operand marks = some (.ok (first, rest)) ∧
      (∀ later, rest ≠ link.mark :: later) ∧
      result = .ok ([node link.operand.rule first], rest)) ∨
    ∃ first later, read depth link.operand marks = some (.ok (first, link.mark :: later)) ∧
      ((∃ refusal, read depth link.chain later = some (.error refusal) ∧
          result = .error refusal) ∨
        ∃ links rest, read depth link.chain later = some (.ok (links, rest)) ∧
          result = .ok (node link.operand.rule first :: token link.mark :: links, rest)) := by
  cases link
  all_goals
    unfold Link.chain read at h
    rcases cases_of_bind h with ⟨refusal, hfirst, rfl⟩ | ⟨⟨first, rest⟩, hfirst, hnext⟩
    · exact .inl ⟨refusal, hfirst, rfl⟩
    dsimp only at hnext
    split at hnext
    · rename_i later
      refine .inr (.inr ⟨first, later, hfirst, ?_⟩)
      rcases cases_of_bind hnext with ⟨refusal, hlater, rfl⟩ | ⟨⟨links, rest⟩, hlater, hlast⟩
      · exact .inl ⟨refusal, hlater, rfl⟩
      · cases hlast
        exact .inr ⟨links, rest, hlater, rfl⟩
    · rename_i hother
      cases hnext
      exact .inr (.inl ⟨first, rest, hfirst, hother, rfl⟩)

/-- What the readers of the operands and of the rest of the chain tell, the reader of the chain
tells. -/
theorem told_chain (link : Link) {depth : Nat} {result : Except Refusal (List Tree × List Mark)}
    (ih : ∀ {level marks result}, read depth level marks = some result → Told level marks result)
    (h : read (depth + 1) link.chain marks = some result) : Told link.chain marks result := by
  rcases cases_of_read_chain link h with ⟨refusal, hfirst, rfl⟩ |
    ⟨first, rest, hfirst, hother, rfl⟩ | ⟨first, later, hfirst, hlater⟩
  · exact .first link (ih hfirst)
  · obtain ⟨⟨lhs, hlhs, hreads⟩, hmarks⟩ := ih hfirst
    refine ⟨⟨lhs, hlhs.only link.chain.rule, .alone link hreads hother⟩, ?_⟩
    simpa only [marksIn, Tree.marks, List.append_nil] using hmarks
  · obtain ⟨⟨lhs, hlhs, hreads⟩, hmarks⟩ := ih hfirst
    rcases hlater with ⟨refusal, hlinks, rfl⟩ | ⟨links, rest, hlinks, rfl⟩
    · exact .later link hreads (ih hlinks)
    · obtain ⟨⟨rhs, hrhs, hreads'⟩, hmarks'⟩ := ih hlinks
      refine ⟨⟨link.join lhs rhs, hlhs.joined link hrhs, .join link hreads hreads'⟩, ?_⟩
      rw [hmarks, hmarks', marksIn, marksIn, Tree.marks, Tree.marks, List.append_assoc]
      rfl

/-- Whatever a reading comes to is told truly. -/
theorem told_of_read {depth : Nat} {result : Except Refusal (List Tree × List Mark)}
    (h : read depth level marks = some result) : Told level marks result := by
  induction depth generalizing level marks result with
  | zero => cases h
  | succ depth ih =>
    cases level with
    | disjunction => exact told_chain .or ih h
    | conjunction => exact told_chain .and ih h
    | term =>
      unfold read at h
      split at h
      · cases h
        exact ⟨⟨_, (StandsFor.const _).only .term, .const _ _⟩, rfl⟩
      · cases h
        exact ⟨⟨_, (StandsFor.flag _).only .term, .flag _ _⟩, rfl⟩
      · rename_i later
        rcases cases_of_bind h with ⟨refusal, hinner, rfl⟩ | ⟨⟨inner, rest⟩, hinner, hnext⟩
        · exact .inside (ih hinner)
        obtain ⟨⟨f, hf, hreads⟩, hmarks⟩ := ih hinner
        by_cases hclose : ∃ more, rest = .closing :: more
        · obtain ⟨more, rfl⟩ := hclose
          cases hnext
          refine ⟨⟨f, hf.group.only .term, .group hreads⟩, ?_⟩
          simp [hmarks, marksIn, Tree.marks]
        · rw [not_exists] at hclose
          dsimp only at hnext
          rw [close_eq_error hclose] at hnext
          cases hnext
          exact .unclosed hreads hclose
      · rename_i hconst hname hopening
        cases h
        exact .noTerm (fun b rest he => hconst b rest he) (fun name rest he => hname name rest he)
          (fun later he => hopening later he)

theorem Derives.alone (link : Link) {front : List Mark} (h : Derives link.operand front f) :
    Derives link.chain front f := by
  cases link with
  | or => exact .conjunction h
  | and => exact .term h

theorem Derives.joined (link : Link) {left right : List Mark} {lhs rhs : Formula}
    (hl : Derives link.operand left lhs) (hr : Derives link.chain right rhs) :
    Derives link.chain (left ++ link.mark :: right) (link.join lhs rhs) := by
  cases link with
  | or => exact .or hl hr
  | and => exact .and hl hr

/-- A chain stops where its operands stop and its operator does not follow. -/
theorem Stops.chain (link : Link) (h : Stops link.operand rest)
    (hmark : ∀ later, rest ≠ link.mark :: later) : Stops link.chain rest := by
  intro mark later he hmem
  rw [link.links_chain, List.mem_append, List.mem_singleton] at hmem
  rcases hmem with hmem | rfl
  · exact h mark later he hmem
  · exact hmark later he

/-- What is read is derived, and nothing that goes on with it is left. -/
theorem Reads.derives (h : Reads level marks f rest) :
    ∃ front, marks = front ++ rest ∧ Derives level front f ∧ Stops level rest := by
  induction h with
  | alone link _ hmark ih =>
    obtain ⟨front, he, hfront, hstop⟩ := ih
    exact ⟨front, he, hfront.alone link, hstop.chain link hmark⟩
  | join link _ _ ihl ihr =>
    obtain ⟨left, rfl, hleft, _⟩ := ihl
    obtain ⟨right, rfl, hright, hstop⟩ := ihr
    exact ⟨left ++ link.mark :: right, by simp, hleft.joined link hright, hstop⟩
  | const b rest => exact ⟨[.const b], rfl, .const b, stops_term rest⟩
  | flag name rest => exact ⟨[.name name], rfl, .flag name, stops_term rest⟩
  | @group later rest f _ ih =>
    obtain ⟨front, rfl, hfront, _⟩ := ih
    exact ⟨.opening :: front ++ [.closing], by simp, .group hfront, stops_term rest⟩

/-! ## The grammar and the reader -/

/-- A node for the formula is read from the front of the marks. -/
def IsRead (depth : Nat) (level : Level) (marks : List Mark) (f : Formula) (rest : List Mark) :
    Prop :=
  ∃ children, read depth level marks = some (.ok (children, rest)) ∧
    (node level.rule children).StandsFor f

/-- A chain of one link is read where its operator does not follow. -/
theorem IsRead.alone (link : Link) {depth : Nat} (h : IsRead depth link.operand marks f rest)
    (hmark : ∀ later, rest ≠ link.mark :: later) : IsRead (depth + 1) link.chain marks f rest := by
  obtain ⟨first, hfirst, hf⟩ := h
  refine ⟨_, ?_, hf.only link.chain.rule⟩
  cases link
  all_goals
    dsimp only [Link.operand] at hfirst
    unfold Link.chain read
    rw [bind_ok hfirst]
    dsimp only
    split
    · exact absurd rfl (hmark _)
    · rfl

/-- A chain is read on where its operator follows. -/
theorem IsRead.joined (link : Link) {depth : Nat} {later : List Mark} {lhs rhs : Formula}
    (hl : IsRead depth link.operand marks lhs (link.mark :: later))
    (hr : IsRead depth link.chain later rhs rest) :
    IsRead (depth + 1) link.chain marks (link.join lhs rhs) rest := by
  obtain ⟨first, hfirst, hlhs⟩ := hl
  obtain ⟨links, hlinks, hrhs⟩ := hr
  refine ⟨_, ?_, hlhs.joined link hrhs⟩
  cases link
  all_goals
    dsimp only [Link.operand, Link.mark, Link.chain] at hfirst hlinks
    unfold Link.chain read
    rw [bind_ok hfirst]
    dsimp only
    rw [bind_ok hlinks]
    rfl

/-- What is derived is read, if nothing goes on with it. -/
theorem isRead_of_derives (h : Derives level marks f) {depth : Nat} (hstop : Stops level rest)
    (hdepth : level.height + 3 * (marks ++ rest).length ≤ depth) :
    IsRead depth level (marks ++ rest) f rest := by
  have hdisjunction : Level.disjunction.height = 3 := rfl
  have hconjunction : Level.conjunction.height = 2 := rfl
  have hterm : Level.term.height = 1 := rfl
  have hpos : 0 < level.height := by cases level <;> decide
  obtain ⟨depth, rfl⟩ : ∃ lower, depth = lower + 1 := ⟨depth - 1, by omega⟩
  clear hpos
  induction h generalizing rest depth with
  | @conjunction front f _ ih =>
    obtain ⟨depth, rfl⟩ : ∃ lower, depth = lower + 1 := ⟨depth - 1, by omega⟩
    refine (ih hstop.conjunction depth (by omega)).alone .or fun later he => ?_
    exact hstop _ later he (by decide)
  | @or left right lhs rhs _ _ ihl ihr =>
    rw [List.append_assoc, List.cons_append] at hdepth ⊢
    have hlength : (left ++ .or :: (right ++ rest)).length =
        left.length + 1 + (right ++ rest).length := by
      simp only [List.length_append, List.length_cons]
      omega
    obtain ⟨depth, rfl⟩ : ∃ lower, depth = lower + 1 := ⟨depth - 1, by omega⟩
    have hor : Stops .conjunction (.or :: (right ++ rest)) := stops_cons (by decide) _
    exact (ihl hor depth (by omega)).joined .or (ihr hstop depth (by omega))
  | @term front f _ ih =>
    obtain ⟨depth, rfl⟩ : ∃ lower, depth = lower + 1 := ⟨depth - 1, by omega⟩
    refine (ih (stops_term rest) depth (by omega)).alone .and fun later he => ?_
    exact hstop _ later he (by decide)
  | @and left right lhs rhs _ _ ihl ihr =>
    rw [List.append_assoc, List.cons_append] at hdepth ⊢
    have hlength : (left ++ .and :: (right ++ rest)).length =
        left.length + 1 + (right ++ rest).length := by
      simp only [List.length_append, List.length_cons]
      omega
    obtain ⟨depth, rfl⟩ : ∃ lower, depth = lower + 1 := ⟨depth - 1, by omega⟩
    have hand : Stops .term (.and :: (right ++ rest)) := stops_term _
    exact (ihl hand depth (by omega)).joined .and (ihr hstop depth (by omega))
  | const b => exact ⟨_, rfl, (StandsFor.const b).only .term⟩
  | flag name => exact ⟨_, rfl, (StandsFor.flag name).only .term⟩
  | @group inner f _ ih =>
    have hsplit : Mark.opening :: inner ++ [.closing] ++ rest =
        .opening :: (inner ++ .closing :: rest) := by simp
    rw [hsplit, List.length_cons] at hdepth
    rw [hsplit]
    obtain ⟨depth, rfl⟩ : ∃ lower, depth = lower + 1 := ⟨depth - 1, by omega⟩
    have hclosing : Stops .disjunction (.closing :: rest) := stops_cons (by decide) rest
    obtain ⟨children, hread, hf⟩ := ih hclosing depth (by omega)
    refine ⟨_, ?_, hf.group.only .term⟩
    unfold read
    dsimp only
    rw [bind_ok hread]
    rfl

theorem read_depthFor (marks : List Mark) :
    ∃ result, read (depthFor marks) .disjunction marks = some result :=
  Option.isSome_iff_exists.mp (read_isSome marks)

/-- Marks are a tree if they are read and none is left. -/
theorem ofMarks_of_read {result : Except Refusal (List Tree × List Mark)} :
    read (depthFor marks) .disjunction marks = some result →
    Tree.ofMarks marks = match result with
      | .ok (children, []) => .ok (.node .whole [.node .disjunction children, .ending])
      | .ok (_, mark :: rest) => .error ⟨.operatorOrEnd, mark :: rest⟩
      | .error refusal => .error refusal := by
  intro h
  have hget : (read (depthFor marks) .disjunction marks).get (read_isSome marks) = result := by
    simp only [h, Option.get_some]
  subst hget
  rfl

/-- Why marks are refused: no formula could be read, or something is left behind one. -/
theorem cases_of_ofMarks_error {refusal : Refusal} (h : Tree.ofMarks marks = .error refusal) :
    Refuses .disjunction marks refusal ∨
      ∃ f mark rest, Reads .disjunction marks f (mark :: rest) ∧
      refusal = ⟨.operatorOrEnd, mark :: rest⟩ := by
  obtain ⟨result, hread⟩ := read_depthFor marks
  have htold := told_of_read hread
  rw [ofMarks_of_read hread] at h
  match result, h with
  | .ok (children, mark :: rest), rfl =>
    obtain ⟨⟨f, _, hreads⟩, _⟩ := htold
    exact .inr ⟨f, mark, rest, hreads, rfl⟩
  | .error _, rfl => exact .inl htold

/-- A tree of marks has them for its leaves, and stands for the formula that is read from them. -/
theorem reads_of_ofMarks {tree : Tree} (h : Tree.ofMarks marks = .ok tree) :
    (∃ f, tree.StandsFor f ∧ Reads .disjunction marks f []) ∧ tree.marks = marks := by
  obtain ⟨result, hread⟩ := read_depthFor marks
  have htold := told_of_read hread
  rw [ofMarks_of_read hread] at h
  match result, h with
  | .ok (_, []), rfl =>
    obtain ⟨⟨f, hf, hreads⟩, hmarks⟩ := htold
    refine ⟨⟨f, hf.whole, hreads⟩, ?_⟩
    rw [hmarks]
    simp [Tree.marks, marksIn]

/-- Marks that the grammar derives have a tree for what it derives. -/
theorem ofMarks_of_derives (h : Derives .disjunction marks f) :
    ∃ tree, Tree.ofMarks marks = .ok tree ∧ tree.StandsFor f := by
  have hdepth : Level.disjunction.height + 3 * (marks ++ []).length ≤ depthFor marks := by
    simp [depthFor]
  obtain ⟨children, hread, hf⟩ := isRead_of_derives h (stops_nil _) hdepth
  rw [List.append_nil] at hread
  exact ⟨_, ofMarks_of_read hread, hf.whole⟩

theorem derives_of_ofMarks {tree : Tree} (h : Tree.ofMarks marks = .ok tree) :
    ∃ f, tree.StandsFor f ∧ Derives .disjunction marks f := by
  obtain ⟨⟨f, hf, hreads⟩, _⟩ := reads_of_ofMarks h
  obtain ⟨front, hfront, hderives, _⟩ := hreads.derives
  rw [List.append_nil] at hfront
  exact ⟨f, hf, hfront ▸ hderives⟩

/-- The grammar gives marks at most one tree. -/
theorem derives_unique (h : Derives .disjunction marks f)
    (h' : Derives .disjunction marks g) : f = g := by
  obtain ⟨tree, htree, hf⟩ := ofMarks_of_derives h
  obtain ⟨tree', htree', hg⟩ := ofMarks_of_derives h'
  cases htree.symm.trans htree'
  exact hf.formula_eq.symm.trans hg.formula_eq

/-- The marks of a text. -/
def marksOf (text : String) : List Mark := (Token.scan text).map Token.mark

/-- A text has a tree exactly if its marks have it. -/
theorem Tree.ofText_eq_ok_iff {text : String} {tree : Tree} :
    Tree.ofText text = .ok tree ↔ Tree.ofMarks (marksOf text) = .ok tree := by
  unfold Tree.ofText
  dsimp only
  rw [← marksOf]
  cases Tree.ofMarks (marksOf text) with
  | ok found => simp
  | error refusal => simp

/-- A text is a formula exactly if it has a tree for it. -/
theorem exists_tree_iff {text : String} :
    ofText text = .ok f ↔ ∃ tree, Tree.ofText text = .ok tree ∧ tree.StandsFor f := by
  unfold ofText
  constructor
  · intro h
    cases htree : Tree.ofText text with
    | error e => rw [htree] at h; cases h
    | ok tree =>
      rw [htree] at h
      obtain ⟨g, hg, _⟩ := derives_of_ofMarks (Tree.ofText_eq_ok_iff.mp htree)
      have hformula : tree.formula = f := Except.ok.inj h
      rw [← hformula, hg.formula_eq]
      exact ⟨tree, rfl, hg⟩
  · rintro ⟨tree, htree, hf⟩
    rw [htree, ← hf.formula_eq]
    rfl

/-- A text is a formula exactly if the grammar derives its marks. -/
theorem ofText_eq_ok_iff {text : String} : ofText text = .ok f ↔
    Derives .disjunction (marksOf text) f := by
  rw [exists_tree_iff]
  constructor
  · rintro ⟨tree, htree, hf⟩
    obtain ⟨g, hg, hderives⟩ := derives_of_ofMarks (Tree.ofText_eq_ok_iff.mp htree)
    rwa [← hf.formula_eq, hg.formula_eq]
  · intro h
    obtain ⟨tree, htree, hf⟩ := ofMarks_of_derives h
    exact ⟨tree, Tree.ofText_eq_ok_iff.mpr htree, hf⟩

/-- A rule has the truth value of the formula that it is: the reduction of its tree finds a single
operand at every node that takes one. -/
theorem checkFormula_of_ofText {rule : String} (h : ofText rule = .ok f) (flags : Table Value) :
    checkFormula flags rule = (f.eval flags).mapError .flag := by
  obtain ⟨tree, htree, hf⟩ := exists_tree_iff.mp h
  have hcheck : checkFormula flags rule = (tree.check flags).mapError .ofMishap := by
    rw [checkFormula, htree]
    rfl
  rw [hcheck, hf.check_eq, value]
  cases f.eval flags <;> rfl

theorem checkFormula_of_ofText_error {rule : String} {e : FormulaError} (h : ofText rule = .error e)
    (flags : Table Value) : checkFormula flags rule = .error (.unreadable e) := by
  unfold ofText at h
  cases htree : Tree.ofText rule with
  | ok tree => rw [htree] at h; cases h
  | error e' =>
    rw [htree] at h
    cases h
    rw [checkFormula, htree]
    rfl

/-- The name that a mark is. -/
def Mark.name? : Mark → Option String
  | name s => some s
  | _ => none

/-- The flags of a formula are its names, in the same order. -/
theorem Derives.flags_eq (h : Derives level marks f) : f.flags = marks.filterMap Mark.name? := by
  induction h with
  | conjunction _ ih | term _ ih => exact ih
  | or _ _ ihl ihr | and _ _ ihl ihr =>
    rw [flags, ihl, ihr, List.filterMap_append]
    rfl
  | const b | flag name => rfl
  | group _ ih =>
    rw [ih, List.cons_append, List.filterMap_cons_none rfl, List.filterMap_append]
    exact (List.append_nil _).symm

/-- No part of a formula is stray. -/
theorem Derives.stray_notMem (h : Derives level marks f) (c : Char) : .stray c ∉ marks := by
  induction h with
  | conjunction _ ih | term _ ih => exact ih
  | or _ _ ihl ihr | and _ _ ihl ihr => simp [ihl, ihr]
  | const b => simp
  | flag name => simp
  | group _ ih => simp [ih]

end Passage.Formula
