import Passage.Formula.Reading

/-!
# What trees of formulas come to

The reduction of a tree loses no operand, takes none twice and skips none: where every node that
takes its first operand has just one (`Tree.Complete`), the truth values that a tree yields are
those of the formulas in it, from left to right, and the fault is that of the first formula that has
one (`Tree.truths_reduce`). How links are bunched makes no difference
(`Tree.truths_reduceAll_spread`).
-/
namespace Passage.Formula

/-- What a formula comes to, with its fault as that of a reduction. -/
def value (flags : Table Value) (f : Formula) : Except Mishap Bool := (f.eval flags).mapError .flag

/-- What some formulas come to, one after the other. -/
def values (flags : Table Value) (formulas : List Formula) : Except Mishap (List Bool) :=
  formulas.mapM (value flags)

variable {flags : Table Value}

theorem values_cons (f : Formula) (rest : List Formula) :
    values flags (f :: rest) = do
      let b ← value flags f
      let later ← values flags rest
      return b :: later :=
  List.mapM_cons

theorem values_append (front back : List Formula) :
    values flags (front ++ back) = do
      let earlier ← values flags front
      let later ← values flags back
      return earlier ++ later :=
  List.mapM_append

theorem values_singleton (f : Formula) :
    values flags [f] = (value flags f).map fun b => [b] := by
  rw [values_cons]
  cases value flags f <;> rfl

/-! ## Chains -/

/-- A chain comes to what its formulas come to, taken together. -/
theorem value_chained (join : Formula → Formula → Formula) (connect : Bool → Bool → Bool)
    {unit : Bool} (hunit : ∀ b, connect b unit = b)
    (hjoin : ∀ lhs rhs, value flags (join lhs rhs) = do
      let l ← value flags lhs
      let r ← value flags rhs
      return connect l r)
    (formulas : List Formula) :
    value flags (chained join (.const unit) formulas) =
      (values flags formulas).map (List.foldr connect unit) := by
  induction formulas with
  | nil => rfl
  | cons f rest ih =>
    cases rest with
    | nil =>
      rw [values_singleton, chained]
      cases value flags f with
      | error e => rfl
      | ok b => exact congrArg Except.ok (hunit b).symm
    | cons next rest =>
      rw [values_cons]
      change value flags (join f (chained join (.const unit) (next :: rest))) = _
      rw [hjoin, ih]
      cases value flags f with
      | error e => rfl
      | ok b => cases values flags (next :: rest) <;> rfl

theorem value_join {f lhs rhs : Formula} (connect : Bool → Bool → Bool)
    (h : f.eval flags = do
      let l ← lhs.eval flags
      let r ← rhs.eval flags
      return connect l r) :
    value flags f = do
      let l ← value flags lhs
      let r ← value flags rhs
      return connect l r := by
  unfold value
  rw [h]
  cases lhs.eval flags with
  | error e => rfl
  | ok l => cases rhs.eval flags <;> rfl

theorem foldr_and (truths : List Bool) : truths.foldr (· && ·) true = truths.all id := by
  induction truths with
  | nil => rfl
  | cons b rest ih => exact congrArg (b && ·) ih

theorem foldr_or (truths : List Bool) : truths.foldr (· || ·) false = truths.any id := by
  induction truths with
  | nil => rfl
  | cons b rest ih => exact congrArg (b || ·) ih

/-- The operands are enough for the rule: one for a rule that takes the first. -/
def Rule.Fits : Rule → List Formula → Prop
  | group, formulas | term, formulas | whole, formulas => ∃ f, formulas = [f]
  | conjunction, formulas | disjunction, formulas => formulas ≠ []

/-- A node reduces what its operands come to as the formula does for which it stands. -/
theorem Rule.reduce_values {rule : Rule} {formulas : List Formula} (h : rule.Fits formulas) :
    (values flags formulas >>= rule.reduce) = value flags (rule.join formulas) := by
  cases rule with
  | group | term | whole =>
    obtain ⟨f, rfl⟩ := h
    rw [values_singleton]
    change _ = value flags f
    cases value flags f <;> rfl
  | conjunction =>
    change _ = value flags (chained .and (.const true) formulas)
    rw [value_chained .and (· && ·) Bool.and_true fun _ _ => value_join (· && ·) rfl]
    cases values flags formulas with
    | error e => rfl
    | ok truths => exact congrArg Except.ok (foldr_and truths).symm
  | disjunction =>
    change _ = value flags (chained .or (.const false) formulas)
    rw [value_chained .or (· || ·) Bool.or_false fun _ _ => value_join (· || ·) rfl]
    cases values flags formulas with
    | error e => rfl
    | ok truths => exact congrArg Except.ok (foldr_or truths).symm

/-! ## Trees -/

namespace Yield

theorem truths_ofBunch (yields : List Yield) : (ofBunch yields).truths = truthsIn yields := by
  cases yields <;> rfl

theorem truthsIn_append (front back : List Yield) :
    truthsIn (front ++ back) = truthsIn front ++ truthsIn back := by
  induction front with
  | nil => rfl
  | cons first rest ih => rw [List.cons_append, truthsIn, ih, truthsIn, List.append_assoc]

end Yield

namespace Tree

mutual

/-- Every node in the tree has the operands that its rule takes. -/
def Complete : Tree → Prop
  | token _ | ending => True
  | node rule children => CompleteIn children ∧ rule.Fits (formulasIn children)
  | bunch children => CompleteIn children

def CompleteIn : List Tree → Prop
  | [] => True
  | tree :: rest => tree.Complete ∧ CompleteIn rest

end

mutual

/-- A complete tree yields what the formulas in it come to. -/
theorem truths_reduce (flags : Table Value) : ∀ {tree : Tree}, tree.Complete →
    (tree.reduce flags).map Yield.truths = values flags tree.formulas
  | token mark, _ => by
    cases mark with
    | const b => rfl
    | name s =>
      rw [reduce, Mark.reduce, formulas, values_singleton, value, eval]
      cases flagValue flags s <;> rfl
    | _ => rfl
  | ending, _ => rfl
  | node rule children, h => by
    have hchildren := truths_reduceAll flags h.1
    rw [formulas, values_singleton, ← Rule.reduce_values h.2, ← hchildren, reduce]
    cases reduceAll flags children with
    | error e => rfl
    | ok yields =>
      change Except.map Yield.truths ((rule.reduce (Yield.truthsIn yields)).map Yield.truth) = _
      cases hreduce : rule.reduce (Yield.truthsIn yields) with
      | error e => exact (congrArg (Except.map fun b => [b]) hreduce).symm
      | ok b => exact (congrArg (Except.map fun b => [b]) hreduce).symm
  | bunch children, h => by
    have hchildren := truths_reduceAll flags h
    rw [formulas, ← hchildren, reduce]
    cases reduceAll flags children with
    | error e => rfl
    | ok yields => exact congrArg Except.ok (Yield.truths_ofBunch yields)

theorem truths_reduceAll (flags : Table Value) : ∀ {trees : List Tree}, CompleteIn trees →
    (reduceAll flags trees).map Yield.truthsIn = values flags (formulasIn trees)
  | [], _ => rfl
  | tree :: rest, h => by
    have htree := truths_reduce flags h.1
    have hrest := truths_reduceAll flags h.2
    rw [formulasIn, values_append, ← htree, ← hrest, reduceAll]
    cases tree.reduce flags with
    | error e => rfl
    | ok first => cases reduceAll flags rest <;> rfl

end

/-- A tree that stands for one formula. -/
structure StandsFor (tree : Tree) (f : Formula) : Prop where
  complete : tree.Complete
  formulas_eq : tree.formulas = [f]

namespace StandsFor

variable {tree : Tree} {f : Formula}

theorem formula_eq (h : tree.StandsFor f) : tree.formula = f := by
  rw [formula, h.formulas_eq]
  rfl

/-- The truth value of a tree is that of the formula for which it stands. -/
theorem check_eq (h : tree.StandsFor f) (flags : Table Value) :
    tree.check flags = value flags f := by
  have htruths := truths_reduce flags h.complete
  rw [h.formulas_eq, values_singleton] at htruths
  have hcheck : tree.check flags = (tree.reduce flags).map Yield.truths >>= operand := by
    unfold check
    cases tree.reduce flags <;> rfl
  rw [hcheck, htruths]
  cases value flags f <;> rfl

end StandsFor

/-! ## Bunches -/

mutual

/-- The trees in a row that come out of a tree when its bunches are dissolved. -/
def spread : Tree → List Tree
  | token mark => [token mark]
  | ending => [ending]
  | node rule children => [node rule (spreadIn children)]
  | bunch children => spreadIn children

def spreadIn : List Tree → List Tree
  | [] => []
  | tree :: rest => tree.spread ++ spreadIn rest

end

theorem reduceAll_append (flags : Table Value) (front back : List Tree) :
    reduceAll flags (front ++ back) = do
      let earlier ← reduceAll flags front
      let later ← reduceAll flags back
      return earlier ++ later := by
  induction front with
  | nil =>
    rw [List.nil_append, reduceAll]
    cases reduceAll flags back <;> rfl
  | cons tree rest ih =>
    rw [List.cons_append, reduceAll, ih, reduceAll]
    cases tree.reduce flags with
    | error e => rfl
    | ok first =>
      cases reduceAll flags rest with
      | error e => rfl
      | ok later => cases reduceAll flags back <;> rfl

theorem truths_reduceAll_append (flags : Table Value) (front back : List Tree) :
    (reduceAll flags (front ++ back)).map Yield.truthsIn = do
      let earlier ← (reduceAll flags front).map Yield.truthsIn
      let later ← (reduceAll flags back).map Yield.truthsIn
      return earlier ++ later := by
  rw [reduceAll_append]
  cases reduceAll flags front with
  | error e => rfl
  | ok earlier =>
    cases reduceAll flags back with
    | error e => rfl
    | ok later => exact congrArg Except.ok (Yield.truthsIn_append earlier later)

theorem truths_reduceAll_singleton (flags : Table Value) (tree : Tree) :
    (reduceAll flags [tree]).map Yield.truthsIn = (tree.reduce flags).map Yield.truths := by
  rw [reduceAll]
  cases tree.reduce flags with
  | error e => rfl
  | ok first => exact congrArg Except.ok (List.append_nil _)

mutual

/-- A tree yields what it does without its bunches. -/
theorem truths_reduceAll_spread (flags : Table Value) : ∀ tree : Tree,
    (reduceAll flags tree.spread).map Yield.truthsIn = (tree.reduce flags).map Yield.truths
  | token mark => truths_reduceAll_singleton flags (token mark)
  | ending => truths_reduceAll_singleton flags ending
  | node rule children => by
    have hchildren := truths_reduceAll_spreadIn flags children
    rw [spread, truths_reduceAll_singleton, reduce, reduce]
    have hbind (trees : List Tree) : Except.map Yield.truths (do
        let yields ← reduceAll flags trees
        let b ← rule.reduce (Yield.truthsIn yields)
        return .truth b) = (do
        let b ← (reduceAll flags trees).map Yield.truthsIn >>= rule.reduce
        return [b]) := by
      cases reduceAll flags trees with
      | error e => rfl
      | ok yields =>
        change Except.map _ (rule.reduce (Yield.truthsIn yields) >>= _) =
          rule.reduce (Yield.truthsIn yields) >>= _
        cases rule.reduce (Yield.truthsIn yields) <;> rfl
    rw [hbind, hbind, hchildren]
  | bunch children => by
    have hchildren := truths_reduceAll_spreadIn flags children
    rw [spread, hchildren, reduce]
    cases reduceAll flags children with
    | error e => rfl
    | ok yields => exact congrArg Except.ok (Yield.truths_ofBunch yields).symm

theorem truths_reduceAll_spreadIn (flags : Table Value) : ∀ trees : List Tree,
    (reduceAll flags (spreadIn trees)).map Yield.truthsIn =
      (reduceAll flags trees).map Yield.truthsIn
  | [] => rfl
  | tree :: rest => by
    have htree := truths_reduceAll_spread flags tree
    have hrest := truths_reduceAll_spreadIn flags rest
    have hcons : (reduceAll flags (tree :: rest)).map Yield.truthsIn = do
        let earlier ← (tree.reduce flags).map Yield.truths
        let later ← (reduceAll flags rest).map Yield.truthsIn
        return earlier ++ later := by
      rw [← truths_reduceAll_singleton, ← truths_reduceAll_append]
      rfl
    rw [spreadIn, truths_reduceAll_append, htree, hrest, hcons]

end

/-- The truth value of a tree is that of the tree without its bunches. -/
theorem check_of_spread {tree flat : Tree} (h : tree.spread = [flat]) (flags : Table Value) :
    tree.check flags = flat.check flags := by
  have hcheck (tree : Tree) :
      tree.check flags = (tree.reduce flags).map Yield.truths >>= operand := by
    unfold check
    cases tree.reduce flags <;> rfl
  rw [hcheck, hcheck, ← truths_reduceAll_spread, h, truths_reduceAll_singleton]

end Tree

/-! ## Trees that are read -/

mutual

/-- The marks at the leaves of a tree, from left to right. -/
def Tree.marks : Tree → List Mark
  | .token mark => [mark]
  | .ending => []
  | .node _ children | .bunch children => Tree.marksIn children

def Tree.marksIn : List Tree → List Mark
  | [] => []
  | tree :: rest => tree.marks ++ Tree.marksIn rest

end

/-- The rule for the formulas of a level. -/
def Level.rule : Level → Rule
  | disjunction => .disjunction
  | conjunction => .conjunction
  | term => .term

/-- The operators that formulas are chained by. -/
inductive Link where
  | or
  | and

namespace Link

def mark : Link → Mark
  | or => .or
  | and => .and

/-- The level of the chains. -/
def chain : Link → Level
  | or => .disjunction
  | and => .conjunction

/-- The level of what is chained. -/
def operand : Link → Level
  | or => .conjunction
  | and => .term

def join : Link → Formula → Formula → Formula
  | or => .or
  | and => .and

end Link

namespace Tree.StandsFor

variable {tree : Tree} {first links : List Tree} {f lhs rhs : Formula}

theorem const (b : Bool) : (token (.const b)).StandsFor (.const b) := ⟨trivial, rfl⟩

theorem flag (name : String) : (token (.name name)).StandsFor (.flag name) := ⟨trivial, rfl⟩

theorem group (h : (node .disjunction links).StandsFor f) :
    (node .group [token .opening, node .disjunction links, token .closing]).StandsFor f := by
  have hgroup : formulasIn [token .opening, node .disjunction links, token .closing] = [f] :=
    (List.append_nil _).trans h.formulas_eq
  refine ⟨⟨⟨trivial, h.complete, trivial, trivial⟩, f, hgroup⟩, ?_⟩
  rw [formulas, hgroup]
  rfl

/-- A node with one child comes to what the child does, whatever its rule. -/
theorem only (rule : Rule) (h : tree.StandsFor f) : (node rule [tree]).StandsFor f := by
  have hformulas : formulasIn [tree] = [f] := (List.append_nil _).trans h.formulas_eq
  refine ⟨⟨⟨h.complete, trivial⟩, ?_⟩, ?_⟩
  · rw [hformulas]
    cases rule with
    | group | term | whole => exact ⟨f, rfl⟩
    | conjunction | disjunction => exact List.cons_ne_nil _ _
  · rw [formulas, hformulas]
    cases rule <;> rfl

/-- One more link stands before a chain. -/
theorem joined (link : Link) (hl : (node link.operand.rule first).StandsFor lhs)
    (hr : (node link.chain.rule links).StandsFor rhs) :
    (node link.chain.rule (node link.operand.rule first :: token link.mark :: links)).StandsFor
      (link.join lhs rhs) := by
  have hformulas : formulasIn (node link.operand.rule first :: token link.mark :: links) =
      lhs :: formulasIn links := by
    rw [formulasIn, hl.formulas_eq]
    cases link <;> rfl
  obtain ⟨⟨hlinks, hfits⟩, hrhs⟩ := hr
  rw [formulas] at hrhs
  refine ⟨⟨⟨hl.complete, trivial, hlinks⟩, ?_⟩, ?_⟩
  · rw [hformulas]
    cases link <;> exact List.cons_ne_nil _ _
  · rw [formulas, hformulas]
    -- The rest of the chain has an operand, so it stands for what is joined.
    cases hrest : formulasIn links with
    | nil =>
      rw [hrest] at hfits
      cases link <;> exact absurd rfl hfits
    | cons next rest =>
      rw [hrest] at hrhs
      cases link with
      | or => exact congrArg (fun f => [Formula.or lhs f]) (List.cons.inj hrhs).1
      | and => exact congrArg (fun f => [Formula.and lhs f]) (List.cons.inj hrhs).1

/-- A disjunction and the end of the text. -/
theorem whole (h : (node .disjunction links).StandsFor f) :
    (node .whole [node .disjunction links, ending]).StandsFor f := by
  have hformulas : formulasIn [node .disjunction links, ending] = [f] :=
    (List.append_nil _).trans h.formulas_eq
  refine ⟨⟨⟨h.complete, trivial, trivial⟩, f, hformulas⟩, ?_⟩
  rw [formulas, hformulas]
  rfl

end Tree.StandsFor

end Passage.Formula
