import Passage.Proofs.FormulaShapes
import Passage.Proofs.FormulaTruth

/-!
# The leftmost bad flag

The truth value of a text comes from the reduction of its tree, whatever made the tree and however
its links are bunched. A text that is a formula has no truth value exactly if one of its names has
none, and the fault is that of the leftmost such name, whatever the truth values of the others.
Otherwise its truth value is what the text means by the grammar alone (`Formula.Means`): chains of
any length, where a chain of `AND` is a link of a chain of `OR` and parentheses count as they are
written. What a text means knows nothing of trees.
-/
namespace Passage

namespace Formula

/-- The truth value that marks of a level mean, where the names have these truth values. -/
inductive Means (truth : String → Bool) : Level → List Mark → Bool → Prop
  | const (b : Bool) : Means truth .term [.const b] b
  | flag (name : String) : Means truth .term [.name name] (truth name)
  | group {inner : List Mark} {b : Bool} :
    Means truth .disjunction inner b → Means truth .term (.opening :: inner ++ [.closing]) b
  | conjunction {links : List (List Mark × Bool)} : links ≠ [] →
    (∀ link ∈ links, Means truth .term link.1 link.2) →
    Means truth .conjunction ([Mark.and].intercalate (links.map Prod.fst)) (links.all Prod.snd)
  | disjunction {links : List (List Mark × Bool)} : links ≠ [] →
    (∀ link ∈ links, Means truth .conjunction link.1 link.2) →
    Means truth .disjunction ([Mark.or].intercalate (links.map Prod.fst)) (links.any Prod.snd)

variable {truth : String → Bool} {level lower : Level} {mark : Mark}
  {marks : List Mark} {f : Formula}

/-- One more link stands before a chain that has one. -/
theorem intercalate_link (mark : Mark) (front : List Mark) (b : Bool)
    {links : List (List Mark × Bool)} (hne : links ≠ []) :
    [mark].intercalate (((front, b) :: links).map Prod.fst) =
      front ++ mark :: [mark].intercalate (links.map Prod.fst) := by
  rw [List.map_cons, List.intercalate_cons_of_ne_nil (by simpa using hne), List.append_assoc,
    List.singleton_append]

/-- What is derived means what its tree comes to. -/
theorem Derives.means (h : Derives level marks f) (truth : String → Bool) :
    Means truth level marks (f.holds truth) := by
  induction h with
  | const b => exact .const b
  | flag name => exact .flag name
  | group _ ih => exact .group ih
  | @term front f _ ih =>
    have hchain := @Means.conjunction truth [(front, f.holds truth)] (List.cons_ne_nil _ _)
      (List.forall_mem_singleton.mpr ih)
    simpa using hchain
  | @conjunction front f _ ih =>
    have hchain := @Means.disjunction truth [(front, f.holds truth)] (List.cons_ne_nil _ _)
      (List.forall_mem_singleton.mpr ih)
    simpa using hchain
  | @and left right lhs rhs _ _ ihl ihr =>
    generalize hr : rhs.holds truth = r at ihr
    cases ihr with
    | @conjunction links hne hlinks =>
      have hchain := @Means.conjunction truth ((left, lhs.holds truth) :: links)
        (List.cons_ne_nil _ _) (List.forall_mem_cons.mpr ⟨ihl, hlinks⟩)
      rw [intercalate_link .and left _ hne, List.all_cons] at hchain
      rw [holds, hr]
      exact hchain
  | @or left right lhs rhs _ _ ihl ihr =>
    generalize hr : rhs.holds truth = r at ihr
    cases ihr with
    | @disjunction links hne hlinks =>
      have hchain := @Means.disjunction truth ((left, lhs.holds truth) :: links)
        (List.cons_ne_nil _ _) (List.forall_mem_cons.mpr ⟨ihl, hlinks⟩)
      rw [intercalate_link .or left _ hne, List.any_cons] at hchain
      rw [holds, hr]
      exact hchain

/-- There is a tree with a truth value. -/
def Grows (truth : String → Bool) (level : Level) (marks : List Mark) (b : Bool) : Prop :=
  ∃ f, Derives level marks f ∧ f.holds truth = b

/-- The links of a chain nest to the right. -/
theorem grows_chain (connect : Bool → Bool → Bool) (value : List (List Mark × Bool) → Bool)
    (halone : ∀ {marks b}, Grows truth lower marks b → Grows truth level marks b)
    (hjoin : ∀ {left right a b}, Grows truth lower left a → Grows truth level right b →
      Grows truth level (left ++ mark :: right) (connect a b))
    (hone : ∀ link, value [link] = link.2)
    (hmore : ∀ link links, value (link :: links) = connect link.2 (value links))
    {links : List (List Mark × Bool)} (hne : links ≠ [])
    (hlinks : ∀ link ∈ links, Grows truth lower link.1 link.2) :
    Grows truth level ([mark].intercalate (links.map Prod.fst)) (value links) := by
  induction links with
  | nil => exact absurd rfl hne
  | cons link rest ih =>
    obtain ⟨hlink, hrest⟩ := List.forall_mem_cons.mp hlinks
    cases rest with
    | nil =>
      rw [hone]
      simpa using halone hlink
    | cons next rest =>
      have hne : next :: rest ≠ [] := List.cons_ne_nil _ _
      rw [intercalate_link mark link.1 link.2 hne, hmore]
      exact hjoin hlink (ih hne hrest)

/-- What marks mean is what some tree of theirs comes to. -/
theorem Means.grows {b : Bool} (h : Means truth level marks b) : Grows truth level marks b := by
  induction h with
  | const b => exact ⟨.const b, .const b, rfl⟩
  | flag name => exact ⟨.flag name, .flag name, rfl⟩
  | group _ ih =>
    obtain ⟨f, hf, hb⟩ := ih
    exact ⟨f, .group hf, hb⟩
  | conjunction hne _ ih =>
    refine grows_chain (· && ·) (·.all Prod.snd) ?_ ?_
      (fun link => Bool.and_true _) (fun _ _ => rfl) hne ih
    · intro marks b ⟨f, hf, hb⟩
      exact ⟨f, .term hf, hb⟩
    · rintro left right _ _ ⟨l, hl, rfl⟩ ⟨r, hr, rfl⟩
      exact ⟨.and l r, .and hl hr, rfl⟩
  | disjunction hne _ ih =>
    refine grows_chain (· || ·) (·.any Prod.snd) ?_ ?_
      (fun link => Bool.or_false _) (fun _ _ => rfl) hne ih
    · intro marks b ⟨f, hf, hb⟩
      exact ⟨f, .conjunction hf, hb⟩
    · rintro left right _ _ ⟨l, hl, rfl⟩ ⟨r, hr, rfl⟩
      exact ⟨.or l r, .or hl hr, rfl⟩

/-- The truth value of a tree is the only one that its marks mean. -/
theorem Derives.means_iff (h : Derives .disjunction marks f) {b : Bool} :
    Means truth .disjunction marks b ↔ f.holds truth = b := by
  constructor
  · intro hmeans
    obtain ⟨g, hg, hb⟩ := hmeans.grows
    rwa [derives_unique h hg]
  · rintro rfl
    exact h.means truth

/-- The names in a text, from left to right. -/
def namesOf (text : String) : List String := (marksOf text).filterMap Mark.name?

theorem checkFormula_of_derives {text : String} (h : Derives .disjunction (marksOf text) f)
    (flags : Table Value) : checkFormula flags text =
      (unlessFault (firstFault flags (namesOf text)) (f.holds (truthOf flags))).mapError .flag := by
  have hnames : f.flags = namesOf text := h.flags_eq
  rw [checkFormula_of_ofText (ofText_eq_ok_iff.mpr h), eval_eq, hnames]

theorem checkFormula_eq_error_iff {text : String} (h : Derives .disjunction (marksOf text) f)
    {flags : Table Value} {fault : FormulaFault} : checkFormula flags text = .error fault ↔
      ∃ e, firstFault flags (namesOf text) = some e ∧ fault = .flag e := by
  rw [checkFormula_of_derives h]
  cases firstFault flags (namesOf text) with
  | none =>
    show Except.ok (f.holds (truthOf flags)) = Except.error fault ↔ _
    simp
  | some e =>
    show Except.error (FormulaFault.flag e) = Except.error fault ↔ _
    simp [eq_comm]

theorem checkFormula_eq_ok_iff {text : String} (h : Derives .disjunction (marksOf text) f)
    {flags : Table Value} {b : Bool} : checkFormula flags text = .ok b ↔
      firstFault flags (namesOf text) = none ∧ f.holds (truthOf flags) = b := by
  rw [checkFormula_of_derives h]
  cases firstFault flags (namesOf text) with
  | none =>
    show Except.ok (f.holds (truthOf flags)) = Except.ok b ↔ _
    simp
  | some e =>
    show Except.error (FormulaFault.flag e) = Except.ok b ↔ _
    simp

end Formula

open Formula

/-- A text that is a formula has a tree of the grammar, and comes to what the reduction of any tree
of the grammar with its marks comes to. It fails exactly if one of its names stands for no truth
value, and then with the fault of the leftmost one. Otherwise its truth value is what its marks
mean. -/
theorem checkFormula_leftmost {text : String} (htext : ∃ f, Derives .disjunction (marksOf text) f)
    (flags : Table Value) :
    (∃ tree, Tree.ofText text = .ok tree ∧ Makes (.rule .whole) [tree] ∧
      tree.marks = marksOf text) ∧
    (∀ tree flat : Tree, tree.spread = [flat] → Makes (.rule .whole) [flat] →
      flat.marks = marksOf text → checkFormula flags text = (tree.check flags).mapError .ofMishap) ∧
    ((∃ fault, checkFormula flags text = .error fault) ↔
      ∃ name ∈ namesOf text, ¬IsFlag flags name) ∧
    (∀ fault, checkFormula flags text = .error fault ↔
      ∃ before name after e, namesOf text = before ++ name :: after ∧
        (∀ earlier ∈ before, IsFlag flags earlier) ∧ e.Of flags name ∧ fault = .flag e) ∧
    ∀ b, checkFormula flags text = .ok b ↔
      (∀ name ∈ namesOf text, IsFlag flags name) ∧
      Means (truthOf flags) .disjunction (marksOf text) b := by
  obtain ⟨f, hf⟩ := htext
  refine ⟨?_, fun tree flat hspread hmakes hmarks => ?_, ?_, fun fault => ?_, fun b => ?_⟩
  · obtain ⟨tree, htree, -⟩ := ofMarks_of_derives hf
    exact ⟨tree, Tree.ofText_eq_ok_iff.mpr htree, makes_of_ofMarks htree,
      (reads_of_ofMarks htree).2⟩
  · rw [Tree.check_of_spread hspread]
    exact checkFormula_of_makes hmakes hmarks flags
  · rw [← exists_firstFault_iff]
    constructor
    · rintro ⟨fault, hfault⟩
      obtain ⟨e, hfirst, -⟩ := (checkFormula_eq_error_iff hf).mp hfault
      exact ⟨e, hfirst⟩
    · rintro ⟨e, hfirst⟩
      exact ⟨.flag e, (checkFormula_eq_error_iff hf).mpr ⟨e, hfirst, rfl⟩⟩
  · rw [checkFormula_eq_error_iff hf]
    constructor
    · rintro ⟨e, hfirst, rfl⟩
      obtain ⟨before, name, after, hsplit, he, hbefore⟩ := firstFault_eq_some_iff.mp hfirst
      exact ⟨before, name, after, e, hsplit, hbefore, he, rfl⟩
    · rintro ⟨before, name, after, e, hsplit, hbefore, he, rfl⟩
      exact ⟨e, firstFault_eq_some_iff.mpr ⟨before, name, after, hsplit, he, hbefore⟩, rfl⟩
  · rw [checkFormula_eq_ok_iff hf, firstFault_eq_none_iff, hf.means_iff]

/-- A lamp that is lit decides the formula, but the moss is no truth value; nor is the key, which
comes later. With truth values for all names, no link of the chain holds. The tree has its links in
bunches. -/
theorem checkFormula_leftmost_moss :
    let text := "lamp OR(moss AND\tTRUE OR false)AND key OR FALSE"
    let flags : Table Value := .ofList [("lamp", .bool true), ("moss", .int 3)]
    let flags' : Table Value :=
      .ofList [("moss", .bool true), ("lamp", .bool false), ("key", .bool false)]
    let term (mark : Mark) : Tree := .node .term [.token mark]
    let alone (mark : Mark) : Tree := .node .conjunction [term mark]
    let moss : Tree := .node .conjunction [term (.name "moss"),
      .bunch [.bunch [.token .and, term (.const true)]]]
    let inner : Tree := .node .disjunction [moss,
      .bunch [.bunch [.token .or, alone (.const false)]]]
    let group : Tree := .node .term [.node .group [.token .opening, inner, .token .closing]]
    let key : Tree := .node .conjunction [group, .bunch [.bunch [.token .and, term (.name "key")]]]
    let links : List Tree := [.bunch [.token .or, key], .bunch [.token .or, alone (.const false)]]
    let tree : Tree := .node .whole
      [.node .disjunction [alone (.name "lamp"), .bunch links], .ending]
    checkFormula flags text = .error (.flag (.notTruth "moss" (.int 3))) ∧
      (tree.check flags).mapError .ofMishap = checkFormula flags text ∧
      Means (truthOf flags') .disjunction (marksOf text) false := by
  intro text flags flags' term alone moss inner group key links tree
  have hmarks : marksOf text = [.name "lamp", .or, .opening, .name "moss", .and, .const true, .or,
      .const false, .closing, .and, .name "key", .or, .const false] := by decide +kernel
  have hnames : namesOf text = ["lamp", "moss", "key"] := by rw [namesOf, hmarks]; rfl
  have hgroup : Derives .term
      [.opening, .name "moss", .and, .const true, .or, .const false, .closing]
      (.or (.and (.flag "moss") (.const true)) (.const false)) :=
    .group (.or (.and (.flag "moss") (.term (.const true))) (.conjunction (.term (.const false))))
  have hf : Derives .disjunction (marksOf text) (.or (.flag "lamp")
      (.or (.and (.or (.and (.flag "moss") (.const true)) (.const false)) (.flag "key"))
        (.const false))) := by
    rw [hmarks]
    exact .or (.term (.flag "lamp"))
      (.or (.and hgroup (.term (.flag "key"))) (.conjunction (.term (.const false))))
  have hcheck : checkFormula flags' text = .ok false := by
    rw [checkFormula_of_ofText (ofText_eq_ok_iff.mpr hf)]
    rfl
  obtain ⟨⟨flat, hflat, hmakes, hleaves⟩, hreduced, -, hfault, -⟩ :=
    checkFormula_leftmost ⟨_, hf⟩ flags
  obtain ⟨-, -, -, -, hmeans⟩ := checkFormula_leftmost ⟨_, hf⟩ flags'
  have hspread : tree.spread = [flat] := by
    rw [Tree.ofText_eq_ok_iff, hmarks] at hflat
    exact congrArg (fun tree => [tree]) (Except.ok.inj hflat)
  refine ⟨(hfault _).mpr ⟨["lamp"], "moss", ["key"], _, hnames, ?_, .notTruth rfl nofun, rfl⟩,
    (hreduced tree flat hspread hmakes hleaves).symm, ?_⟩
  · exact List.forall_mem_singleton.mpr ⟨true, rfl⟩
  · exact ((hmeans false).mp hcheck).2

end Passage
