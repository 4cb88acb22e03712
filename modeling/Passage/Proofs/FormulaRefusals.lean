import Passage.Proofs.Actions
import Passage.Proofs.FormulaPrefixes
import Passage.Proofs.FormulaTrials

/-!
# Where formulas are refused

A text that is no formula is refused at the first token that no formula has there, and what is
reported to be expected is just what some formula goes on with. The text up to the place can itself
be completed to a formula, unless its last token is a name that is spelled like a keyword: it is a
name only for the letter behind it, which no formula has. Of the kinds of the tokens, all this is
true without exception.
-/
namespace Passage.Formula

/-! ## Writing marks -/

/-- A word for a kind of marks. -/
def Mark.word : Mark → List Char
  | opening => ['(']
  | closing => [')']
  | and => ['A', 'N', 'D']
  | or => ['O', 'R']
  | const _ => ['T', 'R', 'U', 'E']
  | name _ => ['_']
  | stray c => [c]

/-- The mark that the word for its kind is scanned to. -/
def Mark.plain : Mark → Mark
  | const _ => const true
  | name _ => name "_"
  | mark => mark

theorem Mark.terminal?_plain (mark : Mark) : mark.plain.terminal? = mark.terminal? := by
  cases mark <;> rfl

theorem map_terminal?_plain (marks : List Mark) :
    (marks.map Mark.plain).map Mark.terminal? = marks.map Mark.terminal? := by
  rw [List.map_map]
  exact List.map_congr_left fun mark _ => mark.terminal?_plain

theorem upcoming_plain (marks : List Mark) : upcoming (marks.map Mark.plain) = upcoming marks := by
  cases marks with
  | nil => rfl
  | cons mark marks => exact mark.terminal?_plain

/-- The words of some marks, each with a blank behind it. -/
def written (marks : List Mark) : List Char := marks.flatMap fun mark => mark.word ++ [' ']

theorem scanFrom_word {word : List Char} (hne : word ≠ []) (hword : word.all Text.isNameChar = true)
    (offset : Nat) (rest : List Char) : Token.scanFrom .between offset (word ++ ' ' :: rest) =
      ⟨.ofRun true (String.ofList word), offset⟩ ::
        Token.scanFrom .between (offset + word.length + 1) rest := by
  have hapart : Passage.Token.Apart (' ' :: rest) := Passage.Token.apart_cons (by decide) rest
  have halone : Token.standsAlone (' ' :: rest) = true := by
    show (!Text.isWordChar ' ') = true
    decide
  rw [Token.scanFrom_run hne hword hapart, halone, Token.scanFrom_blank (by decide)]

theorem scanFrom_mark {mark : Mark} (h : mark.terminal? ≠ none) (offset : Nat) (rest : List Char) :
    Token.scanFrom .between offset (mark.word ++ ' ' :: rest) =
      ⟨mark.plain, offset⟩ :: Token.scanFrom .between (offset + mark.word.length + 1) rest := by
  have hsign {c : Char} (hblank : Token.isBlank c = false) (hname : Text.isNameChar c = false) :
      Token.scanFrom .between offset ([c] ++ ' ' :: rest) =
        ⟨Token.sign c, offset⟩ :: Token.scanFrom .between (offset + 1 + 1) rest := by
    rw [List.singleton_append, Token.scanFrom_sign hblank hname, Token.scanFrom_blank (by decide)]
  cases mark with
  | opening => exact @hsign '(' (by decide) (by decide)
  | closing => exact @hsign ')' (by decide) (by decide)
  | and => exact @scanFrom_word ['A', 'N', 'D'] (by decide) (by decide) offset rest
  | or => exact @scanFrom_word ['O', 'R'] (by decide) (by decide) offset rest
  | const _ => exact @scanFrom_word ['T', 'R', 'U', 'E'] (by decide) (by decide) offset rest
  | name _ => exact @scanFrom_word ['_'] (by decide) (by decide) offset rest
  | stray c => exact absurd rfl h

/-- Written marks are scanned to the plain marks of their kinds. -/
theorem marks_written {marks : List Mark} (h : ∀ mark ∈ marks, mark.terminal? ≠ none)
    (offset : Nat) :
    (Token.scanFrom .between offset (written marks)).map Token.mark = marks.map Mark.plain := by
  induction marks generalizing offset with
  | nil => rfl
  | cons mark marks ih =>
    rw [List.forall_mem_cons] at h
    have hsplit : written (mark :: marks) = mark.word ++ ' ' :: written marks := by simp [written]
    rw [hsplit, scanFrom_mark h.1, List.map_cons, ih h.2, List.map_cons]

theorem Derives.terminal?_ne_none {level : Level} {marks : List Mark} {f : Formula}
    (h : Derives level marks f) : ∀ mark ∈ marks, mark.terminal? ≠ none := by
  intro mark hmem hnone
  cases mark with
  | stray c => exact h.stray_notMem c hmem
  | _ => cases hnone

/-! ## Formulas that begin with tokens of some kinds -/

/-- The kinds of the tokens of a text, and its end. -/
def kindsOf (text : String) : List (Option Terminal) :=
  (marksOf text).map Mark.terminal? ++ [some .ending]

/-- Some formula begins with these kinds. -/
def Begins (kinds : List (Option Terminal)) : Prop :=
  ∃ text f, ofText text = .ok f ∧ kinds <+: kindsOf text

variable {front more : List Mark} {f : Formula} {standing : Standing} {kind : Option Terminal}

theorem upcoming_prefix (front more : List Mark) :
    front.map Mark.terminal? ++ [upcoming more] <+:
      (front ++ more).map Mark.terminal? ++ [some .ending] := by
  rw [List.map_append, List.append_assoc]
  refine (List.prefix_append_right_inj _).mpr ?_
  cases more with
  | nil => exact List.prefix_rfl
  | cons mark more => exact (List.prefix_cons_inj _).mpr (List.nil_prefix)

/-- Some formula has these marks in front and goes on with this kind. -/
def MayFollow (front : List Mark) (kind : Option Terminal) : Prop :=
  ∃ more f, upcoming more = kind ∧ Derives .disjunction (front ++ more) f

/-- A formula over marks is written in a text with the same kinds. -/
theorem MayFollow.begins (h : MayFollow front kind) :
    Begins (front.map Mark.terminal? ++ [kind]) := by
  obtain ⟨more, f, rfl, hf⟩ := h
  have hkinds : (marksOf (String.ofList (written (front ++ more)))).map Mark.terminal? =
      (front ++ more).map Mark.terminal? := by
    rw [marksOf, Token.scan_eq_scanFrom, String.toList_ofList, marks_written hf.terminal?_ne_none,
      map_terminal?_plain]
  obtain ⟨g, hg⟩ := derives_iff_walk.mpr (Standing.walk_eq_of_kinds hkinds.symm (hf.walk 0))
  refine ⟨_, g, ofText_eq_ok_iff.mpr hg, ?_⟩
  rw [kindsOf, hkinds]
  exact upcoming_prefix front more

/-- What follows in some formula behind tokens of these kinds may follow behind these marks. -/
theorem Begins.mayFollow (h : Begins (front.map Mark.terminal? ++ [kind])) :
    MayFollow front kind := by
  obtain ⟨text, g, htext, tail, htail⟩ := h
  have hg := ofText_eq_ok_iff.mp htext
  -- The marks of the text fall into some of the kinds of `front`, and what follows them.
  obtain ⟨front', more, hsplit, hfront, hmore⟩ : ∃ front' more, marksOf text = front' ++ more ∧
      front'.map Mark.terminal? = front.map Mark.terminal? ∧ upcoming more = kind := by
    rw [List.append_assoc, List.singleton_append, kindsOf] at htail
    rcases List.append_eq_append_iff.mp htail with ⟨kinds, hmarks, hkinds⟩ | ⟨kinds, hmarks, hkinds⟩
    · obtain ⟨front', more, hsplit, hfront, hmore⟩ := List.map_eq_append_iff.mp hmarks
      refine ⟨front', more, hsplit, hfront, ?_⟩
      subst hmore
      cases more with
      | nil => exact (List.cons.inj hkinds).1.symm
      | cons mark more => exact (List.cons.inj hkinds).1.symm
    · cases kinds with
      | nil =>
        rw [List.append_nil] at hmarks
        exact ⟨marksOf text, [], (List.append_nil _).symm, hmarks.symm, (List.cons.inj hkinds).1⟩
      | cons _ kinds =>
        have hnil := (List.cons.inj hkinds).2
        simp at hnil
  rw [hsplit] at hg
  have hkinds : (front' ++ more).map Mark.terminal? = (front ++ more).map Mark.terminal? := by
    rw [List.map_append, List.map_append, hfront]
  obtain ⟨f, hf⟩ := derives_iff_walk.mpr (Standing.walk_eq_of_kinds hkinds (hg.walk 0))
  exact ⟨more, f, hmore, hf⟩

/-! ## Formulas that begin with the tokens themselves -/

/-- Some formula has these marks in front and goes on with this kind. -/
def Continues (front : List Mark) (kind : Option Terminal) : Prop :=
  ∃ text f more, ofText text = .ok f ∧ marksOf text = front ++ more ∧ upcoming more = kind

/-- Some formula has the text up to a place, with the same tokens, and goes on with this kind. -/
def GoesOn (text : String) (place : Nat) (before : List Token) (kind : Option Terminal) : Prop :=
  ∃ whole f more, ofText whole = .ok f ∧ text.toList.take place <+: whole.toList ∧
    Token.scan whole = before ++ more ∧ upcoming (more.map Token.mark) = kind

theorem Continues.mayFollow (h : Continues front kind) : MayFollow front kind := by
  obtain ⟨text, f, more, hf, hmarks, hkind⟩ := h
  exact ⟨more, f, hkind, hmarks ▸ ofText_eq_ok_iff.mp hf⟩

/-- No formula has a name that is spelled like a keyword. -/
theorem Continues.distinct (h : Continues front kind) : Distinct front := by
  obtain ⟨text, f, more, hf, hmarks, -⟩ := h
  intro name hmem hkeyword
  have hname : .name name ∈ marksOf text := by
    rw [hmarks]
    exact List.mem_append_left more hmem
  obtain ⟨token, htoken, hmark⟩ := List.mem_map.mp hname
  obtain ⟨earlier, behind, hsplit⟩ := List.append_of_mem htoken
  obtain ⟨c, later, rfl, -⟩ := Token.stray_of_keyword hsplit hmark hkeyword
  refine (ofText_eq_ok_iff.mp hf).stray_notMem c ?_
  simp [marksOf, hsplit]

theorem GoesOn.continues {text : String} {place : Nat} {before : List Token}
    (h : GoesOn text place before kind) : Continues (before.map Token.mark) kind := by
  obtain ⟨whole, f, more, hf, -, hscan, hkind⟩ := h
  exact ⟨whole, f, more.map Token.mark, hf, by rw [marksOf, hscan, List.map_append], hkind⟩

/-- The text up to a place is completed by words for what may follow the tokens before it. -/
theorem MayFollow.goesOn {text : String} {before behind : List Token}
    (h : MayFollow (before.map Token.mark) kind) (hscan : Token.scan text = before ++ behind)
    (hdistinct : Distinct (before.map Token.mark)) :
    GoesOn text (Token.placeOf behind text.length) before kind := by
  obtain ⟨more, f, rfl, hf⟩ := h
  generalize hplace : Token.placeOf behind text.length = place
  have hcut : Token.scan (String.ofList (text.toList.take place ++ ' ' :: written more)) =
      before ++ Token.scanFrom .between (place + 1) (written more) := by
    have htotal : Token.placeOf behind (0 + text.toList.length) = place := by
      rw [Nat.zero_add, String.length_toList, hplace]
    rw [Token.scan_eq_scanFrom, String.toList_ofList]
    exact Token.scanFrom_cut hscan htotal hdistinct _
  have hmore : (Token.scanFrom .between (place + 1) (written more)).map Token.mark =
      more.map Mark.plain :=
    marks_written (fun mark hmem => hf.terminal?_ne_none mark (List.mem_append_right _ hmem)) _
  have hkinds : (before.map Token.mark ++ more).map Mark.terminal? =
      (before.map Token.mark ++ more.map Mark.plain).map Mark.terminal? := by
    rw [List.map_append, List.map_append, map_terminal?_plain]
  obtain ⟨g, hg⟩ := derives_iff_walk.mpr (Standing.walk_eq_of_kinds hkinds (hf.walk 0))
  refine ⟨_, g, _, ?_, ?_, hcut, ?_⟩
  · rw [ofText_eq_ok_iff, marksOf, hcut, List.map_append, hmore]
    exact hg
  · rw [String.toList_ofList]
    exact List.prefix_append _ _
  · rw [hmore, upcoming_plain]

/-! ## Refusals -/

theorem total_start (text : String) : (Place.start text).total = text.length := by
  rw [← String.length_toList]
  exact Nat.zero_add _

variable {text : String} {e : FormulaError}

theorem offsetOf_append (text : String) (passed left : List Token) :
    offsetOf text (passed ++ left) left.length = Token.placeOf left text.length := by
  rw [offsetOf, List.length_append, Nat.add_sub_cancel, List.drop_left]
  cases left <;> rfl

/-- The place of an error is where the reader refuses the marks of the text and, rule by rule, where
the trial fails at the furthest. -/
theorem exists_place_of_error (h : ofText text = .error e) :
    ∃ refusal stop trials, Tree.ofMarks (marksOf text) = .error refusal ∧
      stop.marks = refusal.rest ∧ Place.Onward (.start text) stop ∧
      e = ⟨text, refusal.expected, stop.skip.offset⟩ ∧
      Tries (.rule .whole) (.start text) none trials ∧
      Furthest trials stop.skip.offset refusal.expected.terminals := by
  unfold ofText Tree.ofText at h
  dsimp only at h
  cases hmarks : Tree.ofMarks ((Token.scan text).map Token.mark) with
  | ok f =>
    rw [hmarks] at h
    cases h
  | error refusal =>
    rw [hmarks] at h
    cases h
    obtain ⟨trials, stop, htries, hfurthest, hstop, honward⟩ :=
      @tries_whole_of_refused (.start text) refusal hmarks
    obtain ⟨passed, htokens, -⟩ := honward.tokens
    have hoffset : offsetOf text (Token.scan text) refusal.rest.length = stop.skip.offset := by
      have hscan : Token.scan text = passed ++ stop.tokens := htokens
      rw [← hstop, Place.marks, List.length_map, hscan, offsetOf_append, Place.offset_skip,
        honward.total, total_start, Token.placeOf]
    exact ⟨refusal, stop, trials, hmarks, hstop, honward, hoffset ▸ rfl, htries, hfurthest⟩

/-- There is one way to try a text that is refused, and it fails where the error says. -/
theorem tries_of_error (h : ofText text = .error e) :
    ∃ trials, Furthest trials e.offset e.expected.terminals ∧
      ∀ result found, Tries (.rule .whole) (.start text) result found ↔
        result = none ∧ found = trials := by
  obtain ⟨refusal, stop, trials, -, -, -, rfl, htries, hfurthest⟩ := exists_place_of_error h
  refine ⟨trials, hfurthest, fun result found => ⟨fun hfound => hfound.unique htries, ?_⟩⟩
  rintro ⟨rfl, rfl⟩
  exact htries

/-- An error lists what may follow the tokens before its place, which the token there may not. -/
theorem mayFollow_of_error (h : ofText text = .error e) :
    ∃ before behind, Token.scan text = before ++ behind ∧
      (∀ token ∈ before, token.offset < e.offset) ∧
      Token.placeOf behind text.length = e.offset ∧
      (∀ kind, kind ∈ e.expected.terminals ↔ MayFollow (before.map Token.mark) (some kind)) ∧
      (∃ kind, MayFollow (before.map Token.mark) (some kind)) ∧
      ¬MayFollow (before.map Token.mark) (upcoming (behind.map Token.mark)) := by
  obtain ⟨refusal, stop, -, hmarks, hstop, honward, rfl, -, -⟩ := exists_place_of_error h
  obtain ⟨before, htokens, hearlier⟩ := honward.tokens
  obtain ⟨front, standing, hsplit, hfront, hstanding, hstuck⟩ := walk_of_refused hmarks
  have hscan : Token.scan text = before ++ stop.tokens := htokens
  have hbehind : stop.tokens.map Token.mark = refusal.rest := hstop
  obtain rfl : front = before.map Token.mark := by
    rw [marksOf, hscan, List.map_append, hbehind] at hsplit
    exact (List.append_cancel_right hsplit).symm
  have hfollows (kind : Terminal) : kind ∈ refusal.expected.terminals ↔
      MayFollow (before.map Token.mark) (some kind) := by
    rw [← hstanding]
    exact Standing.mem_terminals_iff hfront
  refine ⟨before, stop.tokens, hscan, hearlier, ?_, hfollows, ?_, ?_⟩
  · rw [Place.offset_skip, honward.total, total_start, Token.placeOf]
  · obtain ⟨more, hmore⟩ := standing.exists_completion
    obtain ⟨kind, hkind, -⟩ := Standing.upcoming_mem hmore
    exact ⟨kind, (hfollows kind).mp (hstanding ▸ hkind)⟩
  · -- What follows leads on from the standing, which does not go on with the token there.
    rw [hbehind]
    rintro ⟨more, f, hmore, hf⟩
    have hwalk := hf.walk 0
    rw [Standing.walk_append, hfront] at hwalk
    obtain ⟨kind, hkind, hupcoming⟩ := Standing.upcoming_mem hwalk
    exact hstuck kind hkind (hmore.symm.trans hupcoming)

/-- Where and why a text is refused, with the tokens before the place and those from there on. -/
structure Stuck (text : String) (e : FormulaError) (before behind : List Token) : Prop where
  text_eq : e.text = text
  tokens : Token.scan text = before ++ behind
  earlier : ∀ token ∈ before, token.offset < e.offset
  place : Token.placeOf behind text.length = e.offset
  /-- There is one way to try the text rule by rule: it fails, at the furthest for the terminals
  expected here. -/
  trials : ∃ trials, Furthest trials e.offset e.expected.terminals ∧
    ∀ result found, Tries (.rule .whole) (.start text) result found ↔ result = none ∧ found = trials
  words : e.expected.words = " or ".intercalate (e.expected.terminals.map Terminal.label)
  /-- Some formula has the tokens before the place, unless a name is spelled like a keyword. -/
  viable : (∃ kind, Continues (before.map Token.mark) kind) ↔ Distinct (before.map Token.mark)
  /-- Such a name ends at the place, where a word character stands that belongs to no name. -/
  keyword : ∀ name ∈ keywords, .name name ∈ before.map Token.mark →
    ∃ earlier start c later, before = earlier ++ [⟨.name name, start⟩] ∧
      behind = ⟨.stray c, start + name.length⟩ :: later ∧
      Text.isWordChar c = true ∧ Text.isNameChar c = false
  /-- No formula has these tokens and goes on with what stands at the place. -/
  stuck : ¬Continues (before.map Token.mark) (upcoming (behind.map Token.mark))
  expected : Distinct (before.map Token.mark) →
    ∀ kind, kind ∈ e.expected.terminals ↔ Continues (before.map Token.mark) (some kind)
  /-- The text up to the place goes on to a formula with each kind that is expected. -/
  verbatim : Distinct (before.map Token.mark) →
    ∀ kind ∈ e.expected.terminals, GoesOn text e.offset before (some kind)
  /-- Of the kinds, all this is true whatever the names. -/
  begins : Begins ((before.map Token.mark).map Mark.terminal?)
  ends : ¬Begins ((before.map Token.mark).map Mark.terminal? ++ [upcoming (behind.map Token.mark)])
  kinds : ∀ kind, kind ∈ e.expected.terminals ↔
    Begins ((before.map Token.mark).map Mark.terminal? ++ [some kind])

/-- A name that is spelled like a keyword is the last token before a stray. -/
theorem keyword_last {before behind : List Token} (hscan : Token.scan text = before ++ behind)
    (hfollow : MayFollow (before.map Token.mark) kind) {name : String} (hkeyword : name ∈ keywords)
    (hmem : .name name ∈ before.map Token.mark) :
    ∃ earlier start c later, before = earlier ++ [⟨.name name, start⟩] ∧
      behind = ⟨.stray c, start + name.length⟩ :: later ∧
      Text.isWordChar c = true ∧ Text.isNameChar c = false := by
  obtain ⟨⟨_, start⟩, htoken, rfl⟩ := List.mem_map.mp hmem
  obtain ⟨earlier, between, rfl⟩ := List.append_of_mem htoken
  rw [List.append_assoc, List.cons_append] at hscan
  obtain ⟨c, later, hstray, hword, hname⟩ := Token.stray_of_keyword hscan rfl hkeyword
  cases between with
  | nil => exact ⟨earlier, start, c, later, rfl, hstray, hword, hname⟩
  | cons next between =>
    -- A formula could not go on behind the stray.
    obtain ⟨rfl, -⟩ := List.cons.inj hstray
    obtain ⟨more, f, -, hf⟩ := hfollow
    exact absurd (by simp) (hf.stray_notMem c)

/-- A text that is no formula is refused at the furthest place where a terminal fails, and the
terminals that fail there are what is reported to be expected: just what some formula goes on with
behind the tokens before the place. Whatever has the tokens of a formula is accepted. -/
theorem ofText_refusal_exact (text : String) :
    (∀ e, ofText text = .error e → ∃ before behind, Stuck text e before behind) ∧
    ∀ f, Derives .disjunction (marksOf text) f →
      ofText text = .ok f ∧ ∃ later trials,
      Tries (.rule .whole) (.start text) (some later) trials := by
  have haccepted (f : Formula) (hf : Derives .disjunction (marksOf text) f) :
      ofText text = .ok f ∧ ∃ later trials,
        Tries (.rule .whole) (.start text) (some later) trials := by
    obtain ⟨tree, htree, -⟩ := ofMarks_of_derives hf
    exact ⟨ofText_eq_ok_iff.mpr hf, tries_whole_of_ofMarks htree⟩
  refine ⟨fun e he => ?_, haccepted⟩
  obtain ⟨before, behind, hscan, hearlier, hplace, hfollows, ⟨kind, hkind⟩, hnone⟩ :=
    mayFollow_of_error he
  have hgoes (hdistinct : Distinct (before.map Token.mark)) {kind : Option Terminal}
      (h : MayFollow (before.map Token.mark) kind) : GoesOn text e.offset before kind :=
    hplace ▸ h.goesOn hscan hdistinct
  refine ⟨before, behind, ?_⟩
  constructor
  case text_eq =>
    obtain ⟨_, _, _, -, -, -, rfl, -⟩ := exists_place_of_error he
    rfl
  case tokens => exact hscan
  case earlier => exact hearlier
  case place => exact hplace
  case trials => exact tries_of_error he
  case words => exact Expectation.words_eq _
  case viable =>
    refine ⟨fun h => ?_, fun h => ⟨_, (hgoes h hkind).continues⟩⟩
    obtain ⟨_, hcontinues⟩ := h
    exact hcontinues.distinct
  case keyword => exact fun name hkeyword hmem => keyword_last hscan hkind hkeyword hmem
  case stuck => exact fun h => hnone h.mayFollow
  case expected =>
    intro hdistinct kind
    exact (hfollows kind).trans ⟨fun h => (hgoes hdistinct h).continues, Continues.mayFollow⟩
  case verbatim => exact fun hdistinct kind h => hgoes hdistinct ((hfollows kind).mp h)
  case begins =>
    obtain ⟨whole, f, hwhole, hbegins⟩ := hkind.begins
    exact ⟨whole, f, hwhole, (List.prefix_append _ _).trans hbegins⟩
  case ends => exact fun h => hnone h.mayFollow
  case kinds => exact fun kind => (hfollows kind).trans ⟨MayFollow.begins, Begins.mayFollow⟩

/-- A flag whose name begins with a keyword, in a group that is left open behind an operator: this
is refused at the end, where a term could follow, but the end could not. -/
theorem ofText_refusal_exact_open_group :
    let text := "lamp AND\t(ANDY OR "
    let front : List Mark := [.name "lamp", .and, .opening, .name "ANDY", .or]
    ofText text = .error ⟨text, .term, 18⟩ ∧ Continues front (some .literal) ∧
      ¬Continues front (some .ending) ∧ ∃ before, GoesOn text 18 before (some .identifier) := by
  intro text front
  have he : ofText text = .error ⟨text, .term, 18⟩ := by decide +kernel
  obtain ⟨before, behind, hstuck⟩ := (ofText_refusal_exact text).1 _ he
  have hend : behind = [] := by
    cases behind with
    | nil => rfl
    | cons token later =>
      have hmem : token ∈ Token.scan text :=
        hstuck.tokens ▸ List.mem_append_right _ List.mem_cons_self
      have hoffset : ∀ token ∈ Token.scan text, token.offset ≠ 18 := by decide +kernel
      exact absurd hstuck.place (hoffset token hmem)
  have hfront : before.map Token.mark = front := by
    have hscan := hstuck.tokens
    rw [hend, List.append_nil] at hscan
    rw [← hscan]
    decide +kernel
  have hdistinct : Distinct (before.map Token.mark) := by
    rw [hfront]
    intro name hname
    have hnames : name = "lamp" ∨ name = "ANDY" := by simpa [front] using hname
    rcases hnames with rfl | rfl <;> decide
  have hexpected := hstuck.expected hdistinct
  rw [hfront] at hexpected
  exact ⟨he, (hexpected .literal).mp (by decide), fun h =>
    absurd ((hexpected .ending).mpr h) (by decide),
    before, hstuck.verbatim hdistinct .identifier (by decide)⟩

/-- A run that is spelled like an operator is a name in front of a letter that belongs to no name.
No formula begins with such a name, though operators and the end are reported to be expected behind
it. -/
theorem ofText_refusal_keyword_name :
    let text := "AND\u00e9"
    ofText text = .error ⟨text, .operatorOrEnd, 3⟩ ∧
      Token.scan text = [⟨.name "AND", 0⟩, ⟨.stray '\u00e9', 3⟩] ∧
      Expectation.operatorOrEnd.terminals = [.and, .or, .ending] ∧
      ∀ kind, ¬Continues [.name "AND"] kind := by
  refine ⟨by decide +kernel, by decide +kernel, rfl, fun kind h => ?_⟩
  exact h.distinct "AND" (List.mem_singleton_self _) (by decide)

end Passage.Formula
