import Mathlib.Data.List.TakeWhile
import Passage.Proofs.Scanning

/-!
# Texts as rows of items

A text is scanned exactly if it is a row of items, and its tokens are those of the items, each at
the position of its first character. There is one such row at most, because an item is known by its
first character and goes on as far as it can. In any other text the items stop short of a place
where none starts, and the error is about that place.
-/
namespace Passage.Token

/-- The text is a row of items before a rest; each of them goes on as far as it can. -/
inductive Tiles : List Char → List Item → List Char → Prop
  | done (rest : List Char) : Tiles rest [] rest
  | item {item : Item} {text rest : List Char} {items : List Item} : item.Ends text →
      Tiles text items rest → Tiles (item.chars ++ text) (item :: items) rest

/-- Something is left, and no item starts there. -/
def Barren (rest : List Char) : Prop :=
  rest ≠ [] ∧ ∀ (item : Item) (later : List Char), rest ≠ item.chars ++ later

/-- The tokens of a row of items that starts at a position. -/
def tokensOf (position : Nat) : List Item → List Token
  | [] => []
  | item :: items => item.tokens position ++ tokensOf (position + item.chars.length) items

/-- The error for a place where no item starts: a quote without its partner, half of a pair `==`,
which is reported at the place behind it, or a stray character. -/
inductive Complaint (position : Nat) : List Char → TokenError → Prop
  | unclosed {later : List Char} : Complaint position ('\x22' :: later) (.unclosed position)
  | loneEqual {later : List Char} : Complaint position ('=' :: later) (.loneEqual (position + 1))
  | stray {c : Char} {later : List Char} : c ≠ '\x22' → c ≠ '=' →
      Complaint position (c :: later) (.stray position c)

variable {text rest later : List Char} {items : List Item} {position : Nat} {e : TokenError}

theorem exists_complaint (position : Nat) (hne : rest ≠ []) : ∃ e, Complaint position rest e := by
  obtain ⟨c, later, rfl⟩ := List.exists_cons_of_ne_nil hne
  by_cases hquote : c = '\x22'
  · subst hquote
    exact ⟨_, .unclosed⟩
  by_cases hequal : c = '='
  · subst hequal
    exact ⟨_, .loneEqual⟩
  · exact ⟨_, .stray hquote hequal⟩

/-! ## One item -/

theorem Item.length_pos (item : Item) : 0 < item.chars.length := by
  cases item with
  | run chars hne _ => exact List.length_pos_iff.mpr hne
  | quoted inner _ => simp [chars]
  | blank _ _ | opening | closing | comma | equal => simp [chars]

theorem apart_dropWhile (text : List Char) : Apart (text.dropWhile Text.isNameChar) := by
  intro c later h
  have hhead := List.head?_dropWhile_not Text.isNameChar text
  rw [h] at hhead
  simpa using hhead

theorem Apart.takeWhile_eq (h : Apart rest) {chars : List Char}
    (hchars : chars.all Text.isNameChar = true) :
    (chars ++ rest).takeWhile Text.isNameChar = chars := by
  have hrest : rest.takeWhile Text.isNameChar = [] := by
    cases rest with
    | nil => rfl
    | cons c later => rw [List.takeWhile_cons_of_neg (by simp [h c later rfl])]
  rw [List.takeWhile_append_of_pos (List.all_eq_true.mp hchars), hrest, List.append_nil]

theorem takeWhile_unquoted {inner : List Char} (h : '\x22' ∉ inner) (rest : List Char) :
    (inner ++ '\x22' :: rest).takeWhile (· ≠ '\x22') = inner := by
  have hall : ∀ c ∈ inner, decide (c ≠ '\x22') = true := fun c hc =>
    decide_eq_true fun heq => h (heq ▸ hc)
  rw [List.takeWhile_append_of_pos hall, List.takeWhile_cons_of_neg (by simp), List.append_nil]

/-- Where an item starts, one starts that goes on as far as it can. -/
theorem exists_item (item : Item) (later : List Char) :
    ∃ (longest : Item) (after : List Char), item.chars ++ later = longest.chars ++ after ∧
      longest.Ends after := by
  cases item with
  | run chars hne hchars =>
    have hall : ∀ c ∈ chars, Text.isNameChar c = true := List.all_eq_true.mp hchars
    have htake : (chars ++ later).takeWhile Text.isNameChar =
        chars ++ later.takeWhile Text.isNameChar := List.takeWhile_append_of_pos hall
    have hsome : (chars ++ later).takeWhile Text.isNameChar ≠ [] := by
      rw [htake]
      exact List.append_ne_nil_of_left_ne_nil hne _
    refine ⟨.run _ hsome (List.all_eq_true.mpr fun c hc => List.mem_takeWhile_imp hc), _,
      (List.takeWhile_append_dropWhile).symm, apart_dropWhile _⟩
  | blank c h => exact ⟨.blank c h, later, rfl, trivial⟩
  | opening => exact ⟨.opening, later, rfl, trivial⟩
  | closing => exact ⟨.closing, later, rfl, trivial⟩
  | comma => exact ⟨.comma, later, rfl, trivial⟩
  | equal => exact ⟨.equal, later, rfl, trivial⟩
  | quoted inner h => exact ⟨.quoted inner h, later, rfl, trivial⟩

/-- What the first character of an item makes of the scanner. -/
def Item.onset : Item → List Token × Mode
  | blank _ _ => ([], .between)
  | opening => ([⟨.opening, 1⟩], .between)
  | closing => ([⟨.closing, 1⟩], .between)
  | comma => ([⟨.comma, 1⟩], .between)
  | equal => ([], .afterEqual 1)
  | quoted _ _ => ([], .inText 1 [])
  | run chars _ _ => ([], .inName 1 (chars.take 1))

theorem Item.first_eq (item : Item) {c : Char} {after : List Char} (h : item.chars = c :: after) :
    first 1 c = .ok item.onset := by
  cases item with
  | blank d hd =>
    cases h
    rw [first, if_pos hd]
    rfl
  | opening | closing | comma | equal | quoted _ _ =>
    cases h
    rfl
  | run chars hne hchars =>
    cases h
    rw [List.all_cons, Bool.and_eq_true] at hchars
    exact first_of_isNameChar hchars.1 1

/-- Texts that start with items that go on as far as they can start with the same item. -/
theorem Item.eq_of_append {item item' : Item} {rest' : List Char} (h : item.Ends rest)
    (h' : item'.Ends rest') (heq : item.chars ++ rest = item'.chars ++ rest') :
    item = item' ∧ rest = rest' := by
  have honset : item.onset = item'.onset := by
    obtain ⟨c, after, hc⟩ := List.exists_cons_of_length_pos item.length_pos
    obtain ⟨c', after', hc'⟩ := List.exists_cons_of_length_pos item'.length_pos
    have hsame : c = c' := by
      rw [hc, hc'] at heq
      exact (List.cons.inj heq).1
    have hfirst := item.first_eq hc
    rw [hsame, item'.first_eq hc'] at hfirst
    exact (Except.ok.inj hfirst).symm
  cases item with
  | blank c hc =>
    cases item' with
    | blank c' hc' =>
      cases heq
      exact ⟨rfl, rfl⟩
    | _ => cases honset
  | opening =>
    cases item' with
    | opening =>
      cases heq
      exact ⟨rfl, rfl⟩
    | _ => cases honset
  | closing =>
    cases item' with
    | closing =>
      cases heq
      exact ⟨rfl, rfl⟩
    | _ => cases honset
  | comma =>
    cases item' with
    | comma =>
      cases heq
      exact ⟨rfl, rfl⟩
    | _ => cases honset
  | equal =>
    cases item' with
    | equal =>
      cases heq
      exact ⟨rfl, rfl⟩
    | _ => cases honset
  | quoted inner hinner =>
    cases item' with
    | quoted inner' hinner' =>
      simp only [chars, List.cons_append, List.append_assoc, List.nil_append, List.cons.injEq,
        true_and] at heq
      have hsame : inner = inner' := by
        rw [← takeWhile_unquoted hinner rest, heq, takeWhile_unquoted hinner' rest']
      subst hsame
      exact ⟨rfl, (List.cons.inj (List.append_cancel_left heq)).2⟩
    | _ => cases honset
  | run chars hne hchars =>
    cases item' with
    | run chars' hne' hchars' =>
      have heq : chars ++ rest = chars' ++ rest' := heq
      have hsame : chars = chars' := by
        rw [← Apart.takeWhile_eq h hchars, heq, Apart.takeWhile_eq h' hchars']
      subst hsame
      exact ⟨rfl, List.append_cancel_left heq⟩
    | _ => cases honset

/-! ## Rows of items -/

theorem Tiles.text_eq (h : Tiles text items rest) : text = items.flatMap Item.chars ++ rest := by
  induction h with
  | done rest => rfl
  | item _ _ ih => rw [List.flatMap_cons, List.append_assoc, ← ih]

/-- Every text is a row of items up to its end, or up to a place where no item starts. -/
theorem exists_tiles (text : List Char) :
    ∃ items rest, Tiles text items rest ∧ (rest = [] ∨ Barren rest) := by
  induction hn : text.length using Nat.strong_induction_on generalizing text with
  | _ n ih =>
    by_cases hend : text = [] ∨ Barren text
    · exact ⟨[], text, .done text, hend⟩
    rw [not_or] at hend
    obtain ⟨item, later, hitem⟩ : ∃ (item : Item) (later : List Char),
        text = item.chars ++ later := by
      by_contra hnone
      exact hend.2 ⟨hend.1, fun item later heq => hnone ⟨item, later, heq⟩⟩
    obtain ⟨longest, after, hlongest, hends⟩ := exists_item item later
    have hlength : after.length < n := by
      rw [← hn, hitem, hlongest, List.length_append]
      have := longest.length_pos
      omega
    obtain ⟨items, rest, htiles, hrest⟩ := ih after.length hlength after rfl
    rw [hitem, hlongest]
    exact ⟨longest :: items, rest, .item hends htiles, hrest⟩

theorem isNameChar_of_isBlank {c : Char} (h : isBlank c = true) : Text.isNameChar c = false := by
  simp only [isBlank, Bool.or_eq_true, beq_iff_eq] at h
  rcases h with ((rfl | rfl) | rfl) | rfl <;> rfl

/-- Behind the name characters at the beginning of some items, there are items again. -/
theorem exists_items_dropWhile (items : List Item) :
    ∃ items' : List Item, (items.flatMap Item.chars).dropWhile Text.isNameChar =
      items'.flatMap Item.chars := by
  have hapart (item : Item) {c : Char} {later : List Char} (items : List Item)
      (hchars : item.chars = c :: later) (hc : Text.isNameChar c = false) :
      ((item :: items).flatMap Item.chars).dropWhile Text.isNameChar =
        (item :: items).flatMap Item.chars := by
    rw [List.flatMap_cons, hchars, List.cons_append, List.dropWhile_cons_of_neg (by simp [hc])]
  induction items with
  | nil => exact ⟨[], rfl⟩
  | cons item items ih =>
    cases item with
    | run chars hne hchars =>
      obtain ⟨items', hitems'⟩ := ih
      have hall : ∀ c ∈ chars, Text.isNameChar c = true := List.all_eq_true.mp hchars
      refine ⟨items', ?_⟩
      rw [List.flatMap_cons, Item.chars, List.dropWhile_append_of_pos hall, hitems']
    | blank c h => exact ⟨_, hapart (.blank c h) items rfl (isNameChar_of_isBlank h)⟩
    | opening => exact ⟨_, hapart .opening items rfl rfl⟩
    | closing => exact ⟨_, hapart .closing items rfl rfl⟩
    | comma => exact ⟨_, hapart .comma items rfl rfl⟩
    | equal => exact ⟨_, hapart .equal items rfl rfl⟩
    | quoted inner h => exact ⟨_, hapart (.quoted inner h) items rfl rfl⟩

/-- Items make a row, once runs that follow one another are taken together. -/
theorem exists_tiles_of_items (items : List Item) :
    ∃ row, Tiles (items.flatMap Item.chars) row [] := by
  induction hn : (items.flatMap Item.chars).length using Nat.strong_induction_on
    generalizing items with
  | _ n ih =>
    subst hn
    cases items with
    | nil => exact ⟨[], .done []⟩
    | cons item items =>
      have hlater := item.length_pos
      by_cases hends : item.Ends (items.flatMap Item.chars)
      · obtain ⟨row, hrow⟩ := ih _ (by rw [List.flatMap_cons, List.length_append]; omega) items rfl
        exact ⟨item :: row, .item hends hrow⟩
      cases item with
      | run chars hne hchars =>
        -- The run goes on with the items behind it, and what is left of them is items again.
        obtain ⟨items', hitems'⟩ := exists_items_dropWhile (.run chars hne hchars :: items)
        generalize hwhole : (Item.run chars hne hchars :: items).flatMap Item.chars =
          whole at ih hitems' ⊢
        have hsplit : whole.takeWhile Text.isNameChar ++ items'.flatMap Item.chars = whole := by
          rw [← hitems', List.takeWhile_append_dropWhile]
        have hsome : whole.takeWhile Text.isNameChar ≠ [] := by
          rw [← hwhole, List.flatMap_cons, Item.chars,
            List.takeWhile_append_of_pos (List.all_eq_true.mp hchars)]
          exact List.append_ne_nil_of_left_ne_nil hne _
        have hall : (whole.takeWhile Text.isNameChar).all Text.isNameChar = true :=
          List.all_eq_true.mpr fun c hc => List.mem_takeWhile_imp hc
        have hends : (Item.run _ hsome hall).Ends (items'.flatMap Item.chars) :=
          hitems' ▸ apart_dropWhile whole
        have hlonger := congrArg List.length hsplit
        have hpos := List.length_pos_iff.mpr hsome
        rw [List.length_append] at hlonger
        obtain ⟨row, hrow⟩ := ih _ (by omega) items' rfl
        have htiles := Tiles.item hends hrow
        rw [Item.chars, hsplit] at htiles
        exact ⟨_, htiles⟩
      | _ => exact absurd trivial hends

/-- There is one row of items only. -/
theorem Tiles.unique (h : Tiles text items rest) (hrest : rest = [] ∨ Barren rest)
    {items' : List Item} {rest' : List Char} (h' : Tiles text items' rest')
    (hrest' : rest' = [] ∨ Barren rest') :
    items = items' ∧ rest = rest' := by
  -- At the end of a row no other one goes on.
  have hstuck {item : Item} {later : List Char}
      (hend : item.chars ++ later = [] ∨ Barren (item.chars ++ later)) : False := by
    rcases hend with hnil | hbarren
    · have := item.length_pos
      rw [(List.append_eq_nil_iff.mp hnil).1] at this
      exact absurd this (Nat.lt_irrefl 0)
    · exact hbarren.2 item later rfl
  induction h generalizing items' with
  | done rest =>
    cases h' with
    | done => exact ⟨rfl, rfl⟩
    | item _ _ => exact (hstuck hrest).elim
  | @item item text rest items hends htiles ih =>
    generalize hwhole : item.chars ++ text = whole at h'
    cases h' with
    | done =>
      subst hwhole
      exact (hstuck hrest').elim
    | @item item' text' _ items' hends' htiles' =>
      obtain ⟨rfl, rfl⟩ := Item.eq_of_append hends hends' hwhole
      obtain ⟨rfl, rfl⟩ := ih hrest htiles'
      exact ⟨rfl, rfl⟩

/-- A row of items is scanned to its tokens, whatever the rest comes to. -/
theorem scanFrom_tiles (h : Tiles text items rest) (position : Nat) :
    scanFrom .between position text = do
      let later ← scanFrom .between (position + (items.flatMap Item.chars).length) rest
      return tokensOf position items ++ later := by
  induction h generalizing position with
  | done rest =>
    rw [List.flatMap_nil, List.length_nil, Nat.add_zero]
    exact (bind_pure _).symm
  | @item item text rest items hends _ ih =>
    rw [scanFrom_item item hends, ih, List.flatMap_cons, List.length_append, ← Nat.add_assoc]
    simp only [bind_assoc, pure_bind, tokensOf, List.append_assoc]

theorem scanFrom_unclosed {chars : List Char} (h : '\x22' ∉ chars) (start position : Nat)
    (heard : List Char) :
    scanFrom (.inText start heard) position chars = .error (.unclosed start) := by
  induction chars generalizing position heard with
  | nil => rfl
  | cons c chars ih =>
    rw [List.mem_cons, not_or] at h
    have hstep : step (.inText start heard) position c = .ok ([], .inText start (c :: heard)) :=
      if_neg (Ne.symm h.1)
    rw [scanFrom_silent hstep, ih h.2]

/-- Where no item starts, the scanner complains. -/
theorem Barren.scanFrom_eq (h : Barren rest) (he : Complaint position rest e) :
    scanFrom .between position rest = .error e := by
  obtain ⟨_, hnone⟩ := h
  cases he with
  | @unclosed later =>
    have hopen : '\x22' ∉ later := by
      intro hmem
      obtain ⟨inner, after, rfl, hinner⟩ := List.eq_append_cons_of_mem hmem
      exact hnone (.quoted inner hinner) after (by simp [Item.chars])
    have hquote : step .between position '\x22' = .ok ([], .inText position []) := rfl
    rw [scanFrom_silent hquote, scanFrom_unclosed hopen]
  | @loneEqual later =>
    have hfirst : step .between position '=' = .ok ([], .afterEqual position) := rfl
    rw [scanFrom_silent hfirst]
    cases later with
    | nil => rfl
    | cons d after =>
      have hne : d ≠ '=' := by
        rintro rfl
        exact hnone .equal after rfl
      rw [scanFrom_cons, step, if_neg hne]
      rfl
  | @stray c later hquote hequal =>
    have hblank : ¬isBlank c = true := fun h => hnone (.blank c h) later rfl
    have hopening : c ≠ '(' := by
      rintro rfl
      exact hnone .opening later rfl
    have hclosing : c ≠ ')' := by
      rintro rfl
      exact hnone .closing later rfl
    have hcomma : c ≠ ',' := by
      rintro rfl
      exact hnone .comma later rfl
    have hname : ¬Text.isNameChar c = true := fun h =>
      hnone (.run [c] (List.cons_ne_nil _ _) (by simpa using h)) later rfl
    rw [scanFrom_cons, step, first, if_neg hblank, if_neg hopening, if_neg hclosing, if_neg hcomma,
      if_neg hquote, if_neg hequal, if_neg hname]
    rfl

/-- What is scanned is a row of items up to its end. -/
theorem exists_tiles_of_scan {text : String} {tokens : List Token} (h : scan text = .ok tokens) :
    ∃ items, Tiles text.toList items [] ∧ tokens = tokensOf 1 items := by
  obtain ⟨items, rest, htiles, hrest⟩ := exists_tiles text.toList
  rw [scan_eq_scanFrom, scanFrom_tiles htiles] at h
  rcases hrest with rfl | hbarren
  · refine ⟨items, htiles, ?_⟩
    rw [← List.append_nil (tokensOf 1 items)]
    exact (Except.ok.inj h).symm
  · obtain ⟨e, he⟩ := exists_complaint (1 + (items.flatMap Item.chars).length) hbarren.1
    rw [hbarren.scanFrom_eq he] at h
    cases h

theorem symbols_tokensOf (position : Nat) (items : List Item) :
    (tokensOf position items).map Token.symbol = items.flatMap fun item => item.symbol?.toList := by
  induction items generalizing position with
  | nil => rfl
  | cons item items ih =>
    rw [tokensOf, List.map_append, ih, List.flatMap_cons, Item.tokens]
    cases item.symbol? <;> rfl

/-! ## Listings -/

theorem listing_of_tiles {text : String} (h : Tiles text.toList items []) :
    listing text = .ok (tokensOf 1 items ++ [⟨.ending, text.length + 1⟩]) := by
  have hscan : scan text = .ok (tokensOf 1 items) := by
    rw [scan_eq_scanFrom, scanFrom_tiles h]
    exact congrArg Except.ok (List.append_nil _)
  rw [listing, hscan]
  rfl

theorem listing_of_barren {text : String} (h : Tiles text.toList items rest) (hbarren : Barren rest)
    (he : Complaint ((items.flatMap Item.chars).length + 1) rest e) : listing text = .error e := by
  rw [Nat.add_comm] at he
  rw [listing, scan_eq_scanFrom, scanFrom_tiles h, hbarren.scanFrom_eq he]
  rfl

end Passage.Token
