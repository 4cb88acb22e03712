import Passage.Proofs.Tiling
import Passage.Token.CursorScan

/-!
# Scanning with a cursor

The scanner with a cursor comes to the same tokens, or to the same complaint, as the one that goes
from mode to mode; it makes no move past the end, and as many turns as there are characters, and one
more, are enough for each of its loops.
-/
namespace Passage

namespace Token

namespace CursorScan

variable {front rest : List Char}

open Cursor
open Passage.Action

theorem outcome_consume (skipped : List Char) (hne : skipped ≠ []) :
    (consume skipped.length).outcome (between front (skipped ++ rest)) =
      some (.ok (skipped.getLast hne), between (front ++ skipped) rest) := by
  rw [consume, outcome_ofOutcome, advance_between skipped hne]
  rfl

theorem outcome_consume_one (c : Char) :
    (consume 1).outcome (between front (c :: rest)) = some (.ok c, between (front ++ [c]) rest) :=
  outcome_consume [c] (List.cons_ne_nil _ _)

/-- A name is seen up to its last character. -/
theorem outcome_nameAhead {chars : List Char} (hchars : chars.all Text.isNameChar = true)
    (hrest : Apart rest) (heard front : List Char) {turns : Nat} (hturns : chars.length < turns)
    (state : Cursor Char) :
    (nameAhead (between front (heard.reverse ++ (chars ++ rest))) turns
      (heard.length + 1) heard).outcome state = some (.ok (heard.reverse ++ chars), state) := by
  obtain ⟨turns, rfl⟩ : ∃ fewer, turns = fewer + 1 := ⟨turns - 1, by omega⟩
  induction chars generalizing heard turns with
  | nil =>
    unfold nameAhead
    rw [← List.length_reverse, peek?_beyond, pastEnd_beyond, List.nil_append, List.append_nil]
    cases rest with
    | nil => rfl
    | cons c later =>
      dsimp only [List.isEmpty_cons, List.head?_cons]
      rw [if_neg (by simp [hrest c later rfl])]
      rfl
  | cons c chars ih =>
    rw [List.all_cons, Bool.and_eq_true] at hchars
    rw [List.length_cons] at hturns
    obtain ⟨turns, rfl⟩ : ∃ fewer, turns = fewer + 1 := ⟨turns - 1, by omega⟩
    have hnext := ih hchars.2 (c :: heard) turns (by omega)
    simp only [List.reverse_cons, List.append_assoc, List.singleton_append,
      List.length_cons] at hnext
    unfold nameAhead
    rw [← List.length_reverse, peek?_beyond, pastEnd_beyond, List.length_reverse]
    dsimp only [List.cons_append, List.isEmpty_cons, List.head?_cons]
    rw [if_pos hchars.1]
    exact hnext

theorem outcome_name {chars : List Char} (hchars : chars.all Text.isNameChar = true)
    (hrest : Apart rest) (front : List Char) {turns : Nat} (hturns : chars.length < turns)
    (state : Cursor Char) :
    (nameAhead (between front (chars ++ rest)) turns 1 []).outcome state =
      some (.ok chars, state) :=
  outcome_nameAhead hchars hrest [] front hturns state

theorem outcome_restOfText_nil (start turns : Nat) (heard front : List Char) :
    (restOfText start (turns + 1) heard).outcome (between front []) =
      some (.error (.token (.unclosed start)), between front []) := by
  have hend : (between front ([] : List Char)).pastEnd 1 = true := pastEnd_one front []
  rw [restOfText, outcome_bind_ok (outcome_read id _)]
  dsimp only [id]
  rw [if_neg (by rw [peek?_one]; nofun), if_pos hend]
  rfl

theorem outcome_restOfText_quote (start turns : Nat) (heard front rest : List Char) :
    (restOfText start (turns + 1) heard).outcome (between front ('\x22' :: rest)) =
      some (.ok heard.reverse, between (front ++ ['\x22']) rest) := by
  have hquote : (between front ('\x22' :: rest)).peek? 1 = some '\x22' := peek?_one front _
  rw [restOfText, outcome_bind_ok (outcome_read id _)]
  dsimp only [id]
  rw [if_pos hquote, outcome_bind_ok (outcome_consume_one _)]
  rfl

theorem outcome_restOfText_cons {c : Char} (hc : '\x22' ≠ c) (start turns : Nat)
    (heard front rest : List Char) :
    (restOfText start (turns + 1) heard).outcome (between front (c :: rest)) =
      (restOfText start turns (c :: heard)).outcome (between (front ++ [c]) rest) := by
  have hquote : ¬(between front (c :: rest)).peek? 1 = some '\x22' := by
    rw [peek?_one]
    exact fun h => hc (Option.some.inj h).symm
  rw [restOfText, outcome_bind_ok (outcome_read id _)]
  dsimp only [id]
  rw [if_neg hquote, if_neg (by rw [pastEnd_one]; nofun), outcome_bind_ok (outcome_consume_one _)]

/-- A text is read up to its second quote. -/
theorem outcome_restOfText {inner : List Char} (hinner : '\x22' ∉ inner) (start : Nat)
    (heard front rest : List Char) {turns : Nat} (hturns : inner.length < turns) :
    (restOfText start turns heard).outcome (between front (inner ++ '\x22' :: rest)) =
      some (.ok (heard.reverse ++ inner), between (front ++ (inner ++ ['\x22'])) rest) := by
  obtain ⟨turns, rfl⟩ : ∃ fewer, turns = fewer + 1 := ⟨turns - 1, by omega⟩
  induction inner generalizing front heard turns with
  | nil =>
    rw [List.append_nil]
    exact outcome_restOfText_quote start turns heard front rest
  | cons c inner ih =>
    rw [List.mem_cons, not_or] at hinner
    rw [List.length_cons] at hturns
    obtain ⟨turns, rfl⟩ : ∃ fewer, turns = fewer + 1 := ⟨turns - 1, by omega⟩
    rw [List.cons_append, outcome_restOfText_cons hinner.1,
      ih hinner.2 (c :: heard) (front ++ [c]) turns (by omega)]
    simp

/-- Without a second quote the scanner complains about the first one. -/
theorem outcome_restOfText_unclosed {later : List Char} (hlater : '\x22' ∉ later) (start : Nat)
    (heard front : List Char) {turns : Nat} (hturns : later.length < turns) :
    (restOfText start turns heard).outcome (between front later) =
      some (.error (.token (.unclosed start)), between (front ++ later) []) := by
  obtain ⟨turns, rfl⟩ : ∃ fewer, turns = fewer + 1 := ⟨turns - 1, by omega⟩
  induction later generalizing front heard turns with
  | nil =>
    rw [List.append_nil]
    exact outcome_restOfText_nil start turns heard front
  | cons c later ih =>
    rw [List.mem_cons, not_or] at hlater
    rw [List.length_cons] at hturns
    obtain ⟨turns, rfl⟩ : ∃ fewer, turns = fewer + 1 := ⟨turns - 1, by omega⟩
    rw [outcome_restOfText_cons hlater.1, ih hlater.2 (c :: heard) (front ++ [c]) turns (by omega),
      List.append_assoc, List.singleton_append]

/-- The cursor goes over one item and leaves its token. -/
theorem outcome_item (tile : Item) (hends : tile.Ends rest) {c : Char} {after : List Char}
    (hchars : tile.chars = c :: after) {turns : Nat} (hturns : tile.chars.length < turns)
    (position : Nat) : (item turns position c).outcome (between front (tile.chars ++ rest)) =
      some (.ok (tile.tokens position), between (front ++ tile.chars) rest) := by
  cases tile with
  | blank d hblank =>
    cases hchars
    unfold item
    rw [if_pos hblank]
    exact outcome_bind_ok (outcome_consume_one c) _
  | opening | closing | comma =>
    cases hchars
    exact outcome_bind_ok (outcome_consume_one _) _
  | equal =>
    cases hchars
    have hsecond : (between (front ++ ['=']) ('=' :: rest)).peek? 1 = some '=' := peek?_one _ _
    show ((consume 1 >>= fun _ => _) : CursorScan (List Token)).outcome
      (between front ('=' :: '=' :: rest)) = _
    rw [outcome_bind_ok (outcome_consume_one '='), outcome_bind_ok (outcome_read id _)]
    dsimp only [id]
    rw [if_pos hsecond, outcome_bind_ok (outcome_consume_one '='), List.append_assoc]
    rfl
  | quoted inner hinner =>
    cases hchars
    have htext : (Item.quoted inner hinner).chars ++ rest =
        '\x22' :: (inner ++ '\x22' :: rest) := by
      simp [Item.chars]
    have hlength : inner.length < turns := by
      simp only [Item.chars, List.length_append, List.length_cons] at hturns
      omega
    show ((consume 1 >>= fun _ => _) : CursorScan (List Token)).outcome _ = _
    rw [htext, outcome_bind_ok (outcome_consume_one '\x22'),
      outcome_bind_ok (outcome_restOfText hinner position [] _ rest hlength), List.append_assoc]
    rfl
  | run chars hne hall =>
    have hchars : chars = c :: after := hchars
    have hc : Text.isNameChar c = true := List.all_eq_true.mp hall c (hchars ▸ List.mem_cons_self)
    have hother (d : Char) (hd : Text.isNameChar d = false) : c ≠ d := ne_of_isNameChar hc hd
    have hblank : ¬isBlank c = true := by
      simp [isBlank, hother ' ' rfl, hother '\t' rfl, hother '\n' rfl, hother '\r' rfl]
    rw [Item.tokens, Item.symbol?_run, item, if_neg hblank, if_neg (hother '(' rfl),
      if_neg (hother ')' rfl),
      if_neg (hother ',' rfl), if_neg (hother '\x22' rfl), if_neg (hother '=' rfl),
      outcome_bind_ok (outcome_read id _)]
    show (nameAhead (between front (chars ++ rest)) turns 1 [] >>= _).outcome
      (between front (chars ++ rest)) = _
    rw [outcome_bind_ok (outcome_name hall hends front hturns _), if_neg hne,
      outcome_bind_ok (outcome_consume chars hne)]
    rfl

/-- Where no item starts, the cursor comes to the complaint about that place. -/
theorem outcome_item_of_barren {c : Char} {later : List Char} (hbarren : Barren (c :: later))
    {e : TokenError} (he : Complaint (front.length + 1) (c :: later) e) {turns : Nat}
    (hturns : later.length < turns) :
    ∃ final, (item turns (front.length + 1) c).outcome (between front (c :: later)) =
      some (.error (.token e), final) := by
  obtain ⟨_, hnone⟩ := hbarren
  cases he with
  | unclosed =>
    have hopen : '\x22' ∉ later := by
      intro hmem
      obtain ⟨inner, after, rfl, hinner⟩ := List.eq_append_cons_of_mem hmem
      exact hnone (.quoted inner hinner) after (by simp [Item.chars])
    refine ⟨between (front ++ ['\x22'] ++ later) [], ?_⟩
    show ((consume 1 >>= fun _ => _) : CursorScan (List Token)).outcome _ = _
    rw [outcome_bind_ok (outcome_consume_one '\x22')]
    exact outcome_bind_error (outcome_restOfText_unclosed hopen _ [] _ hturns) _
  | loneEqual =>
    have hsecond : ¬(between (front ++ ['=']) later).peek? 1 = some '=' := by
      rw [peek?_one]
      intro h
      cases later with
      | nil => cases h
      | cons d after =>
        cases h
        exact hnone .equal after rfl
    have hplace : (between (front ++ ['=']) later).location.toNat + 1 = front.length + 1 + 1 := by
      rw [location_between, Int.toNat_natCast, List.length_append, List.length_singleton]
    refine ⟨between (front ++ ['=']) later, ?_⟩
    show ((consume 1 >>= fun _ => _) : CursorScan (List Token)).outcome _ = _
    rw [outcome_bind_ok (outcome_consume_one '='), outcome_bind_ok (outcome_read id _)]
    dsimp only [id]
    rw [if_neg hsecond, hplace]
    rfl
  | stray hquote hequal =>
    have hblank : ¬isBlank c = true := fun h => hnone (.blank c h) later rfl
    have hopening : c ≠ '(' := by
      rintro rfl
      exact hnone .opening later rfl
    have hclosing : c ≠ ')' := by
      rintro rfl
      exact hnone .closing later rfl
    have hcomma : c ≠ ',' := by
      rintro rfl
      exact hnone .comma later rfl
    have hapart : Apart (c :: later) := apart_cons
      (Bool.eq_false_iff.mpr fun h => hnone
        (.run [c] (List.cons_ne_nil _ _) (by simpa using h)) later rfl) _
    have hname : (nameAhead (between front (c :: later)) turns 1 []).outcome
      (between front (c :: later)) =
        some (.ok [], between front (c :: later)) :=
      @outcome_name (c :: later) [] rfl hapart front turns (Nat.zero_lt_of_lt hturns) _
    refine ⟨between front (c :: later), ?_⟩
    rw [item, if_neg hblank, if_neg hopening, if_neg hclosing, if_neg hcomma, if_neg hquote,
      if_neg hequal, outcome_bind_ok (outcome_read id _)]
    show (nameAhead (between front (c :: later)) turns 1 [] >>= _).outcome
      (between front (c :: later)) = _
    rw [outcome_bind_ok hname]
    rfl

/-- The cursor goes over a row of items, and leaves their tokens or comes to a complaint. -/
theorem outcome_listing {text : List Char} {items : List Item} (h : Tiles text items rest)
    (hrest : rest = [] ∨ Barren rest) (front : List Char) {turns : Nat}
    (hturns : text.length < turns) : ∃ final, (listing turns).outcome (between front text) =
      some (((scanFrom .between (front.length + 1) text).map
        fun tokens => tokens ++ [⟨.ending, front.length + 1 + text.length⟩]).mapError .token,
          final) := by
  obtain ⟨turns, rfl⟩ : ∃ fewer, turns = fewer + 1 := ⟨turns - 1, by omega⟩
  have hposition (front rest : List Char) : (between front rest).location.toNat + 1 =
      front.length + 1 := by
    rw [location_between, Int.toNat_natCast]
  induction h generalizing front turns with
  | done rest =>
    unfold listing
    rw [outcome_bind_ok (outcome_read id _)]
    dsimp only [id]
    rw [peek?_one, hposition]
    cases rest with
    | nil => exact ⟨between front [], rfl⟩
    | cons c later =>
      have hbarren : Barren (c :: later) := hrest.resolve_left (List.cons_ne_nil _ _)
      obtain ⟨e, he⟩ := exists_complaint (front.length + 1) hbarren.1
      obtain ⟨final, hitem⟩ :=
        outcome_item_of_barren hbarren he (Nat.lt_succ_self later.length |>.trans hturns)
      rw [hbarren.scanFrom_eq he]
      exact ⟨final, outcome_bind_error hitem _⟩
  | @item tile text rest items hends htiles ih =>
    obtain ⟨c, after, hchars⟩ := List.exists_cons_of_length_pos tile.length_pos
    have hpos := tile.length_pos
    rw [List.length_append] at hturns
    obtain ⟨turns, rfl⟩ : ∃ fewer, turns = fewer + 1 := ⟨turns - 1, by omega⟩
    obtain ⟨final, hlater⟩ := ih hrest (front ++ tile.chars) turns (by omega)
    have hitem := @outcome_item front text tile hends c after hchars (turns + 1 + 1) (by omega)
      (front.length + 1)
    have hhead : (between front (tile.chars ++ text)).peek? 1 = some c := by
      rw [peek?_one, hchars]
      rfl
    have hplace : (front ++ tile.chars).length + 1 = front.length + 1 + tile.chars.length := by
      rw [List.length_append]
      omega
    refine ⟨final, ?_⟩
    rw [listing, outcome_bind_ok (outcome_read id _)]
    dsimp only [id]
    rw [hhead, hposition, scanFrom_item tile hends]
    dsimp only
    rw [outcome_bind_ok hitem]
    rw [hplace] at hlater
    cases hscan : scanFrom .between (front.length + 1 + tile.chars.length) text with
    | error e =>
      rw [hscan] at hlater
      exact outcome_bind_error hlater _
    | ok later =>
      have hend : front.length + 1 + (tile.chars ++ text).length =
          front.length + 1 + tile.chars.length + text.length := by
        rw [List.length_append, Nat.add_assoc _ tile.chars.length]
      rw [hscan] at hlater
      rw [outcome_bind_ok hlater, hend]
      exact congrArg (fun tokens => some (Except.ok tokens, final)) (List.append_assoc _ _ _).symm

end CursorScan

/-! ## The listing of a text -/

/-- A listing is exact. It is there if and only if the text is made of items. With runs that go on
as far as they can, it is a row of items then, and its tokens are the symbols of these items, each
spelled as its item and at the position where that starts, and the end mark behind the last
character. There is one such row only, and if it stops short of the end, the error is about the
place where it does. A cursor comes to the same listing or the same error, in as many turns as there
are characters and one more, and makes no move past the end. -/
theorem listing_exact (text : String) :
    ((∃ tokens, listing text = .ok tokens) ↔
      ∃ items : List Item, text.toList = items.flatMap Item.chars) ∧
    (∀ tokens, listing text = .ok tokens ↔ ∃ items, Tiles text.toList items [] ∧
      tokens = tokensOf 1 items ++ [⟨.ending, text.length + 1⟩]) ∧
    (∀ (item : Item) symbol, item.symbol? = some symbol →
      symbol.spelling = String.ofList item.inside) ∧
    (∀ e, listing text = .error e ↔ ∃ items rest, Tiles text.toList items rest ∧ Barren rest ∧
      Complaint ((items.flatMap Item.chars).length + 1) rest e) ∧
    (∃! row : List Item × List Char, Tiles text.toList row.1 row.2 ∧ (row.2 = [] ∨ Barren row.2)) ∧
    (∃ final, (CursorScan.listing (text.length + 1)).outcome (Cursor.start text.toList) =
      some ((listing text).mapError .token, final)) := by
  obtain ⟨items, rest, htiles, hrest⟩ := exists_tiles text.toList
  have hmade (h : Tiles text.toList items []) : text.toList = items.flatMap Item.chars := by
    rw [← List.append_nil (items.flatMap Item.chars)]
    exact h.text_eq
  refine ⟨⟨?_, ?_⟩, fun tokens => ⟨fun h => ?_, ?_⟩, fun item symbol => Item.spelling_symbol?,
    fun e => ⟨fun h => ?_, ?_⟩, ⟨(items, rest), ⟨htiles, hrest⟩, ?_⟩, ?_⟩
  · rintro ⟨tokens, h⟩
    rcases hrest with rfl | hbarren
    · exact ⟨items, hmade htiles⟩
    · obtain ⟨e, he⟩ := exists_complaint ((items.flatMap Item.chars).length + 1) hbarren.1
      rw [listing_of_barren htiles hbarren he] at h
      cases h
  · rintro ⟨items, htext⟩
    obtain ⟨row, hrow⟩ := exists_tiles_of_items items
    rw [← htext] at hrow
    exact ⟨_, listing_of_tiles hrow⟩
  · rcases hrest with rfl | hbarren
    · rw [listing_of_tiles htiles] at h
      exact ⟨items, htiles, (Except.ok.inj h).symm⟩
    · obtain ⟨e, he⟩ := exists_complaint ((items.flatMap Item.chars).length + 1) hbarren.1
      rw [listing_of_barren htiles hbarren he] at h
      cases h
  · rintro ⟨items, htiles, rfl⟩
    exact listing_of_tiles htiles
  · rcases hrest with rfl | hbarren
    · rw [listing_of_tiles htiles] at h
      cases h
    · obtain ⟨e, he⟩ := exists_complaint ((items.flatMap Item.chars).length + 1) hbarren.1
      rw [listing_of_barren htiles hbarren he] at h
      cases h
      exact ⟨items, rest, htiles, hbarren, he⟩
  · rintro ⟨items, rest, htiles, hbarren, he⟩
    exact listing_of_barren htiles hbarren he
  · rintro ⟨items', rest'⟩ ⟨h, hrest'⟩
    obtain ⟨rfl, rfl⟩ := h.unique hrest' htiles hrest
    rfl
  · obtain ⟨final, hfinal⟩ := CursorScan.outcome_listing htiles hrest [] (Nat.lt_succ_self _)
    rw [String.length_toList, ← Cursor.start_eq_between, List.length_nil, Nat.zero_add,
      Nat.add_comm 1] at hfinal
    have hlisting : listing text =
        (scanFrom .between 1 text.toList).map fun tokens =>
          tokens ++ [⟨.ending, text.length + 1⟩] := by
      rw [listing, scan_eq_scanFrom]
      rfl
    exact ⟨final, hlisting ▸ hfinal⟩

end Token

end Passage
