import Drydock.Dockerfile.Parse
import Drydock.Proofs.ExecForm

/-! Lists of strings as syntax trees. A tree has a text and items, and each says
how it comes from the parts of the tree. A command is read as a list exactly
when it is the text of a tree, and then the items of the tree are its words,
whichever tree it is. Every other command is kept as text. -/
namespace Drydock

namespace ExecForm

/-- A piece of what stands between quotes: a character by itself, or one after a
backslash. -/
inductive Piece where
  | plain (c : Char) (hQuote : c ≠ '"') (hBackslash : c ≠ '\\')
  | escape (c : Char)

namespace Piece

def text : Piece → Text
  | .plain c _ _ => [c]
  | .escape c => ['\\', c]

/-- What a piece stands for. A backslash before any other character than these
is kept. -/
def meaning : Piece → Text
  | .plain c _ _ => [c]
  | .escape c =>
    if c = 'n' then ['\n']
    else if c = 't' then ['\t']
    else if c = 'r' then ['\r']
    else if c = '\\' ∨ c = '"' then [c]
    else ['\\', c]

/-- An escape in a tree means what the reader makes of it. -/
theorem meaning_escape (c : Char) : (escape c).meaning = unescape c := by
  fun_cases unescape c with
  | case1 => rfl
  | case2 => rfl
  | case3 => rfl
  | case4 => rfl
  | case5 => rfl
  | case6 _ hFeed hTab hReturn hBackslash hQuote =>
      have hOther : ¬ (c = '\\' ∨ c = '"') := not_or.mpr ⟨hBackslash, hQuote⟩
      rw [meaning, if_neg hFeed, if_neg hTab, if_neg hReturn, if_neg hOther]

end Piece

/-- The pieces between two quotes stand for what they mean, one after the
other. -/
theorem encodes_pieces (pieces : List Piece) :
    Encodes (pieces.flatMap Piece.text) (pieces.flatMap Piece.meaning) := by
  induction pieces with
  | nil => exact .nil
  | cons piece pieces ih =>
      cases piece with
      | plain c hQuote hBackslash => exact .plain hQuote hBackslash ih
      | escape c =>
          rw [List.flatMap_cons, List.flatMap_cons, Piece.meaning_escape]
          exact .escape c ih

/-- What may stand between two quotes is made of plain characters and
escapes. -/
theorem Encodes.exists_pieces {raw item : Text} (h : Encodes raw item) :
    ∃ pieces : List Piece, pieces.flatMap Piece.text = raw ∧
      pieces.flatMap Piece.meaning = item := by
  induction h with
  | nil => exact ⟨[], rfl, rfl⟩
  | @plain c raw item hQuote hBackslash _ ih =>
      obtain ⟨pieces, rfl, rfl⟩ := ih
      exact ⟨.plain c hQuote hBackslash :: pieces, rfl, rfl⟩
  | @escape c raw item _ ih =>
      obtain ⟨pieces, rfl, rfl⟩ := ih
      refine ⟨.escape c :: pieces, rfl, ?_⟩
      rw [List.flatMap_cons, Piece.meaning_escape]

/-- An item in its quotes, with the spaces and tabs around it. -/
structure Element where
  before : Text
  pieces : List Piece
  after : Text
  isGap_before : ∀ c ∈ before, c = ' ' ∨ c = '\t'
  isGap_after : ∀ c ∈ after, c = ' ' ∨ c = '\t'

namespace Element

def text (e : Element) : Text :=
  e.before ++ '"' :: (e.pieces.flatMap Piece.text ++ '"' :: e.after)

def meaning (e : Element) : Text :=
  e.pieces.flatMap Piece.meaning

end Element

/-- A list of strings as it is written. Blanks of any kind may follow the
closing bracket. -/
inductive Listing where
  | empty (gap trail : Text) (hGap : ∀ c ∈ gap, c = ' ' ∨ c = '\t')
      (hTrail : ∀ c ∈ trail, Text.isBlank c = true)
  | elements (first : Element) (more : List Element) (trail : Text)
      (hTrail : ∀ c ∈ trail, Text.isBlank c = true)

namespace Listing

/-- Commas stand between elements and nowhere else. -/
def text : Listing → Text
  | .empty gap trail _ _ => '[' :: (gap ++ ']' :: trail)
  | .elements first more trail _ =>
    '[' :: (Text.join [','] ((first :: more).map Element.text) ++ ']' :: trail)

def items : Listing → List Text
  | .empty _ _ _ _ => []
  | .elements first more _ _ => (first :: more).map Element.meaning

end Listing

/-- Elements with commas between them are items of the grammar, with the
meanings of the elements. -/
theorem items_elements (first : Element) (more : List Element) {trail : Text}
    (hTrail : ∀ c ∈ trail, Text.isBlank c = true) :
    Items (Text.join [','] ((first :: more).map Element.text) ++ ']' :: trail)
      ((first :: more).map Element.meaning) := by
  have hBefore : ∀ e : Element, ∀ c ∈ e.before, isGap c = true :=
    fun e c hc => isGap_iff.mpr (e.isGap_before c hc)
  have hAfter : ∀ e : Element, ∀ c ∈ e.after, isGap c = true :=
    fun e c hc => isGap_iff.mpr (e.isGap_after c hc)
  induction more generalizing first with
  | nil =>
      have hLast := Items.last (hBefore first) (encodes_pieces first.pieces)
        (.bracket (hAfter first) hTrail)
      simpa [Text.join, Element.text, Element.meaning] using hLast
  | cons second more ih =>
      have hMore := Items.more (hBefore first) (encodes_pieces first.pieces) (hAfter first)
        (ih second)
      simpa [Text.join, Element.text, Element.meaning] using hMore

/-- The text of a tree is a list of its items. The grammar allows blanks of any
kind behind the bracket and only spaces and tabs before it, and so do the
trees. -/
theorem Listing.isList_text (l : Listing) : IsList l.text l.items := by
  cases l with
  | empty gap trail hGap hTrail =>
      exact .empty (.bracket (fun c hc => isGap_iff.mpr (hGap c hc)) hTrail)
  | elements first more trail hTrail => exact .items (items_elements first more hTrail)

/-- Items of the grammar come from elements, of which there is at least one. -/
theorem Items.exists_elements {s : Text} {items : List Text} (h : Items s items) :
    ∃ (first : Element) (more : List Element) (trail : Text),
      (∀ c ∈ trail, Text.isBlank c = true) ∧
      Text.join [','] ((first :: more).map Element.text) ++ ']' :: trail = s ∧
      (first :: more).map Element.meaning = items := by
  induction h with
  | @last gap raw item rest hGap hItem hRest =>
      obtain ⟨pieces, rfl, rfl⟩ := hItem.exists_pieces
      obtain @⟨after, trail, hAfter, hTrail⟩ := hRest
      refine ⟨⟨gap, pieces, after, fun c hc => isGap_iff.mp (hGap c hc),
        fun c hc => isGap_iff.mp (hAfter c hc)⟩, [], trail, hTrail, ?_, rfl⟩
      simp [Text.join, Element.text]
  | @more gap raw item after rest items hGap hItem hAfter _ ih =>
      obtain ⟨pieces, rfl, rfl⟩ := hItem.exists_pieces
      obtain ⟨second, more, trail, hTrail, rfl, rfl⟩ := ih
      refine ⟨⟨gap, pieces, after, fun c hc => isGap_iff.mp (hGap c hc),
        fun c hc => isGap_iff.mp (hAfter c hc)⟩, second :: more, trail, hTrail, ?_, rfl⟩
      simp [Text.join, Element.text]

/-- Every list of strings is the text of a tree, with the same items. -/
theorem IsList.exists_listing {s : Text} {items : List Text} (h : IsList s items) :
    ∃ l : Listing, l.text = s ∧ l.items = items := by
  cases h with
  | empty hRest =>
      obtain @⟨gap, trail, hGap, hTrail⟩ := hRest
      exact ⟨.empty gap trail (fun c hc => isGap_iff.mp (hGap c hc)) hTrail, rfl, rfl⟩
  | items hRest =>
      obtain ⟨first, more, trail, hTrail, rfl, rfl⟩ := hRest.exists_elements
      exact ⟨.elements first more trail hTrail, rfl, rfl⟩

/-- The reader accepts the texts of trees and no others. Two trees with one text
have the same items, since the reader gives only one answer. -/
theorem items?_eq_some_iff_listing {s : Text} {items : List Text} :
    items? s = some items ↔ ∃ l : Listing, l.text = s ∧ l.items = items := by
  rw [items?_eq_some_iff]
  constructor
  · exact IsList.exists_listing
  · rintro ⟨l, rfl, rfl⟩
    exact l.isList_text

end ExecForm

/-- A command is read as a list where it is the text of one, with the items that
this text alone determines. Otherwise it is kept as it is, without the blanks at
its ends. -/
theorem Arguments.ofCommand_eq_list_iff_listing (s : Text) :
    (∀ items, ofCommand s = .list items ↔
      ∃ l : ExecForm.Listing, l.text = s ∧ l.items = items) ∧
    (∀ l m : ExecForm.Listing, l.text = m.text → l.items = m.items) ∧
    (ofCommand s = .text (Text.trim s) ↔ ¬ ∃ l : ExecForm.Listing, l.text = s) := by
  have hRead : ∀ l : ExecForm.Listing, ExecForm.items? l.text = some l.items :=
    fun l => ExecForm.items?_eq_some_iff_listing.mpr ⟨l, rfl, rfl⟩
  refine ⟨?_, ?_, ?_⟩
  · intro items
    rw [← ExecForm.items?_eq_some_iff_listing, ofCommand]
    cases ExecForm.items? s with
    | none => simp
    | some found => simp
  · intro l m hText
    have hItems := hRead l
    rw [hText, hRead m] at hItems
    exact (Option.some.inj hItems).symm
  · rw [ofCommand]
    cases hItems : ExecForm.items? s with
    | none =>
        refine iff_of_true rfl ?_
        rintro ⟨l, rfl⟩
        simp [hRead l] at hItems
    | some found =>
        obtain ⟨l, hText, -⟩ := ExecForm.items?_eq_some_iff_listing.mp hItems
        exact iff_of_false (by simp) (not_not_intro ⟨l, hText⟩)

/-- Two items, of which the first has escapes of three kinds, with gaps around
the comma and a no-break space at the end. -/
def ExecForm.spacedListing : ExecForm.Listing :=
  .elements
    ⟨['\t'], [.escape 'n', .plain ',' (by decide) (by decide), .escape '"', .escape 'q'], [' '],
      by simp, by simp⟩
    [⟨[], [], [], by simp, by simp⟩] ['\u00A0'] (by simp [Text.isBlank])

/-- A list with gaps, escapes and a no-break space at its end is read, and one
with a comma too many is kept as text. -/
theorem Arguments.ofCommand_spacedListing :
    ExecForm.spacedListing.text = "[\t\"\\n,\\\"\\q\" ,\"\"]\u00A0".toList ∧
    ofCommand "[\t\"\\n,\\\"\\q\" ,\"\"]\u00A0".toList = .list ["\n,\"\\q".toList, []] ∧
    ofCommand "[\"a\",] ".toList = .text "[\"a\",]".toList ∧
    ¬ ∃ l : ExecForm.Listing, l.text = "[\"a\",] ".toList := by
  have hText : ExecForm.spacedListing.text = "[\t\"\\n,\\\"\\q\" ,\"\"]\u00A0".toList := rfl
  have hComma : ofCommand "[\"a\",] ".toList = .text "[\"a\",]".toList := by decide
  exact ⟨hText, ((ofCommand_eq_list_iff_listing _).1 _).mpr ⟨_, hText, rfl⟩, hComma,
    (ofCommand_eq_list_iff_listing _).2.2.mp hComma⟩

end Drydock
