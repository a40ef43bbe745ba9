import Drydock.Dockerfile.ExecForm
import Drydock.Proofs.Text

/-! The grammar of lists of strings. An item is what stands between two quotes,
and a list is empty or has items with commas between them. The reader accepts
the texts of the grammar and no others, so a list that was written in quotes is
read back. -/
namespace Drydock.ExecForm

/-- What may stand between the quotes of an item, and the item it stands for. -/
inductive Encodes : Text → Text → Prop where
  | nil : Encodes [] []
  | plain {c : Char} {raw item : Text} (hQuote : c ≠ '"') (hBackslash : c ≠ '\\')
      (hItem : Encodes raw item) : Encodes (c :: raw) (c :: item)
  | escape (c : Char) {raw item : Text} (hItem : Encodes raw item) :
      Encodes ('\\' :: c :: raw) (unescape c ++ item)

/-- A closing bracket, with gaps before it and blanks after it. -/
inductive Closes : Text → Prop where
  | bracket {gap trail : Text} (hGap : ∀ c ∈ gap, isGap c = true)
      (hTrail : ∀ c ∈ trail, Text.isBlank c = true) : Closes (gap ++ ']' :: trail)

/-- One or more items with commas between them, up to the end of the list. -/
inductive Items : Text → List Text → Prop where
  | last {gap raw item rest : Text} (hGap : ∀ c ∈ gap, isGap c = true)
      (hItem : Encodes raw item) (hRest : Closes rest) :
      Items (gap ++ '"' :: (raw ++ '"' :: rest)) [item]
  | more {gap raw item gap' rest : Text} {items : List Text} (hGap : ∀ c ∈ gap, isGap c = true)
      (hItem : Encodes raw item) (hGap' : ∀ c ∈ gap', isGap c = true) (hRest : Items rest items) :
      Items (gap ++ '"' :: (raw ++ '"' :: (gap' ++ ',' :: rest))) (item :: items)

/-- The texts that are a list of strings, with the items of the list. -/
inductive IsList : Text → List Text → Prop where
  | empty {rest : Text} (hRest : Closes rest) : IsList ('[' :: rest) []
  | items {rest : Text} {items : List Text} (hRest : Items rest items) :
      IsList ('[' :: rest) items

theorem isGap_iff {c : Char} : isGap c = true ↔ c = ' ' ∨ c = '\t' := by
  simp [isGap]

/-- Gaps are passed over wherever a single one is. The three readers of the
grammar have this in common. -/
theorem append_of_skips {α : Type} {read : Text → α}
    (hSkip : ∀ c s, c = ' ' ∨ c = '\t' → read (c :: s) = read s) {gap : Text}
    (hGap : ∀ c ∈ gap, isGap c = true) (s : Text) : read (gap ++ s) = read s := by
  induction gap with
  | nil => rfl
  | cons c gap ih =>
      have hc := isGap_iff.mp (hGap c (by simp))
      rw [List.cons_append, hSkip c _ hc, ih fun d hd => hGap d (by simp [hd])]

theorem beforeItem?_append {gap : Text} (h : ∀ c ∈ gap, isGap c = true) (s : Text) :
    beforeItem? (gap ++ s) = beforeItem? s :=
  append_of_skips (by rintro c s (rfl | rfl) <;> rfl) h s

theorem afterItem?_append {gap : Text} (h : ∀ c ∈ gap, isGap c = true) (s : Text) :
    afterItem? (gap ++ s) = afterItem? s :=
  append_of_skips (by rintro c s (rfl | rfl) <;> rfl) h s

theorem opened?_append {gap : Text} (h : ∀ c ∈ gap, isGap c = true) (s : Text) :
    opened? (gap ++ s) = opened? s :=
  append_of_skips (by rintro c s (rfl | rfl) <;> rfl) h s

/-- After the closing bracket nothing but blanks may come, and these of any
kind, not only spaces and tabs. -/
theorem closed?_eq_some_iff {trail : Text} {items : List Text} :
    closed? trail = some items ↔ (∀ c ∈ trail, Text.isBlank c = true) ∧ items = [] := by
  rw [closed?, ← List.all_eq_true]
  by_cases hTrail : trail.all Text.isBlank = true
  · rw [if_pos hTrail, Option.some.injEq, and_iff_right hTrail]
    exact eq_comm
  · rw [if_neg hTrail]
    simp [hTrail]

/-- An item is read up to the quote that ends it, with its escapes replaced, and
what follows is read as the rest of the list. -/
theorem Encodes.inItem?_append {raw item : Text} (h : Encodes raw item) (rest : Text) :
    inItem? (raw ++ '"' :: rest) = (afterItem? rest).map (fun items => (item, items)) := by
  induction h with
  | nil => rfl
  | plain hQuote hBackslash _ ih =>
      rw [List.cons_append, inItem?, ih, Option.map_map]
      · rfl
      · exact hQuote
      · intro d s hc
        exact absurd hc hBackslash
  | escape c _ ih =>
      rw [List.cons_append, List.cons_append, inItem?, ih, Option.map_map]
      rfl

theorem Closes.afterItem?_eq {rest : Text} (h : Closes rest) : afterItem? rest = some [] := by
  obtain ⟨hGap, hTrail⟩ := h
  rw [afterItem?_append hGap, afterItem?]
  exact closed?_eq_some_iff.mpr ⟨hTrail, rfl⟩

/-- Items of the grammar are read after a comma. The induction is over the
derivation, item by item. -/
theorem Items.beforeItem?_eq {s : Text} {items : List Text} (h : Items s items) :
    beforeItem? s = some items := by
  induction h with
  | last hGap hItem hRest =>
      rw [beforeItem?_append hGap, beforeItem?, hItem.inItem?_append, hRest.afterItem?_eq]
      rfl
  | more hGap hItem hGap' _ ih =>
      rw [beforeItem?_append hGap, beforeItem?, hItem.inItem?_append, afterItem?_append hGap',
        afterItem?, ih]
      rfl

/-- After the opening bracket the first item is read like any other. -/
theorem Items.opened?_eq {s : Text} {items : List Text} (h : Items s items) :
    opened? s = beforeItem? s := by
  cases h with
  | last hGap => rw [opened?_append hGap, beforeItem?_append hGap]; rfl
  | more hGap => rw [opened?_append hGap, beforeItem?_append hGap]; rfl

/-- A text of the grammar is read as the items that the grammar gives it. -/
theorem IsList.items?_eq {s : Text} {items : List Text} (h : IsList s items) :
    items? s = some items := by
  cases h with
  | empty hRest =>
      obtain ⟨hGap, hTrail⟩ := hRest
      rw [items?, opened?_append hGap, opened?]
      exact closed?_eq_some_iff.mpr ⟨hTrail, rfl⟩
  | items hRest => rw [items?, hRest.opened?_eq, hRest.beforeItem?_eq]

/-- What may follow an item: the end of the list, or a comma and further
items. -/
inductive Follows : Text → List Text → Prop where
  | close {rest : Text} (hRest : Closes rest) : Follows rest []
  | comma {gap rest : Text} {items : List Text} (hGap : ∀ c ∈ gap, isGap c = true)
      (hRest : Items rest items) : Follows (gap ++ ',' :: rest) items

/-- The grammar allows one gap more in front, which is what each step of the
reader passes over. -/
theorem Closes.cons {c : Char} {rest : Text} (hc : isGap c = true) (h : Closes rest) :
    Closes (c :: rest) := by
  obtain ⟨hGap, hTrail⟩ := h
  exact .bracket (List.forall_mem_cons.mpr ⟨hc, hGap⟩) hTrail

theorem Items.cons {c : Char} {s : Text} {items : List Text} (hc : isGap c = true)
    (h : Items s items) : Items (c :: s) items := by
  cases h with
  | last hGap hItem hRest => exact .last (List.forall_mem_cons.mpr ⟨hc, hGap⟩) hItem hRest
  | more hGap hItem hGap' hRest =>
      exact .more (List.forall_mem_cons.mpr ⟨hc, hGap⟩) hItem hGap' hRest

theorem Follows.cons {c : Char} {s : Text} {items : List Text} (hc : isGap c = true)
    (h : Follows s items) : Follows (c :: s) items := by
  cases h with
  | close hRest => exact .close (hRest.cons hc)
  | comma hGap hRest => exact .comma (List.forall_mem_cons.mpr ⟨hc, hGap⟩) hRest

theorem Follows.items {raw item rest : Text} {items : List Text} (hItem : Encodes raw item)
    (h : Follows rest items) : Items ('"' :: (raw ++ '"' :: rest)) (item :: items) := by
  have hNone : ∀ c ∈ ([] : Text), isGap c = true := by simp
  cases h with
  | close hRest => exact .last hNone hItem hRest
  | comma hGap hRest => exact .more hNone hItem hGap hRest

mutual

/-- Whatever is read as an item and what follows it is of the grammar: the item
ends at a quote, and the rest is read after this quote. -/
theorem exists_encodes_of_inItem? : ∀ {s item : Text} {items : List Text},
    inItem? s = some (item, items) →
      ∃ raw rest, s = raw ++ '"' :: rest ∧ Encodes raw item ∧ Follows rest items
  | [], _, _, h => by simp [inItem?] at h
  | c :: cs, item, items, h => by
      by_cases hQuote : c = '"'
      · subst c
        rw [inItem?, Option.map_eq_some_iff] at h
        obtain ⟨items', hRest, hEq⟩ := h
        obtain ⟨rfl, rfl⟩ := Prod.mk.inj hEq
        exact ⟨[], cs, rfl, .nil, follows_of_afterItem? hRest⟩
      · by_cases hBackslash : c = '\\'
        · subst c
          cases cs with
          | nil => simp [inItem?] at h
          | cons d cs =>
              rw [inItem?, Option.map_eq_some_iff] at h
              obtain ⟨⟨item', items'⟩, hRest, hEq⟩ := h
              obtain ⟨rfl, rfl⟩ := Prod.mk.inj hEq
              obtain ⟨raw, rest, rfl, hItem, hFollows⟩ := exists_encodes_of_inItem? hRest
              exact ⟨'\\' :: d :: raw, rest, rfl, .escape d hItem, hFollows⟩
        · rw [inItem?, Option.map_eq_some_iff] at h
          · obtain ⟨⟨item', items'⟩, hRest, hEq⟩ := h
            obtain ⟨rfl, rfl⟩ := Prod.mk.inj hEq
            obtain ⟨raw, rest, rfl, hItem, hFollows⟩ := exists_encodes_of_inItem? hRest
            exact ⟨c :: raw, rest, rfl, .plain hQuote hBackslash hItem, hFollows⟩
          · exact hQuote
          · intro d s hc
            exact absurd hc hBackslash

/-- What the reader accepts after an item is a comma with more items or the end
of the list. This and `items_of_beforeItem?` recurse on each other as the
readers do. -/
theorem follows_of_afterItem? : ∀ {s : Text} {items : List Text},
    afterItem? s = some items → Follows s items
  | [], _, h => by simp [afterItem?] at h
  | c :: cs, items, h => by
      have hNone : ∀ c ∈ ([] : Text), isGap c = true := by simp
      by_cases hComma : c = ','
      · subst c
        exact .comma hNone (items_of_beforeItem? h)
      · by_cases hBracket : c = ']'
        · subst c
          obtain ⟨hTrail, rfl⟩ := closed?_eq_some_iff.mp h
          exact .close (.bracket hNone hTrail)
        · rw [afterItem?] at h
          · by_cases hGap : isGap c = true
            · rw [if_pos hGap] at h
              exact (follows_of_afterItem? h).cons hGap
            · simp [hGap] at h
          · exact hComma
          · exact hBracket

/-- What the reader accepts before an item is one or more items of the
grammar. -/
theorem items_of_beforeItem? : ∀ {s : Text} {items : List Text},
    beforeItem? s = some items → Items s items
  | [], _, h => by simp [beforeItem?] at h
  | c :: cs, items, h => by
      by_cases hQuote : c = '"'
      · subst c
        rw [beforeItem?, Option.map_eq_some_iff] at h
        obtain ⟨⟨item, items'⟩, hRest, rfl⟩ := h
        obtain ⟨raw, rest, rfl, hItem, hFollows⟩ := exists_encodes_of_inItem? hRest
        exact hFollows.items hItem
      · rw [beforeItem?] at h
        · by_cases hGap : isGap c = true
          · rw [if_pos hGap] at h
            exact (items_of_beforeItem? h).cons hGap
          · simp [hGap] at h
        · exact hQuote

end

theorem IsList.cons {c : Char} {s : Text} {items : List Text} (hc : isGap c = true)
    (h : IsList ('[' :: s) items) : IsList ('[' :: c :: s) items := by
  cases h with
  | empty hRest => exact .empty (hRest.cons hc)
  | items hRest => exact .items (hRest.cons hc)

/-- What the reader accepts after the opening bracket makes a list of the
grammar, which may be empty. -/
theorem isList_of_opened? {s : Text} {items : List Text} (h : opened? s = some items) :
    IsList ('[' :: s) items := by
  induction s with
  | nil => simp [opened?] at h
  | cons c cs ih =>
      by_cases hBracket : c = ']'
      · subst c
        obtain ⟨hTrail, rfl⟩ := closed?_eq_some_iff.mp h
        have hNone : ∀ c ∈ ([] : Text), isGap c = true := by simp
        exact .empty (.bracket hNone hTrail)
      · by_cases hQuote : c = '"'
        · subst c
          exact .items (items_of_beforeItem? h)
        · rw [opened?] at h
          · by_cases hGap : isGap c = true
            · rw [if_pos hGap] at h
              exact (ih h).cons hGap
            · simp [hGap] at h
          · exact hBracket
          · exact hQuote

/-- The reader finds the items of a list of strings, and finds none in any other
text. The grammar is given without the reader, by what may stand where. -/
theorem items?_eq_some_iff {s : Text} {items : List Text} :
    items? s = some items ↔ IsList s items := by
  constructor
  · intro h
    unfold items? at h
    split at h
    · exact isList_of_opened? h
    · simp at h
  · exact IsList.items?_eq

def escape : Char → Text
  | '\n' => ['\\', 'n']
  | '\t' => ['\\', 't']
  | '\r' => ['\\', 'r']
  | '\\' => ['\\', '\\']
  | '"' => ['\\', '"']
  | c => [c]

def quoted (item : Text) : Text :=
  '"' :: (item.flatMap escape ++ ['"'])

/-- A list of strings as it is written, with commas only between its items. -/
def written (items : List Text) : Text :=
  '[' :: (Text.join [','] (items.map quoted) ++ [']'])

theorem Encodes.escape_append (c : Char) {raw item : Text} (h : Encodes raw item) :
    Encodes (ExecForm.escape c ++ raw) (c :: item) := by
  unfold ExecForm.escape
  split
  · exact .escape 'n' h
  · exact .escape 't' h
  · exact .escape 'r' h
  · exact .escape '\\' h
  · exact .escape '"' h
  · exact .plain (by assumption) (by assumption) h

/-- An item with its special characters escaped stands for itself. -/
theorem encodes_flatMap_escape (item : Text) : Encodes (item.flatMap escape) item := by
  induction item with
  | nil => exact .nil
  | cons c item ih => exact ih.escape_append c

/-- The items of a written list are those it was made from, with commas between
them and no gaps. -/
theorem items_join {items : List Text} (hNe : items ≠ []) :
    Items (Text.join [','] (items.map quoted) ++ [']']) items := by
  have hNone : ∀ c ∈ ([] : Text), isGap c = true := by simp
  induction items with
  | nil => exact absurd rfl hNe
  | cons item rest ih =>
      have hItem := encodes_flatMap_escape item
      cases rest with
      | nil =>
          have hLast : Items ('"' :: (item.flatMap escape ++ '"' :: [']'])) [item] :=
            .last hNone hItem (.bracket hNone (by simp))
          simpa [Text.join, quoted] using hLast
      | cons next rest =>
          have hMore := Items.more hNone hItem hNone (ih (by simp))
          simpa [Text.join, quoted] using hMore

/-- Any texts at all can be written as a list of strings, line feeds and quotes
among them. -/
theorem isList_written (items : List Text) : IsList (written items) items := by
  cases items with
  | nil =>
      have hClosed : Closes [']'] := Closes.bracket (List.forall_mem_nil _) (by simp)
      exact .empty hClosed
  | cons item rest => exact .items (items_join (by simp))

theorem not_mem_escape (c : Char) : '\n' ∉ escape c := by
  intro hMem
  unfold escape at hMem
  split at hMem
  case h_6 hFeed _ _ _ _ => exact hFeed (List.mem_singleton.mp hMem).symm
  all_goals exact absurd hMem (by decide)

/-- A written list stays on one line, since a line feed is written as an
escape. -/
theorem not_mem_written (items : List Text) : '\n' ∉ written items := by
  have hQuoted : ∀ s ∈ items.map quoted, '\n' ∉ s := by
    intro s hs
    obtain ⟨item, -, rfl⟩ := List.mem_map.mp hs
    simp [quoted, not_mem_escape]
  have hComma : '\n' ∉ [','] := by decide
  have hJoin := Text.not_mem_join hComma hQuoted
  simpa [written] using hJoin

/-- A written list begins and ends with a bracket, so trimming keeps it as it
is. -/
theorem trim_written (items : List Text) : Text.trim (written items) = written items := by
  apply Text.trim_eq_self
  · rfl
  · simp [written, List.getLast?_cons, Text.isBlank]

end Drydock.ExecForm
