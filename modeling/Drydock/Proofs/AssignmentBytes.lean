import Mathlib
import Drydock.Proofs.AssignmentLayout

/-! Assignments read at byte positions. A text in UTF-8 can be cut only between
its characters. A reader that finds the end of a key or a value as a number of
bytes and cuts there never meets another place, has less to read with every
turn, and reads the same assignments. Together they and the gaps between them
are the whole text. -/
namespace Drydock

namespace Text

open String (utf8Len)

/-- Cut a text at a byte position. There is nothing to cut behind the end or
inside a character. -/
def cutAt? : Nat → Text → Option (Text × Text)
  | 0, s => some ([], s)
  | _ + 1, [] => none
  | n + 1, c :: cs =>
    if c.utf8Size ≤ n + 1 then
      (cutAt? (n + 1 - c.utf8Size) cs).map fun cut => (c :: cut.1, cut.2)
    else none

/-- A text can be cut at the byte position behind any of its characters. -/
theorem cutAt?_append (front back : Text) :
    cutAt? (utf8Len front) (front ++ back) = some (front, back) := by
  induction front with
  | nil => simp [cutAt?]
  | cons c front ih =>
      have hPos := c.utf8Size_pos
      obtain ⟨n, hn⟩ : ∃ n, utf8Len (c :: front) = n + 1 :=
        Nat.exists_eq_add_one_of_ne_zero (by rw [String.utf8Len_cons]; omega)
      have hRest : n + 1 - c.utf8Size = utf8Len front := by
        rw [← hn, String.utf8Len_cons, Nat.add_sub_cancel]
      have hFits : c.utf8Size ≤ n + 1 := by
        rw [← hn, String.utf8Len_cons]
        omega
      rw [hn, List.cons_append, cutAt?, if_pos hFits, hRest, ih]
      rfl

/-- A place to cut is the end of some characters from the start on. So a cut is
never made inside a character or behind the end. -/
theorem append_of_cutAt? {n : Nat} {s front back : Text} (h : cutAt? n s = some (front, back)) :
    s = front ++ back ∧ utf8Len front = n := by
  induction s generalizing n front with
  | nil =>
      cases n with
      | zero =>
          obtain ⟨rfl, rfl⟩ := Prod.mk.inj (Option.some.inj h)
          exact ⟨rfl, rfl⟩
      | succ n => simp [cutAt?] at h
  | cons c cs ih =>
      cases n with
      | zero =>
          obtain ⟨rfl, rfl⟩ := Prod.mk.inj (Option.some.inj h)
          exact ⟨rfl, rfl⟩
      | succ n =>
          rw [cutAt?] at h
          split at h
          · rename_i hFits
            obtain ⟨⟨rest, after⟩, hCut, hPair⟩ := Option.map_eq_some_iff.mp h
            obtain ⟨rfl, rfl⟩ := Prod.mk.inj hPair
            obtain ⟨rfl, hSize⟩ := ih hCut
            refine ⟨rfl, ?_⟩
            rw [String.utf8Len_cons, hSize]
            omega
          · simp at h

/-- The byte position of the first character with a property, or the size of the
text. -/
def positionOf (p : Char → Bool) : Text → Nat
  | [] => 0
  | c :: cs => if p c then 0 else c.utf8Size + positionOf p cs

/-- The first character with a property is found at the byte position behind
those that lack it. -/
theorem positionOf_append {p : Char → Bool} {front back : Text} (hFront : ∀ c ∈ front, p c = false)
    (hBack : back.head?.all p = true) : positionOf p (front ++ back) = utf8Len front := by
  induction front with
  | nil =>
      cases back with
      | nil => rfl
      | cons c back =>
          have hc : p c = true := by simpa using hBack
          simp [positionOf, hc]
  | cons c front ih =>
      obtain ⟨hc, hRest⟩ := List.forall_mem_cons.mp hFront
      rw [List.cons_append, positionOf, if_neg (by simp [hc]), ih hRest, String.utf8Len_cons,
        Nat.add_comm]

def sliceAt? (first last : Nat) (s : Text) : Option Text :=
  (cutAt? last s).bind fun cut => (cutAt? first cut.1).map Prod.snd

theorem sliceAt?_append (before part after : Text) :
    sliceAt? (utf8Len before) (utf8Len (before ++ part)) (before ++ part ++ after) = some part := by
  rw [sliceAt?, cutAt?_append, Option.bind_some, cutAt?_append, Option.map_some]

/-- What follows a byte position, or nothing where there is no cut. -/
def restAt (n : Nat) (s : Text) : Text :=
  ((cutAt? n s).map Prod.snd).getD []

theorem restAt_append (front back : Text) : restAt (utf8Len front) (front ++ back) = back := by
  rw [restAt, cutAt?_append, Option.map_some, Option.getD_some]

/-- Behind the end there is nothing, which is how a missing closing quote is
met. -/
theorem restAt_of_lt {n : Nat} {s : Text} (h : utf8Len s < n) : restAt n s = [] := by
  rw [restAt]
  cases hCut : cutAt? n s with
  | none => rfl
  | some cut =>
      obtain ⟨rfl, hSize⟩ := append_of_cutAt? hCut
      rw [String.utf8Len_append] at h
      omega

theorem length_restAt_le (n : Nat) (s : Text) : (restAt n s).length ≤ s.length := by
  rw [restAt]
  cases hCut : cutAt? n s with
  | none => simp
  | some cut =>
      obtain ⟨rfl, -⟩ := append_of_cutAt? hCut
      simp

theorem length_trimStart_le (s : Text) : (trimStart s).length ≤ s.length :=
  (List.dropWhile_suffix isBlank).length_le

/-- What ends a text without trailing blanks has none either. -/
theorem trimEnd_of_append {front back : Text} (h : trimEnd (front ++ back) = front ++ back) :
    trimEnd back = back := by
  apply trimEnd_eq_self
  rw [Option.all_eq_true]
  intro c hc
  have hLast : (trimEnd (front ++ back)).getLast? = some c := by
    rw [h, List.getLast?_append, hc]
    rfl
  simp [isBlank_of_getLast?_trimEnd hLast]

end Text

namespace Assignments

open String (utf8Len)
open Text (cutAt? positionOf sliceAt? restAt)

/-- The byte position of the quote that closes a value, or the size of the text.
`position` is where the text begins, and `escaped` tells whether a backslash
stands before it. -/
def closingFrom (position : Nat) (escaped : Bool) : Text → Nat
  | [] => position
  | c :: cs =>
    if escaped then closingFrom (position + c.utf8Size) false cs
    else if c = '\\' then closingFrom (position + c.utf8Size) true cs
    else if c = '"' then position
    else closingFrom (position + c.utf8Size) false cs

def closingQuote : Text → Nat
  | [] => 0
  | c :: cs => closingFrom c.utf8Size false cs

/-- The value after an equals sign and what follows it. -/
def valueAt? (s : Text) : Option (Text × Text) :=
  if s.head? = some '"' then
    (sliceAt? 1 (closingQuote s) s).map fun value => (value, restAt (closingQuote s + 1) s)
  else cutAt? (positionOf Text.isBlank s) s

/-- The value after a key and what the next turn begins with. -/
def afterKey? (s : Text) : Option (Text × Text) :=
  match s with
  | '=' :: rest => (valueAt? rest).map fun found => (found.1, Text.trimStart found.2)
  | _ => some (looseValue s, [])

/-- One turn: an assignment, unless an equals sign without a key is passed over,
and what the next turn begins with. -/
def turn? (s : Text) : Option (Option (Text × Text) × Text) :=
  if positionOf (!isKeyChar ·) s = 0 then
    (cutAt? 1 s).map fun cut => (none, Text.trimStart cut.2)
  else
    (cutAt? (positionOf (!isKeyChar ·) s) s).bind fun cut =>
      (afterKey? cut.2).map fun found => (some (cut.1, found.1), found.2)

section Shortening

variable {s value rest : Text}

theorem length_of_valueAt? (h : valueAt? s = some (value, rest)) : rest.length ≤ s.length := by
  rw [valueAt?] at h
  split at h
  · obtain ⟨_, -, hPair⟩ := Option.map_eq_some_iff.mp h
    obtain ⟨-, rfl⟩ := Prod.mk.inj hPair
    exact Text.length_restAt_le _ s
  · obtain ⟨rfl, -⟩ := Text.append_of_cutAt? h
    simp

/-- What is left after a value is not longer than what was there before it. -/
theorem length_of_afterKey? (h : afterKey? s = some (value, rest)) : rest.length ≤ s.length := by
  rw [afterKey?.eq_def] at h
  split at h
  · obtain ⟨found, hValue, hPair⟩ := Option.map_eq_some_iff.mp h
    obtain ⟨-, rfl⟩ := Prod.mk.inj hPair
    have hTrim := Text.length_trimStart_le found.2
    have hRest := length_of_valueAt? hValue
    rw [List.length_cons]
    omega
  · obtain ⟨-, rfl⟩ := Prod.mk.inj (Option.some.inj h)
    simp

/-- Every turn leaves less to read, so the reader comes to an end. -/
theorem length_of_turn? {pair? : Option (Text × Text)} (h : turn? s = some (pair?, rest)) :
    rest.length < s.length := by
  rw [turn?] at h
  split at h
  · obtain ⟨⟨front, back⟩, hCut, hPair⟩ := Option.map_eq_some_iff.mp h
    obtain ⟨-, rfl⟩ := Prod.mk.inj hPair
    obtain ⟨rfl, hSize⟩ := Text.append_of_cutAt? hCut
    have hFront : 0 < front.length := List.length_pos_of_ne_nil (by rintro rfl; simp at hSize)
    have hTrim := Text.length_trimStart_le back
    dsimp only
    rw [List.length_append]
    omega
  · rename_i hKey
    obtain ⟨⟨key, back⟩, hCut, hFound⟩ := Option.bind_eq_some_iff.mp h
    obtain ⟨found, hAfter, hPair⟩ := Option.map_eq_some_iff.mp hFound
    obtain ⟨-, rfl⟩ := Prod.mk.inj hPair
    obtain ⟨rfl, hSize⟩ := Text.append_of_cutAt? hCut
    have hFront : 0 < key.length :=
      List.length_pos_of_ne_nil (by rintro rfl; exact hKey hSize.symm)
    have hRest : found.2.length ≤ back.length := length_of_afterKey? hAfter
    rw [List.length_append]
    omega

end Shortening

/-- Read assignments turn by turn. -/
def readAt? (s : Text) : Option (List (Text × Text)) :=
  if s = [] then some []
  else
    match hTurn : turn? s with
    | none => none
    | some (pair?, rest) =>
      have := length_of_turn? hTurn
      (readAt? rest).map (pair?.toList ++ ·)
termination_by s.length

section Agreement

/-- The search for the closing quote goes through a quoted value without
stopping, escaped quotes included, and counts its bytes. -/
theorem IsBody.closingFrom_append {body : Text} (h : IsBody body) (position : Nat) (rest : Text) :
    closingFrom position false (body ++ rest) =
      closingFrom (position + utf8Len body) false rest := by
  induction h generalizing position with
  | nil => rfl
  | @plain c body hQuote hBackslash _ ih =>
      rw [List.cons_append, closingFrom, if_neg (by simp), if_neg hBackslash, if_neg hQuote, ih,
        String.utf8Len_cons, Nat.add_assoc, Nat.add_comm c.utf8Size]
  | @escape c body _ ih =>
      rw [List.cons_append, List.cons_append, closingFrom, if_neg (by simp), if_pos rfl,
        closingFrom, if_pos rfl, ih, String.utf8Len_cons, String.utf8Len_cons]
      congr 1
      omega

/-- In a value without a closing quote the search runs to the end of the
text. -/
theorem Form.closingFrom_unclosed {value : Text} (h : Form.unclosed.Fits value) (position : Nat) :
    closingFrom position false value = position + utf8Len value := by
  rcases h with hBody | ⟨body, hBody, rfl⟩
  · have hClose := hBody.closingFrom_append position []
    rwa [List.append_nil] at hClose
  · rw [hBody.closingFrom_append]
    simp [closingFrom, Nat.add_assoc]

/-- Without an equals sign after the key no position is looked for: the rest of
the line is its value. -/
theorem afterKey?_of_blank {s : Text} (h : s.head?.all Text.isBlank = true) :
    afterKey? s = some ((inKey s).2.1, []) := by
  cases s with
  | nil => rfl
  | cons c s =>
      have hc : Text.isBlank c = true := by simpa using h
      have hValue : looseValue (c :: s) = looseValue s := by
        rw [looseValue, looseValue, Text.trim, Text.trimStart_cons_of_blank hc, Text.trim]
      rw [inKey_blank hc, afterKey?, hValue]
      rintro rest hCons
      obtain ⟨rfl, -⟩ := List.cons.inj hCons
      exact absurd hc (by decide)

/-- A value in quotes is cut out without them. Behind an unclosed one nothing is
left. -/
theorem valueAt?_quote {value rest : Text}
    (hClose : closingQuote ('"' :: (value ++ rest)) = 1 + utf8Len value) :
    valueAt? ('"' :: (value ++ rest)) =
      some (value, restAt (1 + utf8Len value + 1) ('"' :: (value ++ rest))) := by
  have hSlice := Text.sliceAt?_append ['"'] value rest
  have hQuote : utf8Len ['"'] = 1 := by decide
  rw [String.utf8Len_append, hQuote] at hSlice
  rw [valueAt?, if_pos List.head?_cons, hClose]
  exact congrArg _ hSlice

/-- A key without an equals sign is followed by a blank or by nothing, so it
does not run into its value. -/
theorem head?_loose {gap value rest : Text} (hGap : ∀ c ∈ gap, Text.isBlank c = true)
    (hNil : gap = [] → value = []) (hRest : ∀ c ∈ rest, Text.isBlank c = true) :
    (gap ++ value ++ rest).head?.all Text.isBlank = true := by
  cases gap with
  | cons c gap => simpa using hGap c (by simp)
  | nil =>
      rw [hNil rfl, List.nil_append, List.nil_append, Option.all_eq_true]
      intro c hc
      exact hRest c (List.mem_of_mem_head? hc)

/-- A key ends where the writing of its value begins. -/
theorem Form.head?_tail {form : Form} {value rest : Text} (hFits : form.Fits value)
    (hNext : form.MayPrecede rest) :
    (form.tail value ++ rest).head?.all (!isKeyChar ·) = true := by
  have hLoose : ∀ s : Text, s.head?.all Text.isBlank = true →
      s.head?.all (!isKeyChar ·) = true := by
    intro s hBlank
    rw [Option.all_eq_true] at hBlank ⊢
    intro c hc
    simp [isKeyChar_of_isBlank (hBlank c hc)]
  cases form with
  | bare => simp [tail, isKeyChar]
  | quoted => simp [tail, isKeyChar]
  | unclosed => simp [tail, isKeyChar]
  | loose gap => exact hLoose _ (head?_loose hFits.1 hFits.2.1 hNext)
  | looseQuoted gap => exact hLoose _ (head?_loose hFits.2 (absurd · hFits.1) hNext)

/-- What follows a key is found at byte positions, the value as it is and the
rest without its leading blanks. The cases are those of `Form.inKey_tail`. -/
theorem Form.afterKey?_tail {form : Form} {value rest : Text} (hFits : form.Fits value)
    (hNext : form.MayPrecede rest) :
    afterKey? (form.tail value ++ rest) = some (value, Text.trimStart rest) := by
  have hQuoteSize : '"'.utf8Size = 1 := by decide
  have hRead := Form.inKey_tail hFits hNext
  cases form with
  | bare =>
      obtain ⟨hValue, hQuote⟩ := hFits
      rw [tail, List.cons_append, afterKey?, valueAt?, if_neg (head?_append_ne_quote hQuote hNext),
        Text.positionOf_append hValue hNext, Text.cutAt?_append, Option.map_some]
  | quoted =>
      have hBody : IsBody value := hFits
      have hClose : closingQuote ('"' :: (value ++ '"' :: rest)) = 1 + utf8Len value := by
        rw [closingQuote, hBody.closingFrom_append, closingFrom, if_neg (by simp),
          if_neg (by decide), if_pos rfl, hQuoteSize]
      have hRest : Text.restAt (1 + utf8Len value + 1) ('"' :: (value ++ '"' :: rest)) = rest := by
        have hAppend := Text.restAt_append ('"' :: (value ++ ['"'])) rest
        simpa [hQuoteSize, Nat.add_comm, Nat.add_assoc] using hAppend
      rw [tail, List.cons_append, List.cons_append, List.append_assoc, List.singleton_append,
        afterKey?, valueAt?_quote hClose, hRest, Option.map_some]
  | unclosed =>
      obtain rfl : rest = [] := hNext
      have hClose : closingQuote ('"' :: (value ++ [])) = 1 + utf8Len value := by
        rw [List.append_nil, closingQuote, Form.closingFrom_unclosed hFits, hQuoteSize]
      have hRest : Text.restAt (1 + utf8Len value + 1) ('"' :: (value ++ [])) = [] := by
        apply Text.restAt_of_lt
        rw [List.append_nil, String.utf8Len_cons, hQuoteSize]
        omega
      rw [tail, List.cons_append, List.cons_append, afterKey?, valueAt?_quote hClose, hRest,
        Option.map_some]
  | loose gap =>
      obtain ⟨hGap, hNil, -⟩ := hFits
      rw [tail] at hRead ⊢
      rw [afterKey?_of_blank (head?_loose hGap hNil hNext), hRead,
        Text.trimStart_eq_nil_iff.mpr hNext]
  | looseQuoted gap =>
      obtain ⟨hNe, hGap⟩ := hFits
      rw [tail] at hRead ⊢
      rw [afterKey?_of_blank (head?_loose hGap (absurd · hNe) hNext), hRead,
        Text.trimStart_eq_nil_iff.mpr hNext]

/-- A turn takes an assignment as it is written and leaves what follows it. -/
theorem Piece.turn?_append (p : Piece) {rest : Text} (hNext : p.form.MayPrecede rest) :
    turn? (p.text ++ rest) = some (some p.pair, Text.trimStart rest) := by
  have hKey : ∀ c ∈ p.key, (!isKeyChar c) = false := by
    intro c hc
    simp [p.isKeyChar_key c hc]
  have hEnd : positionOf (!isKeyChar ·) (p.text ++ rest) = utf8Len p.key := by
    rw [text, List.append_assoc]
    exact Text.positionOf_append hKey (Form.head?_tail p.fits hNext)
  have hPos : utf8Len p.key ≠ 0 := by simp [p.key_ne_nil]
  rw [turn?, hEnd, if_neg hPos, text, List.append_assoc, Text.cutAt?_append, Option.bind_some,
    Form.afterKey?_tail p.fits hNext, Option.map_some, pair]

theorem turn?_equals (s : Text) : turn? ('=' :: s) = some (none, Text.trimStart s) := by
  have hCut := Text.cutAt?_append ['='] s
  have hSize : utf8Len ['='] = 1 := by decide
  have hEnd : positionOf (!isKeyChar ·) ('=' :: s) = 0 := by simp [positionOf, isKeyChar]
  rw [hSize] at hCut
  rw [turn?, hEnd, if_pos rfl]
  exact congrArg _ hCut

/-- Reading is one turn after another, each with an assignment or without
one. -/
theorem readAt?_of_turn? {s rest : Text} {pair? : Option (Text × Text)}
    (h : turn? s = some (pair?, rest)) :
    readAt? s = (readAt? rest).map (pair?.toList ++ ·) := by
  have hNe : s ≠ [] := by
    rintro rfl
    exact absurd (length_of_turn? h) (by simp)
  rw [readAt?, if_neg hNe]
  split
  · rename_i hNone
    exact absurd (hNone.symm.trans h) (by simp)
  · rename_i hSome
    obtain ⟨rfl, rfl⟩ := Prod.mk.inj (Option.some.inj (hSome.symm.trans h))
    rfl

/-- Where a key begins there is an assignment, and it comes first. -/
theorem exists_piece_append {s : Text} (h : s.head?.any isKeyChar = true) :
    ∃ (p : Piece) (rest : Text), s = p.text ++ rest ∧ p.form.MayPrecede rest := by
  obtain ⟨pieces, hLayout⟩ := exists_layout s
  cases hLayout with
  | done hGap =>
      cases s with
      | nil => simp at h
      | cons c s => simp [hGap c (by simp)] at h
  | @piece gap rest p pieces hGap hNext _ =>
      cases gap with
      | nil => exact ⟨p, rest, rfl, hNext⟩
      | cons c gap => simp [hGap c (by simp)] at h

/-- The assignments read at byte positions are those read character by
character. In particular they are read at all: no cut fails. The text may not
begin with a blank, which every turn sees to for the next one. -/
theorem readAt?_eq {s : Text} (h : Text.trimStart s = s) : readAt? s = some (read s) := by
  induction hLength : s.length using Nat.strong_induction_on generalizing s with
  | _ n ih =>
      -- a turn and the turns after it, where nothing but blanks is passed over between them
      have hTurn : ∀ {pair? rest}, turn? s = some (pair?, Text.trimStart rest) →
          readAt? s = some (pair?.toList ++ read rest) := by
        intro pair? rest hTurn
        have hShorter : (Text.trimStart rest).length < n := by
          rw [← hLength]
          exact length_of_turn? hTurn
        rw [readAt?_of_turn? hTurn, ih _ hShorter (Text.trimStart_trimStart rest) rfl,
          read_trimStart, Option.map_some]
      cases s with
      | nil => rw [readAt?, if_pos rfl, read]
      | cons c cs =>
          by_cases hEquals : c = '='
          · subst hEquals
            rw [hTurn (turn?_equals cs), read, if_pos (by simp)]
            rfl
          · have hBlank : Text.isBlank c = false :=
              Text.isBlank_of_head?_trimStart (by rw [h]; rfl)
            have hKey : (c :: cs).head?.any isKeyChar = true := by
              simp [isKeyChar, hEquals, hBlank]
            obtain ⟨p, rest, hText, hNext⟩ := exists_piece_append hKey
            rw [hText] at hTurn ⊢
            rw [hTurn (p.turn?_append hNext), p.read_append hNext]
            rfl

end Agreement

section Gaps

/-- An assignment as it stands in a text, with the gap behind it. -/
structure Placed extends Piece where
  gap : Text
  isGap : ∀ c ∈ gap, isKeyChar c = false

def Placed.whole (e : Placed) : Text :=
  e.text ++ e.gap

def Form.leavesRoom : Form → Bool
  | .bare => true
  | .quoted => true
  | _ => false

/-- A form that leaves no room for another assignment is followed by blanks at
most, hence by nothing where the text does not end in blanks. -/
theorem Form.leavesRoom_or_eq_nil {form : Form} {rest : Text} (hNext : form.MayPrecede rest)
    (hTrim : Text.trimEnd rest = rest) : form.leavesRoom = true ∨ rest = [] := by
  have hBlank : (∀ c ∈ rest, Text.isBlank c = true) → rest = [] := by
    intro hRest
    rwa [Text.trimEnd_eq_nil_iff.mpr hRest, eq_comm] at hTrim
  cases form with
  | bare => exact .inl rfl
  | quoted => exact .inl rfl
  | unclosed => exact .inr hNext
  | loose gap => exact .inr (hBlank hNext)
  | looseQuoted gap => exact .inr (hBlank hNext)

theorem Placed.whole_ne_nil (e : Placed) : e.whole ≠ [] := by
  simp [whole, Piece.text, e.key_ne_nil]

/-- Where no blanks end the text, nothing follows a value that leaves no
room. -/
theorem Layout.exists_placed {s : Text} {pieces : List Piece} (h : Layout s pieces)
    (hTrim : Text.trimEnd s = s) :
    ∃ (gap : Text) (entries : List Placed),
      s = gap ++ entries.flatMap Placed.whole ∧ (∀ c ∈ gap, isKeyChar c = false) ∧
      entries.map Placed.toPiece = pieces ∧
      ∀ front e back, entries = front ++ e :: back →
        e.form.leavesRoom = true ∨ back = [] ∧ e.gap = [] := by
  induction h with
  | @done gap hGap => exact ⟨gap, [], by simp, hGap, rfl, by simp⟩
  | @piece gap rest p pieces hGap hNext _ ih =>
      have hRest : Text.trimEnd rest = rest := by
        rw [← List.append_assoc] at hTrim
        exact Text.trimEnd_of_append hTrim
      obtain ⟨after, entries, hText, hAfter, rfl, hLast⟩ := ih hRest
      refine ⟨gap, ⟨p, after, hAfter⟩ :: entries, ?_, hGap, rfl, ?_⟩
      · rw [List.flatMap_cons, Placed.whole, List.append_assoc, ← hText]
      · intro front e back hSplit
        cases front with
        | nil =>
            obtain ⟨rfl, rfl⟩ := List.cons.inj hSplit
            refine (Form.leavesRoom_or_eq_nil hNext hRest).imp_right fun hNil => ?_
            obtain ⟨hAfterNil, hNone⟩ := List.append_eq_nil_iff.mp (hText.symm.trans hNil)
            refine ⟨List.eq_nil_iff_forall_not_mem.mpr fun other hOther => ?_, hAfterNil⟩
            exact other.whole_ne_nil (List.flatMap_eq_nil_iff.mp hNone other hOther)
        | cons first front => exact hLast front e back (List.cons.inj hSplit).2

/-- Reading loses nothing. The text is a gap and then one assignment after
another, each with the gap behind it, and only the last may be written so that
all the rest is its value. At byte positions the same is read, and no cut goes
through a character or behind the end. -/
theorem read_divides (s : Text) :
    ∃ (gap : Text) (entries : List Placed),
      Text.trim s = gap ++ entries.flatMap Placed.whole ∧ (∀ c ∈ gap, isKeyChar c = false) ∧
      (∀ front e back, entries = front ++ e :: back →
        e.form.leavesRoom = true ∨ back = [] ∧ e.gap = []) ∧
      read (Text.trim s) = entries.map (·.pair) ∧
      readAt? (Text.trim s) = some (entries.map (·.pair)) := by
  obtain ⟨pieces, hLayout⟩ := exists_layout (Text.trim s)
  obtain ⟨gap, entries, hText, hGap, rfl, hLast⟩ :=
    hLayout.exists_placed (Text.trimEnd_trimEnd _)
  have hRead : read (Text.trim s) = entries.map (·.pair) := by
    rw [hLayout.read_eq, List.map_map]
    rfl
  refine ⟨gap, entries, hText, hGap, hLast, hRead, ?_⟩
  rw [readAt?_eq (Text.trimStart_trim s), hRead]

end Gaps

end Assignments

end Drydock
