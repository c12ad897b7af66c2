/-
# Values that are written

The text of an array or an object is its opening bracket and then, for each item or member, what
parts it from the one before, and itself (`itemsText`, `membersText`).  Readers come to the items
and members of such a text one by one, in either layout: blanks do not matter to them, and no value
goes on with what parts it from the next one.

Main statements: `nextItem_itemsText` and `nextKey_membersText`.
-/
import DiningRing.Proofs.Json.Numerals
import DiningRing.Proofs.Json.Strings

namespace DiningRing.Json

variable {lead rest cs : List Char} {c : Char}

/-! ### Blanks -/

/-- Characters that are all blank. -/
def Blank (cs : List Char) : Prop := ∀ c ∈ cs, isBlank c = true

lemma blank_nil : Blank [] := fun _ h => absurd h List.not_mem_nil

lemma blank_lineBreak (l : Layout) : Blank l.lineBreak := by
  cases l with
  | compact => exact blank_nil
  | indented level =>
    intro c hc
    rcases List.mem_cons.mp hc with rfl | hc
    · decide
    · rw [(List.mem_replicate.mp hc).2]
      decide

lemma dropBlanks_append (hlead : Blank lead) (cs : List Char) :
    dropBlanks (lead ++ cs) = dropBlanks cs :=
  List.dropWhile_append_of_pos hlead

lemma dropBlanks_cons (hc : isBlank c = false) : dropBlanks (c :: cs) = c :: cs := by
  simp [dropBlanks, hc]

/-- The blanks in front of a character that is none. -/
lemma dropBlanks_append_cons (hlead : Blank lead) (hc : isBlank c = false) :
    dropBlanks (lead ++ c :: cs) = c :: cs := by
  rw [dropBlanks_append hlead, dropBlanks_cons hc]

/-- What stands between a colon and a value. -/
def Layout.space : Layout → List Char
  | compact => []
  | indented _ => [' ']

lemma Layout.colon_eq (l : Layout) : l.colon = ':' :: l.space := by
  cases l <;> rfl

lemma blank_space (l : Layout) : Blank l.space := by
  cases l with
  | compact => exact blank_nil
  | indented level =>
    intro c hc
    obtain rfl := List.mem_singleton.mp hc
    decide

/-! ### Items and members -/

/-- The items of an array and its end, from behind the opening bracket or from behind an item. -/
def itemsText (l : Layout) : Bool → List Json → List Char
  | true, [] => [']']
  | true, x :: xs => l.inner.lineBreak ++ render l.inner x ++ renderItems l xs
  | false, xs => renderItems l xs

/-- The members of an object and its end, from behind the opening bracket or from behind a
member. -/
def membersText (l : Layout) : Bool → List (String × Json) → List Char
  | true, [] => ['\x7d']
  | true, (k, v) :: ms =>
    l.inner.lineBreak ++ quoted k ++ l.colon ++ render l.inner v ++ renderMembers l ms
  | false, ms => renderMembers l ms

lemma render_array (l : Layout) (xs : List Json) :
    render l (.array xs) = '[' :: itemsText l true xs := by
  cases xs with
  | nil => rw [render, itemsText]
  | cons x xs => rw [render, itemsText]; rfl

lemma render_object (l : Layout) (ms : List (String × Json)) :
    render l (.object ms) = '\x7b' :: membersText l true ms := by
  cases ms with
  | nil => rw [render, membersText]
  | cons m ms => rw [render, membersText]; rfl

/-! ### The beginning of a value -/

lemma isBlank_of_isDigit (hc : isDigit c = true) : isBlank c = false := by
  cases hblank : isBlank c with
  | false => rfl
  | true =>
    simp only [isBlank, Bool.or_eq_true, beq_iff_eq] at hblank
    rcases hblank with ((rfl | rfl) | rfl) | rfl <;> exact absurd hc (by decide)

/-- A value does not begin with a blank, nor with what parts items or ends them; and only `null`
begins with an `n`. -/
lemma exists_render_eq_cons (l : Layout) (j : Json) : ∃ c cs, render l j = c :: cs ∧
    isBlank c = false ∧ c ≠ ',' ∧ c ≠ ']' ∧ (c = 'n' → j = .null) := by
  have hnumber : ∀ m : ℤ, ∃ c cs, integerText m = c :: cs ∧
      isBlank c = false ∧ c ≠ ',' ∧ c ≠ ']' ∧ c ≠ 'n' := by
    intro m
    obtain ⟨c, cs, hcons, hc⟩ := exists_integerText_eq_cons m
    refine ⟨c, cs, hcons, ?_⟩
    rcases hc with rfl | hc
    · decide
    · refine ⟨isBlank_of_isDigit hc, ?_, ?_, ?_⟩ <;> rintro rfl <;> exact absurd hc (by decide)
  have hother : ∀ c : Char, c ≠ 'n' → c = 'n' → j = .null := fun _ hne h => absurd h hne
  cases j with
  | null => exact ⟨'n', _, rfl, by decide, by decide, by decide, fun _ => rfl⟩
  | bool b =>
    cases b with
    | false => exact ⟨'f', _, rfl, by decide, by decide, by decide, hother _ (by decide)⟩
    | true => exact ⟨'t', _, rfl, by decide, by decide, by decide, hother _ (by decide)⟩
  | integer i =>
    obtain ⟨c, cs, hcons, hblank, hcomma, hend, hn⟩ := hnumber i
    exact ⟨c, cs, by rw [render, hcons], hblank, hcomma, hend, hother c hn⟩
  | decimal m e =>
    obtain ⟨c, cs, hcons, hblank, hcomma, hend, hn⟩ := hnumber m
    exact ⟨c, _, by rw [render, hcons]; rfl, hblank, hcomma, hend, hother c hn⟩
  | string s =>
    exact ⟨'\x22', _, by rw [render]; rfl, by decide, by decide, by decide, hother _ (by decide)⟩
  | array xs =>
    exact ⟨'[', _, render_array l xs, by decide, by decide, by decide, hother _ (by decide)⟩
  | object ms =>
    exact ⟨'\x7b', _, render_object l ms, by decide, by decide, by decide, hother _ (by decide)⟩

lemma dropBlanks_render (hlead : Blank lead) (l : Layout) (j : Json) (rest : List Char) :
    dropBlanks (lead ++ (render l j ++ rest)) = render l j ++ rest := by
  obtain ⟨c, cs, hcons, hblank, -⟩ := exists_render_eq_cons l j
  rw [hcons, List.cons_append, dropBlanks_append_cons hlead hblank]

section

variable (l : Layout) (isFirst : Bool) (rest : List Char)

/-- A number does not go on with a line break before a bracket. -/
lemma halts_lineBreak (hc : isDigit c = false ∧ c ≠ '.' ∧ c ≠ 'e' ∧ c ≠ 'E') :
    Halts (l.lineBreak ++ c :: rest) := by
  cases l with
  | compact =>
    intro d hd
    obtain rfl : c = d := by simpa [Layout.lineBreak] using hd
    exact hc
  | indented level =>
    intro d hd
    obtain rfl : '\n' = d := by simpa [Layout.lineBreak] using hd
    decide

lemma halts_comma : Halts (',' :: rest) := by
  intro c hc
  obtain rfl : ',' = c := by simpa using hc
  decide

/-- A value in an array ends before the next item or the bracket. -/
lemma halts_itemsText (xs : List Json) : Halts (itemsText l false xs ++ rest) := by
  cases xs with
  | nil =>
    rw [itemsText, renderItems, List.append_assoc]
    exact halts_lineBreak l rest (by decide)
  | cons x xs =>
    rw [itemsText, renderItems]
    exact halts_comma _

/-- A value in an object ends before the next member or the bracket. -/
lemma halts_membersText (ms : List (String × Json)) : Halts (membersText l false ms ++ rest) := by
  cases ms with
  | nil =>
    rw [membersText, renderMembers, List.append_assoc]
    exact halts_lineBreak l rest (by decide)
  | cons m ms =>
    rw [membersText, renderMembers]
    exact halts_comma _

/-! ### Coming to the next one -/

lemma nextItem_itemsText (x : Json) (xs : List Json) :
    nextItem isFirst (itemsText l isFirst (x :: xs) ++ rest)
      = .ok (some (render l.inner x ++ (itemsText l false xs ++ rest))) := by
  obtain ⟨c, cs, hcons, hblank, hcomma, hend, -⟩ := exists_render_eq_cons l.inner x
  have hdrop : ∀ later, dropBlanks (l.inner.lineBreak ++ (render l.inner x ++ later))
      = c :: (cs ++ later) := fun later => by
    rw [dropBlanks_render (blank_lineBreak _), hcons, List.cons_append]
  cases isFirst with
  | true =>
    rw [itemsText, List.append_assoc, List.append_assoc, nextItem, hdrop, itemsText]
    simp [hcomma, hend, hcons]
  | false =>
    rw [itemsText, renderItems, itemsText]
    simp only [List.cons_append, List.append_assoc, nextItem,
      dropBlanks_cons (c := ',') (by decide), hdrop]
    simp [hend, hcons]

lemma dropBlanks_itemsText_nil : dropBlanks (itemsText l isFirst [] ++ rest) = ']' :: rest := by
  cases isFirst with
  | true => exact dropBlanks_cons (by decide)
  | false =>
    rw [itemsText, renderItems, List.append_assoc]
    exact dropBlanks_append_cons (blank_lineBreak l) (by decide)

lemma nextItem_end : nextItem isFirst (itemsText l isFirst [] ++ rest) = .ok none := by
  rw [nextItem, dropBlanks_itemsText_nil]
  rfl

lemma closeArray_end : closeArray (itemsText l isFirst [] ++ rest) = .ok rest := by
  rw [closeArray, dropBlanks_itemsText_nil]
  rfl

lemma nextKey_membersText (k : String) (v : Json) (ms : List (String × Json)) :
    nextKey isFirst (membersText l isFirst ((k, v) :: ms) ++ rest)
      = .ok (some (k.toList.flatMap escape
        ++ '\x22' :: (l.colon ++ (render l.inner v ++ (membersText l false ms ++ rest))))) := by
  have hdrop : ∀ later, dropBlanks (l.inner.lineBreak ++ (quoted k ++ later))
      = '\x22' :: (k.toList.flatMap escape ++ '\x22' :: later) := fun later => by
    rw [quoted_append, dropBlanks_append_cons (blank_lineBreak _) (by decide)]
  cases isFirst with
  | true => simp [membersText, nextKey, hdrop]
  | false =>
    simp only [membersText, renderMembers, List.cons_append, List.append_assoc, nextKey,
      dropBlanks_cons (c := ',') (by decide), hdrop]
    rfl

lemma dropBlanks_membersText_nil :
    dropBlanks (membersText l isFirst [] ++ rest) = '\x7d' :: rest := by
  cases isFirst with
  | true => exact dropBlanks_cons (by decide)
  | false =>
    rw [membersText, renderMembers, List.append_assoc]
    exact dropBlanks_append_cons (blank_lineBreak l) (by decide)

lemma nextKey_end : nextKey isFirst (membersText l isFirst [] ++ rest) = .ok none := by
  rw [nextKey, dropBlanks_membersText_nil]
  rfl

lemma closeObject_end : closeObject (membersText l isFirst [] ++ rest) = .ok rest := by
  rw [closeObject, dropBlanks_membersText_nil]
  rfl

lemma colon_colon : colon (l.colon ++ rest) = .ok (l.space ++ rest) := by
  rw [Layout.colon_eq, List.cons_append, colon, dropBlanks_cons (by decide)]
  rfl

end

end DiningRing.Json
