/-
# Values that are passed over

A member of a name that no field has is passed over.  Whatever value it has, if it is written in
either layout it is passed over to its end (`skip_render`): a number need not be a word, and
brackets may nest to any depth, because those that are open are kept on a stack.

The induction is on the value, with one lemma for the items of an array and one for the members of
an object.  The room that limits the number of steps is never short, because each step takes a
character at least.
-/
import DiningRing.Proofs.Json.Rendering

namespace DiningRing.Json

variable {lead rest cs : List Char} {c : Char}

/-! ### The first part of a value -/

lemma skipHead_of_number (hc : c = '-' ∨ isDigit c = true) (hcs : dropBlanks cs = c :: rest) :
    skipHead cs = (skipNumber (c :: rest)).map (Prod.mk none) := by
  unfold skipHead
  rw [hcs]
  split
  case h_8 d ds _ _ _ _ _ _ hsame =>
    obtain ⟨rfl, rfl⟩ := List.cons.inj hsame
    rw [if_pos hc]
  all_goals
    simp_all [isDigit]

/-- The bracket with which a value begins. -/
def bracket? : Json → Option Bracket
  | array _ => some .array
  | object _ => some .object
  | null | bool _ | integer _ | decimal _ _ | string _ => none

/-- What is left of the text of a value behind its bracket. -/
def inside (l : Layout) : Json → List Char
  | array xs => itemsText l true xs
  | object ms => membersText l true ms
  | null | bool _ | integer _ | decimal _ _ | string _ => []

/-- Of a value without parts nothing is left, of any other one what is inside its brackets. -/
lemma skipHead_render (hlead : Blank lead) (hrest : Halts rest) (l : Layout) (j : Json) :
    skipHead (lead ++ (render l j ++ rest)) = .ok (j.bracket?, j.inside l ++ rest) := by
  have hdrop := dropBlanks_render hlead l j rest
  have hnumber : ∀ (m : ℤ) (x : Option ℤ), render l j = integerText m ++ exponentText x →
      skipHead (lead ++ (render l j ++ rest)) = .ok (none, rest) := by
    intro m x hj
    obtain ⟨c, cs, hcons, hc⟩ := exists_integerText_eq_cons m
    have hskip := skipNumber_integerText m x hrest
    rw [hj, List.append_assoc, hcons, List.cons_append] at hdrop
    rw [hcons, List.cons_append] at hskip
    rw [hj, List.append_assoc, hcons, List.cons_append, skipHead_of_number hc hdrop, hskip]
    rfl
  cases j with
  | null => rw [skipHead, hdrop]; rfl
  | bool b => cases b <;> (rw [skipHead, hdrop]; rfl)
  | integer m => exact hnumber m none (by rw [render]; simp [exponentText])
  | decimal m e => exact hnumber m (some e) (by rw [render]; rfl)
  | string s =>
    rw [render, quoted_append] at hdrop
    rw [skipHead, render, quoted_append, hdrop]
    simp only [skipString_written]
    rfl
  | array xs => rw [skipHead, hdrop, render_array]; rfl
  | object ms => rw [skipHead, hdrop, render_object]; rfl

/-! ### The lengths of texts -/

section

variable (l : Layout) (isFirst : Bool)

lemma length_render_pos (j : Json) : 0 < (render l j).length := by
  obtain ⟨c, cs, hcons, -⟩ := exists_render_eq_cons l j
  rw [hcons]
  exact Nat.succ_pos _

lemma length_itemsText_nil : 0 < (itemsText l isFirst []).length := by
  cases isFirst with
  | true => exact Nat.one_pos
  | false => simp [itemsText, renderItems]

lemma length_itemsText_cons (x : Json) (xs : List Json) :
    (render l.inner x).length + (itemsText l false xs).length
      ≤ (itemsText l isFirst (x :: xs)).length := by
  cases isFirst <;> simp only [itemsText, renderItems, List.length_append, List.length_cons] <;>
    omega

lemma length_membersText_nil : 0 < (membersText l isFirst []).length := by
  cases isFirst with
  | true => exact Nat.one_pos
  | false => simp [membersText, renderMembers]

lemma length_membersText_cons (k : String) (v : Json) (ms : List (String × Json)) :
    (render l.inner v).length + (membersText l false ms).length
      < (membersText l isFirst ((k, v) :: ms)).length := by
  have hcolon : 0 < l.colon.length := by
    rw [Layout.colon_eq]
    exact Nat.succ_pos _
  cases isFirst <;> simp only [membersText, renderMembers, List.length_append, List.length_cons] <;>
    omega

end

/-- Where there is a text there is room. -/
lemma exists_room {cs room : List Char} (hpos : 0 < cs.length)
    (hroom : (cs ++ rest).length ≤ room.length) :
    ∃ x room', room = x :: room' ∧ cs.length + rest.length ≤ room'.length + 1 := by
  rw [List.length_append] at hroom
  cases room with
  | nil =>
    rw [List.length_nil] at hroom
    omega
  | cons x room' => exact ⟨x, room', rfl, hroom⟩

/-! ### Whole values -/

/-- Passes over a value, and then over what is left between the brackets around it. -/
def skipValue (room : List Char) (outer : List Bracket) (cs : List Char) :
    Except Refusal (List Char) :=
  match skipHead cs with
  | .error e => .error e
  | .ok (none, cs) => skipOpen room false outer cs
  | .ok (some b, cs) => skipOpen room true (b :: outer) cs

section

variable {x : Char} {room : List Char} {isFirst : Bool} {b : Bracket} {outer : List Bracket}

lemma skipOpen_of_next (h : b.next isFirst cs = .ok (some rest)) :
    skipOpen (x :: room) isFirst (b :: outer) cs = skipValue room (b :: outer) rest := by
  rw [skipOpen, h]
  rfl

lemma skipOpen_of_close (hnext : b.next isFirst cs = .ok none) (hclose : b.close cs = .ok rest) :
    skipOpen (x :: room) isFirst (b :: outer) cs = skipOpen room false outer rest := by
  rw [skipOpen, hnext]
  simp only [hclose]

end

/-- The next value of an object is behind its key and a colon. -/
lemma next_membersText (l : Layout) (isFirst : Bool) (k : String) (v : Json)
    (ms : List (String × Json)) (rest : List Char) :
    Bracket.object.next isFirst (membersText l isFirst ((k, v) :: ms) ++ rest)
      = .ok (some (l.space ++ (render l.inner v ++ (membersText l false ms ++ rest)))) := by
  rw [Bracket.next]
  simp only [nextKey_membersText, skipString_written, colon_colon]
  rfl

mutual

/-- **A value is passed over to its end**, whatever brackets are open around it. -/
theorem skipValue_render (l : Layout) (j : Json) {lead rest room : List Char}
    (outer : List Bracket) (hlead : Blank lead) (hrest : Halts rest)
    (hroom : (render l j ++ rest).length ≤ room.length + 1) :
    ∃ room' : List Char, rest.length ≤ room'.length ∧
      skipValue room outer (lead ++ (render l j ++ rest)) = skipOpen room' false outer rest := by
  have hhead := skipHead_render hlead hrest l j
  have hpos := length_render_pos l j
  cases j with
  | null | bool b | integer m | decimal m e | string s =>
    refine ⟨room, ?_, ?_⟩
    · rw [List.length_append] at hroom
      omega
    · rw [skipValue, hhead]
      rfl
  | array xs =>
    rw [render_array, List.cons_append, List.length_cons] at hroom
    obtain ⟨room', hroom', hskip⟩ :=
      skipOpen_itemsText l true xs outer (Nat.le_of_succ_le_succ hroom)
    exact ⟨room', hroom', by rw [skipValue, hhead]; exact hskip⟩
  | object ms =>
    rw [render_object, List.cons_append, List.length_cons] at hroom
    obtain ⟨room', hroom', hskip⟩ :=
      skipOpen_membersText l true ms outer (Nat.le_of_succ_le_succ hroom)
    exact ⟨room', hroom', by rw [skipValue, hhead]; exact hskip⟩

lemma skipOpen_itemsText (l : Layout) (isFirst : Bool) (xs : List Json) {rest room : List Char}
    (outer : List Bracket) (hroom : (itemsText l isFirst xs ++ rest).length ≤ room.length) :
    ∃ room' : List Char, rest.length ≤ room'.length ∧
      skipOpen room isFirst (.array :: outer) (itemsText l isFirst xs ++ rest)
        = skipOpen room' false outer rest := by
  cases xs with
  | nil =>
    have hpos := length_itemsText_nil l isFirst
    obtain ⟨y, room, rfl, hlong⟩ := exists_room hpos hroom
    exact ⟨room, by omega,
      skipOpen_of_close (nextItem_end l isFirst rest) (closeArray_end l isFirst rest)⟩
  | cons x xs =>
    have hlength := length_itemsText_cons l isFirst x xs
    have hpos := length_render_pos l.inner x
    obtain ⟨y, room, rfl, hlong⟩ := exists_room (by omega) hroom
    have hroom : (render l.inner x ++ (itemsText l false xs ++ rest)).length ≤ room.length + 1 := by
      simp only [List.length_append]
      omega
    -- the item, then the items after it
    obtain ⟨room₁, hroom₁, hitem⟩ := skipValue_render l.inner x (.array :: outer) blank_nil
      (halts_itemsText l rest xs) hroom
    obtain ⟨room₂, hroom₂, hitems⟩ := skipOpen_itemsText l false xs outer hroom₁
    refine ⟨room₂, hroom₂, ?_⟩
    rw [skipOpen_of_next (b := .array) (nextItem_itemsText l isFirst rest x xs)]
    exact hitem.trans hitems

lemma skipOpen_membersText (l : Layout) (isFirst : Bool) (ms : List (String × Json))
    {rest room : List Char} (outer : List Bracket)
    (hroom : (membersText l isFirst ms ++ rest).length ≤ room.length) :
    ∃ room' : List Char, rest.length ≤ room'.length ∧
      skipOpen room isFirst (.object :: outer) (membersText l isFirst ms ++ rest)
        = skipOpen room' false outer rest := by
  cases ms with
  | nil =>
    have hpos := length_membersText_nil l isFirst
    obtain ⟨y, room, rfl, hlong⟩ := exists_room hpos hroom
    have hnext : Bracket.object.next isFirst (membersText l isFirst [] ++ rest) = .ok none := by
      rw [Bracket.next]
      simp only [nextKey_end]
    exact ⟨room, by omega, skipOpen_of_close hnext (closeObject_end l isFirst rest)⟩
  | cons m ms =>
    obtain ⟨k, v⟩ := m
    have hlength := length_membersText_cons l isFirst k v ms
    obtain ⟨y, room, rfl, hlong⟩ := exists_room (by omega) hroom
    have hroom : (render l.inner v ++ (membersText l false ms ++ rest)).length
        ≤ room.length + 1 := by
      simp only [List.length_append]
      omega
    -- the value of the member, then the members after it
    obtain ⟨room₁, hroom₁, hvalue⟩ := skipValue_render l.inner v (.object :: outer) (blank_space l)
      (halts_membersText l rest ms) hroom
    obtain ⟨room₂, hroom₂, hmembers⟩ := skipOpen_membersText l false ms outer hroom₁
    refine ⟨room₂, hroom₂, ?_⟩
    rw [skipOpen_of_next (next_membersText l isFirst k v ms rest)]
    exact hvalue.trans hmembers

end

/-- **A value that is written is passed over.** -/
theorem skip_render (hlead : Blank lead) (hrest : Halts rest) (l : Layout) (j : Json) :
    skip (lead ++ (render l j ++ rest)) = .ok rest := by
  rw [skip, skipHead_render hlead hrest]
  cases j with
  | null | bool b | integer m | decimal m e | string s => rfl
  | array xs =>
    obtain ⟨room, -, hskip⟩ := skipOpen_itemsText l true xs [] (Nat.le_refl _)
    exact hskip.trans (by rw [skipOpen])
  | object ms =>
    obtain ⟨room, -, hskip⟩ := skipOpen_membersText l true ms [] (Nat.le_refl _)
    exact hskip.trans (by rw [skipOpen])

end DiningRing.Json
