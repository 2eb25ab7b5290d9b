/-!
Words and parentheses. Words hold neither blanks nor parentheses, so a written datum ends where
nothing else could end it.
-/
set_option autoImplicit false

namespace TreeMachine

inductive Datum where
  | word (text : String)
  | list (items : List Datum)

namespace Datum

mutual

def chars : Datum → List Char
  | word text => text.toList
  | list items => '(' :: itemChars items

def itemChars : List Datum → List Char
  | [] => [')']
  | d :: ds => d.chars ++ moreChars ds

def moreChars : List Datum → List Char
  | [] => [')']
  | d :: ds => ' ' :: d.chars ++ moreChars ds

end

/-- The characters that no word holds. -/
def divides (c : Char) : Bool := c == ' ' || c == '(' || c == ')'

theorem divides_eq_false_iff {c : Char} : divides c = false ↔ c ∉ [' ', '(', ')'] := by
  simp [divides, and_assoc]

inductive Sound : Datum → Prop where
  | word {text : String} (nonempty : text.toList ≠ [])
      (plain : ∀ c ∈ text.toList, divides c = false) : Sound (.word text)
  | list {items : List Datum} (h : ∀ d ∈ items, Sound d) : Sound (.list items)

def Ended (rest : List Char) : Prop := ∀ c ∈ rest.head?, divides c = true

theorem ended_moreChars (ds : List Datum) (r : List Char) : Ended (moreChars ds ++ r) := by
  cases ds with
  | nil => simp [Ended, moreChars, divides]
  | cons d ds => simp [Ended, moreChars, divides]

theorem append_inj_of_forall {p : Char → Bool} {a b r r' : List Char} (ha : ∀ c ∈ a, p c = false)
    (hb : ∀ c ∈ b, p c = false) (hr : ∀ c ∈ r.head?, p c = true)
    (hr' : ∀ c ∈ r'.head?, p c = true) (h : a ++ r = b ++ r') : a = b ∧ r = r' := by
  induction a generalizing b with
  | nil =>
    cases b with
    | nil => exact ⟨rfl, h⟩
    | cons c b =>
      obtain rfl : r = c :: (b ++ r') := h
      simp [hb c (by simp)] at hr
  | cons c a ih =>
    cases b with
    | nil =>
      obtain rfl : r' = c :: (a ++ r) := h.symm
      simp [ha c (by simp)] at hr'
    | cons c' b =>
      obtain ⟨rfl, hrest⟩ := List.cons.inj h
      obtain ⟨rfl, rfl⟩ := ih (fun x hx => ha x (by simp [hx])) (fun x hx => hb x (by simp [hx]))
        hrest
      exact ⟨rfl, rfl⟩

/-- No other datum is written where this one is. -/
def Framed (d : Datum) : Prop :=
  ∀ {d' : Datum} {r r' : List Char}, d'.Sound → Ended r → Ended r' →
    d.chars ++ r = d'.chars ++ r' → d = d' ∧ r = r'

theorem word_append_ne {text : String} (nonempty : text.toList ≠ [])
    (plain : ∀ c ∈ text.toList, divides c = false) {c : Char} (hc : divides c = true)
    (r r' : List Char) : text.toList ++ r ≠ c :: r' := by
  obtain ⟨first, cs, hcs⟩ := List.exists_cons_of_ne_nil nonempty
  intro h
  rw [hcs] at h
  obtain rfl : first = c := (List.cons.inj h).1
  exact absurd (plain first (by simp [hcs])) (by simp [hc])

theorem Sound.append_ne_close {d : Datum} (h : d.Sound) (r r' : List Char) :
    d.chars ++ r ≠ ')' :: r' := by
  cases h with
  | word nonempty plain => exact word_append_ne nonempty plain rfl r r'
  | list h => simp [chars]

theorem moreChars_inj {ds ds' : List Datum} {r r' : List Char} (h : ∀ d ∈ ds, d.Framed)
    (hsound : ∀ d ∈ ds', d.Sound) (heq : moreChars ds ++ r = moreChars ds' ++ r') :
    ds = ds' ∧ r = r' := by
  induction ds generalizing ds' with
  | nil =>
    cases ds' with
    | nil => exact ⟨rfl, List.cons.inj heq |>.2⟩
    | cons d' ds' => simp [moreChars] at heq
  | cons d ds ih =>
    cases ds' with
    | nil => simp [moreChars] at heq
    | cons d' ds' =>
      simp only [moreChars, List.cons_append, List.append_assoc, List.cons.injEq, true_and] at heq
      obtain ⟨rfl, hrest⟩ := h d (by simp) (hsound d' (by simp)) (ended_moreChars ds r)
        (ended_moreChars ds' r') heq
      obtain ⟨rfl, rfl⟩ := ih (fun x hx => h x (by simp [hx])) (fun x hx => hsound x (by simp [hx]))
        hrest
      exact ⟨rfl, rfl⟩

theorem itemChars_inj {ds ds' : List Datum} {r r' : List Char} (h : ∀ d ∈ ds, d.Framed)
    (hds : ∀ d ∈ ds, d.Sound) (hds' : ∀ d ∈ ds', d.Sound)
    (heq : itemChars ds ++ r = itemChars ds' ++ r') : ds = ds' ∧ r = r' := by
  cases ds with
  | nil =>
    cases ds' with
    | nil => exact ⟨rfl, List.cons.inj heq |>.2⟩
    | cons d' ds' =>
      simp only [itemChars, List.append_assoc, List.cons_append] at heq
      exact absurd heq.symm ((hds' d' (by simp)).append_ne_close _ _)
  | cons d ds =>
    cases ds' with
    | nil =>
      simp only [itemChars, List.append_assoc, List.cons_append] at heq
      exact absurd heq ((hds d (by simp)).append_ne_close _ _)
    | cons d' ds' =>
      simp only [itemChars, List.append_assoc] at heq
      obtain ⟨rfl, hrest⟩ := h d (by simp) (hds' d' (by simp)) (ended_moreChars ds r)
        (ended_moreChars ds' r') heq
      obtain ⟨rfl, rfl⟩ := moreChars_inj (fun x hx => h x (by simp [hx]))
        (fun x hx => hds' x (by simp [hx])) hrest
      exact ⟨rfl, rfl⟩

theorem Sound.framed {d : Datum} (h : d.Sound) : d.Framed := by
  induction h with
  | @word text nonempty plain =>
    intro d' r r' hd' hr hr' heq
    cases hd' with
    | @word text' nonempty' plain' =>
      obtain ⟨htext, rfl⟩ := append_inj_of_forall plain plain' hr hr' heq
      exact ⟨congrArg Datum.word (String.toList_inj.1 htext), rfl⟩
    | list hitems => exact absurd heq (word_append_ne nonempty plain rfl _ _)
  | @list items hitems ih =>
    intro d' r r' hd' hr hr' heq
    cases hd' with
    | word nonempty' plain' => exact absurd heq.symm (word_append_ne nonempty' plain' rfl _ _)
    | list hitems' =>
      simp only [chars, List.cons_append, List.cons.injEq, true_and] at heq
      obtain ⟨rfl, rfl⟩ := itemChars_inj ih hitems hitems' heq
      exact ⟨rfl, rfl⟩

/-- Two data with the same written form are the same. -/
theorem chars_inj {d d' : Datum} (h : d.Sound) (h' : d'.Sound) : d.chars = d'.chars ↔ d = d' := by
  refine ⟨fun heq => ?_, congrArg chars⟩
  have hnil : Ended [] := by simp [Ended]
  exact (h.framed h' hnil hnil (by rw [heq])).1

end Datum

end TreeMachine
