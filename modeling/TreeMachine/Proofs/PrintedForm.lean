import TreeMachine.Proofs.TreeData

set_option autoImplicit false

namespace TreeMachine

def keywords : List String := ["if", "begin", "lambda", "set!", "tail"]

/-- The name is one word without a caret, begins with a letter and is no keyword. -/
structure LegibleName (name : String) : Prop where
  letter : name.toList.head?.any Char.isAlpha = true
  plain : ∀ c ∈ name.toList, c ∉ [' ', '(', ')', '^']
  other : name ∉ keywords

/-- The constants that are printed as a word of their own. -/
def Store.LegibleConstant (s : Store) : Value → Prop
  | .int _ | .bool _ | .unit => True
  | .symbol name => ∀ c ∈ name.toList, c ∉ [' ', '(', ')']
  | .closure c => LegibleName (s.cell c.cell).name
  | .box _ | .host _ => False

/-- The names and constants of a tree are legible, those in the bodies of its lambdas included. -/
inductive Expr.Legible (w : World) : Expr → Prop where
  | literal {v : Value} (constant : w.store.LegibleConstant v) : Legible w (.literal v)
  | read {slot : SlotId} {depth : Nat} (name : LegibleName slot.name) :
      Legible w (.read slot depth)
  | write {slot : SlotId} {depth : Nat} {value : Expr} (name : LegibleName slot.name)
      (stored : Legible w value) : Legible w (.write slot depth value)
  | ite {c t e : Expr} (condition : Legible w c) (whenTrue : Legible w t)
      (whenFalse : Legible w e) : Legible w (.ite c t e)
  | begin {items : List Expr} (each : ∀ e ∈ items, Legible w e) : Legible w (.begin items)
  | lambda {id : CodeId} (name : (w.library.code id).name ≠ "" →
        LegibleName (w.library.code id).name)
      (params : ∀ p ∈ (w.library.code id).params, LegibleName p.name)
      (body : Legible w (w.library.code id).body) : Legible w (.lambda id)
  | apply {callee : Expr} {args : List Expr} {tail : Bool} {site : SiteId}
      (called : Legible w callee) (each : ∀ e ∈ args, Legible w e) :
      Legible w (.apply callee args tail site)

/-- The same nodes, names, depths, tail flags and texts of constants. A slot of the current frame
may stand for a constant callable of its name. -/
inductive SameStructure (w w' : World) : Expr → Expr → Prop where
  | literal {v v' : Value} (text : w.store.constantText v = w'.store.constantText v') :
      SameStructure w w' (.literal v) (.literal v')
  | read {slot slot' : SlotId} {depth : Nat} (name : slot.name = slot'.name) :
      SameStructure w w' (.read slot depth) (.read slot' depth)
  | slotAndCallable {slot : SlotId} {c : Closure} (named : slot.name ≠ "")
      (name : slot.name = (w'.store.cell c.cell).name) :
      SameStructure w w' (.read slot 0) (.literal (.closure c))
  | callableAndSlot {slot : SlotId} {c : Closure} (named : slot.name ≠ "")
      (name : (w.store.cell c.cell).name = slot.name) :
      SameStructure w w' (.literal (.closure c)) (.read slot 0)
  | write {slot slot' : SlotId} {depth : Nat} {value value' : Expr} (name : slot.name = slot'.name)
      (stored : SameStructure w w' value value') :
      SameStructure w w' (.write slot depth value) (.write slot' depth value')
  | ite {c c' t t' e e' : Expr} (condition : SameStructure w w' c c')
      (whenTrue : SameStructure w w' t t') (whenFalse : SameStructure w w' e e') :
      SameStructure w w' (.ite c t e) (.ite c' t' e')
  | begin {items items' : List Expr} (length : items.length = items'.length)
      (each : ∀ p ∈ items.zip items', SameStructure w w' p.1 p.2) :
      SameStructure w w' (.begin items) (.begin items')
  | lambda {id id' : CodeId} (name : (w.library.code id).name = (w'.library.code id').name)
      (params : (w.library.code id).params.map SlotId.name =
        (w'.library.code id').params.map SlotId.name)
      (body : SameStructure w w' (w.library.code id).body (w'.library.code id').body) :
      SameStructure w w' (.lambda id) (.lambda id')
  | apply {callee callee' : Expr} {args args' : List Expr} {tail : Bool} {site site' : SiteId}
      (called : SameStructure w w' callee callee') (length : args.length = args'.length)
      (each : ∀ p ∈ args.zip args', SameStructure w w' p.1 p.2) :
      SameStructure w w' (.apply callee args tail site) (.apply callee' args' tail site')

structure LegibleWord (text : String) : Prop where
  nonempty : text.toList ≠ []
  plain : ∀ c ∈ text.toList, Datum.divides c = false
  other : text ∉ keywords

theorem LegibleWord.sound {text : String} (h : LegibleWord text) : (Datum.word text).Sound :=
  .word h.nonempty h.plain

structure UnletteredWord (text : String) : Prop where
  nonempty : text.toList ≠ []
  plain : ∀ c ∈ text.toList, Datum.divides c = false
  head : text.toList.head?.any Char.isAlpha = false

theorem UnletteredWord.word {text : String} (h : UnletteredWord text) : LegibleWord text := by
  refine ⟨h.nonempty, h.plain, fun hmem => ?_⟩
  have hletter := (by decide : ∀ t ∈ keywords, t.toList.head?.any Char.isAlpha = true) text hmem
  rw [h.head] at hletter
  cases hletter

theorem LegibleName.nonempty {name : String} (h : LegibleName name) : name.toList ≠ [] := by
  intro hnil
  have hletter := h.letter
  simp [hnil] at hletter

theorem LegibleName.ne_empty {name : String} (h : LegibleName name) : name ≠ "" := by
  rintro rfl
  exact h.nonempty rfl

theorem LegibleName.word {name : String} (h : LegibleName name) : LegibleWord name := by
  refine ⟨h.nonempty, fun c hc => Datum.divides_eq_false_iff.2 fun hmem => h.plain c hc ?_, h.other⟩
  exact List.mem_append_left ['^'] hmem

namespace Outline

def depthChars (depth : Nat) : List Char := if depth = 0 then [] else '^' :: Nat.toDigits 10 depth

theorem toList_slotText (slot : String) (depth : Nat) :
    (slotText slot depth).toList = slot.toList ++ depthChars depth := by
  unfold slotText depthChars
  split <;> simp

theorem depthChars_inj {depth depth' : Nat} (h : depthChars depth = depthChars depth') :
    depth = depth' := by
  unfold depthChars at h
  split at h
  · split at h
    · omega
    · cases h
  · split at h
    · cases h
    · have hdigits := congrArg (Nat.ofDigitChars 10 · 0) (List.cons.inj h).2
      simpa using hdigits

theorem isDigit_of_mem_depthChars {depth : Nat} {c : Char} (h : c ∈ depthChars depth) :
    c = '^' ∨ c.isDigit = true := by
  unfold depthChars at h
  split at h
  · cases h
  · rcases List.mem_cons.1 h with rfl | h
    · exact .inl rfl
    · exact .inr (Nat.isDigit_of_mem_toDigits (by decide) (by decide) h)

theorem slotText_inj {slot slot' : String} {depth depth' : Nat} (h : LegibleName slot)
    (h' : LegibleName slot') (heq : slotText slot depth = slotText slot' depth') :
    slot = slot' ∧ depth = depth' := by
  have hchars : slot.toList ++ depthChars depth = slot'.toList ++ depthChars depth' := by
    rw [← toList_slotText, ← toList_slotText, heq]
  have hcaret : ∀ {name : String}, LegibleName name → ∀ c ∈ name.toList, (c == '^') = false :=
    fun hname c hc => beq_eq_false_iff_ne.2 fun hcaret => hname.plain c hc (by simp [hcaret])
  have hhead : ∀ depth, ∀ c ∈ (depthChars depth).head?, (c == '^') = true := by
    intro depth c hc
    unfold depthChars at hc
    split at hc
    · cases hc
    · obtain rfl : '^' = c := Option.some.inj hc
      rfl
  obtain ⟨hname, hdepth⟩ := Datum.append_inj_of_forall (hcaret h) (hcaret h') (hhead depth)
    (hhead depth') hchars
  exact ⟨String.toList_inj.1 hname, depthChars_inj hdepth⟩

end Outline

theorem isAlpha_of_isDigit {c : Char} (h : c.isDigit = true) : c.isAlpha = false := by
  have hnine : c.toNat ≤ 57 := (Char.isDigit_iff_toNat.1 h).2
  have hupper : ¬ 'A'.val ≤ c.val := fun hle => by
    have hnat : 65 ≤ c.toNat := UInt32.le_iff_toNat_le.1 hle
    omega
  have hlower : ¬ 'a'.val ≤ c.val := fun hle => by
    have hnat : 97 ≤ c.toNat := UInt32.le_iff_toNat_le.1 hle
    omega
  show (decide ('A'.val ≤ c.val ∧ c.val ≤ 'Z'.val) ||
    (decide ('a'.val ≤ c.val) && decide (c.val ≤ 'z'.val))) = false
  simp only [hupper, hlower, false_and, decide_false, Bool.false_and, Bool.or_self]

theorem divides_of_isDigit {c : Char} (h : c.isDigit = true) : Datum.divides c = false := by
  rw [Datum.divides_eq_false_iff]
  intro hmem
  simp only [List.mem_cons, List.not_mem_nil, or_false] at hmem
  rcases hmem with rfl | rfl | rfl <;> simp at h

theorem legibleWord_slotText {slot : String} (h : LegibleName slot) (depth : Nat) :
    LegibleWord (Outline.slotText slot depth) := by
  refine ⟨?_, fun c hc => ?_, fun hmem => ?_⟩
  · simp [Outline.toList_slotText, h.nonempty]
  · rw [Outline.toList_slotText, List.mem_append] at hc
    rcases hc with hc | hc
    · exact h.word.plain c hc
    · rcases Outline.isDigit_of_mem_depthChars hc with rfl | hdigit
      · rfl
      · exact divides_of_isDigit hdigit
  · by_cases hdepth : depth = 0
    · rw [Outline.slotText, if_pos hdepth] at hmem
      exact h.other hmem
    · have hcaret : '^' ∈ (Outline.slotText slot depth).toList := by
        simp [Outline.toList_slotText, Outline.depthChars, hdepth]
      exact (by decide : ∀ text ∈ keywords, '^' ∉ text.toList) _ hmem hcaret

theorem unletteredWord_repr (n : Nat) : UnletteredWord n.repr := by
  have hdigit : ∀ c ∈ n.repr.toList, c.isDigit = true := fun c hc =>
    Nat.isDigit_of_mem_toDigits (by decide) (by decide) (Nat.toList_repr ▸ hc)
  refine ⟨by simp, fun c hc => divides_of_isDigit (hdigit c hc), ?_⟩
  cases hchars : n.repr.toList with
  | nil => rfl
  | cons c cs => exact isAlpha_of_isDigit (hdigit c (by simp [hchars]))

theorem unletteredWord_int (i : Int) : UnletteredWord (toString i) := by
  rw [Int.toString_eq_repr, Int.repr_eq_if]
  split
  · exact unletteredWord_repr i.toNat
  · refine ⟨by simp, fun c hc => ?_, by simp⟩
    rw [String.toList_append, List.mem_append] at hc
    rcases hc with hc | hc
    · obtain rfl : c = '-' := by simpa using hc
      rfl
    · exact (unletteredWord_repr _).plain c hc

namespace Store

variable {s : Store} {v : Value}

theorem unletteredWord_constantText (h : s.LegibleConstant v) (hv : ∀ c, v ≠ .closure c) :
    UnletteredWord (s.constantText v) := by
  cases v with
  | int n => exact unletteredWord_int n.toInt
  | bool b =>
    cases b with
    | false => exact (⟨by decide, by simp [Datum.divides], by decide⟩ : UnletteredWord "#f")
    | true => exact (⟨by decide, by simp [Datum.divides], by decide⟩ : UnletteredWord "#t")
  | unit => exact (⟨by decide, by simp [Datum.divides], by decide⟩ : UnletteredWord "#<unit>")
  | symbol name =>
    have hchars : (s.constantText (.symbol name)).toList = '\x27' :: name.toList := by
      simp [constantText, text, closedText]
    refine ⟨by simp [hchars], fun c hc => ?_, by simp [hchars]⟩
    rw [hchars] at hc
    rcases List.mem_cons.1 hc with rfl | hc
    · rfl
    · exact Datum.divides_eq_false_iff.2 (h c hc)
  | closure c => exact absurd rfl (hv c)
  | box b => exact h.elim
  | host h' => exact h.elim

theorem constantText_closure {c : Closure} (h : (s.cell c.cell).name ≠ "") :
    s.constantText (.closure c) = (s.cell c.cell).name := by
  simp [constantText, h]

theorem legibleWord_constantText (h : s.LegibleConstant v) : LegibleWord (s.constantText v) := by
  by_cases hv : ∃ c, v = .closure c
  · obtain ⟨c, rfl⟩ := hv
    have hname : LegibleName (s.cell c.cell).name := h
    rw [constantText_closure hname.ne_empty]
    exact hname.word
  · exact (unletteredWord_constantText h fun c hc => hv ⟨c, hc⟩).word

/-- A slot is printed like a constant only when it is of the current frame, and the constant a
callable of the same name. -/
theorem slotText_eq_constantText {slot : String} {depth : Nat} (hslot : LegibleName slot)
    (h : s.LegibleConstant v) (heq : Outline.slotText slot depth = s.constantText v) :
    depth = 0 ∧ ∃ c, v = .closure c ∧ slot = (s.cell c.cell).name := by
  by_cases hv : ∃ c, v = .closure c
  · obtain ⟨c, rfl⟩ := hv
    have hname : LegibleName (s.cell c.cell).name := h
    rw [constantText_closure hname.ne_empty] at heq
    have hzero : Outline.slotText slot depth = Outline.slotText (s.cell c.cell).name 0 := heq
    obtain ⟨rfl, rfl⟩ := Outline.slotText_inj hslot hname hzero
    exact ⟨rfl, c, rfl, rfl⟩
  · have hhead := (unletteredWord_constantText h fun c hc => hv ⟨c, hc⟩).head
    rw [← heq, Outline.toList_slotText] at hhead
    obtain ⟨c, cs, hcs⟩ := List.exists_cons_of_ne_nil hslot.nonempty
    have hletter := hslot.letter
    rw [hcs] at hhead hletter
    simp only [List.cons_append, List.head?_cons] at hhead hletter
    rw [hletter] at hhead
    cases hhead

end Store

theorem sound_keyword {text : String} (h : text ∈ keywords) : (Datum.word text).Sound := by
  refine .word ?_ ?_
  · exact (by decide : ∀ text ∈ keywords, text.toList ≠ []) text h
  · revert text
    simp [keywords, Datum.divides]

theorem Expr.Legible.sound {w : World} {e : Expr} (h : e.Legible w) (ha : w.library.Assembled e) :
    (w.datum e).Sound := by
  induction h with
  | literal constant => exact (Store.legibleWord_constantText constant).sound
  | read name => exact (legibleWord_slotText name _).sound
  | write name stored ih =>
    rw [World.datum_write]
    refine .list ?_
    simp only [List.mem_cons, List.not_mem_nil, or_false, forall_eq_or_imp, forall_eq]
    exact ⟨sound_keyword (by decide), (legibleWord_slotText name _).sound, ih (ha.child .value)⟩
  | ite condition whenTrue whenFalse ihc iht ihe =>
    rw [World.datum_ite]
    refine .list ?_
    simp only [List.mem_cons, List.not_mem_nil, or_false, forall_eq_or_imp, forall_eq]
    exact ⟨sound_keyword (by decide), ihc (ha.child .condition), iht (ha.child .whenTrue),
      ihe (ha.child .whenFalse)⟩
  | begin each ih =>
    rw [World.datum_begin]
    refine .list ?_
    simp only [List.mem_cons, List.mem_map, forall_eq_or_imp]
    refine ⟨sound_keyword (by decide), ?_⟩
    rintro d ⟨e, he, rfl⟩
    exact ih e he (ha.child (.item he))
  | @lambda id name params body ih =>
    rw [World.datum_lambda ha]
    refine .list ?_
    simp only [List.mem_cons, List.mem_append, List.not_mem_nil, or_false]
    rintro d (rfl | hd | rfl | rfl)
    · exact sound_keyword (by decide)
    · split at hd
      · cases hd
      · rename_i hname
        obtain rfl := List.mem_singleton.1 hd
        exact (name hname).word.sound
    · refine .list fun d hd => ?_
      rw [List.map_map] at hd
      obtain ⟨p, hp, rfl⟩ := List.mem_map.1 hd
      exact (params p hp).word.sound
    · exact ih ha.body
  | @apply callee args tail site called each ihc ih =>
    rw [World.datum_apply]
    refine .list ?_
    simp only [List.mem_cons, List.mem_append, List.mem_map]
    rintro d (hd | rfl | ⟨e, he, rfl⟩)
    · split at hd
      · obtain rfl := List.mem_singleton.1 hd
        exact sound_keyword (by decide)
      · cases hd
    · exact ihc (ha.child .callee)
    · exact ih e he (ha.child (.argument he))

inductive NodeKind where
  | atom | write | ite | begin | lambda | apply (tail : Bool)

def Expr.kind : Expr → NodeKind
  | .literal _ | .read _ _ => .atom
  | .write _ _ _ => .write
  | .ite _ _ _ => .ite
  | .begin _ => .begin
  | .lambda _ => .lambda
  | .apply _ _ tail _ => .apply tail

def Datum.kind : Datum → NodeKind
  | .word _ => .atom
  | .list (.word text :: _) =>
    if text = "set!" then .write
    else if text = "if" then .ite
    else if text = "begin" then .begin
    else if text = "lambda" then .lambda
    else .apply (text = "tail")
  | .list _ => .apply false

theorem Datum.kind_of_not_keyword {text : String} (h : text ∉ keywords) (ds : List Datum) :
    (Datum.list (.word text :: ds)).kind = .apply false := by
  simp only [keywords, List.mem_cons, List.not_mem_nil, or_false, not_or] at h
  simp [kind, h]

theorem Expr.Legible.kind_datum {w : World} {e : Expr} (h : e.Legible w)
    (ha : w.library.Assembled e) : (w.datum e).kind = e.kind := by
  cases h with
  | literal constant => rfl
  | read name => rfl
  | write name stored => rfl
  | ite condition whenTrue whenFalse => rfl
  | begin each => rw [World.datum_begin]; rfl
  | lambda name params body => rw [World.datum_lambda ha]; rfl
  | @apply callee args tail site called each =>
    rw [World.datum_apply]
    cases tail with
    | true => rfl
    | false =>
      -- The callee may be printed as a word, which is then no keyword.
      cases called with
      | literal constant =>
        exact Datum.kind_of_not_keyword (Store.legibleWord_constantText constant).other _
      | read name => exact Datum.kind_of_not_keyword (legibleWord_slotText name _).other _
      | write name stored => rfl
      | ite condition whenTrue whenFalse => rfl
      | begin each => rw [World.datum_begin]; rfl
      | lambda name params body => rw [World.datum_lambda (ha.child .callee)]; rfl
      | apply called each => rw [World.datum_apply]; rfl

theorem map_eq_map_iff_zip {α β γ : Type} {f : α → γ} {g : β → γ} {xs : List α} {ys : List β} :
    xs.map f = ys.map g ↔ xs.length = ys.length ∧ ∀ p ∈ xs.zip ys, f p.1 = g p.2 := by
  induction xs generalizing ys with
  | nil => cases ys <;> simp
  | cons x xs ih =>
    cases ys with
    | nil => simp
    | cons y ys =>
      simp only [List.map_cons, List.cons.injEq, ih, List.length_cons, Nat.add_right_cancel_iff,
        List.zip_cons_cons, List.mem_cons, forall_eq_or_imp]
      exact and_left_comm

theorem SameStructure.datum_eq {w w' : World} {e e' : Expr} (h : SameStructure w w' e e')
    (ha : w.library.Assembled e) (ha' : w'.library.Assembled e') : w.datum e = w'.datum e' := by
  induction h with
  | literal text => exact congrArg Datum.word text
  | read name => rw [World.datum_read, World.datum_read, name]
  | slotAndCallable named name =>
    rw [World.datum_read, World.datum_literal, Store.constantText_closure (name ▸ named), ← name]
    rfl
  | callableAndSlot named name =>
    rw [World.datum_read, World.datum_literal, Store.constantText_closure (name ▸ named), name]
    rfl
  | write name stored ih =>
    rw [World.datum_write, World.datum_write, name, ih (ha.child .value) (ha'.child .value)]
  | ite condition whenTrue whenFalse ihc iht ihe =>
    rw [World.datum_ite, World.datum_ite, ihc (ha.child .condition) (ha'.child .condition),
      iht (ha.child .whenTrue) (ha'.child .whenTrue),
      ihe (ha.child .whenFalse) (ha'.child .whenFalse)]
  | begin length each ih =>
    rw [World.datum_begin, World.datum_begin, map_eq_map_iff_zip.2 ⟨length, fun p hp => ?_⟩]
    obtain ⟨hl, hr⟩ := List.of_mem_zip hp
    exact ih p hp (ha.child (.item hl)) (ha'.child (.item hr))
  | lambda name params body ih =>
    rw [World.datum_lambda ha, World.datum_lambda ha', name, params, ih ha.body ha'.body]
  | apply called length each ihc ih =>
    rw [World.datum_apply, World.datum_apply, ihc (ha.child .callee) (ha'.child .callee),
      map_eq_map_iff_zip.2 ⟨length, fun p hp => ?_⟩]
    obtain ⟨hl, hr⟩ := List.of_mem_zip hp
    exact ih p hp (ha.child (.argument hl)) (ha'.child (.argument hr))

theorem Expr.Legible.kind_eq {w w' : World} {e e' : Expr} (h : e.Legible w) (h' : e'.Legible w')
    (ha : w.library.Assembled e) (ha' : w'.library.Assembled e') (heq : w.datum e = w'.datum e') :
    e.kind = e'.kind := by
  rw [← h.kind_datum ha, heq, h'.kind_datum ha']

theorem nameWords_inj {name name' : String}
    (h : (if name = "" then [] else [Datum.word name]) =
      if name' = "" then [] else [Datum.word name']) : name = name' := by
  split at h
  · rename_i hname
    split at h
    · rename_i hname'
      rw [hname, hname']
    · cases h
  · split at h
    · cases h
    · exact Datum.word.inj (List.cons.inj h).1

theorem sameStructure_of_datum {w w' : World} {e e' : Expr} (h : e.Legible w) (h' : e'.Legible w')
    (ha : w.library.Assembled e) (ha' : w'.library.Assembled e') (heq : w.datum e = w'.datum e') :
    SameStructure w w' e e' := by
  induction h generalizing e' with
  | literal constant =>
    have hkind := (Expr.Legible.literal constant).kind_eq h' ha ha' heq
    cases h' with
    | literal constant' => exact .literal (Datum.word.inj heq)
    | read name' =>
      obtain ⟨rfl, c, rfl, hname⟩ := Store.slotText_eq_constantText name' constant
        (Datum.word.inj heq).symm
      exact .callableAndSlot name'.ne_empty hname.symm
    | _ => cases hkind
  | read name =>
    have hkind := (Expr.Legible.read name).kind_eq h' ha ha' heq
    cases h' with
    | literal constant' =>
      obtain ⟨rfl, c, rfl, hname⟩ := Store.slotText_eq_constantText name constant'
        (Datum.word.inj heq)
      exact .slotAndCallable name.ne_empty hname
    | read name' =>
      obtain ⟨hname, rfl⟩ := Outline.slotText_inj name name' (Datum.word.inj heq)
      exact .read hname
    | _ => cases hkind
  | write name stored ih =>
    have hkind := (Expr.Legible.write name stored).kind_eq h' ha ha' heq
    cases h' with
    | write name' stored' =>
      rw [World.datum_write, World.datum_write] at heq
      simp only [Datum.list.injEq, List.cons.injEq, Datum.word.injEq, true_and, and_true] at heq
      obtain ⟨hname, rfl⟩ := Outline.slotText_inj name name' heq.1
      exact .write hname (ih stored' (ha.child .value) (ha'.child .value) heq.2)
    | _ => cases hkind
  | ite condition whenTrue whenFalse ihc iht ihe =>
    have hkind := (Expr.Legible.ite condition whenTrue whenFalse).kind_eq h' ha ha' heq
    cases h' with
    | ite condition' whenTrue' whenFalse' =>
      rw [World.datum_ite, World.datum_ite] at heq
      simp only [Datum.list.injEq, List.cons.injEq, true_and, and_true] at heq
      exact .ite (ihc condition' (ha.child .condition) (ha'.child .condition) heq.1)
        (iht whenTrue' (ha.child .whenTrue) (ha'.child .whenTrue) heq.2.1)
        (ihe whenFalse' (ha.child .whenFalse) (ha'.child .whenFalse) heq.2.2)
    | _ => cases hkind
  | begin each ih =>
    have hkind := (Expr.Legible.begin each).kind_eq h' ha ha' heq
    cases h' with
    | begin each' =>
      rw [World.datum_begin, World.datum_begin] at heq
      obtain ⟨hlength, hzip⟩ := map_eq_map_iff_zip.1 (List.cons.inj (Datum.list.inj heq)).2
      refine .begin hlength fun p hp => ?_
      obtain ⟨hl, hr⟩ := List.of_mem_zip hp
      exact ih p.1 hl (each' p.2 hr) (ha.child (.item hl)) (ha'.child (.item hr)) (hzip p hp)
    | _ => cases hkind
  | @lambda id name params body ih =>
    have hkind := (Expr.Legible.lambda name params body).kind_eq h' ha ha' heq
    cases h' with
    | @lambda id' name' params' body' =>
      rw [World.datum_lambda ha, World.datum_lambda ha'] at heq
      obtain ⟨hname, hrest⟩ := List.append_inj' (List.cons.inj (Datum.list.inj heq)).2 rfl
      simp only [List.cons.injEq, Datum.list.injEq, and_true] at hrest
      have hparams := (List.map_inj_right fun _ _ => Datum.word.inj).1 hrest.1
      exact .lambda (nameWords_inj hname) hparams (ih body' ha.body ha'.body hrest.2)
    | _ => cases hkind
  | @apply callee args tail site called each ihc ih =>
    have hkind := (Expr.Legible.apply called each).kind_eq h' ha ha' heq
    cases h' with
    | apply called' each' =>
      obtain rfl : tail = _ := NodeKind.apply.inj hkind
      rw [World.datum_apply, World.datum_apply] at heq
      obtain ⟨hcallee, hargs⟩ := List.cons.inj (List.append_cancel_left (Datum.list.inj heq))
      obtain ⟨hlength, hzip⟩ := map_eq_map_iff_zip.1 hargs
      refine .apply (ihc called' (ha.child .callee) (ha'.child .callee) hcallee) hlength
        fun p hp => ?_
      obtain ⟨hl, hr⟩ := List.of_mem_zip hp
      exact ih p.1 hl (each' p.2 hr) (ha.child (.argument hl)) (ha'.child (.argument hr))
        (hzip p hp)
    | _ => cases hkind

/-- Trees whose names and constants are legible are printed alike exactly when they have the same
structure. -/
theorem printed_form_unambiguous (w w' : World) (e e' : Expr) (ha : w.library.Assembled e)
    (ha' : w'.library.Assembled e') (h : e.Legible w) (h' : e'.Legible w') :
    w.library.text w.store e = w'.library.text w'.store e' ↔ SameStructure w w' e e' := by
  rw [← String.toList_inj, w.toList_text, w'.toList_text,
    Datum.chars_inj (h.sound ha) (h'.sound ha')]
  exact ⟨sameStructure_of_datum h h' ha ha', fun hsame => hsame.datum_eq ha ha'⟩

def keepingTree (callee : Expr) : Build Expr := do
  let again ← Build.tailCall (.read ⟨0, "f"⟩ 1) [.read ⟨0, "x"⟩ 0]
  let inner ← Build.lambda "inner" [⟨0, "x"⟩] again ⟨#["x"]⟩
  let call ← Build.call callee [.literal (.int (-5)), .literal (.symbol "a^b")]
  Build.lambda "" [] (.begin [.write ⟨0, "f"⟩ 0 inner, call]) ⟨#["f"]⟩

theorem assembled_keepingTree {callee : Expr} (s : Store) (h : ∀ id, ¬ callee.Names (.code id)) :
    ((keepingTree callee).run { store := s }).2.library.Assembled
      ((keepingTree callee).run { store := s }).1 := by
  refine Library.Assembled.add (Library.Assembled.add (Library.assembled_empty ?again)
    fun id hid => ?inner) fun id hid => ?outer
  case again => exact fun id hid => by simpa using Expr.names_apply.1 hid
  case inner =>
    obtain rfl : id = ⟨0⟩ := by simpa [h] using Expr.names_begin.1 hid
    exact Nat.le_refl 0
  case outer =>
    obtain rfl := Object.code.inj (Expr.names_lambda.1 hid)
    exact Nat.le_refl 1

theorem legible_keepingTree {callee : Expr} {s : Store}
    (h : callee.Legible ((keepingTree callee).run { store := s }).2) :
    ((keepingTree callee).run { store := s }).1.Legible
      ((keepingTree callee).run { store := s }).2 := by
  have hf : LegibleName "f" := ⟨by decide, by simp, by decide⟩
  have hx : LegibleName "x" := ⟨by decide, by simp, by decide⟩
  have hinner : LegibleName "inner" := ⟨by decide, by simp, by decide⟩
  refine .lambda (fun hname => absurd rfl hname) (fun p hp => by cases hp) ?_
  refine .begin fun e he => ?_
  rcases List.mem_cons.1 he with rfl | he
  · refine .write hf (.lambda (fun _ => hinner) (fun p hp => ?_) ?_)
    · obtain rfl := List.mem_singleton.1 hp
      exact hx
    · refine .apply (.read hf) fun e he => ?_
      obtain rfl := List.mem_singleton.1 he
      exact .read hx
  · obtain rfl := List.mem_singleton.1 he
    refine .apply h fun e he => ?_
    simp only [List.mem_cons, List.not_mem_nil, or_false] at he
    rcases he with rfl | rfl
    · exact .literal trivial
    · exact .literal (show ∀ c ∈ "a^b".toList, c ∉ [' ', '(', ')'] by simp)

/-- The callee is a slot of the current frame in one tree, and a constant callable in the other. -/
theorem printed_form_unambiguous_keeping :
    ∃ slot callable : Expr × World,
      (keepingTree (.read ⟨0, "f"⟩ 0)).run {} = slot ∧
      (keepingTree (.literal (.closure ⟨⟨0⟩, none⟩))).run
        { store := { cells := #[⟨"f", .primitive .add, 0⟩] } } = callable ∧
      slot.2.library.text slot.2.store slot.1 =
        "(lambda () (begin (set! f (lambda inner (x) (tail f^1 x))) (f -5 'a^b)))" ∧
      SameStructure slot.2 callable.2 slot.1 callable.1 := by
  have hf : LegibleName "f" := ⟨by decide, by simp, by decide⟩
  refine ⟨_, _, rfl, rfl, by decide, (printed_form_unambiguous _ _ _ _ ?_ ?_ ?_ ?_).1 (by decide)⟩
  · exact assembled_keepingTree {} fun _ => Expr.names_read
  · exact assembled_keepingTree _ fun id hid => Value.not_names_code _ id (Expr.names_literal.1 hid)
  · exact legible_keepingTree (.read hf)
  · exact legible_keepingTree (.literal hf)

end TreeMachine
