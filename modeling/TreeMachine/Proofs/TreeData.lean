import TreeMachine.Outline
import TreeMachine.Proofs.Reachability
import TreeMachine.Proofs.WrittenData

set_option autoImplicit false

namespace TreeMachine

namespace Outline

mutual

/-- The words and lists that an outline is printed as. -/
def datum : Outline → Datum
  | constant text => .word text
  | read slot depth => .word (slotText slot depth)
  | write slot depth value => .list [.word "set!", .word (slotText slot depth), value.datum]
  | ite c t e => .list [.word "if", c.datum, t.datum, e.datum]
  | begin items => .list (.word "begin" :: data items)
  | lambda name params body =>
    .list (.word "lambda" :: ((if name = "" then [] else [.word name]) ++
      [.list (params.map .word), body.datum]))
  | apply callee args tail =>
    .list ((if tail then [.word "tail"] else []) ++ callee.datum :: data args)

def data : List Outline → List Datum
  | [] => []
  | o :: os => o.datum :: data os

end

theorem data_eq_map (os : List Outline) : data os = os.map datum := by
  induction os with
  | nil => rfl
  | cons o os ih => simp [data, ih]

theorem toList_intercalate_cons (name : String) (names : List String) :
    (" ".intercalate (name :: names)).toList ++ [')'] =
      name.toList ++ Datum.moreChars (names.map .word) := by
  induction names generalizing name with
  | nil => simp [Datum.moreChars]
  | cons next names ih =>
    simpa [String.intercalate_cons_cons, Datum.moreChars, Datum.chars] using ih next

theorem toList_intercalate_blank (names : List String) :
    (" ".intercalate names).toList ++ [')'] = Datum.itemChars (names.map .word) := by
  cases names with
  | nil => simp [Datum.itemChars]
  | cons name names => exact toList_intercalate_cons name names

mutual

theorem toList_text : ∀ o : Outline, o.text.toList = o.datum.chars
  | constant text => rfl
  | read slot depth => rfl
  | write slot depth value => by
    simp [text, datum, Datum.chars, Datum.itemChars, Datum.moreChars, toList_text value]
  | ite c t e => by
    simp [text, datum, Datum.chars, Datum.itemChars, Datum.moreChars, toList_text c, toList_text t,
      toList_text e]
  | begin items => by
    simp [text, datum, Datum.chars, Datum.itemChars, toList_spacedTexts items]
  | lambda name params body => by
    have hparams := toList_intercalate_blank params
    by_cases hname : name = ""
    · simp [text, datum, hname, Datum.chars, Datum.itemChars, Datum.moreChars, toList_text body,
        ← hparams]
    · simp [text, datum, hname, Datum.chars, Datum.itemChars, Datum.moreChars, toList_text body,
        ← hparams]
  | apply callee args tail => by
    have hargs := toList_spacedTexts args
    cases tail with
    | false => simp [text, datum, Datum.chars, Datum.itemChars, toList_text callee, hargs]
    | true =>
      simp [text, datum, Datum.chars, Datum.itemChars, Datum.moreChars, toList_text callee, hargs]

theorem toList_spacedTexts : ∀ os : List Outline,
    (spacedTexts os).toList ++ [')'] = Datum.moreChars (data os)
  | [] => rfl
  | o :: os => by
    simp [spacedTexts, data, Datum.moreChars, toList_text o, toList_spacedTexts os]

end

end Outline

namespace Expr

theorem outlinesWith_eq_map (s : Store) (f : CodeId → Outline) (es : List Expr) :
    outlinesWith s f es = es.map (outlineWith s f) := by
  induction es with
  | nil => rfl
  | cons e es ih => simp [outlinesWith, ih]

mutual

theorem outlineWith_congr {s : Store} {f g : CodeId → Outline} : ∀ e : Expr,
    (∀ id, e.Names (.code id) → f id = g id) → e.outlineWith s f = e.outlineWith s g
  | .literal v, _ => rfl
  | .read slot depth, _ => rfl
  | .write slot depth value, h => by
    simp only [outlineWith, outlineWith_congr value fun id hid => h id (hid.of_child .value)]
  | .ite c t e, h => by
    simp only [outlineWith, outlineWith_congr c fun id hid => h id (hid.of_child .condition),
      outlineWith_congr t fun id hid => h id (hid.of_child .whenTrue),
      outlineWith_congr e fun id hid => h id (hid.of_child .whenFalse)]
  | .begin items, h => by
    simp only [outlineWith,
      outlinesWith_congr items fun e he id hid => h id (hid.of_child (.item he))]
  | .lambda code, h => h code (names_lambda.2 rfl)
  | .apply callee args tail site, h => by
    simp only [outlineWith, outlineWith_congr callee fun id hid => h id (hid.of_child .callee),
      outlinesWith_congr args fun e he id hid => h id (hid.of_child (.argument he))]

theorem outlinesWith_congr {s : Store} {f g : CodeId → Outline} : ∀ es : List Expr,
    (∀ e ∈ es, ∀ id, e.Names (.code id) → f id = g id) → outlinesWith s f es = outlinesWith s g es
  | [], _ => rfl
  | e :: es, h => by
    simp only [outlinesWith, outlineWith_congr e (h e (by simp)),
      outlinesWith_congr es fun e he => h e (by simp [he])]

end

end Expr

namespace Library

/-- The codes of a tree are in the library, and the codes within a body come before its own. -/
structure Assembled (l : Library) (e : Expr) : Prop where
  known : ∀ id, e.Names (.code id) → id.index < l.codes.size
  earlier : ∀ id j, (l.code id).body.Names (.code j) → j.index < id.index

namespace Assembled

variable {l : Library} {e whole : Expr}

theorem child (h : l.Assembled whole) (hchild : Expr.Child e whole) : l.Assembled e :=
  ⟨fun id hid => h.known id (hid.of_child hchild), h.earlier⟩

theorem body {id : CodeId} (h : l.Assembled (.lambda id)) : l.Assembled (l.code id).body := by
  refine ⟨fun j hj => ?_, h.earlier⟩
  exact Nat.lt_trans (h.earlier id j hj) (h.known id (Expr.names_lambda.2 rfl))

theorem add {c : Code} (h : l.Assembled c.body)
    (he : ∀ id, e.Names (.code id) → id.index ≤ l.codes.size) : (l.add c).2.Assembled e := by
  have hcode : ∀ id, (l.add c).2.code id = if id.index = l.codes.size then c else l.code id :=
    fun id => getD_push ..
  refine ⟨fun id hid => ?_, fun id j hj => ?_⟩
  · have hle := he id hid
    simp only [Library.add, Array.size_push]
    omega
  · rw [hcode] at hj
    split at hj
    · rename_i hid
      exact hid ▸ h.known j hj
    · exact h.earlier id j hj

end Assembled

theorem assembled_empty {e : Expr} (h : ∀ id, ¬ e.Names (.code id)) :
    ({} : Library).Assembled e := by
  refine ⟨fun id hid => absurd hid (h id), fun id j hj => ?_⟩
  obtain ⟨e, hmem, -⟩ := Expr.names_begin.1 hj
  cases hmem

/-- How many codes may be unfolded does not matter, when it is enough. -/
theorem lambdaOutline_of_lt {l : Library} (s : Store)
    (h : ∀ id j, (l.code id).body.Names (.code j) → j.index < id.index) (id : CodeId) {a b : Nat}
    (ha : id.index < a) (hb : id.index < b) : l.lambdaOutline s a id = l.lambdaOutline s b id := by
  induction hn : id.index using Nat.strongRecOn generalizing id a b with
  | ind n ih =>
    obtain ⟨a, rfl⟩ := Nat.exists_eq_add_one_of_ne_zero (Nat.ne_zero_of_lt ha)
    obtain ⟨b, rfl⟩ := Nat.exists_eq_add_one_of_ne_zero (Nat.ne_zero_of_lt hb)
    simp only [lambdaOutline]
    congr 1
    refine Expr.outlineWith_congr _ fun j hj => ?_
    have hlt := h id j hj
    exact ih j.index (by omega) j (by omega) (by omega) rfl

end Library

namespace World

def datum (w : World) (e : Expr) : Datum := (w.library.outline w.store e).datum

variable (w : World)

theorem toList_text (e : Expr) : (w.library.text w.store e).toList = (w.datum e).chars :=
  Outline.toList_text _

theorem datum_literal (v : Value) : w.datum (.literal v) = .word (w.store.constantText v) := rfl

theorem datum_read (slot : SlotId) (depth : Nat) :
    w.datum (.read slot depth) = .word (Outline.slotText slot.name depth) := rfl

theorem datum_write (slot : SlotId) (depth : Nat) (value : Expr) :
    w.datum (.write slot depth value) =
      .list [.word "set!", .word (Outline.slotText slot.name depth), w.datum value] := rfl

theorem datum_ite (c t e : Expr) :
    w.datum (.ite c t e) = .list [.word "if", w.datum c, w.datum t, w.datum e] := rfl

theorem datum_begin (items : List Expr) :
    w.datum (.begin items) = .list (.word "begin" :: items.map w.datum) := by
  simp only [datum, Library.outline, Expr.outlineWith, Outline.datum, Outline.data_eq_map,
    Expr.outlinesWith_eq_map, List.map_map]
  rfl

theorem datum_apply (callee : Expr) (args : List Expr) (tail : Bool) (site : SiteId) :
    w.datum (.apply callee args tail site) =
      .list ((if tail then [.word "tail"] else []) ++ w.datum callee :: args.map w.datum) := by
  simp only [datum, Library.outline, Expr.outlineWith, Outline.datum, Outline.data_eq_map,
    Expr.outlinesWith_eq_map, List.map_map]
  rfl

variable {w}

theorem datum_lambda {id : CodeId} (h : w.library.Assembled (.lambda id)) :
    w.datum (.lambda id) =
      .list (.word "lambda" ::
        ((if (w.library.code id).name = "" then [] else [.word (w.library.code id).name]) ++
          [.list (((w.library.code id).params.map SlotId.name).map .word),
            w.datum (w.library.code id).body])) := by
  have hlt := h.known id (Expr.names_lambda.2 rfl)
  obtain ⟨bound, hbound⟩ := Nat.exists_eq_add_one_of_ne_zero (Nat.ne_zero_of_lt hlt)
  have hbody : (w.library.code id).body.outlineWith w.store (w.library.lambdaOutline w.store bound)
      = w.library.outline w.store (w.library.code id).body := by
    refine Expr.outlineWith_congr _ fun j hj => ?_
    have hj := h.earlier id j hj
    exact w.library.lambdaOutline_of_lt w.store h.earlier j (by omega) (by omega)
  have houtline : w.library.outline w.store (.lambda id) =
      .lambda (w.library.code id).name ((w.library.code id).params.map SlotId.name)
        (w.library.outline w.store (w.library.code id).body) := by
    rw [← hbody, Library.outline, hbound]
    rfl
  simp only [datum, houtline, Outline.datum]

end World

end TreeMachine
