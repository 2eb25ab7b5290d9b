import Mathlib.Data.Int.ModEq
import Mathlib.Data.List.Basic
import TreeMachine.Proofs.IntegerOverflow
import TreeMachine.Store.Lemmas

set_option autoImplicit false

namespace TreeMachine

theorem fitsWord_bmod (z : Int) : FitsWord (z.bmod (2 ^ 64)) :=
  (bmod_eq_self_iff_fitsWord _).1 (Int.bmod_bmod ..)

theorem eq_bmod_of_fitsWord {k z : Int} (hk : FitsWord k) (h : k ≡ z [ZMOD 2 ^ 64]) :
    k = z.bmod (2 ^ 64) := by
  have hmod : k % 2 ^ 64 = z % 2 ^ 64 := h
  simp only [FitsWord, Int.bmod_def] at hk ⊢
  split <;> omega

theorem sub_neg_iff_fitsWord (a b : Int64) :
    (decide ((a - b).toInt < 0) = decide (a.toInt < b.toInt)) ↔ FitsWord (a.toInt - b.toInt) := by
  have ha := a.le_toInt
  have hb := b.le_toInt
  have ha' := a.toInt_lt
  have hb' := b.toInt_lt
  rw [Int64.toInt_sub, decide_eq_decide]
  simp only [FitsWord, Int.bmod_def]
  split <;> omega

namespace Primitive

theorem apply_wrapping {op : Primitive} {a b : Int64} {r : Int}
    (h : op.exactResult? a.toInt b.toInt = some r) (sink : SinkId) (s : Store) :
    ∃ n : Int64, op.apply [.int a, .int b] .wrapping sink s = (.ok (.int n), s) ∧
      n.toInt = r.bmod (2 ^ 64) := by
  cases op with
  | add =>
    obtain rfl := Option.some.inj h
    exact ⟨a + b, rfl, Int64.toInt_add a b⟩
  | sub =>
    obtain rfl := Option.some.inj h
    exact ⟨a - b, rfl, Int64.toInt_sub a b⟩
  | mul =>
    obtain rfl := Option.some.inj h
    exact ⟨a * b, rfl, Int64.toInt_mul a b⟩
  | _ => cases h

theorem apply_lt (a b : Int64) (policy : Overflow) (sink : SinkId) (s : Store) :
    lt.apply [.int a, .int b] policy sink s = (.ok (.bool (decide (a.toInt < b.toInt))), s) := by
  simp [apply, intPair, Value.asInt, Except.map, Int64.lt_iff_toInt_lt]

end Primitive

/-- Arithmetic is exact up to the limits of a word, where it wraps or fails by name; comparison is
always exact. -/
theorem integer_primitives_exact (a b : Int64) (sink : SinkId) (s : Store) :
    (∀ (op : Primitive) (r : Int), op.exactResult? a.toInt b.toInt = some r →
      (∃ n : Int64, op.apply [.int a, .int b] .wrapping sink s = (.ok (.int n), s) ∧
        FitsWord n.toInt ∧ n.toInt ≡ r [ZMOD 2 ^ 64] ∧
        ∀ k, FitsWord k → k ≡ r [ZMOD 2 ^ 64] → k = n.toInt) ∧
      (FitsWord r → ∃ n : Int64,
        op.apply [.int a, .int b] .trapping sink s = (.ok (.int n), s) ∧ n.toInt = r) ∧
      (¬ FitsWord r → op.apply [.int a, .int b] .trapping sink s =
        (.error (.arithmeticOverflow op.name), s)) ∧
      ∀ v, (op.apply [.int a, .int b] .trapping sink s).1 = .ok v →
        op.apply [.int a, .int b] .wrapping sink s = op.apply [.int a, .int b] .trapping sink s) ∧
    (∀ policy, Primitive.lt.apply [.int a, .int b] policy sink s =
      (.ok (.bool (decide (a.toInt < b.toInt))), s)) ∧
    ((decide ((a - b).toInt < 0) = decide (a.toInt < b.toInt)) ↔
      FitsWord (a.toInt - b.toInt)) := by
  refine ⟨fun op r hr => ?_, fun policy => Primitive.apply_lt a b policy sink s,
    sub_neg_iff_fitsWord a b⟩
  obtain ⟨n, hwrap, hn⟩ := Primitive.apply_wrapping hr sink s
  have htrap := Primitive.apply_trapping hr sink s
  refine ⟨⟨n, hwrap, ?_, ?_, fun k hk hmod => ?_⟩, fun hfits => ⟨n, ?_, ?_⟩, fun hfits => ?_,
    fun v hv => ?_⟩
  · rw [hn]
    exact fitsWord_bmod r
  · rw [hn]
    exact Int.bmod_emod ..
  · rw [hn]
    exact eq_bmod_of_fitsWord hk hmod
  · rw [htrap, if_pos hfits, hwrap]
  · rw [hn, (bmod_eq_self_iff_fitsWord r).2 hfits]
  · rw [htrap, if_neg hfits]
  · by_cases hfits : FitsWord r
    · rw [htrap, if_pos hfits]
    · rw [htrap, if_neg hfits] at hv
      cases hv

/-- The product of the least integer and minus one does not fit: it wraps to the least integer, or
traps. The least integer is less than one, although the difference wraps to a positive word. -/
theorem integer_primitives_exact_least :
    Primitive.mul.exactResult? Int64.minValue.toInt (-1 : Int64).toInt = some (2 ^ 63) ∧
    (∃ n : Int64, n.toInt = -2 ^ 63 ∧
      Primitive.mul.apply [.int Int64.minValue, .int (-1)] .wrapping ⟨0⟩ {} = (.ok (.int n), {})) ∧
    Primitive.mul.apply [.int Int64.minValue, .int (-1)] .trapping ⟨0⟩ {} =
      (.error (.arithmeticOverflow "mul"), {}) ∧
    Primitive.lt.apply [.int Int64.minValue, .int 1] .wrapping ⟨0⟩ {} = (.ok (.bool true), {}) ∧
    0 < (Int64.minValue - 1).toInt := by
  have hexact : Primitive.mul.exactResult? Int64.minValue.toInt (-1 : Int64).toInt =
      some (2 ^ 63) := by decide
  obtain ⟨⟨n, hwrap, -, -, hunique⟩, -, htrap, -⟩ :=
    (integer_primitives_exact Int64.minValue (-1) ⟨0⟩ {}).1 .mul (2 ^ 63) hexact
  have hless := (integer_primitives_exact Int64.minValue 1 ⟨0⟩ {}).2.1 .wrapping
  exact ⟨hexact, ⟨n, (hunique (-2 ^ 63) (by decide) (by decide)).symm, hwrap⟩, htrap (by decide),
    hless, by decide⟩

namespace Value

theorem asInt_cases (v : Value) :
    (∃ n, v = .int n) ∨
      v.typeName ≠ "int" ∧ v.asInt = .error (.typeMismatch "int" v.typeName) := by
  cases v with
  | int n => exact .inl ⟨n, rfl⟩
  | _ => exact .inr ⟨by simp [typeName], rfl⟩

theorem asBox_cases (v : Value) :
    (∃ b, v = .box b) ∨
      v.typeName ≠ "box" ∧ v.asBox = .error (.typeMismatch "box" v.typeName) := by
  cases v with
  | box b => exact .inl ⟨b, rfl⟩
  | _ => exact .inr ⟨by simp [typeName], rfl⟩

end Value

namespace Primitive

/-- The types that an operation asks of its operands; some may be of any type. -/
def demands : Primitive → List (Option String)
  | add | sub | mul | lt => [some "int", some "int"]
  | eq => [none, none]
  | makeBox | println => [none]
  | unbox => [some "box"]
  | setBox => [some "box", none]

def offender? (op : Primitive) (args : List Value) : Option (Option String × Value) :=
  (op.demands.zip args).find? fun p => p.1.any (· ≠ p.2.typeName)

/-- The arguments are two integers with an exact result that does not fit a word. -/
def Overflows (op : Primitive) (args : List Value) : Prop :=
  ∃ (a b : Int64) (r : Int), args = [.int a, .int b] ∧
    op.exactResult? a.toInt b.toInt = some r ∧ ¬ FitsWord r

/-- What comes of an operation that has as many arguments as it takes. -/
inductive Verdict (op : Primitive) (args : List Value) (policy : Overflow) (s : Store) :
    Except Cause Value × Store → Prop where
  | mismatch {expected : String} {v : Value}
      (offender : op.offender? args = some (some expected, v)) :
      Verdict op args policy s (.error (.typeMismatch expected v.typeName), s)
  | overflow (fits : op.offender? args = none) (trapping : policy = .trapping)
      (overflows : op.Overflows args) :
      Verdict op args policy s (.error (.arithmeticOverflow op.name), s)
  | success {v : Value} {t : Store} (fits : op.offender? args = none)
      (room : policy = .trapping → ¬ op.Overflows args) : Verdict op args policy s (.ok v, t)

theorem apply_of_length_ne {op : Primitive} {args : List Value} (h : args.length ≠ op.arity)
    (policy : Overflow) (sink : SinkId) (s : Store) :
    op.apply args policy sink s = (.error (.arityMismatch op.name op.arity args.length), s) := by
  unfold apply
  split
  case h_10 => rfl
  all_goals exact absurd rfl h

theorem not_overflows_of_exactResult? {op : Primitive} (h : ∀ a b, op.exactResult? a b = none)
    (args : List Value) : ¬ op.Overflows args := by
  rintro ⟨a, b, r, -, hr, -⟩
  rw [h] at hr
  cases hr

theorem intPair_cases (a b : Value) :
    (∃ m n, a = .int m ∧ b = .int n) ∨
      ∃ v, [(some "int", a), (some "int", b)].find? (fun p => p.1.any (· ≠ p.2.typeName)) =
          some (some "int", v) ∧
        intPair a b = .error (.typeMismatch "int" v.typeName) := by
  rcases a.asInt_cases with ⟨m, rfl⟩ | ⟨ha, ha'⟩
  · rcases b.asInt_cases with ⟨n, rfl⟩ | ⟨hb, hb'⟩
    · exact .inl ⟨m, n, rfl, rfl⟩
    · have hm : (Value.int m).typeName = "int" := rfl
      have hm' : (Value.int m).asInt = .ok m := rfl
      refine .inr ⟨b, ?_, ?_⟩
      · simp [hm, Ne.symm hb]
      · simp [intPair, hm', hb']
  · refine .inr ⟨a, ?_, ?_⟩
    · simp [Ne.symm ha]
    · simp [intPair, ha']

theorem overflows_iff {op : Primitive} {a b : Int64} {r : Int}
    (h : op.exactResult? a.toInt b.toInt = some r) :
    op.Overflows [.int a, .int b] ↔ ¬ FitsWord r := by
  constructor
  · rintro ⟨a', b', r', hargs, hr, hfits⟩
    simp only [List.cons.injEq, Value.int.injEq, and_true] at hargs
    obtain ⟨rfl, rfl⟩ := hargs
    obtain rfl := Option.some.inj (h.symm.trans hr)
    exact hfits
  · intro hfits
    exact ⟨a, b, r, rfl, h, hfits⟩

theorem offender?_of_exactResult? {op : Primitive} {a b : Int64} {r : Int}
    (h : op.exactResult? a.toInt b.toInt = some r) : op.offender? [.int a, .int b] = none := by
  cases op with
  | add | sub | mul => rfl
  | _ => cases h

namespace Overflows

variable {op : Primitive} {args : List Value}

theorem length (h : op.Overflows args) : args.length = op.arity := by
  obtain ⟨a, b, r, rfl, hr, -⟩ := h
  exact (arity_of_exactResult? hr).symm

theorem offender? (h : op.Overflows args) : op.offender? args = none := by
  obtain ⟨a, b, r, rfl, hr, -⟩ := h
  exact offender?_of_exactResult? hr

end Overflows

theorem verdict_arith {op : Primitive} {policy : Overflow} {sink : SinkId} {s : Store}
    (hexact : ∀ a b, ∃ r, op.exactResult? a b = some r)
    (hdemands : op.demands = [some "int", some "int"])
    (hmisfit : ∀ a b cause, intPair a b = .error cause →
      op.apply [a, b] policy sink s = (.error cause, s)) (a b : Value) :
    op.Verdict [a, b] policy s (op.apply [a, b] policy sink s) := by
  rcases intPair_cases a b with ⟨m, n, rfl, rfl⟩ | ⟨v, hv, hpair⟩
  · obtain ⟨r, hr⟩ := hexact m.toInt n.toInt
    obtain ⟨k, hwrap, -⟩ := apply_wrapping hr sink s
    have hoverflows := overflows_iff hr
    have hfits := offender?_of_exactResult? hr
    cases policy with
    | wrapping =>
      rw [hwrap]
      exact .success hfits fun h => by cases h
    | trapping =>
      rw [apply_trapping hr]
      split
      · rename_i hr'
        rw [hwrap]
        exact .success hfits fun _ h => hoverflows.1 h hr'
      · rename_i hr'
        exact .overflow hfits rfl (hoverflows.2 hr')
  · rw [hmisfit a b _ hpair]
    refine .mismatch ?_
    rw [offender?, hdemands]
    exact hv

theorem verdict_apply {op : Primitive} {args : List Value} (hlength : args.length = op.arity)
    (policy : Overflow) (sink : SinkId) (s : Store) :
    op.Verdict args policy s (op.apply args policy sink s) := by
  -- Only three operations have an exact result, so the others leave no room for an overflow.
  cases op with
  | add | sub | mul =>
    obtain ⟨a, b, rfl⟩ := List.length_eq_two.1 hlength
    refine verdict_arith (fun _ _ => ⟨_, rfl⟩) rfl (fun a b cause h => ?_) a b
    simp only [apply, Overflow.arith, h]
  | lt =>
    obtain ⟨a, b, rfl⟩ := List.length_eq_two.1 hlength
    rcases intPair_cases a b with ⟨m, n, rfl, rfl⟩ | ⟨v, hv, hpair⟩
    · rw [apply_lt]
      exact .success rfl fun _ => not_overflows_of_exactResult? (fun _ _ => rfl) _
    · simp only [apply, hpair]
      exact .mismatch hv
  | eq =>
    obtain ⟨a, b, rfl⟩ := List.length_eq_two.1 hlength
    exact .success rfl fun _ => not_overflows_of_exactResult? (fun _ _ => rfl) _
  | makeBox | println =>
    obtain ⟨v, rfl⟩ := List.length_eq_one_iff.1 hlength
    exact .success rfl fun _ => not_overflows_of_exactResult? (fun _ _ => rfl) _
  | unbox =>
    obtain ⟨v, rfl⟩ := List.length_eq_one_iff.1 hlength
    rcases v.asBox_cases with ⟨b, rfl⟩ | ⟨hv, hv'⟩
    · exact .success rfl fun _ => not_overflows_of_exactResult? (fun _ _ => rfl) _
    · simp only [apply, hv']
      exact .mismatch (by simp [offender?, demands, Ne.symm hv])
  | setBox =>
    obtain ⟨v, w, rfl⟩ := List.length_eq_two.1 hlength
    rcases v.asBox_cases with ⟨b, rfl⟩ | ⟨hv, hv'⟩
    · exact .success rfl fun _ => not_overflows_of_exactResult? (fun _ _ => rfl) _
    · simp only [apply, hv']
      exact .mismatch (by simp [offender?, demands, Ne.symm hv])

section Failures

variable {op : Primitive} {args : List Value} {policy : Overflow} {sink : SinkId} {s : Store}

theorem apply_eq_arityMismatch_iff {name : String} {expected got : Nat} :
    (op.apply args policy sink s).1 = .error (.arityMismatch name expected got) ↔
      args.length ≠ op.arity ∧ name = op.name ∧ expected = op.arity ∧ got = args.length := by
  by_cases hlength : args.length = op.arity
  · have hverdict := verdict_apply hlength policy sink s
    generalize op.apply args policy sink s = out at hverdict ⊢
    cases hverdict with
    | _ => simp [hlength]
  · simp [apply_of_length_ne hlength, hlength, eq_comm]

theorem apply_eq_typeMismatch_iff (hlength : args.length = op.arity) {expected got : String} :
    (op.apply args policy sink s).1 = .error (.typeMismatch expected got) ↔
      ∃ v, op.offender? args = some (some expected, v) ∧ got = v.typeName := by
  have hverdict := verdict_apply hlength policy sink s
  generalize op.apply args policy sink s = out at hverdict ⊢
  cases hverdict with
  | @mismatch expected' v offender =>
    rw [offender]
    constructor
    · intro h
      cases h
      exact ⟨v, rfl, rfl⟩
    · rintro ⟨v', h, rfl⟩
      cases h
      rfl
  | overflow fits => simp [fits]
  | success fits => simp [fits]

theorem apply_eq_arithmeticOverflow_iff {operation : String} :
    (op.apply args policy sink s).1 = .error (.arithmeticOverflow operation) ↔
      policy = .trapping ∧ op.Overflows args ∧ operation = op.name := by
  by_cases hlength : args.length = op.arity
  · have hverdict := verdict_apply hlength policy sink s
    generalize op.apply args policy sink s = out at hverdict ⊢
    cases hverdict with
    | mismatch offender =>
      have hroom : ¬ op.Overflows args := by
        intro h
        rw [h.offender?] at offender
        cases offender
      simp [hroom]
    | overflow fits trapping overflows => simp [trapping, overflows, eq_comm]
    | success fits room =>
      constructor
      · intro h
        cases h
      · rintro ⟨htrap, h, -⟩
        exact absurd h (room htrap)
  · have hroom : ¬ op.Overflows args := fun h => hlength h.length
    simp [apply_of_length_ne hlength, hroom]

theorem apply_eq_error {cause : Cause} (h : (op.apply args policy sink s).1 = .error cause) :
    (op.apply args policy sink s).2 = s ∧
      ((∃ name expected got, cause = .arityMismatch name expected got) ∨
        (∃ expected got, cause = .typeMismatch expected got) ∨
        ∃ operation, cause = .arithmeticOverflow operation) := by
  by_cases hlength : args.length = op.arity
  · have hverdict := verdict_apply hlength policy sink s
    generalize op.apply args policy sink s = out at hverdict h ⊢
    cases hverdict with
    | mismatch => exact ⟨rfl, .inr (.inl ⟨_, _, (Except.error.inj h).symm⟩)⟩
    | overflow => exact ⟨rfl, .inr (.inr ⟨_, (Except.error.inj h).symm⟩)⟩
    | success => cases h
  · rw [apply_of_length_ne hlength] at h ⊢
    exact ⟨rfl, .inl ⟨_, _, _, (Except.error.inj h).symm⟩⟩

theorem apply_setBox {v : Value} (h : (setBox.apply args policy sink s).1 = .ok v) :
    ∃ b w, args = [.box b, w] ∧ (setBox.apply args policy sink s).2 = s.setBox b w := by
  by_cases hlength : args.length = setBox.arity
  · obtain ⟨u, w, rfl⟩ := List.length_eq_two.1 hlength
    rcases u.asBox_cases with ⟨b, rfl⟩ | ⟨-, hu⟩
    · exact ⟨b, w, rfl, rfl⟩
    · simp [apply, hu] at h
  · rw [apply_of_length_ne hlength] at h
    cases h

theorem apply_println {v : Value} (h : (println.apply args policy sink s).1 = .ok v) :
    ∃ u, args = [u] ∧ (println.apply args policy sink s).2 = s.println sink (s.text u) := by
  by_cases hlength : args.length = println.arity
  · obtain ⟨u, rfl⟩ := List.length_eq_one_iff.1 hlength
    exact ⟨u, rfl, rfl⟩
  · rw [apply_of_length_ne hlength] at h
    cases h

end Failures

theorem store_of_apply {op : Primitive} (hset : op ≠ setBox) (hprint : op ≠ println)
    (args : List Value) (policy : Overflow) (sink : SinkId) (s : Store) :
    (op.apply args policy sink s).2 = s ∨
      op = makeBox ∧ ∃ v, (op.apply args policy sink s).2 = (s.addBox v).2 := by
  unfold apply
  split
  case h_6 v => exact .inr ⟨rfl, v, rfl⟩
  case h_7 v => cases v.asBox <;> exact .inl rfl
  case h_8 => exact absurd rfl hset
  case h_9 => exact absurd rfl hprint
  all_goals exact .inl rfl

end Primitive

namespace Store

structure SetsBox (s t : Store) (b : BoxId) (v : Value) : Prop where
  value : b.index < s.boxes.size → t.box b = v
  other : ∀ id, id ≠ b → t.box id = s.box id
  size : t.boxes.size = s.boxes.size
  rest : { t with boxes := s.boxes } = s

structure PrintsLine (s t : Store) (sink : SinkId) (line : String) : Prop where
  buffer : ∀ text, s.sink sink = .buffer text → t.sink sink = .buffer (text ++ line ++ "\n")
  console : ∀ lines, s.sink sink = .console lines → t.sink sink = .console (lines ++ line ++ "\n")
  silent : s.sink sink = .silent → t.sink sink = .silent
  other : ∀ id, id ≠ sink → t.sink id = s.sink id
  size : t.sinks.size = s.sinks.size
  rest : { t with sinks := s.sinks } = s

structure KeepsAll (s t : Store) : Prop where
  box : ∀ id : BoxId, id.index < s.boxes.size → t.box id = s.box id
  rest : { t with boxes := s.boxes } = s

theorem setsBox_setBox (s : Store) (b : BoxId) (v : Value) : s.SetsBox (s.setBox b v) b v := by
  constructor
  case value =>
    intro hlt
    rw [box_setBox, if_pos ⟨rfl, hlt⟩]
  case other =>
    intro id hid
    rw [box_setBox, if_neg]
    rintro ⟨hindex, -⟩
    exact hid (congrArg BoxId.mk hindex.symm)
  case size => simp [setBox]
  case rest => rfl

theorem printsLine_println (s : Store) (sink : SinkId) (line : String) :
    s.PrintsLine (s.println sink line) sink line := by
  have hsink : (s.println sink line).sink sink = (s.sink sink).println line := by
    rw [sink_println_eq, if_pos rfl]
  constructor
  case buffer =>
    intro text h
    rw [hsink, h]
    rfl
  case console =>
    intro lines h
    rw [hsink, h]
    rfl
  case silent =>
    intro h
    rw [hsink, h]
    rfl
  case other =>
    intro id hid
    rw [sink_println_eq, if_neg hid]
  case size => simp [println]
  case rest => rfl

theorem keepsAll_addBox (s : Store) (v : Value) : s.KeepsAll (s.addBox v).2 := by
  refine ⟨fun id hid => ?_, rfl⟩
  rw [box_addBox, if_neg (Nat.ne_of_lt hid)]

end Store

/-- An operation fails in one of three ways, told by its arguments, and then changes nothing; else
it sets a box, prints a line or only adds. -/
theorem primitive_failures_exact (op : Primitive) (args : List Value) (policy : Overflow)
    (sink : SinkId) (s : Store) :
    let out := op.apply args policy sink s
    (∀ name expected got, out.1 = .error (.arityMismatch name expected got) ↔
      args.length ≠ op.arity ∧ name = op.name ∧ expected = op.arity ∧ got = args.length) ∧
    (args.length = op.arity → ∀ expected got, out.1 = .error (.typeMismatch expected got) ↔
      ∃ v, op.offender? args = some (some expected, v) ∧ got = v.typeName) ∧
    (∀ operation, out.1 = .error (.arithmeticOverflow operation) ↔
      policy = .trapping ∧ op.Overflows args ∧ operation = op.name) ∧
    (op = .eq ∨ op = .makeBox ∨ op = .println → args.length = op.arity → ∃ v, out.1 = .ok v) ∧
    (∀ cause, out.1 = .error cause → out.2 = s ∧
      ((∃ name expected got, cause = .arityMismatch name expected got) ∨
        (∃ expected got, cause = .typeMismatch expected got) ∨
        ∃ operation, cause = .arithmeticOverflow operation)) ∧
    (∀ v, out.1 = .ok v → op = .setBox → ∃ b w, args = [.box b, w] ∧ s.SetsBox out.2 b w) ∧
    (∀ v, out.1 = .ok v → op = .println → ∃ u, args = [u] ∧ s.PrintsLine out.2 sink (s.text u)) ∧
    (op ≠ .setBox → op ≠ .println →
      s.KeepsAll out.2 ∧ (op ≠ .makeBox → out.2 = s)) := by
  intro out
  refine ⟨fun _ _ _ => Primitive.apply_eq_arityMismatch_iff,
    fun hlength _ _ => Primitive.apply_eq_typeMismatch_iff hlength,
    fun _ => Primitive.apply_eq_arithmeticOverflow_iff, fun hop hlength => ?_,
    fun _ h => Primitive.apply_eq_error h, ?_, ?_, fun hset hprint => ?_⟩
  · obtain rfl | rfl | rfl := hop
    · obtain ⟨a, b, rfl⟩ := List.length_eq_two.1 hlength
      exact ⟨_, rfl⟩
    · obtain ⟨a, rfl⟩ := List.length_eq_one_iff.1 hlength
      exact ⟨_, rfl⟩
    · obtain ⟨a, rfl⟩ := List.length_eq_one_iff.1 hlength
      exact ⟨_, rfl⟩
  · rintro v h rfl
    obtain ⟨b, w, rfl, hstore⟩ := Primitive.apply_setBox h
    refine ⟨b, w, rfl, ?_⟩
    rw [hstore]
    exact s.setsBox_setBox b w
  · rintro v h rfl
    obtain ⟨u, rfl, hstore⟩ := Primitive.apply_println h
    refine ⟨u, rfl, ?_⟩
    rw [hstore]
    exact s.printsLine_println sink _
  · obtain hsame | ⟨rfl, v, hadd⟩ := Primitive.store_of_apply hset hprint args policy sink s
    · rw [hsame]
      exact ⟨⟨fun _ _ => rfl, rfl⟩, fun _ => rfl⟩
    · rw [hadd]
      exact ⟨s.keepsAll_addBox v, fun h => absurd rfl h⟩

/-- A box is set to itself, and the box beside it stays. A sum of a box and a boolean fails of the
box, and changes nothing. -/
theorem primitive_failures_exact_knot :
    let s : Store := { boxes := #[.unit, .int 7] }
    let tied := Primitive.setBox.apply [.box ⟨0⟩, .box ⟨0⟩] .trapping ⟨0⟩ s
    let sum := Primitive.add.apply [.box ⟨0⟩, .bool true] .trapping ⟨0⟩ s
    tied.1 = .ok .unit ∧ tied.2.box ⟨0⟩ = .box ⟨0⟩ ∧ tied.2.box ⟨1⟩ = .int 7 ∧
    sum.1 = .error (.typeMismatch "int" "box") ∧ sum.2 = s := by
  intro s tied sum
  obtain ⟨-, -, -, -, -, hset, -⟩ :=
    primitive_failures_exact .setBox [.box ⟨0⟩, .box ⟨0⟩] .trapping ⟨0⟩ s
  obtain ⟨b, w, hargs, hchange⟩ := hset .unit rfl rfl
  cases hargs
  obtain ⟨-, htype, -, -, hfail, -⟩ :=
    primitive_failures_exact .add [.box ⟨0⟩, .bool true] .trapping ⟨0⟩ s
  have hsum := (htype rfl "int" "box").2 ⟨.box ⟨0⟩, rfl, rfl⟩
  exact ⟨rfl, hchange.value (by decide), hchange.other ⟨1⟩ (by decide), hsum, (hfail _ hsum).1⟩

end TreeMachine
