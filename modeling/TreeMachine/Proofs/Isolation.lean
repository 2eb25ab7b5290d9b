import TreeMachine.Proofs.RecursionLimit
import TreeMachine.Proofs.Reachability

set_option autoImplicit false

namespace TreeMachine

open Machine

/-- The store `b` has come from `a` by changes within `K`, which `b` leads nowhere out of. -/
structure Store.Confined (library : Library) (a : Store) (K : Object → Prop) (b : Store) :
    Prop where
  grows : a.Grows b
  closed : ∀ x y, K x → b.Points library x y → K y
  frame : ∀ id, b.frame id = a.frame id ∨ K (.frame id)
  box : ∀ id, b.box id = a.box id ∨ K (.box id)
  site : ∀ id, b.site id = a.site id ∨ K (.site id)

namespace Store.Confined

variable {library : Library} {a b c : Store} {K : Object → Prop}

theorem change (h : a.Confined library K b) (hg : b.Grows c)
    (hpoints : ∀ x y, c.Points library x y → b.Points library x y ∨ K y)
    (hframe : ∀ id, c.frame id = b.frame id ∨ K (.frame id))
    (hbox : ∀ id, c.box id = b.box id ∨ K (.box id))
    (hsite : ∀ id, c.site id = b.site id ∨ K (.site id)) : a.Confined library K c := by
  refine ⟨h.grows.trans hg, fun x y hx hxy => ?_, fun id => ?_, fun id => ?_, fun id => ?_⟩
  · rcases hpoints x y hxy with hold | hy
    · exact h.closed x y hx hold
    · exact hy
  · rcases hframe id with hsame | hk
    · exact hsame ▸ h.frame id
    · exact .inr hk
  · rcases hbox id with hsame | hk
    · exact hsame ▸ h.box id
    · exact .inr hk
  · rcases hsite id with hsame | hk
    · exact hsame ▸ h.site id
    · exact .inr hk

theorem putBox (h : a.Confined library K b) (hg : b.Grows c) {v : Value}
    (hv : ∀ x, v.Names x → K x) (hframe : ∀ id, c.frame id = b.frame id)
    (hcell : ∀ id, c.cell id = b.cell id) (hsite : ∀ id, c.site id = b.site id)
    (hbox : ∀ id, c.box id = b.box id ∨ c.box id = v ∧ K (.box id)) : a.Confined library K c := by
  refine h.change hg (fun x y hxy => ?_) (fun id => .inl (hframe id)) (fun id => ?_)
    fun id => .inl (hsite id)
  · rcases points_of_box hframe hcell (fun id => (hbox id).imp_right And.left) hxy with hold | hy
    · exact .inl hold
    · exact .inr (hv y hy)
  · exact (hbox id).imp_right And.right

theorem addCell (h : a.Confined library K b) {cell : FunctionCell} {id : CodeId}
    (hcell : cell.target = .lambda id) (hid : K (.code id)) :
    a.Confined library K (b.addCell cell).2 := by
  refine h.change (grows_change (.addCell cell)) (fun x y hxy => ?_) (fun _ => .inl rfl)
    (fun _ => .inl rfl) fun _ => .inl rfl
  rcases points_addCell hxy with hold | ⟨id', hid', rfl⟩
  · exact .inl hold
  · obtain rfl := Target.lambda.inj (hcell.symm.trans hid')
    exact .inr hid

theorem addFrame (h : a.Confined library K b) {frame : Frame} (hnew : K (.frame ⟨b.frames.size⟩))
    (hparent : ∀ g, frame.parent = some g → K (.frame g))
    (hslots : ∀ v, frame.Contains v → ∀ x, v.Names x → K x) :
    a.Confined library K (b.addFrame frame).2 := by
  refine h.change (grows_change (.addFrame frame)) (fun x y hxy => ?_) (fun id => ?_)
    (fun _ => .inl rfl) fun _ => .inl rfl
  · rcases points_addFrame hxy with hold | ⟨g, hg, rfl⟩ | ⟨v, hv, hy⟩
    · exact .inl hold
    · exact .inr (hparent g hg)
    · exact .inr (hslots v hv y hy)
  · rw [frame_addFrame]
    split
    · rename_i hid
      obtain rfl : id = ⟨b.frames.size⟩ := congrArg FrameId.mk hid
      exact .inr hnew
    · exact .inl rfl

theorem write (h : a.Confined library K b) {f : FrameId} {slot : SlotId} {depth : Nat} {v : Value}
    (hf : K (.frame f)) (hv : ∀ x, v.Names x → K x) (hw : b.write f slot depth v = .ok c) :
    a.Confined library K c := by
  have hg := grows_change (.write hw)
  obtain ⟨target, frame, htarget, hframe, rfl⟩ := write_eq_ok hw
  refine h.change hg (fun x y hxy => ?_) (fun id => ?_) (fun _ => .inl rfl) fun _ => .inl rfl
  · rcases points_setFrame hframe hxy with hold | hy
    · exact .inl hold
    · exact .inr (hv y hy)
  · rw [frame_setFrame]
    split
    · rename_i hid
      obtain rfl : target = id := congrArg FrameId.mk hid.1
      exact .inr (ancestor_of_closed h.closed hf htarget)
    · exact .inl rfl

theorem setSite (h : a.Confined library K b) {id : SiteId} (hid : K (.site id)) (site : CallSite) :
    a.Confined library K (b.setSite id site) := by
  refine h.change (grows_change (.setSite id site)) (fun x y hxy => .inl ?_) (fun _ => .inl rfl)
    (fun _ => .inl rfl) fun j => ?_
  · exact hxy.of_same (fun _ _ => rfl) (fun _ _ => rfl) fun _ _ => rfl
  · rw [site_setSite]
    split
    · rename_i hj
      obtain rfl : id = j := congrArg SiteId.mk hj.1
      exact .inr hid
    · exact .inl rfl

theorem read (h : a.Confined library K b) {f : FrameId} {slot : SlotId} {depth : Nat} {v : Value}
    (hf : K (.frame f)) (hread : b.read f slot depth = .ok v) : ∀ x, v.Names x → K x := by
  obtain ⟨target, htarget, hslot⟩ := read_eq_ok hread
  have hk := ancestor_of_closed h.closed hf htarget
  exact fun x hx => h.closed _ x hk (.slot (Frame.contains_of_read hslot) hx)

end Store.Confined

namespace Machine

def regionTyping (library : Library) (a : Store) (K : Object → Prop) : Typing where
  value _ v := ∀ x, v.Names x → K x
  tree _ e f := K (.frame f) ∧ ∀ x, e.Names x → K x
  place _ _ _ f := K (.frame f)
  site id := K (.site id)
  store b := a.Confined library K b

theorem regionTyping_lawful (m : Setup) {a : Store} {K : Object → Prop}
    (hnew : ∀ x, ¬ a.Has x → K x) : (regionTyping m.library a K).Lawful m where
  grows_value _ hv := hv
  grows_tree _ htree := htree
  grows_place _ hplace := hplace
  scalar _ v hv x hx := absurd hx (Value.not_names_of_isScalar hv x)
  literal htree x hx := htree.2 x (.literal (Expr.Part.refl _) hx)
  child hchild htree := ⟨htree.1, fun x hx => htree.2 x (hx.of_child hchild)⟩
  rest htree := ⟨htree.1, fun x hx => htree.2 x hx.of_rest⟩
  place_of_tree htree := htree.1
  site_of_tree htree := htree.2 _ (.apply (Expr.Part.refl _))
  read hb htree hread := hb.read htree.1 hread
  unbox hb hbox x hx := hb.closed _ x (hbox _ (.box _)) (.content hx)
  lambda {b id f cell} hb htree hcell := by
    refine ⟨hb.addCell (by rw [hcell]) (htree.2 _ (.lambda (Expr.Part.refl _))), fun x hx => ?_⟩
    cases hx with
    | cell => exact hnew _ (Nat.not_lt.2 hb.grows.cells.size_le)
    | captured henv =>
      obtain rfl := Option.some.inj henv
      exact htree.1
  write hb hplace hv hw := hb.write hplace hv hw
  addBox {b v} hb hv := by
    have hbox : K (.box ⟨b.boxes.size⟩) := hnew _ (Nat.not_lt.2 hb.grows.boxes)
    refine ⟨hb.putBox (Store.grows_change (.addBox v)) hv (fun _ => rfl) (fun _ => rfl)
      (fun _ => rfl) fun id => ?_, fun x hx => ?_⟩
    · rw [Store.box_addBox]
      split
      · rename_i hid
        obtain rfl : id = ⟨b.boxes.size⟩ := congrArg BoxId.mk hid
        exact .inr ⟨rfl, hbox⟩
      · exact .inl rfl
    · cases hx
      exact hbox
  setBox {b id v} hb hbox hv := by
    refine hb.putBox (Store.grows_change (.setBox id v)) hv (fun _ => rfl) (fun _ => rfl)
      (fun _ => rfl) fun j => ?_
    rw [Store.box_setBox]
    split
    · rename_i hj
      obtain rfl : id = j := congrArg BoxId.mk hj.1
      exact .inr ⟨rfl, hbox _ (.box id)⟩
    · exact .inl rfl
  setSite site hb hid := hb.setSite hid site
  println sink line hb := by
    refine hb.change (Store.grows_change (.println sink line)) (fun x y hxy => .inl ?_)
      (fun _ => .inl rfl) (fun _ => .inl rfl) fun _ => .inl rfl
    exact hxy.of_same (fun _ _ => rfl) (fun _ _ => rfl) fun _ _ => rfl
  enter {b c args id frame} hb hclosure hargs htarget _ hbind := by
    have hframe : K (.frame ⟨b.frames.size⟩) := hnew _ (Nat.not_lt.2 hb.grows.frames)
    -- The closure leads to its cell, the cell to its code, and the code to what its body names.
    have hcode : K (.code id) := hb.closed _ _ (hclosure _ (.cell c)) (.target htarget)
    refine ⟨hb.addFrame hframe (fun g hg => ?_) (fun v hv x hx => ?_), hframe, fun x hx => ?_⟩
    · rw [(Frame.grows_bind hbind).parent] at hg
      exact hclosure _ (.captured hg)
    · rcases Frame.contains_of_bind hbind hv with hmem | hnone
      · exact hargs v hmem x hx
      · exact absurd hnone (Frame.not_contains_activate _ _ v)
    · exact hb.closed _ x hcode (.body hx)

end Machine

/-- What the roots reach in the store, and all that is not there yet. -/
def Store.Region (library : Library) (a : Store) (roots : Object → Prop) (x : Object) : Prop :=
  a.Reaches library roots x ∨ ¬ a.Has x

theorem Store.confined_region (library : Library) (a : Store) (roots : Object → Prop) :
    a.Confined library (a.Region library roots) a := by
  refine ⟨.refl a, fun x y hx hxy => ?_, fun _ => .inl rfl, fun _ => .inl rfl, fun _ => .inl rfl⟩
  rcases hx with hreach | hno
  · exact .inl (hreach.step hxy)
  · exact absurd hxy.has hno

structure Isolated (library : Library) (roots : Object → Prop) (a b : Store)
    (r : Except Failure Value) : Prop where
  frame : ∀ id, a.Has (.frame id) → ¬ a.Reaches library roots (.frame id) →
    b.frame id = a.frame id
  box : ∀ id, a.Has (.box id) → ¬ a.Reaches library roots (.box id) → b.box id = a.box id
  site : ∀ id, a.Has (.site id) → ¬ a.Reaches library roots (.site id) → b.site id = a.site id
  value : ∀ v x, r = .ok v → b.Reaches library v.Names x → a.Has x → a.Reaches library roots x

theorem Store.Confined.isolated {library : Library} {a b : Store} {roots : Object → Prop}
    {r : Except Failure Value} (h : a.Confined library (a.Region library roots) b)
    (hvalue : ∀ v, r = .ok v → ∀ x, v.Names x → a.Region library roots x) :
    Isolated library roots a b r := by
  refine ⟨fun id hid hout => ?_, fun id hid hout => ?_, fun id hid hout => ?_, ?_⟩
  · exact (h.frame id).resolve_right fun hk => hk.elim hout (absurd hid)
  · exact (h.box id).resolve_right fun hk => hk.elim hout (absurd hid)
  · exact (h.site id).resolve_right fun hk => hk.elim hout (absurd hid)
  · intro v x hv hreach hx
    have hk : a.Region library roots x := hreach.least (hvalue v hv) h.closed
    exact hk.resolve_right (absurd hx)

def Task.Names : Task → Object → Prop
  | .invoke e => e.Names
  | .invokeWith e _ => e.Names
  | .call callee args => fun x => ∃ v ∈ callee :: args, v.Names x

namespace Machine

theorem region_lawful (m : Setup) (a : Store) (roots : Object → Prop) :
    (regionTyping m.library a (a.Region m.library roots)).Lawful m :=
  regionTyping_lawful m fun _ => .inr

theorem region_of_eval (library : Library) {s : State} {e : Expr} {f : FrameId}
    (hc : s.control = .eval e f) (hp : s.pending = []) :
    (regionTyping library s.store
      (s.store.Region library fun x => x = .frame f ∨ e.Names x)).Holds s := by
  refine ⟨s.store.confined_region library _, ?_, by simp [hp]⟩
  rw [hc]
  exact ⟨.inl (.root (.inl rfl)), fun x hx => .inl (.root (.inr hx))⟩

end Machine

namespace Interpreter

theorem region_of_launch {i : Interpreter} {w : World} {t : Task} {s : State}
    (h : i.launch w t = .ok s) :
    (regionTyping w.library w.store (w.store.Region w.library t.Names)).Holds s := by
  have hself := w.store.confined_region w.library t.Names
  -- The frame around a tree, or the site of a call, is new.
  have hroot : w.store.Region w.library t.Names (.frame ⟨w.store.frames.size⟩) :=
    .inr (Nat.lt_irrefl _)
  have hframe : ∀ layout, w.store.Confined w.library (w.store.Region w.library t.Names)
      (w.store.addFrame (.activate layout none)).2 := fun layout =>
    hself.addFrame hroot (fun _ hnone => by cases hnone) fun v hv =>
      absurd hv (Frame.not_contains_activate _ _ v)
  cases t with
  | invoke e =>
    obtain rfl := Except.ok.inj h
    exact ⟨hframe {}, ⟨hroot, fun x hx => .inl (.root hx)⟩, by simp [start]⟩
  | invokeWith e layout =>
    obtain rfl := Except.ok.inj h
    exact ⟨hframe layout, ⟨hroot, fun x hx => .inl (.root hx)⟩, by simp [start]⟩
  | call callee args =>
    cases callee with
    | closure c =>
      obtain rfl := Except.ok.inj h
      refine ⟨?_, ⟨.inr (Nat.lt_irrefl _), fun x hx => ?_, fun v hv x hx => ?_⟩, ?_⟩
      · refine hself.change w.store.grows_addSite (fun x y hxy => .inl ?_) (fun _ => .inl rfl)
          (fun _ => .inl rfl) fun id => .inl (w.store.site_addSite id)
        exact hxy.of_same (fun _ _ => rfl) (fun _ _ => rfl) fun _ _ => rfl
      · exact .inl (.root ⟨_, List.mem_cons_self, hx⟩)
      · exact .inl (.root ⟨v, List.mem_cons_of_mem _ hv, hx⟩)
      · simp [start, Typing.PendingOk]
    | _ => cases h

theorem confined_of_perform {i : Interpreter} {w : World} {t : Task} {fuel : Nat} {o : Outcome}
    (h : i.perform fuel w t = some o) :
    o.world.library = w.library ∧
      w.store.Confined w.library (w.store.Region w.library t.Names) o.world.store ∧
      ∀ v, o.result = .ok v → ∀ x, v.Names x → w.store.Region w.library t.Names x := by
  cases hs : i.launch w t with
  | error cause =>
    rw [perform_of_launch_error hs, Option.some.injEq] at h
    subst h
    exact ⟨rfl, w.store.confined_region w.library _, fun v hv => by cases hv⟩
  | ok s =>
    rw [perform_of_launch_ok hs] at h
    obtain ⟨r, u, hrun, rfl⟩ := runFrom_eq_some_iff.1 h
    exact ⟨rfl, (region_of_launch hs).run (region_lawful (i.setup w.library) _ _) hrun⟩

end Interpreter

/-- No call of the value changes the frame, unless an argument leads to it. -/
def World.Spares (w : World) (g : FrameId) (v : Value) : Prop :=
  ∀ (i : Interpreter) (fuel : Nat) (args : List Value) (o : Interpreter.Outcome),
    (∀ u ∈ args, ¬ w.store.Reaches w.library u.Names (.frame g)) →
    i.perform fuel w (.call v args) = some o → o.world.store.frame g = w.store.frame g

theorem World.spares_of_not_reaches {w : World} {g : FrameId} {v : Value}
    (hg : w.store.Has (.frame g)) (hv : ¬ w.store.Reaches w.library v.Names (.frame g)) :
    w.Spares g v := by
  intro i fuel args o hargs h
  obtain ⟨-, hconfined, hvalue⟩ := Interpreter.confined_of_perform h
  refine (hconfined.isolated hvalue).frame g hg fun hreach => ?_
  obtain ⟨u, hu, hleads⟩ := Store.Reaches.of_values hreach
  rcases List.mem_cons.1 hu with rfl | hu
  · exact hv hleads
  · exact hargs u hu hleads

open Interpreter

/-- A task changes only what its roots reach, and its value leads to nothing else that was there. -/
theorem activations_isolated (i : Interpreter) (w : World) :
    (∀ s e f fuel r u, s.control = .eval e f → s.pending = [] →
      run (i.setup w.library) fuel s = some (r, u) →
      Isolated w.library (fun x => x = .frame f ∨ e.Names x) s.store u.store r) ∧
    (∀ s e f n r, s.control = .eval e f → Evaluates (i.setup w.library) s n r →
      Isolated w.library (fun x => x = .frame f ∨ e.Names x) s.store
        (steps (i.setup w.library) n s).store r) ∧
    (∀ t fuel o, i.perform fuel w t = some o →
      Isolated w.library t.Names w.store o.world.store o.result ∧
      (∀ made g, o.result = .ok made → w.store.Has (.frame g) →
        ¬ w.store.Reaches w.library t.Names (.frame g) → o.world.Spares g made) ∧
      (∀ old g, (∀ x, w.store.Reaches w.library old.Names x → w.store.Has x) →
        (∀ f, w.store.Reaches w.library old.Names (.frame f) →
          o.world.store.frame f = w.store.frame f) →
        (∀ b, w.store.Reaches w.library old.Names (.box b) →
          o.world.store.box b = w.store.box b) →
        ¬ w.store.Has (.frame g) → o.world.store.Has (.frame g) → o.world.Spares g old)) := by
  have hlawful := region_lawful (i.setup w.library)
  refine ⟨fun s e f fuel r u hc hp hrun => ?_, fun s e f n r hc h => ?_, fun t fuel o h => ?_⟩
  · obtain ⟨hconfined, hvalue⟩ := (region_of_eval w.library hc hp).run (hlawful _ _) hrun
    exact hconfined.isolated hvalue
  · have hs := region_of_eval w.library (s := { s with pending := [] }) hc rfl
    obtain ⟨hconfined, hvalue⟩ := hs.evaluates (hlawful _ _) h
    exact hconfined.isolated hvalue
  · obtain ⟨hlibrary, hconfined, hvalue⟩ := confined_of_perform h
    have hisolated := hconfined.isolated hvalue
    refine ⟨hisolated, fun made g hmade hg hout => ?_, fun old g hthere hframe hbox hg hnew => ?_⟩
    · refine World.spares_of_not_reaches (Nat.lt_of_lt_of_le hg hconfined.grows.frames) ?_
      rw [hlibrary]
      exact fun hreach => hout (hisolated.value made _ hmade hreach hg)
    · -- What the older closure reaches is what it reached before the frame was made.
      refine World.spares_of_not_reaches hnew fun hreach => hg (hthere _ ?_)
      rw [hlibrary] at hreach
      exact hreach.of_same hframe hbox fun c hc => hconfined.grows.cells.cell (hthere _ hc)

def keptWorld : World :=
  { library := ⟨#[{ name := "keep", params := [⟨0, "x"⟩], body := .lambda ⟨1⟩, layout := ⟨#["x"]⟩ },
      { name := "put", params := [⟨0, "y"⟩], body := .write ⟨0, "x"⟩ 1 (.read ⟨0, "y"⟩ 0)
        layout := ⟨#["y"]⟩ }]⟩
    store := { frames := #[{ layout := ⟨#["x"]⟩, parent := none, slots := #[.int 1] }]
               cells := #[⟨"keep", .lambda ⟨0⟩, 0⟩, ⟨"put", .lambda ⟨1⟩, 0⟩] } }

def keepAgain : Task := .call (.closure ⟨⟨0⟩, none⟩) [.int 2]

theorem not_reaches_of_keepAgain :
    ¬ keptWorld.store.Reaches keptWorld.library keepAgain.Names (.frame ⟨0⟩) := by
  intro h
  have hk : Object.frame ⟨0⟩ ∈ [Object.cell ⟨0⟩, .code ⟨0⟩, .code ⟨1⟩] := by
    refine h.least (K := (· ∈ [Object.cell ⟨0⟩, .code ⟨0⟩, .code ⟨1⟩])) ?_ ?_
    · rintro x ⟨v, hv, hx⟩
      simp only [List.mem_cons, List.not_mem_nil, or_false] at hv
      rcases hv with rfl | rfl
      · cases hx with
        | cell => simp
        | captured henv => cases henv
      · cases hx
    · intro x y hx hxy
      simp only [List.mem_cons, List.not_mem_nil, or_false] at hx
      rcases hx with rfl | rfl | rfl
      · cases hxy with
        | target htarget =>
          obtain rfl := Target.lambda.inj htarget
          simp
      · cases hxy with
        | body names =>
          obtain rfl := Expr.names_lambda.1 names
          simp
      · cases hxy with
        | body names => exact absurd (Expr.names_write.1 names) Expr.names_read
  simp at hk

/-- The closure of the second call replaces what the second call kept. What the first call kept is
still there. -/
theorem activations_isolated_kept :
    ∃ o o', plainInterpreter.perform 10 keptWorld keepAgain = some o ∧
      o.result = .ok (.closure ⟨⟨2⟩, some ⟨1⟩⟩) ∧
      plainInterpreter.perform 10 o.world (.call (.closure ⟨⟨2⟩, some ⟨1⟩⟩) [.int 7]) = some o' ∧
      (o'.world.store.frame ⟨1⟩).slots = #[.int 7] ∧
      (o'.world.store.frame ⟨0⟩).slots = #[.int 1] := by
  have hspares := ((activations_isolated plainInterpreter keptWorld).2.2 keepAgain 10 _ rfl).2.1
    _ ⟨0⟩ rfl (show 0 < 1 by decide) not_reaches_of_keepAgain
  refine ⟨_, _, rfl, rfl, rfl, rfl, ?_⟩
  refine congrArg Frame.slots (hspares plainInterpreter 10 [.int 7] _ (fun u hu => ?_) rfl)
  obtain rfl := List.mem_singleton.1 hu
  exact Store.not_reaches_of_isScalar (v := .int 7) rfl

end TreeMachine
