import TreeMachine.Store

set_option autoImplicit false

namespace TreeMachine

theorem getD_push {α : Type} (xs : Array α) (x d : α) (i : Nat) :
    (xs.push x).getD i d = if i = xs.size then x else xs.getD i d := by
  simp only [Array.getD_eq_getD_getElem?, Array.getElem?_push]
  split <;> rfl

theorem getD_setIfInBounds {α : Type} (xs : Array α) (x d : α) (i j : Nat) :
    (xs.setIfInBounds i x).getD j d = if i = j ∧ i < xs.size then x else xs.getD j d := by
  simp only [Array.getD_eq_getD_getElem?, Array.getElem?_setIfInBounds]
  by_cases h : i = j
  · subst h
    by_cases hi : i < xs.size
    · simp [hi]
    · simp [hi]
  · simp [h]

theorem getD_modify {α : Type} (xs : Array α) (f : α → α) (d : α) (i j : Nat) :
    (xs.modify i f).getD j d = if i = j ∧ i < xs.size then f (xs.getD j d) else xs.getD j d := by
  simp only [Array.getD_eq_getD_getElem?, Array.getElem?_modify]
  by_cases h : i = j
  · subst h
    by_cases hi : i < xs.size
    · simp [hi]
    · simp [hi]
  · simp [h]

namespace Store

theorem frame_addFrame (s : Store) (f : Frame) (id : FrameId) :
    (s.addFrame f).2.frame id = if id.index = s.frames.size then f else s.frame id :=
  getD_push ..

theorem box_addBox (s : Store) (v : Value) (id : BoxId) :
    (s.addBox v).2.box id = if id.index = s.boxes.size then v else s.box id :=
  getD_push ..

theorem cell_addCell (s : Store) (c : FunctionCell) (id : CellId) :
    (s.addCell c).2.cell id = if id.index = s.cells.size then c else s.cell id :=
  getD_push ..

@[simp] theorem site_addSite (s : Store) (id : SiteId) : s.addSite.2.site id = s.site id := by
  simp only [site, addSite, getD_push]
  split
  · rename_i h
    simp [h]
  · rfl

theorem frame_setFrame (s : Store) (id j : FrameId) (f : Frame) :
    (s.setFrame id f).frame j =
      if id.index = j.index ∧ id.index < s.frames.size then f else s.frame j :=
  getD_setIfInBounds ..

theorem box_setBox (s : Store) (id j : BoxId) (v : Value) :
    (s.setBox id v).box j =
      if id.index = j.index ∧ id.index < s.boxes.size then v else s.box j :=
  getD_setIfInBounds ..

theorem site_setSite (s : Store) (id j : SiteId) (site : CallSite) :
    (s.setSite id site).site j =
      if id.index = j.index ∧ id.index < s.sites.size then site else s.site j :=
  getD_setIfInBounds ..

theorem cell_bind (s : Store) (id j : CellId) (t : Target) :
    (s.bind id t).cell j =
      if id.index = j.index ∧ id.index < s.cells.size then (s.cell j).bind t else s.cell j :=
  getD_modify ..

theorem sink_println (s : Store) (id j : SinkId) (line : String) :
    (s.println id line).sink j =
      if id.index = j.index ∧ id.index < s.sinks.size then (s.sink j).println line
      else s.sink j :=
  getD_modify ..

/-- A sink that was never given out is silent, so there is nothing to print to it. -/
theorem sink_println_eq (s : Store) (id j : SinkId) (line : String) :
    (s.println id line).sink j = if j = id then (s.sink j).println line else s.sink j := by
  rw [sink_println]
  by_cases hj : j = id
  · subst hj
    by_cases hlt : j.index < s.sinks.size
    · simp [hlt]
    · have hsilent : s.sink j = .silent := by
        simp [sink, Array.getD_eq_getD_getElem?, Array.getElem?_eq_none (Nat.not_lt.1 hlt)]
      simp [hlt, hsilent, Sink.println]
  · have hindex : ¬ id.index = j.index := fun h => hj (congrArg SinkId.mk h.symm)
    simp [hj, hindex]

theorem write_eq (s : Store) (id : FrameId) (slot : SlotId) (depth : Nat) (v : Value) :
    s.write id slot depth v = (s.ancestor id depth).bind fun target =>
      ((s.frame target).write slot v).map fun f => s.setFrame target f := by
  unfold write
  cases s.ancestor id depth with
  | error fault => rfl
  | ok target =>
    simp only [Except.bind]
    cases (s.frame target).write slot v <;> rfl

theorem read_eq (s : Store) (id : FrameId) (slot : SlotId) (depth : Nat) :
    s.read id slot depth = (s.ancestor id depth).bind fun target => (s.frame target).read slot := by
  unfold read
  cases s.ancestor id depth <;> rfl

end Store

end TreeMachine
