import TreeMachine.Proofs.FirstOccurrences
import TreeMachine.Proofs.SiteHistory

set_option autoImplicit false

namespace TreeMachine

namespace CallSite

/-- The site has seen these entry points. -/
inductive Saw (cells : CellId → FunctionCell) (limit : Nat) (seen : List Target) :
    CallSite → Prop where
  | caching {entries : List CacheEntry} (targets : entries.map (·.target) = seen)
      (valid : ∀ e ∈ entries, e.isStale cells = false) (room : seen.length ≤ limit) :
      Saw cells limit seen (caching entries)
  | megamorphic (full : limit < seen.length) : Saw cells limit seen megamorphic

def eventAfter (limit : Nat) (seen : List Target) (target : Target) : CacheEvent :=
  if limit < seen.length then .generic
  else if target ∈ seen then .hit
  else if seen.length < limit then .recorded
  else .wentMegamorphic

theorem eventAfter_eq_hit {limit : Nat} {seen : List Target} {target : Target}
    (h : ¬ limit < seen.length) : eventAfter limit seen target = .hit ↔ target ∈ seen := by
  unfold eventAfter
  rw [if_neg h]
  split
  · rename_i hseen
    exact ⟨fun _ => hseen, fun _ => rfl⟩
  · rename_i hnew
    refine ⟨fun hevent => ?_, fun hseen => absurd hseen hnew⟩
    split at hevent <;> cases hevent

theorem counts_eventAfter (limit : Nat) (seen : List Target) (target : Target) :
    let next := if target ∈ seen then seen else seen ++ [target]
    let event := eventAfter limit seen target
    min next.length limit = min seen.length limit + (if event = .recorded then 1 else 0) ∧
    (if limit < next.length then 1 else 0) =
      (if limit < seen.length then 1 else 0) + (if event = .wentMegamorphic then 1 else 0) ∧
    min next.length (limit + 1) = min seen.length (limit + 1) +
      (if event = .recorded ∨ event = .wentMegamorphic then 1 else 0) := by
  intro next event
  have hlength : next.length = if target ∈ seen then seen.length else seen.length + 1 := by
    simp only [next]
    split
    · rfl
    · exact List.length_append
  rw [hlength]
  simp only [event, eventAfter]
  by_cases hseen : target ∈ seen
  · by_cases hfull : limit < seen.length <;> simp [hseen, hfull]
  · rcases Nat.lt_trichotomy seen.length limit with hlt | heq | hgt
    · have hfull : ¬ limit < seen.length := Nat.lt_asymm hlt
      simp [hseen, hlt, hfull]
      omega
    · simp [hseen, heq]
    · simp [hseen, hgt]
      omega

theorem Looked.saw {cells : CellId → FunctionCell} {callee : CellId} {limit : Nat}
    {site after : CallSite} {found : Lookup} {seen : List Target}
    (h : Looked cells callee limit site found after) (hsaw : Saw cells limit seen site) :
    Saw cells limit
        (if (cells callee).target ∈ seen then seen else seen ++ [(cells callee).target]) after ∧
      found.event = eventAfter limit seen (cells callee).target ∧ found.evicted = 0 := by
  cases hsaw with
  | megamorphic full =>
    cases h with
    | generic =>
      refine ⟨.megamorphic ?_, by simp only [eventAfter, if_pos full], rfl⟩
      split
      · exact full
      · exact Nat.lt_of_lt_of_le full (by simp)
  | @caching entries targets valid room =>
    -- No cell is bound, so that nothing has gone stale.
    have hlive : live cells entries = entries :=
      List.filter_eq_self.2 fun e he => by simp [valid e he]
    have hmem : (cells callee).target ∈ seen ↔ ∃ e ∈ entries, e.target = (cells callee).target := by
      rw [← targets, List.mem_map]
    have hunseen : (∀ e ∈ entries, e.target ≠ (cells callee).target) →
        (cells callee).target ∉ seen := by
      intro hdiffers hseen
      obtain ⟨e, he, heq⟩ := hmem.1 hseen
      exact hdiffers e he heq
    have hlength : entries.length = seen.length := by rw [← targets, List.length_map]
    have hroom : ¬ limit < seen.length := Nat.not_lt.2 room
    cases h with
    | @hit _ e mem same =>
      rw [hlive] at mem ⊢
      have hseen : (cells callee).target ∈ seen := hmem.2 ⟨e, mem, same⟩
      rw [if_pos hseen]
      refine ⟨.caching targets valid room, ?_, Nat.sub_self _⟩
      simp only [eventAfter, if_neg hroom, if_pos hseen]
    | recorded new free =>
      rw [hlive] at new free ⊢
      have hnew := hunseen new
      rw [hlength] at free
      rw [if_neg hnew]
      refine ⟨.caching ?_ ?_ ?_, ?_, Nat.sub_self _⟩
      · rw [List.map_append, targets]
        rfl
      · intro e he
        rcases List.mem_append.1 he with hold | hlast
        · exact valid e hold
        · obtain rfl := List.mem_singleton.1 hlast
          exact bne_self_eq_false _
      · rw [List.length_append]
        exact free
      · simp only [eventAfter, if_neg hroom, if_neg hnew, if_pos free]
    | wentMegamorphic new full =>
      rw [hlive] at new full ⊢
      have hnew := hunseen new
      rw [hlength] at full
      rw [if_neg hnew]
      refine ⟨.megamorphic ?_, ?_, Nat.sub_self _⟩
      · rw [List.length_append]
        exact Nat.lt_succ_of_le full
      · simp only [eventAfter, if_neg hroom, if_neg hnew, if_neg (Nat.not_lt.2 full)]

def stateOf : Nat → CacheState
  | 0 => .uninitialized
  | 1 => .monomorphic
  | _ => .polymorphic

theorem state_caching (entries : List CacheEntry) :
    (caching entries).state = stateOf entries.length := by
  match entries with
  | [] => rfl
  | [_] => rfl
  | _ :: _ :: _ => rfl

namespace Saw
variable {cells : CellId → FunctionCell} {limit : Nat} {seen : List Target} {site : CallSite}

theorem isMegamorphic_iff (h : Saw cells limit seen site) :
    site.isMegamorphic = true ↔ limit < seen.length := by
  cases h with
  | caching targets valid room => exact ⟨nofun, fun hlt => absurd room (Nat.not_le.2 hlt)⟩
  | megamorphic full => exact ⟨fun _ => full, fun _ => rfl⟩

theorem targets_eq (h : Saw cells limit seen site) :
    site.entries.map (·.target) = if limit < seen.length then [] else seen := by
  cases h with
  | caching targets valid room => rw [if_neg (Nat.not_lt.2 room), ← targets]
  | megamorphic full => rw [if_pos full]; rfl

theorem size_eq (h : Saw cells limit seen site) :
    site.size = if limit < seen.length then 0 else seen.length := by
  rw [size, ← List.length_map (·.target), h.targets_eq]
  split
  · rfl
  · rfl

theorem state_eq (h : Saw cells limit seen site) :
    site.state = if limit < seen.length then .megamorphic else stateOf seen.length := by
  cases h with
  | caching targets valid room =>
    rw [if_neg (Nat.not_lt.2 room), ← targets, List.length_map, state_caching]
  | megamorphic full => rw [if_pos full]; rfl

end Saw

end CallSite

def CacheAct.visits (site : SiteId) (limit : Nat) (callees : List Closure) : List CacheAct :=
  callees.map (.lookup site · limit)

namespace Store
open CacheAct (visits)

/-- The entry points of some callees, in the order in which they first appear. -/
def entryPoints (a : Store) (callees : List Closure) : List Target :=
  (callees.map fun c => (a.cell c.cell).target).eraseDups

theorem mem_entryPoints {a : Store} {callees : List Closure} {target : Target} :
    target ∈ a.entryPoints callees ↔ ∃ c ∈ callees, (a.cell c.cell).target = target := by
  rw [entryPoints, List.mem_eraseDups, List.mem_map]

theorem entryPoints_concat (a : Store) (callees : List Closure) (c : Closure) :
    a.entryPoints (callees ++ [c]) =
      if (a.cell c.cell).target ∈ a.entryPoints callees then a.entryPoints callees
      else a.entryPoints callees ++ [(a.cell c.cell).target] := by
  simp only [entryPoints, List.map_append, List.map_singleton, eraseDups_concat,
    List.mem_eraseDups]
  split
  · exact List.append_nil _
  · rfl

theorem length_entryPoints_of_eq {a : Store} {callees : List Closure} {target : Target}
    (hne : callees ≠ []) (h : ∀ c ∈ callees, (a.cell c.cell).target = target) :
    (a.entryPoints callees).length = 1 := by
  have hall : ∀ t ∈ a.entryPoints callees, t = target := by
    intro t ht
    obtain ⟨c, hc, rfl⟩ := mem_entryPoints.1 ht
    exact h c hc
  have hle : (a.entryPoints callees).length ≤ 1 := by
    have hnodup : (a.entryPoints callees).Nodup := nodup_eraseDups _
    rw [List.eq_replicate_of_mem hall] at hnodup
    exact List.nodup_replicate.1 hnodup
  obtain ⟨c, hc⟩ := List.exists_mem_of_ne_nil callees hne
  have hpos := List.length_pos_of_mem (mem_entryPoints.2 ⟨c, hc, rfl⟩ : _ ∈ a.entryPoints callees)
  omega

theorem cell_replay_visits (a : Store) (site : SiteId) (limit : Nat) (callees : List Closure) :
    (a.replay (visits site limit callees)).cell = a.cell := by
  funext id
  refine cell_replay_of_not_binds fun act hact => ?_
  obtain ⟨c, -, rfl⟩ := List.mem_map.1 hact
  rfl

structure Visited (a : Store) (site : SiteId) (limit : Nat) (callees : List Closure) : Prop where
  saw : CallSite.Saw a.cell limit (a.entryPoints callees)
    ((a.replay (visits site limit callees)).site site)
  length : (a.findings site (visits site limit callees)).length = callees.length
  evicted : ∀ l ∈ a.findings site (visits site limit callees), l.evicted = 0
  recorded : (a.findings site (visits site limit callees)).countP (·.event = .recorded) =
    min (a.entryPoints callees).length limit
  wentMegamorphic :
    (a.findings site (visits site limit callees)).countP (·.event = .wentMegamorphic) =
      if limit < (a.entryPoints callees).length then 1 else 0
  misses : (a.findings site (visits site limit callees)).countP
      (fun l => l.event = .recorded ∨ l.event = .wentMegamorphic) =
    min (a.entryPoints callees).length (limit + 1)

theorem Visited.visit {a : Store} {site : SiteId} {limit : Nat} {callees : List Closure}
    (h : a.Visited site limit callees) (hsite : site.index < a.sites.size) {c : Closure}
    (hbound : (a.cell c.cell).target.isBound = true) :
    ∃ found, (a.replay (visits site limit callees)).lookupAt site c limit =
        .ok (found, (a.replay (visits site limit (callees ++ [c]))).site site) ∧
      a.findings site (visits site limit (callees ++ [c])) =
        a.findings site (visits site limit callees) ++ [found] ∧
      CallSite.Saw a.cell limit (a.entryPoints (callees ++ [c]))
        ((a.replay (visits site limit (callees ++ [c]))).site site) ∧
      found.event =
        CallSite.eventAfter limit (a.entryPoints callees) (a.cell c.cell).target ∧
      found.evicted = 0 := by
  have hacts : visits site limit (callees ++ [c]) =
      visits site limit callees ++ [.lookup site c limit] := List.map_append
  have hcell := cell_replay_visits a site limit callees
  have hsite' : site.index < (a.replay (visits site limit callees)).sites.size := by
    rwa [sites_replay]
  rcases site_act_cases hsite' (.lookup site c limit) with
    ⟨hnone, -⟩ | ⟨_, _, found, heq, hlookup, hsome⟩
  · simp [finding?, lookupAt, CallSite.lookup, hcell, hbound, Except.toOption] at hnone
  · obtain ⟨-, rfl, rfl⟩ := CacheAct.lookup.inj heq
    have hlooked := CallSite.looked_of_lookup hlookup
    rw [hcell] at hlooked
    obtain ⟨hsaw, hevent, hevicted⟩ := hlooked.saw h.saw
    rw [hacts, replay_concat, findings_concat, hsome, entryPoints_concat]
    exact ⟨found, hlookup, rfl, hsaw, hevent, hevicted⟩

theorem visited {a : Store} {site : SiteId} (hsite : site.index < a.sites.size)
    (hfresh : a.site site = .fresh) (limit : Nat) {callees : List Closure}
    (hbound : ∀ c ∈ callees, (a.cell c.cell).target.isBound = true) :
    a.Visited site limit callees := by
  induction callees using List.reverseRecOn with
  | nil =>
    refine ⟨?_, rfl, nofun, (Nat.zero_min _).symm, rfl, (Nat.zero_min _).symm⟩
    have hsame : (a.replay (visits site limit [])).site site = .fresh := hfresh
    rw [hsame]
    exact .caching rfl nofun (Nat.zero_le limit)
  | append_singleton callees c ih =>
    have hbefore := ih fun c hc => hbound c (List.mem_append_left _ hc)
    obtain ⟨found, -, hfindings, hsaw, hevent, hevicted⟩ :=
      hbefore.visit hsite (hbound c (by simp))
    obtain ⟨-, hlength, hall, hrecorded, hwent, hmisses⟩ := hbefore
    obtain ⟨hrecorded', hwent', hmisses'⟩ :=
      CallSite.counts_eventAfter limit (a.entryPoints callees) (a.cell c.cell).target
    rw [← entryPoints_concat, ← hevent] at hrecorded' hwent' hmisses'
    refine ⟨hsaw, ?_, ?_, ?_, ?_, ?_⟩
    · rw [hfindings, List.length_append, List.length_append, hlength]
      rfl
    · rw [hfindings]
      intro l hl
      rcases List.mem_append.1 hl with hold | hlast
      · exact hall l hold
      · obtain rfl := List.mem_singleton.1 hlast
        exact hevicted
    · rw [hfindings, List.countP_append, hrecorded, List.countP_singleton, hrecorded']
      simp only [decide_eq_true_eq]
    · rw [hfindings, List.countP_append, hwent, List.countP_singleton, hwent']
      simp only [decide_eq_true_eq]
    · rw [hfindings, List.countP_append, hmisses, List.countP_singleton, hmisses']
      simp only [decide_eq_true_eq]

end Store

/-- Without binds a site is determined by the entry points that it has seen, in the order in which
they first appeared. -/
theorem site_determined_by_entry_points (a : Store) (site : SiteId) (limit : Nat)
    (callees : List Closure) (hsite : site.index < a.sites.size) (hfresh : a.site site = .fresh)
    (hbound : ∀ c ∈ callees, (a.cell c.cell).target.isBound = true) :
    let seen := a.entryPoints callees
    let acts := CacheAct.visits site limit callees
    let s := (a.replay acts).site site
    let found := a.findings site acts
    (seen.Nodup ∧ ∀ t, t ∈ seen ↔ ∃ c ∈ callees, (a.cell c.cell).target = t) ∧
    found.length = callees.length ∧
    (s.isMegamorphic = true ∧ s.entries = [] ↔ limit < seen.length) ∧
    (seen.length ≤ limit → s.entries.map (·.target) = seen ∧ s.size = seen.length ∧
      s.state = CallSite.stateOf seen.length) ∧
    found.countP (·.event = .recorded) = min seen.length limit ∧
    found.countP (·.event = .wentMegamorphic) = (if limit < seen.length then 1 else 0) ∧
    (∀ l ∈ found, l.evicted = 0) ∧
    (∀ before callee after, callees = before ++ callee :: after →
      let b := a.replay (CacheAct.visits site limit before)
      (b.site site).isMegamorphic = false →
      ∃ l next, b.lookupAt site callee limit = .ok (l, next) ∧
        (l.event = .hit ↔ ∃ c ∈ before, (a.cell c.cell).target = (a.cell callee.cell).target)) ∧
    (∀ other, other.Perm callees →
      let acts' := CacheAct.visits site limit other
      let s' := (a.replay acts').site site
      s'.state = s.state ∧ s'.size = s.size ∧
      (∀ t, t ∈ s'.entries.map (·.target) ↔ t ∈ s.entries.map (·.target)) ∧
      (a.findings site acts').countP (fun l => l.event = .recorded ∨ l.event = .wentMegamorphic) =
        found.countP (fun l => l.event = .recorded ∨ l.event = .wentMegamorphic)) ∧
    (∀ code, (∀ c ∈ callees, (a.cell c.cell).target = .lambda code) → callees ≠ [] → 0 < limit →
      s.state = .monomorphic ∧ s.size = 1) := by
  intro seen acts s found
  have hvisited := Store.visited hsite hfresh limit hbound
  have hsaw : CallSite.Saw a.cell limit seen s := hvisited.saw
  refine ⟨⟨nodup_eraseDups _, fun t => Store.mem_entryPoints⟩, hvisited.length, ?_, ?_,
    hvisited.recorded, hvisited.wentMegamorphic, hvisited.evicted, ?_, ?_, ?_⟩
  · rw [← hsaw.isMegamorphic_iff, and_iff_left_iff_imp]
    exact s.dropped
  · intro hle
    have hnot : ¬ limit < seen.length := Nat.not_lt.2 hle
    rw [hsaw.targets_eq, hsaw.size_eq, hsaw.state_eq, if_neg hnot, if_neg hnot, if_neg hnot]
    exact ⟨rfl, rfl, rfl⟩
  · rintro before callee after rfl b hcaching
    have hbefore : a.Visited site limit before :=
      Store.visited hsite hfresh limit fun c hc => hbound c (List.mem_append_left _ hc)
    obtain ⟨l, hlookup, -, -, hevent, -⟩ := hbefore.visit hsite (hbound callee (by simp))
    refine ⟨l, _, hlookup, ?_⟩
    have hnot : ¬ limit < (a.entryPoints before).length := by
      rw [← hbefore.saw.isMegamorphic_iff, hcaching]
      exact Bool.noConfusion
    rw [hevent, ← Store.mem_entryPoints, CallSite.eventAfter_eq_hit hnot]
  · intro other hperm acts' s'
    have hother : a.Visited site limit other :=
      Store.visited hsite hfresh limit fun c hc => hbound c (hperm.mem_iff.1 hc)
    have hseen : (a.entryPoints other).Perm seen := perm_eraseDups (hperm.map _)
    refine ⟨?_, ?_, fun t => ?_, ?_⟩
    · rw [hother.saw.state_eq, hsaw.state_eq, hseen.length_eq]
    · rw [hother.saw.size_eq, hsaw.size_eq, hseen.length_eq]
    · rw [hother.saw.targets_eq, hsaw.targets_eq, hseen.length_eq]
      split
      · exact Iff.rfl
      · exact hseen.mem_iff
    · rw [hother.misses, hvisited.misses, hseen.length_eq]
  · intro code hcode hne hlimit
    have hone : seen.length = 1 := Store.length_entryPoints_of_eq hne hcode
    rw [hsaw.state_eq, hsaw.size_eq, hone, if_neg (by omega), if_neg (by omega)]
    exact ⟨rfl, rfl⟩

def sharedCode : Store :=
  { cells := #[⟨"k", .lambda ⟨0⟩, 0⟩, ⟨"k", .lambda ⟨0⟩, 0⟩, ⟨"eq", .primitive .eq, 0⟩]
    sites := #[.fresh] }

def threeCallees : List Closure := [⟨⟨0⟩, none⟩, ⟨⟨2⟩, none⟩, ⟨⟨1⟩, some ⟨0⟩⟩]

/-- The closures of the code take one entry, so that a limit of two is enough and one is not. -/
theorem site_determined_by_entry_points_shared :
    (((sharedCode.replay (CacheAct.visits ⟨0⟩ 2 threeCallees)).site ⟨0⟩).entries.map (·.target) =
        [.lambda ⟨0⟩, .primitive .eq] ∧
      ((sharedCode.replay (CacheAct.visits ⟨0⟩ 2 threeCallees)).site ⟨0⟩).state = .polymorphic) ∧
    ((sharedCode.replay (CacheAct.visits ⟨0⟩ 1 threeCallees)).site ⟨0⟩).isMegamorphic = true ∧
    (sharedCode.findings ⟨0⟩ (CacheAct.visits ⟨0⟩ 1 threeCallees)).countP
      (·.event = .recorded) = 1 := by
  have hbound : ∀ c ∈ threeCallees, (sharedCode.cell c.cell).target.isBound = true := by decide
  have hseen : sharedCode.entryPoints threeCallees = [.lambda ⟨0⟩, .primitive .eq] := by decide
  obtain ⟨-, -, -, hcaching, -⟩ :=
    site_determined_by_entry_points sharedCode ⟨0⟩ 2 threeCallees (by decide) rfl hbound
  obtain ⟨-, -, hmegamorphic, -, hrecorded, -⟩ :=
    site_determined_by_entry_points sharedCode ⟨0⟩ 1 threeCallees (by decide) rfl hbound
  rw [hseen] at hcaching hmegamorphic hrecorded
  obtain ⟨hentries, -, hstate⟩ := hcaching (by decide)
  exact ⟨⟨hentries, hstate⟩, (hmegamorphic.2 (by decide)).1, hrecorded⟩

end TreeMachine
