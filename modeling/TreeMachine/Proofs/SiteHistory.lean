import TreeMachine.Proofs.Growth

set_option autoImplicit false

namespace TreeMachine

namespace CallSite

theorem length_live_le (cells : CellId → FunctionCell) (entries : List CacheEntry) :
    (live cells entries).length ≤ entries.length := List.length_filter_le ..

/-- What a lookup that succeeds has done to a site. -/
inductive Looked (cells : CellId → FunctionCell) (callee : CellId) (limit : Nat) :
    CallSite → Lookup → CallSite → Prop where
  | generic :
      Looked cells callee limit megamorphic ⟨(cells callee).target, .indirect, .generic, 0⟩
        megamorphic
  | hit {entries : List CacheEntry} {e : CacheEntry} (mem : e ∈ live cells entries)
      (same : e.target = (cells callee).target) :
      Looked cells callee limit (caching entries)
        ⟨e.target, .direct, .hit, entries.length - (live cells entries).length⟩
        (caching (live cells entries))
  | recorded {entries : List CacheEntry}
      (new : ∀ e ∈ live cells entries, e.target ≠ (cells callee).target)
      (room : (live cells entries).length < limit) :
      Looked cells callee limit (caching entries)
        ⟨(cells callee).target, .direct, .recorded, entries.length - (live cells entries).length⟩
        (caching (live cells entries ++
          [⟨(cells callee).target, callee, (cells callee).generation⟩]))
  | wentMegamorphic {entries : List CacheEntry}
      (new : ∀ e ∈ live cells entries, e.target ≠ (cells callee).target)
      (full : limit ≤ (live cells entries).length) :
      Looked cells callee limit (caching entries)
        ⟨(cells callee).target, .indirect, .wentMegamorphic,
          entries.length - (live cells entries).length⟩ megamorphic

theorem looked_of_lookup {site after : CallSite} {cells : CellId → FunctionCell}
    {callee : CellId} {limit : Nat} {found : Lookup}
    (h : site.lookup cells callee limit = .ok (found, after)) :
    Looked cells callee limit site found after := by
  obtain ⟨hbound, hresolve⟩ := lookup_eq_ok h
  cases site with
  | megamorphic =>
    obtain ⟨rfl, rfl⟩ := Prod.mk.inj hresolve
    exact .generic
  | caching entries =>
    have hcases := resolve_caching entries cells callee limit
    rw [hresolve] at hcases
    have hnew : (∀ e ∈ live cells entries, e.target.sameEntry (cells callee).target = false) →
        ∀ e ∈ live cells entries, e.target ≠ (cells callee).target := by
      intro hdiffers e he heq
      have hsame := hdiffers e he
      rw [heq, Target.sameEntry_self, hbound] at hsame
      cases hsame
    rcases hcases with ⟨e, hmem, hsame, heq⟩ | ⟨hdiffers, ⟨hroom, heq⟩ | ⟨hfull, heq⟩⟩
    · obtain ⟨rfl, rfl⟩ := Prod.mk.inj heq
      exact .hit hmem (Target.sameEntry_iff.1 hsame).2
    · obtain ⟨rfl, rfl⟩ := Prod.mk.inj heq
      exact .recorded (hnew hdiffers) hroom
    · obtain ⟨rfl, rfl⟩ := Prod.mk.inj heq
      exact .wentMegamorphic (hnew hdiffers) hfull

/-- The entries are for different entry points, and none is for the lack of one. -/
structure Sound (site : CallSite) : Prop where
  distinct : site.entries.Pairwise fun e e' => e.target.sameEntry e'.target = false
  bound : ∀ e ∈ site.entries, e.target.isBound = true

theorem sound_megamorphic : megamorphic.Sound := ⟨.nil, nofun⟩

theorem sound_fresh : fresh.Sound := ⟨.nil, nofun⟩

theorem Sound.live {entries : List CacheEntry} (h : (caching entries).Sound)
    (cells : CellId → FunctionCell) : (caching (live cells entries)).Sound :=
  ⟨h.distinct.filter _, fun e he => h.bound e (List.mem_filter.1 he).1⟩

namespace Looked
variable {cells : CellId → FunctionCell} {callee : CellId} {limit : Nat}
variable {site after : CallSite} {found : Lookup}

theorem sound (h : Looked cells callee limit site found after)
    (hbound : (cells callee).target.isBound = true) (hsound : site.Sound) : after.Sound := by
  cases h with
  | generic => exact sound_megamorphic
  | hit mem same => exact hsound.live cells
  | recorded new room =>
    have hlive := hsound.live cells
    constructor
    · refine List.pairwise_append.2 ⟨hlive.distinct, List.pairwise_singleton _ _, ?_⟩
      intro e he e' he'
      obtain rfl := List.mem_singleton.1 he'
      exact Bool.eq_false_iff.2 fun hsame => new e he (Target.sameEntry_iff.1 hsame).2
    · intro e he
      rcases List.mem_append.1 he with hold | hnew
      · exact hlive.bound e hold
      · obtain rfl := List.mem_singleton.1 hnew
        exact hbound
  | wentMegamorphic new full => exact sound_megamorphic

theorem size_le (h : Looked cells callee limit site found after) :
    after.size ≤ max site.size limit := by
  cases h with
  | generic => exact Nat.zero_le _
  | hit mem same => exact Nat.le_trans (length_live_le ..) (Nat.le_max_left ..)
  | recorded new room =>
    simp only [size, List.length_append, List.length_singleton]
    omega
  | wentMegamorphic new full => exact Nat.zero_le _

theorem conserves (h : Looked cells callee limit site found after)
    (hafter : after.isMegamorphic = false) :
    site.isMegamorphic = false ∧
      site.size + [found].countP (·.event = .recorded) = found.evicted + after.size := by
  cases h with
  | generic => cases hafter
  | @hit entries e mem same =>
    have hlive := length_live_le cells entries
    refine ⟨rfl, ?_⟩
    simp [size, Nat.sub_add_cancel hlive]
  | @recorded entries new room =>
    have hlive := length_live_le cells entries
    refine ⟨rfl, ?_⟩
    simp only [size, List.length_append, List.length_singleton, List.countP_singleton, decide_true,
      if_true]
    omega
  | wentMegamorphic new full => cases hafter

end Looked

end CallSite

namespace Store

def finding? (a : Store) (site : SiteId) : CacheAct → Option Lookup
  | .bind _ _ => none
  | .lookup place callee limit =>
    if place = site then (a.lookupAt site callee limit).toOption.map Prod.fst else none

def findings (a : Store) (site : SiteId) : List CacheAct → List Lookup
  | [] => []
  | act :: acts => (a.finding? site act).toList ++ (a.act act).findings site acts

theorem findings_append (a : Store) (site : SiteId) (before after : List CacheAct) :
    a.findings site (before ++ after) =
      a.findings site before ++ (a.replay before).findings site after := by
  induction before generalizing a with
  | nil => rfl
  | cons act before ih =>
    simp only [List.cons_append, findings, List.append_assoc]
    exact congrArg _ (ih (a.act act))

theorem findings_concat (a : Store) (site : SiteId) (acts : List CacheAct) (last : CacheAct) :
    a.findings site (acts ++ [last]) =
      a.findings site acts ++ ((a.replay acts).finding? site last).toList := by
  simp [findings_append, findings]

theorem site_act_cases {a : Store} {site : SiteId} (hsite : site.index < a.sites.size)
    (act : CacheAct) :
    (a.finding? site act = none ∧ (a.act act).site site = a.site site) ∨
      ∃ callee limit found, act = .lookup site callee limit ∧
        a.lookupAt site callee limit = .ok (found, (a.act act).site site) ∧
        a.finding? site act = some found := by
  by_cases hact : ∃ callee limit, act = .lookup site callee limit
  · obtain ⟨callee, limit, rfl⟩ := hact
    cases hlookup : a.lookupAt site callee limit with
    | error cause =>
      refine .inl ⟨?_, by rw [act_of_lookup_error hlookup]⟩
      simp [finding?, hlookup, Except.toOption]
    | ok out =>
      obtain ⟨found, after⟩ := out
      refine .inr ⟨callee, limit, found, rfl, ?_, ?_⟩
      · rw [site_act_of_lookup hlookup, if_pos hsite]
        exact hlookup
      · simp [finding?, hlookup, Except.toOption]
  · refine .inl ⟨?_, site_act_of_ne fun callee limit heq => hact ⟨callee, limit, heq⟩⟩
    cases act with
    | bind closure target => rfl
    | lookup place callee limit =>
      have hne : place ≠ site := fun heq => hact ⟨callee, limit, by rw [heq]⟩
      simp only [finding?, if_neg hne]

structure Accumulated (a : Store) (site : SiteId) (acts : List CacheAct) : Prop where
  sound : ((a.replay acts).site site).Sound
  size : ∀ bound, (∀ callee limit, .lookup site callee limit ∈ acts → limit ≤ bound) →
    ((a.replay acts).site site).size ≤ bound
  recorded : ((a.replay acts).site site).isMegamorphic = false →
    (a.findings site acts).countP (·.event = .recorded) =
      ((a.findings site acts).map (·.evicted)).sum + ((a.replay acts).site site).size

theorem accumulated {a : Store} {site : SiteId} (hsite : site.index < a.sites.size)
    (hfresh : a.site site = .fresh) (acts : List CacheAct) : a.Accumulated site acts := by
  induction acts using List.reverseRecOn with
  | nil =>
    have hsame : (a.replay []).site site = .fresh := hfresh
    constructor
    · rw [hsame]
      exact CallSite.sound_fresh
    · intro bound _
      rw [hsame]
      exact Nat.zero_le bound
    · intro _
      rw [hsame]
      rfl
  | append_singleton acts last ih =>
    have hsite' : site.index < (a.replay acts).sites.size := by rwa [sites_replay]
    have hbefore : ∀ bound, (∀ callee limit, .lookup site callee limit ∈ acts ++ [last] →
        limit ≤ bound) → ((a.replay acts).site site).size ≤ bound := fun bound hbound =>
      ih.size bound fun callee limit hmem =>
        hbound callee limit (List.mem_append_left _ hmem)
    rcases site_act_cases hsite' last with
      ⟨hnone, hsame⟩ | ⟨callee, limit, found, rfl, hlookup, hsome⟩
    · constructor
      · rw [replay_concat, hsame]
        exact ih.sound
      · rw [replay_concat, hsame]
        exact hbefore
      · rw [replay_concat, hsame, findings_concat, hnone]
        simpa using ih.recorded
    · have hlooked := CallSite.looked_of_lookup hlookup
      rw [← replay_concat] at hlooked
      constructor
      · exact hlooked.sound (CallSite.lookup_eq_ok hlookup).1 ih.sound
      · intro bound hbound
        have hlimit : limit ≤ bound := hbound callee limit (by simp)
        exact Nat.le_trans hlooked.size_le (Nat.max_le.2 ⟨hbefore bound hbound, hlimit⟩)
      · intro hafter
        obtain ⟨hcaching, hconserves⟩ := hlooked.conserves hafter
        have hold := ih.recorded hcaching
        rw [findings_concat, hsome]
        simp only [Option.toList_some, List.countP_append, List.map_append, List.sum_append,
          List.map_singleton, List.sum_singleton]
        omega

theorem site_replay_of_megamorphic {a : Store} {site : SiteId} (hsite : site.index < a.sites.size)
    (h : a.site site = .megamorphic) (acts : List CacheAct) :
    (a.replay acts).site site = .megamorphic := by
  induction acts using List.reverseRecOn with
  | nil => exact h
  | append_singleton acts last ih =>
    have hsite' : site.index < (a.replay acts).sites.size := by rwa [sites_replay]
    rw [replay_concat]
    rcases site_act_cases hsite' last with ⟨-, hsame⟩ | ⟨callee, limit, found, rfl, hlookup, -⟩
    · rw [hsame, ih]
    · rw [lookupAt, ih] at hlookup
      generalize (act _ _).site site = after at hlookup
      cases CallSite.looked_of_lookup hlookup with
      | generic => rfl

end Store

/-- The entries of a site are for different entry points and within the limits of its lookups, until
it gives up caching for good. -/
theorem call_site_invariant (a : Store) (site : SiteId) (acts : List CacheAct)
    (hsite : site.index < a.sites.size) (hfresh : a.site site = .fresh) :
    let s := (a.replay acts).site site
    let found := a.findings site acts
    (s.entries.Pairwise fun e e' => e.target.sameEntry e'.target = false) ∧
    (∀ e ∈ s.entries, e.target ≠ .unbound) ∧
    (∀ bound, (∀ callee limit, .lookup site callee limit ∈ acts → limit ≤ bound) →
      s.size ≤ bound) ∧
    (s.isMegamorphic = true → s.entries = [] ∧ ∀ more,
      ((a.replay (acts ++ more)).site site).isMegamorphic = true ∧
      ∀ callee limit l after,
        (a.replay (acts ++ more)).lookupAt site callee limit = .ok (l, after) →
        l.transfer = .indirect ∧ l.event = .generic ∧ l.evicted = 0) ∧
    (s.isMegamorphic = false →
      found.countP (·.event = .recorded) = (found.map (·.evicted)).sum + s.size) := by
  intro s found
  obtain ⟨hsound, hsize, hrecorded⟩ := Store.accumulated hsite hfresh acts
  refine ⟨hsound.distinct, fun e he hunbound => ?_, hsize, fun hmegamorphic => ?_, hrecorded⟩
  · have hbound := hsound.bound e he
    rw [hunbound] at hbound
    cases hbound
  · have hs : s = .megamorphic := CallSite.eq_megamorphic hmegamorphic
    refine ⟨s.dropped hmegamorphic, fun more => ?_⟩
    have hmore : (a.replay (acts ++ more)).site site = .megamorphic := by
      rw [Store.replay_append]
      exact Store.site_replay_of_megamorphic (by rwa [Store.sites_replay]) hs more
    refine ⟨by rw [hmore], fun callee limit l after hlookup => ?_⟩
    rw [Store.lookupAt, hmore] at hlookup
    cases CallSite.looked_of_lookup hlookup with
    | generic => exact ⟨rfl, rfl, rfl⟩

def twoCells : Store :=
  { cells := #[⟨"f", .unbound, 0⟩, ⟨"g", .unbound, 0⟩], sites := #[.fresh] }

def rebindAcross : List CacheAct :=
  [.bind ⟨⟨0⟩, none⟩ (.primitive .eq), .lookup ⟨0⟩ ⟨⟨0⟩, none⟩ 2,
    .bind ⟨⟨0⟩, none⟩ (.primitive .lt), .bind ⟨⟨1⟩, none⟩ (.primitive .eq),
    .lookup ⟨0⟩ ⟨⟨1⟩, none⟩ 1]

/-- The stale entry has made room for one with the same target. -/
theorem call_site_invariant_rebound :
    ((twoCells.replay rebindAcross).site ⟨0⟩).entries = [⟨.primitive .eq, ⟨1⟩, 1⟩] ∧
    ((twoCells.replay rebindAcross).site ⟨0⟩).size ≤ 2 ∧
    (twoCells.findings ⟨0⟩ rebindAcross).countP (·.event = .recorded) = 1 + 1 := by
  obtain ⟨-, -, hsize, -, hrecorded⟩ :=
    call_site_invariant twoCells ⟨0⟩ rebindAcross (by decide) rfl
  refine ⟨rfl, hsize 2 fun callee limit hmem => ?_, hrecorded rfl⟩
  simp only [rebindAcross, List.mem_cons, CacheAct.lookup.injEq, List.not_mem_nil, or_false,
    false_or, reduceCtorEq] at hmem
  omega

end TreeMachine
