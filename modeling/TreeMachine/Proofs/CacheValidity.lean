import Mathlib.Algebra.Ring.Nat
import Mathlib.Data.List.Induction
import TreeMachine.Proofs.FailureOrigin
import TreeMachine.Store.Lemmas

set_option autoImplicit false

namespace TreeMachine

namespace CallSite

/-- The entries that survive when a lookup evicts the stale ones. -/
def live (cells : CellId → FunctionCell) (entries : List CacheEntry) : List CacheEntry :=
  entries.filter fun e => !e.isStale cells

theorem resolve_caching (entries : List CacheEntry) (cells : CellId → FunctionCell)
    (callee : CellId) (limit : Nat) :
    (∃ e ∈ live cells entries, e.target.sameEntry (cells callee).target = true ∧
      (caching entries).resolve cells callee limit =
        (⟨e.target, .direct, .hit, entries.length - (live cells entries).length⟩,
          caching (live cells entries))) ∨
    ((∀ e ∈ live cells entries, e.target.sameEntry (cells callee).target = false) ∧
      ((live cells entries).length < limit ∧
        (caching entries).resolve cells callee limit =
          (⟨(cells callee).target, .direct, .recorded,
              entries.length - (live cells entries).length⟩,
            caching (live cells entries ++
              [⟨(cells callee).target, callee, (cells callee).generation⟩])) ∨
      limit ≤ (live cells entries).length ∧
        (caching entries).resolve cells callee limit =
          (⟨(cells callee).target, .indirect, .wentMegamorphic,
              entries.length - (live cells entries).length⟩,
            megamorphic))) := by
  have hlive : (entries.filter fun e => !e.isStale cells) = live cells entries := rfl
  simp only [resolve, size, hlive, Bool.false_eq_true, if_false]
  cases hfind : (live cells entries).find? fun e => e.target.sameEntry (cells callee).target with
  | some e =>
    refine .inl ⟨e, List.mem_of_find?_eq_some hfind, ?_, rfl⟩
    simpa using List.find?_some hfind
  | none =>
    refine .inr ⟨by simpa using hfind, ?_⟩
    by_cases hroom : (live cells entries).length < limit
    · exact .inl ⟨hroom, by simp only [hroom, if_true]⟩
    · exact .inr ⟨Nat.not_lt.1 hroom, by simp only [hroom, if_false]⟩

theorem lookup_eq_ok {site site' : CallSite} {cells : CellId → FunctionCell} {callee : CellId}
    {limit : Nat} {found : Lookup} (h : site.lookup cells callee limit = .ok (found, site')) :
    (cells callee).target.isBound = true ∧ site.resolve cells callee limit = (found, site') := by
  unfold lookup at h
  split at h
  · rename_i hbound
    exact ⟨hbound, Except.ok.inj h⟩
  · cases h

theorem lookup_eq_error {site : CallSite} {cells : CellId → FunctionCell} {callee : CellId}
    {limit : Nat} {cause : Cause} (h : site.lookup cells callee limit = .error cause) :
    (cells callee).target = .unbound ∧ cause = .unboundFunction (cells callee).name := by
  unfold lookup at h
  split at h
  · cases h
  · rename_i hunbound
    exact ⟨Target.eq_unbound_of_isBound (Bool.eq_false_iff.2 hunbound), (Except.error.inj h).symm⟩

theorem mem_entries_resolve {site after : CallSite} {cells : CellId → FunctionCell}
    {callee : CellId} {limit : Nat} {found : Lookup} {e : CacheEntry}
    (hout : site.resolve cells callee limit = (found, after)) (h : e ∈ after.entries) :
    e ∈ site.entries ∨ found.event = .recorded ∧
      e = ⟨(cells callee).target, callee, (cells callee).generation⟩ := by
  cases site with
  | megamorphic =>
    obtain ⟨-, rfl⟩ := Prod.mk.inj hout
    exact .inl h
  | caching entries =>
    have hkept : ∀ e ∈ live cells entries, e ∈ entries := fun e he => (List.mem_filter.1 he).1
    have hcases := resolve_caching entries cells callee limit
    rw [hout] at hcases
    rcases hcases with ⟨_, -, -, heq⟩ | ⟨-, ⟨-, heq⟩ | ⟨-, heq⟩⟩
    · obtain ⟨-, rfl⟩ := Prod.mk.inj heq
      exact .inl (hkept e h)
    · obtain ⟨rfl, rfl⟩ := Prod.mk.inj heq
      rcases List.mem_append.1 h with hold | hnew
      · exact .inl (hkept e hold)
      · exact .inr ⟨rfl, List.mem_singleton.1 hnew⟩
    · obtain ⟨-, rfl⟩ := Prod.mk.inj heq
      cases h

end CallSite

/-- What is done to the function cells and the call sites of a store. -/
inductive CacheAct where
  | bind (closure : Closure) (target : Target)
  | lookup (site : SiteId) (callee : Closure) (limit : Nat)

def CacheAct.binds (cell : CellId) : CacheAct → Bool
  | bind closure _ => closure.cell == cell
  | lookup .. => false

namespace Store

def lookupAt (a : Store) (site : SiteId) (callee : Closure) (limit : Nat) :
    Except Cause (Lookup × CallSite) :=
  (a.site site).lookup a.cell callee.cell limit

def act (a : Store) : CacheAct → Store
  | .bind closure target => a.bind closure.cell target
  | .lookup site callee limit =>
    match a.lookupAt site callee limit with
    | .ok (_, found) => a.setSite site found
    | .error _ => a

def replay (a : Store) (acts : List CacheAct) : Store := acts.foldl act a

theorem replay_append (a : Store) (before after : List CacheAct) :
    a.replay (before ++ after) = (a.replay before).replay after := List.foldl_append ..

theorem replay_concat (a : Store) (acts : List CacheAct) (last : CacheAct) :
    a.replay (acts ++ [last]) = (a.replay acts).act last := replay_append a acts [last]

/-- The last of the acts is a lookup that records the entry at the site. -/
def Records (a : Store) (acts : List CacheAct) (site : SiteId) (e : CacheEntry) : Prop :=
  ∃ before callee limit found after,
    acts = before ++ [.lookup site callee limit] ∧
    (a.replay before).lookupAt site callee limit = .ok (found, after) ∧
    found.event = .recorded ∧
    e = ⟨found.target, callee.cell, ((a.replay before).cell callee.cell).generation⟩

/-- The cell of the entry was bound since the site recorded the entry. -/
def Rebound (a : Store) (acts : List CacheAct) (site : SiteId) (e : CacheEntry) : Prop :=
  ∃ before after, acts = before ++ after ∧ a.Records before site e ∧
    ∃ act ∈ after, act.binds e.cell = true

theorem lt_size_of_isBound {a : Store} {id : CellId} (h : (a.cell id).target.isBound = true) :
    id.index < a.cells.size := by
  refine Nat.lt_of_not_le fun hle => ?_
  simp [cell, Array.getD_eq_getD_getElem?, Array.getElem?_eq_none hle] at h

theorem cells_act (a : Store) (act : CacheAct) : (a.act act).cells.size = a.cells.size := by
  cases act with
  | bind closure target => simp [Store.act, bind]
  | lookup site callee limit =>
    simp only [Store.act]
    split <;> rfl

theorem sites_act (a : Store) (act : CacheAct) : (a.act act).sites.size = a.sites.size := by
  cases act with
  | bind closure target => rfl
  | lookup site callee limit =>
    simp only [Store.act]
    split
    · simp [setSite]
    · rfl

theorem sites_replay (a : Store) (acts : List CacheAct) :
    (a.replay acts).sites.size = a.sites.size := by
  induction acts generalizing a with
  | nil => rfl
  | cons act acts ih => exact (ih (a.act act)).trans (sites_act a act)

theorem cell_act_of_not_binds {a : Store} {act : CacheAct} {id : CellId}
    (h : act.binds id = false) : (a.act act).cell id = a.cell id := by
  cases act with
  | bind closure target =>
    have hne : closure.cell ≠ id := by simpa [CacheAct.binds] using h
    have hindex : closure.cell.index ≠ id.index := fun heq => hne (congrArg CellId.mk heq)
    simp only [Store.act, cell_bind, hindex, false_and, if_false]
  | lookup site callee limit =>
    simp only [Store.act]
    split <;> rfl

theorem generation_act_of_binds {a : Store} {act : CacheAct} {id : CellId}
    (hid : id.index < a.cells.size) (h : act.binds id = true) :
    ((a.act act).cell id).generation = (a.cell id).generation + 1 := by
  cases act with
  | bind closure target =>
    obtain rfl : closure.cell = id := by simpa [CacheAct.binds] using h
    simp only [Store.act, cell_bind, hid, and_self, if_true]
    rfl
  | lookup site callee limit => cases h

theorem generation_replay {a : Store} {id : CellId} (hid : id.index < a.cells.size)
    (acts : List CacheAct) :
    ((a.replay acts).cell id).generation =
      (a.cell id).generation + UInt64.ofNat (acts.countP (·.binds id)) := by
  induction acts generalizing a with
  | nil => simp [replay]
  | cons act acts ih =>
    have hrest := ih (a := a.act act) (by rw [cells_act]; exact hid)
    have hreplay : a.replay (act :: acts) = (a.act act).replay acts := rfl
    rw [hreplay, hrest]
    by_cases h : act.binds id = true
    · rw [generation_act_of_binds hid h, List.countP_cons_of_pos h, UInt64.ofNat_add,
        UInt64.add_assoc, UInt64.add_comm 1]
      rfl
    · rw [cell_act_of_not_binds (Bool.eq_false_iff.2 h), List.countP_cons_of_neg h]

theorem cell_replay_of_not_binds {a : Store} {acts : List CacheAct} {id : CellId}
    (h : ∀ act ∈ acts, act.binds id = false) : (a.replay acts).cell id = a.cell id := by
  induction acts generalizing a with
  | nil => rfl
  | cons act acts ih =>
    have hrest := ih (a := a.act act) fun other hother => h other (by simp [hother])
    exact hrest.trans (cell_act_of_not_binds (h act (by simp)))

theorem Records.cell {a : Store} {acts : List CacheAct} {site : SiteId} {e : CacheEntry}
    (h : a.Records acts site e) :
    e.target = ((a.replay acts).cell e.cell).target ∧
      e.generation = ((a.replay acts).cell e.cell).generation ∧ e.target.isBound = true := by
  obtain ⟨before, callee, limit, found, after, rfl, hlookup, -, rfl⟩ := h
  obtain ⟨hbound, -⟩ := CallSite.lookup_eq_ok hlookup
  rw [replay_concat, cell_act_of_not_binds rfl, CallSite.target_of_lookup hlookup]
  exact ⟨rfl, rfl, hbound⟩

theorem Records.isStale_iff {a : Store} {before after : List CacheAct} {site : SiteId}
    {e : CacheEntry} (h : a.Records before site e)
    (hbinds : after.countP (·.binds e.cell) < 2 ^ 64) :
    e.isStale (a.replay (before ++ after)).cell = true ↔
      ∃ act ∈ after, act.binds e.cell = true := by
  obtain ⟨htarget, hgeneration, hbound⟩ := h.cell
  have hid : e.cell.index < (a.replay before).cells.size :=
    lt_size_of_isBound (by rw [← htarget]; exact hbound)
  have hcount : UInt64.ofNat (after.countP (·.binds e.cell)) = 0 ↔
      after.countP (·.binds e.cell) = 0 := by
    rw [← UInt64.toNat_inj, UInt64.toNat_ofNat', Nat.mod_eq_of_lt hbinds]
    rfl
  rw [CacheEntry.isStale, replay_append, generation_replay hid, hgeneration, bne_iff_ne, ne_eq,
    UInt64.add_eq_left, hcount, List.countP_eq_zero]
  simp

theorem site_act_of_ne {a : Store} {act : CacheAct} {id : SiteId}
    (h : ∀ callee limit, act ≠ .lookup id callee limit) : (a.act act).site id = a.site id := by
  cases act with
  | bind closure target => rfl
  | lookup site callee limit =>
    simp only [Store.act]
    split
    · rw [site_setSite, if_neg]
      rintro ⟨hindex, -⟩
      exact h callee limit (by rw [show site = id from congrArg SiteId.mk hindex])
    · rfl

theorem act_of_lookup_error {a : Store} {site : SiteId} {callee : Closure} {limit : Nat}
    {cause : Cause} (h : a.lookupAt site callee limit = .error cause) :
    a.act (.lookup site callee limit) = a := by simp only [Store.act, h]

theorem site_act_of_lookup {a : Store} {site : SiteId} {callee : Closure} {limit : Nat}
    {found : Lookup} {after : CallSite} (h : a.lookupAt site callee limit = .ok (found, after)) :
    (a.act (.lookup site callee limit)).site site =
      if site.index < a.sites.size then after else a.site site := by
  simp only [Store.act, h, site_setSite, true_and]

theorem recorded_of_mem {a : Store} (hfresh : ∀ id, a.site id = .fresh) (acts : List CacheAct)
    {site : SiteId} {e : CacheEntry} (he : e ∈ ((a.replay acts).site site).entries) :
    ∃ before after, acts = before ++ after ∧ a.Records before site e := by
  induction acts using List.reverseRecOn with
  | nil =>
    simp only [replay, List.foldl_nil, hfresh] at he
    cases he
  | append_singleton acts last ih =>
    have hold : e ∈ ((a.replay acts).site site).entries →
        ∃ before after, acts ++ [last] = before ++ after ∧ a.Records before site e := by
      intro hmem
      obtain ⟨before, after, rfl, hrecords⟩ := ih hmem
      exact ⟨before, after ++ [last], by simp, hrecords⟩
    rw [replay_concat] at he
    by_cases hlast : ∃ callee limit, last = .lookup site callee limit
    · obtain ⟨callee, limit, rfl⟩ := hlast
      cases hlookup : (a.replay acts).lookupAt site callee limit with
      | error cause =>
        rw [act_of_lookup_error hlookup] at he
        exact hold he
      | ok out =>
        obtain ⟨found, after⟩ := out
        rw [site_act_of_lookup hlookup] at he
        split at he
        · obtain ⟨-, hresolve⟩ := CallSite.lookup_eq_ok hlookup
          rcases CallSite.mem_entries_resolve hresolve he with hmem | ⟨hevent, hnew⟩
          · exact hold hmem
          · refine ⟨_, [], (List.append_nil _).symm, acts, callee, limit, found, after, rfl,
              hlookup, hevent, ?_⟩
            rw [hnew, CallSite.target_of_lookup hlookup]
        · exact hold he
    · rw [site_act_of_ne fun callee limit heq => hlast ⟨callee, limit, heq⟩] at he
      exact hold he

theorem isStale_iff_rebound {a : Store} (hfresh : ∀ id, a.site id = .fresh)
    {acts : List CacheAct} (hbinds : ∀ c, acts.countP (·.binds c) < 2 ^ 64) {site : SiteId}
    {e : CacheEntry} (he : e ∈ ((a.replay acts).site site).entries) :
    e.isStale (a.replay acts).cell = true ↔ a.Rebound acts site e := by
  have hcount : ∀ before after, acts = before ++ after →
      after.countP (·.binds e.cell) < 2 ^ 64 := by
    rintro before after rfl
    have hall := hbinds e.cell
    rw [List.countP_append] at hall
    omega
  constructor
  · intro hstale
    obtain ⟨before, after, hsplit, hrecords⟩ := recorded_of_mem hfresh acts he
    have hiff := hrecords.isStale_iff (hcount before after hsplit)
    rw [← hsplit] at hiff
    exact ⟨before, after, hsplit, hrecords, hiff.1 hstale⟩
  · rintro ⟨before, after, hsplit, hrecords, hbound⟩
    have hiff := hrecords.isStale_iff (hcount before after hsplit)
    rw [← hsplit] at hiff
    exact hiff.2 hbound

theorem target_of_not_stale {a : Store} (hfresh : ∀ id, a.site id = .fresh)
    {acts : List CacheAct} (hbinds : ∀ c, acts.countP (·.binds c) < 2 ^ 64) {site : SiteId}
    {e : CacheEntry} (he : e ∈ ((a.replay acts).site site).entries)
    (hlive : e.isStale (a.replay acts).cell = false) :
    e.target = ((a.replay acts).cell e.cell).target ∧ e.target.isBound = true := by
  obtain ⟨before, after, rfl, hrecords⟩ := recorded_of_mem hfresh acts he
  have hnot : ∀ act ∈ after, act.binds e.cell = false := by
    intro act hact
    refine Bool.eq_false_iff.2 fun hbound => ?_
    have hstale := (isStale_iff_rebound hfresh hbinds he).2
      ⟨before, after, rfl, hrecords, act, hact, hbound⟩
    rw [hlive] at hstale
    cases hstale
  obtain ⟨htarget, -, hbound⟩ := hrecords.cell
  rw [replay_append, cell_replay_of_not_binds hnot]
  exact ⟨htarget, hbound⟩

open Classical in
theorem live_eq_filter {a : Store} (hfresh : ∀ id, a.site id = .fresh) {acts : List CacheAct}
    (hbinds : ∀ c, acts.countP (·.binds c) < 2 ^ 64) {site : SiteId} {entries : List CacheEntry}
    (hentries : (a.replay acts).site site = .caching entries) :
    CallSite.live (a.replay acts).cell entries =
      entries.filter fun e => ¬ a.Rebound acts site e := by
  refine List.filter_congr fun e he => ?_
  have hstale : e.isStale (a.replay acts).cell = decide (a.Rebound acts site e) := by
    rw [Bool.eq_iff_iff, decide_eq_true_iff]
    exact isStale_iff_rebound hfresh hbinds (by rw [hentries]; exact he)
  rw [hstale, decide_not]

open Classical in
theorem length_sub_live {a : Store} (hfresh : ∀ id, a.site id = .fresh) {acts : List CacheAct}
    (hbinds : ∀ c, acts.countP (·.binds c) < 2 ^ 64) {site : SiteId} {entries : List CacheEntry}
    (hentries : (a.replay acts).site site = .caching entries) :
    entries.length - (CallSite.live (a.replay acts).cell entries).length =
      entries.countP fun e => a.Rebound acts site e := by
  have hlength := List.length_eq_countP_add_countP
    (fun e => decide (a.Rebound acts site e)) (l := entries)
  rw [live_eq_filter hfresh hbinds hentries, ← List.countP_eq_length_filter]
  simp only [decide_eq_true_eq] at hlength
  omega

end Store

open Classical in
/-- An entry is stale just when its cell was bound since the entry was recorded, and a lookup that
succeeds evicts the stale entries and no others. -/
theorem cache_entries_valid (a : Store) (acts : List CacheAct)
    (hfresh : ∀ id, a.site id = .fresh) (hbinds : ∀ c, acts.countP (·.binds c) < 2 ^ 64) :
    (∀ site, ∀ e ∈ ((a.replay acts).site site).entries,
      ∃ before after, acts = before ++ after ∧ a.Records before site e) ∧
    (∀ before after site e, acts = before ++ after → a.Records before site e →
      (e.isStale (a.replay acts).cell = true ↔ ∃ act ∈ after, act.binds e.cell = true)) ∧
    (∀ site, ∀ e ∈ ((a.replay acts).site site).entries, e.isStale (a.replay acts).cell = false →
      e.target = ((a.replay acts).cell e.cell).target ∧ e.target.isBound = true) ∧
    (∀ site callee limit entries found after, site.index < a.sites.size →
      (a.replay acts).site site = .caching entries →
      (a.replay acts).lookupAt site callee limit = .ok (found, after) →
      let survivors := CallSite.live (a.replay acts).cell entries
      found.evicted = entries.countP (fun e => a.Rebound acts site e) ∧
      survivors = entries.filter (fun e => ¬ a.Rebound acts site e) ∧
      (a.replay (acts ++ [.lookup site callee limit])).site site = after ∧
      (found.event = .hit ∧ after = .caching survivors ∨
        found.event = .recorded ∧ after = .caching (survivors ++
          [⟨found.target, callee.cell, ((a.replay acts).cell callee.cell).generation⟩]) ∨
        found.event = .wentMegamorphic ∧ limit ≤ survivors.length ∧ after = .megamorphic)) ∧
    (∀ site callee limit cause, (a.replay acts).lookupAt site callee limit = .error cause →
      cause = .unboundFunction ((a.replay acts).cell callee.cell).name ∧
      a.replay (acts ++ [.lookup site callee limit]) = a.replay acts) := by
  refine ⟨fun site e he => Store.recorded_of_mem hfresh acts he, ?_, ?_, ?_, ?_⟩
  · rintro before after site e rfl hrecords
    refine hrecords.isStale_iff ?_
    have hall := hbinds e.cell
    rw [List.countP_append] at hall
    omega
  · intro site e he hlive
    exact Store.target_of_not_stale hfresh hbinds he hlive
  · intro site callee limit entries found after hsite hentries hlookup survivors
    have hothers := Store.live_eq_filter hfresh hbinds hentries
    have hafter : (a.replay (acts ++ [.lookup site callee limit])).site site = after := by
      rw [Store.replay_concat, Store.site_act_of_lookup hlookup, Store.sites_replay, if_pos hsite]
    obtain ⟨-, hresolve⟩ := CallSite.lookup_eq_ok hlookup
    rw [hentries] at hresolve
    have hcases := CallSite.resolve_caching entries (a.replay acts).cell callee.cell limit
    rw [Store.length_sub_live hfresh hbinds hentries, hresolve] at hcases
    rcases hcases with ⟨e, -, -, hout⟩ | ⟨-, ⟨-, hout⟩ | ⟨hlimit, hout⟩⟩
    · obtain ⟨rfl, rfl⟩ := Prod.mk.inj hout
      exact ⟨rfl, hothers, hafter, .inl ⟨rfl, rfl⟩⟩
    · obtain ⟨rfl, rfl⟩ := Prod.mk.inj hout
      exact ⟨rfl, hothers, hafter, .inr (.inl ⟨rfl, rfl⟩)⟩
    · obtain ⟨rfl, rfl⟩ := Prod.mk.inj hout
      exact ⟨rfl, hothers, hafter, .inr (.inr ⟨rfl, hlimit, rfl⟩)⟩
  · intro site callee limit cause herror
    refine ⟨(CallSite.lookup_eq_error herror).2, ?_⟩
    rw [Store.replay_concat, Store.act_of_lookup_error herror]

def declaredStore : Store := { cells := #[⟨"f", .unbound, 0⟩], sites := #[.fresh] }

def rebindToSame : List CacheAct :=
  [.bind ⟨⟨0⟩, none⟩ (.primitive .eq), .lookup ⟨0⟩ ⟨⟨0⟩, none⟩ 2,
    .bind ⟨⟨0⟩, none⟩ (.primitive .eq)]

/-- The entry is stale, although its target is that of the cell. -/
theorem cache_entries_valid_rebound :
    ((declaredStore.replay rebindToSame).site ⟨0⟩).entries = [⟨.primitive .eq, ⟨0⟩, 1⟩] ∧
    ((declaredStore.replay rebindToSame).cell ⟨0⟩).target = .primitive .eq ∧
    CacheEntry.isStale (declaredStore.replay rebindToSame).cell ⟨.primitive .eq, ⟨0⟩, 1⟩ =
      true := by
  have hfresh : ∀ id, declaredStore.site id = .fresh := by
    rintro ⟨index⟩
    cases index with
    | zero => rfl
    | succ index => rfl
  have hbinds : ∀ c, rebindToSame.countP (·.binds c) < 2 ^ 64 := fun c =>
    Nat.lt_of_le_of_lt List.countP_le_length (by decide)
  refine ⟨rfl, rfl, ?_⟩
  refine ((cache_entries_valid declaredStore rebindToSame hfresh hbinds).2.1
    (rebindToSame.take 2) (rebindToSame.drop 2) ⟨0⟩ _ rfl ?_).2 ?_
  · exact ⟨rebindToSame.take 1, ⟨⟨0⟩, none⟩, 2, _, _, rfl, rfl, rfl, rfl⟩
  · exact ⟨_, List.mem_singleton.2 rfl, rfl⟩

end TreeMachine
