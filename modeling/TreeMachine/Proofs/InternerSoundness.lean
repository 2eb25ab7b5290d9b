import Mathlib.Algebra.BigOperators.Fin
import TreeMachine.Symbol.Interner

set_option autoImplicit false

namespace TreeMachine.Symbol

namespace Handle

theorem shard_eq (h : Handle) : h.shard = h.raw.toNat / 2 ^ 29 := by
  simp [shard, UInt32.toNat_shiftRight, Nat.shiftRight_eq_div_pow]

theorem place_eq (h : Handle) : h.place = h.raw.toNat % 2 ^ 29 := by
  have hmask : (0x1FFFFFFF : UInt32).toNat = 2 ^ 29 - 1 := by decide
  rw [place, UInt32.toNat_and, hmask, Nat.and_two_pow_sub_one_eq_mod]

theorem shard_lt (h : Handle) : h.shard < shardCount := by
  have hraw := h.raw.toNat_lt
  rw [shard_eq]
  unfold shardCount
  omega

theorem place_le (h : Handle) : h.place ≤ maxPlace := by
  rw [place_eq]
  unfold maxPlace
  omega

theorem pack_shard_place (h : Handle) : pack h.shard h.place = h := by
  have hraw : (pack h.shard h.place).raw = h.raw := by
    apply UInt32.toNat_inj.1
    rw [toNat_raw_pack h.shard_lt h.place_le, shard_eq, place_eq]
    unfold maxPlace
    omega
  cases h
  exact congrArg Handle.mk hraw

end Handle

/-- The places of the shard and its strings are inverse to each other, and the strings belong
there. -/
structure Shard.Sound (d : Shard) (i : Fin shardCount) : Prop where
  inverse : ∀ (s : String) (p : Nat), d.places[s]? = some p ↔ d.strings[p]? = some s
  belongs : ∀ (p : Nat) (s : String), d.strings[p]? = some s → shardOf s = i
  room : d.strings.size ≤ maxPlace + 1

namespace Shard.Sound

variable {d : Shard} {i : Fin shardCount}

theorem place_le (h : d.Sound i) {p : Nat} {s : String} (hp : d.strings[p]? = some s) :
    p ≤ maxPlace := by
  obtain ⟨hlt, -⟩ := Array.getElem?_eq_some_iff.1 hp
  have hroom := h.room
  omega

theorem nodup (h : d.Sound i) : d.strings.toList.Nodup := by
  rw [List.nodup_iff_getElem?_ne_getElem?]
  intro p q hpq hq heq
  simp only [Array.length_toList, Array.getElem?_toList] at hq heq
  obtain ⟨s, hs⟩ : ∃ s, d.strings[q]? = some s := ⟨_, Array.getElem?_eq_getElem hq⟩
  have hp := (h.inverse s p).2 (heq.trans hs)
  rw [(h.inverse s q).2 hs] at hp
  have hqp := Option.some.inj hp
  omega

theorem add (h : d.Sound i) {s : String} (hs : d.places[s]? = none) (hi : shardOf s = i)
    (hroom : d.strings.size ≤ maxPlace) : (d.add s).Sound i := by
  refine ⟨fun u p => ?_, fun p u hp => ?_, ?_⟩
  · rw [strings_add, places_add, Std.HashMap.getElem?_insert, Array.getElem?_push]
    by_cases hu : s = u
    · subst hu
      have hnew : ∀ q, d.strings[q]? ≠ some s := fun q hq => by
        rw [(h.inverse s q).2 hq] at hs
        cases hs
      by_cases hp : p = d.strings.size
      · simp [hp]
      · simp [hp, Ne.symm hp, hnew p]
    · by_cases hp : p = d.strings.size
      · have hnone : d.places[u]? ≠ some p := fun hplace => by
          obtain ⟨hlt, -⟩ := Array.getElem?_eq_some_iff.1 ((h.inverse u p).1 hplace)
          omega
        simp [hu, hp]
        exact hp ▸ hnone
      · simp [hu, hp, h.inverse u p]
  · rw [strings_add, Array.getElem?_push] at hp
    split at hp
    · obtain rfl := Option.some.inj hp
      exact hi
    · exact h.belongs p u hp
  · simp only [strings_add, Array.size_push]
    omega

end Shard.Sound

namespace Interner

def stored (t : Interner) : List String :=
  (List.finRange shardCount).flatMap fun i => (t.shards.get i).strings.toList

def add (t : Interner) (s : String) : Interner :=
  { shards := t.shards.set (shardOf s) ((t.shards.get (shardOf s)).add s) (shardOf s).isLt
    size := t.size + 1 }

def internAll (t : Interner) (ss : List String) : Interner :=
  ss.foldl (fun t s => (t.intern s).2) t

theorem mem_stored {t : Interner} {s : String} :
    s ∈ t.stored ↔ ∃ (i : Fin shardCount) (p : Nat), (t.shards.get i).strings[p]? = some s := by
  rw [stored, List.mem_flatMap]
  constructor
  · rintro ⟨i, -, hs⟩
    obtain ⟨p, hp⟩ := List.mem_iff_getElem?.1 hs
    exact ⟨i, p, by simpa using hp⟩
  · rintro ⟨i, p, hp⟩
    exact ⟨i, List.mem_finRange i, List.mem_iff_getElem?.2 ⟨p, by simpa using hp⟩⟩

theorem get_set (xs : Vector Shard shardCount) (i j : Fin shardCount) (d : Shard) :
    (xs.set i d i.isLt).get j = if i = j then d else xs.get j := by
  have hget : ∀ ys : Vector Shard shardCount, ys.get j = ys[j.val] := fun _ => rfl
  rw [hget, hget, Vector.getElem_set]
  simp only [Fin.ext_iff]

theorem get_add (t : Interner) (s : String) (i : Fin shardCount) :
    (t.add s).shards.get i =
      if shardOf s = i then (t.shards.get i).add s else t.shards.get i := by
  rw [add, get_set]
  split
  · rename_i hi
    rw [hi]
  · rfl

theorem intern_cases (t : Interner) (s : String) :
    (∃ p, (t.shards.get (shardOf s)).places[s]? = some p ∧
      t.intern s = (.ok (.pack (shardOf s) p), t)) ∨
    ((t.shards.get (shardOf s)).places[s]? = none ∧
      (((t.shards.get (shardOf s)).strings.size ≤ maxPlace ∧
        t.intern s =
          (.ok (.pack (shardOf s) (t.shards.get (shardOf s)).strings.size), t.add s)) ∨
      (maxPlace < (t.shards.get (shardOf s)).strings.size ∧
        t.intern s =
          (.error (.shardFull (shardOf s) (t.shards.get (shardOf s)).strings.size), t)))) := by
  cases hplace : (t.shards.get (shardOf s)).places[s]? with
  | some p =>
    refine .inl ⟨p, rfl, ?_⟩
    simp only [intern, hplace]
  | none =>
    refine .inr ⟨rfl, ?_⟩
    by_cases hroom : (t.shards.get (shardOf s)).strings.size ≤ maxPlace
    · refine .inl ⟨hroom, ?_⟩
      simp only [intern, hplace, hroom, if_true]
      rfl
    · refine .inr ⟨by omega, ?_⟩
      simp only [intern, hplace, hroom, if_false]

theorem lookup?_pack (t : Interner) (i : Fin shardCount) {p : Nat} (hp : p ≤ maxPlace) :
    t.lookup? (.pack i p) = (t.shards.get i).strings[p]? := by
  rw [lookup?, Handle.shard_pack i.isLt hp, Handle.place_pack i.isLt hp,
    Vector.getElem?_eq_getElem i.isLt]
  rfl

theorem lookup?_eq (t : Interner) (n : Handle) :
    t.lookup? n = (t.shards.get ⟨n.shard, n.shard_lt⟩).strings[n.place]? := by
  rw [← lookup?_pack t ⟨n.shard, n.shard_lt⟩ n.place_le, Handle.pack_shard_place]

/-- All shards are in order, the size counts their strings, and the empty string is the first. -/
structure Sound (t : Interner) : Prop where
  shard : ∀ i, (t.shards.get i).Sound i
  size : t.size = ∑ i, (t.shards.get i).strings.size
  first : (t.shards.get ⟨0, by decide⟩).strings[0]? = some ""

theorem sum_succ {n : Nat} {f g : Fin n → Nat} (i : Fin n) (hi : f i = g i + 1)
    (hother : ∀ j, i ≠ j → f j = g j) : ∑ j, f j = ∑ j, g j + 1 := by
  have hf : ∀ j, f j = g j + if i = j then 1 else 0 := by
    intro j
    by_cases hj : i = j
    · simp [← hj, hi]
    · simp [hj, hother j hj]
  simp only [hf, Finset.sum_add_distrib, Finset.sum_ite_eq, Finset.mem_univ, if_true]

theorem get_empty (i : Fin shardCount) :
    empty.shards.get i = if shardOf "" = i then Shard.add {} "" else {} := by
  have hfirst : shardOf "" = ⟨0, by decide⟩ := by decide
  have hnone : (Vector.replicate shardCount ({} : Shard)).get i = {} :=
    Vector.getElem_replicate i.isLt
  have hset := get_set (Vector.replicate shardCount {}) ⟨0, by decide⟩ i (Shard.add {} "")
  rw [hnone] at hset
  rw [hfirst]
  exact hset

theorem sound_empty : empty.Sound := by
  have hnone : ∀ i, Shard.Sound {} i := by
    intro i
    exact ⟨by simp, by simp, by simp⟩
  refine ⟨fun i => ?_, ?_, ?_⟩
  · rw [get_empty]
    split
    · rename_i hi
      exact (hnone i).add (by simp) hi (by simp)
    · exact hnone i
  · rw [sum_succ (g := fun _ => 0) (shardOf "")]
    · rfl
    · rw [get_empty, if_pos rfl]
      simp
    · intro j hj
      rw [get_empty, if_neg hj]
      rfl
  · rw [get_empty, if_pos (by decide)]
    simp

namespace Sound

variable {t : Interner}

theorem add (h : t.Sound) {s : String} (hs : (t.shards.get (shardOf s)).places[s]? = none)
    (hroom : (t.shards.get (shardOf s)).strings.size ≤ maxPlace) : (t.add s).Sound := by
  refine ⟨fun i => ?_, ?_, ?_⟩
  · rw [get_add]
    split
    · rename_i hi
      subst hi
      exact (h.shard _).add hs rfl hroom
    · exact h.shard i
  · have hsum : ∑ i, ((t.add s).shards.get i).strings.size =
        ∑ i, (t.shards.get i).strings.size + 1 := by
      refine sum_succ (shardOf s) ?_ fun j hj => ?_
      · simp [get_add]
      · rw [get_add, if_neg hj]
    rw [hsum, ← h.size]
    rfl
  · rw [get_add]
    split
    · rw [Shard.strings_add, Array.getElem?_push, h.first]
      obtain ⟨hlt, -⟩ := Array.getElem?_eq_some_iff.1 h.first
      rw [if_neg (by omega)]
    · exact h.first

theorem intern (h : t.Sound) (s : String) : (t.intern s).2.Sound := by
  rcases t.intern_cases s with ⟨p, -, heq⟩ | ⟨hnew, ⟨hroom, heq⟩ | ⟨-, heq⟩⟩
  · rw [heq]
    exact h
  · rw [heq]
    exact h.add hnew hroom
  · rw [heq]
    exact h

theorem internAll (h : t.Sound) (ss : List String) : (t.internAll ss).Sound := by
  induction ss generalizing t with
  | nil => exact h
  | cons s ss ih => exact ih (h.intern s)

theorem nodup_stored (h : t.Sound) : t.stored.Nodup := by
  rw [stored, List.nodup_flatMap]
  refine ⟨fun i _ => (h.shard i).nodup, ?_⟩
  refine (List.nodup_finRange _).imp ?_
  intro i j hij s hi hj
  simp only [List.mem_iff_getElem?, Array.getElem?_toList] at hi hj
  obtain ⟨p, hp⟩ := hi
  obtain ⟨q, hq⟩ := hj
  exact hij (((h.shard i).belongs p s hp).symm.trans ((h.shard j).belongs q s hq))

theorem length_stored (h : t.Sound) : t.stored.length = t.size := by
  rw [h.size, stored, List.length_flatMap, Fin.sum_univ_def]
  simp only [Array.length_toList]

theorem lookup?_eq_some_iff (h : t.Sound) {n : Handle} {s : String} :
    t.lookup? n = some s ↔ t.intern s = (.ok n, t) := by
  constructor
  · intro hn
    rw [lookup?_eq] at hn
    have hi := (h.shard _).belongs _ _ hn
    have hplace := ((h.shard _).inverse _ _).2 hn
    rw [← hi] at hplace
    rcases t.intern_cases s with ⟨p, hp, heq⟩ | ⟨hnew, -⟩
    · obtain rfl := Option.some.inj (hp.symm.trans hplace)
      rw [heq, hi]
      simp only [Handle.pack_shard_place]
    · rw [hplace] at hnew
      cases hnew
  · intro hs
    rcases t.intern_cases s with ⟨p, hp, heq⟩ | ⟨-, ⟨-, heq⟩ | ⟨-, heq⟩⟩
    · rw [heq] at hs
      obtain rfl := Except.ok.inj (Prod.mk.inj hs).1
      have hstring := ((h.shard _).inverse _ _).1 hp
      rw [lookup?_pack t _ ((h.shard _).place_le hstring)]
      exact hstring
    · rw [heq] at hs
      have hsize := congrArg Interner.size (Prod.mk.inj hs).2
      simp [Interner.add] at hsize
    · rw [heq] at hs
      cases (Prod.mk.inj hs).1

theorem mem_stored_iff (h : t.Sound) {s : String} :
    s ∈ t.stored ↔ ∃ p, (t.shards.get (shardOf s)).places[s]? = some p := by
  rw [mem_stored]
  constructor
  · rintro ⟨i, p, hp⟩
    obtain rfl := (h.shard i).belongs p s hp
    exact ⟨p, ((h.shard _).inverse s p).2 hp⟩
  · rintro ⟨p, hp⟩
    exact ⟨shardOf s, p, ((h.shard _).inverse s p).1 hp⟩

theorem lookup?_of_intern (h : t.Sound) {s : String} {n : Handle} {t' : Interner}
    (hs : t.intern s = (.ok n, t')) : t'.lookup? n = some s := by
  rcases t.intern_cases s with ⟨p, -, heq⟩ | ⟨-, ⟨hroom, heq⟩ | ⟨-, heq⟩⟩
  · rw [heq] at hs
    obtain ⟨hn, rfl⟩ := Prod.mk.inj hs
    obtain rfl := Except.ok.inj hn
    exact h.lookup?_eq_some_iff.2 heq
  · rw [heq] at hs
    obtain ⟨hn, rfl⟩ := Prod.mk.inj hs
    obtain rfl := Except.ok.inj hn
    rw [lookup?_pack _ _ hroom, get_add]
    simp
  · rw [heq] at hs
    cases (Prod.mk.inj hs).1

theorem intern_eq_error_iff (h : t.Sound) {s : String} {e : InternError} :
    (t.intern s).1 = .error e ↔
      s ∉ t.stored ∧ (t.shards.get (shardOf s)).strings.size = maxPlace + 1 ∧
        e = .shardFull (shardOf s) (maxPlace + 1) := by
  have hroom := (h.shard (shardOf s)).room
  rw [h.mem_stored_iff]
  rcases t.intern_cases s with ⟨p, hp, heq⟩ | ⟨hnew, ⟨hfree, heq⟩ | ⟨hfull, heq⟩⟩
  · simp [heq, hp]
  · simp only [heq, hnew]
    constructor
    · intro herror
      cases herror
    · rintro ⟨-, hsize, -⟩
      omega
  · have hsize : (t.shards.get (shardOf s)).strings.size = maxPlace + 1 := by omega
    rw [heq, hnew, hsize]
    constructor
    · intro herror
      exact ⟨by simp, rfl, (Except.error.inj herror).symm⟩
    · rintro ⟨-, -, rfl⟩
      rfl

end Sound

theorem intern_of_error {t : Interner} {s : String} {e : InternError}
    (h : (t.intern s).1 = .error e) : (t.intern s).2 = t := by
  rcases t.intern_cases s with ⟨p, -, heq⟩ | ⟨-, ⟨-, heq⟩ | ⟨-, heq⟩⟩
  · rw [heq] at h
    cases h
  · rw [heq] at h
    cases h
  · rw [heq]

theorem lookup?_intern {t : Interner} {n : Handle} {s : String} (h : t.lookup? n = some s)
    (u : String) : (t.intern u).2.lookup? n = some s := by
  rcases t.intern_cases u with ⟨p, -, heq⟩ | ⟨-, ⟨-, heq⟩ | ⟨-, heq⟩⟩
  · rw [heq]
    exact h
  · rw [heq]
    rw [lookup?_eq] at h ⊢
    rw [get_add]
    split
    · obtain ⟨hlt, -⟩ := Array.getElem?_eq_some_iff.1 h
      rw [Shard.strings_add, Array.getElem?_push, if_neg (by omega), h]
    · exact h
  · rw [heq]
    exact h

theorem lookup?_internAll {t : Interner} {n : Handle} {s : String} (h : t.lookup? n = some s)
    (us : List String) : (t.internAll us).lookup? n = some s := by
  induction us generalizing t with
  | nil => exact h
  | cons u us ih => exact ih (lookup?_intern h u)

theorem sound_fresh : fresh.Sound := sound_empty.internAll builtins

theorem lookup?_empty {t : Interner} (h : t.Sound) : t.lookup? .empty = some "" := by
  rw [lookup?_eq]
  exact h.first

end Interner

open Interner

/-- Strings and handles are one to one, for good; a call fails just when its string is new and its
shard is full. -/
theorem interner_sound (ss : List String) :
    (∀ shard place, shard < shardCount → place ≤ maxPlace →
      (Handle.pack shard place).shard = shard ∧ (Handle.pack shard place).place = place) ∧
    let t := fresh.internAll ss
    (∀ i, (t.shards.get i).Sound i) ∧
    (t.stored.Nodup ∧ t.size = t.stored.length) ∧
    (∀ s n t', t.intern s = (.ok n, t') →
      (∀ us, (t'.internAll us).lookup? n = some s) ∧
      (n.isEmpty = true ↔ s = "") ∧
      ∀ us s' n' t'', (t'.internAll us).intern s' = (.ok n', t'') → (n = n' ↔ s = s')) ∧
    (∀ n s, t.lookup? n = some s ↔ s ∈ t.stored ∧ t.intern s = (.ok n, t)) ∧
    (∀ s, (∃ e, (t.intern s).1 = .error e) ↔
      s ∉ t.stored ∧ (t.shards.get (shardOf s)).strings.size = 2 ^ 29) ∧
    ∀ s e, (t.intern s).1 = .error e →
      (t.intern s).2 = t ∧ e = .shardFull (shardOf s) (2 ^ 29) := by
  refine ⟨fun shard place hshard hplace =>
    ⟨Handle.shard_pack hshard hplace, Handle.place_pack hshard hplace⟩, ?_⟩
  intro t
  have ht : t.Sound := sound_fresh.internAll ss
  refine ⟨ht.shard, ⟨ht.nodup_stored, ht.length_stored.symm⟩, fun s n t' hs => ?_,
    fun n s => ⟨fun hn => ?_, fun hs => ht.lookup?_eq_some_iff.2 hs.2⟩,
    fun s => ?_, fun s e he => ⟨intern_of_error he, (ht.intern_eq_error_iff.1 he).2.2⟩⟩
  · have ht' : t'.Sound := by
      have hsound := ht.intern s
      rwa [hs] at hsound
    have hn := ht.lookup?_of_intern hs
    refine ⟨lookup?_internAll hn, ?_, fun us s' n' t'' hs' => ?_⟩
    · rw [Handle.isEmpty, beq_iff_eq]
      constructor
      · rintro rfl
        rw [lookup?_empty ht'] at hn
        exact (Option.some.inj hn).symm
      · rintro rfl
        rw [ht.lookup?_eq_some_iff.1 (lookup?_empty ht)] at hs
        exact (Except.ok.inj (Prod.mk.inj hs).1).symm
    · have hlater := lookup?_internAll hn us
      have hn' := (ht'.internAll us).lookup?_of_intern hs'
      constructor
      · rintro rfl
        have hboth := lookup?_intern hlater s'
        rw [hs', hn'] at hboth
        exact (Option.some.inj hboth).symm
      · rintro rfl
        rw [(ht'.internAll us).lookup?_eq_some_iff.1 hlater] at hs'
        exact Except.ok.inj (Prod.mk.inj hs').1
  · have hs := ht.lookup?_eq_some_iff.1 hn
    refine ⟨?_, hs⟩
    rw [lookup?_eq] at hn
    exact mem_stored.2 ⟨_, _, hn⟩
  · constructor
    · rintro ⟨e, he⟩
      obtain ⟨hnew, hfull, -⟩ := ht.intern_eq_error_iff.1 he
      exact ⟨hnew, hfull⟩
    · rintro ⟨hnew, hfull⟩
      exact ⟨_, ht.intern_eq_error_iff.2 ⟨hnew, hfull, rfl⟩⟩

end TreeMachine.Symbol
